import SemanticTrees.Lowering.Value
import SemanticTrees.Proofs.Lowering.Ownership

/-! Every form of expression is lowered to one operation that nothing uses, whichever of its rules
applies. A receiver that a rule lowers without using it is dropped. -/
namespace SemanticTrees.Context

open Lowering

variable {c : Context} {id receiver callee body : SyntaxId} {symbol member : SymbolId}
  {arguments : List SyntaxId} {candidates : List SymbolId}

@[simp] theorem children_lateBound (kind : OperationKind) (id : SyntaxId) :
    (c.lateBound kind id).children = kind.children := by
  unfold lateBound
  dsimp only
  split <;> simp

theorem implicitReceiver_fresh : FreshOption (c.implicitReceiver member id) := by
  unfold implicitReceiver
  split
  · exact .none
  · split
    · exact .none
    · exact Fresh.optional (Trades.emit (by simp [OperationKind.children]))

theorem firstImplicitReceiver_fresh (id : SyntaxId) :
    (candidates : List SymbolId) → FreshOption (c.firstImplicitReceiver id candidates)
  | [] => .none
  | member :: rest => by
    unfold firstImplicitReceiver
    refine Trades.bind implicitReceiver_fresh fun receiver => ?_
    cases receiver with
    | none => exact firstImplicitReceiver_fresh id rest
    | some receiver => exact Trades.pure (.refl _)

theorem referenceKind_children {receiver : Option OperationId} {kind : OperationKind}
    (chosen : c.referenceKind symbol receiver = some kind) :
    kind.children.Subperm receiver.toList := by
  unfold referenceKind at chosen
  split at chosen
  · contradiction
  · split at chosen <;> cases chosen <;> simp [OperationKind.children]

theorem reference_trades (receiver : Option OperationId) :
    Trades (c.reference id symbol receiver) receiver.toList fun i => [i] := by
  unfold reference
  split
  · next kind chosen => exact emitValued_trades (referenceKind_children chosen)
  · exact invalidExpression_trades (.refl _)

namespace WalksFresh

variable (h : c.WalksFresh)
include h

theorem lateBoundReceiver (receiver : Option SyntaxId) :
    FreshOption (c.lateBoundReceiver id receiver candidates) := by
  unfold Context.lateBoundReceiver
  split
  · split
    · exact .none
    · exact (h.expression _).optional
  · exact firstImplicitReceiver_fresh id candidates

theorem lateBoundMember (receiver : Option SyntaxId) (name : String) (typeArguments : List TypeId)
    (called : Bool) :
    Fresh (c.lateBoundMember id receiver name typeArguments candidates called) := by
  unfold Context.lateBoundMember
  exact Trades.bind (h.lateBoundReceiver receiver) fun receiver =>
    .emit (by simp [OperationKind.children])

theorem name (text : String) : Fresh (c.name id text) := by
  unfold Context.name
  split
  · exact h.lateBoundMember _ _ _ _
  · split
    · exact invalidExpression_trades (.refl _)
    · exact Trades.bind implicitReceiver_fresh fun receiver => reference_trades receiver

theorem memberAccess (name : String) (typeArguments : List TypeId) :
    Fresh (c.memberAccess id receiver name typeArguments) := by
  unfold Context.memberAccess
  split
  · exact h.lateBoundMember _ _ _ _
  · split
    · exact Trades.bind (h.expression? _) fun receiver => reference_trades receiver
    · exact Trades.bind (h.expression? _) fun receiver => invalidExpression_trades (.refl _)

theorem lateBoundTarget : Fresh (c.lateBoundTarget callee candidates) := by
  unfold Context.lateBoundTarget
  split
  · exact h.lateBoundMember _ _ _ _
  · split
    · exact h.lateBoundMember _ _ _ _
    · exact h.expression callee
  · exact h.expression callee

/-- An argument that is resolved at run time gives its value back. -/
theorem lateBoundArgument (id : SyntaxId) :
    Trades (c.lateBoundArgument id) [] fun argument => [argument.value] :=
  Trades.bind (h.expression id) fun _ => .pure (.refl _)

theorem lateBoundArguments (arguments : List SyntaxId) :
    Trades (arguments.mapM c.lateBoundArgument) [] fun values =>
      values.map DynamicArgument.value := by
  have all := Trades.mapM h.lateBoundArgument arguments
  simp only [← List.map_eq_flatMap] at all
  exact all

theorem lateBoundCall : Fresh (c.lateBoundCall id callee arguments candidates) := by
  unfold Context.lateBoundCall
  exact Trades.bind h.lateBoundTarget fun target =>
    Trades.bind (h.lateBoundArguments arguments) fun values =>
      .emit (by simp [OperationKind.children, DynamicAccess.withArguments])

theorem lateBoundElement : Fresh (c.lateBoundElement id receiver arguments) := by
  unfold Context.lateBoundElement
  exact Trades.bind (h.expression receiver) fun target =>
    Trades.bind (h.lateBoundArguments arguments) fun values =>
      .emit (by simp [OperationKind.children, DynamicAccess.withArguments])

theorem lateBoundCreation (type : TypeId) : Fresh (c.lateBoundCreation id type arguments) := by
  unfold Context.lateBoundCreation
  exact Trades.bind (h.lateBoundArguments arguments) fun values =>
    .emit (by simp [OperationKind.children, DynamicAccess.withArguments])

omit h in
theorem defaultArgument (call : SyntaxId) (parameter : SymbolId) :
    Fresh (c.defaultArgument call parameter) := by
  unfold Context.defaultArgument
  exact Trades.bind (.emit (by simp [OperationKind.children])) fun value =>
    .emit (by simp [OperationKind.children])

theorem boundArgument (call : SyntaxId) (binding : Binding) :
    Fresh (c.boundArgument call binding) := by
  unfold Context.boundArgument
  split
  · exact defaultArgument call _
  · exact Trades.bind (h.expression _) fun value => emitPlain_trades (by simp)
  · exact Trades.bind (invalidExpression_trades (.refl _)) fun value =>
      .emit (by simp [OperationKind.children])

theorem salvageCall (receiver : Option OperationId) :
    Trades (c.salvageCall id receiver arguments) receiver.toList fun i => [i] := by
  unfold Context.salvageCall
  exact Trades.bind (Fresh.mapM h.expression arguments) fun values =>
    invalidExpression_trades (.refl _)

theorem salvageCallee : FreshOption (c.salvageCallee callee) := by
  unfold Context.salvageCallee
  split
  · exact h.expression? _
  · exact .none
  · exact (h.expression callee).optional

theorem callReceiver : FreshOption (c.callReceiver callee member) := by
  unfold Context.callReceiver
  split
  · exact h.expression? _
  · split
    · split
      · exact (h.expression callee).optional
      · exact implicitReceiver_fresh
    · exact implicitReceiver_fresh
  · exact (h.expression callee).optional

theorem unboundCall : Fresh (c.unboundCall id callee arguments) :=
  Trades.bind h.salvageCallee fun receiver => h.salvageCall receiver

theorem invocation : Fresh (c.invocation id callee arguments) := by
  unfold Context.invocation
  split
  · exact h.lateBoundCall
  · split
    · exact Trades.bind h.callReceiver fun receiver =>
        Trades.bind (Fresh.mapM (h.boundArgument id) _) fun values =>
          emitValued_trades (by simp)
    · split
      · exact h.lateBoundCall
      · exact h.unboundCall
    · exact h.unboundCall

theorem unboundElement : Fresh (c.unboundElement id receiver arguments) :=
  Trades.bind (h.expression receiver) fun target => h.salvageCall (some target)

theorem elementAccess : Fresh (c.elementAccess id receiver arguments) := by
  unfold Context.elementAccess
  split
  · exact h.lateBoundElement
  · split
    · exact Trades.bind (h.expression receiver) fun target =>
        Trades.bind (Fresh.mapM (h.boundArgument id) _) fun values =>
          emitValued_trades (by simp)
    · split
      · exact h.lateBoundElement
      · exact h.unboundElement
    · exact h.unboundElement
    · split
      · exact Trades.bind (h.expression receiver) fun array =>
          Trades.bind (Fresh.mapM h.expression arguments) fun indices =>
            emitValued_trades (by simp)
      · exact h.unboundElement

theorem objectCreation (type : TypeId) : Fresh (c.objectCreation id type arguments) := by
  unfold Context.objectCreation
  split
  · exact Trades.bind (Fresh.mapM (h.boundArgument id) _) fun values =>
      .emit (by simp [OperationKind.children])
  · split
    · exact h.lateBoundCreation type
    · exact h.salvageCall none
  · exact h.salvageCall none

theorem assignment (operator : Option BinaryOperator) (target value : SyntaxId) :
    Fresh (c.assignment id operator target value) := by
  unfold Context.assignment
  refine Trades.bind (h.expression target) fun target =>
    Trades.bind (h.expression value) fun value => ?_
  cases operator with
  | none => exact emitValued_trades (by simp)
  | some operator => exact emitValued_trades (by simp)

theorem cast (type : TypeId) (operand : SyntaxId) : Fresh (c.cast id type operand) := by
  unfold Context.cast
  exact Trades.bind (h.expression operand) fun operand => .emit (by simp [OperationKind.children])

theorem lambdaBody : Fresh (c.lambdaBody body) := by
  unfold Context.lambdaBody
  split
  · exact h.statement body
  · exact Trades.bind (h.expression body) fun value =>
      Trades.andThen (.emit (by simp [OperationKind.children])) fun returned =>
        .emit (by simp [OperationKind.children])

theorem lambda : Fresh (c.lambda id body) := by
  unfold Context.lambda
  exact Trades.bind (h.within _).lambdaBody fun body => emitValued_trades (by simp)

theorem parenthesized (inner : SyntaxId) : Fresh (c.parenthesized id inner) := by
  unfold Context.parenthesized
  exact Trades.bind (h.expression inner) fun i =>
    Trades.bind (.associate id i) fun _ => .pure (by simp)

theorem expressionForm (id : SyntaxId) (form : Option Form) : Fresh (c.expressionForm id form) := by
  unfold Context.expressionForm
  split
  · exact emitValued_trades (by simp)
  · exact h.name _
  · exact emitValued_trades (by simp)
  · exact h.memberAccess _ _
  · exact h.invocation
  · exact h.elementAccess
  · exact h.expression _
  · exact h.objectCreation _
  · exact Trades.bind (h.expression _) fun left => Trades.bind (h.expression _) fun right =>
      emitValued_trades (by simp)
  · exact Trades.bind (h.expression _) fun operand => emitValued_trades (by simp)
  · exact h.assignment _ _ _
  · exact Trades.bind (h.expression _) fun reference => emitValued_trades (by simp)
  · exact h.cast _ _
  · exact h.parenthesized _
  · exact h.lambda
  · exact invalidExpression_trades (.refl _)

omit h in
theorem converted (id : SyntaxId) (i : OperationId) :
    Trades (c.converted id i) [i] fun i => [i] := by
  unfold Context.converted
  split
  · exact .pure (.refl _)
  · exact .emit (by simp [OperationKind.children])

theorem lowerExpression (id : SyntaxId) : Fresh (c.lowerExpression id) :=
  Trades.andThen (h.expressionForm id _) fun i => converted id i

end WalksFresh

end SemanticTrees.Context
