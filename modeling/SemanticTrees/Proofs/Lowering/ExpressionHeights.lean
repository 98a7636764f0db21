import SemanticTrees.Proofs.Lowering.Expressions
import SemanticTrees.Proofs.Lowering.Heights

/-! Heights of expressions. A form adds at most three levels above its parts, and a lambda that gives
an expression does: the jump, the block around it, and the lambda itself. The conversion that the
context requires is one more. -/
namespace SemanticTrees.Context

open Lowering

variable {c : Context} {id receiver callee body : SyntaxId} {symbol member : SymbolId}
  {arguments : List SyntaxId} {candidates : List SymbolId} {low high : Nat}

theorem implicitReceiver_raises :
    Raises (c.implicitReceiver member id) (high + 1) Option.toList := by
  unfold implicitReceiver
  split
  · exact .pure rfl
  · split
    · exact .pure rfl
    · exact (Raises.leaf (by simp [OperationKind.children])).some

theorem firstImplicitReceiver_raises (id : SyntaxId) :
    (candidates : List SymbolId) →
      Raises (c.firstImplicitReceiver id candidates) (high + 1) Option.toList
  | [] => .pure rfl
  | member :: rest => by
    unfold firstImplicitReceiver
    have first : Raises (c.implicitReceiver member id) (high + 1) Option.toList :=
      implicitReceiver_raises
    refine .bind first fun receiver => ?_
    cases receiver with
    | none => exact (firstImplicitReceiver_raises id rest).rises
    | some receiver => exact .pure (List.Subset.refl _)

theorem reference_rises (receiver : Option OperationId) :
    Rises (c.reference id symbol receiver) low receiver.toList (low + 1) fun i => [i] := by
  unfold reference
  split
  · next kind chosen => exact emitValued_rises (referenceKind_children chosen).subset
  · exact invalidExpression_rises (List.Subset.refl _)

namespace WalksWithin

variable (h : c.WalksWithin high)
include h

theorem lateBoundReceiver (receiver : Option SyntaxId) :
    Raises (c.lateBoundReceiver id receiver candidates) (high + 1) Option.toList := by
  unfold Context.lateBoundReceiver
  split
  · split
    · exact .pure rfl
    · exact (h.expression _).some
  · exact firstImplicitReceiver_raises id candidates

theorem lateBoundMember (receiver : Option SyntaxId) (name : String) (typeArguments : List TypeId)
    (called : Bool) :
    Raises (c.lateBoundMember id receiver name typeArguments candidates called) (high + 2)
      fun i => [i] := by
  unfold Context.lateBoundMember
  exact .bind (h.lateBoundReceiver receiver) fun receiver =>
    .emit (by simp [OperationKind.children])

theorem name (text : String) : Raises (c.name id text) (high + 2) fun i => [i] := by
  unfold Context.name
  split
  · exact h.lateBoundMember _ _ _ _
  · split
    · exact .leaf (by simp [OperationKind.children])
    · exact .bind implicitReceiver_raises fun receiver => reference_rises receiver

theorem memberAccess (name : String) (typeArguments : List TypeId) :
    Raises (c.memberAccess id receiver name typeArguments) (high + 2) fun i => [i] := by
  unfold Context.memberAccess
  split
  · exact h.lateBoundMember _ _ _ _
  · split
    · exact .bind (h.expression? _) fun receiver => reference_rises receiver
    · exact .bind (h.expression? _) fun receiver => invalidExpression_rises (List.Subset.refl _)

theorem lateBoundTarget :
    Raises (c.lateBoundTarget callee candidates) (high + 2) fun i => [i] := by
  unfold Context.lateBoundTarget
  split
  · exact h.lateBoundMember _ _ _ _
  · split
    · exact h.lateBoundMember _ _ _ _
    · exact (h.expression callee).weaken (by omega)
  · exact (h.expression callee).weaken (by omega)

/-- An argument that is resolved at run time gives its value back. -/
theorem lateBoundArgument (id : SyntaxId) :
    Raises (c.lateBoundArgument id) (high + 1) fun argument => [argument.value] :=
  .bind (h.expression id) fun _ => .pure (List.Subset.refl _)

theorem lateBoundArguments (arguments : List SyntaxId) :
    Raises (arguments.mapM c.lateBoundArgument) (high + 1) fun values =>
      values.map DynamicArgument.value := by
  have all := Raises.mapM h.lateBoundArgument arguments
  simp only [← List.map_eq_flatMap] at all
  exact all

theorem lateBoundCall :
    Raises (c.lateBoundCall id callee arguments candidates) (high + 3) fun i => [i] := by
  unfold Context.lateBoundCall
  exact .bind h.lateBoundTarget fun target =>
    .bind ((h.lateBoundArguments arguments).weaken (by omega)) fun values =>
      .emit (by simp [OperationKind.children, DynamicAccess.withArguments])

theorem lateBoundElement :
    Raises (c.lateBoundElement id receiver arguments) (high + 2) fun i => [i] := by
  unfold Context.lateBoundElement
  exact .bind (h.expression receiver) fun target =>
    .bind (h.lateBoundArguments arguments) fun values =>
      .emit (by simp [OperationKind.children, DynamicAccess.withArguments])

theorem lateBoundCreation (type : TypeId) :
    Raises (c.lateBoundCreation id type arguments) (high + 2) fun i => [i] := by
  unfold Context.lateBoundCreation
  exact .bind (h.lateBoundArguments arguments) fun values =>
    .emit (by simp [OperationKind.children, DynamicAccess.withArguments])

omit h in
theorem defaultArgument (call : SyntaxId) (parameter : SymbolId) :
    Raises (c.defaultArgument call parameter) (high + 2) fun i => [i] := by
  unfold Context.defaultArgument
  exact .bind (.leaf (by simp [OperationKind.children])) fun value =>
    .emit (by simp [OperationKind.children])

theorem boundArgument (call : SyntaxId) (binding : Binding) :
    Raises (c.boundArgument call binding) (high + 2) fun i => [i] := by
  unfold Context.boundArgument
  split
  · exact defaultArgument call _
  · exact .bind (h.expression _) fun value => emitPlain_rises (by simp [OperationKind.children])
  · exact .bind (.leaf (by simp [OperationKind.children])) fun value =>
      .emit (by simp [OperationKind.children])

theorem salvageCall (receiver : Option OperationId) :
    Rises (c.salvageCall id receiver arguments) (high + 1) receiver.toList (high + 2)
      fun i => [i] := by
  unfold Context.salvageCall
  exact .bind (.list h.expression arguments) fun values =>
    invalidExpression_rises (List.Subset.refl _)

theorem salvageCallee : Raises (c.salvageCallee callee) (high + 1) Option.toList := by
  unfold Context.salvageCallee
  split
  · exact h.expression? _
  · exact .pure rfl
  · exact (h.expression callee).some

theorem callReceiver : Raises (c.callReceiver callee member) (high + 1) Option.toList := by
  unfold Context.callReceiver
  split
  · exact h.expression? _
  · split
    · split
      · exact (h.expression callee).some
      · exact implicitReceiver_raises
    · exact implicitReceiver_raises
  · exact (h.expression callee).some

theorem unboundCall : Raises (c.unboundCall id callee arguments) (high + 2) fun i => [i] :=
  .bind h.salvageCallee fun receiver => h.salvageCall receiver

theorem invocation : Raises (c.invocation id callee arguments) (high + 3) fun i => [i] := by
  unfold Context.invocation
  split
  · exact h.lateBoundCall
  · split
    · exact .bind (h.callReceiver.weaken (by omega)) fun receiver =>
        .bind (.list (h.boundArgument id) _) fun values =>
          emitValued_rises (by simp [OperationKind.children])
    · split
      · exact h.lateBoundCall
      · exact h.unboundCall.weaken (by omega)
    · exact h.unboundCall.weaken (by omega)

theorem unboundElement :
    Raises (c.unboundElement id receiver arguments) (high + 2) fun i => [i] :=
  .bind (h.expression receiver) fun target => h.salvageCall (some target)

theorem elementAccess : Raises (c.elementAccess id receiver arguments) (high + 3) fun i => [i] := by
  unfold Context.elementAccess
  split
  · exact h.lateBoundElement.weaken (by omega)
  · split
    · exact .bind ((h.expression receiver).weaken (by omega)) fun target =>
        .bind (.list (h.boundArgument id) _) fun values =>
          emitValued_rises (by simp [OperationKind.children])
    · split
      · exact h.lateBoundElement.weaken (by omega)
      · exact h.unboundElement.weaken (by omega)
    · exact h.unboundElement.weaken (by omega)
    · split
      · refine .weaken (.bind (h.expression receiver) fun array =>
          .bind (.list h.expression arguments) fun indices =>
            emitValued_rises (by simp [OperationKind.children])) (Nat.le_succ _)
      · exact h.unboundElement.weaken (by omega)

theorem objectCreation (type : TypeId) :
    Raises (c.objectCreation id type arguments) (high + 3) fun i => [i] := by
  unfold Context.objectCreation
  have salvaged : Raises (c.salvageCall id none arguments) (high + 3) fun i => [i] := by
    refine .weaken (fun s => h.salvageCall none s ?_) (Nat.le_succ _)
    exact fun _ listed => nomatch listed
  split
  · exact .bind (.list (h.boundArgument id) _) fun values =>
      .emit (by simp [OperationKind.children])
  · split
    · exact (h.lateBoundCreation type).weaken (by omega)
    · exact salvaged
  · exact salvaged

theorem assignment (operator : Option BinaryOperator) (target value : SyntaxId) :
    Raises (c.assignment id operator target value) (high + 2) fun i => [i] := by
  unfold Context.assignment
  refine .bind (h.expression target) fun target => .bind (h.expression value) fun value => ?_
  cases operator with
  | none => exact emitValued_rises (by simp [OperationKind.children])
  | some operator => exact emitValued_rises (by simp [OperationKind.children])

theorem cast (type : TypeId) (operand : SyntaxId) :
    Raises (c.cast id type operand) (high + 2) fun i => [i] := by
  unfold Context.cast
  exact .bind (h.expression operand) fun operand => .emit (by simp [OperationKind.children])

theorem lambdaBody : Raises (c.lambdaBody body) (high + 3) fun i => [i] := by
  unfold Context.lambdaBody
  split
  · exact (h.statement body).weaken (by omega)
  · exact .bind (h.expression body) fun value =>
      .andThen (.emit (by simp [OperationKind.children])) fun returned =>
        .emit (by simp [OperationKind.children])

theorem lambda : Raises (c.lambda id body) (high + 4) fun i => [i] := by
  unfold Context.lambda
  exact .bind (h.within _).lambdaBody fun body => emitValued_rises (by simp [OperationKind.children])

theorem parenthesized (inner : SyntaxId) :
    Raises (c.parenthesized id inner) (high + 1) fun i => [i] := by
  unfold Context.parenthesized
  exact .bind (h.expression inner) fun i =>
    .andThen (.associate id i) fun _ => .pure (List.Subset.refl _)

theorem expressionForm (id : SyntaxId) (form : Option Form) :
    Raises (c.expressionForm id form) (high + 4) fun i => [i] := by
  unfold Context.expressionForm
  split
  · exact .leaf (by simp [OperationKind.children])
  · exact (h.name _).weaken (by omega)
  · exact .leaf (by simp [OperationKind.children])
  · exact (h.memberAccess _ _).weaken (by omega)
  · exact h.invocation.weaken (by omega)
  · exact h.elementAccess.weaken (by omega)
  · exact (h.expression _).weaken (by omega)
  · exact (h.objectCreation _).weaken (by omega)
  · refine .weaken (.bind (h.expression _) fun left => .bind (h.expression _) fun right =>
      emitValued_rises (by simp [OperationKind.children])) (by omega)
  · refine .weaken (.bind (h.expression _) fun operand =>
      emitValued_rises (by simp [OperationKind.children])) (by omega)
  · exact (h.assignment _ _ _).weaken (by omega)
  · refine .weaken (.bind (h.expression _) fun reference =>
      emitValued_rises (by simp [OperationKind.children])) (by omega)
  · exact (h.cast _ _).weaken (by omega)
  · exact (h.parenthesized _).weaken (by omega)
  · exact h.lambda
  · exact .leaf (by simp [OperationKind.children])

omit h in
theorem converted (id : SyntaxId) (i : OperationId) :
    Rises (c.converted id i) low [i] (low + 1) fun i => [i] := by
  unfold Context.converted
  split
  · exact .weaken (.pure (List.Subset.refl _)) (Nat.le_succ _)
  · exact .emit (by simp [OperationKind.children])

theorem lowerExpression (id : SyntaxId) : Raises (c.lowerExpression id) (high + 5) fun i => [i] :=
  .bind (h.expressionForm id _) fun i => converted id i

end WalksWithin

end SemanticTrees.Context
