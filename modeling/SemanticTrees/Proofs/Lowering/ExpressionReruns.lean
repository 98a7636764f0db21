import SemanticTrees.Proofs.Lowering.Reruns

/-! Expressions that are lowered with other options. Options matter for members that are resolved at
run time, and for calls, element accesses and creations that are; every other operation is the same
in both runs. -/
namespace SemanticTrees.Rerun

open Lowering

variable {r : Rerun} {id receiver callee body : SyntaxId} {symbol member : SymbolId}
  {arguments : List SyntaxId} {candidates : List SymbolId} {type : TypeId}

theorem implicitReceiver_agrees (member : SymbolId) (id : SyntaxId) :
    r.Agrees (r.first.implicitReceiver member id) (r.second.implicitReceiver member id) := by
  simp only [Context.implicitReceiver, symbol?_second]
  split
  · exact .pure none
  · exact .ite (.pure none) (.map some (.settled _))

theorem firstImplicitReceiver_agrees (id : SyntaxId) (candidates : List SymbolId) :
    r.Agrees (r.first.firstImplicitReceiver id candidates)
      (r.second.firstImplicitReceiver id candidates) := by
  induction candidates with
  | nil => exact .pure none
  | cons member rest ih =>
    refine .bind (implicitReceiver_agrees member id) fun receiver => ?_
    cases receiver with
    | none => exact ih
    | some receiver => exact .pure (some receiver)

theorem reference_agrees (receiver : Option OperationId) :
    r.Agrees (r.first.reference id symbol receiver) (r.second.reference id symbol receiver) := by
  simp only [Context.reference, referenceKind_second]
  split
  · exact emitValued_agrees _ id
  · exact invalidExpression_agrees id _

theorem defaultArgument_agrees (call : SyntaxId) (parameter : SymbolId) :
    r.Agrees (r.first.defaultArgument call parameter) (r.second.defaultArgument call parameter) := by
  apply Agrees.bind
  · exact .settled _
  · intro value
    exact .settled _

theorem converted_agrees (id : SyntaxId) (i : OperationId) :
    r.Agrees (r.first.converted id i) (r.second.converted id i) := by
  simp only [Context.converted, requiredConversion_second]
  split
  · exact .pure i
  · exact .settled _

namespace Walks

variable (h : r.Walks)
include h

theorem lateBoundReceiver (receiver : Option SyntaxId) :
    r.Agrees (r.first.lateBoundReceiver id receiver candidates)
      (r.second.lateBoundReceiver id receiver candidates) := by
  cases receiver with
  | none => exact firstImplicitReceiver_agrees id candidates
  | some receiver =>
    simp only [Context.lateBoundReceiver, isTypeName_second]
    exact .ite (.pure none) (.map some (h.expression receiver))

/-- The access itself is the same; whether it is invalid for its type arguments is up to the
options. -/
theorem lateBoundMember (receiver : Option SyntaxId) (name : String) (typeArguments : List TypeId)
    (candidates : List SymbolId) (called : Bool) :
    r.Agrees (r.first.lateBoundMember id receiver name typeArguments candidates called)
      (r.second.lateBoundMember id receiver name typeArguments candidates called) := by
  simp only [Context.lateBoundMember, lateBound_second, knownContainingType_second]
  apply Agrees.bind (h.lateBoundReceiver receiver)
  intro receiver
  exact .flagTypeArguments called Context.kind_lateBound rfl

theorem name (text : String) : r.Agrees (r.first.name id text) (r.second.name id text) := by
  simp only [Context.name, program_second]
  split
  · exact h.lateBoundMember _ _ _ _ _
  · split
    · exact invalidExpression_agrees id []
    · exact .bind (implicitReceiver_agrees _ id) fun receiver => reference_agrees receiver

theorem memberAccess (name : String) (typeArguments : List TypeId) :
    r.Agrees (r.first.memberAccess id receiver name typeArguments)
      (r.second.memberAccess id receiver name typeArguments) := by
  simp only [Context.memberAccess, isLateBoundAccess_second, candidatesOf_second,
    boundMember_second, isTypeName_second, isStatic_second]
  refine .ite (h.lateBoundMember _ _ _ _ _) ?_
  split
  · exact .bind (h.expression? _) fun receiver => reference_agrees receiver
  · exact .bind (h.expression? _) fun receiver => invalidExpression_agrees id _

theorem lateBoundTarget (callee : SyntaxId) (candidates : List SymbolId) :
    r.Agrees (r.first.lateBoundTarget callee candidates)
      (r.second.lateBoundTarget callee candidates) := by
  simp only [Context.lateBoundTarget, formOf_second, candidatesOf_second, namesMethod_second]
  split
  · exact h.lateBoundMember _ _ _ _ _
  · exact .ite (h.lateBoundMember _ _ _ _ _) (h.expression callee)
  · exact h.expression callee

theorem lateBoundArguments (arguments : List SyntaxId) :
    r.Agrees (arguments.mapM r.first.lateBoundArgument)
      (arguments.mapM r.second.lateBoundArgument) := by
  apply Agrees.mapM
  intro argument
  exact .bind (h.expression argument) fun value => .pure _

theorem lateBoundCall (known : r.first.formOf id = some (.invocation callee arguments))
    (candidates : List SymbolId) :
    r.Agrees (r.first.lateBoundCall id callee arguments candidates)
      (r.second.lateBoundCall id callee arguments candidates) := by
  simp only [Context.lateBoundCall, lateBound_second]
  apply Agrees.bind (h.lateBoundTarget callee candidates)
  intro target
  apply Agrees.bind (h.lateBoundArguments arguments)
  intro values
  refine .taintedByLambda (by rwa [Context.origin_lateBound]) rfl fun lambda => ?_
  rwa [Program.IsChosen, Context.kind_lateBound]

theorem lateBoundElement (known : r.first.formOf id = some (.elementAccess receiver arguments)) :
    r.Agrees (r.first.lateBoundElement id receiver arguments)
      (r.second.lateBoundElement id receiver arguments) := by
  simp only [Context.lateBoundElement, lateBound_second, isDynamic_second, typeOf_second]
  apply Agrees.bind (h.expression receiver)
  intro target
  apply Agrees.bind (h.lateBoundArguments arguments)
  intro values
  refine .taintedByLambda (by rwa [Context.origin_lateBound]) rfl fun lambda => ?_
  rwa [Program.IsChosen, Context.kind_lateBound]

theorem lateBoundCreation (known : r.first.formOf id = some (.objectCreation type arguments)) :
    r.Agrees (r.first.lateBoundCreation id type arguments)
      (r.second.lateBoundCreation id type arguments) := by
  simp only [Context.lateBoundCreation, valued_second]
  apply Agrees.bind (h.lateBoundArguments arguments)
  intro values
  refine .taintedByLambda (by simpa using known) rfl fun lambda => ?_
  rwa [Program.IsChosen, Operation.kind_withType, Context.kind_valued]

theorem boundArgument (call : SyntaxId) (binding : Binding) :
    r.Agrees (r.first.boundArgument call binding) (r.second.boundArgument call binding) := by
  simp only [Context.boundArgument]
  split
  · exact defaultArgument_agrees call _
  · exact .bind (h.expression _) fun value => emitPlain_agrees _ _
  · exact .bind (invalidExpression_agrees call []) fun value => .settled _

theorem salvageCall (receiver : Option OperationId) (arguments : List SyntaxId) :
    r.Agrees (r.first.salvageCall id receiver arguments)
      (r.second.salvageCall id receiver arguments) := by
  apply Agrees.bind (.mapM h.expression arguments)
  intro values
  exact invalidExpression_agrees id _

theorem salvageCallee (callee : SyntaxId) :
    r.Agrees (r.first.salvageCallee callee) (r.second.salvageCallee callee) := by
  simp only [Context.salvageCallee, formOf_second, isTypeName_second]
  split
  · exact h.expression? _
  · exact .pure none
  · exact .map some (h.expression callee)

theorem callReceiver (callee : SyntaxId) (member : SymbolId) :
    r.Agrees (r.first.callReceiver callee member) (r.second.callReceiver callee member) := by
  simp only [Context.callReceiver, formOf_second, isStatic_second, isTypeName_second,
    program_second]
  split
  · exact h.expression? _
  · split
    · exact .ite (.map some (h.expression callee)) (implicitReceiver_agrees member callee)
    · exact implicitReceiver_agrees member callee
  · exact .map some (h.expression callee)

theorem unboundCall (callee : SyntaxId) (arguments : List SyntaxId) :
    r.Agrees (r.first.unboundCall id callee arguments)
      (r.second.unboundCall id callee arguments) :=
  .bind (h.salvageCallee callee) fun receiver => h.salvageCall receiver arguments

theorem invocation (known : r.first.formOf id = some (.invocation callee arguments)) :
    r.Agrees (r.first.invocation id callee arguments)
      (r.second.invocation id callee arguments) := by
  simp only [Context.invocation, program_second, isDynamicCallee_second, anyAcceptsCount_second,
    symbol?_second]
  refine .ite (h.lateBoundCall known []) ?_
  split
  · apply Agrees.bind (h.callReceiver callee _)
    intro receiver
    apply Agrees.bind (.mapM (h.boundArgument id) _)
    intro values
    exact emitValued_agrees _ id
  · exact .ite (h.lateBoundCall known _) (h.unboundCall callee arguments)
  · exact h.unboundCall callee arguments

theorem unboundElement (receiver : SyntaxId) (arguments : List SyntaxId) :
    r.Agrees (r.first.unboundElement id receiver arguments)
      (r.second.unboundElement id receiver arguments) :=
  .bind (h.expression receiver) fun target => h.salvageCall (some target) arguments

theorem elementAccess (known : r.first.formOf id = some (.elementAccess receiver arguments)) :
    r.Agrees (r.first.elementAccess id receiver arguments)
      (r.second.elementAccess id receiver arguments) := by
  simp only [Context.elementAccess, isDynamic_second, program_second, anyAcceptsCount_second,
    typeOf_second]
  refine .ite (h.lateBoundElement known) ?_
  split
  · apply Agrees.bind (h.expression receiver)
    intro target
    apply Agrees.bind (.mapM (h.boundArgument id) _)
    intro values
    exact emitValued_agrees _ id
  · exact .ite (h.lateBoundElement known) (h.unboundElement receiver arguments)
  · exact h.unboundElement receiver arguments
  · refine .ite ?_ (h.unboundElement receiver arguments)
    apply Agrees.bind (h.expression receiver)
    intro array
    apply Agrees.bind (.mapM h.expression arguments)
    intro indices
    exact emitValued_agrees _ id

theorem objectCreation (known : r.first.formOf id = some (.objectCreation type arguments)) :
    r.Agrees (r.first.objectCreation id type arguments)
      (r.second.objectCreation id type arguments) := by
  simp only [Context.objectCreation, program_second, anyAcceptsCount_second]
  split
  · exact .bind (.mapM (h.boundArgument id) _) fun values => .settled _
  · exact .ite (h.lateBoundCreation known) (h.salvageCall none arguments)
  · exact h.salvageCall none arguments

theorem assignment (operator : Option BinaryOperator) (target value : SyntaxId) :
    r.Agrees (r.first.assignment id operator target value)
      (r.second.assignment id operator target value) := by
  apply Agrees.bind (h.expression target)
  intro target
  apply Agrees.bind (h.expression value)
  intro value
  cases operator with
  | none => exact emitValued_agrees _ id
  | some operator => exact emitValued_agrees _ id

theorem cast (type : TypeId) (operand : SyntaxId) :
    r.Agrees (r.first.cast id type operand) (r.second.cast id type operand) :=
  .bind (h.expression operand) fun _ => .settled _

theorem lambdaBody (body : SyntaxId) :
    r.Agrees (r.first.lambdaBody body) (r.second.lambdaBody body) := by
  simp only [Context.lambdaBody, formOf_second]
  split
  · exact h.statement body
  · apply Agrees.bind (h.expression body)
    intro value
    exact .bind (.settled _) fun returned => .settled _

theorem lambda (body : SyntaxId) :
    r.Agrees (r.first.lambda id body) (r.second.lambda id body) := by
  apply Agrees.bind ((h.within (r.first.program.rootScope body)).lambdaBody body)
  intro body
  exact emitValued_agrees _ id

theorem parenthesized (inner : SyntaxId) :
    r.Agrees (r.first.parenthesized id inner) (r.second.parenthesized id inner) := by
  apply Agrees.bind (h.expression inner)
  intro i
  exact .bind (.associate id i) fun _ => .pure i

theorem expressionForm (id : SyntaxId) :
    r.Agrees (r.first.expressionForm id (r.first.formOf id))
      (r.second.expressionForm id (r.second.formOf id)) := by
  rw [formOf_second]
  generalize known : r.first.formOf id = form
  simp only [Context.expressionForm]
  split
  · exact emitValued_agrees _ id
  · exact h.name _
  · exact emitValued_agrees _ id
  · exact h.memberAccess _ _
  · exact h.invocation known
  · exact h.elementAccess known
  · exact h.expression _
  · exact h.objectCreation known
  · exact .bind (h.expression _) fun left => .bind (h.expression _) fun right =>
      emitValued_agrees _ id
  · exact .bind (h.expression _) fun operand => emitValued_agrees _ id
  · exact h.assignment _ _ _
  · exact .bind (h.expression _) fun reference => emitValued_agrees _ id
  · exact h.cast _ _
  · exact h.parenthesized _
  · exact h.lambda _
  · exact invalidExpression_agrees id []

theorem lowerExpression (id : SyntaxId) :
    r.Agrees (r.first.lowerExpression id) (r.second.lowerExpression id) :=
  .bind (h.expressionForm id) fun i => converted_agrees id i

end Walks

end SemanticTrees.Rerun
