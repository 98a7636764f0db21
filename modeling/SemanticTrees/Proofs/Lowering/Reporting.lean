import SemanticTrees.Lowering.Root

/-! Lowering does not read diagnostics. The same program with other diagnostics has the same roots,
and their trees differ in nothing but the program that they name. -/
namespace SemanticTrees

/-- The same program with other diagnostics. -/
def Program.reporting (p : Program) (ds : List Diagnostic) : Program := { p with diagnostics := ds }

namespace Context

/-- The same surroundings in a program with other diagnostics. -/
def reporting (c : Context) (ds : List Diagnostic) : Context :=
  { c with program := c.program.reporting ds }

variable (c : Context) (ds : List Diagnostic)

theorem unparenthesized_reporting (fuel : Nat) (id : SyntaxId) :
    (c.reporting ds).unparenthesized fuel id = c.unparenthesized fuel id := by
  induction fuel generalizing id with
  | zero => rfl
  | succ fuel ih =>
    simp only [unparenthesized, ih]
    rfl

theorem isDynamicCallee_reporting (fuel : Nat) (id : SyntaxId) :
    (c.reporting ds).isDynamicCallee fuel id = c.isDynamicCallee fuel id := by
  induction fuel generalizing id with
  | zero => rfl
  | succ fuel ih =>
    simp only [isDynamicCallee, ih]
    rfl

theorem firstImplicitReceiver_reporting (id : SyntaxId) (members : List SymbolId) :
    (c.reporting ds).firstImplicitReceiver id members = c.firstImplicitReceiver id members := by
  induction members with
  | nil => rfl
  | cons member rest ih =>
    simp only [firstImplicitReceiver, ih]
    rfl

theorem lateBoundMember_reporting : (c.reporting ds).lateBoundMember = c.lateBoundMember := by
  funext id receiver name typeArguments candidates called
  simp only [lateBoundMember, lateBoundReceiver, firstImplicitReceiver_reporting]
  rfl

theorem taintedByLambda_reporting : (c.reporting ds).taintedByLambda = c.taintedByLambda := by
  funext arguments
  simp only [taintedByLambda, hasLambda, isLambda, unparenthesized_reporting]
  rfl

theorem lateBoundCall_reporting : (c.reporting ds).lateBoundCall = c.lateBoundCall := by
  funext id callee arguments candidates
  simp only [lateBoundCall, lateBoundTarget, lateBoundMember_reporting, taintedByLambda_reporting]
  rfl

theorem invocation_reporting : (c.reporting ds).invocation = c.invocation := by
  funext id callee arguments
  simp only [invocation, isDynamicCallee_reporting, lateBoundCall_reporting]
  rfl

theorem elementAccess_reporting : (c.reporting ds).elementAccess = c.elementAccess := by
  funext id receiver arguments
  simp only [elementAccess, lateBoundElement, taintedByLambda_reporting]
  rfl

theorem expressionForm_reporting : (c.reporting ds).expressionForm = c.expressionForm := by
  funext id form
  unfold expressionForm
  simp only [name, memberAccess, objectCreation, lateBoundCreation, lateBoundMember_reporting,
    invocation_reporting, elementAccess_reporting, taintedByLambda_reporting]
  rfl

theorem lowerExpression_reporting : (c.reporting ds).lowerExpression = c.lowerExpression := by
  funext id
  simp only [lowerExpression, expressionForm_reporting]
  rfl

end Context

variable (p : Program) (options : LoweringOptions) (ds : List Diagnostic)

theorem walk_reporting (depth : Nat) :
    walk (p.reporting ds) options depth = walk p options depth := by
  induction depth with
  | zero => rfl
  | succ depth ih =>
    funext scope role id
    simp only [walk, ih]
    cases role with
    | expression =>
      exact congrFun (Context.lowerExpression_reporting ⟨p, options, scope, _⟩ ds) id
    | statement => rfl

/-- A tree that names another program. -/
def OperationTree.within (t : OperationTree) (program : Program) : OperationTree :=
  { t with program }

theorem Store.finish_within (s : Store) (p q : Program) (root : OperationId) :
    s.finish q root = (s.finish p root).within q := by
  unfold finish
  dsimp only
  split <;> rfl

namespace Program

theorem lowerRoot_reporting (id : SyntaxId) :
    ((p.reporting ds).rootContext options id).lowerRoot id =
      (p.rootContext options id).lowerRoot id := by
  unfold rootContext
  rw [walk_reporting]
  rfl

theorem tree?_reporting (id : SyntaxId) :
    (p.reporting ds).tree? options id =
      (p.tree? options id).map (OperationTree.within · (p.reporting ds)) := by
  unfold tree?
  rw [lowerRoot_reporting]
  split
  · exact congrArg some (Store.finish_within _ p _ _)
  · rfl

theorem rootsBelow_reporting (fuel : Nat) (id : SyntaxId) :
    (p.reporting ds).rootsBelow fuel id = p.rootsBelow fuel id := by
  induction fuel generalizing id with
  | zero => rfl
  | succ fuel ih =>
    have inner := funext ih
    simp only [rootsBelow, inner]
    rfl

theorem roots_reporting : (p.reporting ds).roots = p.roots := by
  have below : (p.reporting ds).rootsIn = p.rootsIn := funext (rootsBelow_reporting p ds _)
  exact congrArg p.members.flatMap below

end Program

end SemanticTrees
