import SemanticTrees.Proofs.Lowering.Calls
import SemanticTrees.Proofs.Lowering.Structure

/-! What lowering keeps. Only three functions add accesses that take arguments and are resolved at
run time, each behind the arguments that are written. A property of stores that nothing else breaks
is therefore kept by lowering a node, if the walk keeps it and such an access does when it is
added for the node. The walk is arbitrary. -/
namespace SemanticTrees

open Lowering

/-- What is known of an operation that takes arguments and is resolved at run time. -/
def OperationKind.lateCall? : OperationKind → Option DynamicAccess
  | .dynamicInvocation access | .dynamicIndexerAccess access | .dynamicObjectCreation access =>
    some access
  | _ => none

namespace Lowering

variable {α β : Type} {I : Store → Prop} {m : Lowering α}

/-- A property of stores holds behind a step when it holds in front of it. -/
def Keeps (I : Store → Prop) (m : Lowering α) : Prop := ∀ s, I s → I (m.run s).2

namespace Keeps

theorem pure (a : α) : Keeps I (pure a) := fun _ kept => kept

theorem bind {f : α → Lowering β} (first : Keeps I m) (second : ∀ a, Keeps I (f a)) :
    Keeps I (m >>= f) :=
  fun s kept => second _ _ (first s kept)

theorem map (f : α → β) (step : Keeps I m) : Keeps I (f <$> m) := step

theorem mapM {f : α → Lowering β} (each : ∀ a, Keeps I (f a)) (l : List α) :
    Keeps I (l.mapM f) := by
  induction l with
  | nil => exact pure []
  | cons a rest ih =>
    rw [List.mapM_cons]
    exact (each a).bind fun b => ih.bind fun bs => pure (b :: bs)

end Keeps

end Lowering

namespace Context

/-- Whatever the walk does and whatever is added keeps a property of stores, calls that are left to
run time aside. -/
structure Indifferent (c : Context) (I : Store → Prop) : Prop where
  adds : ∀ s o, o.kind.lateCall? = none → I s → I (s.add o)
  associates : ∀ s node i, I s → I (s.associate node i)
  walks : ∀ scope role id, Keeps I (c.walk scope role id)

/-- An operation is made for a call that is left to run time, with what its arguments are lowered to
on a store. The arguments are parts of the call. -/
structure LeavesOpen (c : Context) (id : SyntaxId) (form : Form) (base : DynamicAccess) (s : Store)
    (o : Operation) : Prop where
  known : c.formOf id = some form
  listed : form.arguments.map .expression ⊆ c.expressionParts id (c.formOf id)
  origin : o.origin = id
  shown : form.fate? o.kind = some .late
  access : o.kind.lateCall? =
    some (base.withArguments ((form.arguments.mapM c.lateBoundArgument).run s).1)

/-- A property of stores is kept when a call that is left to run time is added behind its
arguments. -/
def KeepsOpen (c : Context) (I : Store → Prop) (id : SyntaxId) : Prop :=
  ∀ form base s o, c.LeavesOpen id form base s o →
    let behind := ((form.arguments.mapM c.lateBoundArgument).run s).2
    I behind → I (behind.add o)

namespace Indifferent

variable {c : Context} {I : Store → Prop} {id callee receiver : SyntaxId}
  {arguments : List SyntaxId} {candidates : List SymbolId} (h : c.Indifferent I)
include h

theorem within (scope : Scope) : (c.within scope).Indifferent I := ⟨h.adds, h.associates, h.walks⟩

theorem emit {o : Operation} (early : o.kind.lateCall? = none) : Keeps I (Lowering.emit o) :=
  fun s => h.adds s o early

theorem emitPlain {kind : OperationKind} (early : kind.lateCall? = none) :
    Keeps I (c.emitPlain kind id) :=
  h.emit early

theorem emitValued {kind : OperationKind} (early : kind.lateCall? = none) :
    Keeps I (c.emitValued kind id) :=
  h.emit (by rwa [kind_valued])

theorem invalidExpression (id : SyntaxId) (children : List OperationId) :
    Keeps I (c.invalidExpression id children) :=
  h.emit rfl

theorem invalidStatement (id : SyntaxId) (children : List OperationId) :
    Keeps I (c.invalidStatement id children) :=
  h.emitPlain rfl

theorem expression (id : SyntaxId) : Keeps I (c.expression id) := h.walks _ _ _

theorem statement (id : SyntaxId) : Keeps I (c.statement id) := h.walks _ _ _

theorem expression? (id : Option SyntaxId) : Keeps I (c.expression? id) := by
  cases id with
  | none => exact .pure none
  | some id => exact .map some (h.expression id)

theorem statement? (id : Option SyntaxId) : Keeps I (c.statement? id) := by
  cases id with
  | none => exact .pure none
  | some id => exact .map some (h.statement id)

/-! ### Members -/

theorem implicitReceiver (member : SymbolId) : Keeps I (c.implicitReceiver member id) := by
  unfold Context.implicitReceiver
  split
  · exact .pure none
  · split
    · exact .pure none
    · exact .map some (h.emit rfl)

theorem firstImplicitReceiver (members : List SymbolId) :
    Keeps I (c.firstImplicitReceiver id members) := by
  induction members with
  | nil => exact .pure none
  | cons member rest ih =>
    refine .bind (h.implicitReceiver member) fun receiver => ?_
    cases receiver with
    | none => exact ih
    | some receiver => exact .pure (some receiver)

theorem reference (symbol : SymbolId) (receiver : Option OperationId) :
    Keeps I (c.reference id symbol receiver) := by
  unfold Context.reference
  split
  · next kind chosen =>
    refine h.emitValued ?_
    unfold referenceKind at chosen
    split at chosen
    · contradiction
    · split at chosen <;> cases chosen <;> rfl
  · exact h.invalidExpression id _

theorem lateBoundMember (receiver : Option SyntaxId) (name : String)
    (typeArguments : List TypeId) (called : Bool) :
    Keeps I (c.lateBoundMember id receiver name typeArguments candidates called) := by
  have target : Keeps I (c.lateBoundReceiver id receiver candidates) := by
    unfold lateBoundReceiver
    split
    · split
      · exact .pure none
      · exact .map some (h.expression _)
    · exact h.firstImplicitReceiver candidates
  exact target.bind fun receiver => h.emit (by simp [OperationKind.lateCall?])

theorem name (text : String) : Keeps I (c.name id text) := by
  unfold Context.name
  split
  · exact h.lateBoundMember none text [] false
  · split
    · exact h.invalidExpression id []
    · exact (h.implicitReceiver _).bind fun receiver => h.reference _ receiver

theorem memberAccess (name : String) (typeArguments : List TypeId) :
    Keeps I (c.memberAccess id receiver name typeArguments) := by
  unfold Context.memberAccess
  split
  · exact h.lateBoundMember (some receiver) name typeArguments false
  · split
    · exact (h.expression? _).bind fun receiver => h.reference _ receiver
    · exact (h.expression? _).bind fun receiver => h.invalidExpression id _

/-! ### Calls -/

theorem lateBoundTarget : Keeps I (c.lateBoundTarget callee candidates) := by
  unfold Context.lateBoundTarget
  split
  · exact h.lateBoundMember _ _ _ true
  · split
    · exact h.lateBoundMember none _ [] true
    · exact h.expression callee
  · exact h.expression callee

theorem lateBoundArguments (arguments : List SyntaxId) :
    Keeps I (arguments.mapM c.lateBoundArgument) :=
  .mapM (fun a => (h.expression a).bind fun _ => .pure _) arguments

/-- The last step of a call that is left to run time, behind its arguments. -/
theorem lateCall (keeps : c.KeepsOpen I id) {form : Form} (known : c.formOf id = some form)
    (listed : form.arguments.map .expression ⊆ c.expressionParts id (c.formOf id))
    {make : List DynamicArgument → Operation} (base : DynamicAccess)
    (origin : ∀ values, (make values).origin = id)
    (shown : ∀ values, form.fate? (make values).kind = some .late)
    (access : ∀ values, (make values).kind.lateCall? = some (base.withArguments values)) :
    Keeps I (form.arguments.mapM c.lateBoundArgument >>= fun values =>
      Lowering.emit (make values)) := by
  intro s kept
  have added : c.LeavesOpen id form base s _ := ⟨known, listed, origin _, shown _, access _⟩
  exact keeps form base s _ added (h.lateBoundArguments form.arguments s kept)

theorem lateBoundCall (keeps : c.KeepsOpen I id)
    (known : c.formOf id = some (.invocation callee arguments))
    (listed : arguments.map .expression ⊆ c.invocationParts id callee arguments) :
    Keeps I (c.lateBoundCall id callee arguments candidates) :=
  h.lateBoundTarget.bind fun _ =>
    h.lateCall keeps known (by rw [known]; exact listed) _ (by simp) (by simp [Form.fate?])
      fun _ => by simp only [Operation.invalidIf, kind_lateBound]; rfl

theorem lateBoundElement (keeps : c.KeepsOpen I id)
    (known : c.formOf id = some (.elementAccess receiver arguments))
    (listed : arguments.map .expression ⊆ c.elementParts id receiver arguments) :
    Keeps I (c.lateBoundElement id receiver arguments) :=
  (h.expression receiver).bind fun _ =>
    h.lateCall keeps known (by rw [known]; exact listed) _ (by simp) (by simp [Form.fate?])
      fun _ => by simp only [Operation.invalidIf, kind_lateBound]; rfl

theorem lateBoundCreation {type : TypeId} (keeps : c.KeepsOpen I id)
    (known : c.formOf id = some (.objectCreation type arguments))
    (listed : arguments.map .expression ⊆ c.creationParts id arguments) :
    Keeps I (c.lateBoundCreation id type arguments) :=
  h.lateCall keeps known (by rw [known]; exact listed) _ (by simp) (by simp [Form.fate?])
    fun _ => rfl

theorem boundArgument (binding : Binding) : Keeps I (c.boundArgument id binding) := by
  unfold Context.boundArgument
  split
  · exact (h.emit rfl).bind fun _ => h.emit rfl
  · exact (h.expression _).bind fun _ => h.emitPlain rfl
  · exact (h.invalidExpression id []).bind fun _ => h.emit rfl

theorem boundArguments (bindings : List Binding) :
    Keeps I (bindings.mapM (c.boundArgument id)) :=
  .mapM h.boundArgument bindings

theorem salvageCall (receiver : Option OperationId) :
    Keeps I (c.salvageCall id receiver arguments) :=
  (Keeps.mapM h.expression arguments).bind fun _ => h.invalidExpression id _

theorem unboundCall : Keeps I (c.unboundCall id callee arguments) := by
  refine .bind ?_ fun receiver => h.salvageCall receiver
  unfold salvageCallee
  split
  · exact h.expression? _
  · exact .pure none
  · exact .map some (h.expression callee)

theorem unboundElement : Keeps I (c.unboundElement id receiver arguments) :=
  (h.expression receiver).bind fun receiver => h.salvageCall (some receiver)

theorem callReceiver (member : SymbolId) : Keeps I (c.callReceiver callee member) := by
  unfold Context.callReceiver
  split
  · exact h.expression? _
  · split
    · split
      · exact .map some (h.expression callee)
      · exact h.implicitReceiver member
    · exact h.implicitReceiver member
  · exact .map some (h.expression callee)

theorem invocation (keeps : c.KeepsOpen I id)
    (known : c.formOf id = some (.invocation callee arguments)) :
    Keeps I (c.invocation id callee arguments) := by
  unfold Context.invocation
  split
  · next dynamic =>
    exact h.lateBoundCall keeps known (by simp [invocationParts, dynamic])
  · next early =>
    cases found : c.program.resolutionOf id with
    | none => exact h.unboundCall
    | some resolution =>
      cases resolution with
      | resolved member bindings =>
        exact (h.callReceiver member).bind fun receiver => (h.boundArguments bindings).bind fun _ =>
          h.emitValued rfl
      | lateBound candidates =>
        dsimp only
        split
        · next accepted =>
          exact h.lateBoundCall keeps known (by simp [invocationParts, early, found, accepted])
        · exact h.unboundCall
      | failed reason candidates => exact h.unboundCall

theorem elementAccess (keeps : c.KeepsOpen I id)
    (known : c.formOf id = some (.elementAccess receiver arguments)) :
    Keeps I (c.elementAccess id receiver arguments) := by
  unfold Context.elementAccess
  split
  · next dynamic =>
    exact h.lateBoundElement keeps known (by simp [elementParts, dynamic])
  · next early =>
    cases found : c.program.resolutionOf id with
    | none =>
      dsimp only
      split
      · exact (h.expression receiver).bind fun array =>
          (Keeps.mapM h.expression arguments).bind fun indices => h.emitValued rfl
      · exact h.unboundElement
    | some resolution =>
      cases resolution with
      | resolved member bindings =>
        exact (h.expression receiver).bind fun target => (h.boundArguments bindings).bind fun _ =>
          h.emitValued rfl
      | lateBound candidates =>
        dsimp only
        split
        · exact h.lateBoundElement keeps known (by simp [elementParts, early, found])
        · exact h.unboundElement
      | failed reason candidates => exact h.unboundElement

theorem objectCreation {type : TypeId} (keeps : c.KeepsOpen I id)
    (known : c.formOf id = some (.objectCreation type arguments)) :
    Keeps I (c.objectCreation id type arguments) := by
  unfold Context.objectCreation
  cases found : c.program.resolutionOf id with
  | none => exact h.salvageCall none
  | some resolution =>
    cases resolution with
    | resolved member bindings => exact (h.boundArguments bindings).bind fun _ => h.emit rfl
    | lateBound candidates =>
      dsimp only
      split
      · exact h.lateBoundCreation keeps known (by simp [creationParts, found])
      · exact h.salvageCall none
    | failed reason candidates => exact h.salvageCall none

/-! ### Expressions -/

theorem assignment (operator : Option BinaryOperator) (target value : SyntaxId) :
    Keeps I (c.assignment id operator target value) := by
  refine .bind (h.expression target) fun target => .bind (h.expression value) fun value => ?_
  cases operator with
  | none => exact h.emitValued rfl
  | some operator => exact h.emitValued rfl

theorem lambda (body : SyntaxId) : Keeps I (c.lambda id body) := by
  refine .bind ?_ fun body => h.emitValued rfl
  have inside := h.within (c.program.rootScope body)
  unfold lambdaBody
  split
  · exact inside.statement body
  · exact (inside.expression body).bind fun value => .bind (inside.emit rfl) fun returned =>
      inside.emit rfl

theorem parenthesized (inner : SyntaxId) : Keeps I (c.parenthesized id inner) :=
  (h.expression inner).bind fun i => .bind (fun s => h.associates s id i) fun _ => .pure i

theorem expressionForm (keeps : c.KeepsOpen I id) :
    Keeps I (c.expressionForm id (c.formOf id)) := by
  cases known : c.formOf id with
  | none => exact h.invalidExpression id []
  | some form =>
    cases form with
    | literal text | this => exact h.emitValued rfl
    | identifier name => exact h.name name
    | memberAccess receiver name typeArguments => exact h.memberAccess name typeArguments
    | invocation callee arguments => exact h.invocation keeps known
    | elementAccess receiver arguments => exact h.elementAccess keeps known
    | argument name passing expression => exact h.expression expression
    | objectCreation type arguments => exact h.objectCreation keeps known
    | binary operator left right =>
      exact (h.expression left).bind fun left => (h.expression right).bind fun right =>
        h.emitValued rfl
    | unary operator operand => exact (h.expression operand).bind fun operand => h.emitValued rfl
    | assignment operator target value => exact h.assignment operator target value
    | addressOf operand => exact (h.expression operand).bind fun reference => h.emitValued rfl
    | cast type operand => exact (h.expression operand).bind fun operand => h.emit rfl
    | parenthesized inner => exact h.parenthesized inner
    | lambda parameters body => exact h.lambda body
    | _ => exact h.invalidExpression id []

/-- Lowering an expression keeps a property that a call which is left to run time keeps when it is
made for the expression. -/
theorem lowerExpression (keeps : c.KeepsOpen I id) : Keeps I (c.lowerExpression id) := by
  refine .bind (h.expressionForm keeps) fun i => ?_
  unfold converted
  split
  · exact .pure i
  · exact h.emit rfl

/-! ### Statements -/

theorem salvageStatement (id : SyntaxId) : Keeps I (c.salvageStatement id) := by
  refine .bind (.mapM (fun child => ?_) _) fun children => h.invalidStatement id children
  split
  · exact h.expression child
  · exact h.statement child

theorem declarator (isFixed : Bool) (id : SyntaxId) : Keeps I (c.declarator isFixed id) := by
  unfold Context.declarator
  split
  · next initializer _ =>
    cases initializer with
    | some initializer =>
      exact .bind (.map some (h.expression initializer)) fun value => h.emitPlain rfl
    | none =>
      cases isFixed with
      | true => exact .bind (.map some (h.emit rfl)) fun value => h.emitPlain rfl
      | false => exact h.emitPlain rfl
  · exact h.salvageStatement id

theorem declarationGroup (isFixed : Bool) (id : SyntaxId) (declarators : List SyntaxId) :
    Keeps I (c.declarationGroup isFixed id declarators) :=
  (Keeps.mapM (h.declarator isFixed) declarators).bind fun _ =>
    .bind (h.emitPlain rfl) fun _ => h.emitPlain rfl

theorem headPart (id : SyntaxId) : Keeps I (c.headPart id) := by
  unfold Context.headPart
  split
  · exact (h.expression id).bind fun operation => h.emit rfl
  · exact h.statement id

theorem clause (id : SyntaxId) : Keeps I (c.clause id) := by
  unfold Context.clause
  split
  · exact (h.expression? _).bind fun value => h.emitPlain rfl
  · exact .bind (.map some (h.expression id)) fun value => h.emitPlain rfl

theorem switchSection (id : SyntaxId) : Keeps I (c.switchSection id) := by
  unfold Context.switchSection
  split
  · exact (Keeps.mapM h.clause _).bind fun clauses => (Keeps.mapM h.statement _).bind fun body =>
      h.emitPlain rfl
  · exact h.statement id

theorem jump {may : Bool} {kind : BranchKind} :
    Keeps I (if may then c.branch id kind none false else c.invalidStatement id []) := by
  split
  · exact h.emit rfl
  · exact h.invalidStatement id []

theorem goto (target : JumpTarget) : Keeps I (c.goto id target) := by
  unfold Context.goto
  split
  · exact h.emit rfl
  · exact h.emit rfl
  · exact (h.expression _).bind fun value => h.invalidStatement id [value]
  · exact h.emit rfl
  · exact h.invalidStatement id []

theorem fixed (declaration body : SyntaxId) : Keeps I (c.fixed id declaration body) := by
  rw [fixed_eq_bind]
  refine .bind ?_ fun declared => (h.statement body).bind fun body => h.emitPlain rfl
  split
  · exact h.declarationGroup true declaration _
  · exact h.salvageStatement declaration

theorem usingResource (resource body : SyntaxId) :
    Keeps I (c.usingResource id resource body) := by
  rw [usingResource_eq_bind]
  refine .bind ?_ fun held => (h.statement body).bind fun body => h.emitPlain rfl
  split
  · exact h.declarationGroup false resource _
  · exact h.expression resource

theorem misplaced (form : Form) : Keeps I (c.misplaced id form) := by
  unfold Context.misplaced
  split
  · exact (h.expression id).bind fun child => h.invalidStatement id [child]
  · exact h.invalidStatement id []

/-- No statement is a call by itself. -/
theorem lowerStatement (id : SyntaxId) : Keeps I (c.lowerStatement id) := by
  have loop (body : SyntaxId) : Keeps I (c.loopBody body) :=
    (h.within (c.scope.inside .loop)).statement body
  unfold Context.lowerStatement
  cases c.formOf id with
  | none => exact h.invalidStatement id []
  | some form =>
    cases form with
    | block statements =>
      exact (Keeps.mapM h.statement statements).bind fun body => h.emitPlain rfl
    | expressionStatement expression =>
      exact (h.expression expression).bind fun operation => h.emitPlain rfl
    | localDeclaration type declarators => exact h.declarationGroup false id declarators
    | variableDeclarator name initializer => exact h.declarator false id
    | ifThen condition thenBranch elseBranch =>
      exact (h.expression condition).bind fun condition =>
        (h.statement thenBranch).bind fun whenTrue =>
          (h.statement? elseBranch).bind fun whenFalse => h.emitPlain rfl
    | whileLoop condition body =>
      exact (h.expression condition).bind fun condition => (loop body).bind fun body =>
        h.emitPlain rfl
    | forLoop initializers condition incrementors body =>
      exact (Keeps.mapM h.headPart initializers).bind fun before =>
        (h.expression? condition).bind fun condition => (loop body).bind fun body =>
          (Keeps.mapM h.headPart incrementors).bind fun atLoopBottom => h.emitPlain rfl
    | switch expression sections =>
      exact (h.expression expression).bind fun value =>
        (Keeps.mapM (h.within _).switchSection sections).bind fun cases => h.emitPlain rfl
    | breakJump => exact h.jump
    | continueJump => exact h.jump
    | goto target => exact h.goto target
    | labeled label statement =>
      exact (h.statement statement).bind fun operation => h.emitPlain rfl
    | returnJump expression => exact (h.expression? expression).bind fun value => h.emitPlain rfl
    | empty => exact h.emitPlain rfl
    | fixed declaration body => exact h.fixed declaration body
    | lock expression body =>
      exact (h.expression expression).bind fun value => (h.statement body).bind fun body =>
        h.emit rfl
    | usingResource resource body => exact h.usingResource resource body
    | switchSection labels statements => exact h.salvageStatement id
    | caseLabel value => exact h.salvageStatement id
    | _ => exact h.misplaced _

/-! ### Roots -/

theorem initialized (value : Option SyntaxId) {make : SymbolId → OperationId → OperationKind}
    (early : ∀ symbol i, (make symbol i).lateCall? = none) :
    Keeps I (c.initialized id value make) := by
  unfold Context.initialized
  cases value with
  | none => exact .pure none
  | some value =>
    refine .bind (h.expression value) fun value => .map some ?_
    unfold initializer
    split
    · exact h.emitPlain (early _ value)
    · exact h.invalidStatement id [value]

theorem lowerRoot (id : SyntaxId) : Keeps I (c.lowerRoot id) := by
  unfold Context.lowerRoot
  split
  · exact .pure none
  · split
    · exact h.initialized _ fun _ _ => rfl
    · exact .map some (h.statement id)
  · exact h.initialized _ fun _ _ => rfl
  · exact h.initialized _ fun _ _ => rfl
  · exact .pure none
  · exact (h.statement _).bind fun body => .map some (h.emitPlain rfl)
  · exact .pure none
  · exact .pure none
  · split
    · exact .map some (h.expression id)
    · exact .map some (h.statement id)

end Indifferent

end Context

end SemanticTrees
