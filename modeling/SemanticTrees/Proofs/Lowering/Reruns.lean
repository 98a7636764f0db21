import SemanticTrees.Proofs.Lowering.Calls

/-! Lowering with other options. The two choices of the options are looked at only where an operation
that is resolved at run time is added, and they decide only whether it is invalid. A node that is
lowered once more with other choices gives the same operation, and its store is the same up to the
flags that the choices decide; the rules compose pairs of such steps. -/
namespace SemanticTrees

/-- What is turned on stays turned on. -/
structure LoweringOptions.Enables (options options' : LoweringOptions) : Prop where
  taintLambdas : options.taintLambdas = true → options'.taintLambdas = true
  flagTypeArguments : options.flagTypeArguments = true → options'.flagTypeArguments = true

namespace Program

variable (p : Program)

/-- The expression of an argument; an argument without a name or a way of passing is one itself. -/
def argumentValue (argument : SyntaxId) : SyntaxId :=
  match p.formOf argument with
  | some (.argument _ _ expression) => expression
  | _ => argument

def HasLambdaArgument (id : SyntaxId) : Prop :=
  ∃ form, p.formOf id = some form ∧
    ∃ argument ∈ form.arguments, p.HoldsLambda (p.argumentValue argument)

/-- Options decide whether an operation is invalid: it is an access that is resolved at run time and
has a lambda as an argument, or a member with type arguments. -/
def IsChosen (o : Operation) : Prop :=
  match o.kind with
  | .dynamicInvocation _ | .dynamicIndexerAccess _ | .dynamicObjectCreation _ =>
    p.HasLambdaArgument o.origin
  | .dynamicMemberReference access => access.typeArguments ≠ []
  | _ => False

end Program

/-- An operation and what it is with other options. Only whether it is invalid may differ, and only
if options decide it; it stays invalid when more is turned on. -/
structure Operation.Reflagged (p : Program) (options options' : LoweringOptions)
    (o o' : Operation) : Prop where
  same : o' = { o with isSelfInvalid := o'.isSelfInvalid }
  chosen : o.isSelfInvalid ≠ o'.isSelfInvalid → p.IsChosen o
  grows : options.Enables options' → o.isSelfInvalid = true → o'.isSelfInvalid = true

/-- Stores with the same operations up to flags, made for the same nodes. -/
structure Store.Reflagged (p : Program) (options options' : LoweringOptions)
    (s s' : Store) : Prop where
  operations : List.Forall₂ (Operation.Reflagged p options options') s.operations.toList
    s'.operations.toList
  origins : s'.origins = s.origins

section Operation

variable {p : Program} {options options' : LoweringOptions} {o o' : Operation}
  {flagged flagged' : Bool}

namespace Operation.Reflagged

theorem refl (o : Operation) : Reflagged p options options' o o where
  same := rfl
  chosen differ := absurd rfl differ
  grows _ invalid := invalid

/-- An operation that is marked on conditions of its own in both runs. -/
theorem invalidIf (chosen : flagged ≠ flagged' → p.IsChosen o)
    (grows : options.Enables options' → flagged = true → flagged' = true) :
    Reflagged p options options' (o.invalidIf flagged) (o.invalidIf flagged') where
  same := rfl
  chosen differ := chosen fun same => differ (same ▸ rfl)
  grows enables invalid := by
    simp only [Operation.invalidIf, Bool.or_eq_true] at invalid ⊢
    exact invalid.imp_right (grows enables)

end Operation.Reflagged

end Operation

/-- A node in its surroundings, and the same node lowered with other options. -/
structure Rerun where
  first : Context
  options : LoweringOptions
  walk : Walk

namespace Rerun

open Lowering

variable {α β : Type} (r : Rerun)

def second : Context := { r.first with options := r.options, walk := r.walk }

def within (scope : Scope) : Rerun := { r with first := r.first.within scope }

/-- Stores of the two runs are the same up to flags. -/
abbrev Stores (s s' : Store) : Prop :=
  Store.Reflagged r.first.program r.first.options r.options s s'

/-- Two steps give the same and leave stores that are the same up to flags, if they find such
ones. -/
def Agrees (m m' : Lowering α) : Prop :=
  ∀ s s', r.Stores s s' → (m'.run s').1 = (m.run s).1 ∧ r.Stores (m.run s).2 (m'.run s').2

/-- Nodes are lowered alike with both options. -/
def Walks : Prop := ∀ scope role id, r.Agrees (r.first.walk scope role id) (r.walk scope role id)

variable {r}

namespace Agrees

theorem pure (a : α) : r.Agrees (Pure.pure a) (Pure.pure a) := fun _ _ stores => ⟨rfl, stores⟩

theorem bind {m m' : Lowering α} {f f' : α → Lowering β} (first : r.Agrees m m')
    (second : ∀ a, r.Agrees (f a) (f' a)) : r.Agrees (m >>= f) (m' >>= f') := by
  intro s s' stores
  obtain ⟨given, stores⟩ := first s s' stores
  change ((f' (m'.run s').1).run (m'.run s').2).1 = _ ∧
    r.Stores _ ((f' (m'.run s').1).run (m'.run s').2).2
  rw [given]
  exact second _ _ _ stores

theorem map {m m' : Lowering α} (f : α → β) (step : r.Agrees m m') :
    r.Agrees (f <$> m) (f <$> m') := by
  intro s s' stores
  obtain ⟨given, stores⟩ := step s s' stores
  exact ⟨congrArg f given, stores⟩

theorem ite {test : Prop} [Decidable test] {m m' n n' : Lowering α} (yes : r.Agrees m m')
    (no : r.Agrees n n') :
    r.Agrees (if test then m else n) (if test then m' else n') := by
  by_cases holds : test
  · rwa [if_pos holds, if_pos holds]
  · rwa [if_neg holds, if_neg holds]

theorem mapM {f f' : α → Lowering β} (step : ∀ a, r.Agrees (f a) (f' a)) :
    (l : List α) → r.Agrees (l.mapM f) (l.mapM f')
  | [] => pure []
  | a :: rest => by
    rw [List.mapM_cons, List.mapM_cons]
    exact .bind (step a) fun b => .bind (mapM step rest) fun bs => .pure (b :: bs)

theorem emit {o o' : Operation}
    (same : o.Reflagged r.first.program r.first.options r.options o') :
    r.Agrees (Lowering.emit o) (Lowering.emit o') := by
  intro s s' stores
  have size : s'.size = s.size := by simpa [Store.size] using stores.operations.length_eq.symm
  refine ⟨size, ?_, ?_⟩
  · change List.Forall₂ _ (s.operations.push o).toList (s'.operations.push o').toList
    rw [Array.toList_push, Array.toList_push]
    exact List.rel_append stores.operations (.cons same .nil)
  · have implicit : o'.isImplicit = o.isImplicit := by rw [same.same]
    have origin : o'.origin = o.origin := by rw [same.same]
    change (if o'.isImplicit then _ else s'.origins.insert o'.origin s'.size) = _
    rw [implicit, origin, size, stores.origins]
    rfl

/-- An operation whose validity is settled. -/
theorem settled (o : Operation) : r.Agrees (Lowering.emit o) (Lowering.emit o) := .emit (.refl o)

theorem associate (node : SyntaxId) (i : OperationId) :
    r.Agrees (Lowering.associate node i) (Lowering.associate node i) := by
  intro s s' stores
  refine ⟨rfl, stores.operations, ?_⟩
  change s'.origins.insertIfNew node i = _
  rw [stores.origins]
  rfl

end Agrees

/-! ### Surroundings

What a node looks up does not depend on options. -/

section Surroundings

variable (id : SyntaxId)

theorem program_second : r.second.program = r.first.program := rfl

theorem scope_second : r.second.scope = r.first.scope := rfl

theorem formOf_second : r.second.formOf id = r.first.formOf id := rfl

theorem typeOf_second : r.second.typeOf id = r.first.typeOf id := rfl

theorem symbol?_second (symbol : SymbolId) : r.second.symbol? symbol = r.first.symbol? symbol := rfl

theorem symbolAt_second : r.second.symbolAt id = r.first.symbolAt id := rfl

theorem isDynamic_second : r.second.isDynamic id = r.first.isDynamic id := rfl

theorem isTypeName_second : r.second.isTypeName id = r.first.isTypeName id := rfl

theorem isExpression_second : r.second.isExpression id = r.first.isExpression id := rfl

theorem isStatic_second (symbol : SymbolId) :
    r.second.isStatic symbol = r.first.isStatic symbol := rfl

theorem referenceKind_second (symbol : SymbolId) (receiver : Option OperationId) :
    r.second.referenceKind symbol receiver = r.first.referenceKind symbol receiver := rfl

theorem lateBound_second (kind : OperationKind) :
    r.second.lateBound kind id = r.first.lateBound kind id := rfl

theorem valued_second (kind : OperationKind) :
    r.second.valued kind id = r.first.valued kind id := rfl

theorem knownContainingType_second (receiver : Option SyntaxId) (candidates : List SymbolId) :
    r.second.knownContainingType receiver candidates =
      r.first.knownContainingType receiver candidates := rfl

theorem boundMember_second : r.second.boundMember id = r.first.boundMember id := rfl

theorem isLateBoundAccess_second (receiver : SyntaxId) :
    r.second.isLateBoundAccess id receiver = r.first.isLateBoundAccess id receiver := rfl

theorem candidatesOf_second (otherwise : List SymbolId) :
    r.second.candidatesOf id otherwise = r.first.candidatesOf id otherwise := rfl

theorem namesMethod_second : r.second.namesMethod id = r.first.namesMethod id := rfl

theorem anyAcceptsCount_second (candidates : List SymbolId) (count : Nat) :
    r.second.anyAcceptsCount candidates count = r.first.anyAcceptsCount candidates count := rfl

theorem writtenArgument_second : r.second.writtenArgument id = r.first.writtenArgument id := rfl

theorem requiredConversion_second :
    r.second.requiredConversion id = r.first.requiredConversion id := rfl

theorem isDynamicCallee_second (fuel : Nat) :
    r.second.isDynamicCallee fuel id = r.first.isDynamicCallee fuel id := by
  induction fuel generalizing id with
  | zero => rfl
  | succ fuel ih => simp only [Context.isDynamicCallee, isDynamic_second, formOf_second, ih]

theorem unparenthesized_second (fuel : Nat) :
    r.second.unparenthesized fuel id = r.first.unparenthesized fuel id := by
  induction fuel generalizing id with
  | zero => rfl
  | succ fuel ih => simp only [Context.unparenthesized, formOf_second, ih]

theorem hasLambda_second (arguments : List SyntaxId) :
    r.second.hasLambda arguments = r.first.hasLambda arguments := by
  simp only [Context.hasLambda, Context.isLambda, writtenArgument_second, program_second,
    unparenthesized_second, formOf_second]

end Surroundings

/-! ### Operations that options decide -/

variable {id : SyntaxId} {form : Form} {o : Operation}

theorem hasLambdaArgument_of_hasLambda (known : r.first.formOf id = some form)
    (lambda : r.first.hasLambda form.arguments = true) :
    r.first.program.HasLambdaArgument id := by
  obtain ⟨argument, listed, isLambda⟩ := List.any_eq_true.mp lambda
  refine ⟨form, known, argument, listed, ?_⟩
  have value : (r.first.writtenArgument argument).2.2 = r.first.program.argumentValue argument := by
    unfold Context.writtenArgument Context.formOf Program.argumentValue
    cases r.first.program.formOf argument with
    | none => rfl
    | some form => cases form <;> rfl
  rw [← value]
  exact Context.isLambda_iff.mp isLambda

/-- A lambda as an argument makes an access invalid if the options say so. -/
theorem Agrees.taintedByLambda {arguments : List SyntaxId}
    (known : r.first.formOf o.origin = some form) (written : form.arguments = arguments)
    (late : r.first.program.HasLambdaArgument o.origin → r.first.program.IsChosen o) :
    r.Agrees (Lowering.emit (o.invalidIf (r.first.taintedByLambda arguments)))
      (Lowering.emit (o.invalidIf (r.second.taintedByLambda arguments))) := by
  obtain rfl := written
  simp only [Context.taintedByLambda, hasLambda_second]
  refine .emit (.invalidIf ?_ ?_)
  · intro differ
    cases lambda : r.first.hasLambda form.arguments with
    | true => exact late (hasLambdaArgument_of_hasLambda known lambda)
    | false => exact absurd (by rw [lambda, Bool.false_and, Bool.false_and]) differ
  · intro enables tainted
    simp only [Bool.and_eq_true] at tainted ⊢
    exact tainted.imp_right enables.taintLambdas

/-- Type arguments make a member that is not called invalid if the options say so. -/
theorem Agrees.flagTypeArguments {access : DynamicAccess} {typeArguments : List TypeId}
    (called : Bool) (kind : o.kind = .dynamicMemberReference access)
    (named : access.typeArguments = typeArguments) :
    r.Agrees
      (Lowering.emit (o.invalidIf
        (!typeArguments.isEmpty && !called && r.first.options.flagTypeArguments)))
      (Lowering.emit (o.invalidIf
        (!typeArguments.isEmpty && !called && r.second.options.flagTypeArguments))) := by
  refine .emit (.invalidIf ?_ ?_)
  · intro differ
    rw [Program.IsChosen, kind]
    intro empty
    simp [← named, empty] at differ
  · intro enables flagged
    simp only [Bool.and_eq_true] at flagged ⊢
    exact flagged.imp_right enables.flagTypeArguments

namespace Walks

variable (h : r.Walks)
include h

theorem expression (id : SyntaxId) :
    r.Agrees (r.first.expression id) (r.second.expression id) := h _ _ _

theorem statement (id : SyntaxId) :
    r.Agrees (r.first.statement id) (r.second.statement id) := h _ _ _

theorem expression? (id : Option SyntaxId) :
    r.Agrees (r.first.expression? id) (r.second.expression? id) := by
  cases id with
  | none => exact .pure none
  | some id => exact .map some (h.expression id)

theorem statement? (id : Option SyntaxId) :
    r.Agrees (r.first.statement? id) (r.second.statement? id) := by
  cases id with
  | none => exact .pure none
  | some id => exact .map some (h.statement id)

theorem within (scope : Scope) : (r.within scope).Walks := h

end Walks

/-! ### Additions -/

theorem emitPlain_agrees (kind : OperationKind) (id : SyntaxId) :
    r.Agrees (r.first.emitPlain kind id) (r.second.emitPlain kind id) := .settled _

theorem emitValued_agrees (kind : OperationKind) (id : SyntaxId) :
    r.Agrees (r.first.emitValued kind id) (r.second.emitValued kind id) := .settled _

theorem invalidExpression_agrees (id : SyntaxId) (children : List OperationId) :
    r.Agrees (r.first.invalidExpression id children) (r.second.invalidExpression id children) :=
  .settled _

theorem invalidStatement_agrees (id : SyntaxId) (children : List OperationId) :
    r.Agrees (r.first.invalidStatement id children) (r.second.invalidStatement id children) :=
  .settled _

theorem placeholder_agrees (role : Role) (id : SyntaxId) :
    r.Agrees (r.first.placeholder role id) (r.second.placeholder role id) := by
  cases role with
  | expression => exact invalidExpression_agrees id []
  | statement => exact invalidStatement_agrees id []

theorem Walks.salvageStatement (h : r.Walks) (id : SyntaxId) :
    r.Agrees (r.first.salvageStatement id) (r.second.salvageStatement id) := by
  unfold Context.salvageStatement
  refine .bind (.mapM ?_ _) fun children => invalidStatement_agrees id children
  intro child
  rw [isExpression_second]
  exact .ite (h.expression child) (h.statement child)

end Rerun

end SemanticTrees
