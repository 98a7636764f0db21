import SemanticTrees.Proofs.Lowering.StatementReruns
import SemanticTrees.Proofs.Operation.Taint
import SemanticTrees.Proofs.Program.Translation

/-! What the choices of the options do to trees. Other choices give the same tree up to flags: the
same operations in the same order with the same children, made for the same nodes. A flag differs
only where options decide it, and turning a choice on marks more operations as invalid, never
fewer. -/
namespace SemanticTrees

open Lowering

variable {p : Program} {options options' : LoweringOptions}

/-- Trees with the same operations up to flags, made for the same nodes. -/
structure OperationTree.Reflagged (p : Program) (options options' : LoweringOptions)
    (t t' : OperationTree) : Prop where
  program : t'.program = t.program
  root : t'.root = t.root
  origins : t'.origins = t.origins
  operations : List.Forall₂ (Operation.Reflagged p options options') t.operations.toList
    t'.operations.toList

/-! ### Closing stores -/

theorem Program.IsChosen.mapChildren {o : Operation} (chosen : p.IsChosen o)
    (f : OperationId → OperationId) : p.IsChosen (o.mapChildren f) := by
  obtain ⟨kind, origin, span, type, constant, isImplicit, isSelfInvalid⟩ := o
  cases kind with
  | dynamicMemberReference access => exact chosen
  | dynamicInvocation access => exact chosen
  | dynamicIndexerAccess access => exact chosen
  | dynamicObjectCreation access => exact chosen
  | _ => exact chosen.elim

theorem Operation.Reflagged.mapChildren {o o' : Operation} (same : o.Reflagged p options options' o')
    (f : OperationId → OperationId) :
    (o.mapChildren f).Reflagged p options options' (o'.mapChildren f) where
  same := by
    rw [same.same]
    rfl
  chosen differ := (same.chosen differ).mapChildren f
  grows := same.grows

theorem Operation.Reflagged.children {o o' : Operation}
    (same : o.Reflagged p options options' o') : o'.children = o.children := by
  rw [same.same]
  rfl

/-- Operations that are kept by the same marks. -/
theorem forall₂_kept {f : OperationId → OperationId} {l l' : List Operation}
    (same : List.Forall₂ (Operation.Reflagged p options options') l l') (marks : List Bool) :
    List.Forall₂ (Operation.Reflagged p options options')
      ((l.zip marks).filterMap fun (o, keep) => if keep then some (o.mapChildren f) else none)
      ((l'.zip marks).filterMap fun (o, keep) => if keep then some (o.mapChildren f) else none) := by
  induction same generalizing marks with
  | nil => exact .nil
  | cons first _ ih =>
    cases marks with
    | nil => exact .nil
    | cons keep rest =>
      cases keep with
      | true => exact .cons (first.mapChildren f) (ih rest)
      | false => exact ih rest

namespace Store.Reflagged

variable {s s' : Store} (stores : Store.Reflagged p options options' s s')
include stores

theorem size : s'.size = s.size := by simpa [Store.size] using stores.operations.length_eq.symm

theorem childrenOf : s'.childrenOf = s.childrenOf := by
  funext i
  have related : Option.Rel (Operation.Reflagged p options options') (s.get? i) (s'.get? i) := by
    have related := rel_getElem? stores.operations i
    rwa [Array.getElem?_toList, Array.getElem?_toList] at related
  unfold Store.childrenOf
  generalize s.get? i = found at related ⊢
  generalize s'.get? i = found' at related ⊢
  cases related with
  | none => rfl
  | some same => exact same.children

/-- The root leads to the same operations, so closing the stores drops the same ones. -/
theorem finish (program : Program) (root : OperationId) :
    OperationTree.Reflagged p options options' (s.finish program root)
      (s'.finish program root) := by
  unfold Store.finish
  rw [stores.size, stores.childrenOf, stores.origins]
  dsimp only
  split
  · exact ⟨rfl, rfl, rfl, stores.operations⟩
  · refine ⟨rfl, rfl, rfl, ?_⟩
    rw [Array.toList_filterMap, Array.toList_filterMap, Array.toList_zip, Array.toList_zip]
    exact forall₂_kept stores.operations _

end Store.Reflagged

/-! ### Trees -/

namespace OperationTree.Reflagged

variable {t t' : OperationTree} (same : t.Reflagged p options options' t')
include same

theorem get? (i : OperationId) :
    Option.Rel (Operation.Reflagged p options options') (t.get? i) (t'.get? i) := by
  have related := rel_getElem? same.operations i
  rwa [Array.getElem?_toList, Array.getElem?_toList] at related

theorem childrenOf : t'.childrenOf = t.childrenOf := by
  funext i
  have related := same.get? i
  unfold OperationTree.childrenOf
  generalize t.get? i = found at related ⊢
  generalize t'.get? i = found' at related ⊢
  cases related with
  | none => rfl
  | some same => exact same.children

theorem isSelfInvalid (enables : options.Enables options') (i : OperationId)
    (invalid : t.isSelfInvalid i = true) : t'.isSelfInvalid i = true := by
  have related := same.get? i
  unfold OperationTree.isSelfInvalid at invalid ⊢
  generalize t.get? i = found at related invalid
  generalize t'.get? i = found' at related ⊢
  cases related with
  | none => exact invalid
  | some same => exact same.grows enables invalid

/-- What is invalid stays so, and with it everything above. -/
theorem structuralTaint (compact : t.Compact) (compact' : t'.Compact)
    (enables : options.Enables options') (i : OperationId)
    (tainted : t.structuralTaint.getD i false = true) :
    t'.structuralTaint.getD i false = true := by
  rw [structuralTaint_iff compact] at tainted
  rw [structuralTaint_iff compact']
  obtain ⟨m, below, invalid⟩ := tainted
  refine ⟨m, ?_, same.isSelfInvalid enables m invalid⟩
  have child : t'.IsChild = t.IsChild := by
    unfold IsChild
    rw [same.childrenOf]
  rwa [Below, child]

end OperationTree.Reflagged

namespace Program

/-- A node of a program in a scope, and the same node with other options. -/
def rerun (p : Program) (options options' : LoweringOptions) (depth : Nat) (scope : Scope) :
    Rerun where
  first := { program := p, options, scope, walk := walk p options depth }
  options := options'
  walk := walk p options' depth

theorem walks_rerun (p : Program) (options options' : LoweringOptions) (depth : Nat)
    (scope : Scope) : (p.rerun options options' depth scope).Walks := by
  induction depth generalizing scope with
  | zero =>
    intro inner role id
    let r : Rerun :=
      ⟨{ program := p, options, scope := inner, walk := fun _ _ _ => pure 0 }, options',
        fun _ _ _ => pure 0⟩
    exact Rerun.placeholder_agrees (r := r) role id
  | succ depth ih =>
    intro inner role id
    cases role with
    | expression => exact (ih inner).lowerExpression id
    | statement => exact (ih inner).lowerStatement id

/-- The depth limit being the same, other choices give the same tree up to flags. -/
theorem tree?_reflagged (same : options'.maxDepth = options.maxDepth) (id : SyntaxId) :
    Option.Rel (OperationTree.Reflagged p options options') (p.tree? options id)
      (p.tree? options' id) := by
  let r := p.rerun options options' options.maxDepth (p.rootScope id)
  have second : p.rootContext options' id = r.second := by
    unfold rootContext
    rw [same]
    rfl
  have agrees : r.Agrees ((p.rootContext options id).lowerRoot id)
      ((p.rootContext options' id).lowerRoot id) := by
    rw [second]
    exact (walks_rerun p options options' options.maxDepth (p.rootScope id)).lowerRoot id
  obtain ⟨given, stores⟩ := agrees Store.empty Store.empty ⟨.nil, rfl⟩
  unfold tree?
  generalize ((p.rootContext options id).lowerRoot id).run Store.empty = run at given stores
  generalize ((p.rootContext options' id).lowerRoot id).run Store.empty = run' at given stores
  obtain ⟨root, s⟩ := run
  obtain ⟨root', s'⟩ := run'
  obtain rfl : root' = root := given
  cases root' with
  | none => exact .none
  | some root => exact .some (stores.finish p root)

/-- The choices of the options change nothing about a tree but flags, and these only where a lambda
is an argument of an access that is resolved at run time or where a member has type arguments. What
is invalid without a choice is invalid with it. -/
theorem tree?_choices (p : Program) (options : LoweringOptions)
    (taintLambdas flagTypeArguments : Bool) (id : SyntaxId) :
    let options' := { options with taintLambdas, flagTypeArguments }
    Option.Rel
      (fun t t' => OperationTree.Reflagged p options options' t t' ∧
        (options.Enables options' → ∀ i, t.structuralTaint.getD i false = true →
          t'.structuralTaint.getD i false = true))
      (p.tree? options id) (p.tree? options' id) := by
  intro options'
  have same : Option.Rel (OperationTree.Reflagged p options options') (p.tree? options id)
      (p.tree? options' id) := by
    apply tree?_reflagged
    rfl
  refine rel_imp_of_mem ?_ same
  intro t built t' built' reflagged
  refine ⟨reflagged, fun enables => ?_⟩
  exact reflagged.structuralTaint (tree?_compact built) (tree?_compact built') enables

/-- A call of something that is known at run time only, with a lambda in parentheses as an
argument. -/
def lambdaCall : Program :=
  { empty "call" with
    nodes := #[⟨.zero, .identifier "d"⟩, ⟨.zero, .literal "1"⟩, ⟨.zero, .lambda [] 1⟩,
      ⟨.zero, .parenthesized 2⟩, ⟨.zero, .argument none .byValue 3⟩, ⟨.zero, .invocation 0 [4]⟩,
      ⟨.zero, .expressionStatement 5⟩]
    types := #[⟨"dynamic", .dynamic⟩]
    facts := Std.TreeMap.empty.insert 0 { Facts.unknown with type := some 0 } }

theorem lambdaCall_choices :
    ∃ t t', lambdaCall.tree? { taintLambdas := false } 6 = some t ∧
      lambdaCall.tree? {} 6 = some t' ∧
      OperationTree.Reflagged lambdaCall { taintLambdas := false } {} t t' ∧
      t.structuralTaint.toList.count true = 0 ∧ t'.structuralTaint.toList.count true = 2 := by
  have related := tree?_choices lambdaCall { taintLambdas := false } true true 6
  have clean : (lambdaCall.tree? { taintLambdas := false } 6).map
      (fun t => t.structuralTaint.toList.count true) = some 0 := by decide +kernel
  have tainted : (lambdaCall.tree? {} 6).map
      (fun t => t.structuralTaint.toList.count true) = some 2 := by decide +kernel
  dsimp only at related
  generalize lambdaCall.tree? { taintLambdas := false } 6 = first at related clean ⊢
  generalize lambdaCall.tree? {} 6 = second at related tainted ⊢
  cases related with
  | none => contradiction
  | some related =>
    exact ⟨_, _, rfl, rfl, related.1, Option.some.inj clean, Option.some.inj tainted⟩

end Program

end SemanticTrees
