import SemanticTrees.Proofs.Operation.Forest
import Mathlib.Data.Set.Function
import Mathlib.Order.Monotone.Defs

/-! Stores that any sequence of calls fills, and what closing does to them. The operations that the
root leads to move by one bijection, which keeps their order; the table of new places is looked up
nowhere but inside its bounds. -/
namespace SemanticTrees

namespace OperationKind

/-- What renumbering the children looks up: an access that is resolved at run time may have a
receiver or arguments that stand in no slot. -/
def references (kind : OperationKind) : List OperationId :=
  match kind.dynamicAccess? with
  | some access => access.receiver.toList ++ access.arguments
  | none => kind.children

/-- What an operation of this kind has, it has in slots: a member that is resolved at run time has
no arguments, and an object that is created at run time has no receiver. -/
def isSlotted : OperationKind → Bool
  | .dynamicMemberReference access => access.arguments.isEmpty
  | .dynamicObjectCreation access => access.receiver.isNone
  | _ => true

variable {kind : OperationKind}

theorem references_eq_children (slotted : kind.isSlotted = true) :
    kind.references = kind.children := by
  cases kind <;> simp_all [isSlotted, references, dynamicAccess?, children, slots, Slot.children]

end OperationKind

namespace Store

/-- A call that fills a store. -/
inductive Change
  | add (o : Operation)
  | associate (node : SyntaxId) (i : OperationId)

def Change.apply (s : Store) : Change → Store
  | .add o => s.add o
  | .associate node i => s.associate node i

/-- The store that a sequence of calls fills. -/
def filled (changes : List Change) : Store := changes.foldl Change.apply empty

/-- Calls refer to operations of the store alone, and an operation to those in front of it. -/
structure Ordered (changes : List Change) : Prop where
  backward : ∀ i o, (filled changes).get? i = some o → ∀ child ∈ o.children, child < i
  inside : ∀ node i, .associate node i ∈ changes → i < (filled changes).size
  slotted : ∀ i o, (filled changes).get? i = some o → o.kind.isSlotted = true

variable {s : Store} {changes : List Change} {p : Program} {root i : OperationId} {node : SyntaxId}

theorem filled_append (changes : List Change) (change : Change) :
    filled (changes ++ [change]) = change.apply (filled changes) := by
  rw [filled, List.foldl_append]
  rfl

/-- An entry was written for an operation of the store or by a call that names it. -/
theorem lt_size_or_listed (known : (filled changes).origins[node]? = some i) :
    i < (filled changes).size ∨ .associate node i ∈ changes := by
  induction changes using List.reverseRecOn with
  | nil => simp [filled, empty] at known
  | append_singleton changes change ih =>
    rw [filled_append] at known ⊢
    rw [List.mem_append]
    cases change with
    | add o =>
      have grown : (Change.apply (filled changes) (.add o)).size = (filled changes).size + 1 :=
        Array.size_push _
      rw [grown]
      rw [Change.apply, origins_add] at known
      split at known
      · obtain rfl := Option.some.inj known
        exact .inl (Nat.lt_succ_self _)
      · exact (ih known).imp Nat.lt_succ_of_lt .inl
    | associate other j =>
      obtain ⟨rfl, rfl, _⟩ | old := origins_associate known
      · exact .inr (.inr List.mem_cons_self)
      · exact (ih old).imp_right .inl

namespace Ordered

variable (ordered : Ordered changes)
include ordered

theorem entry_lt_size (known : (filled changes).origins[node]? = some i) :
    i < (filled changes).size :=
  (lt_size_or_listed known).elim id (ordered.inside node i)

theorem reference_lt {o : Operation} (found : (filled changes).get? i = some o) {r : OperationId}
    (listed : r ∈ o.kind.references) : r < i := by
  rw [OperationKind.references_eq_children (ordered.slotted i o found)] at listed
  exact ordered.backward i o found r listed

end Ordered

theorem size_renumbering (kept : Array Bool) : (renumbering kept).size = kept.size := by
  rw [renumbering, ← Array.foldl_toList, renumbering_fold]
  simp

/-- Closing a store asks for the new place of an operation: of what an operation that is kept refers
to, and of the entries that are kept. -/
def LooksUp (s : Store) (root i : OperationId) : Prop :=
  (∃ parent o, s.Keeps root parent ∧ s.get? parent = some o ∧ i ∈ o.kind.references) ∨
    ∃ node : SyntaxId, s.origins[node]? = some i ∧ s.Keeps root i

/-- An entry whose operation is kept is one of the tree. -/
theorem exists_operationFor_finish (known : s.origins[node]? = some i) (keeps : s.Keeps root i) :
    ∃ j, (s.finish p root).operationFor node = some j := by
  unfold finish
  dsimp only
  split
  · exact ⟨i, known⟩
  · have marked := toList_reachable_getElem?.mpr keeps
    rw [Array.getElem?_toList] at marked
    refine Option.isSome_iff_exists.mp ?_
    rw [OperationTree.operationFor, Std.TreeMap.getElem?_map, Std.TreeMap.getElem?_filter', known]
    simp [Array.getD_eq_getD_getElem?, marked]

/-- The operations that the root of a store leads to are moved to a tree. -/
structure Moves (s : Store) (root : OperationId) (t : OperationTree)
    (place : OperationId → OperationId) : Prop where
  order : StrictMonoOn place {i | s.Keeps root i}
  bijective : Set.BijOn place {i | s.Keeps root i} {j | j < t.size}
  /-- What an operation refers to has moved, and the operation is the same otherwise. -/
  unchanged : ∀ i o, s.Keeps root i → s.get? i = some o →
    t.get? (place i) = some (o.mapChildren place)
  top : s.Keeps root root ∧ t.root = place root
  /-- Entries move with their operations, and those of other operations are gone. -/
  mapped : ∀ node j, t.operationFor node = some j ↔
    ∃ i, s.origins[node]? = some i ∧ s.Keeps root i ∧ place i = j
  /-- The table of new places has what is looked up in it. -/
  bounded : ∀ i, s.LooksUp root i →
    i < (renumbering (Graph.reachable s.size s.childrenOf root)).size

/-- Closing a store that ordered calls filled moves the operations that the root leads to, and
nothing else, to the tree. -/
theorem finish_moves (ordered : Ordered changes) (p : Program)
    (inside : root < (filled changes).size) :
    ∃ place, (filled changes).Moves root ((filled changes).finish p root) place := by
  generalize stored : filled changes = s at inside
  have entry {node : SyntaxId} {i : OperationId} (known : s.origins[node]? = some i) :
      i < s.size := by
    subst stored
    exact ordered.entry_lt_size known
  obtain ⟨place, compacts⟩ := s.finish_compacts p root
  have mono : StrictMonoOn place {i | s.Keeps root i} :=
    fun i keeps j keeps' => compacts.mono i j keeps keeps'
  refine ⟨place, mono, ?_, compacts.kept, ⟨.refl inside, compacts.top⟩, ?_, ?_⟩
  · exact ⟨fun i keeps => compacts.place_lt_size keeps, mono.injOn, compacts.onto⟩
  · intro node j
    constructor
    · intro mapped
      obtain ⟨i, known, same, keeps⟩ := compacts.mapped node j mapped
      exact ⟨i, known, keeps (entry known), same⟩
    · rintro ⟨i, known, keeps, rfl⟩
      obtain ⟨j, mapped⟩ := exists_operationFor_finish (p := p) known keeps
      obtain ⟨i', known', same, _⟩ := compacts.mapped node j mapped
      obtain rfl := Option.some.inj (known'.symm.trans known)
      rw [same]
      exact mapped
  · intro i
    rw [size_renumbering, Graph.size_reachable]
    rintro (⟨parent, o, keeps, found, listed⟩ | ⟨node, _, keeps⟩)
    · subst stored
      exact Nat.lt_trans (ordered.reference_lt found listed) keeps.1
    · exact keeps.1

/-- A literal that nothing uses, and a creation whose argument is a parenthesized member of another
literal. A node that is associated with the unused literal loses its operation. -/
def unusedLiteral : List Change :=
  let member := { DynamicAccess.unknown with memberName := "x", receiver := some 1 }
  let creation := { DynamicAccess.unknown with arguments := [2] }
  [.add (.plain .literal 0 .zero), .associate 4 0, .add (.plain .literal 1 .zero),
    .add (.plain (.dynamicMemberReference member) 2 .zero), .associate 3 2,
    .add (.plain (.dynamicObjectCreation creation) 5 .zero)]

theorem unusedLiteral_ordered : Ordered unusedLiteral := by
  have each : ∀ i o, (filled unusedLiteral).get? i = some o →
      (∀ child ∈ o.children, child < i) ∧ o.kind.isSlotted = true :=
    forall_add (by decide) (forall_add (by decide) (forall_add (by decide) (forall_add (by decide)
      (by simp [Store.empty, get?]))))
  refine ⟨fun i o found => (each i o found).1, ?_, fun i o found => (each i o found).2⟩
  intro node i listed
  have small : node = 4 ∧ i = 0 ∨ node = 3 ∧ i = 2 := by simpa [unusedLiteral] using listed
  obtain ⟨_, rfl⟩ | ⟨_, rfl⟩ := small <;> decide

theorem unusedLiteral_moves :
    ∃ place, (filled unusedLiteral).Moves 3 ((filled unusedLiteral).finish (.empty "late") 3)
      place :=
  finish_moves unusedLiteral_ordered (.empty "late") (by decide)

end Store

end SemanticTrees
