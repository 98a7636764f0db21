import SemanticTrees.Rendering.Outline
import SemanticTrees.Proofs.Operation.Depth
import SemanticTrees.Proofs.Operation.Likeness
import SemanticTrees.Proofs.Rendering.Lines

/-! Congruent trees. Operations of two trees are congruent for a relation when it holds of them and
their slots hold congruent children. A comparison finds no divergence exactly when the roots are
congruent for having the same line, and then the outlines are equal. -/
namespace SemanticTrees

variable {t t' : OperationTree} {N M R S : OperationId → OperationId → Prop} {i i' : OperationId}
  {slot slot' : Slot} {slots slots' : List (String × Slot)}

theorem Slot.Alike.imp (weaker : ∀ i i', R i i' → S i i') (alike : slot.Alike R slot') :
    slot.Alike S slot' := by
  cases alike with
  | one related => exact .one (rel_imp weaker related)
  | many related => exact .many (related.imp weaker)

theorem Slot.Alike.of_children (shape : slot.shape = slot'.shape)
    (related : List.Forall₂ R slot.children slot'.children) : slot.Alike R slot' := by
  cases slot with
  | one child =>
    cases slot' with
    | many => contradiction
    | one child' =>
      cases child <;> cases child' <;> simp only [Slot.children, Option.toList] at related
      · exact .one .none
      · contradiction
      · contradiction
      · exact .one (.some (List.forall₂_cons.mp related).1)
  | many children =>
    cases slot' with
    | one => contradiction
    | many children' => exact .many related

/-- Slots have the same names, in order, and hold related children. -/
def SlotsAlike (R : OperationId → OperationId → Prop) :
    List (String × Slot) → List (String × Slot) → Prop :=
  List.Forall₂ fun entry entry' => entry.1 = entry'.1 ∧ entry.2.Alike R entry'.2

theorem SlotsAlike.imp (weaker : ∀ i i', R i i' → S i i') (alike : SlotsAlike R slots slots') :
    SlotsAlike S slots slots' :=
  List.Forall₂.imp (fun _ _ ⟨same, related⟩ => ⟨same, related.imp weaker⟩) alike

/-- Operations of two trees are related, and so are their children and everything below. -/
inductive Congruent (t t' : OperationTree) (N : OperationId → OperationId → Prop) :
    OperationId → OperationId → Prop
  | node {i i' : OperationId} {o o' : Operation} {r : OperationId → OperationId → Prop}
      (found : t.get? i = some o) (found' : t'.get? i' = some o') (same : N i i')
      (slots : SlotsAlike r o.kind.slots o'.kind.slots)
      (below : ∀ j j', r j j' → Congruent t t' N j j') : Congruent t t' N i i'

namespace Congruent

theorem exists_slots (congruent : Congruent t t' N i i') :
    ∃ o o', t.get? i = some o ∧ t'.get? i' = some o' ∧ N i i' ∧
      SlotsAlike (Congruent t t' N) o.kind.slots o'.kind.slots := by
  cases congruent with
  | node found found' same slots below => exact ⟨_, _, found, found', same, slots.imp below⟩

theorem imp (weaker : ∀ i i' o o', t.get? i = some o → t'.get? i' = some o' → N i i' → M i i')
    (congruent : Congruent t t' N i i') : Congruent t t' M i i' := by
  induction congruent with
  | node found found' same slots _ ih =>
    exact .node found found' (weaker _ _ _ _ found found' same) slots ih

end Congruent

/-- Operations of two trees have the same line, wherever they come from. -/
def SameLine (t t' : OperationTree) (i i' : OperationId) : Prop :=
  t.header RenderOptions.structural t.structuralTaint i =
    t'.header RenderOptions.structural t'.structuralTaint i'

theorem SameLine.name_eq {o o' : Operation} (same : SameLine t t' i i') (found : t.get? i = some o)
    (found' : t'.get? i' = some o') : o.kind.name = o'.kind.name := by
  unfold SameLine OperationTree.header at same
  rw [found, found'] at same
  exact Operation.name_eq_of_header_eq same

/-! ### Divergences -/

namespace Comparison

variable (c : Comparison) {compare : OperationId → OperationId → Option Divergence}

/-- Lists of the same length diverge nowhere exactly when their entries do not. -/
theorem listDivergence_eq_none_iff (name : String) {l l' : List OperationId}
    (length : l.length = l'.length) (place : Nat) :
    listDivergence compare name place l l' = none ↔
      List.Forall₂ (fun i i' => compare i i' = none) l l' := by
  induction l generalizing l' place with
  | nil =>
    obtain rfl := List.length_eq_zero_iff.mp length.symm
    simp [listDivergence]
  | cons first rest ih =>
    cases l' with
    | nil => contradiction
    | cons first' rest' =>
      rw [listDivergence, Option.or_eq_none_iff, Option.map_eq_none_iff, List.forall₂_cons,
        ih (Nat.succ.inj length)]

theorem slotDivergence_eq_none_iff (name : String) (shape : slot.shape = slot'.shape) :
    c.slotDivergence compare name slot slot' = none ↔
      slot.Alike (fun i i' => compare i i' = none) slot' := by
  constructor
  · intro none
    cases slot with
    | one child =>
      cases slot' with
      | many => contradiction
      | one child' =>
        cases child <;> cases child' <;> simp only [slotDivergence, Option.map_eq_none_iff] at none
        · exact .one .none
        · contradiction
        · contradiction
        · exact .one (.some none)
    | many children =>
      cases slot' with
      | one => contradiction
      | many children' =>
        by_cases length : children.length = children'.length
        · rw [slotDivergence, if_pos length] at none
          exact .many ((listDivergence_eq_none_iff name length 0).mp none)
        · rw [slotDivergence, if_neg length] at none
          contradiction
  · intro alike
    cases alike with
    | one related =>
      cases related with
      | none => rfl
      | some none => exact congrArg (Option.map _) none
    | many related =>
      have length := related.length_eq
      rw [slotDivergence, if_pos length]
      exact (listDivergence_eq_none_iff name length 0).mpr related

/-- Slots of operations of one kind diverge nowhere exactly when they hold children that do not. -/
theorem slotsDivergence_eq_none_iff
    (shapes : List.Forall₂ (fun entry entry' : String × Slot =>
      entry.1 = entry'.1 ∧ entry.2.shape = entry'.2.shape) slots slots') :
    c.slotsDivergence compare slots slots' = none ↔
      SlotsAlike (fun i i' => compare i i' = none) slots slots' := by
  induction shapes with
  | nil => simp [slotsDivergence, SlotsAlike]
  | @cons entry entry' rest rest' first _ ih =>
    obtain ⟨name, slot⟩ := entry
    obtain ⟨name', slot'⟩ := entry'
    obtain ⟨rfl, shape⟩ := first
    rw [slotsDivergence, Option.or_eq_none_iff, ih, c.slotDivergence_eq_none_iff name shape,
      SlotsAlike, List.forall₂_cons]
    simp only [true_and]

end Comparison

/-- One step of a comparison: the lines are the same, and the slots hold children that do not
diverge. -/
theorem divergenceAt_succ_eq_none_iff {o o' : Operation} {fuel : Nat} (found : t.get? i = some o)
    (found' : t'.get? i' = some o') :
    (Comparison.of t t').divergenceAt (fuel + 1) i i' = none ↔ SameLine t t' i i' ∧
      SlotsAlike (fun j j' => (Comparison.of t t').divergenceAt fuel j j' = none)
        o.kind.slots o'.kind.slots := by
  rw [Comparison.divergenceAt]
  split
  · next different =>
    exact ⟨fun none => (Option.some_ne_none _ none).elim, fun ⟨same, _⟩ => absurd same different⟩
  · next same =>
    have same : SameLine t t' i i' := not_not.mp same
    rw [show (Comparison.of t t').expected.get? i = some o from found,
      show (Comparison.of t t').actual.get? i' = some o' from found']
    dsimp only
    rw [Comparison.slotsDivergence_eq_none_iff _
      (OperationKind.slots_of_name (same.name_eq found found'))]
    exact ⟨fun slots => ⟨same, slots⟩, And.right⟩

theorem SlotsAlike.of_mem {kind kind' : OperationKind}
    (alike : SlotsAlike R kind.slots kind'.slots) :
    SlotsAlike (fun j j' => j ∈ kind.children ∧ j' ∈ kind'.children ∧ R j j')
      kind.slots kind'.slots := by
  refine (forall₂_mem alike).imp ?_
  rintro ⟨name, slot⟩ ⟨name', slot'⟩ ⟨listed, listed', same, related⟩
  have child {j : OperationId} (member : j ∈ slot.children) : j ∈ kind.children :=
    List.mem_flatMap.mpr ⟨_, listed, member⟩
  have child' {j : OperationId} (member : j ∈ slot'.children) : j ∈ kind'.children :=
    List.mem_flatMap.mpr ⟨_, listed', member⟩
  refine ⟨same, ?_⟩
  cases related with
  | one related =>
    refine .one (rel_imp_of_mem ?_ related)
    exact fun j here j' here' related =>
      ⟨child (Option.mem_toList.mpr here), child' (Option.mem_toList.mpr here'), related⟩
  | many related =>
    refine .many ((forall₂_mem related).imp ?_)
    rintro j j' ⟨here, here', related⟩
    exact ⟨child here, child' here', related⟩

/-- Comparing operations finds no divergence exactly when they are congruent for having the same
line. -/
theorem divergenceAt_eq_none_iff (compact : t.Compact) (compact' : t'.Compact) {fuel : Nat}
    (inside : i < t.size) (inside' : i' < t'.size) (enough : i < fuel) :
    (Comparison.of t t').divergenceAt fuel i i' = none ↔ Congruent t t' (SameLine t t') i i' := by
  induction fuel generalizing i i' with
  | zero => contradiction
  | succ fuel ih =>
    have found : t.get? i = some t.operations[i] := Array.getElem?_eq_getElem inside
    have found' : t'.get? i' = some t'.operations[i'] := Array.getElem?_eq_getElem inside'
    rw [divergenceAt_succ_eq_none_iff found found']
    have child {j j' : OperationId} (listed : j ∈ t.operations[i].kind.children)
        (listed' : j' ∈ t'.operations[i'].kind.children) :
        (Comparison.of t t').divergenceAt fuel j j' = none ↔
          Congruent t t' (SameLine t t') j j' := by
      have known : j ∈ t.childrenOf i := OperationTree.mem_childrenOf_iff.mpr ⟨_, found, listed⟩
      have known' : j' ∈ t'.childrenOf i' :=
        OperationTree.mem_childrenOf_iff.mpr ⟨_, found', listed'⟩
      have before := compact.before i j known
      exact ih (compact.child_lt_size known) (compact'.child_lt_size known')
        (Nat.lt_of_lt_of_le before (Nat.le_of_lt_succ enough))
    constructor
    · rintro ⟨same, slots⟩
      refine .node found found' same slots.of_mem ?_
      rintro j j' ⟨listed, listed', none⟩
      exact (child listed listed').mp none
    · intro congruent
      obtain ⟨o, o', known, known', same, slots⟩ := congruent.exists_slots
      obtain rfl := Option.some.inj (found.symm.trans known)
      obtain rfl := Option.some.inj (found'.symm.trans known')
      refine ⟨same, slots.of_mem.imp ?_⟩
      rintro j j' ⟨listed, listed', congruent⟩
      exact (child listed listed').mpr congruent

/-- A comparison finds no divergence exactly when the roots are congruent for having the same
line. -/
theorem divergence_eq_none_iff (compact : t.Compact) (compact' : t'.Compact) :
    (Comparison.of t t').divergence t.root t'.root = none ↔
      Congruent t t' (SameLine t t') t.root t'.root := by
  rw [Comparison.divergence, Option.map_eq_none_iff]
  exact divergenceAt_eq_none_iff compact compact' compact.root_lt_size compact'.root_lt_size
    (Nat.lt_succ_of_lt compact.root_lt_size)

/-! ### Outlines -/

theorem OperationTree.slotLine_alike (name : String) (related : slot.Alike R slot') :
    slotLine name slot' = slotLine name slot := by
  cases related with
  | one related => cases related <;> rfl
  | many related =>
    cases related with
    | nil => rfl
    | cons first rest => simp only [slotLine, List.length_cons, rest.length_eq]

/-- Congruent operations have equal outlines. -/
theorem Congruent.appendOutline (depth : Nat) {level : Nat} {out : String}
    (congruent : Congruent t t' (SameLine t t') i i') :
    t'.appendOutline RenderOptions.structural t'.structuralTaint depth level out i' =
      t.appendOutline RenderOptions.structural t.structuralTaint depth level out i := by
  induction depth generalizing level out i i' with
  | zero => rfl
  | succ depth ih =>
    obtain ⟨o, o', found, found', same, slots⟩ := congruent.exists_slots
    have lists {children children' : List OperationId} (out : String)
        (related : List.Forall₂ (Congruent t t' (SameLine t t')) children children') :
        children'.foldl (t'.appendOutline RenderOptions.structural t'.structuralTaint depth
            (level + 2)) out =
          children.foldl (t.appendOutline RenderOptions.structural t.structuralTaint depth
            (level + 2)) out := by
      refine (List.rel_foldl (P := Eq) ?_ rfl related).symm
      rintro _ out rfl j j' related
      exact (ih related).symm
    rw [OperationTree.appendOutline, OperationTree.appendOutline, ← same, found, found']
    refine (List.rel_foldl (P := Eq) ?_ rfl slots).symm
    rintro _ out rfl ⟨name, slot⟩ ⟨name', slot'⟩ ⟨same, related⟩
    obtain rfl : name = name' := same
    dsimp only
    rw [OperationTree.slotLine_alike name related]
    exact (lists _ related.children).symm

theorem Congruent.outline (congruent : Congruent t t' (SameLine t t') t.root t'.root) :
    t'.outline RenderOptions.structural t'.structuralTaint =
      t.outline RenderOptions.structural t.structuralTaint :=
  congruent.appendOutline Limits.printDepth

end SemanticTrees
