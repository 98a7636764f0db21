import SemanticTrees.Operation.Tree
import Mathlib.Data.List.Induction
import Mathlib.Data.List.Nodup
import Mathlib.Logic.Relation

/-! The shape of operation trees. A compact tree stores the operations below its root and nothing
else, children in front of parents and none of them listed twice; from this every operation has
one place in one slot and one path of slots that leads to it. -/
namespace SemanticTrees

/-- A position among the children of an operation: the slot, and the place in the slot. -/
structure SlotPosition where
  slot : Nat
  place : Nat
deriving DecidableEq, Repr

namespace OperationKind

/-- The child at a position. -/
def childAt (kind : OperationKind) (position : SlotPosition) : Option OperationId :=
  kind.slots[position.slot]?.bind fun (_, slot) => slot.children[position.place]?

theorem childAt_eq_some_iff {kind : OperationKind} {position : SlotPosition} {child : OperationId} :
    kind.childAt position = some child ↔ ∃ entry, kind.slots[position.slot]? = some entry ∧
      entry.2.children[position.place]? = some child := by
  simp [childAt, Option.bind_eq_some_iff]

theorem mem_children_iff {kind : OperationKind} {child : OperationId} :
    child ∈ kind.children ↔ ∃ position, kind.childAt position = some child := by
  simp only [children, List.mem_flatMap, childAt_eq_some_iff]
  constructor
  · rintro ⟨entry, listed, member⟩
    obtain ⟨slot, found⟩ := List.mem_iff_getElem?.mp listed
    obtain ⟨place, stored⟩ := List.mem_iff_getElem?.mp member
    exact ⟨⟨slot, place⟩, entry, found, stored⟩
  · rintro ⟨position, entry, found, stored⟩
    exact ⟨entry, List.mem_of_getElem? found, List.mem_of_getElem? stored⟩

theorem children_mapChildren (f : OperationId → OperationId) (kind : OperationKind) :
    (kind.mapChildren f).children = kind.children.map f := by
  simp only [children, slots_mapChildren, List.flatMap_map, List.map_flatMap]
  congr 1
  funext ⟨name, slot⟩
  cases slot with
  | one child => cases child <;> rfl
  | many children => rfl

theorem mapChildren_id (kind : OperationKind) : kind.mapChildren id = kind := by
  cases kind <;> simp [mapChildren, DynamicAccess.mapChildren]

end OperationKind

theorem Operation.mapChildren_id (o : Operation) : o.mapChildren id = o := by
  rw [mapChildren, OperationKind.mapChildren_id]

@[simp] theorem Operation.children_mapChildren (f : OperationId → OperationId) (o : Operation) :
    (o.mapChildren f).children = o.children.map f :=
  OperationKind.children_mapChildren f o.kind

section List

variable {α β : Type}

/-- Lists that share no element and repeat none show where an element comes from. -/
theorem index_eq_of_nodup_flatMap {f : α → List β} {l : List α} (nodup : (l.flatMap f).Nodup)
    {i j : Nat} {a b : α} {x : β} (ha : l[i]? = some a) (hb : l[j]? = some b)
    (hx : x ∈ f a) (hy : x ∈ f b) : i = j := by
  obtain ⟨hi, rfl⟩ := List.getElem?_eq_some_iff.mp ha
  obtain ⟨hj, rfl⟩ := List.getElem?_eq_some_iff.mp hb
  have apart := List.pairwise_iff_getElem.mp (List.nodup_flatMap.mp nodup).2
  rcases Nat.lt_trichotomy i j with less | same | greater
  · exact absurd hy (apart i j hi hj less hx)
  · exact same
  · exact absurd hx (apart j i hj hi greater hy)

theorem nodup_of_mem_flatMap {f : α → List β} {l : List α} (nodup : (l.flatMap f).Nodup) {a : α}
    (member : a ∈ l) : (f a).Nodup :=
  (List.nodup_flatMap.mp nodup).1 a member

end List

namespace OperationKind

theorem childAt_inj {kind : OperationKind} {p q : SlotPosition} {child : OperationId}
    (nodup : kind.children.Nodup) (hp : kind.childAt p = some child)
    (hq : kind.childAt q = some child) : p = q := by
  obtain ⟨a, ha, hp⟩ := childAt_eq_some_iff.mp hp
  obtain ⟨b, hb, hq⟩ := childAt_eq_some_iff.mp hq
  have slot : p.slot = q.slot := index_eq_of_nodup_flatMap nodup ha hb
    (List.mem_of_getElem? hp) (List.mem_of_getElem? hq)
  have same : a = b := Option.some.inj ((ha.symm.trans (congrArg _ slot)).trans hb)
  subst same
  have single := nodup_of_mem_flatMap nodup (List.mem_of_getElem? ha)
  have bound := (List.getElem?_eq_some_iff.mp hp).1
  have place : p.place = q.place := (List.getElem?_inj bound single).mp (hp.trans hq.symm)
  cases p
  cases q
  exact congr (congrArg SlotPosition.mk slot) place

end OperationKind

namespace OperationTree

variable {t : OperationTree} {i parent child : Nat}

/-- The child of an operation at a position. -/
def childAt (t : OperationTree) (i : OperationId) (position : SlotPosition) : Option OperationId :=
  (t.get? i).bind fun o => o.kind.childAt position

/-- The operation that a path of positions leads to. -/
def follow (t : OperationTree) (path : List SlotPosition) (i : OperationId) : Option OperationId :=
  path.foldlM t.childAt i

theorem mem_childrenOf_iff :
    child ∈ t.childrenOf parent ↔ ∃ o, t.get? parent = some o ∧ child ∈ o.children := by
  unfold childrenOf
  cases t.get? parent <;> simp

theorem mem_childrenOf_iff_childAt :
    child ∈ t.childrenOf parent ↔ ∃ position, t.childAt parent position = some child := by
  rw [mem_childrenOf_iff]
  simp only [childAt, Option.bind_eq_some_iff, Operation.children, OperationKind.mem_children_iff]
  constructor
  · rintro ⟨o, found, position, stored⟩
    exact ⟨position, o, found, stored⟩
  · rintro ⟨position, o, found, stored⟩
    exact ⟨o, found, position, stored⟩

/-- One operation is a child of the other. -/
def IsChild (t : OperationTree) (parent child : OperationId) : Prop := child ∈ t.childrenOf parent

theorem isChild_of_slot {o : Operation} (found : t.get? parent = some o) {entry : String × Slot}
    (listed : entry ∈ o.kind.slots) (held : child ∈ entry.2.children) : t.IsChild parent child :=
  mem_childrenOf_iff.mpr ⟨o, found, List.mem_flatMap.mpr ⟨entry, listed, held⟩⟩

/-- An operation lies below another one, or is the same. -/
def Below (t : OperationTree) : OperationId → OperationId → Prop :=
  Relation.ReflTransGen t.IsChild

/-- Nothing is stored but the operations below the root, in an order that puts children first, and
no operation is listed as a child twice. -/
structure Compact (t : OperationTree) : Prop where
  last : t.size = t.root + 1
  before : ∀ parent child : Nat, child ∈ t.childrenOf parent → child < parent
  reached : ∀ i < t.size, t.Below t.root i
  single : (t.operations.toList.flatMap Operation.children).Nodup

/-- Children lie inside the tree and in front of their parents, the root comes last and is nobody's
child, every other operation stands at one position of one operation, and one path of positions
leads from the root to each operation. -/
structure IsTree (t : OperationTree) : Prop where
  rootLast : t.size = t.root + 1
  rootFree : ∀ parent, t.root ∉ t.childrenOf parent
  childBefore : ∀ parent child : Nat, child ∈ t.childrenOf parent → child < parent ∧ child < t.size
  listedOnce : ∀ i < t.size, i ≠ t.root →
    ∃! place : OperationId × SlotPosition, t.childAt place.1 place.2 = some i
  reachedOnce : ∀ i < t.size, ∃! path, t.follow path t.root = some i

/-- What a table has for an operation is an operation that lists it as a child. -/
def NamesParents (t : OperationTree) (table : Array (Option OperationId)) : Prop :=
  ∀ child parent, table[child]? = some (some parent) → t.IsChild parent child

theorem NamesParents.set {table : Array (Option OperationId)} (sound : t.NamesParents table)
    (listed : t.IsChild parent child) :
    t.NamesParents (table.setIfInBounds child (some parent)) := by
  intro i j stored
  rw [Array.getElem?_setIfInBounds] at stored
  split at stored
  · next same =>
    subst same
    split at stored
    · exact Option.some.inj (Option.some.inj stored) ▸ listed
    · contradiction
  · exact sound i j stored

/-- The parent of an operation lists it as a child. -/
theorem isChild_of_parent (found : t.parent child = some parent) : t.IsChild parent child := by
  have sound : t.NamesParents t.parentTable := by
    refine List.foldlRecOn (motive := t.NamesParents) _ _ ?_ ?_
    · intro i j stored
      simp [Array.getElem?_replicate] at stored
    · intro table sound j _
      exact List.foldlRecOn (motive := t.NamesParents) _ _ sound
        fun _ sound _ listed => sound.set listed
  exact sound child parent (Option.join_eq_some_iff.mp found)

theorem parent_lt_size (member : child ∈ t.childrenOf parent) : parent < t.size := by
  obtain ⟨o, found, _⟩ := mem_childrenOf_iff.mp member
  exact (Array.getElem?_eq_some_iff.mp found).1

namespace Compact

theorem root_lt_size (c : t.Compact) : t.root < t.size := c.last ▸ Nat.lt_succ_self _

theorem child_lt_size (c : t.Compact) (member : child ∈ t.childrenOf parent) : child < t.size :=
  Nat.lt_trans (c.before _ _ member) (parent_lt_size member)

theorem le_of_below (c : t.Compact) {top : OperationId} (below : t.Below top i) : i ≤ top := by
  induction below with
  | refl => exact Nat.le_refl top
  | tail _ child ih => exact Nat.le_trans (Nat.le_of_lt (c.before _ _ child)) ih

theorem root_free (c : t.Compact) : t.root ∉ t.childrenOf parent := by
  intro member
  have less := c.before _ _ member
  have bound := parent_lt_size member
  have last := c.last
  omega

theorem childAt_inj (c : t.Compact) {p q : SlotPosition} {other : OperationId}
    (hp : t.childAt parent p = some i) (hq : t.childAt other q = some i) :
    parent = other ∧ p = q := by
  obtain ⟨o, found, stored⟩ := Option.bind_eq_some_iff.mp hp
  obtain ⟨o', found', stored'⟩ := Option.bind_eq_some_iff.mp hq
  simp only [get?, ← Array.getElem?_toList] at found found'
  have listed : i ∈ o.children := OperationKind.mem_children_iff.mpr ⟨p, stored⟩
  have listed' : i ∈ o'.children := OperationKind.mem_children_iff.mpr ⟨q, stored'⟩
  have same : parent = other := index_eq_of_nodup_flatMap c.single found found' listed listed'
  subst same
  obtain rfl : o = o' := Option.some.inj (found.symm.trans found')
  have nodup := nodup_of_mem_flatMap c.single (List.mem_of_getElem? found)
  exact ⟨rfl, OperationKind.childAt_inj nodup stored stored'⟩

theorem follow_concat (path : List SlotPosition) (position : SlotPosition) :
    t.follow (path ++ [position]) i = (t.follow path i).bind (t.childAt · position) := by
  simp [follow, List.foldlM_append, Option.bind_eq_bind]

theorem exists_path {top : OperationId} (below : t.Below top i) :
    ∃ path, t.follow path top = some i := by
  induction below with
  | refl => exact ⟨[], rfl⟩
  | tail _ child ih =>
    obtain ⟨path, leads⟩ := ih
    obtain ⟨position, stored⟩ := mem_childrenOf_iff_childAt.mp child
    exact ⟨path ++ [position], by rw [follow_concat, leads]; exact stored⟩

/-- A path ends with the one position at which its end is listed, so two paths to one operation
agree from the end on. -/
theorem path_unique (c : t.Compact) {p q : List SlotPosition}
    (hp : t.follow p t.root = some i) (hq : t.follow q t.root = some i) : p = q := by
  have rootEnd {init : List SlotPosition} {last : SlotPosition}
      (leads : t.follow (init ++ [last]) t.root = some t.root) : False := by
    rw [follow_concat] at leads
    obtain ⟨parent, _, stored⟩ := Option.bind_eq_some_iff.mp leads
    exact c.root_free (mem_childrenOf_iff_childAt.mpr ⟨last, stored⟩)
  induction p using List.reverseRecOn generalizing q i with
  | nil =>
    obtain rfl : t.root = i := Option.some.inj hp
    obtain rfl | ⟨init, last, rfl⟩ := List.eq_nil_or_concat q
    · rfl
    · rw [List.concat_eq_append] at hq
      exact (rootEnd hq).elim
  | append_singleton p a ih =>
    obtain rfl | ⟨init, last, rfl⟩ := List.eq_nil_or_concat q
    · obtain rfl : t.root = i := Option.some.inj hq
      exact (rootEnd hp).elim
    · rw [List.concat_eq_append] at hq ⊢
      rw [follow_concat] at hp hq
      obtain ⟨parent, before, stored⟩ := Option.bind_eq_some_iff.mp hp
      obtain ⟨parent', before', stored'⟩ := Option.bind_eq_some_iff.mp hq
      obtain ⟨rfl, rfl⟩ := c.childAt_inj stored stored'
      rw [ih before before']

theorem exists_parent (c : t.Compact) (bound : i < t.size) (inner : i ≠ t.root) :
    ∃ parent, i ∈ t.childrenOf parent := by
  obtain rfl | ⟨parent, _, child⟩ := Relation.ReflTransGen.cases_tail (c.reached i bound)
  · contradiction
  · exact ⟨parent, child⟩

theorem isTree (c : t.Compact) : t.IsTree where
  rootLast := c.last
  rootFree _ := c.root_free
  childBefore _ _ member := ⟨c.before _ _ member, c.child_lt_size member⟩
  listedOnce i bound inner := by
    obtain ⟨parent, member⟩ := c.exists_parent bound inner
    obtain ⟨position, stored⟩ := mem_childrenOf_iff_childAt.mp member
    refine ⟨(parent, position), stored, ?_⟩
    rintro ⟨other, position'⟩ stored'
    obtain ⟨rfl, rfl⟩ := c.childAt_inj stored stored'
    rfl
  reachedOnce i bound := by
    obtain ⟨path, leads⟩ := exists_path (c.reached i bound)
    exact ⟨path, leads, fun _ leads' => c.path_unique leads' leads⟩

end Compact

end OperationTree

end SemanticTrees
