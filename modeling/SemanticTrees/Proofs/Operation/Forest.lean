import SemanticTrees.Proofs.Operation.Compaction
import Mathlib.Data.List.Perm.Subperm

/-! Forests. In a store that is being filled every operation is a child at most once, and the
operations that are still to be used are children of none. Adding an operation uses its children
up; closing a forest at one of its unused operations gives a compact tree. -/
namespace SemanticTrees.Store

/-- Children are stored in front of their parents, and no operation is listed twice among all
children and the unused operations. -/
structure Forest (s : Store) (unused : List OperationId) : Prop where
  before : ∀ parent child : Nat, child ∈ s.childrenOf parent → child < parent
  inside : ∀ i : Nat, i ∈ unused → i < s.size
  single : (unused ++ s.operations.toList.flatMap Operation.children).Nodup

variable {s : Store} {o : Operation} {i root : Nat} {unused used frame : List OperationId}

theorem childrenOf_lt (member : i ∈ s.childrenOf root) : root < s.size := by
  obtain ⟨o, found, _⟩ := mem_childrenOf_iff.mp member
  exact (Array.getElem?_eq_some_iff.mp found).1

theorem get?_add (i : Nat) : (s.add o).get? i = if i = s.size then some o else s.get? i :=
  Array.getElem?_push

theorem size_add (s : Store) (o : Operation) : (s.add o).size = s.size + 1 := Array.size_push _

theorem childrenOf_add (parent : Nat) :
    (s.add o).childrenOf parent = if parent = s.size then o.children else s.childrenOf parent := by
  by_cases same : parent = s.size
  · simp only [childrenOf, get?_add, if_pos same]
  · simp only [childrenOf, get?_add, if_neg same]

/-- What an operation of a larger store is. -/
theorem get?_add_cases {o' : Operation} (found : (s.add o).get? i = some o') :
    i = s.size ∧ o' = o ∨ i < s.size ∧ s.get? i = some o' := by
  rw [get?_add] at found
  split at found
  · next newest => exact .inl ⟨newest, (Option.some.inj found).symm⟩
  · exact .inr ⟨(Array.getElem?_eq_some_iff.mp found).1, found⟩

theorem le_of_get?_add {o' : Operation} (found : (s.add o).get? i = some o') : i ≤ s.size := by
  obtain ⟨rfl, _⟩ | ⟨bound, _⟩ := get?_add_cases found
  · exact Nat.le_refl _
  · exact Nat.le_of_lt bound

theorem forall_add {P : OperationId → Operation → Prop} (newest : P s.size o)
    (older : ∀ i o', s.get? i = some o' → P i o') (i : OperationId) (o' : Operation)
    (found : (s.add o).get? i = some o') : P i o' := by
  obtain ⟨rfl, rfl⟩ | ⟨_, old⟩ := get?_add_cases found
  · exact newest
  · exact older i o' old

theorem origins_add (node : SyntaxId) : (s.add o).origins[node]? =
    if o.isImplicit = false ∧ o.origin = node then some s.size else s.origins[node]? := by
  unfold add
  cases o.isImplicit with
  | true => simp
  | false => simp [Std.TreeMap.getElem?_insert]

/-- An entry that is associated is a new one; the others stay. -/
theorem origins_associate {node node' : SyntaxId} {j : OperationId}
    (known : (s.associate node i).origins[node']? = some j) :
    node' = node ∧ j = i ∧ s.origins[node]? = none ∨ s.origins[node']? = some j := by
  unfold associate at known
  rw [Std.TreeMap.getElem?_insertIfNew] at known
  split at known
  · next absent =>
    obtain ⟨same, absent⟩ := absent
    obtain rfl := Std.compare_eq_iff_eq.mp same
    exact .inl ⟨rfl, (Option.some.inj known).symm, by simpa using absent⟩
  · exact .inr known

theorem mem_childrenOf_of_mem_flatMap
    (member : i ∈ s.operations.toList.flatMap Operation.children) :
    ∃ parent, i ∈ s.childrenOf parent := by
  obtain ⟨o, stored, child⟩ := List.mem_flatMap.mp member
  obtain ⟨parent, found⟩ := List.mem_iff_getElem?.mp stored
  rw [Array.getElem?_toList] at found
  exact ⟨parent, mem_childrenOf_iff.mpr ⟨o, found, child⟩⟩

namespace Forest

theorem empty : Store.empty.Forest [] where
  before parent child member := by simp [childrenOf, get?, Store.empty] at member
  inside := by simp
  single := by simp [Store.empty]

/-- Unused operations may be abandoned. -/
theorem weaken (forest : s.Forest unused) (sub : used.Subperm unused) : s.Forest used where
  before := forest.before
  inside i member := forest.inside i (sub.subset member)
  single := by
    obtain ⟨kept, perm, sublist⟩ := (List.subperm_append_right _).mpr sub
    exact perm.nodup_iff.mp (forest.single.sublist sublist)

theorem associate (forest : s.Forest unused) (node : SyntaxId) (i : OperationId) :
    (s.associate node i).Forest unused :=
  ⟨forest.before, forest.inside, forest.single⟩

/-- A new operation takes its children out of the unused ones and is unused itself. -/
theorem add (forest : s.Forest (frame ++ used)) (sub : o.children.Subperm used) :
    (s.add o).Forest (frame ++ [s.size]) := by
  have childBound (i : Nat) (member : i ∈ o.children) : i < s.size :=
    forest.inside i (List.mem_append_right _ (sub.subset member))
  have oldBound (i : Nat) (member : i ∈ s.operations.toList.flatMap Operation.children) :
      i < s.size := by
    obtain ⟨parent, child⟩ := mem_childrenOf_of_mem_flatMap member
    exact Nat.lt_trans (forest.before _ _ child) (childrenOf_lt child)
  refine ⟨?_, ?_, ?_⟩
  · intro parent child member
    rw [childrenOf_add] at member
    split at member
    · next same => exact same ▸ childBound child member
    · exact forest.before parent child member
  · intro i member
    have grown := s.size_add o
    rcases List.mem_append.mp member with older | newest
    · have := forest.inside i (List.mem_append_left _ older)
      omega
    · rw [List.mem_singleton.mp newest]
      omega
  · have rest : (frame ++ o.children ++ s.operations.toList.flatMap Operation.children).Nodup :=
      (forest.weaken ((List.subperm_append_left frame).mpr sub)).single
    have fresh : s.size ∉
        frame ++ o.children ++ s.operations.toList.flatMap Operation.children := by
      intro member
      simp only [List.mem_append] at member
      obtain (older | child) | old := member
      · exact Nat.lt_irrefl _ (forest.inside _ (List.mem_append_left _ older))
      · exact Nat.lt_irrefl _ (childBound _ child)
      · exact Nat.lt_irrefl _ (oldBound _ old)
    have listed : (s.add o).operations.toList.flatMap Operation.children =
        s.operations.toList.flatMap Operation.children ++ o.children := by
      simp [Store.add]
    rw [listed]
    refine List.Perm.nodup_iff ?_ |>.mp (List.nodup_cons.mpr ⟨fresh, rest⟩)
    refine List.perm_iff_count.mpr fun i => ?_
    simp only [List.count_append, List.count_cons, List.count_nil]
    omega

theorem le_root (forest : s.Forest unused) (keeps : s.Keeps root i) : i ≤ root := by
  induction keeps.2 with
  | refl => exact Nat.le_refl _
  | @tail m n path edge ih =>
    have less := forest.before _ _ edge.2
    have before := ih ⟨edge.1, path⟩
    omega

theorem keeps_child (forest : s.Forest unused) (keeps : s.Keeps root i) {child : Nat}
    (member : child ∈ s.childrenOf i) : s.Keeps root child :=
  keeps.child member (Nat.lt_trans (forest.before _ _ member) keeps.1)

end Forest

namespace Compacts

variable {t : OperationTree} {place : Nat → Nat}

theorem size_eq (c : s.Compacts root t place) (forest : s.Forest unused) (inside : root < s.size) :
    t.size = t.root + 1 := by
  have keeps : s.Keeps root root := .refl inside
  have bound := c.place_lt_size keeps
  rw [c.top]
  by_contra different
  obtain ⟨i, keeps', same⟩ := c.onto (place root + 1) (by omega)
  obtain less | equal := Nat.lt_or_eq_of_le (forest.le_root keeps')
  · have := c.mono i root keeps' keeps less
    omega
  · subst equal
    omega

theorem below_place (c : s.Compacts root t place) (keeps : s.Keeps root i) :
    t.Below t.root (place i) := by
  induction keeps.2 with
  | refl => rw [c.top]; exact .refl
  | @tail m n path edge ih =>
    have keeps' : s.Keeps root m := ⟨edge.1, path⟩
    refine .tail (ih keeps') ?_
    rw [OperationTree.IsChild, c.childrenOf_place keeps']
    exact List.mem_map_of_mem edge.2

theorem before_of_forest (c : s.Compacts root t place) (forest : s.Forest unused)
    {parent child : Nat} (member : child ∈ t.childrenOf parent) : child < parent := by
  obtain ⟨i, keeps, rfl⟩ := c.onto parent (OperationTree.parent_lt_size member)
  rw [c.childrenOf_place keeps] at member
  obtain ⟨j, listed, rfl⟩ := List.mem_map.mp member
  exact c.mono j i (forest.keeps_child keeps listed) keeps (forest.before _ _ listed)

theorem single_of_forest (c : s.Compacts root t place) (forest : s.Forest unused) :
    (t.operations.toList.flatMap Operation.children).Nodup := by
  have stored := (List.nodup_append.mp forest.single).2.1
  -- where a child of the tree comes from in the store
  have origin {j : Nat} {o : Operation} (found : t.operations.toList[j]? = some o) :
      ∃ i o', place i = j ∧ s.operations.toList[i]? = some o' ∧
        o.children = o'.children.map place ∧ ∀ child ∈ o'.children, s.Keeps root child := by
    rw [Array.getElem?_toList] at found
    obtain ⟨i, o', keeps, rfl, known, rfl⟩ := c.exists_origin found
    refine ⟨i, o', rfl, by rwa [Array.getElem?_toList], Operation.children_mapChildren _ _, ?_⟩
    intro child member
    exact forest.keeps_child keeps (mem_childrenOf_iff.mpr ⟨o', known, member⟩)
  refine List.nodup_flatMap.mpr ⟨?_, List.pairwise_iff_getElem.mpr ?_⟩
  · intro o member
    obtain ⟨j, found⟩ := List.mem_iff_getElem?.mp member
    obtain ⟨i, o', _, known, children, keeps⟩ := origin found
    rw [children]
    refine List.Nodup.map_on ?_ (nodup_of_mem_flatMap stored (List.mem_of_getElem? known))
    intro x hx y hy same
    exact c.inj (keeps x hx) (keeps y hy) same
  · intro j k hj hk less x hx hy
    obtain ⟨i, o, rfl, known, children, keeps⟩ := origin (List.getElem?_eq_getElem hj)
    obtain ⟨i', o', rfl, known', children', keeps'⟩ := origin (List.getElem?_eq_getElem hk)
    rw [children] at hx
    rw [children'] at hy
    obtain ⟨y, listed, rfl⟩ := List.mem_map.mp hx
    obtain ⟨y', listed', same⟩ := List.mem_map.mp hy
    obtain rfl := c.inj (keeps' y' listed') (keeps y listed) same
    have equal := index_eq_of_nodup_flatMap stored known known' listed listed'
    exact Nat.lt_irrefl _ (equal ▸ less)

/-- Closing a forest leaves a compact tree, also where an operation is in use. -/
theorem compact_of_lt (c : s.Compacts root t place) (forest : s.Forest unused)
    (inside : root < s.size) : t.Compact where
  last := c.size_eq forest inside
  before _ _ member := c.before_of_forest forest member
  reached j bound := by
    obtain ⟨i, keeps, rfl⟩ := c.onto j bound
    exact c.below_place keeps
  single := c.single_of_forest forest

theorem compact (c : s.Compacts root t place) (forest : s.Forest [root]) : t.Compact :=
  c.compact_of_lt forest (forest.inside root List.mem_cons_self)

end Compacts

end SemanticTrees.Store
