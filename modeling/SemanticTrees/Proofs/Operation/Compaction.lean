import SemanticTrees.Operation.Store
import SemanticTrees.Proofs.Graph.Reach
import SemanticTrees.Proofs.Operation.Shape

/-! Closing a store. What the root leads to is kept, its new places being the ranks of the old ones;
a store of operations none of which is a child twice closes to a compact tree. -/
namespace SemanticTrees.Store

section Rank

variable {α β : Type} {kept : List Bool} {i j : Nat}

/-- The number of marks in front of a place. -/
def rank (kept : List Bool) (i : Nat) : Nat := (kept.take i).count true

theorem rank_le_rank (le : i ≤ j) : rank kept i ≤ rank kept j :=
  (List.take_prefix_take_left le).sublist.count_le true

theorem rank_succ (marked : kept[i]? = some true) : rank kept (i + 1) = rank kept i + 1 := by
  simp [rank, List.take_add_one, marked]

theorem rank_lt_rank (marked : kept[i]? = some true) (less : i < j) :
    rank kept i < rank kept j := by
  have step := rank_succ marked
  have rest : rank kept (i + 1) ≤ rank kept j := rank_le_rank less
  omega

theorem rank_append (le : i ≤ kept.length) (more : List Bool) :
    rank (kept ++ more) i = rank kept i := by
  rw [rank, rank, List.take_append_of_le_length le]

theorem renumbering_fold (kept : List Bool) :
    kept.foldl (fun (places, next) keep => (places.push next, if keep then next + 1 else next))
      ((#[], 0) : Array Nat × Nat) =
        (((List.range kept.length).map (rank kept)).toArray, kept.count true) := by
  induction kept using List.reverseRecOn with
  | nil => rfl
  | append_singleton kept keep ih =>
    have older : (List.range kept.length).map (rank (kept ++ [keep])) =
        (List.range kept.length).map (rank kept) :=
      List.map_congr_left fun i member => rank_append (Nat.le_of_lt (List.mem_range.mp member)) _
    have newest : rank (kept ++ [keep]) kept.length = kept.count true := by
      rw [rank_append (Nat.le_refl _), rank, List.take_length]
    rw [List.foldl_append, ih, List.length_append, List.length_singleton, List.range_succ,
      List.map_append, older, List.map_singleton, newest]
    cases keep <;> simp

theorem getD_renumbering {kept : Array Bool} (bound : i < kept.size) :
    (renumbering kept).getD i 0 = rank kept.toList i := by
  rw [renumbering, ← Array.foldl_toList, renumbering_fold]
  simp [Array.getD_eq_getD_getElem?, bound]

variable {l : List (α × Bool)} {f : α → β}

theorem getElem?_filterMap_rank {a : α} (marked : l[i]? = some (a, true)) :
    (l.filterMap fun (a, keep) => if keep then some (f a) else none)[rank (l.map Prod.snd) i]? =
      some (f a) := by
  induction l generalizing i with
  | nil => contradiction
  | cons head rest ih =>
    obtain ⟨b, keep⟩ := head
    cases i with
    | zero =>
      obtain ⟨rfl, rfl⟩ := Prod.mk.inj (Option.some.inj marked)
      rfl
    | succ i =>
      have later := ih (i := i) marked
      cases keep <;> simpa [rank] using later

theorem exists_rank_eq
    (bound : j < (l.filterMap fun (a, keep) => if keep then some (f a) else none).length) :
    ∃ i a, l[i]? = some (a, true) ∧ rank (l.map Prod.snd) i = j := by
  induction l generalizing j with
  | nil => contradiction
  | cons head rest ih =>
    obtain ⟨b, keep⟩ := head
    cases keep with
    | false =>
      obtain ⟨i, a, marked, same⟩ := ih (j := j) (by simpa using bound)
      exact ⟨i + 1, a, marked, by simpa [rank] using same⟩
    | true =>
      cases j with
      | zero => exact ⟨0, b, rfl, rfl⟩
      | succ j =>
        obtain ⟨i, a, marked, same⟩ := ih (j := j) (by simpa using bound)
        exact ⟨i + 1, a, marked, by simpa [rank] using same⟩

end Rank

variable {s : Store} {program : Program} {root i j : Nat} {o : Operation} {t : OperationTree}
  {place : Nat → Nat}

/-- The root leads to an operation of the store. -/
def Keeps (s : Store) (root i : Nat) : Prop := i < s.size ∧ Graph.Leads s.size s.childrenOf root i

/-- A tree holds what the root of a store leads to, in the same order and with new places. -/
structure Compacts (s : Store) (root : Nat) (t : OperationTree) (place : Nat → Nat) : Prop where
  top : t.root = place root
  kept : ∀ i o, s.Keeps root i → s.get? i = some o → t.get? (place i) = some (o.mapChildren place)
  onto : ∀ j < t.size, ∃ i, s.Keeps root i ∧ place i = j
  mono : ∀ i j, s.Keeps root i → s.Keeps root j → i < j → place i < place j
  mapped : ∀ node j, t.operationFor node = some j → ∃ i, s.origins[node]? = some i ∧ place i = j ∧
    (i < s.size → s.Keeps root i)

theorem mem_childrenOf_iff {child : Nat} :
    child ∈ s.childrenOf i ↔ ∃ o, s.get? i = some o ∧ child ∈ o.children := by
  unfold childrenOf
  cases s.get? i <;> simp

theorem exists_get? (bound : i < s.size) : ∃ o, s.get? i = some o :=
  ⟨_, Array.getElem?_eq_getElem bound⟩

theorem Keeps.refl (bound : root < s.size) : s.Keeps root root := ⟨bound, .refl⟩

theorem Keeps.child (keeps : s.Keeps root i) (member : j ∈ s.childrenOf i) (bound : j < s.size) :
    s.Keeps root j :=
  ⟨bound, keeps.2.tail ⟨keeps.1, member⟩⟩

theorem toList_reachable_getElem? :
    (Graph.reachable s.size s.childrenOf root).toList[i]? = some true ↔ s.Keeps root i := by
  rw [Array.getElem?_toList, Graph.reachable_iff, Keeps]

theorem finish_compacts (s : Store) (program : Program) (root : Nat) :
    ∃ place, s.Compacts root (s.finish program root) place := by
  have size : (Graph.reachable s.size s.childrenOf root).size = s.size := Graph.size_reachable
  unfold finish
  dsimp only
  split
  case isTrue all =>
    have keeps {j : Nat} (inside : j < s.size) : s.Keeps root j := by
      have marked := Array.all_eq_true.mp all j (by rw [size]; exact inside)
      exact toList_reachable_getElem?.mp
        (by rw [Array.getElem?_toList]; exact Array.getElem?_eq_some_iff.mpr ⟨_, marked⟩)
    refine ⟨id, rfl, ?_, fun j inside => ⟨j, keeps inside, rfl⟩, fun _ _ _ _ less => less, ?_⟩
    · intro i o _ found
      rw [Operation.mapChildren_id]
      exact found
    · intro node j known
      exact ⟨j, known, rfl, keeps⟩
  case isFalse some =>
    generalize marks : Graph.reachable s.size s.childrenOf root = kept at size
    have kept_iff {i : Nat} : kept.toList[i]? = Option.some true ↔ s.Keeps root i :=
      marks ▸ toList_reachable_getElem?
    have places {i : Nat} (inside : i < s.size) :
        (renumbering kept).getD i 0 = rank kept.toList i :=
      getD_renumbering (by rwa [size])
    have marked {i : Nat} {o : Operation} (found : s.get? i = Option.some o)
        (keeps : s.Keeps root i) :
        (s.operations.zip kept).toList[i]? = Option.some (o, true) := by
      rw [Array.toList_zip, List.getElem?_zip_eq_some, Array.getElem?_toList]
      exact ⟨found, kept_iff.mpr keeps⟩
    have second : (s.operations.zip kept).toList.map Prod.snd = kept.toList := by
      rw [Array.toList_zip, List.map_snd_zip]
      simp [size, Store.size]
    refine ⟨fun i => (renumbering kept).getD i 0, rfl, ?_, ?_, ?_, ?_⟩
    · intro i o keeps found
      rw [OperationTree.get?, ← Array.getElem?_toList, Array.toList_filterMap, places keeps.1,
        ← second]
      exact getElem?_filterMap_rank (marked found keeps)
    · intro j inside
      rw [OperationTree.size, ← Array.length_toList, Array.toList_filterMap] at inside
      obtain ⟨i, o, stored, same⟩ := exists_rank_eq inside
      rw [second] at same
      rw [Array.toList_zip, List.getElem?_zip_eq_some] at stored
      have keeps := kept_iff.mp stored.2
      exact ⟨i, keeps, (places keeps.1).trans same⟩
    · intro i j keeps keeps' less
      rw [places keeps.1, places keeps'.1]
      exact rank_lt_rank (kept_iff.mpr keeps) less
    · intro node j known
      rw [OperationTree.operationFor, Std.TreeMap.getElem?_map, Std.TreeMap.getElem?_filter',
        Option.map_eq_some_iff] at known
      obtain ⟨i, found, rfl⟩ := known
      obtain ⟨old, marked⟩ := Option.filter_eq_some_iff.mp found
      refine ⟨i, old, rfl, fun _ => kept_iff.mp ?_⟩
      rw [Array.getElem?_toList]
      rw [Array.getD_eq_getD_getElem?] at marked
      cases entry : kept[i]? with
      | none => simp [entry] at marked
      | some keep => simpa [entry] using marked

namespace Compacts

variable (c : s.Compacts root t place)
include c

theorem inj (keeps : s.Keeps root i) (keeps' : s.Keeps root j) (same : place i = place j) :
    i = j := by
  rcases Nat.lt_trichotomy i j with less | equal | greater
  · exact absurd same (Nat.ne_of_lt (c.mono i j keeps keeps' less))
  · exact equal
  · exact absurd same.symm (Nat.ne_of_lt (c.mono j i keeps' keeps greater))

theorem place_lt_size (keeps : s.Keeps root i) : place i < t.size := by
  obtain ⟨o, found⟩ := exists_get? keeps.1
  exact (Array.getElem?_eq_some_iff.mp (c.kept i o keeps found)).1

/-- Every operation of the tree is a renumbered operation of the store. -/
theorem exists_origin (found : t.get? j = some o) :
    ∃ i o', s.Keeps root i ∧ place i = j ∧ s.get? i = some o' ∧ o = o'.mapChildren place := by
  obtain ⟨i, keeps, rfl⟩ := c.onto j (Array.getElem?_eq_some_iff.mp found).1
  obtain ⟨o', stored⟩ := exists_get? keeps.1
  have same := (c.kept i o' keeps stored).symm.trans found
  exact ⟨i, o', keeps, rfl, stored, (Option.some.inj same).symm⟩

theorem childrenOf_place (keeps : s.Keeps root i) :
    t.childrenOf (place i) = (s.childrenOf i).map place := by
  obtain ⟨o, found⟩ := exists_get? keeps.1
  simp only [OperationTree.childrenOf, childrenOf, found, c.kept i o keeps found,
    Operation.children_mapChildren]

end Compacts

end SemanticTrees.Store
