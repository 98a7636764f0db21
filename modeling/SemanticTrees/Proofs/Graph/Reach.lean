import SemanticTrees.Graph.Reach
import Mathlib.Logic.Relation

/-! The search marks exactly what paths of edges lead to. Soundness follows the search; for
completeness the marked nodes are closed under edges up to the nodes that are still waiting. -/
namespace SemanticTrees.Graph

variable {next : Nat → List Nat} {seen : Array Bool} {waiting : List Nat} {size start i n : Nat}

/-- An edge that leaves a node of the graph. -/
def Edge (size : Nat) (next : Nat → List Nat) (m n : Nat) : Prop := m < size ∧ n ∈ next m

/-- A path of edges, possibly without any. -/
def Leads (size : Nat) (next : Nat → List Nat) : Nat → Nat → Prop :=
  Relation.ReflTransGen (Edge size next)

theorem getElem?_mark_iff :
    (seen.setIfInBounds n true)[i]? = some true ↔
      (i = n ∧ n < seen.size) ∨ seen[i]? = some true := by
  rw [Array.getElem?_setIfInBounds]
  by_cases same : n = i
  · subst same
    by_cases bound : n < seen.size <;> simp [bound]
  · simp [same, Ne.symm same]

theorem marked_of_not_fresh (bound : n < seen.size) (old : ¬seen[n]? = some false) :
    seen[n]? = some true := by
  have known : seen[n]? = some seen[n] := Array.getElem?_eq_getElem bound
  cases value : seen[n] with
  | true => exact known.trans (congrArg some value)
  | false => exact absurd (known.trans (congrArg some value)) old

theorem size_explore : (explore next seen waiting).size = seen.size := by
  fun_induction explore next seen waiting with
  | case1 => rfl
  | case2 seen n waiting fresh ih => simpa using ih
  | case3 seen n waiting old ih => exact ih

theorem explore_keeps (marked : seen[i]? = some true) :
    (explore next seen waiting)[i]? = some true := by
  fun_induction explore next seen waiting with
  | case1 => exact marked
  | case2 seen n waiting fresh ih => exact ih (getElem?_mark_iff.mpr (.inr marked))
  | case3 seen n waiting old ih => exact ih marked

theorem explore_sound (marked : (explore next seen waiting)[i]? = some true) :
    seen[i]? = some true ∨ ∃ n ∈ waiting, Leads seen.size next n i := by
  fun_induction explore next seen waiting with
  | case1 => exact .inl marked
  | case2 seen n waiting fresh ih =>
    have bound : n < seen.size := (Array.getElem?_eq_some_iff.mp fresh).1
    obtain before | ⟨m, member, path⟩ := ih marked
    · obtain ⟨rfl, _⟩ | before := getElem?_mark_iff.mp before
      · exact .inr ⟨i, List.mem_cons_self, .refl⟩
      · exact .inl before
    · rw [Array.size_setIfInBounds] at path
      obtain child | later := List.mem_append.mp member
      · exact .inr ⟨n, List.mem_cons_self, .head ⟨bound, child⟩ path⟩
      · exact .inr ⟨m, List.mem_cons_of_mem _ later, path⟩
  | case3 seen n waiting old ih =>
    obtain before | ⟨m, member, path⟩ := ih marked
    · exact .inl before
    · exact .inr ⟨m, List.mem_cons_of_mem _ member, path⟩

theorem explore_waiting (member : n ∈ waiting) (bound : n < seen.size) :
    (explore next seen waiting)[n]? = some true := by
  fun_induction explore next seen waiting with
  | case1 => contradiction
  | case2 seen m waiting fresh ih =>
    obtain rfl | later := List.mem_cons.mp member
    · exact explore_keeps (getElem?_mark_iff.mpr (.inl ⟨rfl, bound⟩))
    · exact ih (List.mem_append_right _ later) (by simpa using bound)
  | case3 seen m waiting old ih =>
    obtain rfl | later := List.mem_cons.mp member
    · exact explore_keeps (marked_of_not_fresh bound old)
    · exact ih later bound

/-- Whatever an edge leads to from a marked node is marked or waiting. -/
def ClosedUpTo (next : Nat → List Nat) (seen : Array Bool) (waiting : List Nat) : Prop :=
  ∀ m n, seen[m]? = some true → n ∈ next m → n < seen.size → seen[n]? = some true ∨ n ∈ waiting

theorem explore_closed (closed : ClosedUpTo next seen waiting) :
    ClosedUpTo next (explore next seen waiting) [] := by
  fun_induction explore next seen waiting with
  | case1 => exact closed
  | case2 seen k waiting fresh ih =>
    apply ih
    intro m n marked child bound
    rw [Array.size_setIfInBounds] at bound
    obtain ⟨rfl, _⟩ | before := getElem?_mark_iff.mp marked
    · exact .inr (List.mem_append_left _ child)
    · obtain old | member := closed m n before child bound
      · exact .inl (getElem?_mark_iff.mpr (.inr old))
      · obtain rfl | later := List.mem_cons.mp member
        · exact .inl (getElem?_mark_iff.mpr (.inl ⟨rfl, bound⟩))
        · exact .inr (List.mem_append_right _ later)
  | case3 seen k waiting old ih =>
    apply ih
    intro m n marked child bound
    obtain before | member := closed m n marked child bound
    · exact .inl before
    · obtain rfl | later := List.mem_cons.mp member
      · exact .inl (marked_of_not_fresh bound old)
      · exact .inr later

theorem size_reachable : (reachable size next start).size = size := by
  simp [reachable, size_explore]

/-- The search from a node finds exactly the nodes that a path leads to. -/
theorem reachable_iff :
    (reachable size next start)[i]? = some true ↔ i < size ∧ Leads size next start i := by
  have fresh (m : Nat) : (Array.replicate size false)[m]? ≠ some true := by
    simp [Array.getElem?_replicate]
  constructor
  · intro marked
    have bound := (Array.getElem?_eq_some_iff.mp marked).1
    rw [size_reachable] at bound
    obtain before | ⟨n, member, path⟩ := explore_sound marked
    · exact absurd before (fresh i)
    · obtain rfl := List.mem_singleton.mp member
      exact ⟨bound, by simpa using path⟩
  · rintro ⟨bound, path⟩
    have closed : ClosedUpTo next (reachable size next start) [] :=
      explore_closed fun m n marked => absurd marked (fresh m)
    induction path with
    | refl => exact explore_waiting List.mem_cons_self (by simpa using bound)
    | tail _ edge ih =>
      have marked := ih edge.1
      obtain found | none := closed _ _ marked edge.2 (by rwa [size_reachable])
      · exact found
      · contradiction

/-- When only one edge comes to each place, of two places that lead to a third one leads to the
other. -/
theorem comparable {α : Type} {r : α → α → Prop} {a b c : α}
    (unique : ∀ {a b c}, r a c → r b c → a = b) (left : Relation.ReflTransGen r a c)
    (right : Relation.ReflTransGen r b c) :
    Relation.ReflTransGen r a b ∨ Relation.ReflTransGen r b a := by
  have single : Relator.RightUnique (Function.swap r) := fun _ _ _ first second =>
    unique first second
  obtain path | path := Relation.ReflTransGen.total_of_right_unique single
    (Relation.reflTransGen_swap.mpr left) (Relation.reflTransGen_swap.mpr right)
  · exact .inr (Relation.reflTransGen_swap.mp path)
  · exact .inl (Relation.reflTransGen_swap.mp path)

/-- Two ways from one place lie on one way, or they part at some place. -/
theorem exists_parting {α : Type} {r : α → α → Prop} {x a b : α}
    (left : Relation.ReflTransGen r x a) (right : Relation.ReflTransGen r x b) :
    Relation.ReflTransGen r a b ∨ Relation.ReflTransGen r b a ∨
      ∃ y c d, r y c ∧ r y d ∧ c ≠ d ∧ Relation.ReflTransGen r c a ∧
        Relation.ReflTransGen r d b := by
  induction left using Relation.ReflTransGen.head_induction_on with
  | refl => exact .inl right
  | @head x c first left ih =>
    obtain rfl | ⟨d, first', right⟩ := Relation.ReflTransGen.cases_head right
    · exact .inr (.inl (.head first left))
    · by_cases same : c = d
      · exact ih (same ▸ right)
      · exact .inr (.inr ⟨x, c, d, first, first', same, left, right⟩)

end SemanticTrees.Graph
