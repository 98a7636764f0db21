import SemanticTrees.Proofs.Graph.Reach
import Mathlib.Algebra.BigOperators.Group.Finset.Basic

/-! The search for what can be reached, taken turn by turn. A turn looks at one waiting number, and
no fuel bounds the turns. A search from one node makes one turn for it and one for each edge that
leaves a node it finds, so that cycles, shared nodes and edges to no node cost no more than others. -/
namespace SemanticTrees.Graph

/-- Where a search stands: the nodes that are marked, and the numbers that are still to be looked
at, the next one first. -/
structure Search where
  marks : Array Bool
  waiting : List Nat

namespace Search

variable {next : Nat → List Nat} {marks : Array Bool} {waiting : List Nat} {n : Nat}

def start (size node : Nat) : Search := ⟨Array.replicate size false, [node]⟩

/-- The next turn of a search. A node without a mark is given one, and what its edges lead to is
looked at before all else; any other number is dropped. When nothing waits there is no turn. -/
def turn? (next : Nat → List Nat) : Search → Option Search
  | ⟨_, []⟩ => none
  | ⟨marks, n :: waiting⟩ =>
    some (if marks[n]? = some false then ⟨marks.setIfInBounds n true, next n ++ waiting⟩
      else ⟨marks, waiting⟩)

/-- A number of turns, one after the other. -/
inductive Turns (next : Nat → List Nat) : Nat → Search → Search → Prop
  | none {s : Search} : Turns next 0 s s
  | more {count : Nat} {s t u : Search} (first : s.turn? next = some t)
      (rest : Turns next count t u) : Turns next (count + 1) s u

/-- A search has no turn left after a number of them, and these are the marks then. -/
def EndsAfter (next : Nat → List Nat) (count : Nat) (s : Search) (marks : Array Bool) : Prop :=
  Turns next count s ⟨marks, []⟩

/-- The nodes with a mark. -/
def marked (marks : Array Bool) : Finset Nat :=
  {n ∈ Finset.range marks.size | marks[n]? = some true}

/-- How many edges leave the nodes with a mark. -/
def departures (next : Nat → List Nat) (marks : Array Bool) : Nat :=
  ∑ n ∈ marked marks, (next n).length

theorem mem_marked_iff : n ∈ marked marks ↔ marks[n]? = some true := by
  rw [marked, Finset.mem_filter, Finset.mem_range, and_iff_right_iff_imp]
  intro known
  exact (Array.getElem?_eq_some_iff.mp known).1

theorem departures_replicate (next : Nat → List Nat) (size : Nat) :
    departures next (Array.replicate size false) = 0 := by
  have none : marked (Array.replicate size false) = ∅ := by
    apply Finset.eq_empty_of_forall_notMem
    intro n
    simp [mem_marked_iff, Array.getElem?_replicate]
  rw [departures, none, Finset.sum_empty]

/-- A new mark adds the edges that leave its node. -/
theorem departures_mark (fresh : marks[n]? = some false) :
    departures next (marks.setIfInBounds n true) = (next n).length + departures next marks := by
  have bound : n < marks.size := (Array.getElem?_eq_some_iff.mp fresh).1
  have grown : marked (marks.setIfInBounds n true) = insert n (marked marks) := by
    ext i
    simp only [Finset.mem_insert, mem_marked_iff, getElem?_mark_iff, bound, and_true]
  have absent : n ∉ marked marks := by simp [mem_marked_iff, fresh]
  rw [departures, grown, Finset.sum_insert absent, departures]

/-- A search goes on until nothing waits. Its turns are as many as there are numbers waiting and
edges that leave the nodes it marks. -/
theorem turns_explore (next : Nat → List Nat) (marks : Array Bool) (waiting : List Nat) :
    ∃ count, EndsAfter next count ⟨marks, waiting⟩ (explore next marks waiting) ∧
      count + departures next marks =
        waiting.length + departures next (explore next marks waiting) := by
  fun_induction explore next marks waiting with
  | case1 marks => exact ⟨0, .none, by simp⟩
  | case2 marks n waiting fresh ih =>
    obtain ⟨count, ends, counted⟩ := ih
    have first : turn? next ⟨marks, n :: waiting⟩ =
        some ⟨marks.setIfInBounds n true, next n ++ waiting⟩ := by rw [turn?, if_pos fresh]
    refine ⟨count + 1, .more first ends, ?_⟩
    rw [departures_mark fresh, List.length_append] at counted
    rw [List.length_cons]
    omega
  | case3 marks n waiting old ih =>
    obtain ⟨count, ends, counted⟩ := ih
    have first : turn? next ⟨marks, n :: waiting⟩ = some ⟨marks, waiting⟩ := by
      rw [turn?, if_neg old]
    refine ⟨count + 1, .more first ends, ?_⟩
    rw [List.length_cons]
    omega

/-- A search from one node ends whatever the edges are, after one turn for the node and one for each
edge that leaves a node it finds. -/
theorem endsAfter_reachable (next : Nat → List Nat) (size node : Nat) :
    EndsAfter next (1 + departures next (reachable size next node)) (.start size node)
      (reachable size next node) := by
  obtain ⟨count, ends, counted⟩ := turns_explore next (Array.replicate size false) [node]
  have turns : count = 1 + departures next (reachable size next node) := by
    rw [departures_replicate, List.length_singleton] at counted
    exact counted
  exact turns ▸ ends

end Search

end SemanticTrees.Graph
