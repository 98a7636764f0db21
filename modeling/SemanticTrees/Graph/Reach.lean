/-!
Reachability in a finite graph. Nodes are the numbers below a bound; an edge that leads to another
number leads nowhere. What is found is exactly what a path of edges leads to.
-/

namespace SemanticTrees.Graph

/-- Changing one of the lists in a row changes their length by as much. -/
theorem length_flatMap_range_add {f g : Nat → List Nat} {n k : Nat}
    (same : ∀ i, i ≠ n → g i = f i) (change : (g n).length + k = (f n).length) (size : Nat) :
    ((List.range size).flatMap g).length + (if n < size then k else 0) =
      ((List.range size).flatMap f).length := by
  induction size with
  | zero => rfl
  | succ size ih =>
    simp only [List.range_succ, List.flatMap_append, List.flatMap_singleton, List.length_append]
    by_cases here : size = n
    · subst here
      rw [if_neg (Nat.lt_irrefl size)] at ih
      rw [if_pos (Nat.lt_succ_self size)]
      omega
    · rw [same size here]
      split at ih <;> split <;> omega

/-- What a search can still come to: the nodes that are not marked, each with what its edges lead
to. -/
def unfollowed (next : Nat → List Nat) (seen : Array Bool) : List Nat :=
  (List.range seen.size).flatMap fun n => if seen[n]? = some false then n :: next n else []

/-- Marking a node takes it away, and what its edges lead to. -/
theorem length_unfollowed_mark (next : Nat → List Nat) {seen : Array Bool} {n : Nat}
    (fresh : seen[n]? = some false) :
    (unfollowed next (seen.setIfInBounds n true)).length + ((next n).length + 1) =
      (unfollowed next seen).length := by
  have inside : n < seen.size := (Array.getElem?_eq_some_iff.1 fresh).1
  have lengths := length_flatMap_range_add (n := n) (k := (next n).length + 1)
    (f := fun i => if seen[i]? = some false then i :: next i else [])
    (g := fun i => if (seen.setIfInBounds n true)[i]? = some false then i :: next i else [])
    (fun i other => by simp [Ne.symm other]) (by rw [if_pos fresh]; simp [inside]) seen.size
  simpa only [unfollowed, Array.size_setIfInBounds, inside, ↓reduceIte] using lengths

/-- Marks the nodes that are waiting and all that they lead to, going on from nodes that are
marked already. -/
def explore (next : Nat → List Nat) (seen : Array Bool) : List Nat → Array Bool
  | [] => seen
  | n :: waiting =>
    if _h : seen[n]? = some false then
      explore next (seen.setIfInBounds n true) (next n ++ waiting)
    else explore next seen waiting
-- a number, so that closed searches can be evaluated
termination_by waiting => waiting.length + (unfollowed next seen).length
decreasing_by
  · have fewer := length_unfollowed_mark next _h
    simp only [List.length_append, List.length_cons]
    omega
  · simp only [List.length_cons]
    omega

/-- The nodes that can be reached from a node, itself included. -/
def reachable (size : Nat) (next : Nat → List Nat) (start : Nat) : Array Bool :=
  explore next (Array.replicate size false) [start]

end SemanticTrees.Graph
