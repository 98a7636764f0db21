import SemanticTrees.Proofs.Operation.Shape

/-! Depths of operations. In a compact tree children stand in front of their parents, so the way
down from an operation has fewer steps than its place, and counting depths from the root ends. The
depth of an operation is the length of the one path to it, so it grows on the way down. -/
namespace SemanticTrees.OperationTree

variable {t : OperationTree} {fuel depth d e : Nat} {i j : OperationId}

/-- A run that counts the depths of an operation and of all below it, down to where there are no
more children; nothing else bounds it. -/
inductive CountsDepths (t : OperationTree) : Nat → OperationId → List (OperationId × Nat) → Prop
  | known {depth : Nat} {i : OperationId} {o : Operation}
      {counted : OperationId → List (OperationId × Nat)} (found : t.get? i = some o)
      (each : ∀ child ∈ o.children, CountsDepths t (depth + 1) child (counted child)) :
      CountsDepths t depth i ((i, depth) :: o.children.flatMap counted)
  | unknown {depth : Nat} {i : OperationId} (missing : t.get? i = none) : CountsDepths t depth i []

theorem childrenOf_of_get? {o : Operation} (found : t.get? i = some o) :
    t.childrenOf i = o.children := by
  simp only [childrenOf, found]

/-- As many steps down as there are operations in front are enough. -/
theorem Compact.countsDepths (compact : t.Compact) (enough : i < fuel) :
    t.CountsDepths depth i (t.depthsBelow fuel depth i) := by
  induction fuel generalizing depth i with
  | zero => contradiction
  | succ fuel ih =>
    unfold depthsBelow
    cases found : t.get? i with
    | none => exact .unknown found
    | some o =>
      refine .known found ?_
      intro child listed
      have before : child < i := compact.before i child (childrenOf_of_get? found ▸ listed)
      exact ih (Nat.lt_of_lt_of_le before (Nat.le_of_lt_succ enough))

/-- What is counted below an operation is at the end of a path, with its length. -/
theorem exists_path_of_mem_depthsBelow (counted : (j, e) ∈ t.depthsBelow fuel depth i) :
    ∃ path, t.follow path i = some j ∧ e = depth + path.length := by
  induction fuel generalizing depth i with
  | zero => contradiction
  | succ fuel ih =>
    unfold depthsBelow at counted
    cases found : t.get? i with
    | none => simp [found] at counted
    | some o =>
      simp only [found, List.mem_cons, List.mem_flatMap] at counted
      obtain own | ⟨child, listed, deeper⟩ := counted
      · obtain ⟨rfl, rfl⟩ := Prod.mk.inj own
        exact ⟨[], rfl, rfl⟩
      · obtain ⟨path, leads, rfl⟩ := ih deeper
        obtain ⟨position, stored⟩ :=
          mem_childrenOf_iff_childAt.mp (mem_childrenOf_iff.mpr ⟨o, found, listed⟩)
        refine ⟨position :: path, ?_, ?_⟩
        · rw [follow, List.foldlM_cons, stored]
          exact leads
        · rw [List.length_cons]
          omega

theorem Compact.exists_mem_depthsBelow (compact : t.Compact) (below : t.Below i j)
    (inside : j < t.size) (enough : i < fuel) : ∃ e, (j, e) ∈ t.depthsBelow fuel depth i := by
  induction below using Relation.ReflTransGen.head_induction_on generalizing fuel depth with
  | refl =>
    obtain ⟨o, found⟩ : ∃ o, t.get? j = some o := ⟨_, Array.getElem?_eq_getElem inside⟩
    cases fuel with
    | zero => contradiction
    | succ fuel =>
      unfold depthsBelow
      rw [found]
      exact ⟨depth, List.mem_cons_self⟩
  | @head i child first _ ih =>
    obtain ⟨o, found, listed⟩ := mem_childrenOf_iff.mp first
    cases fuel with
    | zero => contradiction
    | succ fuel =>
      have before : child < i := compact.before i child first
      obtain ⟨e, counted⟩ := ih (Nat.lt_of_lt_of_le before (Nat.le_of_lt_succ enough))
      unfold depthsBelow
      rw [found]
      exact ⟨e, List.mem_cons_of_mem _ (List.mem_flatMap.mpr ⟨child, listed, counted⟩)⟩

/-- The entry of a place is one that was written there, or the old one if none was. -/
theorem getElem?_foldr_set {entries : List (Nat × Nat)} {table : Array Nat}
    (stored : (entries.foldr (fun entry table => table.setIfInBounds entry.1 entry.2) table)[i]? =
      some e) : (i, e) ∈ entries ∨ (∀ e', (i, e') ∉ entries) ∧ table[i]? = some e := by
  induction entries with
  | nil => exact .inr ⟨by simp, stored⟩
  | cons entry rest ih =>
    obtain ⟨k, d⟩ := entry
    rw [List.foldr_cons, Array.getElem?_setIfInBounds] at stored
    split at stored
    · next same =>
      obtain rfl := same
      split at stored
      · exact .inl (Option.some.inj stored ▸ List.mem_cons_self)
      · contradiction
    · next other =>
      obtain listed | ⟨never, old⟩ := ih stored
      · exact .inl (List.mem_cons_of_mem _ listed)
      · refine .inr ⟨?_, old⟩
        rintro e' listed
        obtain same | listed := List.mem_cons.mp listed
        · exact other (Prod.mk.inj same).1.symm
        · exact never e' listed

/-- The depth of an operation is the length of the path to it. -/
theorem Compact.exists_path_of_depthTable (compact : t.Compact)
    (deep : t.depthTable[i]? = some e) :
    ∃ path, t.follow path t.root = some i ∧ path.length = e := by
  obtain counted | ⟨never, outside⟩ := getElem?_foldr_set deep
  · obtain ⟨path, leads, rfl⟩ := exists_path_of_mem_depthsBelow counted
    exact ⟨path, leads, (Nat.zero_add _).symm⟩
  · have inside : i < t.size := by simpa using (Array.getElem?_eq_some_iff.mp outside).1
    have enough : t.root < t.size := by
      rw [compact.last]
      exact Nat.lt_succ_self _
    obtain ⟨e', counted⟩ := compact.exists_mem_depthsBelow (compact.reached i inside) inside enough
    exact absurd counted (never e')

/-- What lies below an operation is deeper. -/
theorem Compact.depth_lt (compact : t.Compact) (below : t.Below i j) (other : i ≠ j)
    (upper : t.depthTable[i]? = some d) (lower : t.depthTable[j]? = some e) : d < e := by
  obtain ⟨path, leads, rfl⟩ := compact.exists_path_of_depthTable upper
  obtain ⟨path', leads', rfl⟩ := compact.exists_path_of_depthTable lower
  obtain ⟨rest, further⟩ := Compact.exists_path below
  have whole : t.follow (path ++ rest) t.root = some j := by
    rw [follow, List.foldlM_append]
    exact Option.bind_eq_some_iff.mpr ⟨i, leads, further⟩
  obtain rfl := compact.path_unique leads' whole
  rw [List.length_append]
  have proper : rest ≠ [] := by
    rintro rfl
    exact other (Option.some.inj further)
  have := List.length_pos_of_ne_nil proper
  omega

end SemanticTrees.OperationTree
