import SemanticTrees.Proofs.Operation.Shape

/-! What a pass over a tree marks. Children stand in front of their parents, so when an operation is
reached its children have their final marks, and one pass marks whatever has a source below it. -/
namespace SemanticTrees.OperationTree

variable {t : OperationTree} {chosen : OperationId → Bool} {marks : Array Bool}
  {source : Nat → Prop} {i : Nat}

/-- An operation from which taint spreads is below, or is the same. -/
def Tainted (t : OperationTree) (source : Nat → Prop) (i : Nat) : Prop :=
  ∃ m, t.Below i m ∧ source m

theorem tainted_iff :
    t.Tainted source i ↔ source i ∨ ∃ child ∈ t.childrenOf i, t.Tainted source child := by
  constructor
  · rintro ⟨m, below, found⟩
    obtain rfl | ⟨child, first, rest⟩ := Relation.ReflTransGen.cases_head below
    · exact .inl found
    · exact .inr ⟨child, first, m, rest, found⟩
  · rintro (found | ⟨child, first, m, rest, found⟩)
    · exact ⟨i, .refl, found⟩
    · exact ⟨m, .head first rest, found⟩

theorem getD_mark (marks : Array Bool) (i j : Nat) :
    (t.mark chosen marks i).getD j false =
      if i = j ∧ j < marks.size then
        marks.getD j false || chosen j || (t.childrenOf j).any fun child => marks.getD child false
      else marks.getD j false := by
  rw [mark, Array.getD_eq_getD_getElem?, Array.getElem?_setIfInBounds]
  split
  · next same =>
    subst same
    split
    · next bound => simp [bound]
    · next outside => simp [outside]
  · next different => simp [different]

/-- The pass up to a place. -/
def spreadTo (t : OperationTree) (chosen : OperationId → Bool) (marks : Array Bool) (n : Nat) :
    Array Bool :=
  (List.range n).foldl (t.mark chosen) marks

theorem spreadTo_succ (n : Nat) :
    t.spreadTo chosen marks (n + 1) = t.mark chosen (t.spreadTo chosen marks n) n := by
  rw [spreadTo, List.range_succ, List.foldl_append]
  rfl

theorem size_spreadTo (n : Nat) : (t.spreadTo chosen marks n).size = marks.size := by
  induction n with
  | zero => rfl
  | succ n ih => rw [spreadTo_succ, mark, Array.size_setIfInBounds, ih]

theorem spreadTo_ahead (n : Nat) (ahead : n ≤ i) :
    (t.spreadTo chosen marks n).getD i false = marks.getD i false := by
  induction n with
  | zero => rfl
  | succ n ih =>
    rw [spreadTo_succ, getD_mark, if_neg (by omega)]
    exact ih (by omega)

/-- What the pass starts from: the operations of the tree that are marked before or chosen. -/
def Source (t : OperationTree) (chosen : OperationId → Bool) (marks : Array Bool) (i : Nat) :
    Prop :=
  i < t.size ∧ (marks.getD i false = true ∨ chosen i = true)

theorem spreadTo_behind (compact : t.Compact) (sized : marks.size = t.size) (n : Nat)
    (bound : n ≤ t.size) (behind : i < n) :
    (t.spreadTo chosen marks n).getD i false = true ↔ t.Tainted (t.Source chosen marks) i := by
  induction n generalizing i with
  | zero => contradiction
  | succ n ih =>
    have earlier {i : Nat} : i < n → _ := ih (Nat.le_of_succ_le bound) (i := i)
    rw [spreadTo_succ, getD_mark, size_spreadTo, sized]
    by_cases last : n = i
    · subst last
      rw [if_pos ⟨rfl, bound⟩, spreadTo_ahead n (Nat.le_refl n), tainted_iff]
      simp only [Bool.or_eq_true, List.any_eq_true, Source]
      refine or_congr ⟨fun own => ⟨bound, own⟩, fun own => own.2⟩ (exists_congr fun child => ?_)
      exact and_congr_right fun member => earlier (compact.before _ _ member)
    · rw [if_neg fun both => last both.1]
      exact earlier (by omega)

theorem childrenOf_eq_nil (outside : t.size ≤ i) : t.childrenOf i = [] := by
  have missing : t.get? i = none := Array.getElem?_eq_none outside
  simp only [childrenOf, missing]

/-- A pass marks exactly the operations with a source below them. -/
theorem spread_iff (compact : t.Compact) (sized : marks.size = t.size) :
    (t.spread chosen marks).getD i false = true ↔ t.Tainted (t.Source chosen marks) i := by
  have final : (t.spread chosen marks).size = t.size := (size_spreadTo t.size).trans sized
  by_cases inside : i < t.size
  · exact spreadTo_behind compact sized t.size (Nat.le_refl _) inside
  · rw [tainted_iff, childrenOf_eq_nil (Nat.le_of_not_lt inside), Array.getD_eq_getD_getElem?,
      Array.getElem?_eq_none (by omega)]
    simp [Source, inside]

theorem size_structuralTaint : t.structuralTaint.size = t.size :=
  (size_spreadTo t.size).trans Array.size_replicate

theorem lt_size_of_isSelfInvalid (invalid : t.isSelfInvalid i = true) : i < t.size := by
  unfold isSelfInvalid at invalid
  cases found : t.get? i with
  | none => simp [found] at invalid
  | some o => exact (Array.getElem?_eq_some_iff.mp found).1

theorem structuralTaint_iff (compact : t.Compact) :
    t.structuralTaint.getD i false = true ↔ t.Tainted (fun m => t.isSelfInvalid m = true) i := by
  have source (m : Nat) : t.Source t.isSelfInvalid (Array.replicate t.size false) m ↔
      t.isSelfInvalid m = true := by
    constructor
    · rintro ⟨bound, before | own⟩
      · simp [bound] at before
      · exact own
    · exact fun own => ⟨lt_size_of_isSelfInvalid own, .inr own⟩
  rw [structuralTaint, spread_iff compact Array.size_replicate, Tainted]
  simp only [source]
  rfl

/-- Both passes together mark what has below it an operation that is invalid by itself or marked:
what the first pass took up to an operation, the second one takes further up. -/
theorem taint_iff (compact : t.Compact) (marked : OperationId → Bool)
    (known : ∀ i : Nat, marked i = true → i < t.size) :
    (t.taint marked).getD i false = true ↔
      t.Tainted (fun m => t.isSelfInvalid m = true ∨ marked m = true) i := by
  rw [taint, spread_iff compact size_structuralTaint]
  constructor
  · rintro ⟨m, below, _, structural | own⟩
    · obtain ⟨k, deeper, invalid⟩ := (structuralTaint_iff compact).mp structural
      exact ⟨k, below.trans deeper, .inl invalid⟩
    · exact ⟨m, below, .inr own⟩
  · rintro ⟨m, below, invalid | own⟩
    · exact ⟨m, below, lt_size_of_isSelfInvalid invalid,
        .inl ((structuralTaint_iff compact).mpr ⟨m, .refl, invalid⟩)⟩
    · exact ⟨m, below, known m own, .inr own⟩

end SemanticTrees.OperationTree
