import SemanticTrees.Proofs.Correlation.Attachment
import SemanticTrees.Proofs.Lowering.Tree
import SemanticTrees.Proofs.Operation.Taint

/-! Which operations a correlation makes invalid: those that are so by themselves or have received
an error, and those above them. Other diagnostics make no difference, and every error counts on its
own. -/
namespace SemanticTrees.Correlation

variable {t : OperationTree} {ds es : List Diagnostic} {i : Nat}

/-- Whether an operation receives an error. -/
def isHit (t : OperationTree) (ds : List Diagnostic) (i : OperationId) : Bool :=
  ds.any fun d => d.isError && receiverOf t d == some i

theorem isHit_iff :
    isHit t ds i = true ↔ ∃ d ∈ ds, d.isError = true ∧ (i, d) ∈ (of t ds).attached := by
  simp only [isHit, List.any_eq_true, Bool.and_eq_true, beq_iff_eq, mem_attached_iff]
  constructor
  · rintro ⟨d, member, error, found⟩
    exact ⟨d, member, error, member, found⟩
  · rintro ⟨d, member, error, _, found⟩
    exact ⟨d, member, error, found⟩

theorem isHit_filter (t : OperationTree) (ds : List Diagnostic) :
    isHit t (ds.filter Diagnostic.isError) = isHit t ds := by
  funext i
  rw [isHit, isHit, List.any_filter]
  congr 1
  funext d
  cases d.isError <;> rfl

theorem isHit_append : isHit t (ds ++ es) i = (isHit t ds i || isHit t es i) := List.any_append

/-- The second pass of the taint starts from the operations that receive an error. -/
theorem taint_of (t : OperationTree) (ds : List Diagnostic) :
    (of t ds).taint = t.taint (isHit t ds) := by
  refine congrArg t.taint (funext fun i => ?_)
  rw [Bool.eq_iff_iff, List.contains_iff_mem, List.filterMap_map, isHit, List.any_eq_true]
  simp only [List.mem_map, List.mem_filter, List.mem_filterMap, Prod.exists]
  constructor
  · rintro ⟨j, d, ⟨⟨e, member, made⟩, error⟩, rfl⟩
    obtain ⟨k, found, same⟩ := Option.map_eq_some_iff.mp made
    obtain ⟨rfl, rfl⟩ := Prod.mk.inj same
    exact ⟨e, member, Bool.and_eq_true_iff.mpr ⟨error, beq_iff_eq.mpr found⟩⟩
  · rintro ⟨d, member, both⟩
    obtain ⟨error, found⟩ := Bool.and_eq_true_iff.mp both
    have made : (receiverOf t d).map (·, d) = some (i, d) :=
      Option.map_eq_some_iff.mpr ⟨i, beq_iff_eq.mp found, rfl⟩
    exact ⟨i, d, ⟨⟨d, member, made⟩, error⟩, rfl⟩

theorem lt_size_of_isHit (hit : isHit t ds i = true) : i < t.size := by
  obtain ⟨d, _, _, attached⟩ := isHit_iff.mp hit
  exact lt_size_of_receiverOf (mem_attached_iff.mp attached).2

theorem isInvalid_iff (compact : t.Compact) :
    (of t ds).isInvalid i = true ↔
      t.Tainted (fun m => t.isSelfInvalid m = true ∨ isHit t ds m = true) i := by
  rw [isInvalid, taint_of]
  exact OperationTree.taint_iff compact _ fun _ hit => lt_size_of_isHit hit

/-- The errors of two lists taint what those of the one or of the other do. -/
theorem isInvalid_append (compact : t.Compact) :
    (of t (ds ++ es)).isInvalid i = ((of t ds).isInvalid i || (of t es).isInvalid i) := by
  rw [Bool.eq_iff_iff, Bool.or_eq_true, isInvalid_iff compact, isInvalid_iff compact,
    isInvalid_iff compact]
  simp only [isHit_append, Bool.or_eq_true]
  constructor
  · rintro ⟨m, below, own | hit | hit⟩
    · exact .inl ⟨m, below, .inl own⟩
    · exact .inl ⟨m, below, .inr hit⟩
    · exact .inr ⟨m, below, .inr hit⟩
  · rintro (⟨m, below, own | hit⟩ | ⟨m, below, own | hit⟩)
    · exact ⟨m, below, .inl own⟩
    · exact ⟨m, below, .inr (.inl hit)⟩
    · exact ⟨m, below, .inl own⟩
    · exact ⟨m, below, .inr (.inr hit)⟩

/-- An operation of a built tree is invalid if and only if it has below it, or is itself, one that
is invalid by itself or has received an error. Only errors count, and they count one by one. -/
theorem taint_exact {p : Program} {options : LoweringOptions} {id : SyntaxId}
    (built : p.build options .pending id = .ok (some t)) (ds es : List Diagnostic) :
    (∀ n, (of t ds).isInvalid n = true ↔ ∃ m, t.Below n m ∧
      (t.isSelfInvalid m = true ∨ ∃ d ∈ ds, d.isError = true ∧ (m, d) ∈ (of t ds).attached)) ∧
    (of t (ds.filter Diagnostic.isError)).taint = (of t ds).taint ∧
    ∀ n, (of t (ds ++ es)).isInvalid n = ((of t ds).isInvalid n || (of t es).isInvalid n) := by
  have compact := Program.tree?_compact (Program.build_eq_ok built)
  refine ⟨fun n => ?_, ?_, fun n => isInvalid_append compact⟩
  · rw [isInvalid_iff compact]
    refine exists_congr fun m => and_congr_right fun _ => or_congr_right ?_
    exact isHit_iff
  · rw [taint_of, taint_of, isHit_filter]

/-- The sum of two literals. -/
def flawedSum : Program :=
  { Program.empty "flawed" with
    nodes := #[⟨⟨0, 1⟩, .literal "1"⟩, ⟨⟨4, 5⟩, .literal "2"⟩, ⟨⟨0, 5⟩, .binary .add 0 1⟩] }

/-- An error in the second literal. -/
def flaw : Diagnostic := ⟨⟨4, 5⟩, "flaw", .error, 1⟩

theorem flawedSum_taint_exact :
    ∃ t, flawedSum.build {} .pending 2 = .ok (some t) ∧
      (of t [flaw]).taint = #[false, true, true] ∧
      (∀ n, (of t [flaw]).isInvalid n = true ↔ ∃ m, t.Below n m ∧
        (t.isSelfInvalid m = true ∨
          ∃ d ∈ [flaw], d.isError = true ∧ (m, d) ∈ (of t [flaw]).attached)) ∧
      (of t ([flaw].filter Diagnostic.isError)).taint = (of t [flaw]).taint ∧
      ∀ n, (of t ([flaw] ++ [])).isInvalid n =
        ((of t [flaw]).isInvalid n || (of t []).isInvalid n) :=
  ⟨_, rfl, by rw [taint_of]; cbv,
    taint_exact (show flawedSum.build {} .pending 2 = .ok (some _) from rfl) [flaw] []⟩

end SemanticTrees.Correlation
