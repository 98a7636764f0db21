import SemanticTrees.Proofs.Analysis.Agreement
import SemanticTrees.Proofs.Lowering.Answers

/-! Queries for the operation of a node. What is found is an operation of the first tree that has
one for the node, and it answers for the node there. -/
namespace SemanticTrees.Analysis

variable {p : Program} {options : LoweringOptions} {request : Request} {a : Analysis}
  {node : SyntaxId} {r : OperationRef}

/-- An analysis that was not given up has the trees of all roots. -/
theorem eq_of_of (analysed : of p options request = .ok a) : a = ofTrees p (treesOf p options) := by
  cases request with
  | pending => exact (Except.ok.inj ((of_pending p options).symm.trans analysed)).symm
  | made =>
    -- a request that was made is noticed at the first root
    unfold of build at analysed
    cases listed : p.roots with
    | nil =>
      rw [listed] at analysed
      rw [treesOf, listed]
      exact (Except.ok.inj analysed).symm
    | cons root rest =>
      rw [listed] at analysed
      contradiction

/-- Roots in front of the one that answers have no operation for the node. -/
theorem operationFor_eq_some (known : a.operationFor node = some r) :
    ∃ root, a.root? r.root = some root ∧ root.tree.operationFor node = some r.operation ∧
      ∀ i < r.root, ∀ other, a.root? i = some other → other.tree.operationFor node = none := by
  obtain ⟨before, ⟨root, i⟩, after, split, made, none⟩ := List.findSome?_eq_some_iff.mp known
  obtain ⟨j, found, rfl⟩ := Option.map_eq_some_iff.mp made
  have entry (k : Nat) :
      (before ++ (root, i) :: after)[k]? = a.roots[k]?.map fun root => (root, k) := by
    rw [← split, List.getElem?_zipIdx]
    simp
  have here : a.roots[before.length]? = some root ∧ before.length = i := by
    have middle := entry before.length
    rw [List.getElem?_append_right (Nat.le_refl _), Nat.sub_self, List.getElem?_cons_zero] at middle
    obtain ⟨root', stored, same⟩ := Option.map_eq_some_iff.mp middle.symm
    obtain ⟨rfl, rfl⟩ := Prod.mk.inj same
    exact ⟨stored, rfl⟩
  obtain ⟨stored, rfl⟩ := here
  refine ⟨root, stored, found, fun k earlier other listed => ?_⟩
  have first := entry k
  rw [List.getElem?_append_left earlier, show a.roots[k]? = some other from listed] at first
  exact Option.map_eq_none_iff.mp (none (other, k) (List.mem_of_getElem? first))

/-- The operation of a node is one of the first tree that has an operation for the node. It was
written for the node, or the node is parenthesized and the operation was made for an expression
inside. -/
theorem operationFor_answers (analysed : of p options request = .ok a)
    (known : a.operationFor node = some r) :
    ∃ root o, a.root? r.root = some root ∧ root.tree.operationFor node = some r.operation ∧
      (∀ i < r.root, ∀ other, a.root? i = some other → other.tree.operationFor node = none) ∧
      a.get? r = some o ∧ o.AnswersFor p node := by
  obtain ⟨root, found, mapped, earlier⟩ := operationFor_eq_some known
  have built : ∃ id, p.tree? options id = some root.tree := by
    obtain rfl := eq_of_of analysed
    obtain ⟨id, tree, listed, rfl⟩ := exists_of_getElem?_roots found
    exact ⟨id, (mem_treesOf_iff.mp (List.mem_of_getElem? listed)).2⟩
  obtain ⟨id, built⟩ := built
  obtain ⟨o, stored, answers⟩ := Program.tree?_answers built mapped
  exact ⟨root, o, found, mapped, earlier, (get?_of_root? found _).trans stored, answers⟩

/-- Two properties that share their value, an argument in parentheses. -/
def sharedArgument : Program :=
  { Program.empty "argument" with
    nodes := #[⟨.zero, .literal "1"⟩, ⟨.zero, .argument none .byValue 0⟩,
      ⟨.zero, .parenthesized 1⟩, ⟨.zero, .property "P" (some 2)⟩, ⟨.zero, .property "Q" (some 2)⟩]
    members := [3, 4] }

theorem sharedArgument_answers :
    ∃ a, of sharedArgument {} .pending = .ok a ∧ a.operationFor 2 = some ⟨0, 0⟩ ∧
      ∃ root o, a.root? 0 = some root ∧ root.tree.operationFor 2 = some 0 ∧
        a.get? ⟨0, 0⟩ = some o ∧ o.AnswersFor sharedArgument 2 := by
  have analysed := of_pending sharedArgument {}
  have known : (ofTrees sharedArgument (treesOf sharedArgument {})).operationFor 2 = some ⟨0, 0⟩ :=
    by decide +kernel
  obtain ⟨root, o, found, mapped, _, stored, answers⟩ := operationFor_answers analysed known
  exact ⟨_, analysed, known, root, o, found, mapped, stored, answers⟩

end SemanticTrees.Analysis
