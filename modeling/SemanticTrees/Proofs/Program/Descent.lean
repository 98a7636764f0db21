import SemanticTrees.Proofs.Program.Cycles
import Mathlib.Data.List.Perm.Subperm

/-! How far down the parts of a node go. When no node is part of itself, the nodes on a way down
are all different, so that a way down has no more steps than there are nodes. -/
namespace SemanticTrees.Program

variable {p : Program} {node : SyntaxId} {bound larger : Nat}

/-- No way down from a node, to a part, to a part of that and so on, has more steps than a bound. -/
def Shallow (p : Program) : Nat → SyntaxId → Prop
  | 0, node => ∀ part, ¬p.HasPart node part
  | bound + 1, node => ∀ part, p.HasPart node part → Shallow p bound part

theorem Shallow.mono (shallow : p.Shallow bound node) (le : bound ≤ larger) :
    p.Shallow larger node := by
  induction bound generalizing larger node with
  | zero =>
    cases larger with
    | zero => exact shallow
    | succ larger =>
      intro part known
      exact absurd known (shallow part)
  | succ bound ih =>
    obtain ⟨larger, rfl⟩ := Nat.exists_eq_add_of_lt le
    intro part known
    exact ih (shallow part known) (by omega)

theorem Shallow.part (shallow : p.Shallow bound node) {part : SyntaxId}
    (known : p.HasPart node part) : ∃ less < bound, p.Shallow less part := by
  cases bound with
  | zero => exact absurd known (shallow part)
  | succ bound => exact ⟨bound, Nat.lt_succ_self bound, shallow part known⟩

theorem lt_of_not_shallow (deep : ¬p.Shallow bound node) : node < p.nodes.size := by
  by_contra outside
  have none : p.Shallow 0 node := not_hasPart_of_size_le (Nat.le_of_not_lt outside)
  exact deep (none.mono (Nat.zero_le bound))

/-- A node that is not shallow is the start of a way of as many steps, through nodes that exist. -/
theorem exists_way_of_not_shallow (deep : ¬p.Shallow bound node) :
    ∃ way : List SyntaxId, way.length = bound ∧ (node :: way).IsChain p.HasPart ∧
      ∀ id ∈ node :: way, id < p.nodes.size := by
  induction bound generalizing node with
  | zero => exact ⟨[], rfl, .singleton node, by simpa using lt_of_not_shallow deep⟩
  | succ bound ih =>
    have inside := lt_of_not_shallow deep
    simp only [Shallow, not_forall] at deep
    obtain ⟨part, known, deep⟩ := deep
    obtain ⟨way, rfl, chain, each⟩ := ih deep
    refine ⟨part :: way, rfl, List.isChain_cons_cons.mpr ⟨known, chain⟩, ?_⟩
    intro id listed
    obtain rfl | listed := List.mem_cons.mp listed
    · exact inside
    · exact each id listed

/-- A way down never comes back to a node. -/
theorem Acyclic.shallow (acyclic : p.Acyclic) (node : SyntaxId) : p.Shallow p.nodes.size node := by
  by_contra deep
  obtain ⟨way, length, chain, inside⟩ := exists_way_of_not_shallow deep
  have descent : (node :: way).Pairwise (Relation.TransGen p.HasPart) :=
    (chain.imp fun _ _ => Relation.TransGen.single).pairwise
  have nodup : (node :: way).Nodup := by
    apply descent.imp
    rintro id _ below rfl
    exact acyclic id below
  have short := (List.subperm_of_subset nodup fun id listed =>
    List.mem_range.mpr (inside id listed)).length_le
  rw [List.length_range, List.length_cons, length] at short
  omega

end SemanticTrees.Program
