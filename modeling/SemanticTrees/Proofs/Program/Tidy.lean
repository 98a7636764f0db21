import SemanticTrees.Proofs.Graph.Reach
import SemanticTrees.Proofs.Program.Cycles
import SemanticTrees.Proofs.Operation.Shape
import Mathlib.Order.WellFoundedSet

/-! Tidy programs, in which every node is part of at most one other and the members are part of
none. The nodes that a node lies below form a chain, and every node lies below one that is part of
nothing. Different parts of a node have nothing in common, whatever the members are. -/
namespace SemanticTrees.Program

variable {p : Program} {a b c id part whole : SyntaxId}

/-- Nodes have at most one whole and are listed there once, and the members are different nodes
without a whole. -/
structure Unshared (p : Program) : Prop where
  once : (p.nodes.toList.flatMap fun n => n.form.children).Nodup
  distinct : p.members.Nodup
  free : ∀ member ∈ p.members, p.IsTop member

/-- Nodes are not shared, and none is below itself. -/
structure Tidy (p : Program) : Prop extends p.Unshared where
  acyclic : p.Acyclic

/-- Nodes are not shared, and none is below itself. The members may be any nodes. -/
structure Untangled (p : Program) : Prop where
  once : (p.nodes.toList.flatMap fun n => n.form.children).Nodup
  acyclic : p.Acyclic

/-- Two nodes have nothing below both of them. -/
def Disjoint (p : Program) (a b : SyntaxId) : Prop := ∀ id, p.Below a id → ¬p.Below b id

theorem hasPart_iff :
    p.HasPart whole part ↔ ∃ n, p.nodes[whole]? = some n ∧ part ∈ n.form.children := by
  unfold HasPart SyntaxTable.childrenOf
  cases p.nodes[whole]? <;> simp

namespace Acyclic

variable (acyclic : p.Acyclic)
include acyclic

theorem not_below (known : p.HasPart whole part) : ¬p.Below part whole := by
  intro below
  exact acyclic whole (.head' known below)

theorem antisymm (ab : p.Below a b) (ba : p.Below b a) : a = b := by
  obtain rfl | strict := Relation.reflTransGen_iff_eq_or_transGen.mp ab
  · rfl
  · exact absurd (strict.trans_left ba) (acyclic a)

/-- Going up from whole to whole ends at a node without one. -/
theorem exists_top (id : SyntaxId) : ∃ top, p.Below top id ∧ p.IsTop top := by
  have order : IsStrictOrder SyntaxId (Relation.TransGen p.HasPart) :=
    { irrefl := acyclic, trans := fun _ _ _ => Relation.TransGen.trans }
  have up : (Set.Iio p.nodes.size).WellFoundedOn (Relation.TransGen p.HasPart) :=
    (Set.finite_Iio p.nodes.size).wellFoundedOn
  -- A node that is no part is its own top; the whole of a part exists, and its top is that of both.
  have of_wholes (id : SyntaxId) (above : ∀ whole, p.HasPart whole id →
      ∃ top, p.Below top whole ∧ p.IsTop top) :
      ∃ top, p.Below top id ∧ p.IsTop top := by
    by_cases part : ∃ whole, p.HasPart whole id
    · obtain ⟨whole, known⟩ := part
      obtain ⟨top, below, free⟩ := above whole known
      exact ⟨top, below.tail known, free⟩
    · exact ⟨id, .refl, fun whole known => part ⟨whole, known⟩⟩
  apply of_wholes
  intro whole known
  refine up.induction (P := fun id => ∃ top, p.Below top id ∧ p.IsTop top)
    (lt_of_hasPart known) ?_
  intro id _ ih
  apply of_wholes
  intro whole known
  exact ih whole (lt_of_hasPart known) (.single known)

end Acyclic

namespace Tidy

variable (tidy : p.Tidy)
include tidy

theorem whole_unique (ac : p.HasPart a c) (bc : p.HasPart b c) : a = b := by
  obtain ⟨m, found, listed⟩ := hasPart_iff.mp ac
  obtain ⟨n, found', listed'⟩ := hasPart_iff.mp bc
  rw [← Array.getElem?_toList] at found found'
  exact index_eq_of_nodup_flatMap tidy.once found found' listed listed'

theorem nodup_childrenOf (id : SyntaxId) : (p.nodes.childrenOf id).Nodup := by
  unfold SyntaxTable.childrenOf
  cases found : p.nodes[id]? with
  | none => exact List.nodup_nil
  | some n =>
    rw [← Array.getElem?_toList] at found
    exact nodup_of_mem_flatMap tidy.once (List.mem_of_getElem? found)

/-- What lies below two nodes makes one of them lie below the other. -/
theorem comparable (ac : p.Below a c) (bc : p.Below b c) : p.Below a b ∨ p.Below b a :=
  Graph.comparable tidy.whole_unique ac bc

/-- What lies strictly above a node lies above its whole. -/
theorem below_whole (below : p.Below a part) (other : a ≠ part) (known : p.HasPart whole part) :
    p.Below a whole := by
  obtain rfl | ⟨last, path, step⟩ := Relation.ReflTransGen.cases_tail below
  · contradiction
  · exact tidy.whole_unique step known ▸ path

theorem disjoint_of_not_below (ab : ¬p.Below a b) (ba : ¬p.Below b a) : p.Disjoint a b := by
  intro id left right
  exact (tidy.comparable left right).elim ab ba

/-- Different parts of a node have nothing in common. -/
theorem disjoint_parts (pa : p.HasPart whole a) (pb : p.HasPart whole b) (other : a ≠ b) :
    p.Disjoint a b := by
  apply tidy.disjoint_of_not_below
  · intro below
    exact tidy.acyclic.not_below pa (tidy.below_whole below other pb)
  · intro below
    exact tidy.acyclic.not_below pb (tidy.below_whole below other.symm pa)

theorem pairwise_disjoint_childrenOf (id : SyntaxId) :
    (p.nodes.childrenOf id).Pairwise p.Disjoint :=
  (tidy.nodup_childrenOf id).imp_of_mem fun left right other =>
    tidy.disjoint_parts left right other

theorem pairwise_disjoint_children {form : Form} (known : p.formOf id = some form) :
    form.children.Pairwise p.Disjoint :=
  childrenOf_of_formOf known ▸ tidy.pairwise_disjoint_childrenOf id

/-- Nodes without a whole have nothing in common. -/
theorem disjoint_tops (ta : p.IsTop a) (tb : p.IsTop b) (other : a ≠ b) : p.Disjoint a b := by
  have apart {x y : SyntaxId} (top : p.IsTop y) (other : x ≠ y) : ¬p.Below x y := by
    intro below
    obtain rfl | ⟨whole, _, step⟩ := Relation.ReflTransGen.cases_tail below
    · contradiction
    · exact top whole step
  exact tidy.disjoint_of_not_below (apart tb other) (apart ta other.symm)

end Tidy

/-- Without its members, an untangled program is tidy. -/
theorem Untangled.tidy (untangled : p.Untangled) : Tidy { p with members := [] } where
  once := untangled.once
  distinct := List.nodup_nil
  free _ listed := absurd listed List.not_mem_nil
  acyclic := untangled.acyclic

theorem Untangled.pairwise_disjoint_children (untangled : p.Untangled) {form : Form}
    (known : p.formOf id = some form) : form.children.Pairwise p.Disjoint :=
  untangled.tidy.pairwise_disjoint_children known

end SemanticTrees.Program
