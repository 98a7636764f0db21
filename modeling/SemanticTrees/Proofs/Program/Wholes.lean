import SemanticTrees.Program.Basic
import Mathlib.Logic.Relation

/-! Wholes and parts. A node has the nodes that its form is made of as parts; what can be reached from
part to part lies below it. -/
namespace SemanticTrees.Program

variable {p q : Program} {a b id whole part : SyntaxId} {form : Form}

/-- A node lists another one among its parts. -/
def HasPart (p : Program) (node part : SyntaxId) : Prop := part ∈ p.nodes.childrenOf node

/-- A node lies below another one, or is the same. -/
def Below (p : Program) : SyntaxId → SyntaxId → Prop := Relation.ReflTransGen p.HasPart

/-- A node is part of nothing. -/
def IsTop (p : Program) (id : SyntaxId) : Prop := ∀ whole, ¬p.HasPart whole id

/-- A node is an argument, which may have no text of its own. -/
def IsArgument (p : Program) (id : SyntaxId) : Prop :=
  ∃ name passing expression, p.formOf id = some (.argument name passing expression)

theorem lt_of_formOf (known : p.formOf id = some form) : id < p.nodes.size := by
  obtain ⟨node, found, _⟩ := Option.map_eq_some_iff.mp known
  exact (Array.getElem?_eq_some_iff.mp found).1

theorem childrenOf_eq (p : Program) (id : SyntaxId) :
    p.nodes.childrenOf id = (p.formOf id).elim [] Form.children := by
  unfold SyntaxTable.childrenOf formOf SyntaxTable.formOf
  cases p.nodes[id]? <;> rfl

theorem mem_childrenOf_iff {child : SyntaxId} :
    child ∈ p.nodes.childrenOf id ↔ ∃ form, p.formOf id = some form ∧ child ∈ form.children := by
  unfold SyntaxTable.childrenOf formOf SyntaxTable.formOf
  cases p.nodes[id]? <;> simp

theorem childrenOf_of_formOf (known : p.formOf id = some form) :
    p.nodes.childrenOf id = form.children := by
  obtain ⟨node, found, rfl⟩ := Option.map_eq_some_iff.mp known
  simp only [SyntaxTable.childrenOf, found]

theorem hasPart_of_formOf (known : p.formOf id = some form) (listed : part ∈ form.children) :
    p.HasPart id part :=
  mem_childrenOf_iff.mpr ⟨form, known, listed⟩

theorem lt_of_hasPart (known : p.HasPart whole part) : whole < p.nodes.size := by
  obtain ⟨form, found, _⟩ := mem_childrenOf_iff.mp known
  exact lt_of_formOf found

theorem not_hasPart_of_size_le (outside : p.nodes.size ≤ whole) (part : SyntaxId) :
    ¬p.HasPart whole part :=
  fun known => Nat.not_le_of_lt (lt_of_hasPart known) outside

theorem lt_of_below (below : p.Below a b) (inside : b < p.nodes.size) : a < p.nodes.size := by
  obtain rfl | ⟨_, known, _⟩ := Relation.ReflTransGen.cases_head below
  · exact inside
  · exact lt_of_hasPart known

section Congruence

variable (forms : q.nodes.map SyntaxNode.form = p.nodes.map SyntaxNode.form)
include forms

theorem formOf_congr (id : SyntaxId) : q.formOf id = p.formOf id := by
  unfold formOf SyntaxTable.formOf
  rw [← Array.getElem?_map, ← Array.getElem?_map, forms]

/-- The forms of nodes decide what they are made of. -/
theorem hasPart_congr : q.HasPart = p.HasPart := by
  funext whole part
  rw [eq_iff_iff, HasPart, HasPart, mem_childrenOf_iff, mem_childrenOf_iff, formOf_congr forms]

end Congruence

end SemanticTrees.Program
