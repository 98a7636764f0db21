import SemanticTrees.Proofs.Graph.Reach
import SemanticTrees.Proofs.Program.Layout

/-! Nesting. In the text of a tidy program a span contains another one when the node lies above the
other node; the spans of nodes that do not lie below one another are apart. -/
namespace SemanticTrees

namespace Span

variable {r s t : Span}

theorem contains_iff : s.contains t = true ↔ s.start ≤ t.start ∧ t.stop ≤ s.stop := by
  simp [contains]

theorem contains_trans (rs : r.contains s = true) (st : s.contains t = true) :
    r.contains t = true := by
  rw [contains_iff] at *
  omega

/-- There is something between two spans. -/
def Apart (s t : Span) : Prop := s.stop < t.start ∨ t.stop < s.start

theorem Apart.within {s' t' : Span} (apart : s.Apart t) (s_s' : s.contains s' = true)
    (t_t' : t.contains t' = true) : s'.Apart t' := by
  rw [contains_iff] at s_s' t_t'
  unfold Apart at *
  omega

theorem Apart.not_contains (apart : s.Apart t) (ordered : t.start ≤ t.stop) :
    s.contains t = false := by
  rw [← Bool.not_eq_true, contains_iff]
  unfold Apart at apart
  omega

end Span

namespace Program

open LayoutPart

variable {p : Program} {a b id whole part : SyntaxId}

theorem apart_of_pairwise {nodes : SyntaxTable} {ids : List SyntaxId}
    (ordered : ids.Pairwise fun a b => (nodes.spanOf a).stop < (nodes.spanOf b).start)
    (left : a ∈ ids) (right : b ∈ ids) (other : a ≠ b) :
    (nodes.spanOf a).Apart (nodes.spanOf b) := by
  have : Std.Symm fun a b => (nodes.spanOf a).Apart (nodes.spanOf b) := ⟨fun _ _ => Or.symm⟩
  have apart : ids.Pairwise fun a b => (nodes.spanOf a).Apart (nodes.spanOf b) :=
    ordered.imp Or.inl
  exact apart.forall left right other

theorem contains_foldl_insert (ids : List SyntaxId) (seen : Std.TreeMap SyntaxId Unit) :
    (ids.foldl (·.insert · ()) seen).contains id = true ↔ id ∈ ids ∨ seen.contains id = true := by
  induction ids generalizing seen with
  | nil => simp
  | cons first rest ih =>
    simp only [List.foldl_cons, ih, Std.TreeMap.contains_insert, Bool.or_eq_true, beq_iff_eq,
      Std.compare_eq_iff_eq, List.mem_cons]
    tauto

theorem contains_foldl_parts (nodes : List SyntaxNode) (seen : Std.TreeMap SyntaxId Unit) :
    (nodes.foldl (fun parts node => node.form.children.foldl (·.insert · ()) parts)
      seen).contains id = true ↔
      (∃ node ∈ nodes, id ∈ node.form.children) ∨ seen.contains id = true := by
  induction nodes generalizing seen with
  | nil => simp
  | cons first rest ih =>
    rw [List.foldl_cons, ih, contains_foldl_insert, List.exists_mem_cons_iff, or_assoc,
      or_left_comm]

theorem isTop_iff : p.IsTop id ↔ ¬∃ node ∈ p.nodes.toList, id ∈ node.form.children := by
  rw [not_exists]
  constructor
  · rintro top node ⟨listed, part⟩
    obtain ⟨whole, found⟩ := List.mem_iff_getElem?.mp listed
    exact top whole (hasPart_iff.mpr ⟨node, by simpa using found, part⟩)
  · intro none whole known
    obtain ⟨node, found, part⟩ := hasPart_iff.mp known
    exact none node ⟨List.mem_of_getElem? (by simpa using found), part⟩

/-- The nodes that are laid out by themselves are the members and those that are part of nothing. -/
theorem mem_layoutRoots_iff : id ∈ p.layoutRoots ↔
    id ∈ p.members ∨ id < p.nodes.size ∧ p.IsTop id := by
  have part : (p.nodes.foldl (fun parts node => node.form.children.foldl (·.insert · ()) parts)
      ({} : Std.TreeMap SyntaxId Unit)).contains id = false ↔ p.IsTop id := by
    rw [← Array.foldl_toList, ← Bool.not_eq_true, contains_foldl_parts, isTop_iff]
    simp
  have member : (p.members.foldl (·.insert · ()) ({} : Std.TreeMap SyntaxId Unit)).contains id =
      false ↔ id ∉ p.members := by
    rw [← Bool.not_eq_true, contains_foldl_insert]
    simp
  unfold layoutRoots
  rw [List.mem_append, List.mem_filter, List.mem_range, Bool.and_eq_true, Bool.not_eq_true',
    Bool.not_eq_true', part, member]
  tauto

namespace Tidy

variable (tidy : p.Tidy)
include tidy

/-- What is laid out by itself is part of nothing. -/
theorem isTop_of_mem_layoutRoots (listed : id ∈ p.layoutRoots) : p.IsTop id := by
  obtain member | ⟨_, top⟩ := mem_layoutRoots_iff.mp listed
  · exact tidy.free id member
  · exact top

/-- Nodes that are laid out by themselves have nothing in common. -/
theorem pairwise_disjoint_layoutRoots : p.layoutRoots.Pairwise p.Disjoint := by
  have nodup : p.layoutRoots.Nodup := by
    refine List.nodup_append.mpr ⟨tidy.distinct, List.nodup_range.filter _, ?_⟩
    rintro id member _ listed rfl
    obtain ⟨_, absent⟩ := Bool.and_eq_true_iff.mp (List.mem_filter.mp listed).2
    rw [(contains_foldl_insert p.members {}).mpr (.inl member)] at absent
    contradiction
  exact nodup.imp_of_mem fun left right other => tidy.disjoint_tops
    (tidy.isTop_of_mem_layoutRoots left) (tidy.isTop_of_mem_layoutRoots right) other

/-- The text of a tidy program is a run over the nodes that are laid out by themselves. -/
theorem run_layout : p.Run ⟨"", p.nodes⟩ p.layout (p.existing p.layoutRoots) := by
  have each : ∀ start part terminated,
      .node part terminated ∈ LayoutPart.list "\n" p.layoutRoots → part < p.nodes.size →
      start.nodes.map SyntaxNode.form = p.nodes.map SyntaxNode.form →
      p.Laid start (p.layoutPart (p.nodes.size + 1) start (.node part terminated)) part :=
    fun start part terminated _ inside same =>
      tidy.laid same inside (tidy.acyclic.shallow part) (Nat.lt_succ_self _)
  have disjoint : ([] ++ nodesOf (LayoutPart.list "\n" p.layoutRoots)).Pairwise p.Disjoint := by
    simpa using tidy.pairwise_disjoint_layoutRoots
  obtain ⟨run, _⟩ := (Run.refl ⟨"", p.nodes⟩).parts each (by simp [Gapped])
    (spaced_separated (by decide)) disjoint
  rwa [List.nil_append, nodesOf_separated] at run

/-- Every node lies below one that is laid out by itself. -/
theorem exists_layoutRoot (inside : id < p.nodes.size) :
    ∃ top, p.Below top id ∧ top ∈ p.existing p.layoutRoots := by
  obtain ⟨top, below, free⟩ := tidy.acyclic.exists_top id
  have bound := lt_of_below below inside
  exact ⟨top, below,
    List.mem_filter.mpr ⟨mem_layoutRoots_iff.mpr (.inr ⟨bound, free⟩), by simpa using bound⟩⟩

/-- Every node is in its place. -/
theorem placed (inside : id < p.nodes.size) : p.Placed p.layout.nodes id := by
  obtain ⟨top, below, listed⟩ := tidy.exists_layoutRoot inside
  exact tidy.run_layout.placed top listed id below inside

/-- The span of a node contains those of the nodes below it. -/
theorem contains_of_below (below : p.Below a b) (inside : b < p.nodes.size) :
    (p.layout.nodes.spanOf a).contains (p.layout.nodes.spanOf b) = true := by
  induction below with
  | refl => simp [Span.contains_iff]
  | @tail whole b _ known ih =>
    have bound := lt_of_hasPart known
    exact Span.contains_trans (ih bound) ((tidy.placed bound).inside b known inside)

/-- Two nodes of which neither lies below the other are apart, if there is a node above both. -/
theorem apart_of_below (left : p.Below whole a) (right : p.Below whole b) (ab : ¬p.Below a b)
    (ba : ¬p.Below b a) (inside : a < p.nodes.size) (inside' : b < p.nodes.size) :
    (p.layout.nodes.spanOf a).Apart (p.layout.nodes.spanOf b) := by
  obtain below | below | ⟨fork, c, d, ofC, ofD, other, left, right⟩ :=
    Graph.exists_parting left right
  · exact absurd below ab
  · exact absurd below ba
  · have listed {child part : SyntaxId} (known : p.HasPart fork child)
        (below : p.Below child part) (inside : part < p.nodes.size) :
        child ∈ p.existing (p.nodes.childrenOf fork) :=
      List.mem_filter.mpr ⟨known, by simpa using lt_of_below below inside⟩
    have apart := apart_of_pairwise (tidy.placed (lt_of_hasPart ofC)).apart
      (listed ofC left inside) (listed ofD right inside') other
    exact Span.Apart.within apart (tidy.contains_of_below left inside)
      (tidy.contains_of_below right inside')

/-- Two nodes are apart, unless one of them lies below the other. -/
theorem apart_of_not_below (ab : ¬p.Below a b) (ba : ¬p.Below b a) (inside : a < p.nodes.size)
    (inside' : b < p.nodes.size) :
    (p.layout.nodes.spanOf a).Apart (p.layout.nodes.spanOf b) := by
  obtain ⟨top, left, listed⟩ := tidy.exists_layoutRoot inside
  obtain ⟨top', right, listed'⟩ := tidy.exists_layoutRoot inside'
  by_cases same : top = top'
  · subst same
    exact tidy.apart_of_below left right ab ba inside inside'
  · have apart := apart_of_pairwise tidy.run_layout.apart listed listed' same
    exact Span.Apart.within apart (tidy.contains_of_below left inside)
      (tidy.contains_of_below right inside')

end Tidy

/-- The spans of a program are nested like its nodes: a whole is around its parts, and unless it is
an argument none of them reaches as far; what does not lie below one another is apart. -/
structure Nested (p : Program) : Prop where
  ordered : ∀ id < p.nodes.size, (p.nodes.spanOf id).start ≤ (p.nodes.spanOf id).stop
  inside : ∀ a b, p.Below a b → b < p.nodes.size →
    (p.nodes.spanOf a).contains (p.nodes.spanOf b) = true
  apart : ∀ a b, ¬p.Below a b → ¬p.Below b a → a < p.nodes.size → b < p.nodes.size →
    (p.nodes.spanOf a).Apart (p.nodes.spanOf b)
  strict : ∀ whole part, p.HasPart whole part → part < p.nodes.size → ¬p.IsArgument whole →
    (p.nodes.spanOf part).contains (p.nodes.spanOf whole) = false

namespace Nested

variable (nested : p.Nested)
include nested

/-- A node whose whole is no argument contains nothing but the nodes below it. -/
theorem contains_iff_below (plain : ∀ whole, p.HasPart whole a → ¬p.IsArgument whole)
    (inside : a < p.nodes.size) (inside' : b < p.nodes.size) :
    (p.nodes.spanOf a).contains (p.nodes.spanOf b) = true ↔ p.Below a b := by
  refine ⟨fun contained => ?_, fun below => nested.inside a b below inside'⟩
  by_contra ab
  by_cases ba : p.Below b a
  · obtain rfl | ⟨whole, above, known⟩ := Relation.ReflTransGen.cases_tail ba
    · exact ab .refl
    · have wider := nested.inside b whole above (lt_of_hasPart known)
      have strict := nested.strict whole a known inside (plain whole known)
      rw [Span.contains_trans contained wider] at strict
      contradiction
  · have apart := nested.apart a b ab ba inside inside'
    rw [apart.not_contains (nested.ordered b inside')] at contained
    contradiction

end Nested

end Program

end SemanticTrees
