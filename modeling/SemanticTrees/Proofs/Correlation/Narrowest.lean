import SemanticTrees.Proofs.Correlation.Invalidity
import SemanticTrees.Proofs.Lowering.Branching
import SemanticTrees.Proofs.Operation.Depth
import SemanticTrees.Proofs.Program.Nesting

/-! The narrowest operation around a node that has an operation of its own. It has the span of the
node and is as deep as the operation of the node or deeper, and branches have spans of their own, so
it is that operation or lies below it. -/
namespace SemanticTrees

theorem Span.eq_of_contains {outer inner : Span} (around : outer.contains inner = true)
    (narrow : outer.length ≤ inner.length) (ordered : inner.start ≤ inner.stop) :
    outer = inner := by
  obtain ⟨start, stop⟩ := outer
  obtain ⟨start', stop'⟩ := inner
  rw [Span.contains_iff] at around
  unfold Span.length at narrow
  rw [Span.mk.injEq]
  dsimp only at *
  omega

namespace OperationTree

variable {t : OperationTree} {p : Program} {i j w y a b : OperationId} {o ow oy : Operation}
  {node : SyntaxId}

/-- What is in the place of a node was made for nothing apart from it. -/
theorem span_ne_of_disjoint (nested : p.Nested) (apart : p.Disjoint node ow.origin)
    (inside : node < p.nodes.size) (inside' : ow.origin < p.nodes.size)
    (stands : ow.Stands p) : ow.span ≠ p.nodes.spanOf node := by
  intro same
  have ordered := nested.ordered node inside
  have ordered' := nested.ordered ow.origin inside'
  have gap := nested.apart node ow.origin (fun below => apart _ below .refl)
    (fun below => apart _ .refl below) inside inside'
  unfold Span.Apart at gap
  obtain place | ⟨place, _⟩ := stands
  · rw [← place, same] at gap
    omega
  · rw [place, Span.point] at same
    rw [← same] at gap
    dsimp only at gap
    omega

/-- What is in the place of a node was not made for a node strictly above it, unless that node is an
argument. -/
theorem span_ne_of_below (nested : p.Nested) (below : p.Below ow.origin node)
    (other : ow.origin ≠ node) (plain : ¬p.IsArgument ow.origin) (inside : node < p.nodes.size)
    (stands : ow.Stands p) : ow.span ≠ p.nodes.spanOf node := by
  intro same
  obtain rfl | ⟨part, known, below⟩ := Relation.ReflTransGen.cases_head below
  · contradiction
  · obtain place | ⟨_, name, bare⟩ := stands
    · have around := nested.inside part node below inside
      rw [← same, place, nested.strict ow.origin part known (Program.lt_of_below below inside) plain]
        at around
      contradiction
    · rw [Program.HasPart, Program.childrenOf_of_formOf bare] at known
      contradiction

section Own

variable (compact : t.Compact) (mirrors : t.Mirrors p)
  (known : t.operationFor node = some i) (found : t.get? i = some o) (own : o.origin = node)
include compact mirrors known found own

/-- Above the operation of a node no operation was written for the node. -/
theorem not_written_above (stored : t.get? y = some oy) (child : t.IsChild y a)
    (below : t.Below a i) (written : oy.isImplicit = false) : oy.origin ≠ node := by
  intro same
  have later := mirrors.latest node i o y oy known found own stored written same
  have lower := compact.le_of_below below
  have before := compact.before y a child
  exact Nat.lt_irrefl _ (Nat.lt_of_lt_of_le before (later.trans lower))

/-- An operation in the place of a node is not on another branch than the operation of the node. -/
theorem not_forked (nested : p.Nested)
    (inside : ∀ i o, t.get? i = some o → o.origin < p.nodes.size) (stored : t.get? y = some oy)
    (left : t.IsChild y a) (right : t.IsChild y b) (other : a ≠ b) (below : t.Below a i)
    (below' : t.Below b w) (foundw : t.get? w = some ow) : ow.span ≠ p.nodes.spanOf node := by
  subst own
  obtain ⟨oa, founda, descends⟩ := mirrors.descends y oy a stored left
  obtain ⟨ob, foundb, _⟩ := mirrors.descends y oy b stored right
  obtain ⟨_, same, lower⟩ := mirrors.below_origin founda below
  obtain rfl := Option.some.inj (found.symm.trans same)
  have stands := mirrors.stands w ow foundw
  -- either the branches share no node, or one of them was made for the node of the fork alone
  obtain apart | fills | fills := mirrors.parts y oy a b oa ob stored left right other founda foundb
  · obtain ⟨_, same, lower'⟩ := mirrors.below_origin foundb below'
    obtain rfl := Option.some.inj (foundw.symm.trans same)
    exact span_ne_of_disjoint nested
      (fun id above above' => apart id (lower.trans above) (lower'.trans above'))
      (inside i o found) (inside w ow foundw) stands
  · obtain ⟨_, same, origin⟩ := fills.alone i below
    obtain rfl := Option.some.inj (found.symm.trans same)
    exact absurd origin.symm (not_written_above compact mirrors known found rfl stored left below
      fills.written)
  · have different := not_written_above compact mirrors known found rfl stored left below
      fills.written
    obtain ⟨_, same, origin⟩ := fills.alone w below'
    obtain rfl := Option.some.inj (foundw.symm.trans same)
    rw [← origin] at different descends
    exact span_ne_of_below nested (descends.trans lower) different (origin ▸ fills.plain)
      (inside i o found) stands

/-- The search for the narrowest operation around a node ends at the operation of the node or below
it. -/
theorem below_of_narrowest (nested : p.Nested)
    (inside : ∀ i o, t.get? i = some o → o.origin < p.nodes.size)
    (narrow : narrowest t.receivers (p.nodes.spanOf node) = some w) : t.Below i w := by
  obtain ⟨o', same, _, place⟩ := mirrors.mapped node i known
  obtain rfl := Option.some.inj (found.symm.trans same)
  obtain ⟨written, span⟩ := place own
  obtain ⟨r, listed, rfl, around, least⟩ := not_precedes_of_narrowest narrow
  obtain ⟨ow, foundw, _, spanw, deepw⟩ := mem_receivers_iff.mp listed
  obtain ⟨ro, listedo, rfl, spano⟩ := exists_receiver found written
  obtain ⟨_, _, _, _, deepo⟩ := mem_receivers_iff.mp listedo
  -- the operation of the node was in the search, so what was found is as narrow and not less deep
  have beaten : ro.precedes r = false :=
    least ro listedo (by rw [spano, span]; simp [Span.contains_iff])
  have narrower : r.span.length ≤ (p.nodes.spanOf node).length := by
    rw [← span, ← spano]
    simp only [Receiver.precedes, Bool.or_eq_false_iff, decide_eq_false_iff_not] at beaten
    exact Nat.le_of_not_lt beaten.1
  have same := Span.eq_of_contains around narrower (nested.ordered node (own ▸ inside _ o found))
  have deeper : ro.depth ≤ r.depth := by
    rw [Receiver.precedes, spano, span, same] at beaten
    simpa using beaten
  have reached {k : OperationId} {o : Operation} (found : t.get? k = some o) : t.Below t.root k :=
    compact.reached k (Array.getElem?_eq_some_iff.mp found).1
  obtain below | above | ⟨y, a, b, left, right, other, below, below'⟩ :=
    Graph.exists_parting (reached found) (reached foundw)
  · exact below
  · by_cases equal : r.operation = ro.operation
    · exact equal ▸ .refl
    · exact absurd deeper (Nat.not_le_of_lt (compact.depth_lt above equal deepw deepo))
  · obtain ⟨oy, stored, _⟩ := mem_childrenOf_iff.mp left
    exact absurd (spanw.trans same) (not_forked compact mirrors known found own nested inside
      stored left right other below below' foundw)

/-- An error in the place of a node makes the operation of the node and all above it invalid. -/
theorem isInvalid_of_error (nested : p.Nested)
    (inside : ∀ i o, t.get? i = some o → o.origin < p.nodes.size) {ds : List Diagnostic}
    {d : Diagnostic} (reported : d ∈ ds) (error : d.isError = true)
    (place : d.span = p.nodes.spanOf node) (above : t.Below j i) :
    (Correlation.of t ds).isInvalid j = true := by
  cases received : Correlation.receiverOf t d with
  | none =>
    obtain ⟨o', same, _, placed⟩ := mirrors.mapped node i known
    obtain rfl := Option.some.inj (found.symm.trans same)
    obtain ⟨written, span⟩ := placed own
    obtain ⟨r, listed, rfl, around⟩ := exists_receiver found written
    have missed := narrowest_eq_none_iff.mp received r listed
    rw [around, span, place] at missed
    simp [Span.contains] at missed
  | some w =>
    have narrow : narrowest t.receivers (p.nodes.spanOf node) = some w := place ▸ received
    have below := below_of_narrowest compact mirrors known found own nested inside narrow
    refine (Correlation.isInvalid_iff compact).mpr ⟨w, above.trans below, .inr ?_⟩
    exact Correlation.isHit_iff.mpr
      ⟨d, reported, error, Correlation.mem_attached_iff.mpr ⟨reported, received⟩⟩

end Own

end OperationTree

end SemanticTrees
