import SemanticTrees.Proofs.Lowering.Ownership
import SemanticTrees.Proofs.Lowering.Trail
import SemanticTrees.Proofs.Program.Tidy

/-! Regions of syntax. In a store that is being filled, an operation and those below it were made for
one region of the program: a node with what lies below it, or one node alone. The children of an
operation have regions inside that of the operation and apart from one another, so operations branch
as syntax does. -/
namespace SemanticTrees

/-- What an operation and those below it were made for. -/
inductive Region
  /-- A node and nodes below it. -/
  | below (node : SyntaxId)
  /-- One node, for something that was not written there. -/
  | only (node : SyntaxId)

namespace Region

/-- Two regions have no node in common. A region of one node is no part of the others. -/
def Apart (p : Program) : Region → Region → Prop
  | .below a, .below b => p.Disjoint a b
  | _, _ => True

/-- An operation may have a child with a region. Only a call has children for its own node alone,
and a call is not an argument. -/
def Fits (p : Program) (o : Operation) : Region → Prop
  | .below node => p.Below o.origin node
  | .only node => node = o.origin ∧ o.isImplicit = false ∧ ¬p.IsArgument node

end Region

/-- An operation stands where its node stands, or behind a declarator that lacks its value. -/
def Operation.Stands (o : Operation) (p : Program) : Prop :=
  o.span = p.nodes.spanOf o.origin ∨
    o.span = Span.point (p.nodes.spanOf o.origin).stop ∧
      ∃ name, p.formOf o.origin = some (.variableDeclarator name none)

variable {p : Program} {s s' : Store} {o : Operation} {i : OperationId} {id node : SyntaxId}
  {region : Region} {regions : List Region} {used : List OperationId}

theorem Region.Apart.symm {a b : Region} (apart : a.Apart p b) : b.Apart p a := by
  match a, b, apart with
  | .below a, .below b, apart => exact fun id below below' => apart id below' below
  | .below _, .only _, _ | .only _, .below _, _ | .only _, .only _, _ => trivial

theorem Region.pairwise_apart_of_subperm {own : List Region} (sub : own.Subperm regions)
    (apart : regions.Pairwise (Region.Apart p)) : own.Pairwise (Region.Apart p) := by
  obtain ⟨kept, perm, sublist⟩ := sub
  exact (perm.pairwise_iff Region.Apart.symm).mp (apart.sublist sublist)

namespace Store

/-- An operation was made for a region. -/
def Holds (s : Store) (p : Program) : Region → OperationId → Prop
  | .below node, i => ∃ o, s.get? i = some o ∧ p.Below node o.origin
  | .only node, i => ∃ o, s.get? i = some o ∧ o.origin = node ∧
      ∀ child ∈ o.children, ∃ o', s.get? child = some o' ∧ o'.origin = node ∧ o'.children = []

/-- Operations were made for some of a list of regions, one for each. -/
def Over (s : Store) (p : Program) (regions : List Region) (used : List OperationId) : Prop :=
  ∃ own, own.Subperm regions ∧ List.Forall₂ (s.Holds p) own used

/-- The children of an operation were made for regions that fit it and are apart. -/
structure Branches (s : Store) (p : Program) (o : Operation) (regions : List Region)
    (used : List OperationId) : Prop where
  covers : o.children ⊆ used
  held : List.Forall₂ (s.Holds p) regions used
  fits : ∀ region ∈ regions, region.Fits p o
  apart : regions.Pairwise (Region.Apart p)

/-- The operation of a node, unless the node is parenthesized, was written for it in its place, and
no operation that was written for it later is in the store. -/
structure Indexed (s : Store) (p : Program) : Prop where
  mapped : ∀ node i, s.origins[node]? = some i → ∃ o, s.get? i = some o ∧
    (o.origin = node ∨ ∃ inner, p.formOf node = some (.parenthesized inner)) ∧
    (o.origin = node → o.isImplicit = false ∧ o.span = p.nodes.spanOf node)
  latest : ∀ node i o j o', s.origins[node]? = some i → s.get? i = some o → o.origin = node →
    s.get? j = some o' → o'.isImplicit = false → o'.origin = node → j ≤ i

/-- The operations of a store branch as syntax does and stand where it stands. -/
structure Follows (s : Store) (p : Program) : Prop extends s.Indexed p where
  branches : ∀ i o, s.get? i = some o → ∃ regions used, s.Branches p o regions used
  stands : ∀ i o, s.get? i = some o → o.Stands p

theorem Holds.mono (held : s.Holds p region i) (grows : s.Extends s') : s'.Holds p region i := by
  cases region with
  | below node =>
    obtain ⟨o, found, below⟩ := held
    exact ⟨o, grows i o found, below⟩
  | only node =>
    obtain ⟨o, found, same, each⟩ := held
    refine ⟨o, grows i o found, same, ?_⟩
    intro child listed
    obtain ⟨o', found', rest⟩ := each child listed
    exact ⟨o', grows child o' found', rest⟩

theorem Holds.lt_size (held : s.Holds p region i) : i < s.size := by
  cases region with
  | below node =>
    obtain ⟨o, found, _⟩ := held
    exact (Array.getElem?_eq_some_iff.mp found).1
  | only node =>
    obtain ⟨o, found, _⟩ := held
    exact (Array.getElem?_eq_some_iff.mp found).1

theorem Branches.mono (branches : s.Branches p o regions used) (grows : s.Extends s') :
    s'.Branches p o regions used :=
  { branches with held := branches.held.imp fun _ _ held => held.mono grows }

namespace Over

theorem mono (covered : s.Over p regions used) (grows : s.Extends s') : s'.Over p regions used := by
  obtain ⟨own, sub, held⟩ := covered
  exact ⟨own, sub, held.imp fun _ _ held => held.mono grows⟩

theorem nil : s.Over p regions [] := ⟨[], List.nil_subperm, .nil⟩

theorem single (held : s.Holds p region i) : s.Over p [region] [i] :=
  ⟨[region], .refl _, .cons held .nil⟩

theorem holds (covered : s.Over p [region] [i]) : s.Holds p region i := by
  obtain ⟨own, sub, held⟩ := covered
  obtain rfl | rfl := List.subperm_singleton_iff.mp sub
  · cases held
  · obtain ⟨held, _⟩ := List.forall₂_cons.mp held
    exact held

theorem above (inside : p.Below id node) (covered : s.Over p [.below node] used) :
    s.Over p [.below id] used := by
  obtain ⟨own, sub, held⟩ := covered
  obtain rfl | rfl := List.subperm_singleton_iff.mp sub
  · exact ⟨[], List.nil_subperm, held⟩
  · cases held with
    | cons held rest =>
      obtain ⟨o, found, below⟩ := held
      exact ⟨[.below id], .refl _, .cons ⟨o, found, inside.trans below⟩ rest⟩

theorem append {regions' : List Region} {used' : List OperationId} (covered : s.Over p regions used)
    (covered' : s.Over p regions' used') : s.Over p (regions ++ regions') (used ++ used') := by
  obtain ⟨own, sub, held⟩ := covered
  obtain ⟨own', sub', held'⟩ := covered'
  exact ⟨own ++ own', sub.append sub', List.rel_append held held'⟩

end Over

section Add

/-- A store that grows keeps its index when each node either gets the last operation, which was
written for it in its place, or keeps its operation and gets no other one that was written. -/
theorem Indexed.grow (indexed : s.Indexed p) (last : OperationId) (grows : s.Extends s')
    (bound : ∀ j o, s'.get? j = some o → j ≤ last)
    (step : ∀ node i, s'.origins[node]? = some i →
      (i = last ∧ ∃ o, s'.get? last = some o ∧ o.origin = node ∧ o.isImplicit = false ∧
        o.span = p.nodes.spanOf node) ∨
      (s.origins[node]? = some i ∧ ∀ j o, s'.get? j = some o → o.isImplicit = false →
        o.origin = node → s.get? j = some o)) :
    s'.Indexed p := by
  constructor
  · intro node i known
    obtain ⟨rfl, o, found, same, explicit, place⟩ | ⟨old, _⟩ := step node i known
    · exact ⟨o, found, .inl same, fun _ => ⟨explicit, place⟩⟩
    · obtain ⟨o, found, rest⟩ := indexed.mapped node i old
      exact ⟨o, grows i o found, rest⟩
  · intro node i o j o' known found same found' explicit same'
    obtain ⟨rfl, _⟩ | ⟨old, kept⟩ := step node i known
    · exact bound j o' found'
    · obtain ⟨o₁, stored, _⟩ := indexed.mapped node i old
      obtain rfl : o = o₁ := Option.some.inj (found.symm.trans (grows i o₁ stored))
      exact indexed.latest node i o j o' old stored same (kept j o' found' explicit same')
        explicit same'

theorem Indexed.add (indexed : s.Indexed p)
    (place : o.isImplicit = false → o.span = p.nodes.spanOf o.origin) : (s.add o).Indexed p := by
  refine indexed.grow s.size (s.extends_add o) (fun _ _ => le_of_get?_add) ?_
  intro node i known
  rw [origins_add] at known
  split at known
  · next own =>
    obtain ⟨explicit, rfl⟩ := own
    exact .inl ⟨(Option.some.inj known).symm, o, (s.get?_add s.size).trans (if_pos rfl), rfl,
      explicit, place explicit⟩
  · next other =>
    refine .inr ⟨known, ?_⟩
    intro j o' found explicit same
    obtain ⟨_, rfl⟩ | ⟨_, old⟩ := get?_add_cases found
    · exact absurd ⟨explicit, same⟩ other
    · exact old

theorem exists_branches_add (branches : s.Branches p o regions used)
    (older : ∀ i o, s.get? i = some o → ∃ regions used, s.Branches p o regions used) :
    ∀ i o', (s.add o).get? i = some o' →
      ∃ regions used, (s.add o).Branches p o' regions used := by
  refine forall_add ⟨regions, used, branches.mono (s.extends_add o)⟩ ?_
  intro j o' old
  obtain ⟨regions, used, branches⟩ := older j o' old
  exact ⟨regions, used, branches.mono (s.extends_add o)⟩

theorem Follows.add (follows : s.Follows p) (branches : s.Branches p o regions used)
    (place : o.span = p.nodes.spanOf o.origin) : (s.add o).Follows p where
  toIndexed := follows.toIndexed.add fun _ => place
  branches := exists_branches_add branches follows.branches
  stands := forall_add (.inl place) follows.stands

/-- An operation that stands for a missing value is not the one of its node for long. -/
theorem Indexed.add_missing {o' : Operation} (indexed : s.Indexed p)
    (explicit : o'.isImplicit = false) (same : o'.origin = o.origin)
    (place : o'.span = p.nodes.spanOf o'.origin) : ((s.add o).add o').Indexed p := by
  have origins (node : SyntaxId) : ((s.add o).add o').origins[node]? =
      if o'.origin = node then some (s.add o).size else s.origins[node]? := by
    rw [origins_add, origins_add]
    by_cases own : o'.origin = node
    · rw [if_pos ⟨explicit, own⟩, if_pos own]
    · rw [if_neg fun both => own both.2, if_neg fun both => own (same.trans both.2), if_neg own]
  refine indexed.grow (s.add o).size ((s.extends_add o).trans ((s.add o).extends_add o'))
    (fun _ _ => le_of_get?_add) ?_
  intro node i known
  rw [origins] at known
  split at known
  · next own =>
    exact .inl ⟨(Option.some.inj known).symm, o', ((s.add o).get?_add _).trans (if_pos rfl), own,
      explicit, own ▸ place⟩
  · next other =>
    -- both of the new operations were made for the other node
    refine .inr ⟨known, ?_⟩
    intro j o₁ found _ own
    obtain ⟨_, rfl⟩ | ⟨_, inner⟩ := get?_add_cases found
    · exact absurd own other
    · obtain ⟨_, rfl⟩ | ⟨_, old⟩ := get?_add_cases inner
      · exact absurd (same.trans own) other
      · exact old

end Add

theorem Follows.associate (follows : s.Follows p) {inner : SyntaxId}
    (form : p.formOf id = some (.parenthesized inner)) (held : s.Holds p (.below inner) i)
    (acyclic : p.Acyclic) : (s.associate id i).Follows p := by
  obtain ⟨o, found, below⟩ := held
  have other : o.origin ≠ id := by
    rintro rfl
    exact acyclic.not_below (Program.hasPart_of_formOf form List.mem_cons_self) below
  refine { mapped := ?_, latest := ?_, branches := ?_, stands := follows.stands }
  · intro node j known
    obtain ⟨rfl, rfl, _⟩ | old := origins_associate known
    · exact ⟨o, found, .inr ⟨inner, form⟩, fun same => absurd same other⟩
    · exact follows.mapped node j old
  · intro node j o₁ k o₂ known found' same
    obtain ⟨rfl, rfl, _⟩ | old := origins_associate known
    · exact absurd (Option.some.inj (found.symm.trans found') ▸ same) other
    · exact follows.latest node j o₁ k o₂ old found' same
  · intro j o' stored
    obtain ⟨regions, used, branches⟩ := follows.branches j o' stored
    exact ⟨regions, used, branches.mono (s.extends_associate id i)⟩

theorem follows_empty : Store.empty.Follows p where
  mapped := by simp [Store.empty]
  latest := by simp [Store.empty]
  branches := by simp [Store.empty, get?]
  stands := by simp [Store.empty, get?]

end Store

end SemanticTrees
