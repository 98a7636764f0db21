import SemanticTrees.Proofs.Operation.Correspondence

/-! Pruned trees. A tree is pruned from another one when some operations, with everything below them,
are placeholders without children, and all the rest is the same position by position. -/
namespace SemanticTrees

namespace OperationKind

/-- A placeholder of a category, without children. -/
def bare : Role → OperationKind
  | .expression => .invalidExpression []
  | .statement => .invalidStatement []

theorem childAt_mapChildren (f : OperationId → OperationId) (kind : OperationKind)
    (position : SlotPosition) :
    (kind.mapChildren f).childAt position = (kind.childAt position).map f := by
  unfold childAt
  rw [slots_mapChildren, List.getElem?_map]
  cases kind.slots[position.slot]? with
  | none => rfl
  | some entry =>
    obtain ⟨name, slot⟩ := entry
    cases slot with
    | one child => cases child <;> cases position.place <;> rfl
    | many children => exact List.getElem?_map

theorem mapChildren_bare (f : OperationId → OperationId) (role : Role) :
    (bare role).mapChildren f = bare role := by
  cases role <;> rfl

theorem childAt_bare (role : Role) (position : SlotPosition) :
    (bare role).childAt position = none := by
  obtain ⟨slot, place⟩ := position
  cases role <;> cases slot <;> rfl

end OperationKind

namespace Operation

/-- An operation apart from which operations its children are: how many stand in each slot is
kept. -/
def shell (o : Operation) : Operation := o.mapChildren fun _ => 0

/-- One operation is cut off where another one stands. -/
def CutsOff (o o' : Operation) : Prop := o.kind = .bare o'.role

theorem CutsOff.mapChildren {o o' : Operation} (f g : OperationId → OperationId)
    (cut : o.CutsOff o') : (o.mapChildren f).CutsOff (o'.mapChildren g) := by
  have role : (o'.mapChildren g).role = o'.role := OperationKind.role_mapChildren g o'.kind
  rw [CutsOff, role]
  exact (congrArg (OperationKind.mapChildren f) cut).trans (OperationKind.mapChildren_bare f _)

theorem CutsOff.childAt {o o' : Operation} (cut : o.CutsOff o') (position : SlotPosition) :
    o.kind.childAt position = none := by
  rw [cut, OperationKind.childAt_bare]

theorem shell_eq_of_alike {o o' : Operation} {r : SortedRelation}
    (alike : o.Alike .identity r o') : o.shell = o'.shell :=
  (eq_of_alike (alike.mapChildren fun _ _ _ _ _ _ => rfl)).symm

end Operation

namespace OperationTree

variable {t small big : OperationTree} {i i' : OperationId} {σ : OperationSort}
  {path path' rest : List SlotPosition}

/-- The operation that a path leads to. -/
def lookup (t : OperationTree) (i : OperationId) (path : List SlotPosition) : Option Operation :=
  (t.follow path i).bind t.get?

/-- A tree is another one in which some subtrees that are apart from one another are replaced by
placeholders of the same category. Paths lead to them. -/
structure Prunes (small big : OperationTree) (cuts : List SlotPosition → Prop) : Prop where
  apart : ∀ {path path'}, cuts path → cuts path' → path <+: path' → path = path'
  replaced : ∀ {path}, cuts path → ∃ o o', small.lookup small.root path = some o ∧
    big.lookup big.root path = some o' ∧ o.kind = .bare o'.role
  /-- Outside there are the same operations in the same places. -/
  kept : ∀ {path}, (∀ cut, cuts cut → ¬cut <+: path) →
    (small.lookup small.root path).map Operation.shell =
      (big.lookup big.root path).map Operation.shell

theorem lookup_cons (t : OperationTree) (i : OperationId) (position : SlotPosition)
    (path : List SlotPosition) :
    t.lookup i (position :: path) = (t.childAt i position).bind fun j => t.lookup j path := by
  unfold lookup follow
  rw [List.foldlM_cons]
  cases t.childAt i position <;> rfl

theorem follow_append (t : OperationTree) (i : OperationId) :
    t.follow (path ++ rest) i = (t.follow path i).bind (t.follow rest) :=
  List.foldlM_append

theorem childAt_of_get? {o : Operation} (found : t.get? i = some o) (position : SlotPosition) :
    t.childAt i position = o.kind.childAt position := by
  rw [childAt, found]
  rfl

/-- A path from two operations leads to one that is cut off where a different one stands. -/
def IsCut (small big : OperationTree) (i i' : OperationId) (path : List SlotPosition) : Prop :=
  ∃ o o', small.lookup i path = some o ∧ big.lookup i' path = some o' ∧ o.CutsOff o' ∧
    o.shell ≠ o'.shell

/-- Nothing is below an operation that is cut off. -/
theorem IsCut.eq_of_prefix (cut : IsCut small big i i' path) (cut' : IsCut small big i i' path')
    (le : path <+: path') : path = path' := by
  obtain ⟨rest, rfl⟩ := le
  obtain ⟨o, o', found, _, ends, _⟩ := cut
  obtain ⟨_, _, found', _, _, _⟩ := cut'
  cases rest with
  | nil => rw [List.append_nil]
  | cons position rest =>
    obtain ⟨j, leads, stored⟩ := Option.bind_eq_some_iff.mp found
    rw [lookup, follow_append, leads] at found'
    change small.lookup j (position :: rest) = some _ at found'
    rw [lookup_cons, childAt_of_get? stored, ends.childAt] at found'
    contradiction

/-- Below operations that correspond the same operations stand in the same places, apart from what
is cut off. -/
theorem lookup_of_corresponds
    (related : Corresponds .identity Operation.CutsOff small.get? big.get? σ i i')
    (outside : ∀ cut, IsCut small big i i' cut → ¬cut <+: path) :
    (small.lookup i path).map Operation.shell = (big.lookup i' path).map Operation.shell := by
  induction path generalizing σ i i' with
  | nil =>
    obtain ⟨o, o', found, found'⟩ := related.exists_found
    have same : o.shell = o'.shell := by
      obtain alike | ends := related.alike_or_cut found found'
      · exact Operation.shell_eq_of_alike alike
      · by_contra differ
        exact outside [] ⟨o, o', found, found', ends, differ⟩ List.nil_prefix
    change (small.get? i).map _ = (big.get? i').map _
    rw [found, found']
    exact congrArg some same
  | cons position path ih =>
    obtain ⟨o, o', found, found'⟩ := related.exists_found
    rw [lookup_cons, lookup_cons, childAt_of_get? found, childAt_of_get? found']
    obtain alike | ends := related.alike_or_cut found found'
    · have children := alike.kind.childAt position
      cases stored : o.kind.childAt position with
      | none =>
        rw [stored] at children
        generalize o'.kind.childAt position = child' at children
        cases children
        rfl
      | some j =>
        rw [stored] at children
        cases stored' : o'.kind.childAt position with
        | none =>
          rw [stored'] at children
          nomatch children
        | some j' =>
          rw [stored'] at children
          cases children with
          | some child =>
            obtain ⟨ρ, _, child⟩ := child
            refine ih child fun cut isCut le => ?_
            obtain ⟨a, a', leads, leads', ends, differ⟩ := isCut
            refine outside (position :: cut) ⟨a, a', ?_, ?_, ends, differ⟩
              (List.cons_prefix_cons.mpr ⟨rfl, le⟩)
            · rwa [lookup_cons, childAt_of_get? found, stored]
            · rwa [lookup_cons, childAt_of_get? found', stored']
    · have same : o.shell = o'.shell := by
        by_contra differ
        exact outside [] ⟨o, o', found, found', ends, differ⟩ List.nil_prefix
      have children := congrArg (fun o => o.kind.childAt position) same
      simp only [Operation.shell, Operation.mapChildren, OperationKind.childAt_mapChildren,
        ends.childAt, Option.map_none] at children
      rw [ends.childAt, Option.map_eq_none_iff.mp children.symm]
      rfl

/-- A tree is pruned from another one when their roots correspond, where what is cut off is a
placeholder. -/
theorem prunes_of_corresponds
    (related : Corresponds .identity Operation.CutsOff small.get? big.get? σ small.root big.root) :
    small.Prunes big (IsCut small big small.root big.root) where
  apart cut cut' := cut.eq_of_prefix cut'
  replaced cut := by
    obtain ⟨o, o', found, found', ends, _⟩ := cut
    exact ⟨o, o', found, found', ends⟩
  kept outside := lookup_of_corresponds related outside

end OperationTree

end SemanticTrees
