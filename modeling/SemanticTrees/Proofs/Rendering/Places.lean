import SemanticTrees.Proofs.Lowering.Sorting
import SemanticTrees.Proofs.Operation.Pruning
import SemanticTrees.Proofs.Rendering.Congruence
import SemanticTrees.Proofs.Rendering.Contents

/-! Contents at paths. Operations are congruent for having the same content exactly when every path
of slots leads to the same content from both, or from neither to anything. So a comparison tells
whether all contents are the same, if the lines can be read. -/
namespace SemanticTrees

/-- Slots that are alike hold related children, position by position. -/
theorem SlotsAlike.childAt {R : OperationId → OperationId → Prop} {kind kind' : OperationKind}
    (alike : SlotsAlike R kind.slots kind'.slots) (position : SlotPosition) :
    Option.Rel R (kind.childAt position) (kind'.childAt position) := by
  have slot := rel_getElem? alike position.slot
  unfold OperationKind.childAt
  generalize kind.slots[position.slot]? = entry at slot ⊢
  generalize kind'.slots[position.slot]? = entry' at slot ⊢
  cases slot with
  | none => exact .none
  | some related => exact rel_getElem? related.2.children position.place

/-- Slots of operations of one kind are alike if their children are, position by position. -/
theorem slotsAlike_of_childAt {R : OperationId → OperationId → Prop} {kind kind' : OperationKind}
    (name : kind.name = kind'.name)
    (related : ∀ position, Option.Rel R (kind.childAt position) (kind'.childAt position)) :
    SlotsAlike R kind.slots kind'.slots := by
  refine forall₂_of_rel_getElem? fun k => ?_
  have entries := rel_getElem? (OperationKind.slots_of_name name) k
  have children (place : Nat) := related ⟨k, place⟩
  unfold OperationKind.childAt at children
  dsimp only at children
  generalize kind.slots[k]? = entry at entries children ⊢
  generalize kind'.slots[k]? = entry' at entries children ⊢
  cases entries with
  | none => exact .none
  | some entries => exact .some ⟨entries.1, .of_children entries.2 (forall₂_of_rel_getElem? children)⟩

namespace OperationTree

variable {t t' : OperationTree} {i i' : OperationId}

/-- The content of an operation, which is invalid if something below it is invalid by itself. -/
def content (t : OperationTree) (i : OperationId) : Option Content :=
  (t.get? i).map fun o => o.content t.program (t.structuralTaint.getD i false)

/-- The content that a path leads to. -/
def contentAt (t : OperationTree) (i : OperationId) (path : List SlotPosition) : Option Content :=
  (t.follow path i).bind t.content

theorem contentAt_cons (t : OperationTree) (i : OperationId) (position : SlotPosition)
    (path : List SlotPosition) :
    t.contentAt i (position :: path) =
      (t.childAt i position).bind fun child => t.contentAt child path := by
  unfold contentAt follow
  rw [List.foldlM_cons]
  cases t.childAt i position <;> rfl

theorem content_ne_none (inside : i < t.size) : t.content i ≠ none := by
  have found : t.get? i = some t.operations[i] := Array.getElem?_eq_getElem inside
  rw [content, found]
  exact Option.some_ne_none _

/-- Operations of two trees have the same content. -/
def SameContent (t t' : OperationTree) (i i' : OperationId) : Prop := t.content i = t'.content i'

theorem SameContent.name_eq {o o' : Operation} (same : SameContent t t' i i')
    (found : t.get? i = some o) (found' : t'.get? i' = some o') : o.kind.name = o'.kind.name := by
  unfold SameContent content at same
  rw [found, found'] at same
  exact congrArg Content.kind (Option.some.inj same)

theorem SameContent.sameLine {o o' : Operation} (same : SameContent t t' i i')
    (found : t.get? i = some o) (found' : t'.get? i' = some o') : SameLine t t' i i' := by
  unfold SameContent content at same
  unfold SameLine header
  rw [found, found'] at same ⊢
  exact Operation.header_eq_of_content (Option.some.inj same)

/-- Every path leads to the same content from operations that are congruent for it. -/
theorem contentAt_of_congruent (congruent : Congruent t t' (SameContent t t') i i')
    (path : List SlotPosition) : t.contentAt i path = t'.contentAt i' path := by
  induction path generalizing i i' with
  | nil =>
    obtain ⟨o, o', _, _, same, _⟩ := congruent.exists_slots
    exact same
  | cons position path ih =>
    obtain ⟨o, o', found, found', _, slots⟩ := congruent.exists_slots
    rw [contentAt_cons, contentAt_cons, childAt_of_get? found, childAt_of_get? found']
    have children := SlotsAlike.childAt slots position
    generalize o.kind.childAt position = child at children ⊢
    generalize o'.kind.childAt position = child' at children ⊢
    cases children with
    | none => rfl
    | some congruent => exact ih congruent

/-- Operations from which every path leads to the same content are congruent for it. -/
theorem congruent_of_contentAt (compact : t.Compact) (compact' : t'.Compact) (inside : i < t.size)
    (inside' : i' < t'.size) (same : ∀ path, t.contentAt i path = t'.contentAt i' path) :
    Congruent t t' (SameContent t t') i i' := by
  induction i using Nat.strongRecOn generalizing i' with
  | ind i ih =>
    obtain ⟨o, found⟩ : ∃ o, t.get? i = some o := ⟨_, Array.getElem?_eq_getElem inside⟩
    obtain ⟨o', found'⟩ : ∃ o', t'.get? i' = some o' := ⟨_, Array.getElem?_eq_getElem inside'⟩
    have own : SameContent t t' i i' := same []
    refine .node found found' own (slotsAlike_of_childAt (own.name_eq found found') fun position => ?_)
      fun _ _ congruent => congruent
    have below (path : List SlotPosition) := same (position :: path)
    simp only [contentAt_cons, childAt_of_get? found, childAt_of_get? found'] at below
    have known {child : OperationId} (stored : o.kind.childAt position = some child) :
        child ∈ t.childrenOf i :=
      mem_childrenOf_iff_childAt.mpr ⟨position, (childAt_of_get? found position).trans stored⟩
    have known' {child : OperationId} (stored : o'.kind.childAt position = some child) :
        child ∈ t'.childrenOf i' :=
      mem_childrenOf_iff_childAt.mpr ⟨position, (childAt_of_get? found' position).trans stored⟩
    cases stored : o.kind.childAt position with
    | none =>
      cases stored' : o'.kind.childAt position with
      | none => exact .none
      | some child' =>
        have nothing := below []
        rw [stored, stored'] at nothing
        exact absurd nothing.symm (content_ne_none (compact'.child_lt_size (known' stored')))
    | some child =>
      cases stored' : o'.kind.childAt position with
      | none =>
        have nothing := below []
        rw [stored, stored'] at nothing
        exact absurd nothing (content_ne_none (compact.child_lt_size (known stored)))
      | some child' =>
        simp only [stored, stored', Option.bind_some] at below
        exact .some (ih child (compact.before i child (known stored))
          (compact.child_lt_size (known stored)) (compact'.child_lt_size (known' stored')) below)

/-- Roots are congruent for having the same content exactly when every path leads to the same
content. -/
theorem congruent_iff_contentAt (compact : t.Compact) (compact' : t'.Compact) :
    Congruent t t' (SameContent t t') t.root t'.root ↔
      ∀ path, t.contentAt t.root path = t'.contentAt t'.root path :=
  ⟨contentAt_of_congruent,
    congruent_of_contentAt compact compact' compact.root_lt_size compact'.root_lt_size⟩

end OperationTree

/-- The same line stands for the same content if the lines of both programs can be read. -/
theorem SameLine.sameContent {t t' : OperationTree} {i i' : OperationId} {o o' : Operation}
    (readable : t.program.Unambiguous) (readable' : t'.program.Unambiguous)
    (sorted : t.WellSorted) (sorted' : t'.WellSorted)
    (same : SameLine t t' i i') (found : t.get? i = some o) (found' : t'.get? i' = some o') :
    OperationTree.SameContent t t' i i' := by
  unfold SameLine OperationTree.header at same
  unfold OperationTree.SameContent OperationTree.content
  rw [found, found'] at same ⊢
  exact congrArg some (Operation.content_eq_of_header readable readable' (sorted.valueless found)
    (sorted'.valueless found') same)

namespace Program

open OperationTree

variable {p p' : Program} {o o' : LoweringOptions} {id id' : SyntaxId} {t t' : OperationTree}

/-- Trees with the same content at every path are found equal by a comparison. Trees that are found
equal have the same content at every path, if the lines of both programs can be read. -/
theorem divergence_of_contents (built : p.tree? o id = some t) (built' : p'.tree? o' id' = some t') :
    ((∀ path, t.contentAt t.root path = t'.contentAt t'.root path) →
      (Comparison.of t t').divergence t.root t'.root = none) ∧
    (p.Unambiguous → p'.Unambiguous →
      (Comparison.of t t').divergence t.root t'.root = none →
      ∀ path, t.contentAt t.root path = t'.contentAt t'.root path) := by
  have compact := tree?_compact built
  have compact' := tree?_compact built'
  rw [divergence_eq_none_iff compact compact', ← congruent_iff_contentAt compact compact']
  refine ⟨Congruent.imp fun _ _ _ _ found found' same => same.sameLine found found', ?_⟩
  intro readable readable'
  rw [← program_of_tree? built] at readable
  rw [← program_of_tree? built'] at readable'
  refine Congruent.imp fun _ _ _ _ found found' same => ?_
  exact same.sameContent readable readable' (tree?_wellSorted built) (tree?_wellSorted built') found
    found'

/-- A sum of two numbers of a wide type, one of them converted from a narrow type. -/
def typedSum (types : TypeTable) (narrow wide : TypeId) : Program :=
  { empty "sum" with
    nodes := #[⟨.zero, .literal "1"⟩, ⟨.zero, .literal "2"⟩, ⟨.zero, .binary .add 0 1⟩]
    types
    facts := ((Std.TreeMap.empty.insert 0
      { Facts.unknown with
        type := some narrow, constant := some (.int 1)
        conversion := some ⟨.implicitNumeric, wide, true⟩ }).insert 1
      { Facts.unknown with type := some wide, constant := some (.int 2) }).insert 2
      { Facts.unknown with type := some wide } }

/-- The same sum with its types numbered in two ways. -/
theorem typedSum_contents :
    ∃ t t', (typedSum #[⟨"int", .structType⟩, ⟨"long", .structType⟩] 0 1).tree? {} 2 = some t ∧
      (typedSum #[⟨"long", .structType⟩, ⟨"T", .classType⟩, ⟨"int", .structType⟩] 2 0).tree? {} 2 =
        some t' ∧
      t.size = 4 ∧ (t.contentAt t.root [⟨0, 0⟩, ⟨0, 0⟩]).isSome = true ∧
      ∀ path, t.contentAt t.root path = t'.contentAt t'.root path := by
  obtain ⟨t, built⟩ : ∃ t,
      (typedSum #[⟨"int", .structType⟩, ⟨"long", .structType⟩] 0 1).tree? {} 2 = some t := ⟨_, rfl⟩
  obtain ⟨t', built'⟩ : ∃ t,
      (typedSum #[⟨"long", .structType⟩, ⟨"T", .classType⟩, ⟨"int", .structType⟩] 2 0).tree? {} 2 =
        some t := ⟨_, rfl⟩
  have same := (divergence_of_contents built built').2 ⟨⟨by decide, by decide⟩, by decide⟩
    ⟨⟨by decide, by decide⟩, by decide⟩
  obtain rfl := Option.some.inj built
  obtain rfl := Option.some.inj built'
  exact ⟨_, _, rfl, rfl, by cbv, by cbv, same (by cbv)⟩

/-- A number, of a type or of none. -/
def typedLiteral (types : TypeTable) (type : Option TypeId) : Program :=
  { empty "literal" with
    nodes := #[⟨.zero, .literal "1"⟩]
    types
    facts := Std.TreeMap.empty.insert 0
      { Facts.unknown with type, constant := some (.int 1) } }

/-- A comparison does not tell a type with the name that stands for a missing one from no type. -/
theorem typedLiteral_untold :
    ∃ t t', (typedLiteral #[⟨"null", .classType⟩] (some 0)).tree? {} 0 = some t ∧
      (typedLiteral #[] none).tree? {} 0 = some t' ∧
      (Comparison.of t t').divergence t.root t'.root = none ∧
      t.contentAt t.root [] ≠ t'.contentAt t'.root [] :=
  ⟨_, _, rfl, rfl, by cbv, by cbv; simp⟩

end Program

end SemanticTrees
