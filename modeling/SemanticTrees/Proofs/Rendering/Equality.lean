import SemanticTrees.Proofs.Rendering.Congruence
import SemanticTrees.Proofs.Lowering.Matching
import SemanticTrees.Proofs.Operation.Taint

/-! Renderings of trees that correspond. When renumbered types and symbols have the same names, alike
operations have the same line, so that operations that correspond are congruent. -/
namespace SemanticTrees

variable {τ : Translation} {r : SortedRelation}

namespace OperationKind

variable {kind kind' : OperationKind}

/-- Slots correspond in order, with their names, whatever they are meant for. -/
theorem Alike.slots_any (alike : kind.Alike τ r kind') :
    SlotsAlike (fun i j => ∃ σ, r σ i j) kind.slots kind'.slots := by
  have entries : kind.slots = (kind.slots.zip kind.slotSorts).map Prod.fst :=
    (List.map_fst_zip (Nat.le_of_eq kind.length_slotSorts.symm)).symm
  rw [entries, SlotsAlike, List.forall₂_map_left_iff]
  refine alike.slots.imp ?_
  rintro ⟨⟨name, slot⟩, σ⟩ ⟨name', slot'⟩ ⟨same, related⟩
  refine ⟨same, ?_⟩
  cases related with
  | one related => exact .one (rel_imp (fun _ _ related => ⟨σ, related⟩) related)
  | many related => exact .many (related.imp fun _ _ related => ⟨σ, related⟩)

theorem Alike.children (alike : kind.Alike τ r kind') :
    List.Forall₂ (fun i j => ∃ σ, r σ i j) kind.children kind'.children :=
  List.rel_flatMap alike.slots_any fun _ _ related => related.2.children

end OperationKind

/-- After renumbering, types and symbols have the same names. -/
structure Program.NamesAlike (τ : Translation) (p p' : Program) : Prop where
  type : ∀ type, p'.types.nameOf (τ.types type) = p.types.nameOf type
  symbol : ∀ symbol, p'.qualifiedName (τ.symbols symbol) = p.qualifiedName symbol

theorem Program.NamesAlike.refl (p : Program) : NamesAlike .identity p p :=
  ⟨fun _ => rfl, fun _ => rfl⟩

theorem orNull_alike {α β : Type} {f : α → String} {g : β → String} {rename : α → β}
    (same : ∀ a, g (rename a) = f a) (a : Option α) :
    Attribute.orNull g (a.map rename) = Attribute.orNull f a := by
  cases a with
  | none => rfl
  | some a => exact same a

section Lines

variable {p p' : Program} (names : Program.NamesAlike τ p p')
include names

theorem attributes_alike {kind kind' : OperationKind} (alike : kind.Alike τ r kind') :
    p'.attributes kind' = p.attributes kind := by
  have types (types : List TypeId) :
      (types.map τ.types).map p'.types.nameOf = types.map p.types.nameOf := by
    rw [List.map_map]
    exact congrArg (List.map · types) (funext names.type)
  cases alike with
  | anonymousFunction | variableDeclarator =>
    simp only [Program.attributes, orNull_alike names.symbol]
  | dynamicMemberReference accesses =>
    simp only [Program.attributes, accesses.memberName, accesses.containingType,
      accesses.typeArguments, orNull_alike names.type, types]
  | dynamicInvocation accesses =>
    simp only [Program.attributes, Attribute.ofArguments, accesses.names, accesses.passings]
  | dynamicIndexerAccess accesses | dynamicObjectCreation accesses =>
    simp only [Program.attributes, Attribute.ofArguments, accesses.names, accesses.passings,
      accesses.containingType, orNull_alike names.type]
  | _ => first | rfl | simp only [Program.attributes, names.symbol]

/-- Alike operations have the same line when neither where they come from nor how they were written
is shown. -/
theorem header_alike {o o' : Operation} (alike : o.Alike τ r o') (isInvalid : Bool) :
    o'.header p' RenderOptions.structural isInvalid =
      o.header p RenderOptions.structural isInvalid := by
  have attributes : o'.attributesText p' = o.attributesText p := by
    rw [Operation.attributesText, Operation.attributesText, attributes_alike names alike.kind]
  have type : o'.typeText p' = o.typeText p := by
    rw [Operation.typeText, Operation.typeText, alike.type, orNull_alike names.type]
  have value : o'.valueText p' = o.valueText p := by
    rw [Operation.valueText, Operation.valueText, alike.isExpression, alike.constant, type]
  rw [Operation.header, Operation.header, alike.kind.name, attributes, value]
  rfl

end Lines

/-- Whether some entry has a property is the same for related lists. -/
theorem exists_mem_iff_of_forall₂ {α β : Type} {R : α → β → Prop} {P : α → Prop} {Q : β → Prop}
    (same : ∀ a b, R a b → (P a ↔ Q b)) {l : List α} {l' : List β} (related : List.Forall₂ R l l') :
    (∃ a ∈ l, P a) ↔ ∃ b ∈ l', Q b := by
  induction related with
  | nil => simp
  | cons first _ ih => simp [same _ _ first, ih]

namespace OperationTree

variable {t t' : OperationTree} {i i' : OperationId} {σ : OperationSort}

/-- Operations of two trees agree: they correspond, whatever is expected where they stand. -/
def Agree (τ : Translation) (t t' : OperationTree) (i i' : OperationId) : Prop :=
  ∃ σ, Corresponds τ (fun _ _ => False) t.get? t'.get? σ i i'

theorem Agree.exists_alike (agree : Agree τ t t' i i') :
    ∃ o o' r, t.get? i = some o ∧ t'.get? i' = some o' ∧ o.Alike τ r o' := by
  obtain ⟨σ, related⟩ := agree
  cases related with
  | node found found' _ alike => exact ⟨_, _, _, found, found', alike⟩
  | cut _ _ _ _ never => exact never.elim

/-- Something that is invalid by itself is below both of two operations that agree, or below
neither. -/
theorem tainted_iff_of_corresponds
    (related : Corresponds τ (fun _ _ => False) t.get? t'.get? σ i i') :
    t.Tainted (fun m => t.isSelfInvalid m = true) i ↔
      t'.Tainted (fun m => t'.isSelfInvalid m = true) i' := by
  induction related with
  | cut _ _ _ _ never => exact never.elim
  | @node σ i i' o o' r found found' _ alike _ ih =>
    rw [tainted_iff, tainted_iff, childrenOf, childrenOf, isSelfInvalid, isSelfInvalid, found,
      found']
    refine or_congr ?_ (exists_mem_iff_of_forall₂ ?_ alike.kind.children)
    · simp [alike.isSelfInvalid]
    · rintro j j' ⟨ρ, related⟩
      exact ih ρ j j' related

section Renderings

variable (names : t.program.NamesAlike τ t'.program) (compact : t.Compact) (compact' : t'.Compact)
include names compact compact'

theorem Agree.header (agree : Agree τ t t' i i') :
    t'.header RenderOptions.structural t'.structuralTaint i' =
      t.header RenderOptions.structural t.structuralTaint i := by
  have taint : t'.structuralTaint.getD i' false = t.structuralTaint.getD i false := by
    obtain ⟨σ, related⟩ := agree
    rw [Bool.eq_iff_iff, structuralTaint_iff compact, structuralTaint_iff compact',
      tainted_iff_of_corresponds related]
  obtain ⟨o, o', r, found, found', alike⟩ := agree.exists_alike
  rw [OperationTree.header, OperationTree.header, found, found', taint]
  exact header_alike names alike _

theorem Agree.congruent (agree : Agree τ t t' i i') : Congruent t t' (SameLine t t') i i' := by
  obtain ⟨σ, related⟩ := agree
  have whole := related
  induction related with
  | cut _ _ _ _ never => exact never.elim
  | @node σ i i' o o' r found found' _ alike below ih =>
    refine .node found found' (Agree.header names compact compact' ⟨σ, whole⟩).symm
      alike.kind.slots_any ?_
    rintro j j' ⟨ρ, related⟩
    exact ih ρ j j' related (below ρ j j' related)

/-- Comparing operations that agree finds no divergence. -/
theorem Agree.divergence_eq_none (agree : Agree τ t t' i i') :
    (Comparison.of t t').divergence i i' = none := by
  obtain ⟨_, _, _, found, found', _⟩ := agree.exists_alike
  have inside : i < t.size := (Array.getElem?_eq_some_iff.mp found).1
  have inside' : i' < t'.size := (Array.getElem?_eq_some_iff.mp found').1
  rw [Comparison.divergence, Option.map_eq_none_iff]
  exact (divergenceAt_eq_none_iff compact compact' inside inside' (Nat.lt_succ_of_lt inside)).mpr
    (agree.congruent names compact compact')

/-- Trees whose roots agree have equal outlines, and comparing them finds no divergence. -/
theorem Agree.renderings (agree : Agree τ t t' t.root t'.root) :
    t'.outline RenderOptions.structural t'.structuralTaint =
        t.outline RenderOptions.structural t.structuralTaint ∧
      (Comparison.of t t').divergence t.root t'.root = none :=
  ⟨(agree.congruent names compact compact').outline,
    agree.divergence_eq_none names compact compact'⟩

end Renderings

end OperationTree

namespace Program

variable {p p' : Program} {o o' : LoweringOptions} {id id' : SyntaxId} {σ : OperationSort}

/-- Coupled roots have trees on both sides or on neither, with equal outlines and without
divergence. -/
theorem tree?_renderings (names : NamesAlike τ p p')
    (coupled : (Coupling.uncut τ).Couples ⟨.empty, .empty⟩ ((p.rootContext o id).lowerRoot id)
      ((p'.rootContext o' id').lowerRoot id') ((Coupling.uncut τ).link? σ)) :
    Option.Rel (fun t t' =>
      t'.outline RenderOptions.structural t'.structuralTaint =
          t.outline RenderOptions.structural t.structuralTaint ∧
        (Comparison.of t t').divergence t.root t'.root = none)
      (p.tree? o id) (p'.tree? o' id') := by
  refine rel_imp_of_mem (fun t built t' built' related => ?_) (tree?_uncut coupled)
  refine OperationTree.Agree.renderings ?_ (tree?_compact built) (tree?_compact built')
    ⟨_, related⟩
  rw [program_of_tree? built, program_of_tree? built']
  exact names

end Program

end SemanticTrees
