import SemanticTrees.Proofs.Lowering.Matching

/-! Sorts in trees. A run of lowering is coupled with itself, so every slot of a tree that is built
holds what it is meant for; what the sorts say about kinds and categories follows. -/
namespace SemanticTrees

open OperationSort

namespace OperationTree

variable {t : OperationTree} {σ : OperationSort} {i j : OperationId} {o parent child : Operation}
  {n : Nat} {name : String}

/-- An operation holds another one in the slot at a place, which has a name. -/
def Holds (t : OperationTree) (parent : Operation) (n : Nat) (name : String) (child : Operation) :
    Prop :=
  ∃ i slot j, t.get? i = some parent ∧ parent.kind.slots[n]? = some (name, slot) ∧
    j ∈ slot.children ∧ t.get? j = some child

/-- Children have the right sort. -/
structure WellSorted (t : OperationTree) : Prop where
  /-- The root is there, and is nothing that stands in slots only. -/
  top : ∃ o, t.get? t.root = some o ∧ o.kind.name ∉ ["Argument", "CaseClause", "SwitchCase"]
  present : ∀ {i o}, t.get? i = some o → ∀ j ∈ o.children, ∃ child, t.get? j = some child
  /-- Slots for expressions hold expressions, and slots for statements hold statements. -/
  categories : ∀ {parent n name child}, t.Holds parent n name child →
    ∃ σ, parent.kind.slotSorts[n]? = some σ ∧ ∀ role, σ.role? = some role → child.role = role
  arguments : ∀ {parent n name child}, t.Holds parent n name child →
    (child.kind.name = "Argument" ↔ name = "Arguments" ∧
      parent.kind.name ∈ ["Invocation", "ObjectCreation", "PropertyReference"])
  clauses : ∀ {parent n name child}, t.Holds parent n name child →
    (child.kind.name = "CaseClause" ↔ name = "Clauses")
  cases : ∀ {parent n name child}, t.Holds parent n name child →
    child.kind.name = "SwitchCase" → name = "Cases"
  /-- A group holds one declaration, and this holds declarators or placeholders. -/
  groups : ∀ {i o declarations}, t.get? i = some o →
    o.kind = .variableDeclarationGroup declarations →
      ∃ declaration d declarators, declarations = [declaration] ∧ t.get? declaration = some d ∧
        d.kind = .variableDeclaration declarators ∧ ∀ j ∈ declarators,
          ∃ entry, t.get? j = some entry ∧
            entry.kind.name ∈ ["VariableDeclarator", "InvalidStatement"]
  fixed : ∀ {i o declared body}, t.get? i = some o → o.kind = .fixedStatement declared body →
    ∃ variables', t.get? declared = some variables' ∧
      variables'.kind.name ∈ ["VariableDeclarationGroup", "InvalidStatement"]
  resources : ∀ {i o resources body}, t.get? i = some o → o.kind = .usingStatement resources body →
    ∃ held, t.get? resources = some held ∧
      (held.kind.name = "VariableDeclarationGroup" ∨ held.role = .expression)
  bodies : ∀ {i o symbol body}, t.get? i = some o → o.kind = .anonymousFunction symbol body →
    ∃ block, t.get? body = some block ∧ block.kind.name ∈ ["Block", "InvalidStatement"]
  valueless : ∀ {i o}, t.get? i = some o → o.role = .statement →
    o.type = none ∧ o.constant = none

/-- An operation stands where a sort is expected, and what is below it stands where it may stand. -/
def Sorted (t : OperationTree) (σ : OperationSort) (i : OperationId) : Prop :=
  Corresponds .identity (fun _ _ => False) t.get? t.get? σ i i

namespace Sorted

theorem exists_found (sorted : t.Sorted σ i) :
    ∃ o, t.get? i = some o ∧ o.kind.standing ∈ σ.standings := by
  obtain ⟨o, _, found, _⟩ := Corresponds.exists_found sorted
  exact ⟨o, found, admits_iff.mp (Corresponds.admits sorted found)⟩

theorem alike (sorted : t.Sorted σ i) (found : t.get? i = some o) :
    o.Alike .identity (Corresponds .identity (fun _ _ => False) t.get? t.get?) o :=
  (Corresponds.alike_or_cut sorted found found).resolve_right fun never => never

theorem childAt (sorted : t.Sorted σ i) (found : t.get? i = some o) {position : SlotPosition}
    (stored : o.kind.childAt position = some j) :
    ∃ ρ, o.kind.slotSorts[position.slot]? = some ρ ∧ t.Sorted ρ j := by
  have related := (sorted.alike found).kind.childAt position
  rw [stored] at related
  cases related with
  | some related => exact related

/-- Everything below stands where it may stand. -/
theorem below (sorted : t.Sorted σ t.root) (below : t.Below t.root i) : ∃ ρ, t.Sorted ρ i := by
  induction below with
  | refl => exact ⟨σ, sorted⟩
  | tail _ child ih =>
    obtain ⟨ρ, sorted⟩ := ih
    obtain ⟨position, stored⟩ := mem_childrenOf_iff_childAt.mp child
    obtain ⟨o, found, stored⟩ := Option.bind_eq_some_iff.mp stored
    obtain ⟨sort, _, sorted⟩ := sorted.childAt found stored
    exact ⟨sort, sorted⟩

end Sorted

/-- Every operation of a tree stands where it may stand when the root does. -/
theorem Compact.sorted (compact : t.Compact) (sorted : t.Sorted σ t.root)
    (found : t.get? i = some o) : ∃ ρ, t.Sorted ρ i :=
  sorted.below (compact.reached i (Array.getElem?_eq_some_iff.mp found).1)

theorem Compact.sort_of_holds (compact : t.Compact) (sorted : t.Sorted σ t.root)
    (holds : t.Holds parent n name child) :
    ∃ slot ρ, parent.kind.slots[n]? = some (name, slot) ∧
      parent.kind.slotSorts[n]? = some ρ ∧ ρ.admits child.kind = true := by
  obtain ⟨i, slot, j, found, entry, listed, stored⟩ := holds
  obtain ⟨place, at_⟩ := List.mem_iff_getElem?.mp listed
  obtain ⟨_, sorted⟩ := compact.sorted sorted found
  have childAt : parent.kind.childAt ⟨n, place⟩ = some j :=
    OperationKind.childAt_eq_some_iff.mpr ⟨_, entry, at_⟩
  obtain ⟨ρ, sort, sorted⟩ := sorted.childAt found childAt
  exact ⟨slot, ρ, entry, sort, Corresponds.admits sorted stored⟩

/-- A child of an operation of a known kind stands where its slot says. -/
theorem Compact.sorted_child (compact : t.Compact) (sorted : t.Sorted σ t.root)
    (found : t.get? i = some o) {kind : OperationKind} (known : o.kind = kind)
    (p : SlotPosition) (stored : kind.childAt p = some j) {ρ : OperationSort}
    (sort : kind.slotSorts[p.slot]? = some ρ) : t.Sorted ρ j := by
  subst known
  obtain ⟨_, sorted⟩ := compact.sorted sorted found
  obtain ⟨_, sort', sorted⟩ := sorted.childAt found stored
  obtain rfl := Option.some.inj (sort'.symm.trans sort)
  exact sorted

/-- What stands where a sort is expected has one of the names of the sort. -/
theorem Sorted.exists_named (sorted : t.Sorted σ i) {names : List String}
    (named : ∀ standing ∈ σ.standings, ∃ name ∈ names, standing.name? = some name) :
    ∃ o, t.get? i = some o ∧ o.kind.name ∈ names := by
  obtain ⟨o, found, listed⟩ := sorted.exists_found
  obtain ⟨name, known, standing⟩ := named _ listed
  exact ⟨o, found, OperationKind.name_of_standing standing ▸ known⟩

theorem wellSorted_of_sorted (compact : t.Compact) (sorted : t.Sorted σ t.root)
    (top : σ = .expression ∨ σ = .top) : t.WellSorted where
  top := by
    obtain ⟨o, found, listed⟩ := sorted.exists_found
    refine ⟨o, found, ?_⟩
    simp only [List.mem_cons, List.not_mem_nil, or_false, OperationKind.isArgument_iff,
      OperationKind.isClause_iff, OperationKind.isSection_iff]
    rintro (same | same | same) <;> rw [same] at listed <;>
      obtain rfl | rfl := top <;> revert listed <;> decide
  present := by
    intro i o found j listed
    obtain ⟨_, sorted⟩ := compact.sorted sorted found
    obtain ⟨position, stored⟩ := OperationKind.mem_children_iff.mp listed
    obtain ⟨_, _, sorted⟩ := sorted.childAt found stored
    obtain ⟨child, found, _⟩ := sorted.exists_found
    exact ⟨child, found⟩
  categories := by
    intro parent n name child holds
    obtain ⟨_, ρ, _, sort, admitted⟩ := compact.sort_of_holds sorted holds
    exact ⟨ρ, sort, fun role => role_of_admits admitted⟩
  arguments := by
    intro parent n name child holds
    obtain ⟨slot, ρ, stored, sort, admitted⟩ := compact.sort_of_holds sorted holds
    exact (isArgument_iff admitted).trans (OperationKind.sort_eq_argument_iff stored sort)
  clauses := by
    intro parent n name child holds
    obtain ⟨slot, ρ, stored, sort, admitted⟩ := compact.sort_of_holds sorted holds
    exact (isClause_iff admitted).trans (OperationKind.sort_eq_clause_iff stored sort)
  cases := by
    intro parent n name child holds isSection
    obtain ⟨slot, ρ, stored, sort, admitted⟩ := compact.sort_of_holds sorted holds
    have listed := admits_iff.mp admitted
    rw [OperationKind.isSection_iff.mp isSection] at listed
    exact (OperationKind.sort_eq_entry_iff stored sort).mp (section_mem_iff.mp listed)
  groups := by
    intro i o declarations found kind
    have single : declarations.length = 1 := by
      obtain ⟨_, sorted⟩ := compact.sorted sorted found
      have listed := admits_iff.mp (Corresponds.admits sorted found)
      rw [kind, OperationKind.standing_group] at listed
      split at listed
      · assumption
      · exact absurd listed misfit_not_mem
    obtain ⟨declaration, rfl⟩ := List.length_eq_one_iff.mp single
    obtain ⟨d, found', listed⟩ :=
      (compact.sorted_child sorted found kind ⟨0, 0⟩ rfl rfl).exists_found
    obtain ⟨declarators, kind'⟩ := OperationKind.exists_declarators (List.mem_singleton.mp listed)
    refine ⟨declaration, d, declarators, rfl, found', kind', fun j listed => ?_⟩
    obtain ⟨place, stored⟩ := List.mem_iff_getElem?.mp listed
    exact (compact.sorted_child sorted found' kind' ⟨0, place⟩ stored
      rfl).exists_named (by decide)
  fixed found kind :=
    (compact.sorted_child sorted found kind ⟨0, 0⟩ rfl rfl).exists_named (by decide)
  resources := by
    intro i o resources body found kind
    obtain ⟨held, found', listed⟩ :=
      (compact.sorted_child sorted found kind ⟨0, 0⟩ rfl rfl).exists_found
    refine ⟨held, found', ?_⟩
    obtain same | same : held.kind.standing = .group ∨ held.kind.standing = .value := by
      simpa [standings] using listed
    · exact .inl (OperationKind.name_of_standing (congrArg Standing.name? same))
    · exact .inr ((OperationKind.role_eq _).trans (congrArg Standing.role same))
  bodies found kind :=
    (compact.sorted_child sorted found kind ⟨0, 0⟩ rfl rfl).exists_named (by decide)
  valueless := by
    intro i o found statement
    obtain ⟨_, sorted⟩ := compact.sorted sorted found
    refine (sorted.alike found).valueless ?_
    rw [Operation.isExpression, statement]
    rfl

end OperationTree

namespace Program

variable {p : Program} {options : LoweringOptions} {id : SyntaxId} {t : OperationTree}

/-- The root of a tree stands where the form of its node says. -/
theorem tree?_sorted (built : p.tree? options id = some t) : t.Sorted (p.rootSort id) t.root := by
  have trees := tree?_uncut (lowerRoot_couples_of_same (o := options) p.translates_refl rfl rfl rfl
    (fun same => same) (p.rootScope id).alike_refl (rfl : Translation.identity.nodes id id))
  rw [built] at trees
  cases trees with
  | some sorted => exact sorted

theorem tree?_wellSorted (built : p.tree? options id = some t) : t.WellSorted := by
  have top : p.rootSort id = .expression ∨ p.rootSort id = .top := by
    rw [rootSort]
    split
    · exact .inl rfl
    · exact .inr rfl
  exact OperationTree.wellSorted_of_sorted (tree?_compact built) (tree?_sorted built) top

/-- In every tree that is built children have the right sort. The root is an expression when its
node is one, and a statement otherwise. -/
theorem build_wellSorted {request : Request} (built : p.build options request id = .ok (some t)) :
    t.WellSorted ∧ ∃ top, t.get? t.root = some top ∧
      top.role = if (p.formOf id).any Form.isExpression then .expression else .statement := by
  have built := tree?_of_build built
  have sorted := tree?_sorted built
  obtain ⟨top, found, listed⟩ := sorted.exists_found
  have shape : (p.rootSort id = .expression ∨ p.rootSort id = .top) ∧ (p.rootSort id).role? =
      some (if (p.formOf id).any Form.isExpression then .expression else .statement) := by
    rw [rootSort]
    split
    · exact ⟨.inl rfl, rfl⟩
    · exact ⟨.inr rfl, rfl⟩
  exact ⟨OperationTree.wellSorted_of_sorted (tree?_compact built) sorted shape.1, top, found,
    role_of_admits (admits_iff.mpr listed) shape.2⟩

/-- A lambda in which a fixed statement declares something that is no variable, around a switch
with a section and a statement that stands beside it. -/
def crowdedLambda : Program :=
  { empty "crowded" with
    nodes := #[⟨.zero, .literal "1"⟩, ⟨.zero, .argument none .byValue 0⟩, ⟨.zero, .identifier "f"⟩,
      ⟨.zero, .invocation 2 [1]⟩, ⟨.zero, .expressionStatement 3⟩, ⟨.zero, .caseLabel (some 0)⟩,
      ⟨.zero, .switchSection [5] [4]⟩, ⟨.zero, .switch 0 [6, 4]⟩,
      ⟨.zero, .variableDeclarator "p" none⟩, ⟨.zero, .localDeclaration none [8, 0]⟩,
      ⟨.zero, .fixed 9 7⟩, ⟨.zero, .usingResource 0 10⟩, ⟨.zero, .block [11]⟩,
      ⟨.zero, .lambda [] 12⟩]
    symbols := #[{ Symbol.plain "f" .method none with parameters := [1] },
      .plain "x" .parameter none]
    facts := Std.TreeMap.empty.insert 3
      { Facts.unknown with resolution := some (.resolved 0 [⟨1, .explicit, some 1⟩]) } }

theorem crowdedLambda_wellSorted :
    ∃ t, crowdedLambda.build {} .pending 13 = .ok (some t) ∧ t.size = 25 ∧ t.WellSorted :=
  ⟨_, rfl, by cbv,
    (build_wellSorted (show crowdedLambda.build {} .pending 13 = .ok (some _) from rfl)).1⟩

end Program

end SemanticTrees
