import SemanticTrees.Proofs.Program.Reordering
import SemanticTrees.Proofs.Rendering.Equality

/-! Renderings do not depend on the order of tables. Lowering a program and one that has its tables in
another order gives trees that correspond; types and symbols have the same names in both, so the
renderings are equal. -/
namespace SemanticTrees.Program

variable {p p' : Program} {types : TypeId → TypeId} {symbols : SymbolId → SymbolId}

theorem Renumbered.namesAlike (h : p.Renumbered types symbols p') {spans : Span → Span → Prop} :
    NamesAlike (.renumbering types symbols spans) p p' :=
  ⟨h.nameOf, h.qualifiedName⟩

/-- A valid program with at most one dynamic type and a program that has its tables in another order
and with more entries, wherever its nodes stand in the source and whatever was reported, have trees
for the same roots, with equal outlines and without divergence. -/
theorem tree?_reordered (valid : p.validate = .ok ()) (reordered : p.Reorders types symbols p')
    (single : ∀ a b, p.types.isDynamic a = true → p.types.isDynamic b = true → a = b)
    (o : LoweringOptions) (id : SyntaxId) :
    Option.Rel (fun t t' =>
      t'.outline RenderOptions.structural t'.structuralTaint =
          t.outline RenderOptions.structural t.structuralTaint ∧
        (Comparison.of t t').divergence t.root t'.root = none)
      (p.tree? o id) (p'.tree? o id) := by
  have sound := fault?_eq_none_iff.mp (validate_eq_ok_iff.mp valid)
  have translates := reordered.translates sound single
  have scopes : (p.rootScope id).Alike (p'.rootScope id) :=
    ⟨rfl, fun label => by
      rw [rootScope, rootScope, mem_labelsBelow_iff, mem_labelsBelow_iff,
        (reordered.renumbered sound).hasLabel]⟩
  exact tree?_renderings (reordered.renumbered sound).namesAlike
    (lowerRoot_couples_of_same translates rfl rfl rfl (fun same => same) scopes rfl)

/-- A member of a variable of dynamic type, cast to a class. -/
def dynamicCast : Program :=
  { empty "cast" with
    nodes := #[⟨.zero, .identifier "d"⟩, ⟨.zero, .memberAccess 0 "Run" [1]⟩, ⟨.zero, .cast 2 1⟩]
    types := #[⟨"dynamic", .dynamic⟩, ⟨"int", .structType⟩, ⟨"C", .classType⟩]
    symbols := #[.plain "d" .localVariable (some 0)]
    facts := Std.TreeMap.empty.insert 0
      { Facts.unknown with type := some 0, symbol := some 0 } }

/-- The same with its types in reverse order and behind another one, and with another symbol. -/
def reversedCast : Program :=
  { empty "reversed" with
    sourceText := some "(C) d.Run<int>"
    nodes := #[⟨⟨4, 5⟩, .identifier "d"⟩, ⟨⟨4, 14⟩, .memberAccess 0 "Run" [2]⟩,
      ⟨⟨0, 14⟩, .cast 1 1⟩]
    types := #[⟨"D", .enumType⟩, ⟨"C", .classType⟩, ⟨"int", .structType⟩, ⟨"dynamic", .dynamic⟩]
    symbols := #[.plain "e" .field none, .plain "d" .localVariable (some 3)]
    facts := Std.TreeMap.empty.insert 0
      { Facts.unknown with type := some 3, symbol := some 1 } }

theorem dynamicCast_reorders :
    dynamicCast.Reorders (fun type => 3 - type) (fun symbol => symbol + 1) reversedCast where
  symbols_inj := by
    intro a _ b _ same
    exact Nat.succ.inj same
  form
    | 0 | 1 | 2 => rfl
    | _ + 3 => rfl
  facts id := by
    simp only [factsOf, dynamicCast, reversedCast, Std.TreeMap.getD_insert]
    split <;> rfl
  type := by
    rintro (_ | _ | _ | type) info known
    · obtain rfl := Option.some.inj known
      rfl
    · obtain rfl := Option.some.inj known
      rfl
    · obtain rfl := Option.some.inj known
      rfl
    · simp [dynamicCast] at known
  symbol := by
    rintro (_ | symbol) info known
    · obtain rfl := Option.some.inj known
      rfl
    · simp [dynamicCast] at known
  added := by
    rintro (_ | _ | _ | _ | type) dynamic
    · contradiction
    · contradiction
    · contradiction
    · exact ⟨0, by decide, rfl⟩
    · contradiction

theorem dynamicCast_single (type : TypeId) (dynamic : dynamicCast.types.isDynamic type = true) :
    type = 0 := by
  obtain _ | _ | _ | type := type
  · rfl
  · contradiction
  · contradiction
  · contradiction

theorem dynamicCast_reordered :
    ∃ t t', dynamicCast.tree? {} 2 = some t ∧ reversedCast.tree? {} 2 = some t' ∧ t.size = 3 ∧
      t'.outline RenderOptions.structural t'.structuralTaint =
        t.outline RenderOptions.structural t.structuralTaint ∧
      (Comparison.of t t').divergence t.root t'.root = none := by
  have equal : Option.Rel _ (some _) (some _) :=
    tree?_reordered (show dynamicCast.validate = .ok () from rfl) dynamicCast_reorders
      (fun a b first second =>
        (dynamicCast_single a first).trans (dynamicCast_single b second).symm) {} 2
  cases equal with
  | some equal => exact ⟨_, _, rfl, rfl, by cbv, equal⟩

end SemanticTrees.Program
