import SemanticTrees.Proofs.Lowering.Parentheses
import SemanticTrees.Proofs.Rendering.Equality

/-! Renderings do not show parentheses. An expression in parentheses is rendered as the expression,
wherever it stands but for members and names that are called: their receivers are only found when
nothing stands around them. -/
namespace SemanticTrees.Program

variable {p p' : Program} {inner outer root : SyntaxId}

theorem Parenthesizes.namesAlike (h : p.Parenthesizes inner outer p') :
    NamesAlike (.parenthesizing p inner outer) p p' := by
  constructor
  · intro type
    rw [h.types]
    rfl
  · intro symbol
    rw [qualifiedName, qualifiedName, h.symbols, h.types]
    rfl

/-- A program and one that has more parentheses have trees for the same roots, with equal outlines
and without divergence, when neither lowering runs out of levels. -/
theorem tree?_parenthesized (h : p.Parenthesizes inner outer p') (o : LoweringOptions)
    (elsewhere : root ≠ outer)
    (unreached : ∀ visit, p.Visits o root visit → visit.depth ≠ 0)
    (unreached' : ∀ visit, p'.Visits o root visit → visit.depth ≠ 0) :
    Option.Rel (fun t t' =>
      t'.outline RenderOptions.structural t'.structuralTaint =
          t.outline RenderOptions.structural t.structuralTaint ∧
        (Comparison.of t t').divergence t.root t'.root = none)
      (p.tree? o root) (p'.tree? o root) :=
  tree?_renderings h.namesAlike (h.lowerRoot_couples o unreached unreached' elsewhere)

/-- A sum of two numbers, one of which is converted. -/
def convertedSum : Program :=
  { empty "sum" with
    nodes := #[⟨.zero, .literal "1"⟩, ⟨.zero, .literal "2"⟩, ⟨.zero, .binary .add 0 1⟩]
    types := #[⟨"int", .structType⟩, ⟨"long", .structType⟩]
    facts := Std.TreeMap.empty.insert 1
      { Facts.unknown with
        type := some 0
        constant := some (.int 2)
        conversion := some ⟨.implicitNumeric, 1, true⟩ } }

/-- The same sum with the converted number in parentheses. -/
def parenthesizedSum : Program :=
  { convertedSum with
    nodes := #[⟨.zero, .literal "1"⟩, ⟨.zero, .literal "2"⟩, ⟨.zero, .binary .add 0 3⟩,
      ⟨.zero, .parenthesized 1⟩]
    facts := convertedSum.facts.insert 3
      { Facts.unknown with type := some 0, constant := some (.int 2) } }

theorem convertedSum_parenthesizes : convertedSum.Parenthesizes 1 3 parenthesizedSum where
  expression := ⟨_, rfl, rfl⟩
  value := by
    rintro ⟨symbol, info, named, _⟩
    contradiction
  fresh := rfl
  parenthesized := rfl
  outside := rfl
  form
    | 0, _ => .some (.literal "1")
    | 1, _ => .some (.literal "2")
    | 2, _ => .some (.binary .add (.inl ⟨rfl, by decide⟩) (.inr ⟨rfl, rfl⟩))
    | 3, apart => absurd rfl apart
    | _ + 4, _ => .none
  facts id apart := by
    have unresolved : convertedSum.resolutionOf id = none := by
      simp only [resolutionOf, factsOf, convertedSum, Std.TreeMap.getD_insert]
      split <;> rfl
    refine ⟨convertedSum.resolutionOf id, ?_, ?_⟩
    · rw [unresolved]
      exact .none
    · have other : compare 3 id ≠ .eq := fun same => apart (compare_eq_iff_eq.mp same).symm
      exact Std.TreeMap.getD_insert.trans (if_neg other)
  types := rfl
  symbols := rfl

theorem convertedSum_parenthesized :
    ∃ t t', convertedSum.tree? { maxDepth := 3 } 2 = some t ∧
      parenthesizedSum.tree? { maxDepth := 3 } 2 = some t' ∧ t.size = 4 ∧
      t'.outline RenderOptions.structural t'.structuralTaint =
        t.outline RenderOptions.structural t.structuralTaint ∧
      (Comparison.of t t').divergence t.root t'.root = none := by
  have equal : Option.Rel _ (some _) (some _) :=
    tree?_parenthesized convertedSum_parenthesizes { maxDepth := 3 } (show 2 ≠ 3 by decide)
      (fun _ visited => visited.depth_ne_zero_of_levels
        [(.expression, 2, 3), (.expression, 0, 2), (.expression, 1, 2)]
        (by decide) (by decide) (by decide))
      (fun _ visited => visited.depth_ne_zero_of_levels
        [(.expression, 2, 3), (.expression, 0, 2), (.expression, 3, 2), (.expression, 1, 1)]
        (by decide) (by decide) (by decide))
  cases equal with
  | some equal => exact ⟨_, _, rfl, rfl, by cbv, equal⟩

/-- A call of a method of a variable. -/
def memberCall : Program :=
  { empty "call" with
    nodes := #[⟨.zero, .identifier "a"⟩, ⟨.zero, .memberAccess 0 "M" []⟩, ⟨.zero, .invocation 1 []⟩]
    types := #[⟨"C", .classType⟩]
    symbols := #[.plain "a" .localVariable (some 0),
      { Symbol.plain "M" .method none with containingType := some 0 }]
    facts := Std.TreeMap.ofList
      [(0, { Facts.unknown with type := some 0, symbol := some 0 }),
        (1, { Facts.unknown with symbol := some 1 }),
        (2, { Facts.unknown with resolution := some (.resolved 1 []) })] }

/-- The same call with the member in parentheses. -/
def parenthesizedCall : Program :=
  { memberCall with
    nodes := #[⟨.zero, .identifier "a"⟩, ⟨.zero, .memberAccess 0 "M" []⟩,
      ⟨.zero, .invocation 3 []⟩, ⟨.zero, .parenthesized 1⟩] }

/-- The receiver of a member that is called in parentheses is the member itself. -/
theorem memberCall_diverges :
    ∃ t t', memberCall.tree? {} 2 = some t ∧ parenthesizedCall.tree? {} 2 = some t' ∧
      (Comparison.of t t').divergence t.root t'.root ≠ none :=
  ⟨_, _, rfl, rfl, by cbv; simp⟩

end SemanticTrees.Program
