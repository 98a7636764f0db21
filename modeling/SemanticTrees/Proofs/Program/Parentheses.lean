import SemanticTrees.Proofs.Program.Renumbering

/-! Programs with more parentheses. A new node stands in parentheses around an expression, wherever
the expression is part of something and is not taken apart there. Whatever is reached from part to
part in one program is reached in the other one, where a step into the parentheses comes between. -/
namespace SemanticTrees

namespace Translation

/-- A new node stands for the expression that it has in parentheses; where something is called, only
for one that is computed. -/
def parenthesizing (p : Program) (inner outer : SyntaxId) : Translation where
  same id id' := id = id' ∧ id ≠ outer
  nodes id id' := (id = id' ∧ id ≠ outer) ∨ (id = inner ∧ id' = outer)
  callees id id' := (id = id' ∧ id ≠ outer) ∨ (id = inner ∧ id' = outer ∧ p.IsComputed inner)
  types type := type
  symbols symbol := symbol
  spans _ _ := True
  nodes_of_same same := .inl same
  nodes_of_callees callees := callees.imp_right fun ⟨first, second, _⟩ => ⟨first, second⟩

end Translation

namespace Program

/-- One program has an expression in parentheses at some of the places where the other one has the
expression as it stands. The parentheses have the type and the constant of the expression, and the
programs are the same apart from that. Members and names are not put in parentheses where they are
called, nor expressions where variables are declared. -/
structure Parenthesizes (p : Program) (inner outer : SyntaxId) (p' : Program) : Prop where
  expression : ∃ form, p.formOf inner = some form ∧ form.isExpression = true
  value : ¬p.NamesType inner
  fresh : p.formOf outer = none
  parenthesized : p'.formOf outer = some (.parenthesized inner)
  outside : p'.factsOf outer =
    { Facts.unknown with type := p.typeOf inner, constant := p.constantOf inner }
  form : ∀ id ≠ outer,
    Option.Rel (Form.Alike (.parenthesizing p inner outer)) (p.formOf id) (p'.formOf id)
  facts : ∀ id ≠ outer, ∃ resolution,
    Option.Rel (Resolution.Alike (.parenthesizing p inner outer)) (p.resolutionOf id) resolution ∧
      p'.factsOf id = { p.factsOf id with resolution }
  types : p'.types = p.types
  symbols : p'.symbols = p.symbols

section Steps

open Relation

variable {p : Program} {inner outer : SyntaxId} {R R' : SyntaxId → SyntaxId → Prop}
  {hit hit' : SyntaxId → Prop} {id id' : SyntaxId}

/-- Steps from node to node go together in two programs: from the node in parentheses, the only step
of the second one leads to what is inside. -/
structure Steps (p : Program) (inner outer : SyntaxId) (R R' : SyntaxId → SyntaxId → Prop) :
    Prop where
  apart : inner ≠ outer
  down : ∀ {a b}, a ≠ outer → R a b →
    ∃ b', (Translation.parenthesizing p inner outer).nodes b b' ∧ R' a b'
  up : ∀ {a b'}, a ≠ outer → R' a b' →
    ∃ b, (Translation.parenthesizing p inner outer).nodes b b' ∧ R a b
  enter : ∀ {b'}, R' outer b' ↔ b' = inner

namespace Steps

variable (steps : Steps p inner outer R R')
  (nodes : (Translation.parenthesizing p inner outer).nodes id id')
include steps nodes

/-- A node is reached from the one that stands for it. -/
theorem home : ReflTransGen R' id' id ∧ id ≠ outer := by
  obtain ⟨rfl, apart⟩ | ⟨rfl, rfl⟩ := nodes
  · exact ⟨.refl, apart⟩
  · exact ⟨.single (steps.enter.mpr rfl), steps.apart⟩

theorem reaches {a : SyntaxId} (way : ReflTransGen R id a) : ReflTransGen R' id' a ∧ a ≠ outer := by
  induction way with
  | refl => exact steps.home nodes
  | tail _ step ih =>
    obtain ⟨way, apart⟩ := ih
    obtain ⟨b', nodes, step'⟩ := steps.down apart step
    obtain ⟨last, apart'⟩ := steps.home nodes
    exact ⟨(way.tail step').trans last, apart'⟩

theorem exists_reaches {a' : SyntaxId} (way : ReflTransGen R' id' a') :
    ∃ a, (Translation.parenthesizing p inner outer).nodes a a' ∧ ReflTransGen R id a := by
  induction way with
  | refl => exact ⟨id, nodes, .refl⟩
  | tail _ step ih =>
    obtain ⟨a, ⟨rfl, apart⟩ | ⟨rfl, rfl⟩, way⟩ := ih
    · obtain ⟨b, nodes, step'⟩ := steps.up apart step
      exact ⟨b, nodes, way.tail step'⟩
    · obtain rfl := steps.enter.mp step
      exact ⟨_, .inl ⟨rfl, steps.apart⟩, way⟩

/-- What is looked for is found in the one program when it is found in the other one. -/
theorem exists_hit_iff (hits : ∀ a ≠ outer, hit a → hit' a)
    (hits' : ∀ {a a'}, (Translation.parenthesizing p inner outer).nodes a a' → hit' a' → hit a) :
    (∃ a', ReflTransGen R' id' a' ∧ hit' a') ↔ ∃ a, ReflTransGen R id a ∧ hit a := by
  constructor
  · rintro ⟨a', way, found⟩
    obtain ⟨a, nodes, way⟩ := steps.exists_reaches nodes way
    exact ⟨a, way, hits' nodes found⟩
  · rintro ⟨a, way, found⟩
    obtain ⟨way, apart⟩ := steps.reaches nodes way
    exact ⟨a, way, hits a apart found⟩

end Steps

end Steps

namespace Parenthesizes

variable {p p' : Program} {inner outer id id' region : SyntaxId} {label : String}
  (h : p.Parenthesizes inner outer p')
include h

theorem apart : inner ≠ outer := by
  rintro rfl
  obtain ⟨form, known, _⟩ := h.expression
  simp [h.fresh] at known

theorem conversionOf_outer : p'.conversionOf outer = none := by
  rw [conversionOf, h.outside]
  rfl

section Facts

variable (nodes : (Translation.parenthesizing p inner outer).nodes id id')
include nodes

theorem typeOf : p'.typeOf id' = p.typeOf id := by
  unfold Program.typeOf
  obtain ⟨rfl, apart⟩ | ⟨rfl, rfl⟩ := nodes
  · obtain ⟨resolution, _, facts⟩ := h.facts id apart
    rw [facts]
  · rw [h.outside]
    rfl

theorem constantOf : p'.constantOf id' = p.constantOf id := by
  unfold Program.constantOf
  obtain ⟨rfl, apart⟩ | ⟨rfl, rfl⟩ := nodes
  · obtain ⟨resolution, _, facts⟩ := h.facts id apart
    rw [facts]
  · rw [h.outside]
    rfl

theorem namesType : p'.NamesType id' ↔ p.NamesType id := by
  obtain ⟨rfl, apart⟩ | ⟨rfl, rfl⟩ := nodes
  · obtain ⟨resolution, _, facts⟩ := h.facts id apart
    rw [NamesType, NamesType, h.symbols, symbolOf, symbolOf, facts]
  · refine iff_of_false ?_ h.value
    rintro ⟨symbol, info, named, _⟩
    rw [symbolOf, h.outside] at named
    contradiction

theorem hasDynamicType : p'.HasDynamicType id' ↔ p.HasDynamicType id := by
  rw [HasDynamicType, HasDynamicType, h.typeOf nodes, h.types]

end Facts

theorem steps_unwrap : Steps p inner outer
    (fun a b => p.formOf a = some (.parenthesized b))
    (fun a b => p'.formOf a = some (.parenthesized b)) where
  apart := h.apart
  down {a b} apart known := by
    have form := h.form a apart
    rw [known] at form
    generalize p'.formOf a = found at form ⊢
    cases form with
    | some alike =>
      cases alike with
      | parenthesized inners => exact ⟨_, inners, rfl⟩
  up {a b'} apart known := by
    have form := h.form a apart
    rw [known] at form
    generalize p.formOf a = found at form ⊢
    cases form with
    | some alike =>
      cases alike with
      | parenthesized inners => exact ⟨_, inners, rfl⟩
  enter := by simp [h.parenthesized, eq_comm]

theorem isLambda_iff (apart : id ≠ outer) : p'.IsLambda id ↔ p.IsLambda id := by
  have form := h.form id apart
  unfold IsLambda
  generalize p.formOf id = found at form
  generalize p'.formOf id = found' at form
  cases form with
  | none => simp
  | some alike => cases alike <;> simp

theorem not_isLambda_outer : ¬p'.IsLambda outer := by
  simp [IsLambda, h.parenthesized]

theorem isLateTarget_iff (apart : id ≠ outer) : p'.IsLateTarget id ↔ p.IsLateTarget id := by
  have form := h.form id apart
  unfold IsLateTarget
  rw [h.hasDynamicType (.inl ⟨rfl, apart⟩)]
  refine or_congr_right ?_
  generalize p.formOf id = found at form
  generalize p'.formOf id = found' at form
  cases form with
  | none => simp
  | some alike =>
    cases alike with
    | memberAccess name typeArguments receivers => simp [h.hasDynamicType receivers]
    | _ => simp

theorem isLabeled_iff (apart : id ≠ outer) :
    (∃ statement, p'.formOf id = some (.labeled label statement)) ↔
      ∃ statement, p.formOf id = some (.labeled label statement) := by
  have form := h.form id apart
  generalize p.formOf id = found at form
  generalize p'.formOf id = found' at form
  cases form with
  | none => simp
  | some alike => cases alike <;> simp

theorem steps_staysIn (region : SyntaxId) :
    Steps p inner outer (p.StaysIn region) (p'.StaysIn region) where
  apart := h.apart
  down {a b} apart step := by
    obtain ⟨part, stays⟩ := step
    obtain ⟨b', part', nodes⟩ := exists_mem_of_forall₂ (childrenOf_alike (h.form a apart)) part
    rw [← h.isLambda_iff apart] at stays
    exact ⟨b', nodes, part', stays⟩
  up {a b'} apart step := by
    obtain ⟨part', stays⟩ := step
    obtain ⟨b, part, nodes⟩ :=
      exists_mem_of_forall₂ (childrenOf_alike (h.form a apart)).flip part'
    rw [h.isLambda_iff apart] at stays
    exact ⟨b, nodes, part, stays⟩
  enter := by
    simp [StaysIn, childrenOf_of_formOf h.parenthesized, Form.children, h.not_isLambda_outer]

section Ways

variable (nodes : (Translation.parenthesizing p inner outer).nodes id id')
include nodes

theorem holdsLambda : p'.HoldsLambda id' ↔ p.HoldsLambda id := by
  refine h.steps_unwrap.exists_hit_iff nodes (fun a apart => (h.isLambda_iff apart).mpr) ?_
  rintro a _ (⟨rfl, apart⟩ | ⟨_, rfl⟩) found
  · exact (h.isLambda_iff apart).mp found
  · exact absurd found h.not_isLambda_outer

theorem isLateCallee : p'.IsLateCallee id' ↔ p.IsLateCallee id := by
  refine h.steps_unwrap.exists_hit_iff nodes (fun a apart => (h.isLateTarget_iff apart).mpr) ?_
  rintro a a' nodes found
  have dynamic := h.hasDynamicType nodes
  obtain ⟨rfl, apart⟩ | ⟨_, rfl⟩ := nodes
  · exact (h.isLateTarget_iff apart).mp found
  · obtain late | ⟨receiver, name, typeArguments, form, _⟩ := found
    · exact .inl (dynamic.mp late)
    · simp [h.parenthesized] at form

end Ways

theorem hasLabel (elsewhere : region ≠ outer) :
    p'.HasLabel region label ↔ p.HasLabel region label := by
  simp only [HasLabel, exists_and_left]
  refine (h.steps_staysIn region).exists_hit_iff (.inl ⟨rfl, elsewhere⟩)
    (fun a apart => (h.isLabeled_iff apart).mpr) ?_
  rintro a _ (⟨rfl, apart⟩ | ⟨_, rfl⟩) found
  · exact (h.isLabeled_iff apart).mp found
  · simp [h.parenthesized] at found

/-- Nothing that lowering looks at tells the programs apart. -/
theorem translates : p.Translates (.parenthesizing p inner outer) p' where
  same_or_wraps := by
    rintro id _ (same | ⟨rfl, rfl⟩)
    · exact .inl same
    · exact .inr ⟨h.expression, _, h.parenthesized⟩
  same_or_computed := by
    rintro id _ (same | ⟨rfl, rfl, computed⟩)
    · exact .inl same
    · exact .inr ⟨computed, _, h.parenthesized⟩
  form := by
    rintro id _ ⟨rfl, apart⟩
    exact h.form id apart
  symbolOf := by
    rintro id _ ⟨rfl, apart⟩
    obtain ⟨resolution, _, facts⟩ := h.facts id apart
    rw [Program.symbolOf, facts]
    exact p.renumbered_refl.symbolOf id
  conversionOf := by
    rintro id _ ⟨rfl, apart⟩
    obtain ⟨resolution, _, facts⟩ := h.facts id apart
    rw [Program.conversionOf, facts]
    exact p.renumbered_refl.conversionOf id
  resolutionOf := by
    rintro id _ ⟨rfl, apart⟩
    obtain ⟨resolution, alike, facts⟩ := h.facts id apart
    unfold Program.resolutionOf
    rw [facts]
    exact alike
  typeOf nodes := (h.typeOf nodes).trans Option.map_id_apply.symm
  constantOf := h.constantOf
  namesType := h.namesType
  holdsLambda := h.holdsLambda
  isLateCallee callees := h.isLateCallee (Translation.nodes_of_callees _ callees)
  spanOf _ := trivial
  behind _ := trivial
  labelsBelow := by
    rintro body _ statements ⟨rfl, apart⟩ _ label
    rw [mem_labelsBelow_iff, mem_labelsBelow_iff, h.hasLabel apart]
  symbol symbol := by
    rw [h.symbols]
    exact p.renumbered_refl.symbol symbol
  symbols_inj _ _ same := same
  isDynamic type := by rw [h.types]; rfl
  isReference type := by rw [h.types]; rfl
  isArray type := by rw [h.types]; rfl
  dynamicType := by
    rw [dynamicType, h.types]
    exact Option.map_id_apply.symm

end Parenthesizes

end Program

end SemanticTrees
