import SemanticTrees.Proofs.Program.Supply
import SemanticTrees.Proofs.Program.Translation

/-! Programs with renumbered tables. Types and symbols have other places, and every reference leads
to the new place; nothing that lowering looks at tells the programs apart. A program is itself with
nothing renumbered. -/
namespace SemanticTrees

/-- The form with the types that it names renumbered. -/
def Form.rename (types : TypeId → TypeId) : Form → Form
  | .memberAccess receiver name typeArguments =>
    .memberAccess receiver name (typeArguments.map types)
  | .objectCreation type arguments => .objectCreation (types type) arguments
  | .cast type operand => .cast (types type) operand
  | .localDeclaration type declarators => .localDeclaration (type.map types) declarators
  | form => form

def TypeKind.rename (types : TypeId → TypeId) : TypeKind → TypeKind
  | .pointer pointee => .pointer (types pointee)
  | .array element => .array (types element)
  | kind => kind

def TypeInfo.rename (types : TypeId → TypeId) (info : TypeInfo) : TypeInfo :=
  { info with kind := info.kind.rename types }

def Binding.rename (symbols : SymbolId → SymbolId) (binding : Binding) : Binding :=
  { binding with parameter := symbols binding.parameter }

def Resolution.rename (symbols : SymbolId → SymbolId) : Resolution → Resolution
  | .resolved member bindings => .resolved (symbols member) (bindings.map (Binding.rename symbols))
  | .lateBound candidates => .lateBound (candidates.map symbols)
  | .failed reason candidates => .failed reason (candidates.map symbols)

/-- The facts with all that they refer to renumbered. -/
def Facts.rename (types : TypeId → TypeId) (symbols : SymbolId → SymbolId) (facts : Facts) :
    Facts where
  type := facts.type.map types
  conversion := facts.conversion.map (Conversion.rename types)
  constant := facts.constant
  symbol := facts.symbol.map symbols
  resolution := facts.resolution.map (Resolution.rename symbols)

variable {types : TypeId → TypeId} {symbols : SymbolId → SymbolId} {spans : Span → Span → Prop}

open Translation

theorem rel_refl {α : Type} (a : Option α) : Option.Rel Eq a a := by
  cases a with
  | none => exact .none
  | some a => exact .some rfl

theorem Form.alike_rename (form : Form) :
    form.Alike (renumbering types symbols spans) (form.rename types) := by
  have each (ids : List SyntaxId) : List.Forall₂ Eq ids ids := List.forall₂_refl ids
  cases form with
  | goto target =>
    refine .goto ?_
    cases target with
    | label name => exact .label name
    | caseOf value => exact .caseOf rfl
    | defaultCase => exact .defaultCase
  | _ => constructor <;> first | rfl | exact each _ | exact rel_refl _

theorem Form.children_rename (form : Form) : (form.rename types).children = form.children := by
  cases form <;> rfl

theorem Resolution.alike_rename (resolution : Resolution) :
    resolution.Alike (renumbering types symbols spans) (resolution.rename symbols) := by
  cases resolution with
  | resolved member bindings =>
    refine .resolved member ?_
    rw [List.forall₂_map_right_iff]
    exact List.forall₂_same.mpr fun binding _ => ⟨rfl, rfl, rel_refl _⟩
  | lateBound candidates => exact .lateBound candidates
  | failed reason candidates => exact .failed reason candidates

namespace Program

variable {p p' : Program} {id : SyntaxId}

/-- A program is another one with its tables of types and symbols renumbered. An entry that a table
does not have is renumbered to one that the other table does not have. -/
structure Renumbered (types : TypeId → TypeId) (symbols : SymbolId → SymbolId) (p p' : Program) :
    Prop where
  form : ∀ id, p'.formOf id = (p.formOf id).map (Form.rename types)
  facts : ∀ id, p'.factsOf id = (p.factsOf id).rename types symbols
  type : ∀ type : TypeId, p'.types[types type]? = p.types[type]?.map (TypeInfo.rename types)
  symbol : ∀ symbol : SymbolId,
    p'.symbols[symbols symbol]? = p.symbols[symbol]?.map (Symbol.rename types symbols)

namespace Renumbered

variable (h : p.Renumbered types symbols p')
include h

theorem typeOf (id : SyntaxId) : p'.typeOf id = (p.typeOf id).map types :=
  congrArg Facts.type (h.facts id)

theorem constantOf (id : SyntaxId) : p'.constantOf id = p.constantOf id := by
  unfold Program.constantOf
  rw [h.facts]
  rfl

theorem symbolOf (id : SyntaxId) : p'.symbolOf id = (p.symbolOf id).map symbols :=
  congrArg Facts.symbol (h.facts id)

theorem conversionOf (id : SyntaxId) :
    p'.conversionOf id = (p.conversionOf id).map (Conversion.rename types) :=
  congrArg Facts.conversion (h.facts id)

theorem resolutionOf (id : SyntaxId) :
    p'.resolutionOf id = (p.resolutionOf id).map (Resolution.rename symbols) :=
  congrArg Facts.resolution (h.facts id)

theorem kindOf (type : TypeId) :
    p'.types.kindOf (types type) = (p.types.kindOf type).map (TypeKind.rename types) := by
  unfold TypeTable.kindOf
  rw [h.type]
  cases p.types[type]? <;> rfl

theorem isDynamic (type : TypeId) : p'.types.isDynamic (types type) = p.types.isDynamic type := by
  unfold TypeTable.isDynamic
  rw [h.kindOf]
  cases p.types.kindOf type with
  | none => rfl
  | some kind => cases kind <;> rfl

theorem isReference (type : TypeId) :
    p'.types.isReference (types type) = p.types.isReference type := by
  unfold TypeTable.isReference
  rw [h.kindOf]
  cases p.types.kindOf type with
  | none => rfl
  | some kind => cases kind <;> rfl

theorem isArray (type : TypeId) : p'.types.isArray (types type) = p.types.isArray type := by
  unfold TypeTable.isArray
  rw [h.kindOf]
  cases p.types.kindOf type with
  | none => rfl
  | some kind => cases kind <;> rfl

theorem nameOf (type : TypeId) : p'.types.nameOf (types type) = p.types.nameOf type := by
  unfold TypeTable.nameOf
  rw [h.type]
  cases p.types[type]? <;> rfl

theorem qualifiedName (symbol : SymbolId) :
    p'.qualifiedName (symbols symbol) = p.qualifiedName symbol := by
  unfold Program.qualifiedName
  rw [h.symbol]
  cases p.symbols[symbol]? with
  | none => rfl
  | some info =>
    obtain ⟨name, kind, type, containing⟩ := info
    cases containing with
    | none => rfl
    | some type => exact congrArg (· ++ "." ++ name) (h.nameOf type)

theorem hasPart : p'.HasPart = p.HasPart := by
  funext whole part
  rw [eq_iff_iff, HasPart, HasPart, mem_childrenOf_iff, mem_childrenOf_iff, h.form]
  cases p.formOf whole with
  | none => simp
  | some form => simp [Form.children_rename]

theorem isLambda : p'.IsLambda = p.IsLambda := by
  funext id
  rw [eq_iff_iff, IsLambda, IsLambda, h.form]
  cases p.formOf id with
  | none => simp
  | some form => cases form <;> simp [Form.rename]

theorem unwraps : p'.Unwraps = p.Unwraps := by
  unfold Unwraps
  congr 1
  funext id inner
  rw [h.form]
  cases p.formOf id with
  | none => simp
  | some form => cases form <;> simp [Form.rename]

theorem hasLabel (root : SyntaxId) (label : String) :
    p'.HasLabel root label ↔ p.HasLabel root label := by
  have stays : p'.StaysIn root = p.StaysIn root := by
    funext id child
    rw [StaysIn, StaysIn, h.isLambda]
    exact congrArg (· ∧ (id = root ∨ ¬p.IsLambda id)) (congrFun₂ h.hasPart id child)
  have labeled (id statement : SyntaxId) :
      p'.formOf id = some (.labeled label statement) ↔
        p.formOf id = some (.labeled label statement) := by
    rw [h.form]
    cases p.formOf id with
    | none => simp
    | some form => cases form <;> simp [Form.rename]
  simp only [HasLabel, stays, labeled]

theorem hasDynamicType : p'.HasDynamicType = p.HasDynamicType := by
  have dynamic (q : Program) (id : SyntaxId) :
      q.HasDynamicType id ↔ (q.typeOf id).any q.types.isDynamic = true := by
    simp [HasDynamicType, TypeTable.isDynamic, TypeTable.kindOf, Option.any_eq_true]
  funext id
  rw [eq_iff_iff, dynamic, dynamic, h.typeOf, Option.any_map]
  exact iff_of_eq (congrArg (Option.any · _ = true) (funext h.isDynamic))

theorem isLateTarget : p'.IsLateTarget = p.IsLateTarget := by
  funext id
  rw [eq_iff_iff, IsLateTarget, IsLateTarget, h.hasDynamicType, h.form]
  cases p.formOf id with
  | none => simp
  | some form => cases form <;> simp [Form.rename]

theorem namesType (id : SyntaxId) : p'.NamesType id ↔ p.NamesType id := by
  unfold NamesType
  rw [h.symbolOf]
  cases p.symbolOf id with
  | none => simp
  | some symbol =>
    have stored := h.symbol symbol
    cases known : p.symbols[symbol]? with
    | none => simp [stored, known]
    | some info => simp [stored, known, Symbol.rename]

/-- Nothing that lowering looks at tells renumbered programs apart. -/
theorem translates (inj : Function.Injective symbols)
    (dynamicType : p'.dynamicType = p.dynamicType.map types)
    (spanOf : ∀ id, spans (p.nodes.spanOf id) (p'.nodes.spanOf id))
    (behind : ∀ span span', spans span span' →
      spans (Span.point span.stop) (Span.point span'.stop)) :
    p.Translates (renumbering types symbols spans) p' where
  same_or_wraps same := .inl same
  same_or_computed same := .inl same
  form := by
    rintro id _ rfl
    rw [h.form]
    cases p.formOf id with
    | none => exact .none
    | some form => exact .some form.alike_rename
  symbolOf := by
    rintro id _ rfl
    exact h.symbolOf id
  conversionOf := by
    rintro id _ rfl
    exact h.conversionOf id
  resolutionOf := by
    rintro id _ rfl
    rw [h.resolutionOf]
    cases p.resolutionOf id with
    | none => exact .none
    | some resolution => exact .some resolution.alike_rename
  typeOf := by
    rintro id _ rfl
    exact h.typeOf id
  constantOf := by
    rintro id _ rfl
    exact h.constantOf id
  namesType := by
    rintro id _ rfl
    exact h.namesType id
  holdsLambda := by
    rintro id _ rfl
    rw [HoldsLambda, HoldsLambda, h.unwraps, h.isLambda]
  isLateCallee := by
    rintro id _ rfl
    rw [IsLateCallee, IsLateCallee, h.unwraps, h.isLateTarget]
  spanOf := by
    rintro id _ rfl
    exact spanOf id
  behind := behind _ _
  labelsBelow := by
    rintro body _ statements rfl _ label
    rw [mem_labelsBelow_iff, mem_labelsBelow_iff, h.hasLabel]
  symbol := h.symbol
  symbols_inj := inj
  isDynamic := h.isDynamic
  isReference := h.isReference
  isArray := h.isArray
  dynamicType := dynamicType

end Renumbered

/-- Nothing needs to be renumbered. -/
theorem renumbered_refl (p : Program) : p.Renumbered (fun type => type) (fun symbol => symbol) p where
  form id := by
    cases p.formOf id with
    | none => rfl
    | some form => cases form <;> simp [Form.rename]
  facts id := by
    obtain ⟨type, conversion, constant, symbol, resolution⟩ := p.factsOf id
    have bindings : Binding.rename (fun symbol => symbol) = fun binding => binding := rfl
    have conversions : Conversion.rename (fun type => type) = fun conversion => conversion := rfl
    have resolutions : Resolution.rename (fun symbol => symbol) = fun resolution => resolution := by
      funext resolution
      cases resolution <;> simp [Resolution.rename, bindings]
    simp [Facts.rename, conversions, resolutions]
  type type := by
    cases p.types[type]? with
    | none => rfl
    | some info =>
      obtain ⟨name, kind⟩ := info
      cases kind <;> rfl
  symbol symbol := by
    cases p.symbols[symbol]? <;> simp [Symbol.rename]

/-- Every program translates itself. -/
theorem translates_refl (p : Program) : p.Translates .identity p := by
  refine p.renumbered_refl.translates (fun _ _ same => same) ?_ (fun _ => rfl) ?_
  · exact Option.map_id_apply.symm
  · rintro span _ rfl
    rfl

end Program

section Congruence

variable {other : TypeId → TypeId} {another : SymbolId → SymbolId}

theorem Form.rename_congr {form : Form} (same : ∀ type ∈ form.typesNamed, types type = other type) :
    form.rename types = form.rename other := by
  cases form with
  | memberAccess receiver name typeArguments =>
    exact congrArg (Form.memberAccess receiver name) (List.map_congr_left same)
  | objectCreation type arguments | cast type operand =>
    rw [rename, rename, same type List.mem_cons_self]
  | localDeclaration type declarators =>
    refine congrArg (Form.localDeclaration · declarators) (Option.map_congr fun type given => ?_)
    exact same type (Option.mem_toList.mpr given)
  | _ => rfl

theorem TypeInfo.rename_congr {info : TypeInfo}
    (same : ∀ type ∈ info.kind.inner, types type = other type) :
    info.rename types = info.rename other := by
  obtain ⟨name, kind⟩ := info
  cases kind with
  | pointer inner | array inner =>
    simp only [TypeInfo.rename, TypeKind.rename, same inner rfl]
  | _ => rfl

theorem Resolution.rename_congr {resolution : Resolution}
    (same : ∀ symbol ∈ resolution.candidates, symbols symbol = another symbol)
    (bound : ∀ member bindings, resolution = .resolved member bindings →
      ∀ binding ∈ bindings, symbols binding.parameter = another binding.parameter) :
    resolution.rename symbols = resolution.rename another := by
  cases resolution with
  | resolved member bindings =>
    rw [rename, rename, same member List.mem_cons_self]
    refine congrArg _ (List.map_congr_left fun binding listed => ?_)
    rw [Binding.rename, Binding.rename, bound member bindings rfl binding listed]
  | lateBound candidates => exact congrArg _ (List.map_congr_left same)
  | failed reason candidates => exact congrArg _ (List.map_congr_left same)

end Congruence

end SemanticTrees
