import SemanticTrees.Proofs.Rendering.Printable

/-! Values of attributes. A value that holds words of the source is quoted and ends where it says so;
the other values are made of names of types and symbols, and are as well-behaved as these. -/
namespace SemanticTrees

/-- The names of types and symbols of a program have a property. -/
structure Program.EachName (p : Program) (P : String → Prop) : Prop where
  types : ∀ type ∈ p.types, P type.name
  symbols : ∀ symbol ∈ p.symbols, P symbol.name

/-- A property of names that words of letters have, and that is kept when names are put together. -/
structure Composable (P : String → Prop) : Prop where
  word : ∀ text, Alphabetic text → P text
  unknown : P "?"
  qualified : ∀ type name, P type → P name → P (type ++ "." ++ name)
  bracketed : ∀ names, (∀ name ∈ names, P name) → P (Attribute.bracketed names)

namespace Program.EachName

variable {p : Program} {P : String → Prop} (names : p.EachName P) (composable : Composable P)
include names composable

theorem nameOf (type : TypeId) : P (p.types.nameOf type) := by
  unfold TypeTable.nameOf
  cases found : p.types[type]? with
  | none => exact composable.unknown
  | some info => exact names.types info (Array.mem_of_getElem? found)

theorem qualifiedName (symbol : SymbolId) : P (p.qualifiedName symbol) := by
  unfold Program.qualifiedName
  cases found : p.symbols[symbol]? with
  | none => exact composable.unknown
  | some s =>
    have own := names.symbols s (Array.mem_of_getElem? found)
    dsimp only
    split
    · next type _ => exact composable.qualified _ _ (names.nameOf composable type) own
    · exact own

end Program.EachName

theorem Composable.orNull {P : String → Prop} (composable : Composable P) {α : Type}
    {name : α → String} (each : ∀ a, P (name a)) (a : Option α) :
    P (Attribute.orNull name a) := by
  cases a with
  | none => exact composable.word "null" (by decide)
  | some a => exact each a

namespace Attribute

/-! ### Quoted values -/

/-- A word of letters, or a quoted text. -/
inductive Element : List Char → Prop
  | word {text : List Char} (some : text ≠ []) (letters : ∀ c ∈ text, c.isAlpha = true) :
      Element text
  | quoted (text : List Char) : Element ('"' :: Text.quoted text ++ ['"'])

/-- An element, or some of them in brackets. -/
inductive Coded : List Char → Prop
  | element {text : List Char} (element : Element text) : Coded text
  | list {elements : List (List Char)} (each : ∀ element ∈ elements, Element element) :
      Coded ('[' :: [',', ' '].intercalate elements ++ [']'])

/-- The labels of the values that hold words of the source. -/
def codedLabels : List String := ["MemberName", "Label", "ArgumentNames", "ArgumentRefKinds"]

/-- A value is coded when its label says so, and has the property of names otherwise. -/
def Legible (P : String → Prop) (a : Attribute) : Prop :=
  if a.label ∈ codedLabels then Coded a.value.toList else P a.value

theorem element_word {text : String} (word : Alphabetic text) : Element text.toList :=
  .word (by simpa using word.1) word.2

theorem element_quoted (text : String) : Element (quoted text).toList := by
  rw [Attribute.quoted, String.toList_ofList]
  exact .quoted text.toList

theorem element_orNull_quoted (text : Option String) : Element (orNull quoted text).toList := by
  cases text with
  | none => exact element_word (by decide)
  | some text => exact element_quoted text

theorem coded_bracketed {values : List String} (each : ∀ value ∈ values, Element value.toList) :
    Coded (bracketed values).toList := by
  simp only [bracketed, String.toList_append, String.toList_intercalate]
  refine .list ?_
  simpa using each

end Attribute

namespace Program

open Attribute

variable {p : Program} {P : String → Prop}

theorem legible_of_arguments (access : DynamicAccess) :
    ∀ a ∈ ofArguments access, a.Legible P := by
  have names : Coded (bracketed (access.names.map (orNull Attribute.quoted))).toList := by
    refine coded_bracketed ?_
    simpa using fun name _ => element_orNull_quoted name
  have passings : Coded (bracketed (access.passings.map Passing.name)).toList := by
    refine coded_bracketed ?_
    rintro _ listed
    obtain ⟨passing, _, rfl⟩ := List.mem_map.mp listed
    cases passing <;> exact element_word (by decide)
  intro a listed
  simp only [ofArguments, List.mem_cons, List.not_mem_nil, or_false] at listed
  obtain rfl | rfl := listed
  · exact names
  · exact passings

/-- The attributes of an operation are legible for every property that the names have. -/
theorem EachName.legible (names : p.EachName P) (composable : Composable P) (kind : OperationKind) :
    ∀ a ∈ p.attributes kind, a.Legible P := by
  have symbol (symbol : SymbolId) : P (p.qualifiedName symbol) := names.qualifiedName composable symbol
  have declared (symbol : Option SymbolId) : P (orNull p.qualifiedName symbol) :=
    composable.orNull (names.qualifiedName composable) symbol
  have containing (type : Option TypeId) : P (orNull p.types.nameOf type) :=
    composable.orNull (names.nameOf composable) type
  have types (types : List TypeId) : P (bracketed (types.map p.types.nameOf)) := by
    refine composable.bracketed _ ?_
    simpa using fun type _ => names.nameOf composable type
  have truth (b : Bool) : P (truth b) := by
    cases b <;> exact composable.word _ (by decide)
  have conversion (kind : ConversionKind) : P kind.name := by
    cases kind <;> exact composable.word _ (by decide)
  have argument (kind : ArgumentKind) : P kind.name := by
    cases kind <;> exact composable.word _ (by decide)
  have binary (operator : BinaryOperator) : P operator.name := by
    cases operator <;> exact composable.word _ (by decide)
  have unary (operator : UnaryOperator) : P operator.name := by
    cases operator <;> exact composable.word _ (by decide)
  have branch (kind : BranchKind) : P kind.name := by
    cases kind <;> exact composable.word _ (by decide)
  have label (text : String) : Coded (Attribute.quoted text).toList := .element (element_quoted text)
  have target (text : Option String) : Coded (orNull Attribute.quoted text).toList :=
    .element (element_orNull_quoted text)
  cases kind with
  | dynamicInvocation access => exact legible_of_arguments access
  | dynamicIndexerAccess access | dynamicObjectCreation access =>
    refine List.forall_mem_cons.mpr ⟨?_, legible_of_arguments access⟩
    exact containing access.containingType
  | _ => simp [Program.attributes, Legible, codedLabels, *]

end Program

end SemanticTrees
