import SemanticTrees.Proofs.Operation.Vocabulary
import SemanticTrees.Proofs.Program.WellFormed

/-! What a program supplies. Lowering takes places of nodes, types and symbols from the forms of
nodes, from facts and from the table of symbols; a valid program supplies no others than those of
its own tables. -/
namespace SemanticTrees.Program

/-- The places that the tables of a program have. -/
def vocabulary (p : Program) : Vocabulary :=
  ⟨(· < p.nodes.size), (· < p.types.size), (· < p.symbols.size)⟩

/-- Whatever a program says about its nodes and symbols mentions only what may be mentioned. -/
structure Supplies (p : Program) (v : Vocabulary) : Prop where
  child : ∀ id form, p.formOf id = some form → ∀ child ∈ form.children, v.nodes child
  typeNamed : ∀ id form, p.formOf id = some form → ∀ type ∈ form.typesNamed, v.types type
  type : ∀ id, ∀ type ∈ p.typeOf id, v.types type
  target : ∀ id, ∀ conversion ∈ p.conversionOf id, v.types conversion.target
  symbol : ∀ id, ∀ symbol ∈ p.symbolOf id, v.symbols symbol
  candidate : ∀ id, ∀ resolution ∈ p.resolutionOf id,
    ∀ symbol ∈ resolution.candidates, v.symbols symbol
  parameter : ∀ id member bindings, p.resolutionOf id = some (.resolved member bindings) →
    ∀ binding ∈ bindings, v.symbols binding.parameter
  argument : ∀ id member bindings, p.resolutionOf id = some (.resolved member bindings) →
    ∀ binding ∈ bindings, ∀ argument ∈ binding.argument, v.nodes argument
  symbolType : ∀ (id : SymbolId) (symbol : Symbol), p.symbols[id]? = some symbol →
    ∀ type ∈ symbol.type, v.types type
  containingType : ∀ (id : SymbolId) (symbol : Symbol), p.symbols[id]? = some symbol →
    ∀ type ∈ symbol.containingType, v.types type
  listedType : ∀ type < p.types.size, v.types type

theorem supplies_all (p : Program) : p.Supplies .all := by
  constructor <;> intros <;> trivial

variable {p : Program} {id : SyntaxId}

namespace WellFormed

variable (sound : p.WellFormed)
include sound

theorem nodeInRange {form : Form} (known : p.formOf id = some form) :
    ∃ node, node.form = form ∧ p.NodeInRange node := by
  obtain ⟨node, found, rfl⟩ := Option.map_eq_some_iff.mp known
  exact ⟨node, rfl, sound.node id node found⟩

/-- What is known about a node is in range; facts that nobody recorded say nothing. -/
theorem factsInRange (id : SyntaxId) : p.FactsInRange (p.factsOf id) := by
  unfold factsOf
  rw [Std.TreeMap.getD_eq_getD_getElem?]
  cases found : p.facts[id]? with
  | none => constructor <;> simp [Facts.unknown]
  | some facts => exact (sound.facts id facts found).2

/-- A well-formed program supplies the places of its own tables. -/
theorem supplies : p.Supplies p.vocabulary where
  child := by
    intro id form known child listed
    obtain ⟨node, rfl, range⟩ := sound.nodeInRange known
    exact range.child child listed
  typeNamed := by
    intro id form known type listed
    obtain ⟨node, rfl, range⟩ := sound.nodeInRange known
    exact range.typeNamed type listed
  type id := (sound.factsInRange id).type
  target id := (sound.factsInRange id).target
  symbol id := (sound.factsInRange id).symbol
  candidate id := (sound.factsInRange id).candidate
  parameter id member bindings known binding listed :=
    ((sound.factsInRange id).binding member bindings known binding listed).1
  argument id member bindings known binding listed :=
    ((sound.factsInRange id).binding member bindings known binding listed).2
  symbolType id symbol found := (sound.symbol id symbol found).type
  containingType id symbol found := (sound.symbol id symbol found).containingType
  listedType _ inside := inside

end WellFormed

theorem supplies_of_validate (valid : p.validate = .ok ()) : p.Supplies p.vocabulary :=
  (fault?_eq_none_iff.mp (validate_eq_ok_iff.mp valid)).supplies

end SemanticTrees.Program
