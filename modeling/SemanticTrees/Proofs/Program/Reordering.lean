import SemanticTrees.Proofs.Program.Renumbering

/-! Programs with their tables in another order. The entries of one program stand at other places in
the tables of another one, which may have more of them. A valid program refers to its entries only,
so the new places may be continued behind the tables, and the program is renumbered. -/
namespace SemanticTrees

section Ranges

variable {p : Program} {types other : TypeId → TypeId} {symbols another : SymbolId → SymbolId}
  (sameTypes : ∀ type < p.types.size, types type = other type)
  (sameSymbols : ∀ symbol < p.symbols.size, symbols symbol = another symbol)
include sameTypes sameSymbols

theorem Facts.rename_congr {facts : Facts} (range : p.FactsInRange facts) :
    facts.rename types symbols = facts.rename other another := by
  have type : facts.type.map types = facts.type.map other :=
    Option.map_congr fun type given => sameTypes type (range.type type given)
  have conversion : facts.conversion.map (Conversion.rename types) =
      facts.conversion.map (Conversion.rename other) := by
    refine Option.map_congr fun conversion given => ?_
    rw [Conversion.rename, Conversion.rename, sameTypes _ (range.target conversion given)]
  have symbol : facts.symbol.map symbols = facts.symbol.map another :=
    Option.map_congr fun symbol given => sameSymbols symbol (range.symbol symbol given)
  have resolution : facts.resolution.map (Resolution.rename symbols) =
      facts.resolution.map (Resolution.rename another) := by
    refine Option.map_congr fun resolution given => Resolution.rename_congr ?_ ?_
    · exact fun symbol listed => sameSymbols symbol (range.candidate resolution given symbol listed)
    · rintro member bindings rfl binding listed
      exact sameSymbols _ (range.binding member bindings given binding listed).1
  rw [Facts.rename, Facts.rename, type, conversion, symbol, resolution]

theorem Symbol.rename_congr {symbol : Symbol} (range : p.SymbolInRange symbol) :
    symbol.rename types symbols = symbol.rename other another := by
  have type : symbol.type.map types = symbol.type.map other :=
    Option.map_congr fun type given => sameTypes type (range.type type given)
  have containing : symbol.containingType.map types = symbol.containingType.map other :=
    Option.map_congr fun type given => sameTypes type (range.containingType type given)
  have parameters : symbol.parameters.map symbols = symbol.parameters.map another :=
    List.map_congr_left fun parameter listed => sameSymbols _ (range.parameter parameter listed)
  rw [Symbol.rename, Symbol.rename, type, containing, parameters]

end Ranges

namespace Program

/-- New places for the entries of a table, continued behind the table. -/
def continued (places : Nat → Nat) (size size' : Nat) (i : Nat) : Nat :=
  if i < size then places i else size' + i

/-- One program is another one with its tables of types and symbols permuted and extended, and all
references renumbered; no dynamic type is added. Spans, the source text, the name of the file and
the diagnostics do not matter. -/
structure Reorders (types : TypeId → TypeId) (symbols : SymbolId → SymbolId) (p p' : Program) :
    Prop where
  symbols_inj : ∀ a < p.symbols.size, ∀ b < p.symbols.size, symbols a = symbols b → a = b
  form : ∀ id, p'.formOf id = (p.formOf id).map (Form.rename types)
  facts : ∀ id, p'.factsOf id = (p.factsOf id).rename types symbols
  type : ∀ {type info}, p.types[type]? = some info →
    p'.types[types type]? = some (info.rename types)
  symbol : ∀ {symbol info}, p.symbols[symbol]? = some info →
    p'.symbols[symbols symbol]? = some (info.rename types symbols)
  added : ∀ type, p'.types.isDynamic type = true → ∃ old < p.types.size, types old = type

variable {p p' : Program} {types : TypeId → TypeId} {symbols : SymbolId → SymbolId}

theorem isDynamic_of_dynamicType {type : TypeId} (known : p.dynamicType = some type) :
    p.types.isDynamic type = true := by
  obtain ⟨inside, dynamic, _⟩ := Array.findIdx?_eq_some_iff_getElem.mp known
  unfold TypeTable.isDynamic TypeTable.kindOf
  rw [Array.getElem?_eq_getElem inside]
  simpa using dynamic

theorem isDynamic_of_no_dynamicType (missing : p.dynamicType = none) (type : TypeId) :
    p.types.isDynamic type = false := by
  unfold TypeTable.isDynamic TypeTable.kindOf
  cases known : p.types[type]? with
  | none => rfl
  | some info =>
    have other := Array.findIdx?_eq_none_iff.mp missing info (Array.mem_of_getElem? known)
    simpa using other

namespace Reorders

variable (h : p.Reorders types symbols p')
include h

/-- Continued behind the tables, the new places renumber the program. -/
theorem renumbered (sound : p.WellFormed) :
    p.Renumbered (continued types p.types.size p'.types.size)
      (continued symbols p.symbols.size p'.symbols.size) p' := by
  have sameTypes (type : TypeId) (inside : type < p.types.size) :
      types type = continued types p.types.size p'.types.size type :=
    (if_pos inside).symm
  have sameSymbols (symbol : SymbolId) (inside : symbol < p.symbols.size) :
      symbols symbol = continued symbols p.symbols.size p'.symbols.size symbol :=
    (if_pos inside).symm
  constructor
  · intro id
    rw [h.form]
    refine Option.map_congr fun form known => Form.rename_congr fun type listed => ?_
    exact sameTypes type (sound.supplies.typeNamed id form known type listed)
  · intro id
    rw [h.facts]
    exact Facts.rename_congr sameTypes sameSymbols (sound.factsInRange id)
  · intro type
    by_cases inside : type < p.types.size
    · obtain ⟨info, known⟩ : ∃ info, p.types[type]? = some info :=
        ⟨_, Array.getElem?_eq_getElem inside⟩
      rw [continued, if_pos inside, h.type known, known]
      refine congrArg some (TypeInfo.rename_congr fun inner given => ?_)
      exact sameTypes inner (sound.type type info known inner given)
    · rw [continued, if_neg inside, Array.getElem?_eq_none (by omega),
        Array.getElem?_eq_none (Nat.le_of_not_lt inside)]
      rfl
  · intro symbol
    by_cases inside : symbol < p.symbols.size
    · obtain ⟨info, known⟩ : ∃ info, p.symbols[symbol]? = some info :=
        ⟨_, Array.getElem?_eq_getElem inside⟩
      rw [continued, if_pos inside, h.symbol known, known]
      exact congrArg some
        (Symbol.rename_congr sameTypes sameSymbols (sound.symbol symbol info known))
    · rw [continued, if_neg inside, Array.getElem?_eq_none (by omega),
        Array.getElem?_eq_none (Nat.le_of_not_lt inside)]
      rfl

theorem injective : Function.Injective (continued symbols p.symbols.size p'.symbols.size) := by
  have bound {symbol : SymbolId} (inside : symbol < p.symbols.size) :
      symbols symbol < p'.symbols.size := by
    have stored := h.symbol (Array.getElem?_eq_getElem inside)
    exact (Array.getElem?_eq_some_iff.mp stored).1
  intro a b same
  unfold continued at same
  by_cases first : a < p.symbols.size
  · rw [if_pos first] at same
    by_cases second : b < p.symbols.size
    · rw [if_pos second] at same
      exact h.symbols_inj a first b second same
    · rw [if_neg second] at same
      have inside := bound first
      rw [same] at inside
      exact absurd inside (Nat.not_lt.mpr (Nat.le_add_right _ _))
  · rw [if_neg first] at same
    by_cases second : b < p.symbols.size
    · rw [if_pos second] at same
      have inside := bound second
      rw [← same] at inside
      exact absurd inside (Nat.not_lt.mpr (Nat.le_add_right _ _))
    · rw [if_neg second] at same
      exact Nat.add_left_cancel same

theorem dynamicType (sound : p.WellFormed)
    (single : ∀ a b, p.types.isDynamic a = true → p.types.isDynamic b = true → a = b) :
    p'.dynamicType = p.dynamicType.map (continued types p.types.size p'.types.size) := by
  have renumbered := h.renumbered sound
  cases found' : p'.dynamicType with
  | none =>
    cases found : p.dynamicType with
    | none => rfl
    | some type =>
      have dynamic := renumbered.isDynamic type
      rw [isDynamic_of_dynamicType found, isDynamic_of_no_dynamicType found'] at dynamic
      contradiction
  | some type' =>
    have dynamic' := isDynamic_of_dynamicType found'
    obtain ⟨old, inside, rfl⟩ := h.added type' dynamic'
    have place : continued types p.types.size p'.types.size old = types old := if_pos inside
    have dynamic : p.types.isDynamic old = true := by
      rw [← renumbered.isDynamic, place]
      exact dynamic'
    cases found : p.dynamicType with
    | none =>
      rw [isDynamic_of_no_dynamicType found] at dynamic
      contradiction
    | some type =>
      obtain rfl := single type old (isDynamic_of_dynamicType found) dynamic
      exact congrArg some place.symm

/-- Nothing that lowering looks at tells the programs apart. -/
theorem translates (sound : p.WellFormed)
    (single : ∀ a b, p.types.isDynamic a = true → p.types.isDynamic b = true → a = b) :
    p.Translates (.renumbering (continued types p.types.size p'.types.size)
      (continued symbols p.symbols.size p'.symbols.size) fun _ _ => True) p' :=
  (h.renumbered sound).translates h.injective (h.dynamicType sound single) (fun _ => trivial)
    fun _ _ _ => trivial

end Reorders

end Program

end SemanticTrees
