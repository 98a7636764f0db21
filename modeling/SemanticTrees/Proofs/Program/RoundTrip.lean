import SemanticTrees.Program.Reading
import SemanticTrees.Proofs.Json.Layout
import SemanticTrees.Proofs.Program.Codec

/-! Writing a checked program and reading the text gives the program. -/
namespace SemanticTrees

open SemanticTrees.Json SemanticTrees.Decimal

/-- A constant that is no double, or one whose text brings it back. -/
def Constant.ReadsBack (c : Constant) : Prop :=
  ∀ x, c = .float x → x.isFinite = true ∧ Json.ReadsBack x

/-- The constants that a program mentions, as defaults of parameters and as values of nodes. -/
def Program.constants (p : Program) : List Constant :=
  p.symbols.toList.filterMap Symbol.default ++
    p.facts.toList.filterMap fun (_, known) => known.constant

namespace Encoding

/-! ## Encodings that their text reproduces -/

def IsPlainName (name : String) : Prop := ∀ c ∈ name.toList, Plain c

instance (name : String) : Decidable (IsPlainName name) :=
  List.decidableBAll Plain name.toList

theorem reproducible_ofFields {fields : List (String × Value)}
    (parts : ∀ field ∈ fields, IsPlainName field.1 ∧ Reproducible field.2) :
    Reproducible (.ofFields fields) := by
  refine .object ?_ ?_ <;> simp only [List.mem_map]
  · rintro _ ⟨field, member, rfl⟩
    exact ⟨field.1, rfl, (parts field member).1⟩
  · rintro _ ⟨field, member, rfl⟩
    exact (parts field member).2

theorem reproducible_carrying {name : String} {payload : Value} (plain : IsPlainName name)
    (part : Reproducible payload) : Reproducible (carrying name payload) :=
  reproducible_ofFields (by simp [plain, part])

theorem reproducible_list {α : Type} {encode : α → Value} {xs : List α}
    (parts : ∀ x ∈ xs, Reproducible (encode x)) : Reproducible (list encode xs) :=
  .array fun _ member => by
    obtain ⟨x, listed, rfl⟩ := List.mem_map.mp member
    exact parts x listed

theorem reproducible_nullable {α : Type} {encode : α → Value} {x : Option α}
    (part : ∀ y ∈ x, Reproducible (encode y)) : Reproducible (nullable encode x) := by
  cases x with
  | none => exact .null
  | some y => exact part y rfl

@[simp] theorem reproducible_id {n : Nat} (word : IsWord n) : Reproducible (id n) := by
  refine .integer ?_
  simp only [IsWord, Decoder.wordLimit] at word
  simp only [FitsWord]
  omega

@[simp] theorem reproducible_ids {ns : List Nat} (words : AreWords ns) : Reproducible (ids ns) :=
  reproducible_list fun n listed => reproducible_id (words n listed)

@[simp] theorem reproducible_nullable_id {n : Option Nat} (word : AreWords n.toList) :
    Reproducible (nullable id n) :=
  reproducible_nullable fun m known => reproducible_id (word m (Option.mem_toList.mpr known))

@[simp] theorem reproducible_ofText? (text : Option String) : Reproducible (.ofText? text) := by
  cases text with
  | none => exact .null
  | some text => exact .string text

@[simp] theorem reproducible_span {s : Span} (fits : s.Fits) : Reproducible (span s) :=
  reproducible_ofFields (by simp +decide [fits.start, fits.stop])

theorem isPlainName_form (f : Form) : IsPlainName f.name := by
  cases f <;> simp only [Form.name] <;> decide

@[simp] theorem reproducible_jumpTarget {t : JumpTarget} (words : AreWords (Form.goto t).children) :
    Reproducible (jumpTarget t) := by
  cases t with
  | label name => exact reproducible_carrying (by decide) (.string name)
  | caseOf value =>
    exact reproducible_carrying (by decide) (reproducible_id (words value List.mem_cons_self))
  | defaultCase => exact .string _

theorem reproducible_formFields {f : Form} (fits : f.Fits) {fields : List (String × Value)}
    (given : formFields f = some fields) : Reproducible (.ofFields fields) := by
  obtain ⟨children, types⟩ := fits
  have operator (o : Option BinaryOperator) :
      Reproducible (nullable (fun o => .string (BinaryOperator.name o)) o) :=
    reproducible_nullable fun _ _ => .string _
  cases f
  case this | missing | breakJump | continueJump | empty => simp [formFields] at given
  case goto target =>
    obtain rfl := Option.some.inj given
    exact reproducible_ofFields (by simp +decide [children])
  all_goals
    obtain rfl := Option.some.inj given
    refine reproducible_ofFields ?_
    simp_all +decide [Form.children, Form.typesNamed]

@[simp] theorem reproducible_form {f : Form} (fits : f.Fits) : Reproducible (form f) := by
  unfold form
  split
  next fields given =>
    exact reproducible_carrying (isPlainName_form f) (reproducible_formFields fits given)
  next => exact .string _

theorem reproducible_syntaxNode {n : SyntaxNode} (fits : n.Fits) : Reproducible (syntaxNode n) :=
  reproducible_ofFields (by simp +decide [fits.span, fits.form])

@[simp] theorem reproducible_typeKind {k : TypeKind} (fits : k.Fits) :
    Reproducible (typeKind k) := by
  cases k
  case pointer inner | array inner =>
    have word : IsWord inner := fits inner List.mem_cons_self
    exact reproducible_carrying (by decide)
      (reproducible_ofFields (by simp +decide [word]))
  all_goals exact .string _

theorem reproducible_typeInfo {t : TypeInfo} (fits : t.kind.Fits) : Reproducible (typeInfo t) :=
  reproducible_ofFields (by simp +decide [fits])

theorem reproducible_constant {c : Constant} (fits : c.Fits) (read : c.ReadsBack) :
    Reproducible (constant c) := by
  cases c with
  | null => exact .string _
  | bool b => exact reproducible_carrying (by decide) (.bool b)
  | int n =>
    obtain ⟨least, most⟩ := fits
    exact reproducible_carrying (by decide) (.integer ⟨least, by omega⟩)
  | float x =>
    obtain ⟨finite, own⟩ := read x rfl
    exact reproducible_carrying (by decide) (.double finite own)
  | char c => exact reproducible_carrying (by decide) (.string _)
  | string text => exact reproducible_carrying (by decide) (.string _)

theorem reproducible_symbol {s : Symbol} (fits : s.Fits) (read : ∀ c ∈ s.default, c.ReadsBack) :
    Reproducible (symbol s) := by
  have default : Reproducible (nullable constant s.default) :=
    reproducible_nullable fun c known => reproducible_constant (fits.default c known) (read c known)
  exact reproducible_ofFields (by
    simp +decide [fits.type, fits.containingType, fits.parameters, default])

theorem reproducible_conversion {c : Conversion} (word : IsWord c.target) :
    Reproducible (conversion c) :=
  reproducible_ofFields (by simp +decide [word])

theorem reproducible_binding {b : Binding} (fits : b.Fits) : Reproducible (binding b) :=
  reproducible_ofFields (by simp +decide [fits.parameter, fits.argument])

theorem reproducible_resolution {r : Resolution} (fits : r.Fits) :
    Reproducible (resolution r) := by
  obtain ⟨candidates, bindings⟩ := fits
  cases r with
  | resolved member arguments =>
    have word : IsWord member := candidates member List.mem_cons_self
    have listed : Reproducible (list binding arguments) :=
      reproducible_list fun b listed => reproducible_binding (bindings b listed)
    exact reproducible_carrying (by decide)
      (reproducible_ofFields (by simp +decide [word, listed]))
  | lateBound symbols =>
    have words : AreWords symbols := candidates
    exact reproducible_carrying (by decide)
      (reproducible_ofFields (by simp +decide [words]))
  | failed reason symbols =>
    have words : AreWords symbols := candidates
    exact reproducible_carrying (by decide)
      (reproducible_ofFields (by simp +decide [words]))

theorem reproducible_facts {f : Facts} (fits : f.Fits) (read : ∀ c ∈ f.constant, c.ReadsBack) :
    Reproducible (facts f) := by
  have conversion : Reproducible (nullable conversion f.conversion) :=
    reproducible_nullable fun c known => reproducible_conversion (fits.conversion c known)
  have constant : Reproducible (nullable constant f.constant) :=
    reproducible_nullable fun c known =>
      reproducible_constant (fits.constant c known) (read c known)
  have resolution : Reproducible (nullable resolution f.resolution) :=
    reproducible_nullable fun r known => reproducible_resolution (fits.resolution r known)
  exact reproducible_ofFields (by
    simp +decide [fits.type, conversion, constant, fits.symbol, resolution])

theorem reproducible_diagnostic {d : Diagnostic} (fits : d.Fits) : Reproducible (diagnostic d) :=
  reproducible_ofFields (by simp +decide [fits.span, fits.code])

theorem reproducible_factTable {entries : List (SyntaxId × Facts)}
    (fit : ∀ entry ∈ entries, entry.2.Fits)
    (read : ∀ entry ∈ entries, ∀ c ∈ entry.2.constant, c.ReadsBack) :
    Reproducible (factTable entries) := by
  refine reproducible_ofFields fun _ member => ?_
  obtain ⟨⟨node, known⟩, listed, rfl⟩ := List.mem_map.mp member
  have digits : ∀ c ∈ node.repr.toList, c.isDigit = true := fun c digit =>
    Nat.isDigit_of_mem_toDigits (by decide) (by decide) (Nat.toList_repr ▸ digit)
  exact ⟨fun c digit => plain_of_isDigit (digits c digit),
    reproducible_facts (fit _ listed) (read _ listed)⟩

theorem reproducible_listing {p : Program} (fits : p.Fits)
    (read : ∀ c ∈ p.constants, c.ReadsBack) {entries : List (SyntaxId × Facts)}
    (listed : entries.Perm p.facts.toList) : Reproducible (p.listing entries) := by
  have nodes := reproducible_list fun n listed => reproducible_syntaxNode (fits.nodes n listed)
  have types := reproducible_list fun t listed => reproducible_typeInfo (fits.types t listed)
  have symbols := reproducible_list fun s listed =>
    reproducible_symbol (fits.symbols s listed) fun c known => read c
      (List.mem_append_left _ (List.mem_filterMap.mpr ⟨s, listed, known⟩))
  have facts : Reproducible (factTable entries) :=
    reproducible_factTable (fun entry member => (fits.facts entry (listed.mem_iff.mp member)).2)
      fun entry member c known => read c (List.mem_append_right _
        (List.mem_filterMap.mpr ⟨entry, listed.mem_iff.mp member, known⟩))
  have diagnostics := reproducible_list fun d listed =>
    reproducible_diagnostic (fits.diagnostics d listed)
  exact reproducible_ofFields (by
    simp +decide [nodes, types, symbols, facts, fits.members, diagnostics])

end Encoding

namespace Program

/-- The search for cycles looks at the nodes of a program only. -/
theorem search_congr {p q : Program} (same : q.nodes = p.nodes) (fuel : Nat) :
    q.search fuel = p.search fuel := by
  induction fuel with
  | zero => rfl
  | succ fuel ih =>
    funext marks node
    simp only [search, same, ih]

/-- Validity looks at the facts of a program as a table only. -/
theorem validate_congr (p : Program) {facts : Std.TreeMap SyntaxId Facts}
    (same : facts.Equiv p.facts) : validate { p with facts } = p.validate := by
  have cycles : cycleFault? { p with facts } = p.cycleFault? := by
    simp only [cycleFault?, searchAll, search_congr (p := p) (q := { p with facts }) rfl]
  unfold validate fault?
  rw [cycles]
  simp only [same.toList_eq]
  rfl

theorem read_listing {p : Program} (valid : p.validate = .ok ()) (fits : p.Fits)
    (back : ∀ c ∈ p.constants, c.ReadsBack) {entries : List (SyntaxId × Facts)}
    (listed : entries.Perm p.facts.toList) :
    ∃ facts, read (p.listing entries).pretty = .ok { p with facts } ∧ facts.Equiv p.facts := by
  obtain ⟨facts, decoded, same⟩ := Decoding.program_listing fits listed
  have parsed : parse (p.listing entries).pretty = .ok { p with facts } := by
    simp [parse, parse?_pretty (Encoding.reproducible_listing fits back listed), decoded]
  have sound : validate { p with facts } = .ok () := (p.validate_congr same).trans valid
  exact ⟨facts, by simp [read, parsed, sound], same⟩

/-- Writing a valid program and reading the text gives the program, its facts as a table of the
same entries, and so does a text that lists the facts in another order. The numbers of the program
have the size of its format, and its doubles are finite ones whose text by itself reads back. -/
theorem read_write {p : Program} (valid : p.validate = .ok ()) (fits : p.Fits)
    (finite : ∀ x, .float x ∈ p.constants → x.isFinite = true)
    (reproduced : ∀ x, .float x ∈ p.constants → x.isFinite = true →
      Json.parse? (Value.double x).pretty = some (.double x)) :
    (∃ facts, read p.write = .ok { p with facts } ∧ facts.Equiv p.facts) ∧
      ∀ entries, entries.Perm p.facts.toList →
        ∃ facts, read (p.listing entries).pretty = .ok { p with facts } ∧
          facts.Equiv p.facts := by
  have back : ∀ c ∈ p.constants, c.ReadsBack := by
    rintro _ listed x rfl
    have number := finite x listed
    exact ⟨number, (parse?_double_iff number).mp (reproduced x listed number)⟩
  refine ⟨?_, fun entries listed => read_listing valid fits back listed⟩
  rw [write, toJson_eq_listing]
  exact read_listing valid fits back (.refl _)

/-- The field `x` of a file whose name takes escapes: its initializer is one tenth, and the
default that is recorded for it is the null constant. -/
def tenthField : Program :=
  { empty "a\\b\t\x01é" with
    sourceText := some "x = 0.1;"
    nodes := #[⟨⟨0, 8⟩, .field [1]⟩, ⟨⟨0, 7⟩, .variableDeclarator "x" (some 2)⟩,
      ⟨⟨4, 7⟩, .literal "0.1"⟩]
    types := #[⟨"double", .structType⟩, ⟨"double[]", .array 0⟩]
    symbols := #[{ Symbol.plain "x" .field (some 0) with default := some .null }]
    facts := Std.TreeMap.ofList
      [(2, { Facts.unknown with type := some 0, constant := some (.float ⟨0x3fb999999999999a⟩) }),
        (1, { Facts.unknown with symbol := some 0 })]
    members := [0]
    diagnostics := [⟨⟨0, 1⟩, "unused \"x\"", .warning, 219⟩] }

theorem tenthField_facts : tenthField.facts.toList =
    [(1, { Facts.unknown with symbol := some 0 }),
      (2, { Facts.unknown with
        type := some 0, constant := some (.float ⟨0x3fb999999999999a⟩) })] := by
  rfl

theorem tenthField_constants :
    tenthField.constants = [.null, .float ⟨0x3fb999999999999a⟩] := by
  rw [constants, tenthField_facts]
  rfl

theorem tenthField_fits : tenthField.Fits := by
  rw [fits_iff, tenthField_facts]
  simp [tenthField, empty, Symbol.plain, Facts.unknown, Form.children, Form.typesNamed,
    TypeKind.inner, SyntaxNode.fits_iff, Span.fits_iff, Form.fits_iff, TypeKind.Fits,
    Symbol.fits_iff, Constant.Fits, Facts.fits_iff, Diagnostic.fits_iff, IsWord,
    Decoder.wordLimit]

theorem tenthField_read_write :
    tenthField.validate = .ok () ∧ .float ⟨0x3fb999999999999a⟩ ∈ tenthField.constants ∧
      (∃ facts, read tenthField.write = .ok { tenthField with facts } ∧
        facts.Equiv tenthField.facts) ∧
      ∃ facts, read (tenthField.listing tenthField.facts.toList.reverse).pretty =
        .ok { tenthField with facts } ∧ facts.Equiv tenthField.facts := by
  have valid : tenthField.validate = .ok () := rfl
  have only : ∀ x, .float x ∈ tenthField.constants → x = ⟨0x3fb999999999999a⟩ := by
    simp [tenthField_constants]
  have finite : ∀ x, .float x ∈ tenthField.constants → x.isFinite = true := by
    intro x listed
    rw [only x listed]
    decide
  obtain ⟨written, reordered⟩ := read_write valid tenthField_fits finite fun x listed number => by
    rw [parse?_double_iff number, only x listed]
    decide +kernel
  exact ⟨valid, by simp [tenthField_constants], written, reordered _ (List.reverse_perm _)⟩

end Program

end SemanticTrees
