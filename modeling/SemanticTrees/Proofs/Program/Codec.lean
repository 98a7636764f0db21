import SemanticTrees.Program.Decoding
import SemanticTrees.Program.Encoding
import SemanticTrees.Proofs.Json.Numbers
import SemanticTrees.Proofs.Json.Records
import Mathlib.Tactic.MkIffOfInductiveProp

/-! Checked programs as JSON and back. Every part of a program is read back from its encoding, as
long as its numbers are of the size that the format allows them. -/
namespace SemanticTrees

open SemanticTrees.Json

/-- A number of thirty-two bits. -/
def IsWord (n : Nat) : Prop := n < Decoder.wordLimit

def AreWords (ns : List Nat) : Prop := ∀ n ∈ ns, IsWord n

@[simp] theorem areWords_nil : AreWords [] := by simp [AreWords]

@[simp] theorem areWords_cons {n : Nat} {ns : List Nat} :
    AreWords (n :: ns) ↔ IsWord n ∧ AreWords ns := List.forall_mem_cons

@[simp] theorem areWords_append {ms ns : List Nat} :
    AreWords (ms ++ ns) ↔ AreWords ms ∧ AreWords ns := List.forall_mem_append

/-! ## The size of numbers -/

/-! Places, offsets and codes are numbers of thirty-two bits, and constants are integers of
sixty-four; a program whose numbers are larger has no encoding of its own. -/

@[mk_iff]
structure Span.Fits (s : Span) : Prop where
  start : IsWord s.start
  stop : IsWord s.stop

@[mk_iff]
structure Diagnostic.Fits (d : Diagnostic) : Prop where
  span : d.span.Fits
  code : IsWord d.code

def TypeKind.Fits (k : TypeKind) : Prop := AreWords k.inner.toList

def Constant.Fits : Constant → Prop
  | .int n => -9223372036854775808 ≤ n ∧ n < 9223372036854775808
  | _ => True

@[mk_iff]
structure Symbol.Fits (s : Symbol) : Prop where
  type : AreWords s.type.toList
  containingType : AreWords s.containingType.toList
  parameters : AreWords s.parameters
  default : ∀ c ∈ s.default, c.Fits

@[mk_iff]
structure Form.Fits (f : Form) : Prop where
  children : AreWords f.children
  types : AreWords f.typesNamed

@[mk_iff]
structure SyntaxNode.Fits (n : SyntaxNode) : Prop where
  span : n.span.Fits
  form : n.form.Fits

@[mk_iff]
structure Binding.Fits (b : Binding) : Prop where
  parameter : IsWord b.parameter
  argument : AreWords b.argument.toList

def Resolution.bindings : Resolution → List Binding
  | .resolved _ arguments => arguments
  | _ => []

@[mk_iff]
structure Resolution.Fits (r : Resolution) : Prop where
  candidates : AreWords r.candidates
  bindings : ∀ b ∈ r.bindings, b.Fits

@[mk_iff]
structure Facts.Fits (f : Facts) : Prop where
  type : AreWords f.type.toList
  conversion : ∀ c ∈ f.conversion, IsWord c.target
  constant : ∀ c ∈ f.constant, c.Fits
  symbol : AreWords f.symbol.toList
  resolution : ∀ r ∈ f.resolution, r.Fits

@[mk_iff]
structure Program.Fits (p : Program) : Prop where
  nodes : ∀ n ∈ p.nodes.toList, n.Fits
  types : ∀ t ∈ p.types.toList, t.kind.Fits
  symbols : ∀ s ∈ p.symbols.toList, s.Fits
  facts : ∀ entry ∈ p.facts.toList, IsWord entry.1 ∧ entry.2.Fits
  members : AreWords p.members
  diagnostics : ∀ d ∈ p.diagnostics, d.Fits

/-- A program as JSON with its facts in a given order; the order does not matter to a reader. -/
def Program.listing (p : Program) (entries : List (SyntaxId × Facts)) : Value :=
  .ofFields [("file_name", .string p.fileName), ("source_text", .ofText? p.sourceText),
    ("syntax", Encoding.list Encoding.syntaxNode p.nodes.toList),
    ("types", Encoding.list Encoding.typeInfo p.types.toList),
    ("symbols", Encoding.list Encoding.symbol p.symbols.toList),
    ("facts", Encoding.factTable entries), ("members", Encoding.ids p.members),
    ("diagnostics", Encoding.list Encoding.diagnostic p.diagnostics)]

theorem Program.toJson_eq_listing (p : Program) : p.toJson = p.listing p.facts.toList := rfl

namespace Decoding

@[simp] theorem id_id {n : Nat} (fits : IsWord n) : id (Encoding.id n) = some n := word_ofNat fits

@[simp] theorem ids_ids {ns : List Nat} (fit : AreWords ns) : ids (Encoding.ids ns) = some ns :=
  list_array fun n member => id_id (fit n member)

theorem nullable_nullable {α : Type} {decode : Decoder α} {encode : α → Value} {x : Option α}
    (undone : ∀ y ∈ x, decode (encode y) = some y) (given : ∀ y ∈ x, encode y ≠ .null) :
    Decoder.nullable decode (Encoding.nullable encode x) = some x := by
  cases x with
  | none => rfl
  | some y =>
    rw [Encoding.nullable]
    unfold Decoder.nullable
    split
    next null => exact absurd null (given y rfl)
    next => rw [undone y rfl, Option.map_some]

@[simp] theorem nullable_id {n : Option Nat} (fits : AreWords n.toList) :
    Decoder.nullable id (Encoding.nullable Encoding.id n) = some n :=
  nullable_nullable (fun m known => id_id (fits m (Option.mem_toList.mpr known)))
    fun _ _ => Value.noConfusion

@[simp] theorem string_string (text : String) : Decoder.string (.string text) = some text := rfl

@[simp] theorem bool_bool (b : Bool) : Decoder.bool (.bool b) = some b := rfl

@[simp] theorem passing_name (x : Passing) : passing (.string x.name) = some x :=
  Choice.among_name (by cases x <;> rfl)

@[simp] theorem binaryOperator_name (x : BinaryOperator) :
    binaryOperator (.string x.name) = some x :=
  Choice.among_name (by cases x <;> rfl)

@[simp] theorem unaryOperator_name (x : UnaryOperator) : unaryOperator (.string x.name) = some x :=
  Choice.among_name (by cases x <;> rfl)

@[simp] theorem nullable_text (text : Option String) :
    Decoder.nullable Decoder.string (.ofText? text) = some text := by
  cases text <;> rfl

@[simp] theorem nullable_operator (o : Option BinaryOperator) :
    Decoder.nullable binaryOperator
      (Encoding.nullable (fun o => .string (BinaryOperator.name o)) o) = some o :=
  nullable_nullable (fun x _ => binaryOperator_name x) fun _ _ => Value.noConfusion

@[simp] theorem jumpTarget_jumpTarget {t : JumpTarget} (fits : AreWords (Form.goto t).children) :
    jumpTarget (Encoding.jumpTarget t) = some t := by
  cases t with
  | label name => rfl
  | caseOf value =>
    have word : IsWord value := by simpa [Form.children] using fits
    exact congrArg (Option.map JumpTarget.caseOf) (id_id word)
  | defaultCase => rfl

section Forms

variable {v : Value} {c : Choice} {f : Form}

theorem form_of_expression (read : Choice.read v = some c) (known : expressionForm c = some f) :
    form v = some f := by
  simp [form, read, known]

theorem form_of_statement (read : Choice.read v = some c) (other : expressionForm c = none)
    (known : statementForm c = some f) : form v = some f := by
  simp [form, read, other, known]

theorem form_of_declaration (read : Choice.read v = some c) (other : expressionForm c = none)
    (neither : statementForm c = none) (known : declarationForm c = some f) : form v = some f := by
  simp [form, read, other, neither, known]

@[simp] theorem form_form {f : Form} (fits : f.Fits) : form (Encoding.form f) = some f := by
  obtain ⟨children, types⟩ := fits
  cases f
  case this | missing => exact form_of_expression rfl rfl
  case breakJump | continueJump | empty => exact form_of_statement rfl rfl rfl
  case literal | identifier | memberAccess | invocation | elementAccess | argument |
      objectCreation | binary | unary | assignment | addressOf | cast | parenthesized | lambda =>
    refine form_of_expression rfl ((Choice.fields_ofFields (by rfl) (by decide)).trans ?_)
    simp_all [Form.children, Form.typesNamed]
  case block | expressionStatement | localDeclaration | variableDeclarator | ifThen | whileLoop |
      forLoop | switch | switchSection | caseLabel | goto | labeled | returnJump | fixed | lock |
      usingResource =>
    refine form_of_statement rfl rfl ((Choice.fields_ofFields (by rfl) (by decide)).trans ?_)
    simp_all [Form.children, Form.typesNamed]
  case method | parameter | field | property | typeDeclaration =>
    refine form_of_declaration rfl rfl rfl
      ((Choice.fields_ofFields (by rfl) (by decide)).trans ?_)
    simp_all [Form.children]

end Forms

@[simp] theorem read_choice (name : String) (fields : List (String × Value)) :
    Choice.read (Encoding.choice name fields) = some ⟨name, some (.ofFields fields)⟩ := rfl

@[simp] theorem span_span {s : Span} (fits : s.Fits) : span (Encoding.span s) = some s := by
  simp [span, Encoding.span, fits.start, fits.stop]

@[simp] theorem category_name (x : Category) : category (.string x.name) = some x :=
  Choice.among_name (by cases x <;> rfl)

theorem diagnostic_diagnostic {d : Diagnostic} (fits : d.Fits) :
    diagnostic (Encoding.diagnostic d) = some d := by
  simp [diagnostic, Encoding.diagnostic, fits.span, fits.code]

@[simp] theorem typeKind_typeKind {k : TypeKind} (fits : k.Fits) :
    typeKind (Encoding.typeKind k) = some k := by
  cases k with
  | pointer inner | array inner =>
    have word : IsWord inner := by simpa [TypeKind.Fits, TypeKind.inner] using fits
    simp [typeKind, Encoding.typeKind, word]
  | _ => rfl

theorem typeInfo_typeInfo {t : TypeInfo} (fits : t.kind.Fits) :
    typeInfo (Encoding.typeInfo t) = some t := by
  simp [typeInfo, Encoding.typeInfo, fits]

theorem constant_constant {c : Constant} (fits : c.Fits) :
    constant (Encoding.constant c) = some c := by
  cases c with
  | int n =>
    exact congrArg (Option.map Constant.int) (if_pos fits.2)
  | char c =>
    have single : char (.string c.toString) = some c := by simp [char, Value.text?]
    exact congrArg (Option.map Constant.char) single
  | _ => rfl

@[simp] theorem symbolKind_name (x : SymbolKind) : symbolKind (.string x.name) = some x :=
  Choice.among_name (by cases x <;> rfl)

@[simp] theorem nullable_constant {c : Option Constant} (fits : ∀ x ∈ c, x.Fits) :
    Decoder.nullable constant (Encoding.nullable Encoding.constant c) = some c :=
  nullable_nullable (fun x known => constant_constant (fits x known))
    fun x _ => by cases x <;> exact Value.noConfusion

theorem symbol_symbol {s : Symbol} (fits : s.Fits) : symbol (Encoding.symbol s) = some s := by
  simp [symbol, Encoding.symbol, symbolFields, fits.type, fits.containingType, fits.parameters,
    nullable_constant fits.default]

theorem syntaxNode_syntaxNode {n : SyntaxNode} (fits : n.Fits) :
    syntaxNode (Encoding.syntaxNode n) = some n := by
  simp [syntaxNode, Encoding.syntaxNode, fits.span, fits.form]

@[simp] theorem conversionKind_name (x : ConversionKind) :
    Choice.among ConversionKind.all ConversionKind.name (.string x.name) = some x :=
  Choice.among_name (by cases x <;> rfl)

theorem conversion_conversion {c : Conversion} (fits : IsWord c.target) :
    conversion (Encoding.conversion c) = some c := by
  simp [conversion, Encoding.conversion, fits]

@[simp] theorem argumentKind_name (x : ArgumentKind) :
    Choice.among ArgumentKind.all ArgumentKind.name (.string x.name) = some x :=
  Choice.among_name (by cases x <;> rfl)

theorem binding_binding {b : Binding} (fits : b.Fits) :
    binding (Encoding.binding b) = some b := by
  simp [binding, Encoding.binding, fits.parameter, fits.argument]

@[simp] theorem failureReason_name (x : FailureReason) : failureReason (.string x.name) = some x :=
  Choice.among_name (by cases x <;> rfl)

theorem resolution_resolution {r : Resolution} (fits : r.Fits) :
    resolution (Encoding.resolution r) = some r := by
  obtain ⟨candidates, bindings⟩ := fits
  cases r with
  | resolved member arguments =>
    have read : Decoder.list binding (Encoding.list Encoding.binding arguments) = some arguments :=
      list_array fun b listed => binding_binding (bindings b listed)
    simp_all [resolution, Encoding.resolution, Resolution.candidates]
  | lateBound | failed =>
    simp_all [resolution, Encoding.resolution, Resolution.candidates]

theorem facts_facts {f : Facts} (fits : f.Fits) : facts (Encoding.facts f) = some f := by
  have conversion : Decoder.nullable conversion (Encoding.nullable Encoding.conversion f.conversion)
      = some f.conversion :=
    nullable_nullable (fun c known => conversion_conversion (fits.conversion c known))
      fun _ _ => Value.noConfusion
  have resolution : Decoder.nullable resolution (Encoding.nullable Encoding.resolution f.resolution)
      = some f.resolution :=
    nullable_nullable (fun r known => resolution_resolution (fits.resolution r known))
      fun r _ => by cases r <;> exact Value.noConfusion
  simp [facts, Encoding.facts, fits.type, conversion, nullable_constant fits.constant, fits.symbol,
    resolution]

/-! ## Facts by the places of nodes -/

theorem decimal?_toDigits (n : Nat) : decimal? (Nat.toDigits 10 n) = some n := by
  have digits : ∀ c ∈ Nat.toDigits 10 n, ('0' ≤ c && c ≤ '9') = true := fun c member => by
    have digit := Nat.isDigit_of_mem_toDigits (by decide) (by decide) member
    simpa [Char.isDigit, Char.le_def] using digit
  have value : (Nat.toDigits 10 n).foldl (fun n c => 10 * n + (c.toNat - '0'.toNat)) 0 = n := by
    rw [← Nat.ofDigitChars_eq_foldl]
    exact Nat.ofDigitChars_toDigits (by decide) (by decide)
  simp only [decimal?, value, Option.ite_none_right_eq_some, and_true]
  split
  next written => exact absurd written Nat.toDigits_ne_nil
  next => rfl
  next c rest other written =>
    have leading : c ≠ '0' := by
      rintro rfl
      obtain rfl := eq_zero_of_toDigits_eq_cons written
      simp_all
    rw [written] at digits
    simpa [leading, List.all_eq_true] using digits

theorem key_repr {n : Nat} (fits : IsWord n) : key (Key.ofString n.repr) = some n := by
  have small : n < Decoder.wordLimit := fits
  simp [key, Key.ofString, decimal?_toDigits, small]

theorem foldl_insert (table : Std.TreeMap SyntaxId Facts) (entries : List (SyntaxId × Facts)) :
    entries.foldl (fun table (node, known) => table.insert node known) table =
      table.insertMany entries := by
  induction entries generalizing table with
  | nil => simp
  | cons entry rest ih => rw [List.foldl_cons, ih, Std.TreeMap.insertMany_cons]

theorem factTable_factTable {entries : List (SyntaxId × Facts)}
    (fit : ∀ entry ∈ entries, IsWord entry.1 ∧ entry.2.Fits) :
    factTable (Encoding.factTable entries) = some (Std.TreeMap.ofList entries) := by
  have read : List.mapM (fun (name, value) => (do
        let node ← key name
        let known ← facts value
        return (node, known) : Option (SyntaxId × Facts)))
      (entries.map fun (node, known) => (Key.ofString (toString node), Encoding.facts known)) =
        some entries := by
    induction entries with
    | nil => rfl
    | cons entry rest ih =>
      obtain ⟨word, fits⟩ := fit entry List.mem_cons_self
      rw [List.map_cons, List.mapM_cons,
        ih fun other member => fit other (List.mem_cons_of_mem _ member)]
      simp [key_repr word, facts_facts fits]
  rw [Std.TreeMap.ofList_eq_insertMany_empty, ← foldl_insert]
  simp only [factTable, Encoding.factTable, Value.ofFields, List.map_map, Function.comp_def, read]
  rfl

/-- A table is made of its entries, in whatever order. -/
theorem ofList_perm {table : Std.TreeMap SyntaxId Facts} {entries : List (SyntaxId × Facts)}
    (listed : entries.Perm table.toList) : (Std.TreeMap.ofList entries).Equiv table := by
  refine .of_forall_constGet?_eq fun id => ?_
  have member (known : Facts) : (id, known) ∈ entries ↔ table[id]? = some known := by
    rw [listed.mem_iff, Std.TreeMap.mem_toList_iff_getElem?_eq_some]
  cases found : table[id]? with
  | none =>
    refine Std.TreeMap.getElem?_ofList_of_contains_eq_false ?_
    simp only [List.contains_eq_mem, List.mem_map, decide_eq_false_iff_not]
    rintro ⟨⟨_, known⟩, mentioned, rfl⟩
    simp [(member known).mp mentioned] at found
  | some known =>
    have distinct : entries.Pairwise fun a b => ¬compare a.1 b.1 = .eq :=
      (listed.pairwise_iff fun different same => different (Std.OrientedCmp.eq_symm same)).mpr
        Std.TreeMap.distinct_keys_toList
    exact Std.TreeMap.getElem?_ofList_of_mem Std.ReflCmp.compare_self distinct
      ((member known).mpr found)

theorem program_listing {p : Program} (fits : p.Fits) {entries : List (SyntaxId × Facts)}
    (listed : entries.Perm p.facts.toList) :
    ∃ facts, program (p.listing entries) = some { p with facts } ∧ facts.Equiv p.facts := by
  have nodes : Decoder.list syntaxNode (Encoding.list Encoding.syntaxNode p.nodes.toList) =
      some p.nodes.toList :=
    list_array fun n listed => syntaxNode_syntaxNode (fits.nodes n listed)
  have types : Decoder.list typeInfo (Encoding.list Encoding.typeInfo p.types.toList) =
      some p.types.toList :=
    list_array fun t listed => typeInfo_typeInfo (fits.types t listed)
  have symbols : Decoder.list symbol (Encoding.list Encoding.symbol p.symbols.toList) =
      some p.symbols.toList :=
    list_array fun s listed => symbol_symbol (fits.symbols s listed)
  have facts : factTable (Encoding.factTable entries) = some (Std.TreeMap.ofList entries) :=
    factTable_factTable fun entry member => fits.facts entry (listed.mem_iff.mp member)
  have diagnostics : Decoder.list diagnostic (Encoding.list Encoding.diagnostic p.diagnostics) =
      some p.diagnostics :=
    list_array fun d listed => diagnostic_diagnostic (fits.diagnostics d listed)
  refine ⟨_, ?_, ofList_perm listed⟩
  simp [program, Program.listing, programFields, nodes, types, symbols, facts, fits.members,
    diagnostics]

end Decoding

end SemanticTrees
