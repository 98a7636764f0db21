import SemanticTrees.Proofs.Json.Numbers
import SemanticTrees.Proofs.Json.Strings
import Mathlib.Data.List.DropRight

/-! Values with a line for every item and member. The writer appends to a text; here the layout of
a value is a list of characters of its own, and reading follows it part by part. What is read back
is the value that was laid out, unless the value holds a number or a name that has no text. -/
namespace SemanticTrees.Json

open SemanticTrees.Decimal

/-! ## The layout of a value -/

def lineBreak (level : Nat) : List Char := '\n' :: List.replicate (2 * level) ' '

mutual
/-- The characters of a value, its items and members one level below. -/
def laidOut (level : Nat) : Value → List Char
  | .array [] => ['[', ']']
  | .array items => '[' :: laidOutItems (level + 1) true items ++ lineBreak level ++ [']']
  | .object [] => ['\x7b', '\x7d']
  | .object members =>
    '\x7b' :: laidOutMembers (level + 1) true members ++ lineBreak level ++ ['\x7d']
  | scalar => (scalarText scalar).toList

def laidOutItems (level : Nat) (first : Bool) : List Value → List Char
  | [] => []
  | item :: rest =>
    (if first then [] else [',']) ++ lineBreak level ++ laidOut level item ++
      laidOutItems level false rest

def laidOutMembers (level : Nat) (first : Bool) : List (Key × Value) → List Char
  | [] => []
  | (key, value) :: rest =>
    (if first then [] else [',']) ++ lineBreak level ++ (keyText key).toList ++ [':', ' '] ++
      laidOut level value ++ laidOutMembers level false rest
end

theorem toList_newLine (level : Nat) : (newLine level).toList = lineBreak level := by
  have pushed (count : Nat) : ("\n".pushn ' ' count).toList = '\n' :: List.replicate count ' ' := by
    induction count with
    | zero => rfl
    | succ count ih =>
      rw [String.pushn] at ih ⊢
      rw [Nat.repeat, String.toList_push, ih, List.replicate_succ', List.cons_append]
  exact pushed (2 * level)

mutual
theorem toList_appendPretty (level : Nat) (out : String) (value : Value) :
    (appendPretty level out value).toList = out.toList ++ laidOut level value := by
  match value with
  | .array [] => simp [appendPretty, laidOut]
  | .array (item :: rest) =>
    rw [appendPretty, laidOut]
    · simp [toList_appendPrettyItems, toList_newLine]
    all_goals simp
  | .object [] => simp [appendPretty, laidOut]
  | .object (member :: rest) =>
    rw [appendPretty, laidOut]
    · simp [toList_appendPrettyMembers, toList_newLine]
    all_goals simp
  | .null | .bool _ | .integer _ | .double _ | .string _ | .broken =>
    simp [appendPretty, laidOut]

theorem toList_appendPrettyItems (level : Nat) (out : String) (first : Bool)
    (items : List Value) :
    (appendPrettyItems level out first items).toList =
      out.toList ++ laidOutItems level first items := by
  match items with
  | [] => simp [appendPrettyItems, laidOutItems]
  | item :: rest =>
    rw [appendPrettyItems, toList_appendPrettyItems, toList_appendPretty, laidOutItems]
    cases first <;> simp [toList_newLine]

theorem toList_appendPrettyMembers (level : Nat) (out : String) (first : Bool)
    (members : List (Key × Value)) :
    (appendPrettyMembers level out first members).toList =
      out.toList ++ laidOutMembers level first members := by
  match members with
  | [] => simp [appendPrettyMembers, laidOutMembers]
  | (key, value) :: rest =>
    rw [appendPrettyMembers, toList_appendPrettyMembers, toList_appendPretty, laidOutMembers]
    cases first <;> simp [toList_newLine]
end

theorem toList_pretty (value : Value) : value.pretty.toList = laidOut 0 value := by
  rw [Value.pretty, toList_appendPretty]
  rfl

theorem laidOut_double {x : Binary64} (finite : x.isFinite = true) (level : Nat) :
    laidOut level (.double x) = numberForm.text x := by
  simp [laidOut, scalarText, finite]

/-! ## White space -/

theorem skipSpace_of_ink {c : Char} (ink : isSpace c = false) (text : List Char) :
    skipSpace (c :: text) = c :: text := by
  simp [skipSpace, ink]

theorem skipSpace_append {blank : List Char} (blanks : ∀ c ∈ blank, isSpace c = true)
    (text : List Char) : skipSpace (blank ++ text) = skipSpace text :=
  List.dropWhile_append_of_pos blanks

theorem skipSpace_lineBreak (level : Nat) (text : List Char) :
    skipSpace (lineBreak level ++ text) = skipSpace text := by
  refine skipSpace_append (fun c member => ?_) text
  rcases List.mem_cons.mp member with rfl | space
  · rfl
  · rw [List.eq_of_mem_replicate space]
    rfl

theorem skipSpace_blank (text : List Char) : skipSpace (' ' :: text) = skipSpace text := rfl

theorem skipSpace_skipSpace (text : List Char) : skipSpace (skipSpace text) = skipSpace text :=
  List.dropWhile_idempotent isSpace text

/-- White space in front of a value does not matter, -/
theorem readValue_congr {text other : List Char} (same : skipSpace text = skipSpace other)
    (fuel : Nat) : readValue fuel text = readValue fuel other := by
  cases fuel with
  | zero => rfl
  | succ fuel => rw [readValue, readValue, same]

/-- nor in front of the items of an array, -/
theorem readItems_congr {text other : List Char} (same : skipSpace text = skipSpace other)
    (fuel : Nat) (before : List Value) :
    readItems fuel before text = readItems fuel before other := by
  cases fuel with
  | zero => rfl
  | succ fuel => rw [readItems, readItems, readValue_congr same]

/-- nor in front of the members of an object. -/
theorem readMembers_congr {text other : List Char} (same : skipSpace text = skipSpace other)
    (fuel : Nat) (before : List (Key × Value)) :
    readMembers fuel before text = readMembers fuel before other := by
  cases fuel with
  | zero => rfl
  | succ fuel => rw [readMembers, readMembers, same]

/-! ## Reading a layout -/

/-- The text of a double, by itself, is read as that double. -/
def ReadsBack (x : Binary64) : Prop :=
  ∃ found ∈ readLiteral (numberForm.text x),
    skipSpace found.2 = [] ∧ found.1.number? = some (.double x)

instance (x : Binary64) : Decidable (ReadsBack x) :=
  inferInstanceAs (Decidable (∃ found ∈ readLiteral (numberForm.text x), _ ∧ _))

theorem ofLiteral_eq_double {literal : Literal} {x : Binary64} :
    ofLiteral literal = .double x ↔ literal.number? = some (.double x) := by
  unfold ofLiteral
  split <;> simp_all

/-- A value whose text says all about it. -/
inductive Reproducible : Value → Prop
  | null : Reproducible .null
  | bool (b : Bool) : Reproducible (.bool b)
  | integer {n : Int} (fits : FitsWord n) : Reproducible (.integer n)
  | double {x : Binary64} (finite : x.isFinite = true) (own : ReadsBack x) :
    Reproducible (.double x)
  | string (text : String) : Reproducible (.string text)
  | array {items : List Value} (parts : ∀ item ∈ items, Reproducible item) :
    Reproducible (.array items)
  | object {members : List (Key × Value)}
    (names : ∀ member ∈ members,
      ∃ name, member.1 = Key.ofString name ∧ ∀ c ∈ name.toList, Plain c)
    (parts : ∀ member ∈ members, Reproducible member.2) : Reproducible (.object members)

attribute [simp] Reproducible.null Reproducible.bool Reproducible.string

/-- A text in which a value is read, with enough steps for its length, up to what is behind it. -/
def Reads (value : Value) (text : List Char) : Prop :=
  ∀ fuel tail, EndsNumber tail → 2 * text.length < fuel →
    ∃ rest, readValue fuel (text ++ tail) = some (value, rest) ∧ skipSpace rest = skipSpace tail

theorem Reads.of_exact {value : Value} {text : List Char}
    (read : ∀ fuel tail, readValue (fuel + 1) (text ++ tail) = some (value, tail)) :
    Reads value text := by
  intro fuel tail _ enough
  obtain ⟨fuel, rfl⟩ := Nat.exists_eq_add_one_of_ne_zero (Nat.ne_zero_of_lt enough)
  exact ⟨tail, read fuel tail, rfl⟩

theorem reads_literal {text rest : List Char} {literal : Literal}
    (numeric : ∀ c ∈ text, NumberChar c) (read : readLiteral text = some (literal, rest))
    (blank : skipSpace rest = []) : Reads (ofLiteral literal) text := by
  intro fuel tail ends enough
  obtain ⟨fuel, rfl⟩ := Nat.exists_eq_add_one_of_ne_zero (Nat.ne_zero_of_lt enough)
  refine ⟨rest ++ tail, ?_, skipSpace_append (List.dropWhile_eq_nil_iff.mp blank) tail⟩
  cases text with
  | nil => simp [readLiteral_eq, literalSign, readDigits] at read
  | cons c text =>
    rw [List.cons_append, readValue_number (numeric c List.mem_cons_self), ← List.cons_append,
      readLiteral_append ends read]
    rfl

theorem reads_string (text : String) : Reads (.string text) (stringText text).toList := by
  refine .of_exact fun fuel tail => ?_
  obtain ⟨scan, read, meaning⟩ := readString_value text tail
  rw [toList_stringText, List.cons_append, List.append_assoc, readValue, skipSpace_of_ink rfl]
  simp only [List.singleton_append, read, Option.map_some, meaning]

/-- An array that is not empty is read item by item. -/
theorem readValue_array {c : Char} {text rest : List Char} (start : skipSpace text = c :: rest)
    (given : c ≠ ']') (fuel : Nat) :
    readValue (fuel + 1) ('[' :: text) = readItems fuel [] text := by
  rw [readValue, skipSpace_of_ink rfl]
  simp only [start]
  split
  next same => exact absurd (List.cons.inj same).1 given
  next => exact readItems_congr (by rw [← start, skipSpace_skipSpace]) fuel []

theorem readValue_object {text rest : List Char} (start : skipSpace text = '"' :: rest)
    (fuel : Nat) : readValue (fuel + 1) ('\x7b' :: text) = readMembers fuel [] text := by
  rw [readValue, skipSpace_of_ink rfl]
  simp only [start]
  exact readMembers_congr (by rw [← start, skipSpace_skipSpace]) fuel []

variable {items : List Value} {members : List (Key × Value)}

theorem length_lineBreak (level : Nat) : (lineBreak level).length = 2 * level + 1 := by
  simp [lineBreak]

/-- What is behind an item is a line, a comma, or the end of the text. -/
theorem endsNumber_lineBreak (level : Nat) (text : List Char) :
    EndsNumber (lineBreak level ++ text) := by
  simp [lineBreak, endsNumber_cons, digit?]

theorem laidOutItems_later (level : Nat) (item : Value) (rest : List Value) :
    laidOutItems level false (item :: rest) = ',' :: laidOutItems level true (item :: rest) := rfl

theorem laidOutMembers_later (level : Nat) (member : Key × Value) (rest : List (Key × Value)) :
    laidOutMembers level false (member :: rest) =
      ',' :: laidOutMembers level true (member :: rest) := rfl

theorem endsNumber_comma (text : List Char) : EndsNumber (',' :: text) := by
  simp [endsNumber_cons, digit?]

theorem readItems_laidOut (level lower : Nat) (tail : List Char)
    (parts : ∀ item ∈ items, ∀ level, Reads item (laidOut level item)) (given : items ≠ [])
    (before : List Value) (fuel : Nat)
    (enough : 2 * (laidOutItems level true items).length < fuel) :
    readItems fuel before (laidOutItems level true items ++ (lineBreak lower ++ ']' :: tail)) =
      some (.array (before.reverse ++ items), tail) := by
  induction items generalizing before fuel with
  | nil => contradiction
  | cons item rest ih =>
    obtain ⟨fuel, rfl⟩ := Nat.exists_eq_add_one_of_ne_zero (Nat.ne_zero_of_lt enough)
    have here := parts item List.mem_cons_self level
    rw [laidOutItems] at enough ⊢
    simp only [if_true, List.nil_append, List.length_append, length_lineBreak] at enough
    cases rest with
    | nil =>
      obtain ⟨left, read, same⟩ :=
        here fuel (lineBreak lower ++ ']' :: tail) (endsNumber_lineBreak _ _) (by omega)
      rw [skipSpace_lineBreak, skipSpace_of_ink rfl] at same
      simp only [laidOutItems, if_true, List.nil_append, List.append_nil, List.append_assoc]
      rw [readItems, readValue_congr (skipSpace_lineBreak _ _), read]
      simp [same]
    | cons next rest =>
      rw [laidOutItems_later] at enough ⊢
      simp only [List.length_cons] at enough
      obtain ⟨left, read, same⟩ := here fuel
        (',' :: (laidOutItems level true (next :: rest) ++ (lineBreak lower ++ ']' :: tail)))
        (endsNumber_comma _) (by omega)
      rw [skipSpace_of_ink rfl] at same
      have more := ih (fun item member => parts item (List.mem_cons_of_mem _ member))
        (List.cons_ne_nil _ _) (item :: before) fuel (by omega)
      simp only [if_true, List.nil_append, List.append_assoc, List.cons_append]
      rw [readItems, readValue_congr (skipSpace_lineBreak _ _), read]
      simp only [same, more]
      simp

theorem readMembers_laidOut (level lower : Nat) (tail : List Char)
    (names : ∀ member ∈ members,
      ∃ name, member.1 = Key.ofString name ∧ ∀ c ∈ name.toList, Plain c)
    (parts : ∀ member ∈ members, ∀ level, Reads member.2 (laidOut level member.2))
    (given : members ≠ []) (before : List (Key × Value)) (fuel : Nat)
    (enough : 2 * (laidOutMembers level true members).length < fuel) :
    readMembers fuel before
        (laidOutMembers level true members ++ (lineBreak lower ++ '\x7d' :: tail)) =
      some (.object (before.reverse ++ members), tail) := by
  induction members generalizing before fuel with
  | nil => contradiction
  | cons member rest ih =>
    obtain ⟨fuel, rfl⟩ := Nat.exists_eq_add_one_of_ne_zero (Nat.ne_zero_of_lt enough)
    obtain ⟨key, value⟩ := member
    obtain ⟨name, rfl, plain⟩ := names _ List.mem_cons_self
    have here := parts _ List.mem_cons_self level
    have written : keyText (Key.ofString name) = stringText name := rfl
    simp only [laidOutMembers, written, toList_stringText, if_true, List.nil_append,
      List.length_append, List.length_cons, length_lineBreak] at enough here ⊢
    simp only [List.append_assoc, List.cons_append, List.nil_append]
    obtain ⟨scan, named, key⟩ := readString_key plain
      (':' :: ' ' :: (laidOut level value ++
        (laidOutMembers level false rest ++ (lineBreak lower ++ '\x7d' :: tail))))
    rw [readMembers, skipSpace_lineBreak, skipSpace_of_ink rfl]
    simp only [named, skipSpace_of_ink (c := ':') rfl, key]
    rw [readValue_congr (skipSpace_blank _)]
    cases rest with
    | nil =>
      obtain ⟨left, read, same⟩ :=
        here fuel (lineBreak lower ++ '\x7d' :: tail) (endsNumber_lineBreak _ _) (by omega)
      rw [skipSpace_lineBreak, skipSpace_of_ink rfl] at same
      simp [laidOutMembers, read, same]
    | cons next rest =>
      rw [laidOutMembers_later] at enough ⊢
      simp only [List.length_cons] at enough
      obtain ⟨left, read, same⟩ := here fuel
        (',' :: (laidOutMembers level true (next :: rest) ++ (lineBreak lower ++ '\x7d' :: tail)))
        (endsNumber_comma _) (by omega)
      rw [skipSpace_of_ink rfl] at same
      have more := ih (fun member listed => names member (List.mem_cons_of_mem _ listed))
        (fun member listed => parts member (List.mem_cons_of_mem _ listed))
        (List.cons_ne_nil _ _) ((Key.ofString name, value) :: before) fuel (by omega)
      rw [List.cons_append, read]
      simp [same, more]

theorem number_start {text rest : List Char} {literal : Literal}
    (numeric : ∀ c ∈ text, NumberChar c) (read : readLiteral text = some (literal, rest)) :
    ∃ c rest, text = c :: rest ∧ isSpace c = false ∧ c ≠ ']' := by
  cases text with
  | nil => simp [readLiteral_eq, literalSign, readDigits] at read
  | cons c text =>
    have first := numeric c List.mem_cons_self
    refine ⟨c, text, rfl, isSpace_of_numberChar first, ?_⟩
    rintro rfl
    simp [NumberChar] at first

/-- No layout starts with white space or like the end of an array. -/
theorem laidOut_start {value : Value} (whole : Reproducible value) (level : Nat) :
    ∃ c rest, laidOut level value = c :: rest ∧ isSpace c = false ∧ c ≠ ']' := by
  cases whole with
  | null => exact ⟨'n', _, rfl, rfl, by decide⟩
  | bool b =>
    cases b
    · exact ⟨'f', _, rfl, rfl, by decide⟩
    · exact ⟨'t', _, rfl, rfl, by decide⟩
  | @integer n _ => exact number_start numberChar_toString_int (readLiteral_integer n)
  | @double x finite own =>
    obtain ⟨⟨literal, rest⟩, read, -⟩ := own
    rw [laidOut_double finite]
    exact number_start (numberChar_text finite) read
  | string text => exact ⟨'"', _, toList_stringText text, rfl, by decide⟩
  | @array items _ =>
    cases items
    · exact ⟨'[', _, rfl, rfl, by decide⟩
    · exact ⟨'[', _, rfl, rfl, by decide⟩
  | @object members _ _ =>
    cases members
    · exact ⟨'\x7b', _, rfl, rfl, by decide⟩
    · exact ⟨'\x7b', _, rfl, rfl, by decide⟩

theorem reads_array (whole : ∀ item ∈ items, Reproducible item)
    (parts : ∀ item ∈ items, ∀ level, Reads item (laidOut level item)) (level : Nat) :
    Reads (.array items) (laidOut level (.array items)) := by
  intro fuel tail _ enough
  obtain ⟨fuel, rfl⟩ := Nat.exists_eq_add_one_of_ne_zero (Nat.ne_zero_of_lt enough)
  refine ⟨tail, ?_, rfl⟩
  cases items with
  | nil => rfl
  | cons item rest =>
    obtain ⟨c, more, start, ink, given⟩ := laidOut_start (whole item List.mem_cons_self) (level + 1)
    simp only [laidOut, List.length_append, List.length_cons, List.cons_append,
      List.append_assoc, List.nil_append] at enough ⊢
    have first (behind : List Char) :
        skipSpace (laidOutItems (level + 1) true (item :: rest) ++ behind) =
          c :: (more ++ (laidOutItems (level + 1) false rest ++ behind)) := by
      simp only [laidOutItems, if_true, List.nil_append, List.append_assoc, start,
        List.cons_append]
      rw [skipSpace_lineBreak, skipSpace_of_ink ink]
    rw [readValue_array (first _) given,
      readItems_laidOut (level + 1) level tail parts (List.cons_ne_nil _ _) [] fuel (by omega)]
    rfl

theorem reads_object
    (names : ∀ member ∈ members,
      ∃ name, member.1 = Key.ofString name ∧ ∀ c ∈ name.toList, Plain c)
    (parts : ∀ member ∈ members, ∀ level, Reads member.2 (laidOut level member.2)) (level : Nat) :
    Reads (.object members) (laidOut level (.object members)) := by
  intro fuel tail _ enough
  obtain ⟨fuel, rfl⟩ := Nat.exists_eq_add_one_of_ne_zero (Nat.ne_zero_of_lt enough)
  refine ⟨tail, ?_, rfl⟩
  cases members with
  | nil => rfl
  | cons member rest =>
    obtain ⟨key, value⟩ := member
    simp only [laidOut, List.length_append, List.length_cons, List.cons_append,
      List.append_assoc, List.nil_append] at enough ⊢
    have first (behind : List Char) : ∃ more,
        skipSpace (laidOutMembers (level + 1) true ((key, value) :: rest) ++ behind) =
          '"' :: more := by
      simp only [laidOutMembers, keyText, toList_stringText, if_true, List.nil_append,
        List.append_assoc, List.cons_append]
      rw [skipSpace_lineBreak, skipSpace_of_ink rfl]
      exact ⟨_, rfl⟩
    obtain ⟨more, start⟩ := first (lineBreak level ++ '\x7d' :: tail)
    rw [readValue_object start, readMembers_laidOut (level + 1) level tail names parts
      (List.cons_ne_nil _ _) [] fuel (by omega)]
    rfl

theorem reads_laidOut {value : Value} (whole : Reproducible value) (level : Nat) :
    Reads value (laidOut level value) := by
  induction whole generalizing level with
  | null => exact .of_exact fun fuel tail => rfl
  | bool b => cases b <;> exact .of_exact fun fuel tail => rfl
  | @integer n fits =>
    have read := reads_literal numberChar_toString_int (readLiteral_integer n) rfl
    rwa [ofLiteral_integer fits] at read
  | @double x finite own =>
    obtain ⟨⟨literal, rest⟩, read, blank, meaning⟩ := own
    rw [laidOut_double finite, ← ofLiteral_eq_double.mpr meaning]
    exact reads_literal (numberChar_text finite) read blank
  | string text => exact reads_string text
  | array parts ih => exact reads_array parts ih level
  | object names _ ih => exact reads_object names ih level

/-- Laying a value out and reading the text gives the value. -/
theorem parse?_pretty {value : Value} (whole : Reproducible value) :
    parse? value.pretty = some value := by
  obtain ⟨rest, read, blank⟩ := reads_laidOut whole 0 (2 * value.pretty.length + 2) []
    endsNumber_nil (by rw [← toList_pretty, String.length_toList]; omega)
  rw [List.append_nil, ← toList_pretty] at read
  simp only [parse?, read, blank]
  rfl

/-- A double reads back in every text if its own text is read as that double. -/
theorem parse?_double_iff {x : Binary64} (finite : x.isFinite = true) :
    parse? (Value.double x).pretty = some (.double x) ↔ ReadsBack x := by
  refine ⟨fun reproduced => ?_, fun own => parse?_pretty (.double finite own)⟩
  have numeric := numberChar_text finite
  simp only [parse?, toList_pretty, laidOut_double finite,
    show ∀ n, 2 * n + 2 = 2 * n + 1 + 1 from fun _ => rfl] at reproduced
  unfold ReadsBack
  generalize numberForm.text x = written at numeric reproduced
  cases written with
  | nil => simp [readValue, skipSpace] at reproduced
  | cons c text =>
    rw [readValue_number (numeric c List.mem_cons_self)] at reproduced
    cases read : readLiteral (c :: text) with
    | none => simp [read] at reproduced
    | some found =>
      obtain ⟨literal, rest⟩ := found
      simp only [read, Option.map_some, Option.ite_none_right_eq_some, Option.some.injEq,
        List.isEmpty_iff] at reproduced
      exact ⟨(literal, rest), rfl, reproduced.1, ofLiteral_eq_double.mp reproduced.2⟩

end SemanticTrees.Json
