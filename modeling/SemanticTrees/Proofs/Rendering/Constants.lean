import SemanticTrees.Program.Constant
import SemanticTrees.Proofs.Json.Numbers
import SemanticTrees.Proofs.Text.Quoted
import Std.Data.String.ToInt

/-! The texts of constants. The first character of a text tells what kind of constant it is of, and
the rest tells which one. Doubles are not treated here. -/
namespace SemanticTrees.Constant

/-- A constant other than a double. -/
def IsExact : Constant → Prop
  | .float _ => False
  | _ => True

instance (constant : Constant) : Decidable constant.IsExact :=
  match constant with
  | .float _ => isFalse id
  | .null | .bool _ | .int _ | .char _ | .string _ => isTrue trivial

/-- What the first character of a text can tell about a constant. -/
inductive Kind
  | null
  | truth
  | integer
  | character
  | text

def Kind.of? : Constant → Option Kind
  | .null => some .null
  | .bool _ => some .truth
  | .int _ => some .integer
  | .float _ => none
  | .char _ => some .character
  | .string _ => some .text

/-- The kind that the first character of a text tells. -/
def Kind.told (first : Char) : Kind :=
  if first = 'n' then .null
  else if first = 't' ∨ first = 'f' then .truth
  else if first = '\'' then .character
  else if first = '"' then .text
  else .integer

variable {a b : Constant}

theorem told_of_isDigit {c : Char} (digit : c.isDigit = true) : Kind.told c = .integer := by
  have other {mark : Char} (plain : mark.isDigit = false) : c ≠ mark := by
    rintro rfl
    simp [digit] at plain
  rw [Kind.told, if_neg (other rfl), if_neg (not_or.mpr ⟨other rfl, other rfl⟩),
    if_neg (other rfl), if_neg (other rfl)]

/-- The text of an exact constant tells its kind. -/
theorem exists_told (exact : a.IsExact) :
    ∃ first rest, a.text.toList = first :: rest ∧ Kind.of? a = some (Kind.told first) := by
  cases a with
  | null => exact ⟨'n', "ull".toList, rfl, rfl⟩
  | bool value =>
    cases value with
    | true => exact ⟨'t', "rue".toList, rfl, rfl⟩
    | false => exact ⟨'f', "alse".toList, rfl, rfl⟩
  | int n =>
    simp only [text, Json.toList_toString_int]
    split
    · exact ⟨'-', _, rfl, rfl⟩
    · obtain ⟨digit, rest, digits⟩ :=
        List.exists_cons_of_ne_nil (Nat.toDigits_ne_nil (b := 10) (n := n.natAbs))
      have known : digit.isDigit = true := Json.isDigit_of_mem (digits ▸ List.mem_cons_self)
      exact ⟨digit, rest, digits, congrArg some (told_of_isDigit known).symm⟩
  | float => exact exact.elim
  | char c => exact ⟨'\'', _, String.toList_ofList, rfl⟩
  | string s => exact ⟨'"', _, String.toList_ofList, rfl⟩

theorem kind_eq_of_text (exact : a.IsExact) (exact' : b.IsExact) (same : a.text = b.text) :
    Kind.of? a = Kind.of? b := by
  obtain ⟨first, rest, written, told⟩ := exists_told exact
  obtain ⟨first', rest', written', told'⟩ := exists_told exact'
  rw [same, written'] at written
  rw [told, told', (List.cons.inj written).1]

theorem truth_eq_of_text {value value' : Bool} (same : (bool value).text = (bool value').text) :
    value = value' := by
  have differ : (bool true).text ≠ (bool false).text := by decide
  cases value with
  | true =>
    cases value' with
    | true => rfl
    | false => exact absurd same differ
  | false =>
    cases value' with
    | true => exact absurd same.symm differ
    | false => rfl

/-- No two constants other than doubles look alike, whatever characters they hold. -/
theorem text_eq_iff (exact : a.IsExact) (exact' : b.IsExact) : a.text = b.text ↔ a = b := by
  refine ⟨fun same => ?_, congrArg text⟩
  have kinds := kind_eq_of_text exact exact' same
  cases a with
  | null =>
    cases b with
    | null => rfl
    | _ => cases kinds
  | bool value =>
    cases b with
    | bool value' => exact congrArg Constant.bool (truth_eq_of_text same)
    | _ => cases kinds
  | int n =>
    cases b with
    | int m =>
      simp only [text, Int.toString_eq_repr] at same
      exact congrArg Constant.int (Int.repr_inj.mp same)
    | _ => cases kinds
  | float => exact exact.elim
  | char c =>
    cases b with
    | char c' =>
      have written := List.cons.inj (String.ofList_injective same)
      exact congrArg Constant.char (Text.quotedChar_inj (List.append_cancel_right written.2))
    | _ => cases kinds
  | string s =>
    cases b with
    | string s' =>
      have written := List.cons.inj (String.ofList_injective same)
      exact congrArg Constant.string (String.toList_inj.mp (Text.quoted_append_inj written.2).1)
    | _ => cases kinds

/-- A letter that is written by its number, and a text that spells out how it is written. -/
theorem spelledLetter_text_eq_iff :
    (string "é").IsExact ∧ (string "\\u\x7be9\x7d").IsExact ∧
      (string "é").text = "\"\\u\x7be9\x7d\"" ∧
      ((string "é").text = (string "\\u\x7be9\x7d").text ↔
        string "é" = string "\\u\x7be9\x7d") :=
  ⟨by decide, by decide, rfl, text_eq_iff (by decide) (by decide)⟩

end SemanticTrees.Constant
