import SemanticTrees.Proofs.Json.Numbers
import SemanticTrees.Proofs.Rendering.Lines
import SemanticTrees.Proofs.Text.Quoted

/-! The characters of lines. Apart from the names of types and symbols a line has only printable
characters of ASCII, because other characters of strings and labels are written by their number. -/
namespace SemanticTrees

open Json Decimal

/-- A printable character of ASCII. -/
def Printable (c : Char) : Prop := 0x20 ≤ c.toNat ∧ c.toNat ≤ 0x7e

instance (c : Char) : Decidable (Printable c) := inferInstanceAs (Decidable (_ ∧ _))

theorem printable_of_le {first last c : Char} (least : first.val ≤ c.val) (most : c.val ≤ last.val)
    (lower : Printable first) (upper : Printable last) : Printable c :=
  ⟨Nat.le_trans lower.1 (UInt32.le_iff_toNat_le.mp least),
    Nat.le_trans (UInt32.le_iff_toNat_le.mp most) upper.2⟩

theorem printable_of_isAlphanum {c : Char} (letter : c.isAlphanum = true) : Printable c := by
  obtain letter | digit := (Bool.or_eq_true _ _).mp letter
  · obtain upper | lower := (Bool.or_eq_true _ _).mp letter
    · have range : 'A'.val ≤ c.val ∧ c.val ≤ 'Z'.val := of_decide_eq_true upper
      exact printable_of_le range.1 range.2 (by decide) (by decide)
    · have range := (Bool.and_eq_true _ _).mp lower
      exact printable_of_le (of_decide_eq_true range.1) (of_decide_eq_true range.2) (by decide)
        (by decide)
  · have range := (Bool.and_eq_true _ _).mp digit
    exact printable_of_le (of_decide_eq_true range.1) (of_decide_eq_true range.2) (by decide)
      (by decide)

theorem printable_of_isAlpha {c : Char} (letter : c.isAlpha = true) : Printable c :=
  printable_of_isAlphanum (by simp [Char.isAlphanum, letter])

theorem printable_of_numberChar {c : Char} (numeric : NumberChar c) : Printable c := by
  obtain digit | mark := numeric
  · exact printable_of_isAlphanum (by simp [Char.isAlphanum, digit])
  · simp only [List.mem_cons, List.not_mem_nil, or_false] at mark
    obtain rfl | rfl | rfl := mark <;> decide

namespace Text

/-- Between quotation marks a character stands for itself, or else a backslash, a printable
character and letters, digits or brackets stand for it. -/
inductive QuotedForm : Char → List Char → Prop
  | itself {c : Char} (quote : c ≠ '"') (slash : c ≠ '\\') (printable : Printable c) :
      QuotedForm c [c]
  | escaped {c d : Char} {rest : List Char} (printable : Printable d)
      (plain : ∀ e ∈ rest, e ≠ '"' ∧ e ≠ '\\' ∧ Printable e) : QuotedForm c ('\\' :: d :: rest)

theorem quotedForm (c : Char) : QuotedForm c (quotedChar c) := by
  have spells := spelling c
  generalize quotedChar c = written at spells
  cases spells with
  | itself quote slash least most => exact .itself quote slash ⟨least, most⟩
  | short listed =>
    have printable : ∀ form ∈ shortForms, Printable form.2 := by decide
    exact .escaped (printable _ listed) (by simp)
  | numbered =>
    refine .escaped (by decide) ?_
    intro e member
    simp only [List.mem_cons, List.mem_append, List.not_mem_nil, or_false] at member
    obtain rfl | digit | rfl := member
    · decide
    · have letter := isAlphanum_of_mem_hexadecimal digit
      refine ⟨?_, ?_, printable_of_isAlphanum letter⟩ <;> rintro rfl <;> simp at letter
    · decide

theorem printable_of_mem_quoted {text : List Char} {e : Char} (member : e ∈ quoted text) :
    Printable e := by
  obtain ⟨c, _, member⟩ := List.mem_flatMap.mp member
  have form := quotedForm c
  generalize quotedChar c = written at form member
  cases form with
  | itself _ _ printable => exact List.mem_singleton.mp member ▸ printable
  | escaped printable plain =>
    simp only [List.mem_cons] at member
    obtain rfl | rfl | member := member
    · decide
    · exact printable
    · exact (plain e member).2.2

end Text

/-! ### Constants -/

namespace Constant

/-- Numbers are written with digits and signs, or they have a name. -/
theorem mem_number {x : Binary64} {c : Char} (member : c ∈ (text (.float x)).toList) :
    NumberChar c ∨ c ∈ "NaN".toList ∨ c ∈ "inf".toList := by
  have sign : ∀ c ∈ (if x.isNegative then ['-'] else []), NumberChar c := by
    split <;> simp [NumberChar]
  simp only [text, String.toList_ofList, Notation.text] at member
  split at member
  · exact .inr (.inl member)
  · split at member
    · obtain front | rest := List.mem_append.mp member
      · exact .inl (sign c front)
      · exact .inr (.inr rest)
    · obtain front | rest := List.mem_append.mp member
      · exact .inl (sign c front)
      · exact .inl (numberChar_ofMagnitude _ _ c rest)

/-- Constants are written with printable characters. -/
theorem printable_of_mem_text {constant : Constant} {c : Char}
    (member : c ∈ constant.text.toList) : Printable c := by
  have words (word : String) (listed : word ∈ ["null", "true", "false", "NaN", "inf"])
      (c : Char) (member : c ∈ word.toList) : Printable c := by
    have letters : ∀ word ∈ ["null", "true", "false", "NaN", "inf"], Alphabetic word := by decide
    exact printable_of_isAlpha ((letters word listed).2 c member)
  cases constant with
  | null => exact words "null" (by decide) c member
  | bool value => cases value <;> exact words _ (by decide) c member
  | int n => exact printable_of_numberChar (numberChar_toString_int c member)
  | float x =>
    obtain numeric | nan | infinite := mem_number member
    · exact printable_of_numberChar numeric
    · exact words "NaN" (by decide) c nan
    · exact words "inf" (by decide) c infinite
  | char d =>
    simp only [text, String.toList_ofList, List.mem_cons, List.mem_append, List.not_mem_nil,
      or_false, List.cons_append] at member
    obtain rfl | inner | rfl := member
    · decide
    · have member : c ∈ Text.quoted [d] := by simpa [Text.quoted] using inner
      exact Text.printable_of_mem_quoted member
    · decide
  | string s =>
    simp only [text, String.toList_ofList, List.mem_cons, List.mem_append, List.not_mem_nil,
      or_false, List.cons_append] at member
    obtain rfl | inner | rfl := member
    · decide
    · exact Text.printable_of_mem_quoted inner
    · decide

end Constant

end SemanticTrees
