import SemanticTrees.Json.Reader
import SemanticTrees.Json.Writer

/-! Strings in JSON text. Whatever a string holds, its escaped form reads back; a string that needs
no escapes is read as one without any, which matters for the names of members. -/
namespace SemanticTrees.Json

/-- A character that stands for itself between quotation marks. -/
def Plain (c : Char) : Prop := c ≠ '"' ∧ c ≠ '\\' ∧ 0x20 ≤ c.toNat

instance (c : Char) : Decidable (Plain c) := inferInstanceAs (Decidable (_ ∧ _ ∧ _))

theorem plain_of_isDigit {c : Char} (digit : c.isDigit = true) : Plain c := by
  refine ⟨?_, ?_, ?_⟩
  · rintro rfl
    simp at digit
  · rintro rfl
    simp at digit
  · simp only [Char.isDigit, Bool.and_eq_true, decide_eq_true_eq] at digit
    exact Nat.le_trans (by decide) digit.1

variable {c : Char} {before : List Piece} {escaped : Bool} {tail : List Char}

theorem escapedChar_of_plain (plain : Plain c) : (escapedChar c).toList = [c] := by
  obtain ⟨quote, slash, ink⟩ := plain
  have printed : ∀ control : Char, control.toNat < 0x20 → c ≠ control := by
    rintro _ low rfl
    omega
  unfold escapedChar
  rw [if_neg quote, if_neg slash, if_neg (printed _ (by decide)), if_neg (printed _ (by decide)),
    if_neg (printed _ (by decide)), if_neg (printed _ (by decide)),
    if_neg (printed _ (by decide)), if_neg (by omega)]
  simp

theorem readString_plain (plain : Plain c) :
    readString before escaped (c :: tail) = readString (.char c :: before) escaped tail := by
  obtain ⟨quote, slash, ink⟩ := plain
  rw [readString]
  · simp; omega
  all_goals simp_all

/-- Four digits are enough for a control character. -/
def unitOfControl (n : Nat) : Option Nat :=
  match List.replicate (4 - (Text.hexadecimal n).length) '0' ++ Text.hexadecimal n with
  | [a, b, c, d] => unit? a b c d
  | _ => none

theorem unitOfControl_eq : ∀ n < 0x20, unitOfControl n = some n := by decide

theorem readString_control (control : c.toNat < 0x20) :
    readString before escaped
        ('\\' :: 'u' :: (List.replicate (4 - (Text.hexadecimal c.toNat).length) '0' ++
          Text.hexadecimal c.toNat) ++ tail) =
      readString (.char c :: before) true tail := by
  have read := unitOfControl_eq c.toNat control
  unfold unitOfControl at read
  split at read
  next a b c' d written =>
    have whole : Piece.ofUnit c.toNat = .char c := by
      have high : isHighSurrogate c.toNat = false := by simp [isHighSurrogate]; omega
      have low : isLowSurrogate c.toNat = false := by simp [isLowSurrogate]; omega
      simp [Piece.ofUnit, high, low]
    rw [written]
    simp [readString, read, whole]
  · contradiction

/-- The form of every character reads back. -/
theorem readString_escapedChar (c : Char) (before : List Piece) (escaped : Bool)
    (tail : List Char) :
    ∃ after, readString before escaped ((escapedChar c).toList ++ tail) =
      readString (.char c :: before) after tail := by
  by_cases short : c ∈ ['"', '\\', '\x08', '\x0c', '\n', '\r', '\t']
  · refine ⟨true, ?_⟩
    simp only [List.mem_cons, List.not_mem_nil, or_false] at short
    rcases short with rfl | rfl | rfl | rfl | rfl | rfl | rfl <;> rfl
  · by_cases control : c.toNat < 0x20
    · refine ⟨true, ?_⟩
      rw [← readString_control control]
      congr 1
      simp_all [escapedChar]
    · have plain : Plain c := by simp_all [Plain]
      exact ⟨escaped, by rw [escapedChar_of_plain plain]; exact readString_plain plain⟩

/-! ## Whole strings -/

/-- A text as it stands between quotation marks. -/
def escapedText (text : List Char) : List Char := text.flatMap fun c => (escapedChar c).toList

theorem toList_stringText (text : String) :
    (stringText text).toList = '"' :: (escapedText text.toList ++ ['"']) := by
  have appended (start : String) (rest : List Char) :
      (rest.foldl (fun out c => out ++ escapedChar c) start).toList =
        start.toList ++ escapedText rest := by
    induction rest generalizing start with
    | nil => simp [escapedText]
    | cons c rest ih => simp [ih, escapedText]
  rw [stringText, String.foldl_eq_foldl_toList, String.toList_append, appended]
  rfl

theorem readString_escapedText (text : List Char) (before : List Piece) (escaped : Bool)
    (tail : List Char) :
    ∃ after, readString before escaped (escapedText text ++ '"' :: tail) =
      some (⟨(text.map .char).reverse ++ before, after⟩, tail) := by
  induction text generalizing before escaped with
  | nil => exact ⟨escaped, rfl⟩
  | cons c text ih =>
    obtain ⟨between, first⟩ :=
      readString_escapedChar c before escaped (escapedText text ++ '"' :: tail)
    obtain ⟨after, rest⟩ := ih (.char c :: before) between
    refine ⟨after, ?_⟩
    rw [escapedText, List.flatMap_cons, List.append_assoc, ← escapedText, first, rest]
    simp

theorem readString_plainText {text : List Char} (plain : ∀ c ∈ text, Plain c)
    (before : List Piece) (escaped : Bool) (tail : List Char) :
    readString before escaped (escapedText text ++ '"' :: tail) =
      some (⟨(text.map .char).reverse ++ before, escaped⟩, tail) := by
  induction text generalizing before with
  | nil => rfl
  | cons c text ih =>
    have here := plain c List.mem_cons_self
    have rest := ih (fun d member => plain d (List.mem_cons_of_mem _ member)) (.char c :: before)
    rw [escapedText, List.flatMap_cons, escapedChar_of_plain here, List.append_assoc,
      ← escapedText, List.singleton_append, readString_plain here, rest]
    simp

theorem joinPieces_chars (reversed after : List Char) :
    joinPieces after (reversed.map .char) = some (reversed.reverse ++ after) := by
  induction reversed generalizing after with
  | nil => rfl
  | cons c reversed ih => simp [joinPieces, ih]

theorem text?_chars (text : String) (escaped : Bool) :
    StringScan.text? ⟨(text.toList.map .char).reverse, escaped⟩ = some text := by
  rw [StringScan.text?, ← List.map_reverse, joinPieces_chars]
  simp

/-- A string reads back, whatever it holds. -/
theorem readString_value (text : String) (tail : List Char) :
    ∃ scan : StringScan, readString [] false (escapedText text.toList ++ '"' :: tail) =
      some (scan, tail) ∧ scan.value = .string text := by
  obtain ⟨after, read⟩ := readString_escapedText text.toList [] false tail
  refine ⟨_, read, ?_⟩
  rw [List.append_nil, StringScan.value, text?_chars]

/-- A name of plain characters is read without an escape. -/
theorem readString_key {name : String} (plain : ∀ c ∈ name.toList, Plain c) (tail : List Char) :
    ∃ scan : StringScan, readString [] false (escapedText name.toList ++ '"' :: tail) =
      some (scan, tail) ∧ scan.key = Key.ofString name := by
  refine ⟨_, readString_plainText plain [] false tail, ?_⟩
  rw [List.append_nil, StringScan.key, text?_chars]
  rfl

end SemanticTrees.Json
