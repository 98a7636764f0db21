import SemanticTrees.Json.Reader
import SemanticTrees.Json.Writer

/-! Numbers in JSON text. An integer is written by its decimal digits and is read back as long as
it fits sixty-four bits; and a number reads the same whatever stands behind it, as long as that
cannot go on with it. -/
namespace SemanticTrees.Json

open SemanticTrees.Decimal

/-- A text that does not go on with a number in front of it. -/
def EndsNumber (text : List Char) : Prop :=
  ∀ c ∈ text.head?, (digit? c).isSome = false ∧ c ∉ ['.', 'e', 'E', '+', '-']

theorem endsNumber_nil : EndsNumber [] := by simp [EndsNumber]

theorem endsNumber_cons {c : Char} {text : List Char} :
    EndsNumber (c :: text) ↔ (digit? c).isSome = false ∧ c ∉ ['.', 'e', 'E', '+', '-'] := by
  simp [EndsNumber]

/-- The sign of a power of ten, and what stands behind it. -/
def powerSign : List Char → Bool × List Char
  | '-' :: text => (true, text)
  | '+' :: text => (false, text)
  | text => (false, text)

theorem powerSign_append {text : List Char} (given : text ≠ []) (tail : List Char) :
    powerSign (text ++ tail) = ((powerSign text).1, (powerSign text).2 ++ tail) := by
  cases text with
  | nil => contradiction
  | cons c text =>
    by_cases minus : c = '-'
    · subst minus
      rfl
    · by_cases plus : c = '+'
      · subst plus
        rfl
      · simp [powerSign, minus, plus]

theorem readPower_of_letter {c : Char} (letter : c = 'e' ∨ c = 'E') (text : List Char) :
    readPower (c :: text) =
      match readDigits (powerSign text).2 with
      | ([], _) => none
      | (digits, rest) => some (some ((powerSign text).1, digits), rest) :=
  if_pos letter

theorem readPower_of_ne {text : List Char} (other : ∀ c ∈ text.head?, ¬(c = 'e' ∨ c = 'E')) :
    readPower text = some (none, text) := by
  cases text with
  | nil => rfl
  | cons c text => exact if_neg (other c rfl)

theorem readFraction_of_ne {text : List Char} (other : text.head? ≠ some '.') :
    readFraction text = some (none, text) := by
  unfold readFraction
  split
  · simp at other
  · rfl

/-- The sign of a number, and what stands behind it. -/
def literalSign : List Char → Bool × List Char
  | '-' :: text => (true, text)
  | text => (false, text)

/-- Digits in front of a point: a zero is the only one of them, or not the first. -/
def Whole (digits : List Nat) : Prop := digits ≠ [] ∧ ∀ more, digits = 0 :: more → more = []

theorem readLiteral_eq (text : List Char) :
    readLiteral text =
      match readDigits (literalSign text).2 with
      | ([], _) => none
      | (0 :: _ :: _, _) => none
      | (whole, rest) =>
        (readFraction rest).bind fun (fraction, rest) =>
          (readPower rest).bind fun (power, rest) =>
            some ({ negative := (literalSign text).1, whole, fraction, power }, rest) := by
  unfold readLiteral
  split
  next negative body signed =>
    have signed : literalSign text = (negative, body) := signed
    rw [signed]
    split <;> next found => simp only [found]; rfl

/-- What a literal is made of: a sign, digits, a fraction and a power of ten. -/
theorem readLiteral_eq_some_iff {text rest : List Char} {literal : Literal} :
    readLiteral text = some (literal, rest) ↔
      (literalSign text).1 = literal.negative ∧ Whole literal.whole ∧
        ∃ afterWhole afterFraction,
          readDigits (literalSign text).2 = (literal.whole, afterWhole) ∧
            readFraction afterWhole = some (literal.fraction, afterFraction) ∧
              readPower afterFraction = some (literal.power, rest) := by
  obtain ⟨negative, whole, fraction, power⟩ := literal
  rw [readLiteral_eq]
  split
  next found =>
    simp only [found, Prod.mk.injEq, reduceCtorEq, false_iff]
    rintro ⟨-, ⟨given, -⟩, -, -, ⟨rfl, -⟩, -⟩
    exact given rfl
  next found =>
    simp only [found, Prod.mk.injEq, reduceCtorEq, false_iff]
    rintro ⟨-, ⟨-, alone⟩, -, -, ⟨rfl, -⟩, -⟩
    exact absurd (alone _ rfl) (by simp)
  next digits after notEmpty notLeading found =>
    have plain : Whole digits := by
      refine ⟨notEmpty, fun more leading => ?_⟩
      cases more with
      | nil => rfl
      | cons digit more => exact absurd leading (notLeading digit more)
    simp only [found, Option.bind_eq_some_iff, Prod.exists, Option.some.injEq, Prod.mk.injEq,
      Literal.mk.injEq]
    constructor
    · rintro ⟨_, afterFraction, fractionRead, _, _, powerRead, ⟨rfl, rfl, rfl, rfl⟩, rfl⟩
      exact ⟨rfl, plain, _, _, ⟨rfl, rfl⟩, fractionRead, powerRead⟩
    · rintro ⟨rfl, -, _, afterFraction, ⟨rfl, rfl⟩, fractionRead, powerRead⟩
      exact ⟨_, _, fractionRead, _, _, powerRead, ⟨rfl, rfl, rfl, rfl⟩, rfl⟩

section Appended

variable {tail : List Char} (ends : EndsNumber tail)
include ends

theorem readDigits_append (text : List Char) :
    readDigits (text ++ tail) = ((readDigits text).1, (readDigits text).2 ++ tail) := by
  induction text with
  | nil =>
    cases tail with
    | nil => rfl
    | cons c tail => simp [readDigits, (endsNumber_cons.mp ends).1]
  | cons c text ih =>
    simp only [readDigits, Prod.mk.injEq] at ih
    cases digit : digit? c <;> simp [readDigits, digit, ih]

theorem readFraction_append {text rest : List Char} {fraction : Option (List Nat)}
    (read : readFraction text = some (fraction, rest)) :
    readFraction (text ++ tail) = some (fraction, rest ++ tail) := by
  by_cases point : text.head? = some '.'
  · obtain ⟨text, rfl⟩ := List.head?_eq_some_iff.mp point
    simp only [readFraction, List.cons_append, readDigits_append ends] at read ⊢
    generalize readDigits text = found at read ⊢
    obtain ⟨_ | ⟨digit, digits⟩, left⟩ := found
    · simp at read
    · simp_all
  · rw [readFraction_of_ne point] at read
    have other : (text ++ tail).head? ≠ some '.' := by
      cases text with
      | nil => exact fun first => by simpa using (ends '.' first).2
      | cons c text => exact point
    rw [readFraction_of_ne other]
    simp_all

theorem readPower_append {text rest : List Char} {power : Option (Bool × List Nat)}
    (read : readPower text = some (power, rest)) :
    readPower (text ++ tail) = some (power, rest ++ tail) := by
  cases text with
  | nil =>
    have other : ∀ c ∈ tail.head?, ¬(c = 'e' ∨ c = 'E') := fun c first letter =>
      (ends c first).2 (by rcases letter with rfl | rfl <;> simp)
    obtain ⟨rfl, rfl⟩ : power = none ∧ rest = [] := by simpa [readPower, eq_comm] using read
    exact readPower_of_ne other
  | cons c text =>
    by_cases letter : c = 'e' ∨ c = 'E'
    · have given : text ≠ [] := by
        rintro rfl
        simp [readPower_of_letter letter, powerSign, readDigits] at read
      simp only [List.cons_append, readPower_of_letter letter, powerSign_append given,
        readDigits_append ends] at read ⊢
      generalize readDigits (powerSign text).2 = found at read ⊢
      obtain ⟨_ | ⟨digit, digits⟩, left⟩ := found
      · simp at read
      · simp_all
    · rw [readPower_of_ne (by simpa using letter)] at read
      rw [readPower_of_ne (by simpa using letter)]
      simp_all

omit ends in
theorem literalSign_append {text : List Char} (given : text ≠ []) :
    literalSign (text ++ tail) = ((literalSign text).1, (literalSign text).2 ++ tail) := by
  cases text with
  | nil => contradiction
  | cons c text =>
    by_cases minus : c = '-'
    · subst minus
      rfl
    · simp [literalSign, minus]

/-- A literal reads the same in front of what does not go on with it. -/
theorem readLiteral_append {text rest : List Char} {literal : Literal}
    (read : readLiteral text = some (literal, rest)) :
    readLiteral (text ++ tail) = some (literal, rest ++ tail) := by
  obtain ⟨sign, whole, afterWhole, afterFraction, digits, fraction, power⟩ :=
    readLiteral_eq_some_iff.mp read
  have given : text ≠ [] := by
    rintro rfl
    exact whole.1 (congrArg Prod.fst digits).symm
  rw [readLiteral_eq_some_iff, literalSign_append given, readDigits_append ends, digits]
  exact ⟨sign, whole, _, _, rfl, readFraction_append ends fraction, readPower_append ends power⟩

end Appended

/-! ## Integers -/

theorem digit?_of_isDigit {c : Char} (digit : c.isDigit = true) :
    digit? c = some (c.toNat - '0'.toNat) :=
  if_pos (by simpa [Char.isDigit, Char.le_def] using digit)

theorem isDigit_of_mem {n : Nat} {c : Char} (member : c ∈ Nat.toDigits 10 n) :
    c.isDigit = true :=
  Nat.isDigit_of_mem_toDigits (by decide) (by decide) member

/-- Only zero is written with a zero in front. -/
theorem eq_zero_of_toDigits_eq_cons {n : Nat} {more : List Char}
    (written : Nat.toDigits 10 n = '0' :: more) : n = 0 := by
  induction n using Nat.strongRecOn generalizing more with
  | _ n ih =>
    rw [Nat.toDigits_eq_if (by decide)] at written
    split at written
    next small =>
      have only : ∀ m < 10, m.digitChar = '0' → m = 0 := by decide
      exact only n small (List.cons.inj written).1
    next large =>
      cases leading : Nat.toDigits 10 (n / 10) with
      | nil => exact absurd leading Nat.toDigits_ne_nil
      | cons c front =>
        rw [leading] at written
        obtain rfl := (List.cons.inj written).1
        have := ih (n / 10) (by omega) leading
        omega

/-- The digits of a natural number as they are read. -/
def numeral (n : Nat) : List Nat := (Nat.toDigits 10 n).map fun c => c.toNat - '0'.toNat

theorem whole_numeral (n : Nat) : Whole (numeral n) := by
  refine ⟨by simp [numeral, Nat.toDigits_ne_nil], fun more leading => ?_⟩
  cases written : Nat.toDigits 10 n with
  | nil => simp [numeral, written] at leading
  | cons c front =>
    have digit : c.isDigit = true := isDigit_of_mem (written ▸ List.mem_cons_self)
    simp only [numeral, written, List.map_cons, List.cons.injEq] at leading
    have zero : c = '0' := by
      have least : '0'.toNat ≤ c.toNat := by
        simp only [Char.isDigit, Bool.and_eq_true, decide_eq_true_eq] at digit
        exact digit.1
      exact Char.toNat_inj.mp (by omega)
    subst zero
    obtain rfl := eq_zero_of_toDigits_eq_cons written
    rw [Nat.toDigits_zero] at written
    simp_all

theorem readDigits_numeral (n : Nat) : readDigits (Nat.toDigits 10 n) = (numeral n, []) := by
  have all : ∀ c ∈ Nat.toDigits 10 n, c.isDigit = true := fun _ => isDigit_of_mem
  unfold numeral
  generalize Nat.toDigits 10 n = text at all
  induction text with
  | nil => rfl
  | cons c text ih =>
    have rest := ih fun c member => all c (List.mem_cons_of_mem _ member)
    have digit := digit?_of_isDigit (all c List.mem_cons_self)
    simp only [readDigits, Prod.mk.injEq] at rest
    simp [readDigits, digit, rest]

open Literal in
/-- Digits are gathered into their value as long as that has a place. -/
theorem gatherWhole_map (text : List Char) (start : Nat)
    (fits : Nat.ofDigitChars 10 text start ≤ mostSignificand) :
    gatherWhole (text.map fun c => c.toNat - '0'.toNat) start =
      (Nat.ofDigitChars 10 text start, 0) := by
  induction text generalizing start with
  | nil => rfl
  | cons c text ih =>
    rw [Nat.ofDigitChars_cons] at fits ⊢
    have grows : 10 * start + (c.toNat - '0'.toNat) ≤
        Nat.ofDigitChars 10 text (10 * start + (c.toNat - '0'.toNat)) := by
      rw [Nat.ofDigitChars_eq_ofDigitChars_zero]
      exact Nat.le_add_right_of_le (Nat.le_mul_of_pos_left _ (Nat.pow_pos (by decide)))
    rw [List.map_cons, gatherWhole, if_pos (Nat.le_trans grows fits), ih _ fits]

theorem gatherWhole_numeral {n : Nat} (fits : n ≤ Literal.mostSignificand) :
    Literal.gatherWhole (numeral n) 0 = (n, 0) := by
  have value : Nat.ofDigitChars 10 (Nat.toDigits 10 n) 0 = n :=
    Nat.ofDigitChars_toDigits (by decide) (by decide)
  rw [numeral, gatherWhole_map _ _ (by rwa [value]), value]

/-- The literal of an integer. -/
def integerLiteral (n : Int) : Literal :=
  { negative := n < 0, whole := numeral n.natAbs, fraction := none, power := none }

theorem literalSign_toDigits (n : Nat) :
    literalSign (Nat.toDigits 10 n) = (false, Nat.toDigits 10 n) := by
  cases written : Nat.toDigits 10 n with
  | nil => rfl
  | cons c text =>
    have digit : c.isDigit = true := isDigit_of_mem (written ▸ List.mem_cons_self)
    have other : c ≠ '-' := by
      rintro rfl
      simp at digit
    simp [literalSign, other]

theorem toList_toString_int (n : Int) :
    (toString n).toList = (if n < 0 then ['-'] else []) ++ Nat.toDigits 10 n.natAbs := by
  rw [Int.toString_eq_repr, Int.repr_eq_if]
  by_cases negative : n < 0
  · rw [if_neg (by omega), if_pos negative, String.toList_append, Nat.toList_repr,
      show (-n).toNat = n.natAbs by omega]
    rfl
  · rw [if_pos (by omega), if_neg negative, Nat.toList_repr, show n.toNat = n.natAbs by omega]
    rfl

theorem readLiteral_integer (n : Int) :
    readLiteral (toString n).toList = some (integerLiteral n, []) := by
  rw [toList_toString_int, readLiteral_eq_some_iff]
  have signed : literalSign ((if n < 0 then ['-'] else []) ++ Nat.toDigits 10 n.natAbs) =
      (decide (n < 0), Nat.toDigits 10 n.natAbs) := by
    split
    next negative => simp [negative, literalSign]
    next notNegative => simp [notNegative, literalSign_toDigits]
  rw [signed]
  exact ⟨rfl, whole_numeral _, [], [], readDigits_numeral _, rfl, rfl⟩

/-- An integer of sixty-four bits, signed or not. -/
def FitsWord (n : Int) : Prop := -9223372036854775808 ≤ n ∧ n ≤ 18446744073709551615

theorem ofLiteral_integer {n : Int} (fits : FitsWord n) :
    ofLiteral (integerLiteral n) = .integer n := by
  obtain ⟨least, most⟩ := fits
  have gathered : Literal.gatherWhole (numeral n.natAbs) 0 = (n.natAbs, 0) :=
    gatherWhole_numeral (by simp only [Literal.mostSignificand]; omega)
  have read : (integerLiteral n).integer? = some n := by
    simp only [Literal.integer?, integerLiteral, gathered]
    by_cases negative : n < 0
    · simp only [negative, decide_true]
      rw [if_neg (by simp), if_pos (by omega), Option.some.injEq]
      omega
    · simp [negative]
      omega
  simp [ofLiteral, Literal.number?, read]

/-! ## The characters of numbers -/

/-- The characters that numbers are written with. -/
def NumberChar (c : Char) : Prop := c.isDigit = true ∨ c ∈ ['-', '.', 'e']

theorem numberChar_of_mem_toDigits {n : Nat} {c : Char} (member : c ∈ Nat.toDigits 10 n) :
    NumberChar c :=
  .inl (isDigit_of_mem member)

theorem numberChar_toString_int {n : Int} : ∀ c ∈ (toString n).toList, NumberChar c := by
  intro c member
  rw [toList_toString_int, List.mem_append] at member
  rcases member with sign | digit
  · split at sign <;> simp_all [NumberChar]
  · exact numberChar_of_mem_toDigits digit

theorem numberChar_positional (d : Scaled) : ∀ c ∈ Notation.positional d, NumberChar c := by
  have digit : ∀ c ∈ Notation.digitsOf d.digits, NumberChar c := fun _ => numberChar_of_mem_toDigits
  have zero : NumberChar '0' := .inl rfl
  have point : NumberChar '.' := .inr (by simp)
  intro c member
  simp only [Notation.positional] at member
  split at member
  · simp only [List.mem_append, List.mem_replicate, List.mem_cons, List.not_mem_nil,
      or_false] at member
    rcases member with (member | ⟨-, rfl⟩) | rfl | rfl
    · exact digit c member
    · exact zero
    · exact point
    · exact zero
  · split at member
    · simp only [List.mem_append, List.mem_cons] at member
      rcases member with member | rfl | member
      · exact digit c (List.mem_of_mem_take member)
      · exact point
      · exact digit c (List.mem_of_mem_drop member)
    · simp only [List.mem_append, List.mem_replicate, List.mem_cons,
        List.not_mem_nil, or_false] at member
      rcases member with ((rfl | rfl) | ⟨-, rfl⟩) | member
      · exact zero
      · exact point
      · exact zero
      · exact digit c member

theorem numberChar_scientific (d : Scaled) : ∀ c ∈ Notation.scientific d, NumberChar c := by
  have digit : ∀ c ∈ Notation.digitsOf d.digits, NumberChar c := fun _ => numberChar_of_mem_toDigits
  have point : NumberChar '.' := .inr (by simp)
  intro c member
  simp only [Notation.scientific, List.mem_append, List.mem_cons] at member
  rcases member with (member | rfl | member) | member
  · generalize Notation.digitsOf d.digits = digits at digit member
    split at member
    · contradiction
    · exact digit c member
    · simp only [List.mem_cons] at member digit
      rcases member with rfl | rfl | member
      · exact digit _ (.inl rfl)
      · exact point
      · exact digit c (.inr member)
  · exact .inr (.tail _ (.tail _ (.head _)))
  · split at member <;> simp_all [NumberChar]
  · exact numberChar_of_mem_toDigits member

theorem numberChar_ofMagnitude (form : Notation) (magnitude : Nat) :
    ∀ c ∈ form.ofMagnitude magnitude, NumberChar c := by
  intro c member
  simp only [Notation.ofMagnitude] at member
  split at member
  · simp only [List.mem_cons, List.not_mem_nil, or_false] at member
    rcases member with rfl | rfl | rfl <;> simp [NumberChar]
  · split at member
    · exact numberChar_positional _ c member
    · exact numberChar_scientific _ c member

theorem numberChar_text {x : Binary64} (finite : x.isFinite = true) :
    ∀ c ∈ numberForm.text x, NumberChar c := by
  simp only [Binary64.isFinite, decide_eq_true_eq] at finite
  have notNaN : x.isNaN = false := by simp [Binary64.isNaN]; omega
  have notInfinite : x.isInfinite = false := by simp [Binary64.isInfinite]; omega
  intro c member
  simp only [Notation.text, notNaN, notInfinite, Bool.false_eq_true, if_false,
    List.mem_append] at member
  rcases member with sign | member
  · split at sign <;> simp_all [NumberChar]
  · exact numberChar_ofMagnitude _ _ c member

theorem isSpace_of_numberChar {c : Char} (numeric : NumberChar c) : isSpace c = false := by
  refine Bool.eq_false_iff.mpr fun space => ?_
  simp only [isSpace, Bool.or_eq_true, beq_iff_eq] at space
  rcases space with ((rfl | rfl) | rfl) | rfl <;> simp [NumberChar] at numeric

/-- A number is told from every other value by its first character. -/
theorem readValue_number {c : Char} (first : NumberChar c) (fuel : Nat) (text : List Char) :
    readValue (fuel + 1) (c :: text) =
      (readLiteral (c :: text)).map fun (literal, rest) => (ofLiteral literal, rest) := by
  have kept : skipSpace (c :: text) = c :: text := by
    simp [skipSpace, isSpace_of_numberChar first]
  rw [readValue, kept]
  split <;> simp_all [NumberChar]

end SemanticTrees.Json
