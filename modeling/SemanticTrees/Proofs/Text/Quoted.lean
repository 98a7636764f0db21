import SemanticTrees.Text.Quoted
import Mathlib.Tactic.SplitIfs

/-! Quoted text tells what was quoted. A character is spelled in one of three ways, and where its
spelling ends can be told from the spelling alone, so no two texts are quoted alike, whatever
characters they hold. -/
namespace SemanticTrees

/-- A mark that neither of two texts has shows where they end. -/
theorem append_cons_inj_of_not_mem {α : Type} {a : α} {x y r s : List α} (left : a ∉ x)
    (right : a ∉ y) (same : x ++ a :: r = y ++ a :: s) : x = y ∧ r = s := by
  induction x generalizing y with
  | nil =>
    cases y with
    | nil => exact ⟨rfl, (List.cons.inj same).2⟩
    | cons b y => exact absurd ((List.cons.inj same).1 ▸ List.mem_cons_self) right
  | cons b x ih =>
    cases y with
    | nil => exact absurd ((List.cons.inj same).1 ▸ List.mem_cons_self) left
    | cons c y =>
      obtain ⟨rfl, others⟩ := List.cons.inj same
      obtain ⟨rfl, rfl⟩ := ih (List.not_mem_of_not_mem_cons left)
        (List.not_mem_of_not_mem_cons right) others
      exact ⟨rfl, rfl⟩

namespace Text

/-! ### Digits -/

/-- Hexadecimal digits tell which number they are of. -/
theorem hexadecimal_inj {n m : Nat} (same : hexadecimal n = hexadecimal m) : n = m := by
  have digit : ∀ a < 16, ∀ b < 16, a.digitChar = b.digitChar → a = b := by decide
  -- a number with one digit is not one with more, because some digit stands in front of the last
  have longer (front : Nat) (c d : Char) : [c] ≠ Nat.toDigits 16 front ++ [d] := by
    intro equal
    simpa using congrArg List.length equal
  unfold hexadecimal at same
  induction n using Nat.strongRecOn generalizing m with
  | ind n ih =>
    rw [Nat.toDigits_eq_if (by decide), Nat.toDigits_eq_if (n := m) (by decide)] at same
    split at same
    · next small =>
      split at same
      · next small' => exact digit n small m small' (List.singleton_inj.mp same)
      · exact absurd same (longer _ _ _)
    · next large =>
      split at same
      · exact absurd same.symm (longer _ _ _)
      · obtain ⟨fronts, lasts⟩ := List.append_inj' same rfl
        have quotients : n / 16 = m / 16 := ih (n / 16) (by omega) fronts
        have remainders : n % 16 = m % 16 :=
          digit _ (Nat.mod_lt n (by decide)) _ (Nat.mod_lt m (by decide))
            (List.singleton_inj.mp lasts)
        rw [← Nat.div_add_mod n 16, quotients, remainders, Nat.div_add_mod]

theorem isAlphanum_of_mem_hexadecimal {n : Nat} {c : Char} (member : c ∈ hexadecimal n) :
    c.isAlphanum = true := by
  have digits : ∀ n < 16, n.digitChar.isAlphanum = true := by decide
  unfold hexadecimal at member
  induction n using Nat.strongRecOn with
  | ind n ih =>
    rw [Nat.toDigits_eq_if (by decide)] at member
    split at member
    · next small =>
      obtain rfl := List.mem_singleton.mp member
      exact digits n small
    · next large =>
      obtain front | last := List.mem_append.mp member
      · exact ih (n / 16) (by omega) front
      · obtain rfl := List.mem_singleton.mp last
        exact digits _ (Nat.mod_lt _ (by decide))

/-! ### Characters -/

/-- The characters with a short form, and what stands behind the backslash for them. -/
def shortForms : List (Char × Char) :=
  [('\t', 't'), ('\r', 'r'), ('\n', 'n'), ('\'', '\''), ('"', '"'), ('\\', '\\')]

/-- Between quotation marks a character stands for itself, or it has a short form, or its number
stands for it. -/
inductive Spelling : Char → List Char → Prop
  | itself {c : Char} (quote : c ≠ '"') (slash : c ≠ '\\') (least : 0x20 ≤ c.toNat)
      (most : c.toNat ≤ 0x7e) : Spelling c [c]
  | short {c mark : Char} (listed : (c, mark) ∈ shortForms) : Spelling c ['\\', mark]
  | numbered (c : Char) :
      Spelling c ('\\' :: 'u' :: '\x7b' :: (hexadecimal c.toNat ++ ['\x7d']))

theorem spelling (c : Char) : Spelling c (quotedChar c) := by
  unfold quotedChar
  split_ifs with tab return_ line apostrophe quote slash printable
  · exact .short (by simp [shortForms, tab])
  · exact .short (by simp [shortForms, return_])
  · exact .short (by simp [shortForms, line])
  · exact .short (by simp [shortForms, apostrophe])
  · exact .short (by simp [shortForms, quote])
  · exact .short (by simp [shortForms, slash])
  · exact .itself quote slash printable.1 printable.2
  · exact .numbered c

variable {c c' : Char} {written written' : List Char}

/-- Where a spelling ends can be told, and which character it spells. -/
theorem Spelling.append_inj {rest rest' : List Char} (spells : Spelling c written)
    (spells' : Spelling c' written') (same : written ++ rest = written' ++ rest') :
    c = c' ∧ rest = rest' := by
  have once : ∀ form ∈ shortForms, ∀ form' ∈ shortForms, form.2 = form'.2 → form.1 = form'.1 := by
    decide
  have other : ∀ form ∈ shortForms, form.2 ≠ 'u' := by decide
  have closed (n : Nat) : '\x7d' ∉ hexadecimal n := fun member =>
    absurd (isAlphanum_of_mem_hexadecimal member) (by decide)
  cases spells with
  | itself _ slash =>
    cases spells' with
    | itself => exact List.cons.inj same
    | short | numbered => exact absurd (List.cons.inj same).1 slash
  | short listed =>
    cases spells' with
    | itself _ slash => exact absurd (List.cons.inj same).1.symm slash
    | short listed' =>
      obtain ⟨marks, rests⟩ := List.cons.inj (List.cons.inj same).2
      exact ⟨once _ listed _ listed' marks, rests⟩
    | numbered => exact absurd (List.cons.inj (List.cons.inj same).2).1 (other _ listed)
  | numbered =>
    cases spells' with
    | itself _ slash => exact absurd (List.cons.inj same).1.symm slash
    | short listed => exact absurd (List.cons.inj (List.cons.inj same).2).1.symm (other _ listed)
    | numbered =>
      simp only [List.cons_append, List.append_assoc, List.nil_append, List.cons.injEq,
        true_and] at same
      obtain ⟨numbers, rests⟩ := append_cons_inj_of_not_mem (closed _) (closed _) same
      exact ⟨Char.toNat_inj.mp (hexadecimal_inj numbers), rests⟩

/-- A spelling does not start with a quotation mark. -/
theorem Spelling.exists_cons (spells : Spelling c written) :
    ∃ d more, written = d :: more ∧ d ≠ '"' := by
  cases spells with
  | itself quote => exact ⟨c, [], rfl, quote⟩
  | short | numbered => exact ⟨_, _, rfl, by decide⟩

theorem quotedChar_inj (same : quotedChar c = quotedChar c') : c = c' :=
  ((spelling c).append_inj (spelling c') (congrArg (· ++ []) same)).1

/-! ### Texts -/

/-- The quotation mark behind a quoted text shows where it ends, and in front of that mark no two
texts look alike. -/
theorem quoted_append_inj {text text' rest rest' : List Char}
    (same : quoted text ++ '"' :: rest = quoted text' ++ '"' :: rest') :
    text = text' ∧ rest = rest' := by
  induction text generalizing text' with
  | nil =>
    cases text' with
    | nil => exact ⟨rfl, (List.cons.inj same).2⟩
    | cons c text' =>
      obtain ⟨d, more, written, quote⟩ := (spelling c).exists_cons
      simp only [quoted, List.flatMap_nil, List.flatMap_cons, written] at same
      exact absurd (List.cons.inj same).1.symm quote
  | cons c text ih =>
    cases text' with
    | nil =>
      obtain ⟨d, more, written, quote⟩ := (spelling c).exists_cons
      simp only [quoted, List.flatMap_nil, List.flatMap_cons, written] at same
      exact absurd (List.cons.inj same).1 quote
    | cons c' text' =>
      simp only [quoted, List.flatMap_cons, List.append_assoc] at same
      obtain ⟨rfl, others⟩ := (spelling c).append_inj (spelling c') same
      obtain ⟨rfl, rests⟩ := ih others
      exact ⟨rfl, rests⟩

end Text

end SemanticTrees
