import SemanticTrees.Proofs.Rendering.Values

/-! Separators in lines. Where a value ends can be told: a coded value ends where it says so, and a
plain name does not contain what stands behind values. -/
namespace SemanticTrees

section Patterns

variable {α : Type} {a : α} {pattern first rest : List α}

/-- A pattern that does not have a separator stands in front of it or behind it. -/
theorem infix_append_cons (absent : a ∉ pattern) (within : pattern <:+: first ++ a :: rest) :
    pattern <:+: first ∨ pattern <:+: rest := by
  obtain ⟨before, after, same⟩ := within
  rw [List.append_assoc] at same
  obtain ⟨left, rfl, behind⟩ | ⟨right, rfl, behind⟩ := List.append_eq_append_iff.mp same
  · obtain ⟨more, rfl, _⟩ | ⟨more, rfl, last⟩ := List.append_eq_append_iff.mp behind
    · exact .inl ⟨before, more, by simp⟩
    · cases more with
      | nil => exact .inl ⟨before, [], by simp⟩
      | cons b more =>
        obtain rfl := (List.cons.inj last).1
        exact absurd (List.mem_append_right _ List.mem_cons_self) absent
  · cases right with
    | nil =>
      cases pattern with
      | nil => exact .inl ⟨[], first, rfl⟩
      | cons b pattern =>
        obtain rfl := (List.cons.inj behind).1
        exact absurd List.mem_cons_self absent
    | cons b right =>
      obtain ⟨rfl, rfl⟩ := List.cons.inj behind
      exact .inr ⟨right, after, by simp⟩

theorem not_infix_append_cons (absent : a ∉ pattern) (none : ¬pattern <:+: first)
    (none' : ¬pattern <:+: rest) : ¬pattern <:+: first ++ a :: rest :=
  fun within => (infix_append_cons absent within).elim none none'

/-- A pattern whose first entry does not come again ends what has no such pattern. -/
theorem append_pattern_inj {x y r s : List α} (fresh : a ∉ pattern) (left : ¬a :: pattern <:+: x)
    (right : ¬a :: pattern <:+: y) (same : x ++ (a :: pattern ++ r) = y ++ (a :: pattern ++ s)) :
    x = y ∧ r = s := by
  -- If one text were longer, the pattern behind the other one would start in it.
  have shorter {x more r s : List α} (none : ¬a :: pattern <:+: x ++ more)
      (same : a :: pattern ++ r = more ++ (a :: pattern ++ s)) : more = [] := by
    cases more with
    | nil => rfl
    | cons b more =>
      obtain ⟨rfl, others⟩ := List.cons.inj same
      obtain ⟨tail, rfl, _⟩ | ⟨tail, rfl, last⟩ := List.append_eq_append_iff.mp others
      · exact absurd ⟨x, tail, by simp⟩ none
      · cases tail with
        | nil => exact absurd ⟨x, [], by simp⟩ none
        | cons c tail =>
          obtain rfl := (List.cons.inj last).1
          exact absurd (List.mem_append_right _ List.mem_cons_self) fresh
  obtain ⟨more, rfl, behind⟩ | ⟨more, rfl, behind⟩ := List.append_eq_append_iff.mp same
  · obtain rfl := shorter right behind
    exact ⟨(List.append_nil x).symm, List.append_cancel_left behind⟩
  · obtain rfl := shorter left behind
    exact ⟨List.append_nil y, (List.append_cancel_left behind).symm⟩

end Patterns

/-! ### Coded values -/

namespace Text

/-- What stands behind the next quotation mark without a backslash. -/
def afterQuote : List Char → List Char
  | [] => []
  | '\\' :: _ :: rest => afterQuote rest
  | c :: rest => if c = '"' then rest else afterQuote rest

theorem afterQuote_append {front rest : List Char} (plain : ∀ c ∈ front, c ≠ '"' ∧ c ≠ '\\') :
    afterQuote (front ++ rest) = afterQuote rest := by
  induction front with
  | nil => rfl
  | cons c front ih =>
    obtain ⟨quote, slash⟩ := plain c List.mem_cons_self
    rw [List.cons_append, afterQuote, if_neg quote]
    · exact ih fun c listed => plain c (List.mem_cons_of_mem _ listed)
    · rintro _ _ rfl
      contradiction

theorem afterQuote_quoted (text rest : List Char) :
    afterQuote (quoted text ++ '"' :: rest) = rest := by
  induction text with
  | nil => simp [quoted, afterQuote]
  | cons c text ih =>
    have form := quotedForm c
    rw [quoted, List.flatMap_cons, List.append_assoc]
    generalize quotedChar c = written at form
    cases form with
    | itself quote slash _ =>
      rw [afterQuote_append (by simp [quote, slash])]
      exact ih
    | escaped _ plain =>
      rw [List.cons_append, List.cons_append, afterQuote,
        afterQuote_append fun e listed => ⟨(plain e listed).1, (plain e listed).2.1⟩]
      exact ih

end Text

namespace Attribute

/-- A text starts with what may stand behind an element. -/
def Stops (text : List Char) : Prop := ∃ c ∈ [',', ']', ')'], text.head? = some c

theorem stops_cons {c : Char} (rest : List Char) (listed : c ∈ [',', ']', ')']) :
    Stops (c :: rest) :=
  ⟨c, listed, rfl⟩

theorem takeWhile_word {text r : List Char} (letters : ∀ c ∈ text, c.isAlpha = true)
    (stops : Stops r) : (text ++ r).takeWhile Char.isAlpha = text := by
  obtain ⟨c, listed, first⟩ := stops
  have mark : c.isAlpha = false := by
    simp only [List.mem_cons, List.not_mem_nil, or_false] at listed
    obtain rfl | rfl | rfl := listed <;> rfl
  obtain ⟨rest, rfl⟩ := List.head?_eq_some_iff.mp first
  rw [List.takeWhile_append_of_pos letters, List.takeWhile_cons, mark]
  simp

variable {text text' r r' : List Char}

/-- An element starts with a letter or with a quotation mark. -/
theorem Element.exists_cons (element : Element text) :
    ∃ c rest, text = c :: rest ∧ (c.isAlpha = true ∨ c = '"') := by
  cases element with
  | word some letters =>
    obtain ⟨c, rest, rfl⟩ := List.exists_cons_of_ne_nil some
    exact ⟨c, rest, rfl, .inl (letters c List.mem_cons_self)⟩
  | quoted text => exact ⟨_, _, rfl, .inr rfl⟩

/-- Where an element ends can be told. -/
theorem Element.append_inj (element : Element text) (element' : Element text') (stops : Stops r)
    (stops' : Stops r') (same : text ++ r = text' ++ r') : text = text' ∧ r = r' := by
  have mixed {word text r r' : List Char} (some : word ≠ [])
      (letters : ∀ c ∈ word, c.isAlpha = true) :
      word ++ r ≠ '"' :: Text.quoted text ++ ['"'] ++ r' := by
    intro same
    obtain ⟨c, rest, rfl⟩ := List.exists_cons_of_ne_nil some
    obtain rfl := (List.cons.inj same).1
    exact absurd (letters '"' List.mem_cons_self) (by decide)
  cases element with
  | word some letters =>
    cases element' with
    | word some' letters' =>
      have words := congrArg (List.takeWhile Char.isAlpha) same
      rw [takeWhile_word letters stops, takeWhile_word letters' stops'] at words
      subst words
      exact ⟨rfl, List.append_cancel_left same⟩
    | quoted => exact absurd same (mixed some letters)
  | quoted quoted =>
    cases element' with
    | word some' letters' => exact absurd same.symm (mixed some' letters')
    | quoted quoted' =>
      simp only [List.cons_append, List.append_assoc, List.nil_append, List.cons.injEq,
        true_and] at same
      have rests := congrArg Text.afterQuote same
      rw [Text.afterQuote_quoted, Text.afterQuote_quoted] at rests
      subst rests
      rw [List.append_cancel_right same]
      exact ⟨rfl, rfl⟩

/-- A list with an element is the first one and a rest that shows where it ends. -/
theorem exists_rest (element : List Char) (more : List (List Char)) (r : List Char) :
    ∃ rest, [',', ' '].intercalate (element :: more) ++ ']' :: r = element ++ rest ∧ Stops rest ∧
      rest = if more.isEmpty then ']' :: r
        else ',' :: ' ' :: ([',', ' '].intercalate more ++ ']' :: r) := by
  cases more with
  | nil => exact ⟨']' :: r, by simp, stops_cons _ (by decide), by simp⟩
  | cons second more =>
    refine ⟨',' :: ' ' :: ([',', ' '].intercalate (second :: more) ++ ']' :: r), ?_,
      stops_cons _ (by decide), by simp⟩
    simp [List.intercalate_cons_cons]

/-- No element starts with a bracket. -/
theorem Element.cons_ne {c : Char} (element : Element text) (bracket : c ∈ ['[', ']']) :
    c :: r ≠ text ++ r' := by
  intro same
  obtain ⟨d, more, rfl, first⟩ := element.exists_cons
  obtain rfl := (List.cons.inj same).1
  obtain rfl | rfl : c = '[' ∨ c = ']' := by simpa using bracket
  · exact absurd first (by decide)
  · exact absurd first (by decide)

theorem Element.list_inj {elements elements' : List (List Char)}
    (each : ∀ element ∈ elements, Element element) (each' : ∀ element ∈ elements', Element element)
    (same : [',', ' '].intercalate elements ++ ']' :: r =
      [',', ' '].intercalate elements' ++ ']' :: r') :
    elements = elements' ∧ r = r' := by
  induction elements generalizing elements' with
  | nil =>
    cases elements' with
    | nil => exact ⟨rfl, (List.cons.inj same).2⟩
    | cons element' more' =>
      obtain ⟨rest, whole, _⟩ := exists_rest element' more' r'
      exact absurd (same.trans whole) ((each' element' List.mem_cons_self).cons_ne (by decide))
  | cons element more ih =>
    obtain ⟨rest, whole, stops, split⟩ := exists_rest element more r
    cases elements' with
    | nil =>
      exact absurd (same.symm.trans whole) ((each element List.mem_cons_self).cons_ne (by decide))
    | cons element' more' =>
      obtain ⟨rest', whole', stops', split'⟩ := exists_rest element' more' r'
      obtain ⟨rfl, rests⟩ := Element.append_inj (each element List.mem_cons_self)
        (each' element' List.mem_cons_self) stops stops' (whole.symm.trans (same.trans whole'))
      rw [split, split'] at rests
      cases more with
      | nil =>
        cases more' with
        | nil => exact ⟨rfl, (List.cons.inj rests).2⟩
        | cons => simp at rests
      | cons second more =>
        cases more' with
        | nil => simp at rests
        | cons second' more' =>
          simp only [List.isEmpty_cons, Bool.false_eq_true, if_false, List.cons.injEq,
            true_and] at rests
          obtain ⟨others, rfl⟩ := ih (fun e listed => each e (List.mem_cons_of_mem _ listed))
            (fun e listed => each' e (List.mem_cons_of_mem _ listed)) rests
          exact ⟨congrArg _ others, rfl⟩

/-- Where a coded value ends can be told. -/
theorem Coded.append_inj (coded : Coded text) (coded' : Coded text') (stops : Stops r)
    (stops' : Stops r') (same : text ++ r = text' ++ r') : text = text' ∧ r = r' := by
  cases coded with
  | element element =>
    cases coded' with
    | element element' => exact element.append_inj element' stops stops' same
    | list => exact absurd same.symm (element.cons_ne (by decide))
  | list each =>
    cases coded' with
    | element element' => exact absurd same (element'.cons_ne (by decide))
    | list each' =>
      simp only [List.cons_append, List.append_assoc, List.nil_append, List.cons.injEq,
        true_and] at same
      obtain ⟨rfl, rfl⟩ := Element.list_inj each each' same
      exact ⟨rfl, rfl⟩

end Attribute

/-! ### Plain names -/

/-- A name that does not contain what stands behind values: the end of a group with the start of
another one, or the end of a label. -/
def Plain (text : String) : Prop :=
  ¬[')', ' ', '('] <:+: text.toList ∧ ¬[':', ' '] <:+: text.toList

instance (text : String) : Decidable (Plain text) := inferInstanceAs (Decidable (_ ∧ _))

theorem not_infix_of_not_mem {α : Type} {a : α} {pattern text : List α} (listed : a ∈ pattern)
    (absent : a ∉ text) : ¬pattern <:+: text :=
  fun within => absent (within.subset listed)

/-- A pattern is not found in names with commas between them if it is not in any of them. -/
theorem not_infix_intercalate {c : Char} {pattern : List Char} {names : List (List Char)}
    (comma : ',' ∉ c :: pattern) (blank : c ≠ ' ') (each : ∀ name ∈ names, ¬c :: pattern <:+: name) :
    ¬c :: pattern <:+: [',', ' '].intercalate names := by
  induction names with
  | nil => simp
  | cons first rest ih =>
    cases rest with
    | nil => simpa using each
    | cons second rest =>
      have others := ih fun name listed => each name (List.mem_cons_of_mem _ listed)
      rw [List.intercalate_cons_cons, List.append_assoc]
      refine not_infix_append_cons comma (each first List.mem_cons_self) ?_
      intro within
      obtain front | within := List.infix_cons_iff.mp within
      · exact blank (List.cons_prefix_cons.mp front).1
      · exact others within

theorem composable_plain : Composable Plain where
  word text letters := by
    have absent {c : Char} (mark : c.isAlpha = false) : c ∉ text.toList := fun member =>
      absurd (letters.2 c member) (by simp [mark])
    exact ⟨not_infix_of_not_mem (a := ' ') (by decide) (absent (by decide)),
      not_infix_of_not_mem (a := ' ') (by decide) (absent (by decide))⟩
  unknown := by decide
  qualified type name plain plain' := by
    unfold Plain
    simp only [String.toList_append, List.append_assoc]
    exact ⟨not_infix_append_cons (by decide) plain.1 plain'.1,
      not_infix_append_cons (by decide) plain.2 plain'.2⟩
  bracketed names each := by
    have listed {c : Char} {pattern : List Char} (comma : ',' ∉ c :: pattern) (blank : c ≠ ' ')
        (opening : '[' ∉ c :: pattern) (closing : ']' ∉ c :: pattern)
        (none : ∀ name ∈ names, ¬c :: pattern <:+: name.toList) :
        ¬c :: pattern <:+: (Attribute.bracketed names).toList := by
      simp only [Attribute.bracketed, String.toList_append, String.toList_intercalate,
        List.append_assoc]
      refine @not_infix_append_cons _ '[' _ [] _ opening (by simp) ?_
      refine @not_infix_append_cons _ ']' _ _ [] closing ?_ (by simp)
      refine not_infix_intercalate comma blank ?_
      simpa using none
    exact ⟨listed (by decide) (by decide) (by decide) (by decide) fun name known =>
        (each name known).1,
      listed (by decide) (by decide) (by decide) (by decide) fun name known =>
        (each name known).2⟩

end SemanticTrees
