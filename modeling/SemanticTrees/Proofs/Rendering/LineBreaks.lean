import SemanticTrees.Proofs.Rendering.Values

/-! Line breaks. A line has none unless the name of a type or a symbol does: words of the source are
quoted, and all else is printable. -/
namespace SemanticTrees

theorem mem_intercalate {α : Type} {separator : List α} {parts : List (List α)} {a : α}
    (member : a ∈ separator.intercalate parts) : a ∈ separator ∨ ∃ part ∈ parts, a ∈ part := by
  induction parts with
  | nil => simp at member
  | cons first rest ih =>
    cases rest with
    | nil => exact .inr ⟨first, List.mem_cons_self, by simpa using member⟩
    | cons second rest =>
      rw [List.intercalate_cons_cons, List.mem_append, List.mem_append] at member
      obtain (here | between) | later := member
      · exact .inr ⟨first, List.mem_cons_self, here⟩
      · exact .inl between
      · exact (ih later).imp_right fun ⟨part, listed, inside⟩ =>
          ⟨part, List.mem_cons_of_mem _ listed, inside⟩

/-- A text without a line break. -/
def Unbroken (text : String) : Prop := '\n' ∉ text.toList

instance (text : String) : Decidable (Unbroken text) := inferInstanceAs (Decidable (¬_))

theorem unbroken_of_printable {text : String} (printable : ∀ c ∈ text.toList, Printable c) :
    Unbroken text :=
  fun member => absurd (printable _ member) (by decide)

theorem Unbroken.append {first last : String} (unbroken : Unbroken first)
    (unbroken' : Unbroken last) : Unbroken (first ++ last) := by
  simp only [Unbroken, String.toList_append, List.mem_append, not_or]
  exact ⟨unbroken, unbroken'⟩

theorem Alphabetic.unbroken {word : String} (letters : Alphabetic word) : Unbroken word :=
  unbroken_of_printable fun c member => printable_of_isAlpha (letters.2 c member)

theorem composable_unbroken : Composable Unbroken where
  word _ letters := letters.unbroken
  unknown := by decide
  qualified _ _ unbroken unbroken' :=
    (unbroken.append (by decide)).append unbroken'
  bracketed names each := by
    simp only [Unbroken, Attribute.bracketed, String.toList_append, String.toList_intercalate,
      List.mem_append, not_or]
    refine ⟨⟨by decide, fun member => ?_⟩, by decide⟩
    obtain comma | ⟨part, listed, inside⟩ := mem_intercalate member
    · exact absurd comma (by decide)
    · obtain ⟨name, known, rfl⟩ := List.mem_map.mp listed
      exact each name known inside

namespace Attribute

theorem Element.printable {text : List Char} (element : Element text) :
    ∀ c ∈ text, Printable c := by
  intro c member
  cases element with
  | word _ letters => exact printable_of_isAlpha (letters c member)
  | quoted text =>
    simp only [List.cons_append, List.mem_cons, List.mem_append, List.not_mem_nil,
      or_false] at member
    obtain rfl | inner | rfl := member
    · decide
    · exact Text.printable_of_mem_quoted inner
    · decide

theorem Coded.printable {text : List Char} (coded : Coded text) : ∀ c ∈ text, Printable c := by
  intro c member
  cases coded with
  | element element => exact element.printable c member
  | list each =>
    simp only [List.cons_append, List.mem_cons, List.mem_append, List.not_mem_nil,
      or_false] at member
    obtain rfl | inner | rfl := member
    · decide
    · obtain comma | ⟨part, listed, inside⟩ := mem_intercalate inner
      · obtain rfl | rfl : c = ',' ∨ c = ' ' := by simpa using comma
        · decide
        · decide
      · exact (each part listed).printable c inside
    · decide

theorem Legible.unbroken {a : Attribute} (legible : a.Legible Unbroken) : Unbroken a.value := by
  unfold Legible at legible
  split at legible
  · exact unbroken_of_printable legible.printable
  · exact legible

end Attribute

namespace Operation

variable {o : Operation} {p : Program}

theorem not_mem_grouped {groups : List (List Char)} (each : ∀ group ∈ groups, '\n' ∉ group) :
    '\n' ∉ grouped groups := by
  intro member
  obtain ⟨group, listed, inside⟩ := List.mem_flatMap.mp member
  simp only [List.cons_append, List.mem_cons, List.mem_append, List.not_mem_nil,
    or_false] at inside
  obtain never | never | inner | never := inside
  · exact absurd never (by decide)
  · exact absurd never (by decide)
  · exact each group listed inner
  · exact absurd never (by decide)

theorem not_mem_attributeGroups (names : p.EachName Unbroken) {group : List Char}
    (listed : group ∈ o.attributeGroups p) : '\n' ∉ group := by
  have attributes {a : Attribute} (listed : a ∈ p.attributes o.kind) : '\n' ∉ a.chars := by
    intro member
    simp only [Attribute.chars, List.mem_append, List.mem_cons] at member
    obtain label | never | never | value := member
    · exact absurd ((OperationKind.alphabetic_label listed).2 _ label) (by decide)
    · exact absurd never (by decide)
    · exact absurd never (by decide)
    · exact (names.legible composable_unbroken o.kind a listed).unbroken value
  unfold attributeGroups at listed
  split at listed
  · contradiction
  · obtain rfl := List.mem_singleton.mp listed
    intro member
    obtain comma | ⟨part, known, inside⟩ := mem_intercalate member
    · exact absurd comma (by decide)
    · obtain ⟨a, holds, rfl⟩ := List.mem_map.mp known
      exact attributes holds inside

theorem not_mem_valueGroups (names : p.EachName Unbroken) {group : List Char}
    (listed : group ∈ o.valueGroups p) : '\n' ∉ group := by
  unfold valueGroups at listed
  split at listed
  · obtain rfl := List.mem_singleton.mp listed
    simp only [List.mem_append, not_or]
    refine ⟨⟨by decide, ?_⟩, ?_⟩
    · exact composable_unbroken.orNull (names.nameOf composable_unbroken) o.type
    · unfold constantChars
      split
      · simp only [List.mem_append, not_or]
        exact ⟨by decide, unbroken_of_printable fun c => Constant.printable_of_mem_text⟩
      · exact List.not_mem_nil
  · contradiction

/-- Lines have no breaks if names have none. -/
theorem unbroken_header (names : p.EachName Unbroken) (isInvalid : Bool) :
    Unbroken (o.header p RenderOptions.structural isInvalid) := by
  unfold Unbroken
  rw [toList_header, List.mem_append, not_or]
  constructor
  · intro member
    exact absurd (o.kind.alphabetic_name.2 _ member) (by decide)
  · refine not_mem_grouped fun group listed => ?_
    simp only [groups, List.mem_append] at listed
    obtain (listed | listed) | listed := listed
    · exact not_mem_attributeGroups names listed
    · exact not_mem_valueGroups names listed
    · split at listed
      · obtain rfl := List.mem_singleton.mp listed
        decide
      · contradiction

end Operation

end SemanticTrees
