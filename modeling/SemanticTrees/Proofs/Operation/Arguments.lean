import SemanticTrees.Operation.Kind

/-! The arguments of accesses that are resolved at run time. Names, and ways of passing, are left
out when no argument has another than a plain expression has. What is read back for an argument is
what was given for it nevertheless. -/
namespace SemanticTrees

section Omitted

variable {α : Type} {l : List α} {plain : α → Bool}

/-- A list that is left out when all its entries are plain. -/
theorem omitted_eq_nil_iff : (if l.all plain then [] else l) = [] ↔ ∀ a ∈ l, plain a = true := by
  split
  · next all => simpa using all
  · next some =>
    constructor
    · rintro rfl
      exact absurd rfl some
    · exact fun every => absurd (List.all_eq_true.mpr every) some

theorem length_omitted (kept : (if l.all plain then [] else l) ≠ []) :
    (if l.all plain then [] else l).length = l.length := by
  split
  · next all => exact absurd (if_pos all) kept
  · rfl

theorem getD_omitted {default : α} (isDefault : ∀ a, plain a = true → a = default) (i : Nat) :
    (if l.all plain then [] else l).getD i default = l.getD i default := by
  split
  · next all =>
    rw [List.getD_nil, List.getD_eq_getElem?_getD]
    cases found : l[i]? with
    | none => rfl
    | some a =>
      have listed : a ∈ l := List.mem_of_getElem? found
      exact (isDefault a (List.all_eq_true.mp all a listed)).symm
  · rfl

end Omitted

namespace DynamicAccess

variable (a : DynamicAccess) (given : List DynamicArgument) (i : Nat)

theorem argumentName_withArguments :
    (a.withArguments given).argumentName i = given[i]?.bind DynamicArgument.name := by
  have read : (a.withArguments given).argumentName i =
      (a.withArguments given).names.getD i none := by
    rw [argumentName, List.getD_eq_getElem?_getD]
    cases (a.withArguments given).names[i]? <;> rfl
  have isNone (name : Option String) (plain : name.isNone = true) : name = none :=
    Option.isNone_iff_eq_none.mp plain
  rw [read]
  refine (getD_omitted isNone i).trans ?_
  rw [List.getD_eq_getElem?_getD, List.getElem?_map]
  cases given[i]? <;> rfl

theorem argumentPassing_withArguments :
    (a.withArguments given).argumentPassing i =
      (given[i]?.map DynamicArgument.passing).getD .byValue := by
  have byValue (passing : Passing) (plain : (passing == .byValue) = true) : passing = .byValue :=
    beq_iff_eq.mp plain
  refine (getD_omitted byValue i).trans ?_
  rw [List.getD_eq_getElem?_getD, List.getElem?_map]

/-- Names are left out just when no argument has one. -/
theorem names_withArguments_eq_nil_iff :
    (a.withArguments given).names = [] ↔ ∀ argument ∈ given, argument.name = none := by
  refine omitted_eq_nil_iff.trans ?_
  simp

/-- Ways of passing are left out just when every argument is passed by value. -/
theorem passings_withArguments_eq_nil_iff :
    (a.withArguments given).passings = [] ↔ ∀ argument ∈ given, argument.passing = .byValue := by
  refine omitted_eq_nil_iff.trans ?_
  simp

theorem length_names_withArguments (kept : (a.withArguments given).names ≠ []) :
    (a.withArguments given).names.length = given.length :=
  (length_omitted kept).trans (List.length_map _)

theorem length_passings_withArguments (kept : (a.withArguments given).passings ≠ []) :
    (a.withArguments given).passings.length = given.length :=
  (length_omitted kept).trans (List.length_map _)

end DynamicAccess

end SemanticTrees
