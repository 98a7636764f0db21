import SemanticTrees.Rendering.Divergence
import SemanticTrees.Proofs.Rendering.Catalogue

/-! Lines of operations. Under the structural options a line is the name of the operation and behind
it groups in parentheses: the attributes, the value, and whether the operation is invalid. -/
namespace SemanticTrees

def Attribute.chars (a : Attribute) : List Char := a.label.toList ++ ':' :: ' ' :: a.value.toList

namespace Operation

variable {o o' : Operation} {p p' : Program} {isInvalid isInvalid' : Bool}

def attributeGroups (o : Operation) (p : Program) : List (List Char) :=
  match p.attributes o.kind with
  | [] => []
  | attributes => [[',', ' '].intercalate (attributes.map Attribute.chars)]

def constantChars : Option Constant → List Char
  | some constant => ", Constant: ".toList ++ constant.text.toList
  | none => []

def valueGroups (o : Operation) (p : Program) : List (List Char) :=
  if o.isExpression then
    ["Type: ".toList ++ (o.typeText p).toList ++ constantChars o.constant]
  else []

/-- What a line says of an operation apart from its name. -/
def groups (o : Operation) (p : Program) (isInvalid : Bool) : List (List Char) :=
  o.attributeGroups p ++ o.valueGroups p ++ if isInvalid then ["IsInvalid".toList] else []

/-- Groups in parentheses, each with a blank in front of it. -/
def grouped (groups : List (List Char)) : List Char :=
  groups.flatMap fun group => ' ' :: '(' :: group ++ [')']

@[simp] theorem grouped_nil : grouped [] = [] := rfl

theorem grouped_append (first rest : List (List Char)) :
    grouped (first ++ rest) = grouped first ++ grouped rest :=
  List.flatMap_append

theorem toList_attributesText : (o.attributesText p).toList = grouped (o.attributeGroups p) := by
  have chars (attributes : List Attribute) :
      (attributes.map fun a => a.label ++ ": " ++ a.value).map String.toList =
        attributes.map Attribute.chars := by
    simp [Attribute.chars, Function.comp_def]
  unfold attributesText attributeGroups
  cases p.attributes o.kind with
  | nil => rfl
  | cons =>
    simp only [String.toList_append, String.toList_intercalate, chars, grouped,
      List.flatMap_singleton]
    rfl

theorem toList_valueText : (o.valueText p).toList = grouped (o.valueGroups p) := by
  unfold valueText valueGroups constantChars
  split
  · cases o.constant <;> simp [grouped]
  · rfl

theorem toList_header : (o.header p RenderOptions.structural isInvalid).toList =
    o.kind.name.toList ++ grouped (o.groups p isInvalid) := by
  cases isInvalid with
  | false =>
    simp [header, RenderOptions.structural, groups, toList_attributesText, toList_valueText,
      grouped_append]
  | true =>
    simp [header, RenderOptions.structural, groups, toList_attributesText, toList_valueText,
      grouped_append]
    rfl

/-- The name of an operation is what stands in front of the first blank of its line. -/
theorem name_eq_of_header_eq
    (same : o.header p RenderOptions.structural isInvalid =
      o'.header p' RenderOptions.structural isInvalid') : o.kind.name = o'.kind.name := by
  have front (o : Operation) (p : Program) (isInvalid : Bool) :
      (o.header p RenderOptions.structural isInvalid).toList.takeWhile (· != ' ') =
        o.kind.name.toList := by
    have letters : ∀ c ∈ o.kind.name.toList, (c != ' ') = true := by
      intro c member
      refine bne_iff_ne.mpr ?_
      rintro rfl
      exact absurd (o.kind.alphabetic_name.2 _ member) (by decide)
    rw [toList_header, List.takeWhile_append_of_pos letters]
    cases o.groups p isInvalid <;> simp [grouped]
  rw [← String.toList_inj, ← front o p isInvalid, same, front]

end Operation

end SemanticTrees
