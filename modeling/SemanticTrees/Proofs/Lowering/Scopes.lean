import SemanticTrees.Proofs.Graph.Reach
import SemanticTrees.Proofs.Lowering.Trail
import SemanticTrees.Proofs.Program.Wholes

/-! What surroundings mean. A way says what the path of the walk from a root to a node leads
through; the enclosures and the labels that lowering carries along are those that can be read off
the way behind its innermost lambda. -/
namespace SemanticTrees

/-- What the way from a root to a node leads through, the last passage first. -/
abbrev Way := List Passage

namespace Passage

def isLambda : Passage → Bool
  | .lambda _ => true
  | _ => false

def sections? : Passage → Option (List SyntaxId)
  | .switch sections => some sections
  | _ => none

/-- What a jump may leave that stands behind a passage. -/
def enclosure? (p : Program) : Passage → Option Enclosure
  | .loop => some .loop
  | .switch sections => some (.switch (p.switchCases sections))
  | _ => none

end Passage

namespace Way

/-- The part of a way behind the innermost lambda. -/
def inner (way : Way) : Way := way.takeWhile fun passage => !passage.isLambda

/-- The body of the innermost lambda, or the root when there is none. -/
def region (root : SyntaxId) : Way → SyntaxId
  | [] => root
  | .lambda body :: _ => body
  | _ :: way => region root way

/-- A way leads through the body of a loop. -/
def InLoop (way : Way) : Prop := .loop ∈ way.inner

instance (way : Way) : Decidable way.InLoop := inferInstanceAs (Decidable (_ ∈ _))

/-- The sections of the nearest switch that a way leads into; loops on the way do not matter. -/
def sections? (way : Way) : Option (List SyntaxId) := way.inner.findSome? Passage.sections?

/-- The surroundings at the end of a way, as the walk carries them along. -/
def scope (p : Program) (root : SyntaxId) : Way → Scope
  | [] => p.rootScope root
  | passage :: way => passage.scope p (scope p root way)

variable {p : Program} {root : SyntaxId} {way : Way}

theorem labels_scope (p : Program) (root : SyntaxId) (way : Way) :
    (way.scope p root).labels = p.labelsBelow (way.region root) := by
  induction way with
  | nil => rfl
  | cons passage way ih =>
    cases passage with
    | lambda body => rfl
    | _ => exact ih

theorem enclosures_scope (p : Program) (root : SyntaxId) (way : Way) :
    (way.scope p root).enclosures = way.inner.filterMap (Passage.enclosure? p) := by
  induction way with
  | nil => rfl
  | cons passage way ih =>
    cases passage with
    | plain => exact ih
    | loop => exact congrArg (Enclosure.loop :: ·) ih
    | switch sections => exact congrArg (Enclosure.switch (p.switchCases sections) :: ·) ih
    | lambda body => rfl

theorem canContinue_scope_iff : (way.scope p root).canContinue = true ↔ way.InLoop := by
  rw [Scope.canContinue, enclosures_scope, InLoop]
  induction way.inner with
  | nil => simp
  | cons passage way ih =>
    cases passage with
    | loop => simp [Passage.enclosure?]
    | _ => simpa [Passage.enclosure?] using ih

theorem innermostSwitch_scope (p : Program) (root : SyntaxId) (way : Way) :
    (way.scope p root).innermostSwitch = way.sections?.map p.switchCases := by
  rw [Scope.innermostSwitch, enclosures_scope, sections?]
  induction way.inner with
  | nil => rfl
  | cons passage way ih =>
    cases passage with
    | switch sections => rfl
    | _ => exact ih

theorem canBreak_scope_iff :
    (way.scope p root).canBreak = true ↔ way.InLoop ∨ way.sections?.isSome = true := by
  rw [Scope.canBreak, enclosures_scope, InLoop, sections?]
  induction way.inner with
  | nil => simp
  | cons passage way ih =>
    cases passage with
    | plain => simpa [Passage.enclosure?, Passage.sections?] using ih
    | lambda body => simpa [Passage.enclosure?, Passage.sections?] using ih
    | loop => simp [Passage.enclosure?]
    | switch sections => simp [Passage.enclosure?, Passage.sections?]

end Way

namespace Program

variable {p : Program} {root : SyntaxId} {sections : List SyntaxId}

def IsLambda (p : Program) (id : SyntaxId) : Prop :=
  ∃ parameters body, p.formOf id = some (.lambda parameters body)

/-- A step down inside a region, which does not enter a lambda below the top of the region. -/
def StaysIn (p : Program) (region id child : SyntaxId) : Prop :=
  child ∈ p.nodes.childrenOf id ∧ (id = region ∨ ¬p.IsLambda id)

/-- A region has a statement with a label. -/
def HasLabel (p : Program) (region : SyntaxId) (label : String) : Prop :=
  ∃ id statement, Relation.ReflTransGen (p.StaysIn region) region id ∧
    p.formOf id = some (.labeled label statement)

theorem mem_labelParts_iff {id child : SyntaxId} :
    child ∈ p.labelParts root id ↔ p.StaysIn root id child := by
  unfold StaysIn IsLambda labelParts
  rw [mem_childrenOf_iff]
  cases found : p.formOf id with
  | none => simp
  | some form =>
    cases form with
    | lambda parameters body => by_cases same : id = root <;> simp [same]
    | _ => simp

theorem leads_iff {id : SyntaxId} :
    Graph.Leads p.nodes.size (p.labelParts root) root id ↔
      Relation.ReflTransGen (p.StaysIn root) root id := by
  have same : Graph.Edge p.nodes.size (p.labelParts root) = p.StaysIn root := by
    funext id child
    rw [Graph.Edge, mem_labelParts_iff, eq_iff_iff, and_iff_right_iff_imp]
    rintro ⟨listed, _⟩
    obtain ⟨form, known, _⟩ := mem_childrenOf_iff.mp listed
    exact lt_of_formOf known
  rw [Graph.Leads, same]

theorem labelOf_eq_some_iff {id : SyntaxId} {label : String} :
    p.labelOf id = some label ↔ ∃ statement, p.formOf id = some (.labeled label statement) := by
  unfold labelOf
  cases p.formOf id with
  | none => simp
  | some form => cases form <;> simp

/-- The labels of a root or of the body of a lambda are those of its region. -/
theorem mem_labelsBelow_iff {label : String} :
    label ∈ p.labelsBelow root ↔ p.HasLabel root label := by
  have found (id : SyntaxId) : (Graph.reachable p.nodes.size (p.labelParts root) root).getD id false
      = true ↔ id < p.nodes.size ∧ Relation.ReflTransGen (p.StaysIn root) root id := by
    rw [← leads_iff, ← Graph.reachable_iff, Array.getD_eq_getD_getElem?]
    cases (Graph.reachable p.nodes.size (p.labelParts root) root)[id]? <;> simp
  unfold labelsBelow HasLabel
  simp only [List.mem_filterMap, List.mem_range, Option.ite_none_right_eq_some, found,
    labelOf_eq_some_iff]
  constructor
  · rintro ⟨id, _, ⟨_, path⟩, statement, known⟩
    exact ⟨id, statement, path, known⟩
  · rintro ⟨id, statement, path, known⟩
    exact ⟨id, lt_of_formOf known, ⟨lt_of_formOf known, path⟩, statement, known⟩

/-- A node is one of the labels of the sections of a switch. -/
def IsSectionLabel (p : Program) (sections : List SyntaxId) (label : SyntaxId) : Prop :=
  ∃ entry ∈ sections, ∃ labels statements,
    p.formOf entry = some (.switchSection labels statements) ∧ label ∈ labels

/-- A switch has a case label whose recorded constant equals a given one. -/
def HasCase (p : Program) (sections : List SyntaxId) (constant : Constant) : Prop :=
  ∃ label value known, p.IsSectionLabel sections label ∧
    p.formOf label = some (.caseLabel (some value)) ∧ p.constantOf value = some known ∧
    known.sameValue constant = true

/-- A switch has a default label. -/
def HasDefaultLabel (p : Program) (sections : List SyntaxId) : Prop :=
  ∃ label, p.IsSectionLabel sections label ∧ p.formOf label = some (.caseLabel none)

theorem mem_sectionLabels_iff {label : SyntaxId} :
    label ∈ sections.flatMap p.sectionLabels ↔ p.IsSectionLabel sections label := by
  have listed (entry : SyntaxId) : label ∈ p.sectionLabels entry ↔
      ∃ labels statements, p.formOf entry = some (.switchSection labels statements) ∧
        label ∈ labels := by
    unfold sectionLabels
    cases p.formOf entry with
    | none => simp
    | some form => cases form <;> simp
  simp only [List.mem_flatMap, listed, IsSectionLabel]

/-- The constant of a case label, when it is known. -/
def caseConstant? (p : Program) (label : SyntaxId) : Option Constant :=
  match p.formOf label with
  | some (.caseLabel (some value)) => p.constantOf value
  | _ => none

theorem caseConstant?_eq_some_iff {label : SyntaxId} {constant : Constant} :
    p.caseConstant? label = some constant ↔
      ∃ value, p.formOf label = some (.caseLabel (some value)) ∧
        p.constantOf value = some constant := by
  unfold caseConstant?
  split
  · next value known => simp [known]
  · next other => simpa using fun value known => absurd known (other value)

def isDefaultLabel (p : Program) (label : SyntaxId) : Bool :=
  match p.formOf label with
  | some (.caseLabel none) => true
  | _ => false

theorem isDefaultLabel_iff {label : SyntaxId} :
    p.isDefaultLabel label = true ↔ p.formOf label = some (.caseLabel none) := by
  unfold isDefaultLabel
  split
  · next known => simp [known]
  · next other => simpa using other

theorem addLabel_eq (cases : SwitchCases) (label : SyntaxId) :
    p.addLabel cases label =
      ⟨cases.constants ++ (p.caseConstant? label).toList,
        cases.hasDefault || p.isDefaultLabel label⟩ := by
  unfold addLabel caseConstant? isDefaultLabel
  cases found : p.formOf label with
  | none => simp
  | some form =>
    cases form with
    | caseLabel value =>
      cases value with
      | none => simp
      | some value => cases known : p.constantOf value <;> simp [known]
    | _ => simp

theorem foldl_addLabel (labels : List SyntaxId) (cases : SwitchCases) :
    labels.foldl p.addLabel cases =
      ⟨cases.constants ++ labels.filterMap p.caseConstant?,
        cases.hasDefault || labels.any p.isDefaultLabel⟩ := by
  induction labels generalizing cases with
  | nil => simp
  | cons label labels ih =>
    rw [List.foldl_cons, ih, addLabel_eq]
    cases known : p.caseConstant? label <;> simp [known, Bool.or_assoc]

theorem holds_switchCases_iff {constant : Constant} :
    (p.switchCases sections).holds constant = true ↔ p.HasCase sections constant := by
  rw [switchCases, foldl_addLabel, SwitchCases.holds, HasCase]
  simp only [List.nil_append, List.any_eq_true, List.mem_filterMap, mem_sectionLabels_iff,
    caseConstant?_eq_some_iff]
  constructor
  · rintro ⟨known, ⟨label, listed, value, form, recorded⟩, same⟩
    exact ⟨label, value, known, listed, form, recorded, same⟩
  · rintro ⟨label, value, known, listed, form, recorded, same⟩
    exact ⟨known, ⟨label, listed, value, form, recorded⟩, same⟩

theorem hasDefault_switchCases_iff :
    (p.switchCases sections).hasDefault = true ↔ p.HasDefaultLabel sections := by
  rw [switchCases, foldl_addLabel, HasDefaultLabel]
  simp only [Bool.false_or, List.any_eq_true, isDefaultLabel_iff, mem_sectionLabels_iff]

end Program

end SemanticTrees
