import SemanticTrees.Program.Layout

/-! The parts of a text. The text of a form has the nodes that the form is made of, in their order
and with a word between any two. Only the text of an argument may have nothing but its node. -/
namespace SemanticTrees

namespace LayoutPart

/-- The nodes among the pieces of a text. -/
def nodesOf : List LayoutPart → List SyntaxId :=
  List.filterMap fun
    | .node id _ => some id
    | .word _ => none

/-- Two nodes among the pieces have a word between them that is not empty; in front of the first
node it may be asked for, too. -/
def Spaced : Bool → List LayoutPart → Prop
  | _, [] => True
  | gap, .word text :: rest => Spaced (gap || text != "") rest
  | gap, .node _ _ :: rest => gap = true ∧ Spaced false rest

/-- Some of the pieces is a word that is not empty. -/
def Worded (parts : List LayoutPart) : Prop := ∃ text, .word text ∈ parts ∧ text ≠ ""

variable {separator : String} {terminated gap : Bool} {ids : List SyntaxId}
  {parts rest : List LayoutPart}

@[simp] theorem nodesOf_nil : nodesOf [] = [] := rfl

@[simp] theorem nodesOf_word (text : String) : nodesOf (.word text :: rest) = nodesOf rest := rfl

@[simp] theorem nodesOf_node (id : SyntaxId) (terminated : Bool) :
    nodesOf (.node id terminated :: rest) = id :: nodesOf rest := rfl

theorem mem_nodesOf {id : SyntaxId} (listed : .node id terminated ∈ parts) : id ∈ nodesOf parts :=
  List.mem_filterMap.mpr ⟨_, listed, rfl⟩

@[simp] theorem nodesOf_append : nodesOf (parts ++ rest) = nodesOf parts ++ nodesOf rest :=
  List.filterMap_append

@[simp] theorem nodesOf_separated : nodesOf (separated separator terminated ids) = ids := by
  fun_induction separated separator terminated ids with
  | case1 => rfl
  | case2 => rfl
  | case3 id rest _ ih => simp [ih]

@[simp] theorem nodesOf_list : nodesOf (list separator ids) = ids := nodesOf_separated

@[simp] theorem nodesOf_between (before after : String) (id : SyntaxId) :
    nodesOf (between before id after) = [id] := rfl

@[simp] theorem nodesOf_optional (before : String) (id : Option SyntaxId) :
    nodesOf (optional before id) = id.toList := by
  cases id <;> rfl

/-- Behind nodes with separators between them comes a gap only when there are no such nodes. -/
@[simp] theorem spaced_separated_append (written : separator ≠ "") :
    Spaced true (separated separator terminated ids ++ rest) ↔ Spaced ids.isEmpty rest := by
  fun_induction separated separator terminated ids with
  | case1 => rfl
  | case2 => simp [Spaced]
  | case3 id others more ih =>
    have some : others.isEmpty = false := List.isEmpty_eq_false_iff.mpr more
    have gap : (separator != "") = true := bne_iff_ne.mpr written
    simpa [Spaced, gap, some] using ih

@[simp] theorem spaced_separated (written : separator ≠ "") :
    Spaced true (separated separator terminated ids) := by
  rw [← List.append_nil (separated _ _ _), spaced_separated_append written]
  trivial

@[simp] theorem spaced_optional_append {before : String} (written : before ≠ "")
    (id : Option SyntaxId) :
    Spaced gap (LayoutPart.optional before id ++ rest) ↔ Spaced (gap && id.isNone) rest := by
  cases id <;> simp [LayoutPart.optional, Spaced, written]

@[simp] theorem spaced_optional {before : String} (written : before ≠ "") (id : Option SyntaxId) :
    Spaced gap (LayoutPart.optional before id) := by
  cases id <;> simp [LayoutPart.optional, Spaced, written]

/-- A gap that need not be asked for does no harm. -/
theorem spaced_of_false (spaced : Spaced false parts) : Spaced true parts := by
  induction parts with
  | nil => trivial
  | cons part rest ih =>
    cases part with
    | node => exact absurd spaced.1 Bool.false_ne_true
    | word text =>
      simp only [Spaced, Bool.false_or, Bool.true_or] at spaced ⊢
      cases written : text != "" with
      | true => exact written ▸ spaced
      | false => exact ih (written ▸ spaced)

end LayoutPart

namespace Program

open LayoutPart

variable {p : Program}

/-- The nodes in the text of a form are those that it is made of, in the same order. -/
theorem nodesOf_layoutParts (id : SyntaxId) (terminated : Bool) (form : Form) :
    nodesOf (p.layoutParts id terminated form) = form.children := by
  unfold layoutParts
  cases form with
  | goto target => cases target <;> rfl
  | caseLabel value => cases value <;> rfl
  | method name parameters body =>
    cases body <;> simp [expressionParts, statementParts, declarationParts, Form.children]
  | property name initializer => cases initializer <;> rfl
  | _ => simp [expressionParts, statementParts, declarationParts, Form.children]

/-- In the text of a form, no node follows directly behind another one. -/
theorem spaced_layoutParts (id : SyntaxId) (terminated : Bool) (form : Form) :
    Spaced true (p.layoutParts id terminated form) := by
  unfold layoutParts
  cases form with
  | goto target =>
    cases target <;> simp [expressionParts, statementParts, declarationParts, Spaced, between]
  | caseLabel value =>
    cases value <;> simp [expressionParts, statementParts, declarationParts, Spaced, between]
  | method name parameters body =>
    cases body <;>
      simp [expressionParts, statementParts, declarationParts, Spaced, list]
  | property name initializer =>
    cases initializer <;>
      simp [expressionParts, statementParts, declarationParts, Spaced, between]
  | forLoop initializers condition incrementors body =>
    cases condition <;>
      simp [expressionParts, statementParts, declarationParts, Spaced, list]
  | _ => simp [expressionParts, statementParts, declarationParts, Spaced, between, list]

/-- A form that is made of nodes has words of its own, unless it is an argument. -/
theorem worded_layoutParts (id : SyntaxId) (terminated : Bool) {form : Form}
    (some : form.children ≠ [])
    (other : ∀ name passing expression, form ≠ .argument name passing expression) :
    Worded (p.layoutParts id terminated form) := by
  unfold layoutParts Worded
  cases form with
  | literal | identifier | missing => contradiction
  | argument name passing expression => exact absurd rfl (other name passing expression)
  | unary operator operand =>
    cases operator <;> simp [expressionParts, statementParts, declarationParts, UnaryOperator.token]
  | goto target =>
    cases target <;> simp [expressionParts, statementParts, declarationParts, between]
  | caseLabel value =>
    cases value <;> simp [expressionParts, statementParts, declarationParts, between]
  | variableDeclarator name initializer =>
    cases initializer with
    | none => contradiction
    | some => exact ⟨" = ", by simp [statementParts, LayoutPart.optional], by simp⟩
  | parameter name default =>
    cases default with
    | none => contradiction
    | some => exact ⟨" = ", by simp [declarationParts, LayoutPart.optional], by simp⟩
  | switchSection labels statements => exact ⟨" ", by simp [statementParts], by simp⟩
  | _ => simp [expressionParts, statementParts, declarationParts, between, list]

end Program

end SemanticTrees
