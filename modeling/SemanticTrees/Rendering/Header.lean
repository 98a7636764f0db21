import SemanticTrees.Rendering.Attributes
import SemanticTrees.Text.Lines

/-!
The line that stands for an operation in a rendering: its name, attributes, type and constant, and
what else the options ask for.
-/

namespace SemanticTrees

/-- The choices of a rendering. -/
structure RenderOptions where
  /-- The number of blanks for a level. -/
  indent : Nat := 2
  /-- Whether invalid operations are marked. -/
  showInvalid : Bool := true
  /-- Whether operations that were not written are marked. -/
  showImplicit : Bool := true
  /-- Whether the source text of operations is shown. -/
  showSource : Bool := false
deriving DecidableEq, Repr, Inhabited

/-- The choices for comparing operations: where an operation comes from does not matter. -/
def RenderOptions.structural : RenderOptions := { showImplicit := false }

namespace Operation

/-- The attributes of an operation in parentheses, if there are any. -/
def attributesText (o : Operation) (p : Program) : String :=
  match p.attributes o.kind with
  | [] => ""
  | attributes =>
    " (" ++ ", ".intercalate (attributes.map fun a => a.label ++ ": " ++ a.value) ++ ")"

def typeText (o : Operation) (p : Program) : String := Attribute.orNull p.types.nameOf o.type

/-- The type and the constant of an operation in parentheses, if it is an expression. -/
def valueText (o : Operation) (p : Program) : String :=
  if o.isExpression then
    let constant :=
      match o.constant with
      | some constant => ", Constant: " ++ constant.text
      | none => ""
    " (Type: " ++ o.typeText p ++ constant ++ ")"
  else ""

/-- A source text in one line, each of its lines without blank characters around it. -/
def flattened (source : String) : String :=
  " ".intercalate ((Text.lines source.toList).map fun line => String.ofList (Text.trim line))

/-- The source text of an operation in parentheses, if there is one. -/
def sourceText (o : Operation) (p : Program) : String :=
  match p.textOf o.span with
  | some source => " (Syntax: '" ++ flattened source ++ "')"
  | none => ""

def header (o : Operation) (p : Program) (options : RenderOptions) (isInvalid : Bool) : String :=
  o.kind.name ++ o.attributesText p ++ o.valueText p ++
    (if options.showInvalid && isInvalid then " (IsInvalid)" else "") ++
    (if options.showImplicit && o.isImplicit then " (IsImplicit)" else "") ++
    (if options.showSource then o.sourceText p else "")

end Operation

namespace OperationTree

/-- The line of an operation of a tree, which is invalid as a taint tells. -/
def header (t : OperationTree) (options : RenderOptions) (taint : Array Bool) (i : OperationId) :
    String :=
  match t.get? i with
  | some o => o.header t.program options (taint.getD i false)
  | none => s!"<missing {i}>"

end OperationTree

end SemanticTrees
