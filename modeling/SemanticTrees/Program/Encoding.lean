import SemanticTrees.Program.Basic
import SemanticTrees.Json.Value

/-!
Checked programs as JSON. Every field is written, with null for what is absent; a choice is its
name, or an object with its name as the only member when it carries something.
-/

namespace SemanticTrees

open SemanticTrees.Json

namespace Encoding

def carrying (name : String) (payload : Value) : Value := .ofFields [(name, payload)]

def choice (name : String) (fields : List (String × Value)) : Value :=
  carrying name (.ofFields fields)

def nullable {α : Type} (value : α → Value) : Option α → Value
  | some x => value x
  | none => .null

def list {α : Type} (value : α → Value) (xs : List α) : Value := .array (xs.map value)

def id (n : Nat) : Value := .ofNat n

def ids (ns : List Nat) : Value := list id ns

def span (s : Span) : Value := .ofFields [("start", id s.start), ("end", id s.stop)]

def diagnostic (d : Diagnostic) : Value :=
  .ofFields [("span", span d.span), ("message_text", .string d.text),
    ("category", .string d.category.name), ("code", id d.code)]

def typeKind : TypeKind → Value
  | .classType => .string "Class"
  | .structType => .string "Struct"
  | .interfaceType => .string "Interface"
  | .enumType => .string "Enum"
  | .delegateType => .string "Delegate"
  | .dynamic => .string "Dynamic"
  | .void => .string "Void"
  | .pointer pointee => choice "Pointer" [("pointee", id pointee)]
  | .array element => choice "Array" [("element", id element)]
  | .typeParameter => .string "TypeParameter"
  | .error => .string "Error"

def typeInfo (t : TypeInfo) : Value :=
  .ofFields [("name", .string t.name), ("kind", typeKind t.kind)]

def constant : Constant → Value
  | .null => .string "Null"
  | .bool b => carrying "Bool" (.bool b)
  | .int n => carrying "Int" (.integer n)
  | .float x => carrying "Float" (.double x)
  | .char c => carrying "Char" (.string c.toString)
  | .string s => carrying "String" (.string s)

def symbol (s : Symbol) : Value :=
  .ofFields [("name", .string s.name), ("kind", .string s.kind.name),
    ("ty", nullable id s.type), ("containing_type", nullable id s.containingType),
    ("is_static", .bool s.isStatic), ("is_virtual", .bool s.isVirtual),
    ("parameters", ids s.parameters), ("default_value", nullable constant s.default),
    ("is_params", .bool s.isCollecting), ("ref_kind", .string s.passing.name)]

def jumpTarget : JumpTarget → Value
  | .label name => carrying "Label" (.string name)
  | .caseOf value => carrying "Case" (id value)
  | .defaultCase => .string "Default"

/-- The fields of a form, or nothing for a form without any. -/
def formFields : Form → Option (List (String × Value))
  | .literal text => some [("text", .string text)]
  | .identifier name => some [("name", .string name)]
  | .memberAccess receiver name typeArguments =>
    some [("receiver", id receiver), ("name", .string name), ("type_arguments", ids typeArguments)]
  | .invocation callee arguments => some [("callee", id callee), ("arguments", ids arguments)]
  | .elementAccess receiver arguments =>
    some [("receiver", id receiver), ("arguments", ids arguments)]
  | .argument name passing expression =>
    some [("name", .ofText? name), ("ref_kind", .string passing.name),
      ("expression", id expression)]
  | .objectCreation type arguments => some [("ty", id type), ("arguments", ids arguments)]
  | .binary operator left right =>
    some [("operator", .string operator.name), ("left", id left), ("right", id right)]
  | .unary operator operand => some [("operator", .string operator.name), ("operand", id operand)]
  | .assignment operator target value =>
    some [("operator", nullable (fun o => .string (BinaryOperator.name o)) operator),
      ("target", id target), ("value", id value)]
  | .addressOf operand => some [("operand", id operand)]
  | .cast type operand => some [("ty", id type), ("operand", id operand)]
  | .parenthesized expression => some [("expression", id expression)]
  | .lambda parameters body => some [("parameters", ids parameters), ("body", id body)]
  | .block statements => some [("statements", ids statements)]
  | .expressionStatement expression => some [("expression", id expression)]
  | .localDeclaration type declarators =>
    some [("ty", nullable id type), ("declarators", ids declarators)]
  | .variableDeclarator name initializer =>
    some [("name", .string name), ("initializer", nullable id initializer)]
  | .ifThen condition thenBranch elseBranch =>
    some [("condition", id condition), ("then_branch", id thenBranch),
      ("else_branch", nullable id elseBranch)]
  | .whileLoop condition body => some [("condition", id condition), ("body", id body)]
  | .forLoop initializers condition incrementors body =>
    some [("initializers", ids initializers), ("condition", nullable id condition),
      ("incrementors", ids incrementors), ("body", id body)]
  | .switch expression sections => some [("expression", id expression), ("sections", ids sections)]
  | .switchSection labels statements =>
    some [("labels", ids labels), ("statements", ids statements)]
  | .caseLabel value => some [("value", nullable id value)]
  | .goto target => some [("target", jumpTarget target)]
  | .labeled label statement => some [("label", .string label), ("statement", id statement)]
  | .returnJump expression => some [("expression", nullable id expression)]
  | .fixed declaration body => some [("declaration", id declaration), ("body", id body)]
  | .lock expression body => some [("expression", id expression), ("body", id body)]
  | .usingResource resource body => some [("resource", id resource), ("body", id body)]
  | .method name parameters body =>
    some [("name", .string name), ("parameters", ids parameters), ("body", nullable id body)]
  | .parameter name default => some [("name", .string name), ("default", nullable id default)]
  | .field declarators => some [("declarators", ids declarators)]
  | .property name initializer =>
    some [("name", .string name), ("initializer", nullable id initializer)]
  | .typeDeclaration name members => some [("name", .string name), ("members", ids members)]
  | .this | .missing | .breakJump | .continueJump | .empty => none

def form (f : Form) : Value :=
  match formFields f with
  | some fields => choice f.name fields
  | none => .string f.name

def syntaxNode (n : SyntaxNode) : Value :=
  .ofFields [("span", span n.span), ("kind", form n.form)]

def conversion (c : Conversion) : Value :=
  .ofFields [("kind", .string c.kind.name), ("target", id c.target),
    ("is_implicit", .bool c.isImplicit)]

def binding (b : Binding) : Value :=
  .ofFields [("parameter", id b.parameter), ("kind", .string b.kind.name),
    ("argument", nullable id b.argument)]

def resolution : Resolution → Value
  | .resolved member arguments =>
    choice "Resolved" [("member", id member), ("arguments", list binding arguments)]
  | .lateBound candidates => choice "LateBound" [("candidates", ids candidates)]
  | .failed reason candidates =>
    choice "Failed" [("reason", .string reason.name), ("candidates", ids candidates)]

def facts (f : Facts) : Value :=
  .ofFields [("ty", nullable id f.type), ("conversion", nullable conversion f.conversion),
    ("constant", nullable constant f.constant), ("symbol", nullable id f.symbol),
    ("resolution", nullable resolution f.resolution)]

/-- The facts about several nodes, named by the decimal places of the nodes. -/
def factTable (entries : List (SyntaxId × Facts)) : Value :=
  .ofFields (entries.map fun (node, known) => (toString node, facts known))

end Encoding

def Program.toJson (p : Program) : Value :=
  .ofFields [("file_name", .string p.fileName), ("source_text", .ofText? p.sourceText),
    ("syntax", Encoding.list Encoding.syntaxNode p.nodes.toList),
    ("types", Encoding.list Encoding.typeInfo p.types.toList),
    ("symbols", Encoding.list Encoding.symbol p.symbols.toList),
    ("facts", Encoding.factTable p.facts.toList),
    ("members", Encoding.ids p.members),
    ("diagnostics", Encoding.list Encoding.diagnostic p.diagnostics)]

end SemanticTrees
