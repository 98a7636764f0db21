import SemanticTrees.Program.Basic
import SemanticTrees.Json.Record

/-!
Checked programs from JSON. Unknown fields are ignored; which fields may be left out or null is
part of the format.
-/

namespace SemanticTrees

open SemanticTrees.Json

namespace Decoding

/-- The place of an entry of a table, or another number of thirty-two bits. -/
def id : Decoder Nat := Decoder.word

def ids : Decoder (List Nat) := Decoder.list id

def span (v : Value) : Option Span := do
  let r ← Record.read ["start", "end"] v
  let start ← r.required "start" id
  let stop ← r.required "end" id
  return { start, stop }

def category : Decoder Category := Choice.among Category.all Category.name

def diagnostic (v : Value) : Option Diagnostic := do
  let r ← Record.read ["span", "message_text", "category", "code"] v
  let span ← r.required "span" span
  let text ← r.required "message_text" Decoder.string
  let category ← r.required "category" category
  let code ← r.required "code" id
  return { span, text, category, code }

def typeKind (v : Value) : Option TypeKind := do
  let c ← Choice.read v
  match c.name with
  | "Class" => c.bare .classType
  | "Struct" => c.bare .structType
  | "Interface" => c.bare .interfaceType
  | "Enum" => c.bare .enumType
  | "Delegate" => c.bare .delegateType
  | "Dynamic" => c.bare .dynamic
  | "Void" => c.bare .void
  | "Pointer" => c.fields ["pointee"] fun r => (r.required "pointee" id).map .pointer
  | "Array" => c.fields ["element"] fun r => (r.required "element" id).map .array
  | "TypeParameter" => c.bare .typeParameter
  | "Error" => c.bare .error
  | _ => none

def typeInfo (v : Value) : Option TypeInfo := do
  let r ← Record.read ["name", "kind"] v
  let name ← r.required "name" Decoder.string
  let kind ← r.required "kind" typeKind
  return { name, kind }

/-- A number of sixty-four bits, or an integer rounded to one. -/
def float : Decoder Decimal.Binary64
  | .double x => some x
  | .integer n => some (Decimal.Binary64.ofInt n)
  | _ => none

def signedInteger : Decoder Int
  | .integer n => if n < 9223372036854775808 then some n else none
  | _ => none

def char (v : Value) : Option Char := do
  match (← v.text?).toList with
  | [c] => some c
  | _ => none

def constant (v : Value) : Option Constant := do
  let c ← Choice.read v
  match c.name with
  | "Null" => c.bare .null
  | "Bool" => (c.carrying Decoder.bool).map .bool
  | "Int" => (c.carrying signedInteger).map .int
  | "Float" => (c.carrying float).map .float
  | "Char" => (c.carrying char).map .char
  | "String" => (c.carrying Decoder.string).map .string
  | _ => none

def symbolKind : Decoder SymbolKind := Choice.among SymbolKind.all SymbolKind.name

def passing : Decoder Passing := Choice.among Passing.all Passing.name

/-- The fields of a symbol, in order. -/
def symbolFields : List String :=
  ["name", "kind", "ty", "containing_type", "is_static", "is_virtual", "parameters",
    "default_value", "is_params", "ref_kind"]

def symbol (v : Value) : Option Symbol := do
  let r ← Record.read symbolFields v
  let name ← r.required "name" Decoder.string
  let kind ← r.required "kind" symbolKind
  let type ← r.optional "ty" id
  let containingType ← r.optional "containing_type" id
  let isStatic ← r.defaulted "is_static" Decoder.bool false
  let isVirtual ← r.defaulted "is_virtual" Decoder.bool false
  let parameters ← r.defaulted "parameters" ids []
  let default ← r.omissible "default_value" constant
  let isCollecting ← r.defaulted "is_params" Decoder.bool false
  let passing ← r.defaulted "ref_kind" passing .byValue
  return { name, kind, type, containingType, isStatic, isVirtual, parameters, default,
           isCollecting, passing }

def binaryOperator : Decoder BinaryOperator := Choice.among BinaryOperator.all BinaryOperator.name

def unaryOperator : Decoder UnaryOperator := Choice.among UnaryOperator.all UnaryOperator.name

def jumpTarget (v : Value) : Option JumpTarget := do
  let c ← Choice.read v
  match c.name with
  | "Label" => (c.carrying Decoder.string).map .label
  | "Case" => (c.carrying id).map .caseOf
  | "Default" => c.bare .defaultCase
  | _ => none

def expressionForm (c : Choice) : Option Form :=
  match c.name with
  | "Literal" => c.fields ["text"] fun r => (r.required "text" Decoder.string).map .literal
  | "Identifier" => c.fields ["name"] fun r => (r.required "name" Decoder.string).map .identifier
  | "This" => c.bare .this
  | "MemberAccess" => c.fields ["receiver", "name", "type_arguments"] fun r => do
    let receiver ← r.required "receiver" id
    let name ← r.required "name" Decoder.string
    let typeArguments ← r.required "type_arguments" ids
    return .memberAccess receiver name typeArguments
  | "Invocation" => c.fields ["callee", "arguments"] fun r => do
    let callee ← r.required "callee" id
    let arguments ← r.required "arguments" ids
    return .invocation callee arguments
  | "ElementAccess" => c.fields ["receiver", "arguments"] fun r => do
    let receiver ← r.required "receiver" id
    let arguments ← r.required "arguments" ids
    return .elementAccess receiver arguments
  | "Argument" => c.fields ["name", "ref_kind", "expression"] fun r => do
    let name ← r.optional "name" Decoder.string
    let passing ← r.required "ref_kind" passing
    let expression ← r.required "expression" id
    return .argument name passing expression
  | "ObjectCreation" => c.fields ["ty", "arguments"] fun r => do
    let type ← r.required "ty" id
    let arguments ← r.required "arguments" ids
    return .objectCreation type arguments
  | "Binary" => c.fields ["operator", "left", "right"] fun r => do
    let operator ← r.required "operator" binaryOperator
    let left ← r.required "left" id
    let right ← r.required "right" id
    return .binary operator left right
  | "Unary" => c.fields ["operator", "operand"] fun r => do
    let operator ← r.required "operator" unaryOperator
    let operand ← r.required "operand" id
    return .unary operator operand
  | "Assignment" => c.fields ["operator", "target", "value"] fun r => do
    let operator ← r.optional "operator" binaryOperator
    let target ← r.required "target" id
    let value ← r.required "value" id
    return .assignment operator target value
  | "AddressOf" => c.fields ["operand"] fun r => (r.required "operand" id).map .addressOf
  | "Cast" => c.fields ["ty", "operand"] fun r => do
    let type ← r.required "ty" id
    let operand ← r.required "operand" id
    return .cast type operand
  | "Parenthesized" =>
    c.fields ["expression"] fun r => (r.required "expression" id).map .parenthesized
  | "Lambda" => c.fields ["parameters", "body"] fun r => do
    let parameters ← r.required "parameters" ids
    let body ← r.required "body" id
    return .lambda parameters body
  | "Missing" => c.bare .missing
  | _ => none

def statementForm (c : Choice) : Option Form :=
  match c.name with
  | "Block" => c.fields ["statements"] fun r => (r.required "statements" ids).map .block
  | "ExpressionStatement" =>
    c.fields ["expression"] fun r => (r.required "expression" id).map .expressionStatement
  | "LocalDeclaration" => c.fields ["ty", "declarators"] fun r => do
    let type ← r.optional "ty" id
    let declarators ← r.required "declarators" ids
    return .localDeclaration type declarators
  | "VariableDeclarator" => c.fields ["name", "initializer"] fun r => do
    let name ← r.required "name" Decoder.string
    let initializer ← r.optional "initializer" id
    return .variableDeclarator name initializer
  | "If" => c.fields ["condition", "then_branch", "else_branch"] fun r => do
    let condition ← r.required "condition" id
    let thenBranch ← r.required "then_branch" id
    let elseBranch ← r.optional "else_branch" id
    return .ifThen condition thenBranch elseBranch
  | "While" => c.fields ["condition", "body"] fun r => do
    let condition ← r.required "condition" id
    let body ← r.required "body" id
    return .whileLoop condition body
  | "For" => c.fields ["initializers", "condition", "incrementors", "body"] fun r => do
    let initializers ← r.required "initializers" ids
    let condition ← r.optional "condition" id
    let incrementors ← r.required "incrementors" ids
    let body ← r.required "body" id
    return .forLoop initializers condition incrementors body
  | "Switch" => c.fields ["expression", "sections"] fun r => do
    let expression ← r.required "expression" id
    let sections ← r.required "sections" ids
    return .switch expression sections
  | "SwitchSection" => c.fields ["labels", "statements"] fun r => do
    let labels ← r.required "labels" ids
    let statements ← r.required "statements" ids
    return .switchSection labels statements
  | "CaseLabel" => c.fields ["value"] fun r => (r.optional "value" id).map .caseLabel
  | "Break" => c.bare .breakJump
  | "Continue" => c.bare .continueJump
  | "Goto" => c.fields ["target"] fun r => (r.required "target" jumpTarget).map .goto
  | "Labeled" => c.fields ["label", "statement"] fun r => do
    let label ← r.required "label" Decoder.string
    let statement ← r.required "statement" id
    return .labeled label statement
  | "Return" => c.fields ["expression"] fun r => (r.optional "expression" id).map .returnJump
  | "Empty" => c.bare .empty
  | "Fixed" => c.fields ["declaration", "body"] fun r => do
    let declaration ← r.required "declaration" id
    let body ← r.required "body" id
    return .fixed declaration body
  | "Lock" => c.fields ["expression", "body"] fun r => do
    let expression ← r.required "expression" id
    let body ← r.required "body" id
    return .lock expression body
  | "Using" => c.fields ["resource", "body"] fun r => do
    let resource ← r.required "resource" id
    let body ← r.required "body" id
    return .usingResource resource body
  | _ => none

def declarationForm (c : Choice) : Option Form :=
  match c.name with
  | "Method" => c.fields ["name", "parameters", "body"] fun r => do
    let name ← r.required "name" Decoder.string
    let parameters ← r.required "parameters" ids
    let body ← r.optional "body" id
    return .method name parameters body
  | "Parameter" => c.fields ["name", "default"] fun r => do
    let name ← r.required "name" Decoder.string
    let default ← r.optional "default" id
    return .parameter name default
  | "Field" => c.fields ["declarators"] fun r => (r.required "declarators" ids).map .field
  | "Property" => c.fields ["name", "initializer"] fun r => do
    let name ← r.required "name" Decoder.string
    let initializer ← r.optional "initializer" id
    return .property name initializer
  | "TypeDeclaration" => c.fields ["name", "members"] fun r => do
    let name ← r.required "name" Decoder.string
    let members ← r.required "members" ids
    return .typeDeclaration name members
  | _ => none

def form (v : Value) : Option Form := do
  let c ← Choice.read v
  (expressionForm c).or ((statementForm c).or (declarationForm c))

def syntaxNode (v : Value) : Option SyntaxNode := do
  let r ← Record.read ["span", "kind"] v
  let span ← r.required "span" span
  let form ← r.required "kind" form
  return { span, form }

def conversion (v : Value) : Option Conversion := do
  let r ← Record.read ["kind", "target", "is_implicit"] v
  let kind ← r.required "kind" (Choice.among ConversionKind.all ConversionKind.name)
  let target ← r.required "target" id
  let isImplicit ← r.required "is_implicit" Decoder.bool
  return { kind, target, isImplicit }

def binding (v : Value) : Option Binding := do
  let r ← Record.read ["parameter", "kind", "argument"] v
  let parameter ← r.required "parameter" id
  let kind ← r.required "kind" (Choice.among ArgumentKind.all ArgumentKind.name)
  let argument ← r.optional "argument" id
  return { parameter, kind, argument }

def failureReason : Decoder FailureReason := Choice.among FailureReason.all FailureReason.name

def resolution (v : Value) : Option Resolution := do
  let c ← Choice.read v
  match c.name with
  | "Resolved" => c.fields ["member", "arguments"] fun r => do
    let member ← r.required "member" id
    let arguments ← r.defaulted "arguments" (Decoder.list binding) []
    return .resolved member arguments
  | "LateBound" =>
    c.fields ["candidates"] fun r => (r.required "candidates" ids).map .lateBound
  | "Failed" => c.fields ["reason", "candidates"] fun r => do
    let reason ← r.required "reason" failureReason
    let candidates ← r.defaulted "candidates" ids []
    return .failed reason candidates
  | _ => none

def facts (v : Value) : Option Facts := do
  let r ← Record.read ["ty", "conversion", "constant", "symbol", "resolution"] v
  let type ← r.omissible "ty" id
  let conversion ← r.omissible "conversion" conversion
  let constant ← r.omissible "constant" constant
  let symbol ← r.omissible "symbol" id
  let resolution ← r.omissible "resolution" resolution
  return { type, conversion, constant, symbol, resolution }

/-- The value of decimal digits, the first of them not a zero unless it is the only one. -/
def decimal? (text : List Char) : Option Nat :=
  let plain :=
    match text with
    | [] => false
    | ['0'] => true
    | c :: rest => c != '0' && (c :: rest).all fun c => '0' ≤ c && c ≤ '9'
  if plain then some (text.foldl (fun n c => 10 * n + (c.toNat - '0'.toNat)) 0) else none

/-- The place of a node as the name of a member: decimal digits, written without escapes. -/
def key (k : Key) : Option SyntaxId := do
  let text ← k.text
  let n ← if k.escaped then none else decimal? text.toList
  if n < Decoder.wordLimit then some n else none

/-- The facts about several nodes. Of several facts about one node the last ones count. -/
def factTable (v : Value) : Option (Std.TreeMap SyntaxId Facts) :=
  match v with
  | .object members => do
    let entries ← members.mapM fun (name, value) => do
      let node ← key name
      let known ← facts value
      return (node, known)
    return entries.foldl (fun table (node, known) => table.insert node known) {}
  | _ => none

/-- The fields of a program, in order. -/
def programFields : List String :=
  ["file_name", "source_text", "syntax", "types", "symbols", "facts", "members", "diagnostics"]

def program (v : Value) : Option Program := do
  let r ← Record.read programFields v
  let fileName ← r.required "file_name" Decoder.string
  let sourceText ← r.omissible "source_text" Decoder.string
  let nodes ← r.required "syntax" (Decoder.list syntaxNode)
  let types ← r.required "types" (Decoder.list typeInfo)
  let symbols ← r.required "symbols" (Decoder.list symbol)
  let facts ← r.defaulted "facts" factTable {}
  let members ← r.required "members" ids
  let diagnostics ← r.defaulted "diagnostics" (Decoder.list diagnostic) []
  return { fileName, sourceText, nodes := nodes.toArray, types := types.toArray,
           symbols := symbols.toArray, facts, members, diagnostics }

end Decoding

end SemanticTrees
