import SemanticTrees.Program.Basic

/-!
Layout of syntax as source text. A form is a sequence of words and of the nodes it is made of, so
the text of a node is determined by the texts of its parts, and the node stands where its text
stands. Members come first, then the nodes that are part of nothing, each on a line of its own.
Positions count bytes and have no bound of their own: texts are taken to be shorter than 4 GiB, so
that their positions are words of 32 bits.
-/

namespace SemanticTrees

/-- A piece of the text of a form: a word, or a node with whether its declaration ends in a
semicolon. -/
inductive LayoutPart
  | word (text : String)
  | node (id : SyntaxId) (terminated : Bool)
deriving DecidableEq, Repr

namespace LayoutPart

def separated (separator : String) (terminated : Bool) : List SyntaxId → List LayoutPart
  | [] => []
  | [id] => [.node id terminated]
  | id :: rest => .node id terminated :: .word separator :: separated separator terminated rest

/-- Nodes with a separator between them, declarations ending in semicolons. -/
def list (separator : String) (ids : List SyntaxId) : List LayoutPart :=
  separated separator true ids

def between (before : String) (id : SyntaxId) (after : String) : List LayoutPart :=
  [.word before, .node id true, .word after]

/-- A word and a node, or nothing. -/
def optional (before : String) : Option SyntaxId → List LayoutPart
  | some id => [.word before, .node id true]
  | none => []

end LayoutPart

namespace Program

open LayoutPart

def declaredTypeName (p : Program) (id : SyntaxId) : String :=
  match ((p.symbolOf id).bind fun symbol => p.symbols[symbol]?).bind Symbol.type with
  | some type => p.types.nameOf type
  | none => "void"

def writtenTypeName (p : Program) : Option TypeId → String
  | some type => p.types.nameOf type
  | none => "var"

def argumentWords (name : Option String) (passing : Passing) : String :=
  match name with
  | some name => name ++ ": " ++ passing.keyword
  | none => passing.keyword

def typeArgumentWords (p : Program) (types : List TypeId) : String :=
  if types.isEmpty then "" else "<" ++ ", ".intercalate (types.map p.types.nameOf) ++ ">"

def expressionParts (p : Program) : Form → List LayoutPart
  | .literal text => [.word text]
  | .identifier name => [.word name]
  | .this => [.word "this"]
  | .memberAccess receiver name types =>
    [.node receiver true, .word ("." ++ name ++ p.typeArgumentWords types)]
  | .invocation callee arguments =>
    .node callee true :: .word "(" :: list ", " arguments ++ [.word ")"]
  | .elementAccess receiver arguments =>
    .node receiver true :: .word "[" :: list ", " arguments ++ [.word "]"]
  | .argument name passing expression =>
    [.word (argumentWords name passing), .node expression true]
  | .objectCreation type arguments =>
    .word ("new " ++ p.types.nameOf type ++ "(") :: list ", " arguments ++ [.word ")"]
  | .binary operator left right =>
    [.node left true, .word (" " ++ operator.token ++ " "), .node right true]
  | .unary operator operand => [.word operator.token, .node operand true]
  | .assignment operator target value =>
    let token := match operator with | some operator => operator.token | none => ""
    [.node target true, .word (" " ++ token ++ "= "), .node value true]
  | .addressOf operand => [.word "&", .node operand true]
  | .cast type operand => [.word ("(" ++ p.types.nameOf type ++ ")"), .node operand true]
  | .parenthesized expression => between "(" expression ")"
  | .lambda parameters body =>
    .word "(" :: list ", " parameters ++ [.word ") => ", .node body true]
  | _ => []

def statementParts (p : Program) (terminated : Bool) : Form → List LayoutPart
  | .block statements =>
    .word "\x7b " :: list " " statements ++ [.word (if statements.isEmpty then "\x7d" else " \x7d")]
  | .expressionStatement expression => [.node expression true, .word ";"]
  | .localDeclaration type declarators =>
    .word (p.writtenTypeName type ++ " ") :: list ", " declarators ++
      [.word (if terminated then ";" else "")]
  | .variableDeclarator name initializer => .word name :: optional " = " initializer
  | .ifThen condition thenBranch elseBranch =>
    between "if (" condition ") " ++ .node thenBranch true :: optional " else " elseBranch
  | .whileLoop condition body => between "while (" condition ") " ++ [.node body true]
  | .forLoop initializers condition incrementors body =>
    .word "for (" :: separated ", " false initializers ++ optional "; " condition ++
      .word (if condition.isSome then "; " else "; ; ") :: list ", " incrementors ++
      [.word ") ", .node body true]
  | .switch expression sections =>
    between "switch (" expression ") \x7b " ++ list " " sections ++ [.word " \x7d"]
  | .switchSection labels statements =>
    list " " labels ++ .word " " :: list " " statements
  | .caseLabel (some value) => between "case " value ":"
  | .caseLabel none => [.word "default:"]
  | .breakJump => [.word "break;"]
  | .continueJump => [.word "continue;"]
  | .goto (.label name) => [.word ("goto " ++ name ++ ";")]
  | .goto (.caseOf value) => between "goto case " value ";"
  | .goto .defaultCase => [.word "goto default;"]
  | .labeled label statement => [.word (label ++ ": "), .node statement true]
  | .returnJump expression => .word "return" :: optional " " expression ++ [.word ";"]
  | .empty => [.word ";"]
  | .fixed declaration body =>
    [.word "fixed (", .node declaration false, .word ") ", .node body true]
  | .lock expression body => between "lock (" expression ") " ++ [.node body true]
  | .usingResource resource body =>
    [.word "using (", .node resource false, .word ") ", .node body true]
  | _ => []

def declarationParts (p : Program) (id : SyntaxId) : Form → List LayoutPart
  | .method name parameters body =>
    .word (p.declaredTypeName id ++ " " ++ name ++ "(") :: list ", " parameters ++
      match body with
      | some body => [.word ") ", .node body true]
      | none => [.word ");"]
  | .parameter name default =>
    let type := if (p.symbolOf id).isSome then p.declaredTypeName id ++ " " else ""
    .word (type ++ name) :: optional " = " default
  | .field declarators =>
    let type := match declarators with | first :: _ => p.declaredTypeName first | [] => "var"
    .word (type ++ " ") :: list ", " declarators ++ [.word ";"]
  | .property name initializer =>
    .word (p.declaredTypeName id ++ " " ++ name ++ " \x7b get; set; \x7d") ::
      match initializer with
      | some initializer => between " = " initializer ";"
      | none => []
  | .typeDeclaration name members =>
    .word ("class " ++ name ++ " \x7b ") :: list " " members ++ [.word " \x7d"]
  | _ => []

def layoutParts (p : Program) (id : SyntaxId) (terminated : Bool) (form : Form) :
    List LayoutPart :=
  p.expressionParts form ++ p.statementParts terminated form ++ p.declarationParts id form

end Program

/-- A text that is being written, with the places of the nodes in it. -/
structure Page where
  text : String
  nodes : SyntaxTable

namespace Page

def place (page : Page) : Nat := page.text.utf8ByteSize

def word (page : Page) (text : String) : Page := { page with text := page.text ++ text }

def mark (page : Page) (id : SyntaxId) (span : Span) : Page :=
  { page with nodes := page.nodes.modify id fun node => { node with span } }

end Page

namespace Program

/-- Appends a piece and sets the spans of the nodes in it. The fuel bounds the depth. -/
def layoutPart (p : Program) : Nat → Page → LayoutPart → Page
  | _, page, .word text => page.word text
  | 0, page, .node _ _ => page
  | fuel + 1, page, .node id terminated =>
    match p.formOf id with
    | none => page
    | some form =>
      let start := page.place
      let after := (p.layoutParts id terminated form).foldl (layoutPart p fuel) page
      after.mark id (Span.between start after.place)

/-- The nodes that are laid out by themselves: the members, then the nodes that are part of
nothing. -/
def layoutRoots (p : Program) : List SyntaxId :=
  let parts : Std.TreeMap SyntaxId Unit :=
    p.nodes.foldl (fun parts node => node.form.children.foldl (·.insert · ()) parts) {}
  let members : Std.TreeMap SyntaxId Unit := p.members.foldl (·.insert · ()) {}
  p.members ++
    (List.range p.nodes.size).filter fun id => !parts.contains id && !members.contains id

/-- The text of a program with the places of its nodes. No chain of parts is longer than the
number of nodes. -/
def layout (p : Program) : Page :=
  (LayoutPart.list "\n" p.layoutRoots).foldl (p.layoutPart (p.nodes.size + 1)) ⟨"", p.nodes⟩

end Program

end SemanticTrees
