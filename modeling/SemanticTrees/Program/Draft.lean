import SemanticTrees.Program.Binding
import SemanticTrees.Program.Layout

/-!
Programs that are put together by hand. Nodes are added after the nodes they are made of, together
with the facts that a checking phase would have recorded; finishing a draft lays it out as source
text, so that every node stands somewhere, and places the diagnostics that were reported at nodes.
-/

namespace SemanticTrees

/-- A diagnostic whose place is a node. -/
structure PendingDiagnostic where
  node : SyntaxId
  category : Category
  code : Nat
  text : String
deriving DecidableEq, Repr, Inhabited

/-- A program that is being put together. -/
structure Draft where
  program : Program
  pending : List PendingDiagnostic

/-- A step of putting a program together. -/
abbrev Drafting := StateM Draft

namespace Draft

def start (fileName : String) : Draft := ⟨Program.empty fileName, []⟩

/-- The finished program: laid out, and with every diagnostic in its place. -/
def finish (d : Draft) : Program :=
  let page := d.program.layout
  let placed := d.pending.map fun pending =>
    { span := page.nodes.spanOf pending.node, text := pending.text, category := pending.category,
      code := pending.code : Diagnostic }
  { d.program with
    sourceText := some page.text
    nodes := page.nodes
    diagnostics := d.program.diagnostics ++ placed }

end Draft

namespace Drafting

def change (f : Program → Program) : Drafting Unit :=
  modify fun d => { d with program := f d.program }

def look {α : Type} (f : Program → α) : Drafting α := do
  return f (← get).program

/-! ## Types -/

/-- The type of a name, which is added unless there is one. -/
def type (name : String) (kind : TypeKind) : Drafting TypeId := do
  match ← look fun p => p.types.find name with
  | some id => return id
  | none =>
    let id ← look fun p => p.types.size
    change fun p => { p with types := p.types.push ⟨name, kind⟩ }
    return id

def intType : Drafting TypeId := type "int" .structType

def boolType : Drafting TypeId := type "bool" .structType

def stringType : Drafting TypeId := type "string" .classType

def objectType : Drafting TypeId := type "object" .classType

def voidType : Drafting TypeId := type "void" .void

def dynamicType : Drafting TypeId := type "dynamic" .dynamic

def errorType : Drafting TypeId := type "?" .error

def pointerTo (pointee : TypeId) : Drafting TypeId := do
  type ((← look Program.types).nameOf pointee ++ "*") (.pointer pointee)

def arrayOf (element : TypeId) : Drafting TypeId := do
  type ((← look Program.types).nameOf element ++ "[]") (.array element)

/-! ## Symbols -/

def symbol (s : Symbol) : Drafting SymbolId := do
  let id ← look fun p => p.symbols.size
  change fun p => { p with symbols := p.symbols.push s }
  return id

/-- Changes a symbol, if there is one. -/
def changeSymbol (id : SymbolId) (f : Symbol → Symbol) : Drafting Unit :=
  change fun p => { p with symbols := p.symbols.modify id f }

def localVariable (name : String) (type : TypeId) : Drafting SymbolId :=
  symbol (Symbol.plain name .localVariable (some type))

def parameter (name : String) (type : TypeId) : Drafting SymbolId :=
  symbol (Symbol.plain name .parameter (some type))

def optionalParameter (name : String) (type : TypeId) (default : Constant) : Drafting SymbolId :=
  symbol { Symbol.plain name .parameter (some type) with default := some default }

def collectingParameter (name : String) (type : TypeId) : Drafting SymbolId :=
  symbol { Symbol.plain name .parameter (some type) with isCollecting := true }

def passedParameter (name : String) (type : TypeId) (passing : Passing) : Drafting SymbolId :=
  symbol { Symbol.plain name .parameter (some type) with passing }

def memberSymbol (containing : TypeId) (name : String) (kind : SymbolKind) (type : Option TypeId)
    (parameters : List SymbolId) : Drafting SymbolId :=
  symbol { Symbol.plain name kind type with containingType := some containing, parameters }

def field (containing : TypeId) (name : String) (type : TypeId) : Drafting SymbolId :=
  memberSymbol containing name .field (some type) []

def property (containing : TypeId) (name : String) (type : TypeId) : Drafting SymbolId :=
  memberSymbol containing name .property (some type) []

/-- A method, which returns nothing unless a type is given. -/
def method (containing : TypeId) (name : String) (returned : Option TypeId)
    (parameters : List SymbolId) : Drafting SymbolId := do
  let type ← match returned with
    | some type => pure type
    | none => voidType
  memberSymbol containing name .method (some type) parameters

def indexer (containing : TypeId) (type : TypeId) (parameters : List SymbolId) :
    Drafting SymbolId :=
  memberSymbol containing "this[]" .indexer (some type) parameters

def constructor (containing : TypeId) (parameters : List SymbolId) : Drafting SymbolId :=
  memberSymbol containing ".ctor" .constructor none parameters

def typeSymbol (type : TypeId) : Drafting SymbolId := do
  symbol (Symbol.plain ((← look Program.types).nameOf type) .type (some type))

/-! ## Nodes and facts -/

def changeFacts (id : SyntaxId) (f : Facts → Facts) : Drafting Unit :=
  change fun p => { p with facts := p.facts.insert id (f (p.factsOf id)) }

def setType (id : SyntaxId) (type : TypeId) : Drafting SyntaxId := do
  changeFacts id fun f => { f with type := some type }
  return id

/-- Sets the conversion of an expression to the type that its context requires. -/
def convert (id : SyntaxId) (kind : ConversionKind) (target : TypeId) : Drafting SyntaxId := do
  changeFacts id fun f => { f with conversion := some ⟨kind, target, true⟩ }
  return id

def node (form : Form) : Drafting SyntaxId := do
  let id ← look fun p => p.nodes.size
  change fun p => { p with nodes := p.nodes.push ⟨Span.zero, form⟩ }
  return id

def typed (form : Form) (type : Option TypeId) : Drafting SyntaxId := do
  let id ← node form
  match type with
  | some type => setType id type
  | none => return id

def named (id : SyntaxId) (symbol : SymbolId) : Drafting SyntaxId := do
  changeFacts id fun f => { f with symbol := some symbol }
  return id

def resolved (id : SyntaxId) (resolution : Resolution) : Drafting SyntaxId := do
  changeFacts id fun f => { f with resolution := some resolution }
  return id

/-- The type of a name: methods and constructors have none by themselves. -/
def nameType (id : SymbolId) : Drafting (Option TypeId) := do
  match (← look Program.symbols)[id]? with
  | some symbol =>
    if symbol.kind = .method ∨ symbol.kind = .constructor then return none else return symbol.type
  | none => return none

def resultType (id : SymbolId) : Drafting (Option TypeId) := do
  return (← look Program.symbols)[id]?.bind Symbol.type

def symbolName (id : SymbolId) : Drafting String := do
  return (← look Program.symbols).nameOf id

/-! ## Expressions -/

def literal (text : String) (constant : Constant) (type : Option TypeId) : Drafting SyntaxId := do
  let id ← typed (.literal text) type
  changeFacts id fun f => { f with constant := some constant }
  return id

def int (value : Int) : Drafting SyntaxId := do
  literal (toString value) (.int value) (some (← intType))

def bool (value : Bool) : Drafting SyntaxId := do
  literal (Constant.bool value).text (.bool value) (some (← boolType))

def string (value : String) : Drafting SyntaxId := do
  literal (Constant.string value).text (.string value) (some (← stringType))

def null : Drafting SyntaxId := literal "null" .null none

def name (symbol : SymbolId) : Drafting SyntaxId := do
  let id ← typed (.identifier (← symbolName symbol)) (← nameType symbol)
  named id symbol

def unresolvedName (name : String) : Drafting SyntaxId := do
  typed (.identifier name) (some (← errorType))

def this (type : TypeId) : Drafting SyntaxId := typed .this (some type)

def member (receiver : SyntaxId) (symbol : SymbolId) : Drafting SyntaxId := do
  let id ← typed (.memberAccess receiver (← symbolName symbol) []) (← nameType symbol)
  named id symbol

def dynamicMember (receiver : SyntaxId) (name : String) (types : List TypeId) :
    Drafting SyntaxId := do
  let id ← typed (.memberAccess receiver name types) (some (← dynamicType))
  resolved id (.lateBound [])

def lateBoundMember (receiver : SyntaxId) (name : String) (candidates : List SymbolId) :
    Drafting SyntaxId := do
  resolved (← node (.memberAccess receiver name [])) (.lateBound candidates)

def lateBoundName (name : String) (candidates : List SymbolId) : Drafting SyntaxId := do
  resolved (← node (.identifier name)) (.lateBound candidates)

def unresolvedMember (receiver : SyntaxId) (name : String) : Drafting SyntaxId := do
  let id ← typed (.memberAccess receiver name []) (some (← errorType))
  resolved id (.failed .notFound [])

def argument (name : Option String) (passing : Passing) (expression : SyntaxId) :
    Drafting SyntaxId :=
  node (.argument name passing expression)

/-- What a call, an element access or a creation is known to mean. -/
inductive Outcome
  | bound (member : SymbolId)
  | lateBound (candidates : List SymbolId)
  | failed (reason : FailureReason) (candidates : List SymbolId)

/-- The resolution of an outcome, the arguments bound to the parameters of a known member. -/
def resolutionOf (outcome : Outcome) (arguments : List SyntaxId) : Drafting Resolution := do
  match outcome with
  | .bound member =>
    return .resolved member (← look fun p => p.bindArguments member arguments)
  | .lateBound candidates => return .lateBound candidates
  | .failed reason candidates => return .failed reason candidates

def outcomeType (outcome : Outcome) : Drafting (Option TypeId) := do
  match outcome with
  | .bound member => resultType member
  | .lateBound _ => return some (← dynamicType)
  | .failed _ _ => return some (← errorType)

def invoke (callee : SyntaxId) (arguments : List SyntaxId) (outcome : Outcome) :
    Drafting SyntaxId := do
  let resolution ← resolutionOf outcome arguments
  let id ← typed (.invocation callee arguments) (← outcomeType outcome)
  resolved id resolution

def element (receiver : SyntaxId) (arguments : List SyntaxId) (outcome : Outcome) :
    Drafting SyntaxId := do
  let resolution ← resolutionOf outcome arguments
  let id ← typed (.elementAccess receiver arguments) (← outcomeType outcome)
  resolved id resolution

def arrayElement (receiver : SyntaxId) (arguments : List SyntaxId) (type : TypeId) :
    Drafting SyntaxId :=
  typed (.elementAccess receiver arguments) (some type)

def create (type : TypeId) (arguments : List SyntaxId) (outcome : Outcome) :
    Drafting SyntaxId := do
  let resolution ← resolutionOf outcome arguments
  let id ← typed (.objectCreation type arguments) (some type)
  resolved id resolution

def binary (operator : BinaryOperator) (left right : SyntaxId) (type : TypeId) :
    Drafting SyntaxId :=
  typed (.binary operator left right) (some type)

def unary (operator : UnaryOperator) (operand : SyntaxId) (type : TypeId) : Drafting SyntaxId :=
  typed (.unary operator operand) (some type)

def nodeType (id : SyntaxId) : Drafting (Option TypeId) := look fun p => p.typeOf id

/-- An assignment, with an operator when it combines the old value and the new one. -/
def assign (operator : Option BinaryOperator) (target value : SyntaxId) : Drafting SyntaxId := do
  typed (.assignment operator target value) (← nodeType target)

def addressOf (operand : SyntaxId) : Drafting SyntaxId := do
  let type ← match ← nodeType operand with
    | some pointee => some <$> pointerTo pointee
    | none => pure none
  typed (.addressOf operand) type

def cast (type : TypeId) (operand : SyntaxId) (kind : ConversionKind) : Drafting SyntaxId := do
  let id ← typed (.cast type operand) (some type)
  changeFacts id fun f => { f with conversion := some ⟨kind, type, false⟩ }
  return id

def parenthesized (expression : SyntaxId) : Drafting SyntaxId := do
  typed (.parenthesized expression) (← nodeType expression)

/-- A lambda, with a symbol of its own. -/
def lambda (parameters : List SyntaxId) (body : SyntaxId) : Drafting SyntaxId := do
  let symbol ← symbol (Symbol.plain "lambda" .lambda none)
  named (← node (.lambda parameters body)) symbol

/-! ## Declarations -/

def declarator (symbol : SymbolId) (initializer : Option SyntaxId) : Drafting SyntaxId := do
  named (← node (.variableDeclarator (← symbolName symbol) initializer)) symbol

def methodDeclaration (symbol : SymbolId) (parameters : List SyntaxId) (body : Option SyntaxId) :
    Drafting SyntaxId := do
  named (← node (.method (← symbolName symbol) parameters body)) symbol

def parameterDeclaration (symbol : SymbolId) (default : Option SyntaxId) : Drafting SyntaxId := do
  named (← node (.parameter (← symbolName symbol) default)) symbol

def propertyDeclaration (symbol : SymbolId) (initializer : Option SyntaxId) :
    Drafting SyntaxId := do
  named (← node (.property (← symbolName symbol) initializer)) symbol

def typeDeclaration (type : TypeId) (members : List SyntaxId) : Drafting SyntaxId := do
  let id ← node (.typeDeclaration ((← look Program.types).nameOf type) members)
  setType id type

def addMember (declaration : SyntaxId) : Drafting Unit :=
  change fun p => { p with members := p.members ++ [declaration] }

/-! ## Diagnostics -/

def report (d : Diagnostic) : Drafting Unit :=
  change fun p => { p with diagnostics := p.diagnostics ++ [d] }

/-- Reports a diagnostic at a node, wherever the layout puts it. -/
def reportAt (node : SyntaxId) (category : Category) (code : Nat) (text : String) :
    Drafting Unit :=
  modify fun d => { d with pending := d.pending ++ [⟨node, category, code, text⟩] }

end Drafting

end SemanticTrees
