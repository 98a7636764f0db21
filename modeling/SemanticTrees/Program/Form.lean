import SemanticTrees.Program.Symbol
import SemanticTrees.Program.Operator
import SemanticTrees.Source.Span

/-!
Syntax nodes of a checked program. Nodes stand in one table and refer to one another by their
places in it, so one node may be part of several others and a reference may lead nowhere.
-/

namespace SemanticTrees

/-- The place of a node in the table of nodes. -/
abbrev SyntaxId := Nat

/-- Where a jump leads. -/
inductive JumpTarget
  | label (name : String)
  | caseOf (value : SyntaxId)
  | defaultCase
deriving DecidableEq, Repr, Inhabited

/-- What a node is, with the nodes that it is made of. -/
inductive Form
  /-- A literal, whose value is a fact. -/
  | literal (text : String)
  | identifier (name : String)
  | this
  | memberAccess (receiver : SyntaxId) (name : String) (typeArguments : List TypeId)
  | invocation (callee : SyntaxId) (arguments : List SyntaxId)
  | elementAccess (receiver : SyntaxId) (arguments : List SyntaxId)
  | argument (name : Option String) (passing : Passing) (expression : SyntaxId)
  | objectCreation (type : TypeId) (arguments : List SyntaxId)
  | binary (operator : BinaryOperator) (left right : SyntaxId)
  | unary (operator : UnaryOperator) (operand : SyntaxId)
  /-- An assignment, with an operator when it combines the old value and the new one. -/
  | assignment (operator : Option BinaryOperator) (target value : SyntaxId)
  | addressOf (operand : SyntaxId)
  | cast (type : TypeId) (operand : SyntaxId)
  | parenthesized (expression : SyntaxId)
  | lambda (parameters : List SyntaxId) (body : SyntaxId)
  /-- Stands where an expression was expected and none was written. -/
  | missing
  | block (statements : List SyntaxId)
  | expressionStatement (expression : SyntaxId)
  | localDeclaration (type : Option TypeId) (declarators : List SyntaxId)
  | variableDeclarator (name : String) (initializer : Option SyntaxId)
  | ifThen (condition thenBranch : SyntaxId) (elseBranch : Option SyntaxId)
  | whileLoop (condition body : SyntaxId)
  | forLoop (initializers : List SyntaxId) (condition : Option SyntaxId)
      (incrementors : List SyntaxId) (body : SyntaxId)
  | switch (expression : SyntaxId) (sections : List SyntaxId)
  | switchSection (labels statements : List SyntaxId)
  /-- A label of a section: a case, or the default when there is no value. -/
  | caseLabel (value : Option SyntaxId)
  | breakJump
  | continueJump
  | goto (target : JumpTarget)
  | labeled (label : String) (statement : SyntaxId)
  | returnJump (expression : Option SyntaxId)
  | empty
  | fixed (declaration body : SyntaxId)
  | lock (expression body : SyntaxId)
  | usingResource (resource body : SyntaxId)
  | method (name : String) (parameters : List SyntaxId) (body : Option SyntaxId)
  | parameter (name : String) (default : Option SyntaxId)
  | field (declarators : List SyntaxId)
  | property (name : String) (initializer : Option SyntaxId)
  | typeDeclaration (name : String) (members : List SyntaxId)
deriving DecidableEq, Repr, Inhabited

namespace Form

def name : Form → String
  | .literal .. => "Literal"
  | .identifier .. => "Identifier"
  | .this => "This"
  | .memberAccess .. => "MemberAccess"
  | .invocation .. => "Invocation"
  | .elementAccess .. => "ElementAccess"
  | .argument .. => "Argument"
  | .objectCreation .. => "ObjectCreation"
  | .binary .. => "Binary"
  | .unary .. => "Unary"
  | .assignment .. => "Assignment"
  | .addressOf .. => "AddressOf"
  | .cast .. => "Cast"
  | .parenthesized .. => "Parenthesized"
  | .lambda .. => "Lambda"
  | .missing => "Missing"
  | .block .. => "Block"
  | .expressionStatement .. => "ExpressionStatement"
  | .localDeclaration .. => "LocalDeclaration"
  | .variableDeclarator .. => "VariableDeclarator"
  | .ifThen .. => "If"
  | .whileLoop .. => "While"
  | .forLoop .. => "For"
  | .switch .. => "Switch"
  | .switchSection .. => "SwitchSection"
  | .caseLabel .. => "CaseLabel"
  | .breakJump => "Break"
  | .continueJump => "Continue"
  | .goto .. => "Goto"
  | .labeled .. => "Labeled"
  | .returnJump .. => "Return"
  | .empty => "Empty"
  | .fixed .. => "Fixed"
  | .lock .. => "Lock"
  | .usingResource .. => "Using"
  | .method .. => "Method"
  | .parameter .. => "Parameter"
  | .field .. => "Field"
  | .property .. => "Property"
  | .typeDeclaration .. => "TypeDeclaration"

def isExpression : Form → Bool
  | .literal .. | .identifier .. | .this | .memberAccess .. | .invocation .. | .elementAccess ..
  | .objectCreation .. | .binary .. | .unary .. | .assignment .. | .addressOf .. | .cast ..
  | .parenthesized .. | .lambda .. | .missing => true
  | _ => false

def isMember : Form → Bool
  | .method .. | .field .. | .property .. | .typeDeclaration .. => true
  | _ => false

/-- The nodes that a form is made of, in the order of the source. -/
def children : Form → List SyntaxId
  | .literal .. | .identifier .. | .this | .missing | .breakJump | .continueJump | .empty => []
  | .memberAccess receiver _ _ => [receiver]
  | .invocation callee arguments => callee :: arguments
  | .elementAccess receiver arguments => receiver :: arguments
  | .argument _ _ expression => [expression]
  | .objectCreation _ arguments => arguments
  | .binary _ left right => [left, right]
  | .unary _ operand => [operand]
  | .assignment _ target value => [target, value]
  | .addressOf operand => [operand]
  | .cast _ operand => [operand]
  | .parenthesized expression => [expression]
  | .lambda parameters body => parameters ++ [body]
  | .block statements => statements
  | .expressionStatement expression => [expression]
  | .localDeclaration _ declarators => declarators
  | .variableDeclarator _ initializer => initializer.toList
  | .ifThen condition thenBranch elseBranch => condition :: thenBranch :: elseBranch.toList
  | .whileLoop condition body => [condition, body]
  | .forLoop initializers condition incrementors body =>
    initializers ++ condition.toList ++ incrementors ++ [body]
  | .switch expression sections => expression :: sections
  | .switchSection labels statements => labels ++ statements
  | .caseLabel value => value.toList
  | .goto (.caseOf value) => [value]
  | .goto _ => []
  | .labeled _ statement => [statement]
  | .returnJump expression => expression.toList
  | .fixed declaration body => [declaration, body]
  | .lock expression body => [expression, body]
  | .usingResource resource body => [resource, body]
  | .method _ parameters body => parameters ++ body.toList
  | .parameter _ default => default.toList
  | .field declarators => declarators
  | .property _ initializer => initializer.toList
  | .typeDeclaration _ members => members

def typesNamed : Form → List TypeId
  | .memberAccess _ _ typeArguments => typeArguments
  | .objectCreation type _ => [type]
  | .cast type _ => [type]
  | .localDeclaration type _ => type.toList
  | _ => []

end Form

/-- A syntax node: what it is and where it stands. -/
structure SyntaxNode where
  span : Span
  form : Form
deriving DecidableEq, Repr, Inhabited

/-- The syntax nodes of a program. -/
abbrev SyntaxTable := Array SyntaxNode

namespace SyntaxTable

def formOf (nodes : SyntaxTable) (id : SyntaxId) : Option Form := nodes[id]?.map SyntaxNode.form

/-- The span of a node; unknown nodes have the empty span at the start of the source. -/
def spanOf (nodes : SyntaxTable) (id : SyntaxId) : Span :=
  match nodes[id]? with
  | some node => node.span
  | none => Span.zero

/-- The nodes that a node is made of; unknown nodes have none. -/
def childrenOf (nodes : SyntaxTable) (id : SyntaxId) : List SyntaxId :=
  match nodes[id]? with
  | some node => node.form.children
  | none => []

end SyntaxTable

end SemanticTrees
