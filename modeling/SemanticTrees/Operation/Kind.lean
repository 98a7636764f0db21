import SemanticTrees.Program.Facts

/-!
The catalogue of operations. An operation refers to its children by their places in the store that
holds it, and says what it means in terms of the symbols and types of the program.
-/

namespace SemanticTrees

/-- The place of an operation in a store or a tree. -/
abbrev OperationId := Nat

/-- The two places where an operation may stand. -/
inductive Role
  | expression
  | statement
deriving DecidableEq, Repr, Inhabited

def Role.name : Role → String
  | .expression => "Expression"
  | .statement => "Statement"

/-- How control leaves a statement. -/
inductive BranchKind
  | breakOut
  | continueLoop
  | goto
deriving DecidableEq, Repr, Inhabited

namespace BranchKind

def all : List BranchKind := [.breakOut, .continueLoop, .goto]

def name : BranchKind → String
  | .breakOut => "Break"
  | .continueLoop => "Continue"
  | .goto => "GoTo"

end BranchKind

/-- One argument of an access that is resolved at run time. -/
structure DynamicArgument where
  value : OperationId
  name : Option String
  passing : Passing
deriving DecidableEq, Repr, Inhabited

/-- What is known of an access that is resolved at run time. Names and ways of passing are listed
in step with the arguments, or not at all when they are the same as for a plain list of
expressions. -/
structure DynamicAccess where
  memberName : String
  containingType : Option TypeId
  typeArguments : List TypeId
  receiver : Option OperationId
  arguments : List OperationId
  names : List (Option String)
  passings : List Passing
deriving DecidableEq, Repr, Inhabited

namespace DynamicAccess

def unknown : DynamicAccess := ⟨"", none, [], none, [], [], []⟩

/-- The access with the given arguments. Names are left out when no argument has one, and ways of
passing when every argument is passed by value. -/
def withArguments (a : DynamicAccess) (arguments : List DynamicArgument) : DynamicAccess :=
  let names := arguments.map DynamicArgument.name
  let passings := arguments.map DynamicArgument.passing
  { a with
    arguments := arguments.map DynamicArgument.value
    names := if names.all Option.isNone then [] else names
    passings := if passings.all (· == .byValue) then [] else passings }

def argumentName (a : DynamicAccess) (i : Nat) : Option String := a.names[i]?.join

def argumentPassing (a : DynamicAccess) (i : Nat) : Passing := a.passings.getD i .byValue

def isConsistent (a : DynamicAccess) : Bool :=
  (a.names.isEmpty || a.names.length == a.arguments.length) &&
    (a.passings.isEmpty || a.passings.length == a.arguments.length)

def mapChildren (f : OperationId → OperationId) (a : DynamicAccess) : DynamicAccess :=
  { a with receiver := a.receiver.map f, arguments := a.arguments.map f }

end DynamicAccess

/-- What an operation is, with the operations that it is made of. -/
inductive OperationKind
  | literal
  | localReference (symbol : SymbolId)
  | parameterReference (parameter : SymbolId)
  | fieldReference (field : SymbolId) (receiver : Option OperationId)
  | propertyReference (property : SymbolId) (receiver : Option OperationId)
      (arguments : List OperationId)
  | methodReference (method : SymbolId) (receiver : Option OperationId) (isVirtual : Bool)
  | instanceReference
  | conversion (operand : OperationId) (kind : ConversionKind)
  | invocation (method : SymbolId) (receiver : Option OperationId) (isVirtual : Bool)
      (arguments : List OperationId)
  | argument (kind : ArgumentKind) (parameter : SymbolId) (value : OperationId)
  | binary (operator : BinaryOperator) (left right : OperationId)
  | unary (operator : UnaryOperator) (operand : OperationId)
  | simpleAssignment (target value : OperationId)
  | compoundAssignment (operator : BinaryOperator) (target value : OperationId)
  | addressOf (reference : OperationId)
  | arrayElementReference (array : OperationId) (indices : List OperationId)
  | objectCreation (constructor : SymbolId) (arguments : List OperationId)
  | anonymousFunction (symbol : Option SymbolId) (body : OperationId)
  | dynamicMemberReference (access : DynamicAccess)
  | dynamicInvocation (access : DynamicAccess)
  | dynamicIndexerAccess (access : DynamicAccess)
  | dynamicObjectCreation (access : DynamicAccess)
  /-- Stands for an expression that could not be understood. -/
  | invalidExpression (children : List OperationId)
  | block (statements : List OperationId)
  | expressionStatement (operation : OperationId)
  | variableDeclarationGroup (declarations : List OperationId)
  | variableDeclaration (declarators : List OperationId)
  | variableDeclarator (symbol : Option SymbolId) (initializer : Option OperationId)
  | conditional (condition whenTrue : OperationId) (whenFalse : Option OperationId)
  | whileLoop (condition body : OperationId)
  | forLoop (before : List OperationId) (condition : Option OperationId)
      (atLoopBottom : List OperationId) (body : OperationId)
  | switch (value : OperationId) (cases : List OperationId)
  | switchCase (clauses body : List OperationId)
  | caseClause (value : Option OperationId)
  | branch (kind : BranchKind) (label : Option String)
  | labeled (label : String) (operation : Option OperationId)
  | returnValue (value : Option OperationId)
  | empty
  | fixedStatement (declared body : OperationId)
  | lockStatement (expression body : OperationId)
  | usingStatement (resources body : OperationId)
  | fieldInitializer (field : SymbolId) (value : OperationId)
  | propertyInitializer (property : SymbolId) (value : OperationId)
  | parameterInitializer (parameter : SymbolId) (value : OperationId)
  | methodBody (body : OperationId)
  /-- Stands for a statement that could not be understood. -/
  | invalidStatement (children : List OperationId)
deriving DecidableEq, Repr, Inhabited

namespace OperationKind

def name : OperationKind → String
  | .literal => "Literal"
  | .localReference .. => "LocalReference"
  | .parameterReference .. => "ParameterReference"
  | .fieldReference .. => "FieldReference"
  | .propertyReference .. => "PropertyReference"
  | .methodReference .. => "MethodReference"
  | .instanceReference => "InstanceReference"
  | .conversion .. => "Conversion"
  | .invocation .. => "Invocation"
  | .argument .. => "Argument"
  | .binary .. => "Binary"
  | .unary .. => "Unary"
  | .simpleAssignment .. => "SimpleAssignment"
  | .compoundAssignment .. => "CompoundAssignment"
  | .addressOf .. => "AddressOf"
  | .arrayElementReference .. => "ArrayElementReference"
  | .objectCreation .. => "ObjectCreation"
  | .anonymousFunction .. => "AnonymousFunction"
  | .dynamicMemberReference .. => "DynamicMemberReference"
  | .dynamicInvocation .. => "DynamicInvocation"
  | .dynamicIndexerAccess .. => "DynamicIndexerAccess"
  | .dynamicObjectCreation .. => "DynamicObjectCreation"
  | .invalidExpression .. => "InvalidExpression"
  | .block .. => "Block"
  | .expressionStatement .. => "ExpressionStatement"
  | .variableDeclarationGroup .. => "VariableDeclarationGroup"
  | .variableDeclaration .. => "VariableDeclaration"
  | .variableDeclarator .. => "VariableDeclarator"
  | .conditional .. => "Conditional"
  | .whileLoop .. => "WhileLoop"
  | .forLoop .. => "ForLoop"
  | .switch .. => "Switch"
  | .switchCase .. => "SwitchCase"
  | .caseClause .. => "CaseClause"
  | .branch .. => "Branch"
  | .labeled .. => "Labeled"
  | .returnValue .. => "Return"
  | .empty => "Empty"
  | .fixedStatement .. => "FixedStatement"
  | .lockStatement .. => "LockStatement"
  | .usingStatement .. => "UsingStatement"
  | .fieldInitializer .. => "FieldInitializer"
  | .propertyInitializer .. => "PropertyInitializer"
  | .parameterInitializer .. => "ParameterInitializer"
  | .methodBody .. => "MethodBody"
  | .invalidStatement .. => "InvalidStatement"

def role : OperationKind → Role
  | .literal | .localReference .. | .parameterReference .. | .fieldReference ..
  | .propertyReference .. | .methodReference .. | .instanceReference | .conversion ..
  | .invocation .. | .argument .. | .binary .. | .unary .. | .simpleAssignment ..
  | .compoundAssignment .. | .addressOf .. | .arrayElementReference .. | .objectCreation ..
  | .anonymousFunction .. | .dynamicMemberReference .. | .dynamicInvocation ..
  | .dynamicIndexerAccess .. | .dynamicObjectCreation .. | .invalidExpression .. => .expression
  | .block .. | .expressionStatement .. | .variableDeclarationGroup .. | .variableDeclaration ..
  | .variableDeclarator .. | .conditional .. | .whileLoop .. | .forLoop .. | .switch ..
  | .switchCase .. | .caseClause .. | .branch .. | .labeled .. | .returnValue .. | .empty
  | .fixedStatement .. | .lockStatement .. | .usingStatement .. | .fieldInitializer ..
  | .propertyInitializer .. | .parameterInitializer .. | .methodBody ..
  | .invalidStatement .. => .statement

/-- Whether an operation stands for something that could not be understood. -/
def isPlaceholder : OperationKind → Bool
  | .invalidExpression .. | .invalidStatement .. => true
  | _ => false

def dynamicAccess? : OperationKind → Option DynamicAccess
  | .dynamicMemberReference access | .dynamicInvocation access | .dynamicIndexerAccess access
  | .dynamicObjectCreation access => some access
  | _ => none

end OperationKind

end SemanticTrees
