import SemanticTrees.Operation.Kind

/-!
Slots: the named places of the children of an operation. Every walk over children goes through
them, and renumbering children changes what is in the slots and nothing else.
-/

namespace SemanticTrees

/-- What a slot holds. -/
inductive Slot
  | one (child : Option OperationId)
  | many (children : List OperationId)
deriving DecidableEq, Repr, Inhabited

namespace Slot

def children : Slot → List OperationId
  | .one child => child.toList
  | .many children => children

def map (f : OperationId → OperationId) : Slot → Slot
  | .one child => .one (child.map f)
  | .many children => .many (children.map f)

def given (child : OperationId) : Slot := .one (some child)

end Slot

namespace OperationKind

/-- The slots of an operation with their names, in order. -/
def slots : OperationKind → List (String × Slot)
  | .literal | .localReference _ | .parameterReference _ | .instanceReference | .branch _ _
  | .empty => []
  | .fieldReference _ receiver => [("Instance", .one receiver)]
  | .propertyReference _ receiver arguments =>
    [("Instance", .one receiver), ("Arguments", .many arguments)]
  | .methodReference _ receiver _ => [("Instance", .one receiver)]
  | .conversion operand _ => [("Operand", .given operand)]
  | .invocation _ receiver _ arguments =>
    [("Instance", .one receiver), ("Arguments", .many arguments)]
  | .argument _ _ value => [("Value", .given value)]
  | .binary _ left right => [("Left", .given left), ("Right", .given right)]
  | .unary _ operand => [("Operand", .given operand)]
  | .simpleAssignment target value => [("Target", .given target), ("Value", .given value)]
  | .compoundAssignment _ target value => [("Target", .given target), ("Value", .given value)]
  | .addressOf reference => [("Reference", .given reference)]
  | .arrayElementReference array indices => [("Array", .given array), ("Indices", .many indices)]
  | .objectCreation _ arguments => [("Arguments", .many arguments)]
  | .anonymousFunction _ body => [("Body", .given body)]
  | .dynamicMemberReference access => [("Instance", .one access.receiver)]
  | .dynamicInvocation access | .dynamicIndexerAccess access =>
    [("Operation", .one access.receiver), ("Arguments", .many access.arguments)]
  | .dynamicObjectCreation access => [("Arguments", .many access.arguments)]
  | .invalidExpression children | .invalidStatement children => [("Children", .many children)]
  | .block statements => [("Statements", .many statements)]
  | .expressionStatement operation => [("Operation", .given operation)]
  | .variableDeclarationGroup declarations => [("Declarations", .many declarations)]
  | .variableDeclaration declarators => [("Declarators", .many declarators)]
  | .variableDeclarator _ initializer => [("Initializer", .one initializer)]
  | .conditional condition whenTrue whenFalse =>
    [("Condition", .given condition), ("WhenTrue", .given whenTrue), ("WhenFalse", .one whenFalse)]
  | .whileLoop condition body => [("Condition", .given condition), ("Body", .given body)]
  | .forLoop before condition atLoopBottom body =>
    [("Before", .many before), ("Condition", .one condition),
      ("AtLoopBottom", .many atLoopBottom), ("Body", .given body)]
  | .switch value cases => [("Value", .given value), ("Cases", .many cases)]
  | .switchCase clauses body => [("Clauses", .many clauses), ("Body", .many body)]
  | .caseClause value => [("Value", .one value)]
  | .labeled _ operation => [("Statement", .one operation)]
  | .returnValue value => [("ReturnedValue", .one value)]
  | .fixedStatement declared body => [("Variables", .given declared), ("Body", .given body)]
  | .lockStatement expression body => [("Expression", .given expression), ("Body", .given body)]
  | .usingStatement resources body => [("Resources", .given resources), ("Body", .given body)]
  | .fieldInitializer _ value | .propertyInitializer _ value | .parameterInitializer _ value =>
    [("Value", .given value)]
  | .methodBody body => [("BlockBody", .given body)]

/-- The children of an operation, in the order of its slots. -/
def children (kind : OperationKind) : List OperationId :=
  kind.slots.flatMap fun (_, slot) => slot.children

def mapChildren (f : OperationId → OperationId) : OperationKind → OperationKind
  | .literal => .literal
  | .localReference symbol => .localReference symbol
  | .parameterReference parameter => .parameterReference parameter
  | .fieldReference field receiver => .fieldReference field (receiver.map f)
  | .propertyReference property receiver arguments =>
    .propertyReference property (receiver.map f) (arguments.map f)
  | .methodReference method receiver isVirtual =>
    .methodReference method (receiver.map f) isVirtual
  | .instanceReference => .instanceReference
  | .conversion operand kind => .conversion (f operand) kind
  | .invocation method receiver isVirtual arguments =>
    .invocation method (receiver.map f) isVirtual (arguments.map f)
  | .argument kind parameter value => .argument kind parameter (f value)
  | .binary operator left right => .binary operator (f left) (f right)
  | .unary operator operand => .unary operator (f operand)
  | .simpleAssignment target value => .simpleAssignment (f target) (f value)
  | .compoundAssignment operator target value => .compoundAssignment operator (f target) (f value)
  | .addressOf reference => .addressOf (f reference)
  | .arrayElementReference array indices => .arrayElementReference (f array) (indices.map f)
  | .objectCreation constructor arguments => .objectCreation constructor (arguments.map f)
  | .anonymousFunction symbol body => .anonymousFunction symbol (f body)
  | .dynamicMemberReference access => .dynamicMemberReference (access.mapChildren f)
  | .dynamicInvocation access => .dynamicInvocation (access.mapChildren f)
  | .dynamicIndexerAccess access => .dynamicIndexerAccess (access.mapChildren f)
  | .dynamicObjectCreation access => .dynamicObjectCreation (access.mapChildren f)
  | .invalidExpression children => .invalidExpression (children.map f)
  | .block statements => .block (statements.map f)
  | .expressionStatement operation => .expressionStatement (f operation)
  | .variableDeclarationGroup declarations => .variableDeclarationGroup (declarations.map f)
  | .variableDeclaration declarators => .variableDeclaration (declarators.map f)
  | .variableDeclarator symbol initializer => .variableDeclarator symbol (initializer.map f)
  | .conditional condition whenTrue whenFalse =>
    .conditional (f condition) (f whenTrue) (whenFalse.map f)
  | .whileLoop condition body => .whileLoop (f condition) (f body)
  | .forLoop before condition atLoopBottom body =>
    .forLoop (before.map f) (condition.map f) (atLoopBottom.map f) (f body)
  | .switch value cases => .switch (f value) (cases.map f)
  | .switchCase clauses body => .switchCase (clauses.map f) (body.map f)
  | .caseClause value => .caseClause (value.map f)
  | .branch kind label => .branch kind label
  | .labeled label operation => .labeled label (operation.map f)
  | .returnValue value => .returnValue (value.map f)
  | .empty => .empty
  | .fixedStatement declared body => .fixedStatement (f declared) (f body)
  | .lockStatement expression body => .lockStatement (f expression) (f body)
  | .usingStatement resources body => .usingStatement (f resources) (f body)
  | .fieldInitializer field value => .fieldInitializer field (f value)
  | .propertyInitializer property value => .propertyInitializer property (f value)
  | .parameterInitializer parameter value => .parameterInitializer parameter (f value)
  | .methodBody body => .methodBody (f body)
  | .invalidStatement children => .invalidStatement (children.map f)

/-- Renumbering the children renumbers what is in the slots; the names of the slots stay. -/
theorem slots_mapChildren (f : OperationId → OperationId) (kind : OperationKind) :
    (kind.mapChildren f).slots = kind.slots.map fun (name, slot) => (name, slot.map f) := by
  cases kind <;> rfl

end OperationKind

end SemanticTrees
