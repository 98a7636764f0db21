import SemanticTrees.Lowering.Scope
import SemanticTrees.Operation.Store
import SemanticTrees.Limits

/-!
The surroundings of lowering. Lowering turns a syntax node into an operation of a store; each form
is lowered by a function of its own, which gets the lowering of the nodes it is made of as a
parameter and is not recursive itself.
-/

namespace SemanticTrees

/-- The choices of lowering. -/
structure LoweringOptions where
  /-- The number of nested syntax nodes that are lowered; deeper ones become placeholders. -/
  maxDepth : Nat := Limits.loweringDepth
  /-- Whether a lambda as an argument makes an access that is resolved at run time invalid. -/
  taintLambdas : Bool := true
  /-- Whether type arguments make a member that is resolved at run time and not called invalid. -/
  flagTypeArguments : Bool := true
deriving DecidableEq, Repr, Inhabited

/-- A step of lowering, which adds operations to a store. -/
abbrev Lowering := StateM Store

/-- The lowering of nodes in a role, given their surroundings. -/
abbrev Walk := Scope → Role → SyntaxId → Lowering OperationId

/-- What the lowering of one node depends on. -/
structure Context where
  program : Program
  options : LoweringOptions
  scope : Scope
  /-- The lowering of the nodes that the node is made of. -/
  walk : Walk

namespace Lowering

def emit (o : Operation) : Lowering OperationId := do
  let i := (← get).size
  modify (·.add o)
  return i

def associate (node : SyntaxId) (i : OperationId) : Lowering Unit :=
  modify (·.associate node i)

end Lowering

namespace Context

open Lowering

variable (c : Context)

def expression (id : SyntaxId) : Lowering OperationId := c.walk c.scope .expression id

def statement (id : SyntaxId) : Lowering OperationId := c.walk c.scope .statement id

def expression? : Option SyntaxId → Lowering (Option OperationId)
  | some id => some <$> c.expression id
  | none => return none

def statement? : Option SyntaxId → Lowering (Option OperationId)
  | some id => some <$> c.statement id
  | none => return none

def within (scope : Scope) : Context := { c with scope }

def formOf (id : SyntaxId) : Option Form := c.program.formOf id

def typeOf (id : SyntaxId) : Option TypeId := c.program.typeOf id

def symbol? (id : SymbolId) : Option Symbol := c.program.symbols[id]?

def symbolAt (id : SyntaxId) : Option Symbol := (c.program.symbolOf id).bind c.symbol?

def isDynamic (id : SyntaxId) : Bool := (c.typeOf id).any c.program.types.isDynamic

def isTypeName (id : SyntaxId) : Bool := (c.symbolAt id).any fun symbol => symbol.kind == .type

def isExpression (id : SyntaxId) : Bool := (c.formOf id).any Form.isExpression

/-- An operation at a node, without a type. -/
def plain (kind : OperationKind) (id : SyntaxId) : Operation :=
  Operation.plain kind id (c.program.nodes.spanOf id)

/-- An operation at a node, with the type and constant of the node. -/
def valued (kind : OperationKind) (id : SyntaxId) : Operation :=
  ((c.plain kind id).withType (c.typeOf id)).withConstant (c.program.constantOf id)

def emitPlain (kind : OperationKind) (id : SyntaxId) : Lowering OperationId :=
  emit (c.plain kind id)

def emitValued (kind : OperationKind) (id : SyntaxId) : Lowering OperationId :=
  emit (c.valued kind id)

/-- Adds a placeholder for an expression. It keeps the type of its node. -/
def invalidExpression (id : SyntaxId) (children : List OperationId) : Lowering OperationId :=
  emit ((c.plain (.invalidExpression children) id).withType (c.typeOf id))

def invalidStatement (id : SyntaxId) (children : List OperationId) : Lowering OperationId :=
  c.emitPlain (.invalidStatement children) id

def placeholder (role : Role) (id : SyntaxId) : Lowering OperationId :=
  match role with
  | .expression => c.invalidExpression id []
  | .statement => c.invalidStatement id []

/-- Adds a placeholder for a statement with whatever it is made of. -/
def salvageStatement (id : SyntaxId) : Lowering OperationId := do
  let children ← (c.program.nodes.childrenOf id).mapM fun child =>
    if c.isExpression child then c.expression child else c.statement child
  c.invalidStatement id children

end Context

end SemanticTrees
