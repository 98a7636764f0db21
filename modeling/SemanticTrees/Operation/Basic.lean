import SemanticTrees.Operation.Slots

/-!
Operations: what a piece of syntax means, with the type and constant of its value. An operation is
invalid by itself when it stands for something that was not understood or is marked so.
-/

namespace SemanticTrees

/-- An operation of a store or a tree. -/
structure Operation where
  kind : OperationKind
  /-- The syntax node that it was made for. -/
  origin : SyntaxId
  span : Span
  /-- The type of its value. -/
  type : Option TypeId
  /-- The value, where it is known. -/
  constant : Option Constant
  /-- Whether it was added without being written. -/
  isImplicit : Bool
  /-- Whether it is invalid, apart from its children. -/
  isSelfInvalid : Bool
deriving DecidableEq, Repr, Inhabited

namespace Operation

/-- An operation without a type; placeholders are invalid. -/
def plain (kind : OperationKind) (origin : SyntaxId) (span : Span) : Operation :=
  { kind, origin, span, type := none, constant := none, isImplicit := false,
    isSelfInvalid := kind.isPlaceholder }

def role (o : Operation) : Role := o.kind.role

def isExpression (o : Operation) : Bool := o.role == .expression

/-- Sets the type of the value, if there is one. -/
def withType (o : Operation) (type : Option TypeId) : Operation :=
  if o.isExpression then { o with type } else o

/-- Sets the constant of the value, if there is one. -/
def withConstant (o : Operation) (constant : Option Constant) : Operation :=
  if o.isExpression then { o with constant } else o

def implicit (o : Operation) : Operation := { o with isImplicit := true }

/-- The operation as an invalid one, under a condition. -/
def invalidIf (o : Operation) (invalid : Bool) : Operation :=
  { o with isSelfInvalid := o.isSelfInvalid || invalid }

/-- The children, in the order of the slots. -/
def children (o : Operation) : List OperationId := o.kind.children

def mapChildren (f : OperationId → OperationId) (o : Operation) : Operation :=
  { o with kind := o.kind.mapChildren f }

end Operation

end SemanticTrees
