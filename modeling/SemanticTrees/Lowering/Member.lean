import SemanticTrees.Lowering.Basic

/-!
Names and member accesses, whether their symbol is known or resolved at run time.
-/

namespace SemanticTrees.Context

open Lowering

variable (c : Context)

/-- The instance that a member is taken of when no receiver is written. -/
def implicitReceiver (member : SymbolId) (id : SyntaxId) : Lowering (Option OperationId) :=
  match c.symbol? member with
  | none => return none
  | some symbol =>
    if symbol.isStatic || !symbol.kind.isMember then return none
    else
      some <$> emit ((c.plain .instanceReference id).withType symbol.containingType).implicit

def firstImplicitReceiver (id : SyntaxId) : List SymbolId → Lowering (Option OperationId)
  | [] => return none
  | member :: rest => do
    match ← c.implicitReceiver member id with
    | some receiver => return some receiver
    | none => firstImplicitReceiver id rest

/-- The operation that refers to a symbol; types and the like cannot be referred to. -/
def referenceKind (id : SymbolId) (receiver : Option OperationId) : Option OperationKind :=
  match c.symbol? id with
  | none => none
  | some symbol =>
    match symbol.kind with
    | .localVariable => some (.localReference id)
    | .parameter => some (.parameterReference id)
    | .field => some (.fieldReference id receiver)
    | .property => some (.propertyReference id receiver [])
    | .method => some (.methodReference id receiver symbol.isVirtual)
    | .indexer | .constructor | .type | .lambda => none

/-- Refers to a symbol with a receiver that is lowered already, or keeps the receiver in a
placeholder. -/
def reference (id : SyntaxId) (symbol : SymbolId) (receiver : Option OperationId) :
    Lowering OperationId :=
  match c.referenceKind symbol receiver with
  | some kind => c.emitValued kind id
  | none => c.invalidExpression id receiver.toList

/-- The type known at run time only, if the program has one. -/
def dynamicType : Option TypeId :=
  c.program.types.findIdx? fun info => info.kind == .dynamic

/-- An operation that is resolved at run time: without a type of its own it has the type known at
run time only. -/
def lateBound (kind : OperationKind) (id : SyntaxId) : Operation :=
  let o := c.valued kind id
  if o.type.isSome then o else o.withType c.dynamicType

/-- The type that contains a member which is resolved at run time, when it is known. -/
def knownContainingType (receiver : Option SyntaxId) (candidates : List SymbolId) :
    Option TypeId :=
  if receiver.any c.isDynamic then none
  else
    (candidates.findSome? fun member => (c.symbol? member).bind Symbol.containingType).or
      (receiver.bind c.typeOf)

/-- Lowers the receiver of a member that is resolved at run time. The name of a type is no
receiver, and without a receiver the first candidate with an implicit one decides. -/
def lateBoundReceiver (id : SyntaxId) (receiver : Option SyntaxId) (candidates : List SymbolId) :
    Lowering (Option OperationId) :=
  match receiver with
  | some receiver =>
    if c.isTypeName receiver then return none else some <$> c.expression receiver
  | none => c.firstImplicitReceiver id candidates

/-- Lowers a member that is resolved at run time. Type arguments are an error unless the member is
called. -/
def lateBoundMember (id : SyntaxId) (receiver : Option SyntaxId) (name : String)
    (typeArguments : List TypeId) (candidates : List SymbolId) (called : Bool) :
    Lowering OperationId := do
  let containingType := c.knownContainingType receiver candidates
  let receiver ← c.lateBoundReceiver id receiver candidates
  let access :=
    { DynamicAccess.unknown with memberName := name, containingType, typeArguments, receiver }
  let flagged := !typeArguments.isEmpty && !called && c.options.flagTypeArguments
  emit ((c.lateBound (.dynamicMemberReference access) id).invalidIf flagged)

def name (id : SyntaxId) (name : String) : Lowering OperationId := do
  match c.program.resolutionOf id with
  | some (.lateBound candidates) => c.lateBoundMember id none name [] candidates false
  | _ =>
    match c.program.symbolOf id with
    | none => c.invalidExpression id []
    | some symbol =>
      let receiver ← c.implicitReceiver symbol id
      c.reference id symbol receiver

def boundMember (id : SyntaxId) : Option SymbolId :=
  match c.program.resolutionOf id with
  | none | some (.resolved ..) => c.program.symbolOf id
  | _ => none

def isStatic (symbol : SymbolId) : Bool := (c.symbol? symbol).any Symbol.isStatic

def isLateBoundAccess (id receiver : SyntaxId) : Bool :=
  c.isDynamic receiver ||
    match c.program.resolutionOf id with
    | some (.lateBound _) => true
    | _ => false

def candidatesOf (id : SyntaxId) (otherwise : List SymbolId) : List SymbolId :=
  match c.program.resolutionOf id with
  | some resolution => resolution.candidates
  | none => otherwise

def memberAccess (id receiver : SyntaxId) (name : String) (typeArguments : List TypeId) :
    Lowering OperationId := do
  if c.isLateBoundAccess id receiver then
    c.lateBoundMember id (some receiver) name typeArguments (c.candidatesOf id []) false
  else
    match c.boundMember id with
    | some member =>
      let needed := !c.isTypeName receiver && !c.isStatic member
      let receiver ← c.expression? (if needed then some receiver else none)
      c.reference id member receiver
    | none =>
      let receiver ← c.expression? (if c.isTypeName receiver then none else some receiver)
      c.invalidExpression id receiver.toList

end SemanticTrees.Context
