import SemanticTrees.Lowering.Member

/-!
Calls, element accesses and object creations. The facts decide whether one is bound to a known
member, resolved at run time, or kept as a placeholder with its receiver and arguments.
-/

namespace SemanticTrees.Context

open Lowering

variable (c : Context)

/-- Follows parentheses to the expression inside. The fuel bounds the steps; the number of nodes
is enough. -/
def unparenthesized : Nat → SyntaxId → SyntaxId
  | 0, id => id
  | fuel + 1, id =>
    match c.formOf id with
    | some (.parenthesized inner) => unparenthesized fuel inner
    | _ => id

/-- Whether an expression is a lambda, inside parentheses or not. -/
def isLambda (id : SyntaxId) : Bool :=
  match c.formOf (c.unparenthesized c.program.nodes.size id) with
  | some (.lambda ..) => true
  | _ => false

/-- Whether a called expression, or what is inside its parentheses, is known at run time only or a
member of something that is. -/
def isDynamicCallee : Nat → SyntaxId → Bool
  | 0, id => c.isDynamic id
  | fuel + 1, id =>
    c.isDynamic id ||
      match c.formOf id with
      | some (.memberAccess receiver _ _) => c.isDynamic receiver
      | some (.parenthesized inner) => isDynamicCallee fuel inner
      | _ => false

/-- Whether one of several members can be called with a number of arguments. Without any members
the target itself is known at run time only, and nothing is ruled out. -/
def anyAcceptsCount (candidates : List SymbolId) (count : Nat) : Bool :=
  candidates.isEmpty ||
    candidates.any fun member => c.program.symbols.acceptsCount member count

/-- The name and the way of passing that are written with an argument. -/
def writtenArgument (id : SyntaxId) : Option String × Passing × SyntaxId :=
  match c.formOf id with
  | some (.argument name passing expression) => (name, passing, expression)
  | _ => (none, .byValue, id)

def lateBoundArgument (id : SyntaxId) : Lowering DynamicArgument := do
  let (name, passing, _) := c.writtenArgument id
  let value ← c.expression id
  return { value, name, passing }

def hasLambda (arguments : List SyntaxId) : Bool :=
  arguments.any fun id => c.isLambda (c.writtenArgument id).2.2

/-- Whether arguments make an access that is resolved at run time invalid. -/
def taintedByLambda (arguments : List SyntaxId) : Bool :=
  c.hasLambda arguments && c.options.taintLambdas

/-- Whether a bare name stands for methods or for nothing known, and not for a variable. -/
def namesMethod (id : SyntaxId) : Bool :=
  match c.symbolAt id with
  | some symbol => symbol.kind == .method
  | none => true

/-- Lowers what is called at run time. A member, or the name of a method, is not looked up. -/
def lateBoundTarget (callee : SyntaxId) (candidates : List SymbolId) : Lowering OperationId :=
  match c.formOf callee with
  | some (.memberAccess receiver name typeArguments) =>
    c.lateBoundMember callee (some receiver) name typeArguments
      (c.candidatesOf callee candidates) true
  | some (.identifier name) =>
    if c.namesMethod callee then c.lateBoundMember callee none name [] candidates true
    else c.expression callee
  | _ => c.expression callee

def lateBoundCall (id callee : SyntaxId) (arguments : List SyntaxId)
    (candidates : List SymbolId) : Lowering OperationId := do
  let target ← c.lateBoundTarget callee candidates
  let values ← arguments.mapM c.lateBoundArgument
  let access := { DynamicAccess.unknown with receiver := some target }.withArguments values
  emit ((c.lateBound (.dynamicInvocation access) id).invalidIf (c.taintedByLambda arguments))

def lateBoundElement (id receiver : SyntaxId) (arguments : List SyntaxId) :
    Lowering OperationId := do
  let containingType := if c.isDynamic receiver then none else c.typeOf receiver
  let target ← c.expression receiver
  let values ← arguments.mapM c.lateBoundArgument
  let access :=
    { DynamicAccess.unknown with containingType, receiver := some target }.withArguments values
  emit ((c.lateBound (.dynamicIndexerAccess access) id).invalidIf (c.taintedByLambda arguments))

def lateBoundCreation (id : SyntaxId) (type : TypeId) (arguments : List SyntaxId) :
    Lowering OperationId := do
  let values ← arguments.mapM c.lateBoundArgument
  let access := { DynamicAccess.unknown with containingType := some type }.withArguments values
  emit (((c.valued (.dynamicObjectCreation access) id).withType (some type)).invalidIf
    (c.taintedByLambda arguments))

/-- Adds the default of a parameter as an argument that was not written. -/
def defaultArgument (call : SyntaxId) (parameter : SymbolId) : Lowering OperationId := do
  let symbol := c.symbol? parameter
  let literal := (c.plain .literal call).withType (symbol.bind Symbol.type)
  let value ← emit (literal.withConstant (symbol.bind Symbol.default)).implicit
  emit (c.plain (.argument .default parameter value) call).implicit

def boundArgument (call : SyntaxId) (binding : Binding) : Lowering OperationId :=
  match binding.kind, binding.argument with
  | .default, _ => c.defaultArgument call binding.parameter
  | kind, some argument => do
    let value ← c.expression argument
    c.emitPlain (.argument kind binding.parameter value) argument
  | kind, none => do
    let value ← c.invalidExpression call []
    emit (c.plain (.argument kind binding.parameter value) call).implicit

/-- Keeps a call that was not understood: its receiver and its arguments in a placeholder. -/
def salvageCall (id : SyntaxId) (receiver : Option OperationId) (arguments : List SyntaxId) :
    Lowering OperationId := do
  let values ← arguments.mapM c.expression
  c.invalidExpression id (receiver.toList ++ values)

/-- Lowers what is worth keeping of a called expression: the receiver of a member, and everything
but a bare name. -/
def salvageCallee (callee : SyntaxId) : Lowering (Option OperationId) :=
  match c.formOf callee with
  | some (.memberAccess receiver _ _) =>
    c.expression? (if c.isTypeName receiver then none else some receiver)
  | some (.identifier _) => return none
  | _ => some <$> c.expression callee

/-- Lowers the receiver of a call of a known member. A variable that is called is a receiver by
itself. -/
def callReceiver (callee : SyntaxId) (member : SymbolId) : Lowering (Option OperationId) :=
  match c.formOf callee with
  | some (.memberAccess receiver _ _) =>
    c.expression? (if c.isStatic member || c.isTypeName receiver then none else some receiver)
  | some (.identifier _) =>
    match c.program.symbolOf callee with
    | some symbol =>
      if symbol ≠ member then some <$> c.expression callee else c.implicitReceiver member callee
    | none => c.implicitReceiver member callee
  | _ => some <$> c.expression callee

def unboundCall (id callee : SyntaxId) (arguments : List SyntaxId) : Lowering OperationId := do
  let receiver ← c.salvageCallee callee
  c.salvageCall id receiver arguments

def invocation (id callee : SyntaxId) (arguments : List SyntaxId) : Lowering OperationId := do
  if c.isDynamicCallee c.program.nodes.size callee then
    c.lateBoundCall id callee arguments []
  else
    match c.program.resolutionOf id with
    | some (.resolved member bindings) =>
      let receiver ← c.callReceiver callee member
      let values ← bindings.mapM (c.boundArgument id)
      let isVirtual := (c.symbol? member).any Symbol.isVirtual
      c.emitValued (.invocation member receiver isVirtual values) id
    | some (.lateBound candidates) =>
      if c.anyAcceptsCount candidates arguments.length then
        c.lateBoundCall id callee arguments candidates
      else c.unboundCall id callee arguments
    | _ => c.unboundCall id callee arguments

def unboundElement (id receiver : SyntaxId) (arguments : List SyntaxId) :
    Lowering OperationId := do
  let receiver ← c.expression receiver
  c.salvageCall id (some receiver) arguments

/-- Lowers an element access. Without a resolution it is the element of an array. -/
def elementAccess (id receiver : SyntaxId) (arguments : List SyntaxId) :
    Lowering OperationId := do
  if c.isDynamic receiver then c.lateBoundElement id receiver arguments
  else
    match c.program.resolutionOf id with
    | some (.resolved member bindings) =>
      let target ← c.expression receiver
      let values ← bindings.mapM (c.boundArgument id)
      c.emitValued (.propertyReference member (some target) values) id
    | some (.lateBound candidates) =>
      if c.anyAcceptsCount candidates arguments.length then
        c.lateBoundElement id receiver arguments
      else c.unboundElement id receiver arguments
    | some (.failed ..) => c.unboundElement id receiver arguments
    | none =>
      if (c.typeOf receiver).any c.program.types.isArray then
        let array ← c.expression receiver
        let indices ← arguments.mapM c.expression
        c.emitValued (.arrayElementReference array indices) id
      else c.unboundElement id receiver arguments

def objectCreation (id : SyntaxId) (type : TypeId) (arguments : List SyntaxId) :
    Lowering OperationId := do
  match c.program.resolutionOf id with
  | some (.resolved member bindings) =>
    let values ← bindings.mapM (c.boundArgument id)
    emit ((c.valued (.objectCreation member values) id).withType (some type))
  | some (.lateBound candidates) =>
    if c.anyAcceptsCount candidates arguments.length then c.lateBoundCreation id type arguments
    else c.salvageCall id none arguments
  | _ => c.salvageCall id none arguments

end SemanticTrees.Context
