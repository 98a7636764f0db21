import SemanticTrees.Lowering.Walk
import SemanticTrees.Cancellation

/-!
The roots of operation trees: initializers of fields, properties and parameters, bodies of
methods, and any statement or expression that is asked for.
-/

namespace SemanticTrees

namespace Context

open Lowering

variable (c : Context)

/-- Puts the initializer of the symbol that a node declares around a value. Without a symbol the
value is kept in a placeholder. -/
def initializer (id : SyntaxId) (value : OperationId)
    (make : SymbolId → OperationId → OperationKind) : Lowering OperationId :=
  match c.program.symbolOf id with
  | some symbol => c.emitPlain (make symbol value) id
  | none => c.invalidStatement id [value]

def initialized (id : SyntaxId) (value : Option SyntaxId)
    (make : SymbolId → OperationId → OperationKind) : Lowering (Option OperationId) := do
  match value with
  | none => return none
  | some value =>
    let value ← c.expression value
    some <$> c.initializer id value make

/-- Lowers a node as a root. Declarations that have nothing to compute have no operation. -/
def lowerRoot (id : SyntaxId) : Lowering (Option OperationId) := do
  match c.formOf id with
  | none => return none
  | some (.variableDeclarator _ value) =>
    if (c.symbolAt id).any fun symbol => symbol.kind == .field then
      c.initialized id value .fieldInitializer
    else some <$> c.statement id
  | some (.property _ value) => c.initialized id value .propertyInitializer
  | some (.parameter _ value) => c.initialized id value .parameterInitializer
  | some (.method _ _ none) => return none
  | some (.method _ _ (some body)) =>
    let body ← c.statement body
    some <$> c.emitPlain (.methodBody body) id
  | some (.field _) | some (.typeDeclaration ..) => return none
  | some form => some <$> (if form.isExpression then c.expression id else c.statement id)

end Context

namespace Program

def rootContext (p : Program) (options : LoweringOptions) (id : SyntaxId) : Context :=
  { program := p, options, scope := p.rootScope id, walk := walk p options options.maxDepth }

/-- The operation tree of a root, unless it has no operation. -/
def tree? (p : Program) (options : LoweringOptions) (id : SyntaxId) : Option OperationTree :=
  match (p.rootContext options id).lowerRoot id |>.run Store.empty with
  | (some root, store) => some (store.finish p root)
  | (none, _) => none

def hasDefault (p : Program) (id : SyntaxId) : Bool :=
  match p.formOf id with
  | some (.parameter _ (some _)) => true
  | _ => false

def isInitialized (p : Program) (id : SyntaxId) : Bool :=
  match p.formOf id with
  | some (.variableDeclarator _ (some _)) => true
  | _ => false

/-- The roots in a declaration, in order: those of the members of a type, the defaults of
parameters in front of the body of their method, initializers of fields and properties. The fuel
bounds how deep types are nested; the number of nodes is enough. -/
def rootsBelow (p : Program) : Nat → SyntaxId → List SyntaxId
  | 0, _ => []
  | fuel + 1, id =>
    match p.formOf id with
    | some (.typeDeclaration _ members) => members.flatMap (rootsBelow p fuel)
    | some (.method _ parameters body) =>
      parameters.filter p.hasDefault ++ if body.isSome then [id] else []
    | some (.field declarators) => declarators.filter p.isInitialized
    | some (.property _ (some _)) => [id]
    | _ => []

def rootsIn (p : Program) (id : SyntaxId) : List SyntaxId := p.rootsBelow (p.nodes.size + 1) id

/-- The roots that are analysed, in the order of the members. -/
def roots (p : Program) : List SyntaxId := p.members.flatMap p.rootsIn

/-- The tree of a root, unless the build was given up before. -/
def build (p : Program) (options : LoweringOptions) (request : Request) (id : SyntaxId) :
    Except Cancelled (Option OperationTree) := do
  request.check
  return p.tree? options id

/-- The trees of the roots in a declaration. A build that was given up reports it only when there
is a root to build. -/
def buildDeclaration (p : Program) (options : LoweringOptions) (request : Request)
    (id : SyntaxId) : Except Cancelled (List OperationTree) := do
  let trees ← (p.rootsIn id).mapM (p.build options request)
  return trees.filterMap fun tree => tree

end Program

end SemanticTrees
