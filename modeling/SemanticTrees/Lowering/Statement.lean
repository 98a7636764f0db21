import SemanticTrees.Lowering.Basic

/-!
Statements, and the choice of what to do for each form where a statement is expected. Jumps are
checked against the loops, switches and labels around them.
-/

namespace SemanticTrees.Context

open Lowering

variable (c : Context)

/-- Lowers a declarator. In a fixed statement it needs an initializer, and a placeholder behind it
stands for one that is missing. -/
def declarator (isFixed : Bool) (id : SyntaxId) : Lowering OperationId := do
  match c.formOf id with
  | some (.variableDeclarator _ initializer) =>
    let value ←
      match initializer with
      | some initializer => some <$> c.expression initializer
      | none =>
        if isFixed then
          let place := Span.point (c.program.nodes.spanOf id).stop
          some <$> emit (Operation.plain (.invalidExpression []) id place)
        else pure none
    c.emitPlain (.variableDeclarator (c.program.symbolOf id) value) id
  | _ => c.salvageStatement id

/-- Lowers a declaration of variables: a group with one declaration. -/
def declarationGroup (isFixed : Bool) (id : SyntaxId) (declarators : List SyntaxId) :
    Lowering OperationId := do
  let declarators ← declarators.mapM (c.declarator isFixed)
  let declaration ← c.emitPlain (.variableDeclaration declarators) id
  c.emitPlain (.variableDeclarationGroup [declaration]) id

def ifThen (id condition thenBranch : SyntaxId) (elseBranch : Option SyntaxId) :
    Lowering OperationId := do
  let condition ← c.expression condition
  let whenTrue ← c.statement thenBranch
  let whenFalse ← c.statement? elseBranch
  c.emitPlain (.conditional condition whenTrue whenFalse) id

def loopBody (body : SyntaxId) : Lowering OperationId :=
  (c.within (c.scope.inside .loop)).statement body

/-- Lowers a part of the head of a loop. An expression becomes a statement. -/
def headPart (id : SyntaxId) : Lowering OperationId := do
  if c.isExpression id then
    let operation ← c.expression id
    emit (c.plain (.expressionStatement operation) id).implicit
  else c.statement id

def forLoop (id : SyntaxId) (initializers : List SyntaxId) (condition : Option SyntaxId)
    (incrementors : List SyntaxId) (body : SyntaxId) : Lowering OperationId := do
  let before ← initializers.mapM c.headPart
  let condition ← c.expression? condition
  let body ← c.loopBody body
  let atLoopBottom ← incrementors.mapM c.headPart
  c.emitPlain (.forLoop before condition atLoopBottom body) id

def clause (id : SyntaxId) : Lowering OperationId := do
  let value ←
    match c.formOf id with
    | some (.caseLabel value) => c.expression? value
    | _ => some <$> c.expression id
  c.emitPlain (.caseClause value) id

/-- Lowers a section of a switch. Other nodes are lowered as statements. -/
def switchSection (id : SyntaxId) : Lowering OperationId := do
  match c.formOf id with
  | some (.switchSection labels statements) =>
    let clauses ← labels.mapM c.clause
    let body ← statements.mapM c.statement
    c.emitPlain (.switchCase clauses body) id
  | _ => c.statement id

def switch (id expression : SyntaxId) (sections : List SyntaxId) : Lowering OperationId := do
  let value ← c.expression expression
  let inside := c.within (c.scope.inside (.switch (c.program.switchCases sections)))
  let cases ← sections.mapM inside.switchSection
  c.emitPlain (.switch value cases) id

def branch (id : SyntaxId) (kind : BranchKind) (label : Option String) (invalid : Bool) :
    Lowering OperationId :=
  emit ((c.plain (.branch kind label) id).invalidIf invalid)

def breakJump (id : SyntaxId) : Lowering OperationId :=
  if c.scope.canBreak then c.branch id .breakOut none false else c.invalidStatement id []

def continueJump (id : SyntaxId) : Lowering OperationId :=
  if c.scope.canContinue then c.branch id .continueLoop none false else c.invalidStatement id []

def caseText (constant : Option Constant) : String :=
  match constant with
  | some constant => "case " ++ constant.text
  | none => "case ?"

/-- Lowers a jump to a label, to a case or to the default. -/
def goto (id : SyntaxId) (target : JumpTarget) : Lowering OperationId := do
  match target, c.scope.innermostSwitch with
  | .label label, _ => c.branch id .goto (some label) !c.scope.labels.contains label
  | .caseOf value, some cases =>
    let constant := c.program.constantOf value
    c.branch id .goto (some (caseText constant)) !constant.any cases.holds
  | .caseOf value, none =>
    let value ← c.expression value
    c.invalidStatement id [value]
  | .defaultCase, some cases => c.branch id .goto (some "default") !cases.hasDefault
  | .defaultCase, none => c.invalidStatement id []

/-- Lowers a fixed statement, whose variables must be a declaration. -/
def fixed (id declaration body : SyntaxId) : Lowering OperationId := do
  let declared ←
    match c.formOf declaration with
    | some (.localDeclaration _ declarators) => c.declarationGroup true declaration declarators
    | _ => c.salvageStatement declaration
  let body ← c.statement body
  c.emitPlain (.fixedStatement declared body) id

/-- Lowers a lock. It is invalid unless values of the expression are references. -/
def lock (id expression body : SyntaxId) : Lowering OperationId := do
  let isReference := (c.typeOf expression).any c.program.types.isReference
  let value ← c.expression expression
  let body ← c.statement body
  emit ((c.plain (.lockStatement value body) id).invalidIf !isReference)

/-- Lowers a statement with a resource, which is a declaration or an expression. -/
def usingResource (id resource body : SyntaxId) : Lowering OperationId := do
  let resources ←
    match c.formOf resource with
    | some (.localDeclaration _ declarators) => c.declarationGroup false resource declarators
    | _ => c.expression resource
  let body ← c.statement body
  c.emitPlain (.usingStatement resources body) id

/-- Lowers a form that is no statement where one is expected: an expression is kept in a
placeholder. -/
def misplaced (id : SyntaxId) (form : Form) : Lowering OperationId := do
  if form.isExpression then
    let child ← c.expression id
    c.invalidStatement id [child]
  else c.invalidStatement id []

def statementForm (id : SyntaxId) : Option Form → Lowering OperationId
  | none => c.invalidStatement id []
  | some (.block statements) => do
    let statements ← statements.mapM c.statement
    c.emitPlain (.block statements) id
  | some (.expressionStatement expression) => do
    let operation ← c.expression expression
    c.emitPlain (.expressionStatement operation) id
  | some (.localDeclaration _ declarators) => c.declarationGroup false id declarators
  | some (.variableDeclarator ..) => c.declarator false id
  | some (.ifThen condition thenBranch elseBranch) => c.ifThen id condition thenBranch elseBranch
  | some (.whileLoop condition body) => do
    let condition ← c.expression condition
    let body ← c.loopBody body
    c.emitPlain (.whileLoop condition body) id
  | some (.forLoop initializers condition incrementors body) =>
    c.forLoop id initializers condition incrementors body
  | some (.switch expression sections) => c.switch id expression sections
  | some .breakJump => c.breakJump id
  | some .continueJump => c.continueJump id
  | some (.goto target) => c.goto id target
  | some (.labeled label statement) => do
    let operation ← c.statement statement
    c.emitPlain (.labeled label (some operation)) id
  | some (.returnJump expression) => do
    let value ← c.expression? expression
    c.emitPlain (.returnValue value) id
  | some .empty => c.emitPlain .empty id
  | some (.fixed declaration body) => c.fixed id declaration body
  | some (.lock expression body) => c.lock id expression body
  | some (.usingResource resource body) => c.usingResource id resource body
  | some (.switchSection ..) | some (.caseLabel _) => c.salvageStatement id
  | some form => c.misplaced id form

def lowerStatement (id : SyntaxId) : Lowering OperationId := c.statementForm id (c.formOf id)

end SemanticTrees.Context
