import SemanticTrees.Lowering.Root

/-! The parts of a node, which are lowered when the node is: each with its role, and with what the
way from the node to it leads through, in the order in which they are lowered. Most parts are
nodes that the form of the node is made of; the arguments of a call that is bound to a member are
those of its bindings, wherever these point. -/
namespace SemanticTrees

/-- What the way from a node to one of its parts leads through. -/
inductive Passage
  /-- Nothing that a jump takes notice of. -/
  | plain
  /-- The body of a loop. -/
  | loop
  /-- An entry among the sections of a switch. -/
  | switch (sections : List SyntaxId)
  /-- The body of a lambda. -/
  | lambda (body : SyntaxId)
deriving DecidableEq, Repr

/-- A node that is lowered when another one is. -/
structure Part where
  passage : Passage
  role : Role
  node : SyntaxId
deriving DecidableEq, Repr

namespace Part

def expression (id : SyntaxId) : Part := ⟨.plain, .expression, id⟩

def statement (id : SyntaxId) : Part := ⟨.plain, .statement, id⟩

end Part

namespace Context

variable (c : Context)

/-- A node in the role that its form says. -/
def formPart (id : SyntaxId) : Part :=
  if c.isExpression id then .expression id else .statement id

/-- The receiver of a member, unless it is the name of a type. -/
def receiverParts (receiver : SyntaxId) : List Part :=
  if c.isTypeName receiver then [] else [.expression receiver]

/-- A static member is taken of nothing. -/
def memberParts (id receiver : SyntaxId) : List Part :=
  if !c.isLateBoundAccess id receiver && (c.boundMember id).any c.isStatic then []
  else c.receiverParts receiver

/-- What is lowered of a callee that is called at run time. -/
def lateBoundTargetParts (callee : SyntaxId) : List Part :=
  match c.formOf callee with
  | some (.memberAccess receiver _ _) => c.receiverParts receiver
  | some (.identifier _) => if c.namesMethod callee then [] else [.expression callee]
  | _ => [.expression callee]

/-- What is lowered of the callee of a call of a known member. -/
def callReceiverParts (callee : SyntaxId) (member : SymbolId) : List Part :=
  match c.formOf callee with
  | some (.memberAccess receiver _ _) =>
    if c.isStatic member then [] else c.receiverParts receiver
  | some (.identifier _) =>
    if (c.program.symbolOf callee).any (· ≠ member) then [.expression callee] else []
  | _ => [.expression callee]

/-- What is lowered of the callee of a call that was not understood. -/
def salvagedCalleeParts (callee : SyntaxId) : List Part :=
  match c.formOf callee with
  | some (.memberAccess receiver _ _) => c.receiverParts receiver
  | some (.identifier _) => []
  | _ => [.expression callee]

def bindingParts (binding : Binding) : List Part :=
  match binding.kind, binding.argument with
  | .default, _ => []
  | _, some argument => [.expression argument]
  | _, none => []

def invocationParts (id callee : SyntaxId) (arguments : List SyntaxId) : List Part :=
  if c.isDynamicCallee c.program.nodes.size callee then
    c.lateBoundTargetParts callee ++ arguments.map .expression
  else
    match c.program.resolutionOf id with
    | some (.resolved member bindings) =>
      c.callReceiverParts callee member ++ bindings.flatMap bindingParts
    | some (.lateBound candidates) =>
      if c.anyAcceptsCount candidates arguments.length then
        c.lateBoundTargetParts callee ++ arguments.map .expression
      else c.salvagedCalleeParts callee ++ arguments.map .expression
    | _ => c.salvagedCalleeParts callee ++ arguments.map .expression

def elementParts (id receiver : SyntaxId) (arguments : List SyntaxId) : List Part :=
  if c.isDynamic receiver then .expression receiver :: arguments.map .expression
  else
    match c.program.resolutionOf id with
    | some (.resolved _ bindings) => .expression receiver :: bindings.flatMap bindingParts
    | _ => .expression receiver :: arguments.map .expression

def creationParts (id : SyntaxId) (arguments : List SyntaxId) : List Part :=
  match c.program.resolutionOf id with
  | some (.resolved _ bindings) => bindings.flatMap bindingParts
  | _ => arguments.map .expression

/-- The body of a lambda, which is a statement when it is a block. -/
def lambdaPart (body : SyntaxId) : Part :=
  match c.formOf body with
  | some (.block _) => ⟨.lambda body, .statement, body⟩
  | _ => ⟨.lambda body, .expression, body⟩

/-- The parts of a node where an expression is expected. -/
def expressionParts (id : SyntaxId) : Option Form → List Part
  | some (.memberAccess receiver _ _) => c.memberParts id receiver
  | some (.invocation callee arguments) => c.invocationParts id callee arguments
  | some (.elementAccess receiver arguments) => c.elementParts id receiver arguments
  | some (.argument _ _ expression) => [.expression expression]
  | some (.objectCreation _ arguments) => c.creationParts id arguments
  | some (.binary _ left right) => [.expression left, .expression right]
  | some (.unary _ operand) => [.expression operand]
  | some (.assignment _ target value) => [.expression target, .expression value]
  | some (.addressOf operand) => [.expression operand]
  | some (.cast _ operand) => [.expression operand]
  | some (.parenthesized inner) => [.expression inner]
  | some (.lambda _ body) => [c.lambdaPart body]
  | _ => []

/-- What is lowered of a statement that was not understood. -/
def salvagedParts (id : SyntaxId) : List Part := (c.program.nodes.childrenOf id).map c.formPart

def declaratorParts (id : SyntaxId) : List Part :=
  match c.formOf id with
  | some (.variableDeclarator _ initializer) => initializer.toList.map .expression
  | _ => c.salvagedParts id

def clauseParts (through : Passage) (id : SyntaxId) : List Part :=
  match c.formOf id with
  | some (.caseLabel value) => value.toList.map (⟨through, .expression, ·⟩)
  | _ => [⟨through, .expression, id⟩]

/-- The parts of an entry among the sections of a switch: those of its labels and its statements,
or the entry itself when it is no section. -/
def sectionParts (through : Passage) (id : SyntaxId) : List Part :=
  match c.formOf id with
  | some (.switchSection labels statements) =>
    labels.flatMap (c.clauseParts through) ++ statements.map (⟨through, .statement, ·⟩)
  | _ => [⟨through, .statement, id⟩]

/-- The value of a jump to a case, which is lowered only when there is no switch around it. -/
def gotoParts (inSwitch : Bool) : JumpTarget → List Part
  | .caseOf value => if inSwitch then [] else [.expression value]
  | _ => []

def fixedParts (declaration : SyntaxId) : List Part :=
  match c.formOf declaration with
  | some (.localDeclaration _ declarators) => declarators.flatMap c.declaratorParts
  | _ => c.salvagedParts declaration

def resourceParts (resource : SyntaxId) : List Part :=
  match c.formOf resource with
  | some (.localDeclaration _ declarators) => declarators.flatMap c.declaratorParts
  | _ => [.expression resource]

/-- The parts of a node where a statement is expected, given whether there is a switch around it.
The body of a `for` is lowered in front of the incrementors. -/
def statementParts (inSwitch : Bool) (id : SyntaxId) : Option Form → List Part
  | none => []
  | some (.block statements) => statements.map .statement
  | some (.expressionStatement expression) => [.expression expression]
  | some (.localDeclaration _ declarators) => declarators.flatMap c.declaratorParts
  | some (.variableDeclarator ..) => c.declaratorParts id
  | some (.ifThen condition thenBranch elseBranch) =>
    .expression condition :: .statement thenBranch :: elseBranch.toList.map .statement
  | some (.whileLoop condition body) => [.expression condition, ⟨.loop, .statement, body⟩]
  | some (.forLoop initializers condition incrementors body) =>
    initializers.map c.formPart ++ condition.toList.map .expression ++
      ⟨.loop, .statement, body⟩ :: incrementors.map c.formPart
  | some (.switch expression sections) =>
    .expression expression :: sections.flatMap (c.sectionParts (.switch sections))
  | some .breakJump | some .continueJump | some .empty => []
  | some (.goto target) => gotoParts inSwitch target
  | some (.labeled _ statement) => [.statement statement]
  | some (.returnJump expression) => expression.toList.map .expression
  | some (.fixed declaration body) => c.fixedParts declaration ++ [.statement body]
  | some (.lock expression body) => [.expression expression, .statement body]
  | some (.usingResource resource body) => c.resourceParts resource ++ [.statement body]
  | some (.switchSection ..) | some (.caseLabel _) => c.salvagedParts id
  | some form => if form.isExpression then [.expression id] else []

/-- The parts of a node in a role. -/
def parts (inSwitch : Bool) (role : Role) (id : SyntaxId) : List Part :=
  match role with
  | .expression => c.expressionParts id (c.formOf id)
  | .statement => c.statementParts inSwitch id (c.formOf id)

/-- The parts of a node as a root. -/
def rootParts (id : SyntaxId) : List Part :=
  match c.formOf id with
  | none | some (.field _) | some (.typeDeclaration ..) => []
  | some (.variableDeclarator _ value) =>
    if (c.symbolAt id).any fun symbol => symbol.kind == .field then value.toList.map .expression
    else [.statement id]
  | some (.property _ value) | some (.parameter _ value) => value.toList.map .expression
  | some (.method _ _ body) => body.toList.map .statement
  | some form => [if form.isExpression then .expression id else .statement id]

variable {c} {c' : Context}

theorem isDynamicCallee_congr (same : c.program = c'.program) (fuel : Nat) (id : SyntaxId) :
    c.isDynamicCallee fuel id = c'.isDynamicCallee fuel id := by
  have dynamic (id : SyntaxId) : c.isDynamic id = c'.isDynamic id := by
    unfold isDynamic typeOf
    rw [same]
  have form (id : SyntaxId) : c.formOf id = c'.formOf id := congrArg (·.formOf id) same
  induction fuel generalizing id with
  | zero => exact dynamic id
  | succ fuel ih =>
    unfold isDynamicCallee
    rw [dynamic, form]
    simp only [dynamic, ih]

/-- The parts of a node depend on the program alone. -/
theorem parts_congr (same : c.program = c'.program) (inSwitch : Bool) (role : Role)
    (id : SyntaxId) : c.parts inSwitch role id = c'.parts inSwitch role id := by
  obtain ⟨p, options, scope, walk⟩ := c
  obtain ⟨p', options', scope', walk'⟩ := c'
  obtain rfl : p = p' := same
  let d : Context := ⟨p, options', scope', walk'⟩
  have dynamic := isDynamicCallee_congr (c := ⟨p, options, scope, walk⟩) (show p = d.program by rfl)
  cases role with
  | statement => rfl
  | expression =>
    show Context.expressionParts _ id (d.formOf id) = d.expressionParts id (d.formOf id)
    cases d.formOf id with
    | none => rfl
    | some form =>
      cases form with
      | invocation callee arguments =>
        dsimp only [expressionParts, invocationParts]
        rw [dynamic]
        rfl
      | _ => rfl

end Context

end SemanticTrees
