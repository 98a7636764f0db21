import SemanticTrees.Lowering.Call

/-!
The remaining expressions, and the choice of what to do for each form where an expression is
expected. Parentheses leave no operation of their own.
-/

namespace SemanticTrees.Context

open Lowering

variable (c : Context)

def assignment (id : SyntaxId) (operator : Option BinaryOperator) (target value : SyntaxId) :
    Lowering OperationId := do
  let target ← c.expression target
  let value ← c.expression value
  match operator with
  | none => c.emitValued (.simpleAssignment target value) id
  | some operator => c.emitValued (.compoundAssignment operator target value) id

/-- Lowers a cast. It is invalid unless the facts name a valid conversion. -/
def cast (id : SyntaxId) (type : TypeId) (operand : SyntaxId) : Lowering OperationId := do
  let operand ← c.expression operand
  let kind :=
    match c.program.conversionOf id with
    | some conversion => conversion.kind
    | none => .noConversion
  emit (((c.valued (.conversion operand kind) id).withType (some type)).invalidIf !kind.isValid)

/-- Lowers the body of a lambda. An expression becomes a block that returns it. -/
def lambdaBody (body : SyntaxId) : Lowering OperationId := do
  match c.formOf body with
  | some (.block _) => c.statement body
  | _ =>
    let value ← c.expression body
    let returned ← emit (c.plain (.returnValue (some value)) body).implicit
    emit (c.plain (.block [returned]) body).implicit

/-- Lowers a lambda, whose body is in surroundings of its own. -/
def lambda (id body : SyntaxId) : Lowering OperationId := do
  let body ← (c.within (c.program.rootScope body)).lambdaBody body
  c.emitValued (.anonymousFunction (c.program.symbolOf id) body) id

/-- Lowers an expression in parentheses: the operation is that of the expression. -/
def parenthesized (id inner : SyntaxId) : Lowering OperationId := do
  let i ← c.expression inner
  associate id i
  return i

/-- Lowers a form where an expression is expected, without the conversion that its context may
require. -/
def expressionForm (id : SyntaxId) : Option Form → Lowering OperationId
  | some (.literal _) => c.emitValued .literal id
  | some (.identifier name) => c.name id name
  | some .this => c.emitValued .instanceReference id
  | some (.memberAccess receiver name typeArguments) =>
    c.memberAccess id receiver name typeArguments
  | some (.invocation callee arguments) => c.invocation id callee arguments
  | some (.elementAccess receiver arguments) => c.elementAccess id receiver arguments
  | some (.argument _ _ expression) => c.expression expression
  | some (.objectCreation type arguments) => c.objectCreation id type arguments
  | some (.binary operator left right) => do
    let left ← c.expression left
    let right ← c.expression right
    c.emitValued (.binary operator left right) id
  | some (.unary operator operand) => do
    let operand ← c.expression operand
    c.emitValued (.unary operator operand) id
  | some (.assignment operator target value) => c.assignment id operator target value
  | some (.addressOf operand) => do
    let reference ← c.expression operand
    c.emitValued (.addressOf reference) id
  | some (.cast type operand) => c.cast id type operand
  | some (.parenthesized inner) => c.parenthesized id inner
  | some (.lambda _ body) => c.lambda id body
  | _ => c.invalidExpression id []

/-- The conversion that the context of an expression requires, unless it changes nothing or was
written as a cast. -/
def requiredConversion (id : SyntaxId) : Option Conversion :=
  (c.program.conversionOf id).filter fun conversion =>
    conversion.isImplicit && conversion.kind != .identity

def converted (id : SyntaxId) (i : OperationId) : Lowering OperationId :=
  match c.requiredConversion id with
  | none => return i
  | some conversion =>
    emit (((c.plain (.conversion i conversion.kind) id).withType
      (some conversion.target)).implicit.invalidIf !conversion.kind.isValid)

/-- Lowers an expression with the conversion that its context requires. -/
def lowerExpression (id : SyntaxId) : Lowering OperationId := do
  let i ← c.expressionForm id (c.formOf id)
  c.converted id i

end SemanticTrees.Context
