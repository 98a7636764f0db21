import SemanticTrees.Operation.Tree

/-!
Attributes of operations: labels with values that name symbols and types, so that programs that
were checked apart from each other have equal attributes when they mean the same.
-/

namespace SemanticTrees

/-- A label with a value. -/
structure Attribute where
  label : String
  value : String
deriving DecidableEq, Repr, Inhabited

namespace Attribute

def quoted (text : String) : String :=
  String.ofList ('"' :: Text.quoted text.toList ++ ['"'])

/-- Values in brackets, with commas between them. -/
def bracketed (values : List String) : String := "[" ++ ", ".intercalate values ++ "]"

/-- A value, or null. -/
def orNull {α : Type} (value : α → String) : Option α → String
  | some x => value x
  | none => "null"

def truth (b : Bool) : String := if b then "true" else "false"

/-- How the arguments of an access that is resolved at run time are written, as it is stored: an
empty list stands for arguments that need no mention. -/
def ofArguments (access : DynamicAccess) : List Attribute :=
  [⟨"ArgumentNames", bracketed (access.names.map (orNull quoted))⟩,
    ⟨"ArgumentRefKinds", bracketed (access.passings.map Passing.name)⟩]

end Attribute

namespace Program

open Attribute

/-- The attributes of an operation, in order. Children are no attributes. -/
def attributes (p : Program) : OperationKind → List Attribute
  | .localReference symbol => [⟨"Local", p.qualifiedName symbol⟩]
  | .parameterReference parameter => [⟨"Parameter", p.qualifiedName parameter⟩]
  | .fieldReference field _ => [⟨"Field", p.qualifiedName field⟩]
  | .propertyReference property _ _ => [⟨"Property", p.qualifiedName property⟩]
  | .methodReference method _ isVirtual | .invocation method _ isVirtual _ =>
    [⟨"Method", p.qualifiedName method⟩, ⟨"IsVirtual", truth isVirtual⟩]
  | .conversion _ kind => [⟨"Conversion", kind.name⟩]
  | .argument kind parameter _ =>
    [⟨"ArgumentKind", kind.name⟩, ⟨"Parameter", p.qualifiedName parameter⟩]
  | .binary operator _ _ | .compoundAssignment operator _ _ => [⟨"OperatorKind", operator.name⟩]
  | .unary operator _ => [⟨"OperatorKind", operator.name⟩]
  | .objectCreation constructor _ => [⟨"Constructor", p.qualifiedName constructor⟩]
  | .anonymousFunction symbol _ => [⟨"Symbol", orNull p.qualifiedName symbol⟩]
  | .dynamicMemberReference access =>
    [⟨"MemberName", quoted access.memberName⟩,
      ⟨"ContainingType", orNull p.types.nameOf access.containingType⟩,
      ⟨"TypeArguments", bracketed (access.typeArguments.map p.types.nameOf)⟩]
  | .dynamicInvocation access => ofArguments access
  | .dynamicIndexerAccess access | .dynamicObjectCreation access =>
    ⟨"ContainingType", orNull p.types.nameOf access.containingType⟩ :: ofArguments access
  | .variableDeclarator symbol _ => [⟨"Symbol", orNull p.qualifiedName symbol⟩]
  | .branch kind label => [⟨"BranchKind", kind.name⟩, ⟨"Label", orNull quoted label⟩]
  | .labeled label _ => [⟨"Label", quoted label⟩]
  | .fieldInitializer field _ => [⟨"Field", p.qualifiedName field⟩]
  | .propertyInitializer property _ => [⟨"Property", p.qualifiedName property⟩]
  | .parameterInitializer parameter _ => [⟨"Parameter", p.qualifiedName parameter⟩]
  | .literal | .instanceReference | .addressOf .. | .arrayElementReference ..
  | .simpleAssignment .. | .invalidExpression .. | .block .. | .expressionStatement ..
  | .variableDeclarationGroup .. | .variableDeclaration .. | .conditional .. | .whileLoop ..
  | .forLoop .. | .switch .. | .switchCase .. | .caseClause .. | .returnValue .. | .empty
  | .fixedStatement .. | .lockStatement .. | .usingStatement .. | .methodBody ..
  | .invalidStatement .. => []

end Program

end SemanticTrees
