import SemanticTrees.Program.Form

/-!
Facts that the checking phase recorded about syntax nodes: types, conversions, constants, the
symbols of names and declarations, and how the members of calls were found.
-/

namespace SemanticTrees

/-- How a value becomes one of another type. -/
inductive ConversionKind
  | identity
  | implicitNumeric
  | implicitReference
  | boxing
  /-- To or from a type known at run time only. -/
  | dynamic
  | nullLiteral
  /-- A lambda to a delegate. -/
  | anonymousFunction
  /-- An array to a pointer for a fixed declaration. -/
  | pinnedArray
  | explicitNumeric
  | explicitReference
  | unboxing
  /-- There is no valid conversion. -/
  | noConversion
deriving DecidableEq, Repr, Inhabited

namespace ConversionKind

def all : List ConversionKind :=
  [.identity, .implicitNumeric, .implicitReference, .boxing, .dynamic, .nullLiteral,
    .anonymousFunction, .pinnedArray, .explicitNumeric, .explicitReference, .unboxing,
    .noConversion]

def name : ConversionKind → String
  | .identity => "Identity"
  | .implicitNumeric => "ImplicitNumeric"
  | .implicitReference => "ImplicitReference"
  | .boxing => "Boxing"
  | .dynamic => "Dynamic"
  | .nullLiteral => "NullLiteral"
  | .anonymousFunction => "AnonymousFunction"
  | .pinnedArray => "PinnedArray"
  | .explicitNumeric => "ExplicitNumeric"
  | .explicitReference => "ExplicitReference"
  | .unboxing => "Unboxing"
  | .noConversion => "NoConversion"

def isValid (kind : ConversionKind) : Bool := kind != .noConversion

end ConversionKind

/-- The conversion of an expression to the type that its context requires. -/
structure Conversion where
  kind : ConversionKind
  target : TypeId
  isImplicit : Bool
deriving DecidableEq, Repr, Inhabited

/-- How an argument reaches its parameter. -/
inductive ArgumentKind
  /-- As written. -/
  | explicit
  /-- Collected with others into an array. -/
  | collected
  /-- Left out, so that the parameter has its default. -/
  | default
deriving DecidableEq, Repr, Inhabited

namespace ArgumentKind

def all : List ArgumentKind := [.explicit, .collected, .default]

def name : ArgumentKind → String
  | .explicit => "Explicit"
  | .collected => "ParamArray"
  | .default => "DefaultValue"

end ArgumentKind

/-- One parameter of a resolved call with the argument that it receives. -/
structure Binding where
  parameter : SymbolId
  kind : ArgumentKind
  /-- The argument, unless it was left out. -/
  argument : Option SyntaxId
deriving DecidableEq, Repr, Inhabited

/-- Why a member was not found. -/
inductive FailureReason
  | noApplicableMember
  | ambiguous
  | notFound
deriving DecidableEq, Repr, Inhabited

namespace FailureReason

def all : List FailureReason := [.noApplicableMember, .ambiguous, .notFound]

def name : FailureReason → String
  | .noApplicableMember => "NoApplicableMember"
  | .ambiguous => "Ambiguous"
  | .notFound => "NotFound"

end FailureReason

/-- How the member of a call, an access or a creation was found. -/
inductive Resolution
  /-- One member, with its parameters bound. -/
  | resolved (member : SymbolId) (arguments : List Binding)
  /-- Left to run time, with the members of the name. -/
  | lateBound (candidates : List SymbolId)
  | failed (reason : FailureReason) (candidates : List SymbolId)
deriving DecidableEq, Repr, Inhabited

namespace Resolution

def candidates : Resolution → List SymbolId
  | .resolved member _ => [member]
  | .lateBound candidates => candidates
  | .failed _ candidates => candidates

end Resolution

/-- What is known about a syntax node. -/
structure Facts where
  /-- The type of an expression by itself. -/
  type : Option TypeId
  conversion : Option Conversion
  constant : Option Constant
  /-- What a name refers to, or what a declaration declares. -/
  symbol : Option SymbolId
  resolution : Option Resolution
deriving DecidableEq, Repr, Inhabited

def Facts.unknown : Facts := ⟨none, none, none, none, none⟩

end SemanticTrees
