import SemanticTrees.Program.Type
import SemanticTrees.Program.Constant

/-!
Symbols of a checked program: the variables, members and types that names stand for.
-/

namespace SemanticTrees

/-- The place of a symbol in the table of symbols. -/
abbrev SymbolId := Nat

/-- What sort of thing a symbol stands for. -/
inductive SymbolKind
  | localVariable
  | parameter
  | field
  | property
  | indexer
  | method
  | constructor
  | type
  | lambda
deriving DecidableEq, Repr, Inhabited

namespace SymbolKind

def all : List SymbolKind :=
  [.localVariable, .parameter, .field, .property, .indexer, .method, .constructor, .type, .lambda]

def name : SymbolKind → String
  | .localVariable => "Local"
  | .parameter => "Parameter"
  | .field => "Field"
  | .property => "Property"
  | .indexer => "Indexer"
  | .method => "Method"
  | .constructor => "Constructor"
  | .type => "Type"
  | .lambda => "Lambda"

def isMember : SymbolKind → Bool
  | .field | .property | .indexer | .method | .constructor => true
  | _ => false

end SymbolKind

/-- How an argument is passed. -/
inductive Passing
  | byValue
  | byReference
  | outward
  | inward
deriving DecidableEq, Repr, Inhabited

namespace Passing

def all : List Passing := [.byValue, .byReference, .outward, .inward]

def name : Passing → String
  | .byValue => "None"
  | .byReference => "Ref"
  | .outward => "Out"
  | .inward => "In"

/-- The word in front of an argument in source text, with a blank after it. -/
def keyword : Passing → String
  | .byValue => ""
  | .byReference => "ref "
  | .outward => "out "
  | .inward => "in "

end Passing

/-- A variable, member or type that names stand for. -/
structure Symbol where
  name : String
  kind : SymbolKind
  /-- The declared type of a variable, field or property, or what a method returns. -/
  type : Option TypeId
  containingType : Option TypeId
  isStatic : Bool
  isVirtual : Bool
  /-- The parameters of a method, constructor or indexer. -/
  parameters : List SymbolId
  /-- The value of an optional parameter that is left out. -/
  default : Option Constant
  /-- Whether a parameter collects all remaining arguments. -/
  isCollecting : Bool
  passing : Passing
deriving DecidableEq, Repr, Inhabited

namespace Symbol

/-- A symbol of which only the name, the sort and the type are known. -/
def plain (name : String) (kind : SymbolKind) (type : Option TypeId) : Symbol :=
  { name, kind, type, containingType := none, isStatic := false, isVirtual := false,
    parameters := [], default := none, isCollecting := false, passing := .byValue }

def isRequired (s : Symbol) : Bool := s.default.isNone && !s.isCollecting

end Symbol

/-- The symbols of a program. -/
abbrev SymbolTable := Array Symbol

namespace SymbolTable

/-- The name of a symbol; unknown symbols have a question mark. -/
def nameOf (symbols : SymbolTable) (id : SymbolId) : String :=
  match symbols[id]? with
  | some symbol => symbol.name
  | none => "?"

def parametersOf (symbols : SymbolTable) (symbol : Symbol) : List Symbol :=
  symbol.parameters.filterMap fun id => symbols[id]?

/-- Whether a member can be called with a number of arguments. Only the count matters: it must
cover the required parameters, and exceed their number only where the last one collects. -/
def acceptsCount (symbols : SymbolTable) (member : SymbolId) (count : Nat) : Bool :=
  match symbols[member]? with
  | none => false
  | some symbol =>
    let parameters := symbols.parametersOf symbol
    let collects := parameters.getLast?.any Symbol.isCollecting
    parameters.countP Symbol.isRequired ≤ count && (collects || count ≤ parameters.length)

end SymbolTable

end SemanticTrees
