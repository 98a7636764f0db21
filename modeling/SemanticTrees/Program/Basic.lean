import SemanticTrees.Program.Facts
import SemanticTrees.Source.Diagnostic
import Std.Data.TreeMap

/-!
Checked programs: the syntax of one source file with everything that the checking phase found out
about it.
-/

namespace SemanticTrees

/-- A checked source file. -/
structure Program where
  fileName : String
  sourceText : Option String
  nodes : SyntaxTable
  types : TypeTable
  symbols : SymbolTable
  facts : Std.TreeMap SyntaxId Facts
  /-- The declarations to analyse, in order. -/
  members : List SyntaxId
  diagnostics : List Diagnostic

namespace Program

def empty (fileName : String) : Program :=
  { fileName, sourceText := none, nodes := #[], types := #[], symbols := #[], facts := {},
    members := [], diagnostics := [] }

def formOf (p : Program) (id : SyntaxId) : Option Form := p.nodes.formOf id

def factsOf (p : Program) (id : SyntaxId) : Facts := p.facts.getD id Facts.unknown

def typeOf (p : Program) (id : SyntaxId) : Option TypeId := (p.factsOf id).type

def symbolOf (p : Program) (id : SyntaxId) : Option SymbolId := (p.factsOf id).symbol

def constantOf (p : Program) (id : SyntaxId) : Option Constant := (p.factsOf id).constant

def conversionOf (p : Program) (id : SyntaxId) : Option Conversion := (p.factsOf id).conversion

def resolutionOf (p : Program) (id : SyntaxId) : Option Resolution := (p.factsOf id).resolution

def textOf (p : Program) (span : Span) : Option String :=
  match p.sourceText with
  | some source => (span.slice source.toList).map String.ofList
  | none => none

/-- The name of a symbol, behind the name of the type that contains it if there is one; unknown
symbols have a question mark. -/
def qualifiedName (p : Program) (id : SymbolId) : String :=
  match p.symbols[id]? with
  | none => "?"
  | some symbol =>
    match symbol.containingType with
    | some type => p.types.nameOf type ++ "." ++ symbol.name
    | none => symbol.name

end Program

end SemanticTrees
