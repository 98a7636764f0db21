import SemanticTrees.Source.Span

/-!
Diagnostics of the checking phase: a place, a code, a category and a text that is already worded.
They are sorted by a key that tells any two different diagnostics apart, so a sorted list does not
depend on the order of reporting.
-/

namespace SemanticTrees

/-- How serious a diagnostic is. -/
inductive Category
  | warning
  | error
  | suggestion
  | message
deriving DecidableEq, Repr, Inhabited

namespace Category

/-- Every category, in order. -/
def all : List Category := [.warning, .error, .suggestion, .message]

def name : Category → String
  | .warning => "Warning"
  | .error => "Error"
  | .suggestion => "Suggestion"
  | .message => "Message"

def rank : Category → Nat
  | .warning => 0
  | .error => 1
  | .suggestion => 2
  | .message => 3

end Category

/-- A reported diagnostic. -/
structure Diagnostic where
  span : Span
  text : String
  category : Category
  code : Nat
deriving DecidableEq, Repr, Inhabited

namespace Diagnostic

def isError (d : Diagnostic) : Bool := d.category == .error

def compareText : List Char → List Char → Ordering
  | [], [] => .eq
  | [], _ :: _ => .lt
  | _ :: _, [] => .gt
  | c :: s, d :: t => (Ord.compare c.toNat d.toNat).then (compareText s t)

/-- Diagnostics are in the order of their places, then of codes, categories and texts. -/
def compare (d e : Diagnostic) : Ordering :=
  (d.span.compare e.span).then <|
    (Ord.compare d.code e.code).then <|
      (Ord.compare d.category.rank e.category.rank).then <|
        compareText d.text.toList e.text.toList

def le (d e : Diagnostic) : Bool := (d.compare e).isLE

def sort (ds : List Diagnostic) : List Diagnostic := ds.mergeSort le

end Diagnostic

end SemanticTrees
