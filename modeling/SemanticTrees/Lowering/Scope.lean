import SemanticTrees.Program.Basic
import SemanticTrees.Graph.Reach

/-!
What surrounds a statement that is being lowered: the loops and switches that a jump may leave, and
the labels that it may lead to. A lambda starts with nothing but its own labels.
-/

namespace SemanticTrees

/-- The cases of a switch that a jump may lead to. -/
structure SwitchCases where
  constants : List Constant
  hasDefault : Bool
deriving DecidableEq, Repr, Inhabited

/-- Something that a jump may leave. -/
inductive Enclosure
  | loop
  | switch (cases : SwitchCases)
deriving DecidableEq, Repr, Inhabited

/-- The surroundings of a statement. -/
structure Scope where
  /-- What is around the statement, from the inside to the outside. -/
  enclosures : List Enclosure
  labels : List String
deriving DecidableEq, Repr, Inhabited

namespace Scope

def canBreak (s : Scope) : Bool := !s.enclosures.isEmpty

/-- Whether there is a loop to continue; switches on the way do not matter. -/
def canContinue (s : Scope) : Bool := s.enclosures.any (· == .loop)

/-- The cases of the nearest switch; loops on the way do not matter. -/
def innermostSwitch (s : Scope) : Option SwitchCases :=
  s.enclosures.findSome? fun
    | .switch cases => some cases
    | .loop => none

def inside (s : Scope) (e : Enclosure) : Scope := { s with enclosures := e :: s.enclosures }

end Scope

namespace SwitchCases

def holds (c : SwitchCases) (value : Constant) : Bool :=
  c.constants.any fun constant => constant.sameValue value

end SwitchCases

namespace Program

/-- The parts of a node that share its labels: a lambda below the root keeps its parts to
itself. -/
def labelParts (p : Program) (root node : SyntaxId) : List SyntaxId :=
  match p.formOf node with
  | some (.lambda parameters body) =>
    if node = root then (Form.lambda parameters body).children else []
  | some form => form.children
  | none => []

def labelOf (p : Program) (node : SyntaxId) : Option String :=
  match p.formOf node with
  | some (.labeled label _) => some label
  | _ => none

/-- The labels below a root, those of lambdas below it left out. -/
def labelsBelow (p : Program) (root : SyntaxId) : List String :=
  let found := Graph.reachable p.nodes.size (p.labelParts root) root
  (List.range p.nodes.size).filterMap fun node =>
    if found.getD node false then p.labelOf node else none

/-- The surroundings of a root, or of the body of a lambda. -/
def rootScope (p : Program) (root : SyntaxId) : Scope := ⟨[], p.labelsBelow root⟩

def addLabel (p : Program) (cases : SwitchCases) (label : SyntaxId) : SwitchCases :=
  match p.formOf label with
  | some (.caseLabel (some value)) =>
    match p.constantOf value with
    | some constant => { cases with constants := cases.constants ++ [constant] }
    | none => cases
  | some (.caseLabel none) => { cases with hasDefault := true }
  | _ => cases

/-- The labels of a section; other nodes have none. -/
def sectionLabels (p : Program) (node : SyntaxId) : List SyntaxId :=
  match p.formOf node with
  | some (.switchSection labels _) => labels
  | _ => []

def switchCases (p : Program) (sections : List SyntaxId) : SwitchCases :=
  (sections.flatMap p.sectionLabels).foldl p.addLabel ⟨[], false⟩

end Program

end SemanticTrees
