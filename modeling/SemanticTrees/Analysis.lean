import SemanticTrees.Lowering.Root
import SemanticTrees.Correlation
import SemanticTrees.Program.Reading
import SemanticTrees.Rendering.Outline
import SemanticTrees.Rendering.Structured

/-!
Analyses of whole programs: the operation trees of all roots, with the diagnostics of the program
where they belong. A diagnostic goes to the root with the narrowest span around it.
-/

namespace SemanticTrees

/-- The tree of a root with the diagnostics in it. -/
structure AnalyzedRoot where
  /-- The declaration that the tree was built for. -/
  origin : SyntaxId
  tree : OperationTree
  correlation : Correlation

/-- A program with the trees of its roots. -/
structure Analysis where
  program : Program
  roots : List AnalyzedRoot
  /-- The diagnostics outside of all roots, in order. -/
  unattached : List Diagnostic

/-- An operation of an analysis: the place of its root, and its place in the tree. -/
structure OperationRef where
  root : Nat
  operation : OperationId
deriving DecidableEq, Repr, Inhabited

namespace Analysis

/-- The better one of the best root so far and one that comes later: the narrower, and of equally
narrow ones the earlier. -/
def narrower (best : Option (Nat × Span)) (root : Nat × Span) : Option (Nat × Span) :=
  match best with
  | some other => if root.2.length < other.2.length then some root else some other
  | none => some root

/-- The root that a diagnostic goes to, given the spans of the roots. -/
def destination (spans : List (Nat × Span)) (d : Diagnostic) : Option Nat :=
  ((spans.filter fun (_, span) => span.contains d.span).foldl narrower none).map Prod.fst

/-- The trees of the roots of a program, with the nodes they were built for. -/
def build (p : Program) (options : LoweringOptions) (request : Request) :
    Except Cancelled (List (SyntaxId × OperationTree)) := do
  let trees ← p.roots.mapM fun id => do
    let tree ← p.build options request id
    return tree.map fun tree => (id, tree)
  return trees.filterMap fun tree => tree

def ofTrees (p : Program) (trees : List (SyntaxId × OperationTree)) : Analysis :=
  let spans := trees.zipIdx.map fun ((_, tree), i) => (i, tree.spanOf tree.root)
  let sent := p.diagnostics.map fun d => (destination spans d, d)
  let roots := trees.zipIdx.map fun ((origin, tree), i) =>
    let own := sent.filterMap fun (root, d) => if root = some i then some d else none
    { origin, tree, correlation := Correlation.of tree own : AnalyzedRoot }
  let outside := sent.filterMap fun (root, d) => if root.isNone then some d else none
  { program := p, roots
    unattached :=
      Diagnostic.sort (outside ++ roots.flatMap fun root => root.correlation.unattached) }

/-- The analysis of a program, unless it was given up before. -/
def of (p : Program) (options : LoweringOptions) (request : Request) :
    Except Cancelled Analysis := do
  return ofTrees p (← build p options request)

variable (a : Analysis)

def root? (i : Nat) : Option AnalyzedRoot := a.roots[i]?

def rootFor (node : SyntaxId) : Option Nat :=
  a.roots.findIdx? fun root => root.origin == node

/-- The operation that was made for a node in the first root that has one. -/
def operationFor (node : SyntaxId) : Option OperationRef :=
  a.roots.zipIdx.findSome? fun (root, i) => (root.tree.operationFor node).map (⟨i, ·⟩)

def get? (r : OperationRef) : Option Operation :=
  (a.root? r.root).bind fun root => root.tree.get? r.operation

def parent (r : OperationRef) : Option OperationRef := do
  let root ← a.root? r.root
  let parent ← root.tree.parent r.operation
  return ⟨r.root, parent⟩

def children (r : OperationRef) : List OperationRef :=
  match a.root? r.root with
  | some root => (root.tree.childrenOf r.operation).map (⟨r.root, ·⟩)
  | none => []

/-- The operations above an operation, from the inside to the outside. The fuel bounds their
number. -/
def above : Nat → OperationRef → List OperationRef
  | 0, _ => []
  | fuel + 1, r =>
    match a.parent r with
    | some parent => parent :: above fuel parent
    | none => []

/-- The operations above an operation, from the inside to the outside. -/
def ancestors (r : OperationRef) : List OperationRef :=
  match a.root? r.root with
  | some root => a.above root.tree.size r
  | none => []

def diagnosticsOf (r : OperationRef) : List Diagnostic :=
  match a.root? r.root with
  | some root => root.correlation.diagnosticsOf r.operation
  | none => []

def isInvalid (r : OperationRef) : Bool :=
  (a.root? r.root).any fun root => root.correlation.isInvalid r.operation

/-- The rendering of a root, invalid operations being marked as the diagnostics tell. -/
def outline (options : RenderOptions) (i : Nat) : Option String :=
  (a.root? i).map fun root => root.tree.outline options root.correlation.taint

def missingRoot (i : Nat) : String := s!"no root {i} in '{a.program.fileName}'"

def structured (i : Nat) : Except String String :=
  match a.root? i with
  | some root => .ok (root.tree.structured root.correlation.taint).pretty
  | none => .error (a.missingRoot i)

end Analysis

end SemanticTrees
