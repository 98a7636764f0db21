import SemanticTrees.Operation.Tree
import SemanticTrees.Graph.Reach

/-!
Stores, in which operations are collected while a tree is built. Operations are added after their
children. Closing a store keeps what can be reached from the root, in the same order and with new
places.
-/

namespace SemanticTrees

/-- Operations that are being collected. -/
structure Store where
  operations : Array Operation
  /-- The operation that was made for a syntax node. -/
  origins : Std.TreeMap SyntaxId OperationId

namespace Store

def empty : Store := ⟨#[], {}⟩

def size (s : Store) : Nat := s.operations.size

def get? (s : Store) (i : OperationId) : Option Operation := s.operations[i]?

/-- Adds an operation. Unless it is implicit it becomes the operation of its syntax node, in place
of an earlier one. -/
def add (s : Store) (o : Operation) : Store :=
  { origins := if o.isImplicit then s.origins else s.origins.insert o.origin s.size
    operations := s.operations.push o }

def associate (s : Store) (node : SyntaxId) (i : OperationId) : Store :=
  { s with origins := s.origins.insertIfNew node i }

/-- The children of an operation; unknown ones have none. -/
def childrenOf (s : Store) (i : OperationId) : List OperationId :=
  match s.get? i with
  | some o => o.children
  | none => []

/-- The new places when only marked operations are kept: the number of those in front. -/
def renumbering (kept : Array Bool) : Array Nat :=
  (kept.foldl (fun (places, next) keep => (places.push next, if keep then next + 1 else next))
    (#[], 0)).1

/-- The tree below a root. Operations that are not below it are dropped; syntax nodes whose
operation is dropped have none in the tree. -/
def finish (s : Store) (program : Program) (root : OperationId) : OperationTree :=
  let kept := Graph.reachable s.size s.childrenOf root
  if kept.all fun keep => keep then
    { program, operations := s.operations, root, origins := s.origins }
  else
    let places := renumbering kept
    let place (i : OperationId) : OperationId := places.getD i 0
    let isKept (i : OperationId) : Bool := kept.getD i false
    { program
      operations := (s.operations.zip kept).filterMap fun (o, keep) =>
        if keep then some (o.mapChildren place) else none
      root := place root
      origins := (s.origins.filter fun _ i => isKept i).map fun _ i => place i }

end Store

end SemanticTrees
