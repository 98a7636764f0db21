import SemanticTrees.Operation.Basic
import SemanticTrees.Program.Basic

/-!
Operation trees: the operations of one root in an order that puts children in front of their
parents. Parents, depths and taint are not stored; they are computed from the children.
-/

namespace SemanticTrees

/-- A root operation with everything below it. -/
structure OperationTree where
  program : Program
  operations : Array Operation
  root : OperationId
  /-- The operation that was made for a syntax node. -/
  origins : Std.TreeMap SyntaxId OperationId

namespace OperationTree

variable (t : OperationTree)

def size : Nat := t.operations.size

def get? (i : OperationId) : Option Operation := t.operations[i]?

/-- The span of an operation; unknown ones have the empty span at the start of the source. -/
def spanOf (i : OperationId) : Span :=
  match t.get? i with
  | some o => o.span
  | none => Span.zero

/-- The children of an operation; unknown ones have none. -/
def childrenOf (i : OperationId) : List OperationId :=
  match t.get? i with
  | some o => o.children
  | none => []

def operationFor (node : SyntaxId) : Option OperationId := t.origins[node]?

/-- Every syntax node with the operation that was made for it, by the places of the nodes. -/
def mapped : List (SyntaxId × OperationId) := t.origins.toList

def parentTable : Array (Option OperationId) :=
  (List.range t.size).foldl
    (fun table parent =>
      (t.childrenOf parent).foldl
        (fun table child => table.setIfInBounds child (some parent)) table)
    (Array.replicate t.size none)

def parent (i : OperationId) : Option OperationId := t.parentTable[i]?.join

/-- The number of steps to an operation without a parent, by a table of parents. The fuel bounds
the steps; the number of operations is enough. -/
def depthBy (parents : Array (Option OperationId)) : Nat → OperationId → Nat
  | 0, _ => 0
  | fuel + 1, i =>
    match parents[i]?.join with
    | some parent => depthBy parents fuel parent + 1
    | none => 0

def depth (i : OperationId) : Nat := depthBy t.parentTable t.size i

/-- The operations below an operation, itself first and every subtree in one piece. The fuel
bounds the depth; the number of operations is enough. -/
def below : Nat → OperationId → List OperationId
  | 0, _ => []
  | fuel + 1, i =>
    match t.get? i with
    | some o => i :: o.children.flatMap (below fuel)
    | none => []

/-- The operations below an operation, itself first. -/
def descendants (i : OperationId) : List OperationId := t.below t.size i

/-- The operations below an operation with their depths, the operation itself at the given depth.
The fuel bounds the steps down; the number of operations is enough. -/
def depthsBelow : Nat → Nat → OperationId → List (OperationId × Nat)
  | 0, _, _ => []
  | fuel + 1, depth, i =>
    match t.get? i with
    | some o => (i, depth) :: o.children.flatMap (depthsBelow fuel (depth + 1))
    | none => []

/-- The depths of all operations, counted on the way down from the root. The first place counts
for an operation that has several. -/
def depthTable : Array Nat :=
  (t.depthsBelow t.size 0 t.root).foldr (fun (i, depth) table => table.setIfInBounds i depth)
    (Array.replicate t.size 0)

/-- Whether an operation is invalid apart from its children; unknown ones are not. -/
def isSelfInvalid (i : OperationId) : Bool := (t.get? i).any Operation.isSelfInvalid

/-- Marks an operation if it was marked, if it is chosen or if one of its children is marked. -/
def mark (chosen : OperationId → Bool) (marks : Array Bool) (i : OperationId) : Array Bool :=
  marks.setIfInBounds i (marks.getD i false || chosen i ||
    (t.childrenOf i).any fun child => marks.getD child false)

/-- One pass over the operations in order. Children come first, so marks get from the bottom to the
top. -/
def spread (chosen : OperationId → Bool) (marks : Array Bool) : Array Bool :=
  (List.range t.size).foldl (t.mark chosen) marks

/-- Which operations are invalid without looking at diagnostics: those that are so by themselves,
and those above them. -/
def structuralTaint : Array Bool := t.spread t.isSelfInvalid (Array.replicate t.size false)

/-- Which operations are invalid: those that are so without looking at diagnostics or are marked,
and those above them. -/
def taint (marked : OperationId → Bool) : Array Bool := t.spread marked t.structuralTaint

def typeName (i : OperationId) : Option String :=
  ((t.get? i).bind Operation.type).map t.program.types.nameOf

def text (i : OperationId) : Option String := t.program.textOf (t.spanOf i)

end OperationTree

end SemanticTrees
