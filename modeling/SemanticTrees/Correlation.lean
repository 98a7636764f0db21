import SemanticTrees.Operation.Tree

/-!
Correlation of diagnostics with the operations of a tree. A diagnostic belongs to the narrowest
operation that was written and contains it, and an error makes that operation and all above it
invalid. The result does not depend on the order of the diagnostics.
-/

namespace SemanticTrees

/-- The diagnostics of a tree with the operations they belong to. -/
structure Correlation where
  /-- In the order of the operations, then of the diagnostics. -/
  attached : List (OperationId × Diagnostic)
  /-- The diagnostics that no operation contains, in order. -/
  unattached : List Diagnostic
  /-- Which operations are invalid, be it by themselves or because of an error. -/
  taint : Array Bool
deriving DecidableEq, Repr

/-- An operation that may receive a diagnostic. -/
structure Receiver where
  operation : OperationId
  span : Span
  depth : Nat
deriving DecidableEq, Repr

namespace Receiver

/-- Whether an operation receives what two operations contain: it is narrower, or as narrow and
deeper. -/
def precedes (r s : Receiver) : Bool :=
  r.span.length < s.span.length || (r.span.length == s.span.length && s.depth < r.depth)

/-- The better one of the best operation so far and one that comes later. -/
def better (best : Option Receiver) (r : Receiver) : Option Receiver :=
  match best with
  | some s => if r.precedes s then some r else some s
  | none => some r

end Receiver

namespace OperationTree

/-- The operations that may receive diagnostics: those that were written. -/
def receivers (t : OperationTree) : List Receiver :=
  (t.operations.toList.zip t.depthTable.toList).zipIdx.filterMap fun ((o, depth), i) =>
    if o.isImplicit then none else some ⟨i, o.span, depth⟩

def narrowest (receivers : List Receiver) (place : Span) : Option OperationId :=
  ((receivers.filter fun r => r.span.contains place).foldl Receiver.better none).map
    Receiver.operation

end OperationTree

namespace Correlation

def le (a b : OperationId × Diagnostic) : Bool :=
  ((compare a.1 b.1).then (a.2.compare b.2)).isLE

def of (t : OperationTree) (diagnostics : List Diagnostic) : Correlation :=
  let receivers := t.receivers
  let placed := diagnostics.map fun d => (OperationTree.narrowest receivers d.span, d)
  let attached := placed.filterMap fun (receiver, d) => receiver.map fun i => (i, d)
  let unattached := placed.filterMap fun (receiver, d) => if receiver.isNone then some d else none
  let erroneous := (attached.filter fun (_, d) => d.isError).map Prod.fst
  { attached := attached.mergeSort le
    unattached := Diagnostic.sort unattached
    taint := t.taint fun i => erroneous.contains i }

/-- The number of entries in front of the first one that fails a test, where those that pass come
first. It lies between two places, and halving what is left between them finds it. -/
def partitionPoint {α : Type} (passes : α → Bool) (entries : Array α) (low high : Nat) : Nat :=
  if low < high then
    let middle := low + (high - low) / 2
    if entries[middle]?.any passes then partitionPoint passes entries (middle + 1) high
    else partitionPoint passes entries low middle
  else low
termination_by high - low

/-- The diagnostics of an operation. Entries are in the order of the operations, so those of one
operation stand in one piece. -/
def diagnosticsOf (c : Correlation) (i : OperationId) : List Diagnostic :=
  let entries := c.attached.toArray
  let start := partitionPoint (fun (j, _) => j < i) entries 0 entries.size
  let stop := partitionPoint (fun (j, _) => j ≤ i) entries 0 entries.size
  (entries.extract start stop).toList.map Prod.snd

def isInvalid (c : Correlation) (i : OperationId) : Bool := c.taint.getD i false

/-- The diagnostics of an operation and of all below it, in order. -/
def within (c : Correlation) (t : OperationTree) (i : OperationId) : List Diagnostic :=
  Diagnostic.sort ((t.descendants i).flatMap c.diagnosticsOf)

end Correlation

end SemanticTrees
