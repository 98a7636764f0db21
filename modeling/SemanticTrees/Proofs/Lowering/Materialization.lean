import SemanticTrees.Proofs.Lowering.Invariants
import SemanticTrees.Proofs.Program.WellFormed
import Mathlib.Tactic.IntervalCases

/-! How often the conversion of a node is made. The walk comes to a node at most once when no node
is shared, and makes at most one conversion there that is written, for a cast, and at most one that
is added, as the context requires it. Only a cast whose context requires a conversion gets both. -/
namespace SemanticTrees

/-- An operation is a conversion of a node, one that was written or one that was added. -/
def Operation.Converts (o : Operation) (node : SyntaxId) (added : Bool) : Prop :=
  o.kind.isConversion = true ∧ o.isImplicit = added ∧ o.origin = node

/-- The conversions that were made for a node, those that were written or those that were added. -/
def Store.conversionsMade (s : Store) (node : SyntaxId) (added : Bool) : Set OperationId :=
  {i | ∃ o, s.get? i = some o ∧ o.Converts node added}

def OperationTree.conversionsMade (t : OperationTree) (node : SyntaxId) (added : Bool) :
    Set OperationId :=
  {i | ∃ o, t.get? i = some o ∧ o.Converts node added}

namespace Store

variable {s s' s'' : Store} {o : Operation} {node : SyntaxId} {added : Bool} {i : OperationId}

/-- No conversion was made for a node on the way from a store to another. -/
def NoMore (node : SyntaxId) (added : Bool) (s s' : Store) : Prop :=
  s'.conversionsMade node added ⊆ s.conversionsMade node added

namespace NoMore

theorem refl (node : SyntaxId) (added : Bool) (s : Store) : NoMore node added s s :=
  Set.Subset.refl _

theorem trans (first : NoMore node added s s') (second : NoMore node added s' s'') :
    NoMore node added s s'' :=
  Set.Subset.trans second first

end NoMore

end Store

namespace Program

open Lowering

variable {p : Program} {options : LoweringOptions} {id node : SyntaxId} {added : Bool}
  {t : OperationTree}

section Courses

variable {walk : Walk} {s s' : Store} {calls : List Call} {waiting waiting' : List OperationId}

end Courses

section Node

variable {c : Context}

end Node

/-- Moving an operation to a tree changes the operand and nothing else. -/
theorem Records.mapChildren {o : Operation} (records : p.Records o)
    (f : OperationId → OperationId) : p.Records (o.mapChildren f) := by
  cases records with
  | cast form kind classified typed written =>
    exact .cast form (by rw [Operation.mapChildren, kind]; rfl) classified typed written
  | required required kind typed added =>
    exact .required required (by rw [Operation.mapChildren, kind]; rfl) typed added

end Program

end SemanticTrees
