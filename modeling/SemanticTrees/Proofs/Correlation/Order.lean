import SemanticTrees.Proofs.Correlation.Invalidity
import SemanticTrees.Proofs.Lowering.Reporting
import SemanticTrees.Proofs.Source.Order

/-! What a correlation does not depend on: the order in which the diagnostics were reported, and the
program that the tree names. -/
namespace SemanticTrees

open Std

namespace OperationTree

theorem depthsBelow_within (t : OperationTree) (p : Program) (fuel depth : Nat) (i : OperationId) :
    (t.within p).depthsBelow fuel depth i = t.depthsBelow fuel depth i := by
  induction fuel generalizing depth i with
  | zero => rfl
  | succ fuel ih =>
    have inner := funext (ih (depth + 1))
    simp only [depthsBelow, inner]
    rfl

theorem receivers_within (t : OperationTree) (p : Program) :
    (t.within p).receivers = t.receivers := by
  have deep : (t.within p).depthTable = t.depthTable := by
    simp only [depthTable, depthsBelow_within]
    rfl
  simp only [receivers, deep]
  rfl

end OperationTree

namespace Correlation

theorem of_within (t : OperationTree) (p : Program) (ds : List Diagnostic) :
    of (t.within p) ds = of t ds := by
  simp only [of, OperationTree.receivers_within]
  rfl

/-- Attached diagnostics are in the order of their receivers, then in their own order. -/
def compareAttached : OperationId × Diagnostic → OperationId × Diagnostic → Ordering :=
  compareLex (compareOn Prod.fst) (compareOn Prod.snd)

instance : TransCmp compareAttached := inferInstanceAs (TransCmp (compareLex _ _))

instance : LawfulEqCmp compareAttached where
  eq_of_compare same := by
    obtain ⟨receivers, diagnostics⟩ := Ordering.then_eq_eq.mp same
    exact Prod.ext (LawfulEqOrd.eq_of_compare receivers) (LawfulEqOrd.eq_of_compare diagnostics)

theorem of_perm (t : OperationTree) {ds es : List Diagnostic} (perm : ds.Perm es) :
    of t ds = of t es := by
  have placed := perm.map fun d => (receiverOf t d, d)
  have attached : (of t ds).attached = (of t es).attached :=
    mergeSort_eq_of_perm compareAttached (placed.filterMap _)
  have unattached : (of t ds).unattached = (of t es).unattached :=
    Diagnostic.sort_eq_of_perm (placed.filterMap _)
  have hit : isHit t ds = isHit t es := funext fun i => perm.any_eq
  have taint : (of t ds).taint = (of t es).taint := by
    rw [taint_of, taint_of, hit]
  exact (mk.injEq ..).mpr ⟨attached, unattached, taint⟩

end Correlation

end SemanticTrees
