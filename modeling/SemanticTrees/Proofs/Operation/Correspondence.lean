import SemanticTrees.Proofs.Operation.Compaction
import SemanticTrees.Proofs.Operation.Likeness

/-! Correspondence of operations with everything below them. Two operations correspond when they are
alike and their children correspond, or when one is cut off where the other one stands. What
corresponds stands where its sort may stand, on both sides; operations that are added do not disturb
it, and neither does closing the stores. -/
namespace SemanticTrees

variable {τ : Translation} {cut : Operation → Operation → Prop}
  {get get' find find' : OperationId → Option Operation} {σ ρ : OperationSort}
  {i i' : OperationId} {o o' : Operation}

/-- Two operations that are looked up correspond, each standing where a sort is expected. -/
inductive Corresponds (τ : Translation) (cut : Operation → Operation → Prop)
    (get get' : OperationId → Option Operation) : SortedRelation
  | node {σ : OperationSort} {i i' : OperationId} {o o' : Operation} {r : SortedRelation}
      (found : get i = some o) (found' : get' i' = some o') (fits : σ.admits o.kind = true)
      (alike : o.Alike τ r o') (below : ∀ ρ j j', r ρ j j' → Corresponds τ cut get get' ρ j j') :
      Corresponds τ cut get get' σ i i'
  | cut {σ : OperationSort} {i i' : OperationId} {o o' : Operation} (found : get i = some o)
      (found' : get' i' = some o') (fits : σ.admits o.kind = true)
      (fits' : σ.admits o'.kind = true) (ends : cut o o') : Corresponds τ cut get get' σ i i'

namespace Corresponds

theorem exists_found (related : Corresponds τ cut get get' σ i i') :
    ∃ o o', get i = some o ∧ get' i' = some o' := by
  cases related with
  | node found found' => exact ⟨_, _, found, found'⟩
  | cut found found' => exact ⟨_, _, found, found'⟩

/-- Children of operations that correspond do so as well, unless one is cut off. -/
theorem alike_or_cut (related : Corresponds τ cut get get' σ i i') (found : get i = some o)
    (found' : get' i' = some o') : o.Alike τ (Corresponds τ cut get get') o' ∨ cut o o' := by
  cases related with
  | node known known' fits alike below =>
    obtain rfl := Option.some.inj (known.symm.trans found)
    obtain rfl := Option.some.inj (known'.symm.trans found')
    exact .inl (alike.imp below)
  | cut known known' fits fits' ends =>
    obtain rfl := Option.some.inj (known.symm.trans found)
    obtain rfl := Option.some.inj (known'.symm.trans found')
    exact .inr ends

theorem admits (related : Corresponds τ cut get get' σ i i') (found : get i = some o) :
    σ.admits o.kind = true := by
  cases related with
  | node known _ fits | cut known _ fits =>
    obtain rfl := Option.some.inj (known.symm.trans found)
    exact fits

theorem mono (related : Corresponds τ cut get get' σ i i')
    (finds : ∀ i o, get i = some o → find i = some o)
    (finds' : ∀ i o, get' i = some o → find' i = some o) :
    Corresponds τ cut find find' σ i i' := by
  induction related with
  | node found found' fits alike _ ih =>
    exact .node (finds _ _ found) (finds' _ _ found') fits alike ih
  | cut found found' fits fits' ends =>
    exact .cut (finds _ _ found) (finds' _ _ found') fits fits' ends

theorem weaken (within : σ.Within ρ) (related : Corresponds τ cut get get' σ i i') :
    Corresponds τ cut get get' ρ i i' := by
  cases related with
  | node found found' fits alike below => exact .node found found' (within.admits fits) alike below
  | cut found found' fits fits' ends =>
    exact .cut found found' (within.admits fits) (within.admits fits') ends

end Corresponds

namespace Store

variable {s s' : Store} {root root' : OperationId} {t t' : OperationTree}
  {place place' : OperationId → OperationId}

theorem get?_lt_size (found : s.get? i = some o) : i < s.size :=
  (Array.getElem?_eq_some_iff.mp found).1

/-- Closing stores keeps what corresponds. -/
theorem Compacts.corresponds (c : s.Compacts root t place) (c' : s'.Compacts root' t' place')
    (closed : ∀ o o', cut o o' → cut (o.mapChildren place) (o'.mapChildren place'))
    (related : Corresponds τ cut s.get? s'.get? σ i i') (keeps : s.Keeps root i)
    (keeps' : s'.Keeps root' i') : Corresponds τ cut t.get? t'.get? σ (place i) (place' i') := by
  induction related with
  | cut found found' fits fits' ends =>
    refine .cut (c.kept _ _ keeps found) (c'.kept _ _ keeps' found') ?_ ?_ (closed _ _ ends)
    · exact (OperationSort.admits_mapChildren _ _ _).trans fits
    · exact (OperationSort.admits_mapChildren _ _ _).trans fits'
  | @node σ i i' o o' r found found' fits alike below ih =>
    refine .node (c.kept _ _ keeps found) (c'.kept _ _ keeps' found')
      ((OperationSort.admits_mapChildren _ _ _).trans fits) (alike.mapChildren ?_)
      fun _ _ _ related => related
    intro ρ j listed j' listed' related
    obtain ⟨_, _, known, known'⟩ := (below ρ j j' related).exists_found
    exact ih ρ j j' related
      (keeps.child (mem_childrenOf_iff.mpr ⟨o, found, listed⟩) (get?_lt_size known))
      (keeps'.child (mem_childrenOf_iff.mpr ⟨o', found', listed'⟩) (get?_lt_size known'))

theorem finish_corresponds
    (closed : ∀ o o' f f', cut o o' → cut (o.mapChildren f) (o'.mapChildren f'))
    (related : Corresponds τ cut s.get? s'.get? σ root root') (p p' : Program) :
    Corresponds τ cut (s.finish p root).get? (s'.finish p' root').get? σ (s.finish p root).root
      (s'.finish p' root').root := by
  obtain ⟨o, o', found, found'⟩ := related.exists_found
  obtain ⟨place, c⟩ := s.finish_compacts p root
  obtain ⟨place', c'⟩ := s'.finish_compacts p' root'
  rw [c.top, c'.top]
  exact c.corresponds c' (fun o o' => closed o o' place place') related
    (.refl (get?_lt_size found)) (.refl (get?_lt_size found'))

end Store

end SemanticTrees
