import SemanticTrees.Proofs.Lowering.Ownership
import SemanticTrees.Proofs.Lowering.Trail

/-! Heights in lowering. A step of lowering adds operations above the ones that it uses, and how
many levels of them is a matter of the step alone. The rules compose such steps, so that the bound of
a node follows from the bounds of its parts. -/
namespace SemanticTrees

/-- An operation is stored, and ways down from it have fewer steps than a bound. -/
def Store.Within (s : Store) : Nat → OperationId → Prop
  | 0, _ => False
  | bound + 1, i => ∃ o, s.get? i = some o ∧ ∀ child ∈ o.children, s.Within bound child

namespace Store.Within

variable {s s' : Store} {bound bound' : Nat} {i : OperationId}

theorem later (within : s.Within bound i) (grows : s.Extends s') : s'.Within bound i := by
  induction bound generalizing i with
  | zero => exact within.elim
  | succ bound ih =>
    obtain ⟨o, found, below⟩ := within
    exact ⟨o, grows i o found, fun child listed => ih (below child listed)⟩

theorem mono (within : s.Within bound i) (le : bound ≤ bound') : s.Within bound' i := by
  induction bound generalizing bound' i with
  | zero => exact within.elim
  | succ bound ih =>
    obtain ⟨more, rfl⟩ := Nat.exists_eq_add_of_lt le
    obtain ⟨o, found, below⟩ := within
    exact ⟨o, found, fun child listed => ih (below child listed) (by omega)⟩

end Store.Within

variable {α β : Type} {used : List OperationId} {given : α → List OperationId}
  {given' : β → List OperationId} {low middle high more : Nat}

namespace Lowering

/-- Run on any store, a step only adds operations, and what it gives back is lower than a bound. -/
def Raises (m : Lowering α) (high : Nat) (given : α → List OperationId) : Prop :=
  ∀ s : Store, s.Extends (m.run s).2 ∧ ∀ i ∈ given (m.run s).1, (m.run s).2.Within high i

/-- What a step gives back is lower than a bound if what it uses is lower than another one. -/
def Rises (m : Lowering α) (low : Nat) (used : List OperationId) (high : Nat)
    (given : α → List OperationId) : Prop :=
  ∀ s : Store, (∀ i ∈ used, s.Within low i) →
    s.Extends (m.run s).2 ∧ ∀ i ∈ given (m.run s).1, (m.run s).2.Within high i

namespace Rises

theorem pure {a : α} (sub : given a ⊆ used) : Rises (pure a) low used low given :=
  fun s within => ⟨.refl s, fun i listed => within i (sub listed)⟩

theorem weaken {m : Lowering α} (step : Rises m low used high given) (le : high ≤ more) :
    Rises m low used more given := by
  intro s within
  obtain ⟨grows, above⟩ := step s within
  exact ⟨grows, fun i listed => (above i listed).mono le⟩

/-- The second step may use what the first one gives, behind what there was before. -/
theorem bind {m : Lowering α} {f : α → Lowering β} (first : Raises m low given)
    (second : ∀ a, Rises (f a) low (used ++ given a) high given') :
    Rises (m >>= f) low used high given' := by
  intro s within
  obtain ⟨grows, above⟩ := first s
  have both : ∀ i ∈ used ++ given (m.run s).1, (m.run s).2.Within low i := by
    intro i listed
    obtain before | new := List.mem_append.mp listed
    · exact (within i before).later grows
    · exact above i new
  obtain ⟨grows', above'⟩ := second _ _ both
  exact ⟨grows.trans grows', above'⟩

/-- The second step uses what the first one gives, and nothing else was there before. -/
theorem andThen {m : Lowering α} {f : α → Lowering β} (first : Rises m low used middle given)
    (second : ∀ a, Rises (f a) middle (given a) high given') :
    Rises (m >>= f) low used high given' := by
  intro s within
  obtain ⟨grows, above⟩ := first s within
  obtain ⟨grows', above'⟩ := second _ _ above
  exact ⟨grows.trans grows', above'⟩

theorem some {m : Lowering OperationId} (step : Rises m low used high fun i => [i]) :
    Rises (some <$> m) low used high Option.toList :=
  step

theorem emit {o : Operation} (sub : o.children ⊆ used) :
    Rises (Lowering.emit o) low used (low + 1) fun i => [i] := by
  intro s within
  refine ⟨s.extends_add o, fun i listed => ?_⟩
  obtain rfl := List.mem_singleton.mp listed
  exact ⟨o, get?_emit s o, fun child known => (within child (sub known)).later (s.extends_add o)⟩

theorem associate (node : SyntaxId) (i : OperationId) :
    Rises (Lowering.associate node i) low used low fun _ => used :=
  fun s within => ⟨s.extends_associate node i, fun other listed =>
    (within other listed).later (s.extends_associate node i)⟩

end Rises

namespace Raises

theorem pure {a : α} (nothing : given a = []) : Raises (pure a) high given := by
  refine fun s => ⟨.refl s, fun i listed => ?_⟩
  change i ∈ given a at listed
  rw [nothing] at listed
  contradiction

theorem weaken {m : Lowering α} (step : Raises m high given) (le : high ≤ more) :
    Raises m more given :=
  fun s => ⟨(step s).1, fun i listed => ((step s).2 i listed).mono le⟩

/-- What there was before may be left alone. -/
theorem rises {m : Lowering α} (step : Raises m high given) : Rises m low used high given :=
  fun s _ => step s

theorem bind {m : Lowering α} {f : α → Lowering β} (first : Raises m low given)
    (second : ∀ a, Rises (f a) low (given a) high given') : Raises (m >>= f) high given' := by
  intro s
  obtain ⟨grows, above⟩ := first s
  obtain ⟨grows', above'⟩ := second _ _ above
  exact ⟨grows.trans grows', above'⟩

theorem some {m : Lowering OperationId} (step : Raises m high fun i => [i]) :
    Raises (some <$> m) high Option.toList :=
  step

theorem mapM {f : α → Lowering β} (step : ∀ a, Raises (f a) high given') :
    (l : List α) → Raises (l.mapM f) high fun bs => bs.flatMap given'
  | [] => pure rfl
  | a :: rest => by
    rw [List.mapM_cons]
    exact bind (step a) fun b => .bind (mapM step rest) fun bs => .pure (by simp)

theorem list {f : α → Lowering OperationId} (step : ∀ a, Raises (f a) high fun i => [i])
    (l : List α) : Raises (l.mapM f) high id := by
  have all := mapM step l
  simp only [List.flatMap_singleton'] at all
  exact all

/-- An operation without children is as low as one can be. -/
theorem leaf {o : Operation} (bare : o.children = []) :
    Raises (Lowering.emit o) (high + 1) fun i => [i] := by
  have above : Rises (Lowering.emit o) high [] (high + 1) fun i => [i] := .emit (by simp [bare])
  exact fun s => above s fun _ listed => nomatch listed

end Raises

end Lowering

namespace Context

open Lowering

variable {c : Context} {id : SyntaxId} {kind : OperationKind} {children : List OperationId}

theorem emitPlain_rises (sub : kind.children ⊆ used) :
    Rises (c.emitPlain kind id) low used (low + 1) fun i => [i] :=
  .emit sub

theorem emitValued_rises (sub : kind.children ⊆ used) :
    Rises (c.emitValued kind id) low used (low + 1) fun i => [i] :=
  .emit (by rwa [children_valued])

theorem invalidExpression_rises (sub : children ⊆ used) :
    Rises (c.invalidExpression id children) low used (low + 1) fun i => [i] :=
  .emit (by simpa [OperationKind.children] using sub)

theorem invalidStatement_rises (sub : children ⊆ used) :
    Rises (c.invalidStatement id children) low used (low + 1) fun i => [i] :=
  emitPlain_rises (by simpa [OperationKind.children] using sub)

theorem placeholder_raises (role : Role) (id : SyntaxId) :
    Raises (c.placeholder role id) 1 fun i => [i] := by
  cases role with
  | expression => exact .leaf (by simp [OperationKind.children])
  | statement => exact .leaf (by simp [OperationKind.children])

/-- The parts of a node are lowered to operations below a bound. -/
def WalksWithin (c : Context) (high : Nat) : Prop :=
  ∀ scope role id, Raises (c.walk scope role id) (high + 1) fun i => [i]

namespace WalksWithin

variable (h : c.WalksWithin high)
include h

theorem expression (id : SyntaxId) : Raises (c.expression id) (high + 1) fun i => [i] := h _ _ _

theorem statement (id : SyntaxId) : Raises (c.statement id) (high + 1) fun i => [i] := h _ _ _

theorem expression? (id : Option SyntaxId) : Raises (c.expression? id) (high + 1) Option.toList := by
  cases id with
  | none => exact .pure rfl
  | some id => exact (h.expression id).some

theorem statement? (id : Option SyntaxId) : Raises (c.statement? id) (high + 1) Option.toList := by
  cases id with
  | none => exact .pure rfl
  | some id => exact (h.statement id).some

theorem within (scope : Scope) : (c.within scope).WalksWithin high := h

theorem salvageStatement (id : SyntaxId) :
    Raises (c.salvageStatement id) (high + 2) fun i => [i] := by
  unfold Context.salvageStatement
  refine .bind (.list ?_ _) fun children => invalidStatement_rises (List.Subset.refl _)
  intro child
  split
  · exact h.expression child
  · exact h.statement child

end WalksWithin

end Context

end SemanticTrees
