import SemanticTrees.Lowering.Basic
import SemanticTrees.Proofs.Operation.Forest

/-! Ownership in lowering. A step of lowering takes operations that nothing uses yet, makes them
children of the operations that it adds, and gives back operations that nothing uses. The rules
compose such steps; whatever else is unused stays so, and what is not used up may be dropped. -/
namespace SemanticTrees

variable {α β : Type} {used : List OperationId} {given : α → List OperationId}
  {given' : β → List OperationId}

namespace Lowering

/-- Run on any forest, a step takes `used` out of the unused operations, touches no other unused
operation, and leaves what `given` reads off its result. -/
def Trades (m : Lowering α) (used : List OperationId) (given : α → List OperationId) : Prop :=
  ∀ (s : Store) (frame : List OperationId),
    s.Forest (frame ++ used) → (m.run s).2.Forest (frame ++ given (m.run s).1)

/-- A step that needs nothing and gives one operation back. -/
def Fresh (m : Lowering OperationId) : Prop := Trades m [] fun i => [i]

/-- A step that needs nothing and may give one operation back. -/
def FreshOption (m : Lowering (Option OperationId)) : Prop := Trades m [] Option.toList

/-- A step that needs nothing and gives a list of operations back. -/
def FreshList (m : Lowering (List OperationId)) : Prop := Trades m [] id

namespace Trades

theorem pure {a : α} (sub : (given a).Subperm used) : Trades (pure a) used given :=
  fun _ frame forest => forest.weaken ((List.subperm_append_left frame).mpr sub)

/-- The second step may use what the first one gives, behind what there was before. -/
theorem bind {m : Lowering α} {f : α → Lowering β} (first : Trades m [] given)
    (second : ∀ a, Trades (f a) (used ++ given a) given') : Trades (m >>= f) used given' := by
  intro s frame forest
  have middle := first s (frame ++ used) (by rwa [List.append_nil])
  rw [List.append_assoc] at middle
  exact second _ _ frame middle

/-- The second step uses what the first one gives, and nothing else was there before. -/
theorem andThen {m : Lowering α} {f : α → Lowering β} (first : Trades m used given)
    (second : ∀ a, Trades (f a) (given a) given') : Trades (m >>= f) used given' :=
  fun s frame forest => second _ _ frame (first s frame forest)

theorem map {m : Lowering α} {f : α → β} (step : Trades m used given)
    (same : ∀ a, given' (f a) = given a) : Trades (f <$> m) used given' := by
  intro s frame forest
  have after := step s frame forest
  rw [← same] at after
  exact after

theorem emit {o : Operation} (sub : o.children.Subperm used) :
    Trades (Lowering.emit o) used fun i => [i] :=
  fun _ _ forest => forest.add sub

theorem associate (node : SyntaxId) (i : OperationId) :
    Trades (Lowering.associate node i) [] fun _ => [] :=
  fun _ _ forest => forest.associate node i

theorem mapM {f : α → Lowering β} (step : ∀ a, Trades (f a) [] given') :
    (l : List α) → Trades (l.mapM f) [] fun bs => bs.flatMap given'
  | [] => pure (.refl _)
  | a :: rest => by
    rw [List.mapM_cons]
    refine bind (step a) fun b => bind (mapM step rest) fun bs => pure ?_
    rw [List.flatMap_cons, List.nil_append]

end Trades

theorem Fresh.optional {m : Lowering OperationId} (step : Fresh m) :
    FreshOption (some <$> m) :=
  Trades.map step fun _ => rfl

theorem Fresh.mapM {f : α → Lowering OperationId} (step : ∀ a, Fresh (f a)) (l : List α) :
    FreshList (l.mapM f) := by
  have all := Trades.mapM step l
  simp only [List.flatMap_singleton'] at all
  exact all

theorem FreshOption.none : FreshOption (return none) := Trades.pure (.refl _)

end Lowering

attribute [simp] List.Subperm.refl OperationKind.slots Slot.children Slot.given

namespace Operation

variable (o : Operation)

@[simp] theorem children_plain (kind : OperationKind) (origin : SyntaxId) (span : Span) :
    (plain kind origin span).children = kind.children := rfl

@[simp] theorem children_withType (type : Option TypeId) :
    (o.withType type).children = o.children := by
  unfold withType
  split <;> rfl

@[simp] theorem children_withConstant (constant : Option Constant) :
    (o.withConstant constant).children = o.children := by
  unfold withConstant
  split <;> rfl

@[simp] theorem children_implicit : o.implicit.children = o.children := rfl

@[simp] theorem children_invalidIf (invalid : Bool) :
    (o.invalidIf invalid).children = o.children := rfl

end Operation

namespace Context

open Lowering

variable {c : Context}

@[simp] theorem kind_plain (kind : OperationKind) (id : SyntaxId) :
    (c.plain kind id).kind = kind := rfl

@[simp] theorem origin_plain (kind : OperationKind) (id : SyntaxId) :
    (c.plain kind id).origin = id := rfl

@[simp] theorem children_plain (kind : OperationKind) (id : SyntaxId) :
    (c.plain kind id).children = kind.children := rfl

@[simp] theorem children_valued (kind : OperationKind) (id : SyntaxId) :
    (c.valued kind id).children = kind.children := by
  simp [valued]

theorem emitPlain_trades {kind : OperationKind} {id : SyntaxId}
    (sub : (kind.slots.flatMap fun entry => entry.2.children).Subperm used) :
    Trades (c.emitPlain kind id) used fun i => [i] :=
  .emit sub

theorem emitValued_trades {kind : OperationKind} {id : SyntaxId}
    (sub : (kind.slots.flatMap fun entry => entry.2.children).Subperm used) :
    Trades (c.emitValued kind id) used fun i => [i] :=
  .emit (by rw [children_valued]; exact sub)

theorem invalidExpression_trades {id : SyntaxId} {children : List OperationId}
    (sub : children.Subperm used) : Trades (c.invalidExpression id children) used fun i => [i] :=
  .emit (by simpa [OperationKind.children] using sub)

theorem invalidStatement_trades {id : SyntaxId} {children : List OperationId}
    (sub : children.Subperm used) : Trades (c.invalidStatement id children) used fun i => [i] :=
  emitPlain_trades (by simpa using sub)

theorem placeholder_fresh (role : Role) (id : SyntaxId) : Fresh (c.placeholder role id) := by
  cases role with
  | expression => exact invalidExpression_trades (.refl _)
  | statement => exact invalidStatement_trades (.refl _)

/-- The parts of a node are lowered to operations that nothing uses. -/
def WalksFresh (c : Context) : Prop := ∀ scope role id, Fresh (c.walk scope role id)

namespace WalksFresh

variable (h : c.WalksFresh)
include h

theorem expression (id : SyntaxId) : Fresh (c.expression id) := h _ _ _

theorem statement (id : SyntaxId) : Fresh (c.statement id) := h _ _ _

theorem expression? (id : Option SyntaxId) : FreshOption (c.expression? id) := by
  cases id with
  | none => exact .none
  | some id => exact (h.expression id).optional

theorem statement? (id : Option SyntaxId) : FreshOption (c.statement? id) := by
  cases id with
  | none => exact .none
  | some id => exact (h.statement id).optional

theorem within (scope : Scope) : (c.within scope).WalksFresh := h

theorem salvageStatement (id : SyntaxId) : Fresh (c.salvageStatement id) := by
  unfold Context.salvageStatement
  refine Trades.bind (Fresh.mapM ?_ _) fun children => invalidStatement_trades (.refl _)
  intro child
  split
  · exact h.expression child
  · exact h.statement child

end WalksFresh

end Context

end SemanticTrees
