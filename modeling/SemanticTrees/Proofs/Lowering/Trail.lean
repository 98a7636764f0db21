import SemanticTrees.Proofs.Lowering.Parts
import SemanticTrees.Proofs.Operation.Forest
import SemanticTrees.Proofs.Program.Supply

/-! Trails of lowering. What a step does to the store is a sequence of runs of the walk, one for
each part in order, and in between additions of operations of its own; the operations that it adds
mention nothing but what may be mentioned. The walk is arbitrary, so a step that has a trail walks
its parts and nothing else. -/
namespace SemanticTrees

/-- A run of the walk on a node in some surroundings. -/
structure Call where
  scope : Scope
  role : Role
  node : SyntaxId

/-- The surroundings behind a passage. -/
def Passage.scope (p : Program) (s : Scope) : Passage → Scope
  | .plain => s
  | .loop => s.inside .loop
  | .switch sections => s.inside (.switch (p.switchCases sections))
  | .lambda body => p.rootScope body

namespace Lowering

variable {v : Vocabulary} {walk : Walk} {s s' s'' : Store} {calls calls' : List Call}

/-- One store becomes another by additions and by runs of the walk on a list of calls, in order. -/
inductive Trail (v : Vocabulary) (walk : Walk) : Store → List Call → Store → Prop
  | done (s : Store) : Trail v walk s [] s
  | add {s s' : Store} {calls : List Call} {o : Operation} (covered : v.Covers o)
      (rest : Trail v walk (s.add o) calls s') : Trail v walk s calls s'
  | associate {s s' : Store} {calls : List Call} {node : SyntaxId} {i : OperationId}
      (rest : Trail v walk (s.associate node i) calls s') : Trail v walk s calls s'
  | call {s s' : Store} {call : Call} {calls : List Call} (known : v.nodes call.node)
      (rest : Trail v walk ((walk call.scope call.role call.node).run s).2 calls s') :
      Trail v walk s (call :: calls) s'

namespace Trail

theorem append (first : Trail v walk s calls s') (second : Trail v walk s' calls' s'') :
    Trail v walk s (calls ++ calls') s'' := by
  induction first with
  | done => exact second
  | add covered _ ih => exact .add covered (ih second)
  | associate _ ih => exact .associate (ih second)
  | call known _ ih => exact .call known (ih second)

/-- A property of stores that additions and the calls keep holds at the end if it holds at the
start. -/
theorem keeps {I : Store → Prop} (adds : ∀ s o, v.Covers o → I s → I (s.add o))
    (associates : ∀ s node i, I s → I (s.associate node i))
    (walks : ∀ s scope role node, v.nodes node → I s → I ((walk scope role node).run s).2)
    (trail : Trail v walk s calls s') (start : I s) : I s' := by
  induction trail with
  | done => exact start
  | add covered _ ih => exact ih (adds _ _ covered start)
  | associate _ ih => exact ih (associates _ _ _ start)
  | call known _ ih => exact ih (walks _ _ _ _ known start)

end Trail

end Lowering

namespace Store

/-- Every operation of the first store is in the second one, in the same place. -/
def Extends (s s' : Store) : Prop := ∀ i o, s.get? i = some o → s'.get? i = some o

variable {s s' s'' : Store}

theorem Extends.refl (s : Store) : s.Extends s := fun _ _ found => found

theorem Extends.trans (first : s.Extends s') (second : s'.Extends s'') : s.Extends s'' :=
  fun i o found => second i o (first i o found)

theorem extends_add (s : Store) (o : Operation) : s.Extends (s.add o) := by
  intro i o' found
  have inside : i < s.size := (Array.getElem?_eq_some_iff.mp found).1
  rw [get?_add, if_neg (Nat.ne_of_lt inside)]
  exact found

theorem extends_associate (s : Store) (node : SyntaxId) (i : OperationId) :
    s.Extends (s.associate node i) :=
  fun _ _ found => found

end Store

namespace Lowering

/-- What is returned for an added operation is its place. -/
theorem get?_emit (s : Store) (o : Operation) :
    ((emit o).run s).2.get? ((emit o).run s).1 = some o :=
  (s.get?_add s.size).trans (if_pos rfl)

/-- Runs of the walk only add operations. -/
def WalkExtends (walk : Walk) : Prop :=
  ∀ (s : Store) (scope : Scope) (role : Role) (node : SyntaxId),
    s.Extends ((walk scope role node).run s).2

variable {v : Vocabulary} {walk : Walk} {s s' : Store} {calls : List Call}

namespace Trail

theorem extending (trail : Trail v walk s calls s') (grows : WalkExtends walk) : s.Extends s' :=
  trail.keeps (I := s.Extends) (fun s' o _ older => older.trans (s'.extends_add o))
    (fun s' node i older => older.trans (s'.extends_associate node i))
    (fun s' scope role node _ older => older.trans (grows s' scope role node)) (.refl s)

/-- Each call of a trail is run on a store in between. -/
theorem exists_run (trail : Trail v walk s calls s') (grows : WalkExtends walk) {call : Call}
    (member : call ∈ calls) :
    ∃ middle : Store, s.Extends middle ∧
      ((walk call.scope call.role call.node).run middle).2.Extends s' := by
  induction trail with
  | done => contradiction
  | @add s _ _ o _ _ ih =>
    obtain ⟨middle, before, after⟩ := ih member
    exact ⟨middle, (s.extends_add o).trans before, after⟩
  | associate _ ih => exact ih member
  | @call s _ call _ _ rest ih =>
    obtain rfl | later := List.mem_cons.mp member
    · exact ⟨s, .refl s, rest.extending grows⟩
    · obtain ⟨middle, before, after⟩ := ih later
      exact ⟨middle, (grows s _ _ _).trans before, after⟩

end Trail

end Lowering

namespace Context

open Lowering

variable {α β : Type}

/-- The run of the walk on a part of the node that is being lowered. -/
def call (c : Context) (part : Part) : Call :=
  ⟨part.passage.scope c.program c.scope, part.role, part.node⟩

/-- On any store, a step walks a list of parts in order and adds covered operations besides. -/
def Walks (c : Context) (v : Vocabulary) (parts : List Part) (m : Lowering α) : Prop :=
  ∀ s, Trail v c.walk s (parts.map c.call) (m.run s).2

variable {c : Context} {v : Vocabulary} {parts parts' : List Part}

namespace Walks

theorem pure (a : α) : c.Walks v [] (pure a) := fun s => .done s

theorem bind {m : Lowering α} {f : α → Lowering β} (first : c.Walks v parts m)
    (second : ∀ a, c.Walks v parts' (f a)) : c.Walks v (parts ++ parts') (m >>= f) := by
  intro s
  rw [List.map_append]
  exact (first s).append (second _ _)

/-- The second step walks nothing. -/
theorem finish {m : Lowering α} {f : α → Lowering β} (first : c.Walks v parts m)
    (second : ∀ a, c.Walks v [] (f a)) : c.Walks v parts (m >>= f) := by
  have both := bind first second
  rwa [List.append_nil] at both

theorem map {m : Lowering α} (f : α → β) (step : c.Walks v parts m) :
    c.Walks v parts (f <$> m) :=
  fun s => step s

theorem emit {o : Operation} (covered : v.Covers o) : c.Walks v [] (Lowering.emit o) :=
  fun _ => .add covered (.done _)

theorem associate (node : SyntaxId) (i : OperationId) :
    c.Walks v [] (Lowering.associate node i) :=
  fun _ => .associate (.done _)

theorem mapM {f : α → Lowering β} {partsOf : α → List Part} :
    {l : List α} → (∀ a ∈ l, c.Walks v (partsOf a) (f a)) →
      c.Walks v (l.flatMap partsOf) (l.mapM f)
  | [], _ => pure []
  | a :: rest, step => by
    rw [List.mapM_cons, List.flatMap_cons]
    have later : c.Walks v (rest.flatMap partsOf) (rest.mapM f) :=
      mapM fun b member => step b (List.mem_cons_of_mem a member)
    exact bind (step a List.mem_cons_self) fun b => finish later fun bs => pure (b :: bs)

/-- Every item of a list is a part. -/
theorem mapM_single {f : α → Lowering β} {partOf : α → Part} {l : List α}
    (step : ∀ a ∈ l, c.Walks v [partOf a] (f a)) : c.Walks v (l.map partOf) (l.mapM f) := by
  have all := mapM step
  rwa [← List.map_eq_flatMap] at all

theorem part {part : Part} (known : v.nodes part.node) {m : Lowering OperationId}
    (same : m = c.walk (c.call part).scope part.role part.node) : c.Walks v [part] m := by
  intro s
  subst same
  exact .call known (.done _)

theorem expression {id : SyntaxId} (known : v.nodes id) :
    c.Walks v [.expression id] (c.expression id) :=
  part known rfl

theorem statement {id : SyntaxId} (known : v.nodes id) :
    c.Walks v [.statement id] (c.statement id) :=
  part known rfl

theorem expression? {id : Option SyntaxId} (known : ∀ i ∈ id, v.nodes i) :
    c.Walks v (id.toList.map .expression) (c.expression? id) := by
  cases id with
  | none => exact pure none
  | some id => exact map some (expression (known id rfl))

theorem statement? {id : Option SyntaxId} (known : ∀ i ∈ id, v.nodes i) :
    c.Walks v (id.toList.map .statement) (c.statement? id) := by
  cases id with
  | none => exact pure none
  | some id => exact map some (statement (known id rfl))

end Walks

/-- What a context may mention: its program supplies nothing else. -/
theorem covers_plain {kind : OperationKind} {id : SyntaxId} (known : v.nodes id)
    (covered : v.CoversKind kind) : v.Covers (c.plain kind id) :=
  .plain known _ covered

section Supplied

variable (h : c.program.Supplies v) {kind : OperationKind} {id : SyntaxId}
include h

theorem covers_valued (known : v.nodes id) (covered : v.CoversKind kind) :
    v.Covers (c.valued kind id) :=
  ((covers_plain known covered).withType (h.type id)).withConstant _

theorem emitValued_walks (known : v.nodes id) (covered : v.CoversKind kind) :
    c.Walks v [] (c.emitValued kind id) :=
  .emit (covers_valued h known covered)

theorem invalidExpression_walks (known : v.nodes id) (children : List OperationId) :
    c.Walks v [] (c.invalidExpression id children) :=
  .emit ((covers_plain known (.of_nil rfl rfl)).withType (h.type id))

end Supplied

theorem emitPlain_walks {kind : OperationKind} {id : SyntaxId} (known : v.nodes id)
    (covered : v.CoversKind kind) : c.Walks v [] (c.emitPlain kind id) :=
  .emit (covers_plain known covered)

theorem invalidStatement_walks {id : SyntaxId} (known : v.nodes id)
    (children : List OperationId) : c.Walks v [] (c.invalidStatement id children) :=
  emitPlain_walks known (.of_nil rfl rfl)

end Context

end SemanticTrees
