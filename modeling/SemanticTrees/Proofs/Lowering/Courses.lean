import SemanticTrees.Proofs.Lowering.ExpressionRegions

/-! Courses of lowering. What a step does to a store is told call by call, with the operations that
wait to be used. A run of the walk gives one that waits, and an operation that is added takes others
as its children; nothing that waits is lost but what the terms of the course let go. The walk is
arbitrary, so that what holds of courses holds of the walk by induction on its depth. -/
namespace SemanticTrees

/-- An operation wraps another one to convert its value. -/
def OperationKind.isConversion : OperationKind → Bool
  | .conversion .. => true
  | _ => false

attribute [simp] OperationKind.isConversion

namespace Program

variable (p : Program)

/-- A variable needs no receiver. -/
def isVariable (symbol : SymbolId) : Bool :=
  p.symbols[symbol]?.any fun declared =>
    declared.kind == .localVariable || declared.kind == .parameter

/-- What is recorded for a member access is a variable. -/
def TakesVariable (access receiver : SyntaxId) : Prop :=
  ∃ name typeArguments symbol, p.formOf access = some (.memberAccess receiver name typeArguments) ∧
    p.symbolOf access = some symbol ∧ p.isVariable symbol = true

/-- Lowering a node may lower another one: a part of it, or an argument that is bound for a call. -/
def Involves (id node : SyntaxId) : Prop :=
  p.HasPart id node ∨ ∃ form member bindings, p.formOf id = some form ∧ form.IsCall ∧
    p.resolutionOf id = some (.resolved member bindings) ∧ node ∈ bindings.filterMap Binding.lowered

/-- The context of an expression requires a conversion: it was not written and changes the value. -/
def Requires (id : SyntaxId) (conversion : Conversion) : Prop :=
  p.conversionOf id = some conversion ∧ conversion.isImplicit = true ∧ conversion.kind ≠ .identity

/-- A cast has the kind that is recorded for it as written, and is no conversion when none is
recorded. -/
def CastAs (id : SyntaxId) (kind : ConversionKind) : Prop :=
  match p.conversionOf id with
  | some conversion => conversion.isImplicit = false → kind = conversion.kind
  | none => kind = .noConversion

/-- An operation is a conversion that is recorded for its node. -/
inductive Records (o : Operation) : Prop
  | cast {type : TypeId} {inner : SyntaxId} {operand : OperationId} {castKind : ConversionKind}
      (form : p.formOf o.origin = some (.cast type inner))
      (kind : o.kind = .conversion operand castKind) (classified : p.CastAs o.origin castKind)
      (typed : o.type = some type) (written : o.isImplicit = false)
  | required {conversion : Conversion} {operand : OperationId}
      (required : p.Requires o.origin conversion)
      (kind : o.kind = .conversion operand conversion.kind)
      (typed : o.type = some conversion.target) (added : o.isImplicit = true)

end Program

namespace Lowering

/-- What a course may do. -/
structure Terms where
  /-- The nodes that operations are made for. -/
  nodes : SyntaxId → Prop
  adds : Operation → Prop
  /-- The nodes whose operations may be left behind. -/
  forgoes : SyntaxId → Prop
  associates : Store → SyntaxId → OperationId → Prop

variable {t : Terms} {walk : Walk} {s s' s'' : Store} {calls calls' : List Call}
  {waiting waiting' waiting'' : List OperationId}

/-- One store becomes another while the waiting operations become others. -/
inductive Course (t : Terms) (walk : Walk) :
    Store → List OperationId → List Call → Store → List OperationId → Prop
  | done {s : Store} {waiting waiting' : List OperationId} (kept : waiting ⊆ waiting') :
      Course t walk s waiting [] s waiting'
  | add {s s' : Store} {waiting others waiting' : List OperationId} {calls : List Call}
      {o : Operation} (may : t.adds o) (kept : waiting ⊆ others ++ o.children)
      (rest : Course t walk (s.add o) (others ++ [s.size]) calls s' waiting') :
      Course t walk s waiting calls s' waiting'
  | associate {s s' : Store} {waiting waiting' : List OperationId} {calls : List Call}
      {node : SyntaxId} {i : OperationId} (may : t.associates s node i)
      (rest : Course t walk (s.associate node i) waiting calls s' waiting') :
      Course t walk s waiting calls s' waiting'
  | call {s s' : Store} {waiting waiting' : List OperationId} {call : Call} {calls : List Call}
      (rest : Course t walk ((walk call.scope call.role call.node).run s).2
        (waiting ++ [((walk call.scope call.role call.node).run s).1]) calls s' waiting') :
      Course t walk s waiting (call :: calls) s' waiting'
  | forgo {s s' : Store} {waiting waiting' : List OperationId} {call : Call} {calls : List Call}
      (may : t.forgoes call.node)
      (rest : Course t walk ((walk call.scope call.role call.node).run s).2 waiting calls s'
        waiting') :
      Course t walk s waiting (call :: calls) s' waiting'

namespace Course

/-- With less that waits, less has to be kept. -/
theorem fewer (sub : waiting ⊆ waiting') (course : Course t walk s waiting' calls s' waiting'') :
    Course t walk s waiting calls s' waiting'' := by
  induction course generalizing waiting with
  | done kept => exact .done (List.Subset.trans sub kept)
  | add may kept rest => exact .add may (List.Subset.trans sub kept) rest
  | associate may _ ih => exact .associate may (ih sub)
  | call _ ih => exact .call (ih (List.append_subset.mpr
      ⟨List.subset_append_of_subset_left _ sub, List.subset_append_right _ _⟩))
  | forgo may _ ih => exact .forgo may (ih sub)

theorem append (first : Course t walk s waiting calls s' waiting')
    (second : Course t walk s' waiting' calls' s'' waiting'') :
    Course t walk s waiting (calls ++ calls') s'' waiting'' := by
  induction first with
  | done kept => exact second.fewer kept
  | add may kept _ ih => exact .add may kept (ih second)
  | associate may _ ih => exact .associate may (ih second)
  | call _ ih => exact .call (ih second)
  | forgo may _ ih => exact .forgo may (ih second)

/-- A property of stores that additions, associations and the calls keep holds at the end if it
holds at the start. -/
theorem keeps {I : Store → Prop} (adds : ∀ s o, t.adds o → I s → I (s.add o))
    (associates : ∀ s node i, t.associates s node i → I s → I (s.associate node i))
    (walks : ∀ s, ∀ call ∈ calls, I s → I ((walk call.scope call.role call.node).run s).2)
    (course : Course t walk s waiting calls s' waiting') (start : I s) : I s' := by
  induction course with
  | done => exact start
  | add may _ _ ih => exact ih walks (adds _ _ may start)
  | associate may _ ih => exact ih walks (associates _ _ _ may start)
  | call _ ih | forgo _ _ ih =>
    exact ih (fun s call listed => walks s call (List.mem_cons_of_mem _ listed))
      (walks _ _ List.mem_cons_self start)

end Course

end Lowering

open Lowering

/-- The terms let a program be lowered, conversions apart. -/
structure Program.Allows (p : Program) (t : Terms) : Prop where
  involved : ∀ id node, t.nodes id → p.Involves id node → t.nodes node
  adds : ∀ o, t.nodes o.origin → o.kind.isConversion = false → t.adds o
  forgoes : ∀ access receiver, p.TakesVariable access receiver → t.forgoes receiver

namespace Program.Allows

variable {p : Program} {t : Terms} {id part : SyntaxId} {form : Form} (h : p.Allows t)
include h

theorem child (known : t.nodes id) (found : p.formOf id = some form)
    (listed : part ∈ form.children) : t.nodes part :=
  h.involved id part known (.inl (hasPart_of_formOf found listed))

theorem lowered {member : SymbolId} {bindings : List Binding} (known : t.nodes id)
    (found : p.formOf id = some form) (call : form.IsCall)
    (resolved : p.resolutionOf id = some (.resolved member bindings)) {binding : Binding}
    (listed : binding ∈ bindings) : ∀ argument ∈ binding.lowered, t.nodes argument :=
  fun argument given => h.involved id argument known
    (.inr ⟨form, member, bindings, found, call, resolved,
      List.mem_filterMap.mpr ⟨binding, listed, given⟩⟩)

end Program.Allows

namespace Context

variable {α β : Type} {c : Context} {t : Terms} {parts parts' : List Part}
  {used : List OperationId} {given : α → List OperationId} {given' : β → List OperationId}

/-- On any store, a step takes the course of a list of parts. It uses operations that wait, and
gives operations back. -/
def Takes (c : Context) (t : Terms) (used : List OperationId) (parts : List Part)
    (m : Lowering α) (given : α → List OperationId) : Prop :=
  ∀ (s : Store) (frame : List OperationId),
    Course t c.walk s (frame ++ used) (parts.map c.call) (m.run s).2 (frame ++ given (m.run s).1)

/-- A step that uses nothing and gives one operation back. -/
def TakesOne (c : Context) (t : Terms) (parts : List Part) (m : Lowering OperationId) : Prop :=
  c.Takes t [] parts m fun i => [i]

/-- A step that uses nothing and may give an operation back. -/
def TakesOption (c : Context) (t : Terms) (parts : List Part)
    (m : Lowering (Option OperationId)) : Prop :=
  c.Takes t [] parts m Option.toList

namespace Takes

theorem pure {a : α} (kept : used ⊆ given a) : c.Takes t used [] (pure a) given :=
  fun _ frame => .done (List.append_subset.mpr
    ⟨List.subset_append_left _ _, List.subset_append_of_subset_right frame kept⟩)

/-- The second step may use what the first one gives, behind what there was before. -/
theorem bind {m : Lowering α} {f : α → Lowering β} (first : c.Takes t [] parts m given)
    (second : ∀ a, c.Takes t (used ++ given a) parts' (f a) given') :
    c.Takes t used (parts ++ parts') (m >>= f) given' := by
  intro s frame
  have early := first s (frame ++ used)
  rw [List.append_nil, List.append_assoc] at early
  rw [List.map_append]
  exact early.append (second _ _ frame)

/-- The second step walks nothing. -/
theorem finish {m : Lowering α} {f : α → Lowering β} (first : c.Takes t [] parts m given)
    (second : ∀ a, c.Takes t (used ++ given a) [] (f a) given') :
    c.Takes t used parts (m >>= f) given' := by
  have both := bind first second
  rwa [List.append_nil] at both

/-- The second step uses what the first one gives, and nothing else was there before. -/
theorem andThen {m : Lowering α} {f : α → Lowering β} (first : c.Takes t used parts m given)
    (second : ∀ a, c.Takes t (given a) [] (f a) given') :
    c.Takes t used parts (m >>= f) given' := by
  intro s frame
  have both := (first s frame).append (second _ _ frame)
  rwa [List.map_nil, List.append_nil] at both

theorem map {m : Lowering α} {f : α → β} (step : c.Takes t used parts m given)
    (same : ∀ a, given' (f a) = given a) : c.Takes t used parts (f <$> m) given' := by
  intro s frame
  have course := step s frame
  rw [← same] at course
  exact course

theorem emit {o : Operation} (may : t.adds o) (kept : used ⊆ o.children) :
    c.Takes t used [] (Lowering.emit o) fun i => [i] :=
  fun _ frame => .add may (List.append_subset.mpr
    ⟨List.subset_append_left _ _, List.subset_append_of_subset_right frame kept⟩) (.done (.refl _))

theorem mapM {f : α → Lowering β} {partsOf : α → List Part} :
    {l : List α} → (∀ a ∈ l, c.Takes t [] (partsOf a) (f a) given') →
      c.Takes t [] (l.flatMap partsOf) (l.mapM f) fun bs => bs.flatMap given'
  | [], _ => pure (.refl _)
  | a :: rest, step => by
    rw [List.mapM_cons, List.flatMap_cons]
    have later : c.Takes t [] (rest.flatMap partsOf) (rest.mapM f) fun bs => bs.flatMap given' :=
      mapM fun b member => step b (List.mem_cons_of_mem a member)
    refine bind (step a List.mem_cons_self) fun b => finish later fun bs => pure ?_
    rw [List.flatMap_cons, List.nil_append]
    exact .refl _

/-- What is given is left behind. -/
theorem forgo (part : Part) {m : Lowering OperationId} {f : OperationId → Lowering β}
    (may : t.forgoes part.node) (same : m = c.walk (c.call part).scope part.role part.node)
    (rest : ∀ i, c.Takes t used parts (f i) given') :
    c.Takes t used (part :: parts) (m >>= f) given' := by
  intro s frame
  subst same
  exact .forgo may (rest _ _ frame)

end Takes

namespace TakesOne

theorem optional {m : Lowering OperationId} (step : c.TakesOne t parts m) :
    c.TakesOption t parts (some <$> m) :=
  Takes.map step fun _ => rfl

theorem mapM {f : α → Lowering OperationId} {partsOf : α → List Part} {l : List α}
    (step : ∀ a ∈ l, c.TakesOne t (partsOf a) (f a)) :
    c.Takes t [] (l.flatMap partsOf) (l.mapM f) id := by
  have all := Takes.mapM step
  simp only [List.flatMap_singleton'] at all
  exact all

/-- Every item of a list is a part. -/
theorem mapM_single {f : α → Lowering OperationId} {partOf : α → Part} {l : List α}
    (step : ∀ a ∈ l, c.TakesOne t [partOf a] (f a)) :
    c.Takes t [] (l.map partOf) (l.mapM f) id := by
  have all := mapM step
  rwa [← List.map_eq_flatMap] at all

theorem part (part : Part) {m : Lowering OperationId}
    (same : m = c.walk (c.call part).scope part.role part.node) : c.TakesOne t [part] m := by
  intro s frame
  subst same
  refine .call (.done ?_)
  rw [List.append_nil]
  exact .refl _

theorem expression (id : SyntaxId) : c.TakesOne t [.expression id] (c.expression id) :=
  part _ rfl

theorem statement (id : SyntaxId) : c.TakesOne t [.statement id] (c.statement id) :=
  part _ rfl

theorem expressions (ids : List SyntaxId) :
    c.Takes t [] (ids.map .expression) (ids.mapM c.expression) id :=
  mapM_single fun id _ => expression id

end TakesOne

namespace TakesOption

theorem none : c.TakesOption t [] (return none) := .pure (.refl _)

theorem expression? (id : Option SyntaxId) :
    c.TakesOption t (id.toList.map .expression) (c.expression? id) := by
  cases id with
  | none => exact none
  | some id => exact (TakesOne.expression id).optional

theorem statement? (id : Option SyntaxId) :
    c.TakesOption t (id.toList.map .statement) (c.statement? id) := by
  cases id with
  | none => exact none
  | some id => exact (TakesOne.statement id).optional

end TakesOption

section Emit

variable {kind : OperationKind} {id : SyntaxId} {children : List OperationId}
  (h : c.program.Allows t) (known : t.nodes id)
include h known

theorem emitPlain_takes (other : kind.isConversion = false)
    (kept : used ⊆ kind.slots.flatMap fun entry => entry.2.children) :
    c.Takes t used [] (c.emitPlain kind id) fun i => [i] :=
  .emit (h.adds _ known other) kept

theorem emitValued_takes (other : kind.isConversion = false)
    (kept : used ⊆ kind.slots.flatMap fun entry => entry.2.children) :
    c.Takes t used [] (c.emitValued kind id) fun i => [i] :=
  .emit (h.adds _ (by simpa using known) (by simpa using other)) (by rwa [children_valued])

theorem invalidExpression_takes (kept : used ⊆ children) :
    c.Takes t used [] (c.invalidExpression id children) fun i => [i] :=
  .emit (h.adds _ (by simpa using known) (by simp)) (by simpa [OperationKind.children] using kept)

theorem invalidStatement_takes (kept : used ⊆ children) :
    c.Takes t used [] (c.invalidStatement id children) fun i => [i] :=
  emitPlain_takes h known rfl (by simpa using kept)

theorem placeholder_takes (role : Role) : c.TakesOne t [] (c.placeholder role id) := by
  cases role with
  | expression => exact invalidExpression_takes h known (.refl _)
  | statement => exact invalidStatement_takes h known (.refl _)

end Emit

end Context

end SemanticTrees
