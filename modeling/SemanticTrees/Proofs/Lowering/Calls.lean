import SemanticTrees.Proofs.Lowering.Callees
import SemanticTrees.Proofs.Lowering.Conversions
import SemanticTrees.Proofs.Lowering.Roots

/-! Calls, element accesses and object creations. What the facts say about one decides, for each of
the three forms in the same way, whether it is resolved at run time, bound to a member with an
argument for each of its bindings, the element of an array, or not understood. -/
namespace SemanticTrees

open Lowering

namespace Form

/-- The forms that are applied to arguments. -/
def IsCall : Form → Prop
  | .invocation .. | .elementAccess .. | .objectCreation .. => True
  | _ => False

/-- The arguments that are written. -/
def arguments : Form → List SyntaxId
  | .invocation _ arguments | .elementAccess _ arguments | .objectCreation _ arguments => arguments
  | _ => []

end Form

/-- What may become of a call. -/
inductive Fate
  /-- It is resolved at run time. -/
  | late
  /-- It is bound to a known member. -/
  | bound
  /-- It is an element of an array. -/
  | element
  /-- It is not understood. -/
  | rest
deriving DecidableEq, Repr

namespace Form

/-- The fate that an operation shows, among those that a form may have. -/
def fate? : Form → OperationKind → Option Fate
  | .invocation .., .dynamicInvocation _ | .elementAccess .., .dynamicIndexerAccess _
  | .objectCreation .., .dynamicObjectCreation _ => some .late
  | .invocation .., .invocation .. | .elementAccess .., .propertyReference ..
  | .objectCreation .., .objectCreation .. => some .bound
  | _, .arrayElementReference .. => some .element
  | _, .invalidExpression _ => some .rest
  | _, _ => none

@[simp] theorem fate?_invalidExpression (form : Form) (children : List OperationId) :
    form.fate? (.invalidExpression children) = some .rest := by
  cases form <;> rfl

end Form

/-- The member that an operation names, with the arguments that it gets. -/
def OperationKind.bound? : OperationKind → Option (SymbolId × List OperationId)
  | .invocation member _ _ arguments | .propertyReference member _ arguments
  | .objectCreation member arguments => some (member, arguments)
  | _ => none

/-- Operations are arguments for bindings, in the same order: each is for the parameter of its
binding and reaches it as the binding says. -/
def Store.HoldsArguments (s : Store) (bindings : List Binding) (arguments : List OperationId) :
    Prop :=
  List.Forall₂
    (fun binding i => ∃ o value, s.get? i = some o ∧
      o.kind = .argument binding.kind binding.parameter value)
    bindings arguments

namespace Program

variable (p : Program)

/-- What is called, indexed or created is known at run time only. -/
def HasLateTarget : Form → Prop
  | .invocation callee _ => p.IsLateCallee callee
  | .elementAccess receiver _ => p.HasDynamicType receiver
  | _ => False

/-- The choice is left to run time, and not ruled out by the number of arguments. -/
def IsLeftOpen (id : SyntaxId) (count : Nat) : Prop :=
  ∃ candidates, p.resolutionOf id = some (.lateBound candidates) ∧
    (candidates = [] ∨ ∃ member ∈ candidates, p.symbols.acceptsCount member count = true)

def IsLate (id : SyntaxId) (form : Form) : Prop :=
  p.HasLateTarget form ∨ p.IsLeftOpen id form.arguments.length

def IsResolved (id : SyntaxId) : Prop :=
  ∃ member bindings, p.resolutionOf id = some (.resolved member bindings)

/-- An element access that nothing was resolved for, of an array. -/
def IsArrayElement (id : SyntaxId) (form : Form) : Prop :=
  ∃ receiver arguments, form = .elementAccess receiver arguments ∧ p.resolutionOf id = none ∧
    ¬p.HasDynamicType receiver ∧ p.HasArrayType receiver

/-- What the facts say about the fate of a call. -/
def HasFate (id : SyntaxId) (form : Form) : Fate → Prop
  | .late => p.IsLate id form
  | .bound => ¬p.IsLate id form ∧ p.IsResolved id
  | .element => p.IsArrayElement id form
  | .rest => ¬p.IsLate id form ∧ ¬p.IsResolved id ∧ ¬p.IsArrayElement id form

/-- What a call becomes: an operation that shows the fate that the facts say, and when it is bound,
names the resolved member with an argument for each binding. -/
structure CallBecomes (s : Store) (id : SyntaxId) (form : Form) (kind : OperationKind) : Prop where
  fate : ∀ fate, form.fate? kind = some fate ↔ p.HasFate id form fate
  arguments : ∀ member bindings, p.resolutionOf id = some (.resolved member bindings) →
    ¬p.IsLate id form → ∃ arguments, kind.bound? = some (member, arguments) ∧
      s.HoldsArguments bindings arguments

variable {p} {s : Store} {id : SyntaxId} {form : Form} {kind : OperationKind} {fate fate' : Fate}

theorem IsArrayElement.not_late (element : p.IsArrayElement id form) : ¬p.IsLate id form := by
  obtain ⟨receiver, arguments, rfl, unresolved, known, _⟩ := element
  rintro (dynamic | ⟨candidates, left, _⟩)
  · exact known dynamic
  · rw [unresolved] at left
    contradiction

theorem IsArrayElement.not_resolved (element : p.IsArrayElement id form) : ¬p.IsResolved id := by
  obtain ⟨_, _, _, unresolved, _⟩ := element
  rintro ⟨member, bindings, resolved⟩
  rw [unresolved] at resolved
  contradiction

/-- A call has one fate. -/
theorem HasFate.unique (has : p.HasFate id form fate) (has' : p.HasFate id form fate') :
    fate = fate' := by
  cases fate <;> cases fate'
  case late.bound => exact absurd has has'.1
  case late.element => exact absurd has has'.not_late
  case late.rest => exact absurd has has'.1
  case bound.late => exact absurd has' has.1
  case bound.element => exact absurd has.2 has'.not_resolved
  case bound.rest => exact absurd has.2 has'.2.1
  case element.late => exact absurd has' has.not_late
  case element.bound => exact absurd has'.2 has.not_resolved
  case element.rest => exact absurd has has'.2.2
  case rest.late => exact absurd has' has.1
  case rest.bound => exact absurd has'.2 has.2.1
  case rest.element => exact absurd has' has.2.2
  all_goals rfl

namespace CallBecomes

theorem fate_iff (fate : Fate) (has : p.HasFate id form fate)
    (shown : form.fate? kind = some fate) (fate' : Fate) :
    form.fate? kind = some fate' ↔ p.HasFate id form fate' := by
  rw [shown, Option.some_inj]
  exact ⟨fun same => same ▸ has, fun has' => has.unique has'⟩

theorem of_late (late : p.IsLate id form) (shown : form.fate? kind = some .late) :
    p.CallBecomes s id form kind :=
  ⟨fate_iff .late late shown, fun _ _ _ early => absurd late early⟩

theorem of_bound {member : SymbolId} {bindings : List Binding} {arguments : List OperationId}
    (early : ¬p.IsLate id form) (resolved : p.resolutionOf id = some (.resolved member bindings))
    (shown : form.fate? kind = some .bound) (named : kind.bound? = some (member, arguments))
    (holds : s.HoldsArguments bindings arguments) : p.CallBecomes s id form kind where
  fate := fate_iff .bound ⟨early, member, bindings, resolved⟩ shown
  arguments := by
    intro member' bindings' same _
    obtain ⟨rfl, rfl⟩ := Resolution.resolved.inj (Option.some.inj (resolved.symm.trans same))
    exact ⟨arguments, named, holds⟩

/-- A call that is neither late nor bound. -/
theorem of_unresolved (unresolved : ¬p.IsResolved id) (has : p.HasFate id form fate)
    (shown : form.fate? kind = some fate) : p.CallBecomes s id form kind :=
  ⟨fate_iff fate has shown, fun _ _ resolved _ => absurd ⟨_, _, resolved⟩ unresolved⟩

end CallBecomes

end Program

namespace Lowering

variable {α β : Type}

/-- What the first step yields may be used to show what the second one yields. -/
theorem Yields.seq {m : Lowering α} {f : α → Lowering β} {middle : Store → α → Prop}
    {post : Store → β → Prop} (first : Yields m middle)
    (second : ∀ s a, middle s a → post ((f a).run s).2 ((f a).run s).1) : Yields (m >>= f) post :=
  fun s => second _ _ (first s)

end Lowering

namespace Store

variable {s t : Store} {bindings : List Binding} {arguments : List OperationId}

theorem HoldsArguments.mono (holds : s.HoldsArguments bindings arguments) (older : s.Extends t) :
    t.HoldsArguments bindings arguments :=
  holds.imp fun _ i ⟨o, value, stored, kind⟩ => ⟨o, value, older i o stored, kind⟩

end Store

namespace Context

variable {c : Context} {id : SyntaxId} {form : Form} {kind : OperationKind}

@[simp] theorem kind_valued : (c.valued kind id).kind = kind := by
  simp [valued, plain, Operation.plain]

@[simp] theorem origin_valued : (c.valued kind id).origin = id := by
  simp [valued, plain, Operation.plain]

@[simp] theorem kind_lateBound : (c.lateBound kind id).kind = kind := by
  unfold lateBound
  dsimp only
  split <;> simp

@[simp] theorem origin_lateBound : (c.lateBound kind id).origin = id := by
  unfold lateBound
  dsimp only
  split <;> simp

/-- A step adds what a call becomes. -/
def AddsCall (c : Context) (id : SyntaxId) (form : Form) (m : Lowering OperationId) : Prop :=
  Yields m fun s i =>
    ∃ o, s.get? i = some o ∧ o.origin = id ∧ c.program.CallBecomes s id form o.kind

namespace AddsCall

theorem bind {α : Type} {m : Lowering α} {f : α → Lowering OperationId}
    (last : ∀ a, c.AddsCall id form (f a)) : c.AddsCall id form (m >>= f) :=
  Yields.bind last

theorem emit {o : Operation} (origin : o.origin = id)
    (becomes : ∀ s, c.program.CallBecomes s id form o.kind) :
    c.AddsCall id form (Lowering.emit o) :=
  fun s => ⟨o, get?_emit s o, origin, becomes _⟩

end AddsCall

/-- A bound argument is for the parameter of its binding. -/
theorem boundArgument_yields (call : SyntaxId) (binding : Binding) :
    Yields (c.boundArgument call binding) fun s i =>
      ∃ o value, s.get? i = some o ∧ o.kind = .argument binding.kind binding.parameter value := by
  have argument (o : Operation) (kind : ArgumentKind) (value : OperationId)
      (shape : o.kind = .argument kind binding.parameter value) :
      Yields (emit o) fun s i => ∃ o value, s.get? i = some o ∧
        o.kind = .argument kind binding.parameter value :=
    fun s => ⟨o, value, get?_emit s o, shape⟩
  unfold boundArgument
  cases kind : binding.kind <;> cases given : binding.argument
  case default.none | default.some => exact .bind fun value => argument _ .default value rfl
  case explicit.none | explicit.some => exact .bind fun value => argument _ .explicit value rfl
  case collected.none | collected.some => exact .bind fun value => argument _ .collected value rfl

/-- The arguments of a bound call are those of its bindings. -/
theorem boundArguments_yield (grows : WalkExtends c.walk) (call : SyntaxId)
    (bindings : List Binding) :
    Yields (bindings.mapM (c.boundArgument call)) fun s arguments =>
      s.HoldsArguments bindings arguments := by
  intro s
  induction bindings generalizing s with
  | nil => exact .nil
  | cons binding bindings ih =>
    have later : c.Walks .all (bindings.flatMap bindingParts)
        (bindings.mapM (c.boundArgument call)) :=
      .mapM fun binding _ => boundArgument_walks c.program.supplies_all trivial trivial
        fun _ _ => trivial
    obtain ⟨o, value, stored, kind⟩ := boundArgument_yields (c := c) call binding s
    rw [List.mapM_cons]
    exact .cons ⟨o, value, (later _).extending grows _ _ stored, kind⟩ (ih _)

section Call

variable {callee receiver : SyntaxId} {arguments : List SyntaxId} {candidates : List SymbolId}
  {member : SymbolId} {bindings : List Binding}

theorem lateBoundCall_adds (late : c.program.IsLate id (.invocation callee arguments)) :
    c.AddsCall id (.invocation callee arguments)
      (c.lateBoundCall id callee arguments candidates) :=
  .bind fun _ => .bind fun _ => .emit (by simp) fun _ => .of_late late (by simp [Form.fate?])

theorem lateBoundElement_adds (late : c.program.IsLate id (.elementAccess receiver arguments)) :
    c.AddsCall id (.elementAccess receiver arguments) (c.lateBoundElement id receiver arguments) :=
  .bind fun _ => .bind fun _ => .emit (by simp) fun _ => .of_late late (by simp [Form.fate?])

theorem lateBoundCreation_adds {type : TypeId}
    (late : c.program.IsLate id (.objectCreation type arguments)) :
    c.AddsCall id (.objectCreation type arguments) (c.lateBoundCreation id type arguments) :=
  .bind fun _ => .emit (by simp) fun _ => .of_late late (by simp [Form.fate?])

theorem salvageCall_adds (receiver : Option OperationId)
    (rest : c.program.HasFate id form .rest) :
    c.AddsCall id form (c.salvageCall id receiver arguments) :=
  .bind fun _ => .emit (by simp [plain, Operation.plain]) fun _ =>
    .of_unresolved rest.2.1 rest (by simp [plain, Operation.plain])

/-- The last step of a bound call, behind its arguments. -/
theorem boundCall_adds (grows : WalkExtends c.walk) (early : ¬c.program.IsLate id form)
    (resolved : c.program.resolutionOf id = some (.resolved member bindings))
    {make : List OperationId → Operation} (origin : ∀ values, (make values).origin = id)
    (shown : ∀ values, form.fate? (make values).kind = some .bound)
    (named : ∀ values, (make values).kind.bound? = some (member, values)) :
    c.AddsCall id form (bindings.mapM (c.boundArgument id) >>= fun values => emit (make values)) :=
  .seq (boundArguments_yield grows id bindings) fun s values holds =>
    ⟨make values, get?_emit s _, origin values, .of_bound early resolved (shown values)
      (named values) (holds.mono (s.extends_add _))⟩

theorem unboundCall_adds (rest : c.program.HasFate id form .rest) :
    c.AddsCall id form (c.unboundCall id callee arguments) :=
  .bind fun receiver => salvageCall_adds receiver rest

theorem unboundElement_adds (rest : c.program.HasFate id form .rest) :
    c.AddsCall id form (c.unboundElement id receiver arguments) :=
  .bind fun receiver => salvageCall_adds (some receiver) rest

theorem anyAcceptsCount_iff (candidates : List SymbolId) (count : Nat) :
    c.anyAcceptsCount candidates count = true ↔
      candidates = [] ∨
        ∃ member ∈ candidates, c.program.symbols.acceptsCount member count = true := by
  simp [anyAcceptsCount]

section Early

variable (early : ¬c.program.HasLateTarget form)
include early

theorem not_late_of_resolved
    (resolved : c.program.resolutionOf id = some (.resolved member bindings)) :
    ¬c.program.IsLate id form := by
  rintro (target | ⟨candidates, left, _⟩)
  · exact early target
  · rw [resolved] at left
    cases left

theorem rest_of_failed {reason : FailureReason}
    (failed : c.program.resolutionOf id = some (.failed reason candidates)) :
    c.program.HasFate id form .rest := by
  simp [Program.HasFate, Program.IsLate, Program.IsLeftOpen, Program.IsResolved,
    Program.IsArrayElement, early, failed]

theorem rest_of_none (none : c.program.resolutionOf id = none)
    (other : ¬c.program.IsArrayElement id form) : c.program.HasFate id form .rest := by
  simp [Program.HasFate, Program.IsLate, Program.IsLeftOpen, Program.IsResolved, early, none, other]

/-- A choice that is left to run time is late unless the number of arguments rules out all
candidates. -/
theorem leftOpen_adds (left : c.program.resolutionOf id = some (.lateBound candidates))
    {whenLate whenNot : Lowering OperationId}
    (lateAdds : c.program.IsLate id form → c.AddsCall id form whenLate)
    (restAdds : c.program.HasFate id form .rest → c.AddsCall id form whenNot) :
    c.AddsCall id form
      (if c.anyAcceptsCount candidates form.arguments.length then whenLate else whenNot) := by
  have late : c.program.IsLate id form ↔
      c.anyAcceptsCount candidates form.arguments.length = true := by
    rw [anyAcceptsCount_iff, Program.IsLate, Program.IsLeftOpen, or_iff_right early, left]
    simp
  split
  · next accepted => exact lateAdds (late.mpr accepted)
  · next refused =>
    refine restAdds ⟨fun is => refused (late.mp is), ?_, ?_⟩
    · simp [Program.IsResolved, left]
    · simp [Program.IsArrayElement, left]

end Early

theorem not_isArrayElement_invocation :
    ¬c.program.IsArrayElement id (.invocation callee arguments) :=
  fun ⟨_, _, same, _⟩ => Form.noConfusion same

theorem invocation_adds (grows : WalkExtends c.walk) :
    c.AddsCall id (.invocation callee arguments) (c.invocation id callee arguments) := by
  unfold invocation
  split
  · next dynamic => exact lateBoundCall_adds (.inl (isDynamicCallee_iff.mp dynamic))
  · next other =>
    have early : ¬c.program.HasLateTarget (.invocation callee arguments) :=
      fun late => other (isDynamicCallee_iff.mpr late)
    cases found : c.program.resolutionOf id with
    | none => exact unboundCall_adds (rest_of_none early found not_isArrayElement_invocation)
    | some resolution =>
      cases resolution with
      | resolved member bindings =>
        exact .bind fun receiver => boundCall_adds grows (not_late_of_resolved early found) found
          (fun _ => origin_valued) (fun _ => by rw [kind_valued]; rfl)
          (fun _ => by rw [kind_valued]; rfl)
      | lateBound candidates => exact leftOpen_adds early found lateBoundCall_adds unboundCall_adds
      | failed reason candidates => exact unboundCall_adds (rest_of_failed early found)

theorem elementAccess_adds (grows : WalkExtends c.walk) :
    c.AddsCall id (.elementAccess receiver arguments) (c.elementAccess id receiver arguments) := by
  unfold elementAccess
  split
  · next dynamic => exact lateBoundElement_adds (.inl (isDynamic_iff.mp dynamic))
  · next other =>
    have early : ¬c.program.HasLateTarget (.elementAccess receiver arguments) :=
      fun late => other (isDynamic_iff.mpr late)
    cases found : c.program.resolutionOf id with
    | none =>
      dsimp only
      split
      · next array =>
        have element : c.program.IsArrayElement id (.elementAccess receiver arguments) :=
          ⟨receiver, arguments, rfl, found, early, isArray_iff.mp array⟩
        have fate : c.program.HasFate id (.elementAccess receiver arguments) .element := element
        exact .bind fun array => .bind fun indices => .emit origin_valued fun _ =>
          .of_unresolved element.not_resolved fate (by rw [kind_valued]; rfl)
      · next other =>
        refine unboundElement_adds (rest_of_none early found ?_)
        rintro ⟨_, _, same, _, _, array⟩
        obtain ⟨rfl, rfl⟩ := Form.elementAccess.inj same
        exact other (isArray_iff.mpr array)
    | some resolution =>
      cases resolution with
      | resolved member bindings =>
        exact .bind fun target => boundCall_adds grows (not_late_of_resolved early found) found
          (fun _ => origin_valued) (fun _ => by rw [kind_valued]; rfl)
          (fun _ => by rw [kind_valued]; rfl)
      | lateBound candidates =>
        exact leftOpen_adds early found lateBoundElement_adds unboundElement_adds
      | failed reason candidates => exact unboundElement_adds (rest_of_failed early found)

theorem objectCreation_adds (grows : WalkExtends c.walk) {type : TypeId} :
    c.AddsCall id (.objectCreation type arguments) (c.objectCreation id type arguments) := by
  have early : ¬c.program.HasLateTarget (.objectCreation type arguments) := fun none => none
  unfold objectCreation
  cases found : c.program.resolutionOf id with
  | none =>
    refine salvageCall_adds none (rest_of_none early found ?_)
    exact fun ⟨_, _, same, _⟩ => Form.noConfusion same
  | some resolution =>
    cases resolution with
    | resolved member bindings =>
      exact boundCall_adds grows (not_late_of_resolved early found) found
        (fun _ => by simp) (fun _ => by simp; rfl) (fun _ => by simp; rfl)
    | lateBound candidates =>
      exact leftOpen_adds early found lateBoundCreation_adds (salvageCall_adds none)
    | failed reason candidates => exact salvageCall_adds none (rest_of_failed early found)

theorem call_adds (grows : WalkExtends c.walk) (known : c.formOf id = some form)
    (call : form.IsCall) : c.AddsCall id form (c.expressionForm id (c.formOf id)) := by
  rw [known]
  cases form with
  | invocation callee arguments => exact invocation_adds grows
  | elementAccess receiver arguments => exact elementAccess_adds grows
  | objectCreation type arguments => exact objectCreation_adds grows
  | _ => exact call.elim

end Call

end Context

namespace Program

theorem CallBecomes.mono {p : Program} {s t : Store} {id : SyntaxId} {form : Form}
    {kind : OperationKind} (becomes : p.CallBecomes s id form kind) (older : s.Extends t) :
    p.CallBecomes t id form kind where
  fate := becomes.fate
  arguments := by
    intro member bindings resolved early
    obtain ⟨arguments, named, holds⟩ := becomes.arguments member bindings resolved early
    exact ⟨arguments, named, holds.mono older⟩

/-- A call that stands in the place of a statement is lowered as the expression that it is, and
kept in a placeholder. -/
theorem walk_statement_call (p : Program) (options : LoweringOptions) (depth : Nat) (scope : Scope)
    {id : SyntaxId} {form : Form} (known : p.formOf id = some form) (call : form.IsCall) :
    walk p options (depth + 1) scope .statement id =
      walk p options depth scope .expression id >>= fun own =>
        (p.contextAt options depth scope).invalidStatement id [own] := by
  let c : Context := p.contextAt options depth scope
  have lowers : walk p options (depth + 1) scope .statement id = c.statementForm id (some form) :=
    congrArg (c.statementForm id) known
  rw [lowers]
  cases form with
  | invocation | elementAccess | objectCreation => rfl
  | _ => exact call.elim

/-- What becomes of calls, element accesses and object creations above the depth limit, below the
conversions that their contexts require: wherever they are and whatever the facts are. Where a
statement is expected, what is lowered so becomes the only child of a placeholder. -/
theorem call_lowered (p : Program) (options : LoweringOptions) (depth : Nat) (scope : Scope)
    {id : SyntaxId} {form : Form} (known : p.formOf id = some form) (call : form.IsCall) :
    (∀ s, let lowered := (walk p options (depth + 1) scope .expression id).run s
      ∃ own o, (p.contextAt options depth scope).Converts lowered.2 id own lowered.1 ∧
        lowered.2.get? own = some o ∧ o.origin = id ∧
        p.CallBecomes lowered.2 id form o.kind) ∧
      walk p options (depth + 2) scope .statement id =
        walk p options (depth + 1) scope .expression id >>= fun own =>
          (p.contextAt options (depth + 1) scope).invalidStatement id [own] := by
  refine ⟨fun s => ?_, walk_statement_call p options (depth + 1) scope known call⟩
  let c : Context := p.contextAt options depth scope
  obtain ⟨older, converts⟩ := c.lowerExpression_converts id s
  have grows : WalkExtends c.walk := walk_extends p options depth
  obtain ⟨o, stored, origin, becomes⟩ := Context.call_adds (c := c) grows known call s
  exact ⟨_, o, converts, older _ o stored, origin, becomes.mono older⟩

/-- Two calls that the checking phase resolved: of a member of a variable known at run time only,
inside two pairs of parentheses, and of a method with an argument and a default. -/
def resolvedCalls : Program :=
  { empty "calls" with
    nodes := #[⟨.zero, .identifier "d"⟩, ⟨.zero, .memberAccess 0 "Run" []⟩,
      ⟨.zero, .parenthesized 1⟩, ⟨.zero, .parenthesized 2⟩, ⟨.zero, .literal "5"⟩,
      ⟨.zero, .invocation 3 [4]⟩, ⟨.zero, .identifier "Get"⟩, ⟨.zero, .invocation 6 [4]⟩]
    types := #[⟨"dynamic", .dynamic⟩]
    symbols := #[.plain "Get" .method none, .plain "first" .parameter none,
      { Symbol.plain "second" .parameter none with default := some (.int 3) }]
    facts := Std.TreeMap.ofList
      [(0, { Facts.unknown with type := some 0 }),
        (5, { Facts.unknown with resolution := some (.resolved 0 []) }),
        (7, { Facts.unknown with
          resolution := some (.resolved 0 [⟨2, .default, none⟩, ⟨1, .explicit, some 4⟩]) })] }

theorem resolvedCalls_lowered :
    resolvedCalls.formOf 5 = some (.invocation 3 [4]) ∧
      resolvedCalls.formOf 7 = some (.invocation 6 [4]) ∧
      (∃ own o, ((walk resolvedCalls {} 9 ⟨[], []⟩ .expression 5).run .empty).2.get? own = some o ∧
        Form.fate? (.invocation 3 [4]) o.kind = some .late) ∧
      ∃ own o arguments,
        ((walk resolvedCalls {} 9 ⟨[], []⟩ .expression 7).run .empty).2.get? own = some o ∧
        o.kind.bound? = some (0, arguments) ∧
        ((walk resolvedCalls {} 9 ⟨[], []⟩ .expression 7).run .empty).2.HoldsArguments
          [⟨2, .default, none⟩, ⟨1, .explicit, some 4⟩] arguments := by
  have lateForm : resolvedCalls.formOf 5 = some (.invocation 3 [4]) := rfl
  have boundForm : resolvedCalls.formOf 7 = some (.invocation 6 [4]) := rfl
  have resolved : resolvedCalls.resolutionOf 7 =
      some (.resolved 0 [⟨2, .default, none⟩, ⟨1, .explicit, some 4⟩]) := rfl
  let c : Context := resolvedCalls.contextAt {} 8 ⟨[], []⟩
  have dynamic (callee : SyntaxId) :
      c.isDynamicCallee 8 callee = true ↔ resolvedCalls.IsLateCallee callee :=
    Context.isDynamicCallee_iff
  have late : resolvedCalls.IsLate 5 (.invocation 3 [4]) := .inl ((dynamic 3).mp (by decide))
  have early : ¬resolvedCalls.IsLate 7 (.invocation 6 [4]) :=
    Context.not_late_of_resolved (c := c)
      (fun target => absurd ((dynamic 6).mpr target) (by decide)) resolved
  refine ⟨lateForm, boundForm, ?_, ?_⟩
  · obtain ⟨own, o, _, stored, _, becomes⟩ :=
      (call_lowered resolvedCalls {} 8 ⟨[], []⟩ lateForm trivial).1 .empty
    exact ⟨own, o, stored, (becomes.fate .late).mpr late⟩
  · obtain ⟨own, o, _, stored, _, becomes⟩ :=
      (call_lowered resolvedCalls {} 8 ⟨[], []⟩ boundForm trivial).1 .empty
    obtain ⟨arguments, named, holds⟩ := becomes.arguments 0 _ resolved early
    exact ⟨own, o, arguments, stored, named, holds⟩

end Program

end SemanticTrees
