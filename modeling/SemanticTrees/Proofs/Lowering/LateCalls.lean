import SemanticTrees.Proofs.Lowering.DepthLimits
import SemanticTrees.Proofs.Lowering.Keeping
import SemanticTrees.Proofs.Operation.Arguments

/-! Calls that are left to run time, wherever they are in a tree. Each was made at a visit of its
node. It has one child for each argument that is written, which is what the walk made of the
argument, and what is read back for an argument is what is written on it. -/
namespace SemanticTrees

open Lowering

namespace Program

/-- The name and the way of passing that are written on an argument. A bare expression has no name
and is passed by value. -/
def writtenOn (p : Program) (id : SyntaxId) : Option String × Passing :=
  match p.formOf id with
  | some (.argument name passing _) => (name, passing)
  | _ => (none, .byValue)

/-- What is read back from an access for its arguments is what is written on them. -/
structure ReadsBack (p : Program) (written : List SyntaxId) (access : DynamicAccess) : Prop where
  count : access.arguments.length = written.length
  read : ∀ i argument, written[i]? = some argument →
    (access.argumentName i, access.argumentPassing i) = p.writtenOn argument
  unnamed : access.names = [] ↔ ∀ argument ∈ written, (p.writtenOn argument).1 = none
  named : access.names ≠ [] → access.names.length = written.length
  byValue : access.passings = [] ↔ ∀ argument ∈ written, (p.writtenOn argument).2 = .byValue
  passed : access.passings ≠ [] → access.passings.length = written.length

/-- What is given for an argument: what a visit of it made, with what is written on it. -/
structure GivenFor (p : Program) (options : LoweringOptions) (root : SyntaxId) (depth : Nat)
    (way : Way) (argument : SyntaxId) (given : DynamicArgument) : Prop where
  visited : p.Visits options root ⟨depth, way, .expression, argument⟩
  lowered : p.Computes options root depth way argument given.value
  written : (given.name, given.passing) = p.writtenOn argument

/-- An operation was made for a call that is left to run time, at a visit of its node and behind its
arguments. -/
structure LeftOpen (p : Program) (options : LoweringOptions) (root : SyntaxId) (o : Operation)
    (depth : Nat) (way : Way) (form : Form) (given : List DynamicArgument) : Prop where
  visited : p.Visits options root ⟨depth + 1, way, .expression, o.origin⟩
  known : p.formOf o.origin = some form
  shown : form.fate? o.kind = some .late
  access : ∃ base, o.kind.lateCall? = some (DynamicAccess.withArguments base given)
  arguments : List.Forall₂ (p.GivenFor options root depth (.plain :: way)) form.arguments given

/-- Every call of a store that is left to run time was made at a visit. -/
def Accounts (p : Program) (options : LoweringOptions) (root : SyntaxId) (s : Store) : Prop :=
  ∀ i o, s.get? i = some o → o.kind.lateCall? ≠ none →
    ∃ depth way form given, p.LeftOpen options root o depth way form given

end Program

namespace Context

/-- The surroundings of a node where the walk does nothing but lower listed parts. -/
def only (c : Context) (parts : List Part) : Context :=
  { c with
    walk := fun scope role id =>
      if ∃ part ∈ parts, part.passage.scope c.program c.scope = scope ∧ part.role = role ∧
          part.node = id then
        c.walk scope role id
      else pure 0 }

theorem writtenOn_eq (c : Context) (id : SyntaxId) :
    ((c.writtenArgument id).1, (c.writtenArgument id).2.1) = c.program.writtenOn id := by
  unfold writtenArgument Program.writtenOn
  rw [show c.formOf id = c.program.formOf id from rfl]
  cases c.program.formOf id with
  | none => rfl
  | some form => cases form <;> rfl

variable {c : Context} {parts : List Part}

theorem only_run {part : Part} (listed : part ∈ parts) : (c.only parts).run part = c.run part :=
  if_pos ⟨part, listed, rfl, rfl, rfl⟩

theorem parts_only (c : Context) (parts : List Part) (inSwitch : Bool) (role : Role)
    (id : SyntaxId) :
    (c.only parts).parts inSwitch role id = c.parts inSwitch role id :=
  parts_congr (by rfl) inSwitch role id

theorem keeps_only {I : Store → Prop} (keeps : ∀ part ∈ parts, Keeps I (c.run part))
    (scope : Scope) (role : Role) (id : SyntaxId) :
    Keeps I ((c.only parts).walk scope role id) := by
  unfold only
  dsimp only
  split
  · next found =>
    obtain ⟨part, listed, rfl, rfl, rfl⟩ := found
    exact keeps part listed
  · exact .pure 0

end Context

namespace Program

variable {p : Program} {options : LoweringOptions} {root : SyntaxId}

/-! ### Parts -/

theorem only_coupled {K : Coupling .identity} (depth : Nat) (scope : Scope) (parts : List Part) :
    let c := p.contextAt options depth scope
    Context.Coupled K c (c.only parts) parts parts := by
  intro c part _ part' listed alike w
  rw [Context.only_run listed]
  exact run_couples_self depth alike

/-- Lowering a node runs the walk on its parts alone. -/
theorem run_succ_only (depth : Nat) (scope : Scope) (role : Role) (id : SyntaxId) (s : Store) :
    let c := p.contextAt options depth scope
    let c' := c.only (c.parts scope.innermostSwitch.isSome role id)
    (walk p options (depth + 1) scope role id).run s =
      (match role with
        | .expression => c'.lowerExpression id
        | .statement => c'.lowerStatement id).run s := by
  intro c c'
  have translates : c.Translates .identity c' := ⟨p.translates_refl, rfl, rfl⟩
  have calls : Context.Coupled .lockstep c c' (c.parts scope.innermostSwitch.isSome role id)
      (c'.parts scope.innermostSwitch.isSome role id) := by
    rw [Context.parts_only]
    exact only_coupled depth scope _
  cases role with
  | expression =>
    obtain ⟨_, stores, results⟩ :=
      Context.lowerExpression_couples (w := ⟨s, s⟩) translates calls rfl ⟨s, s⟩ (.refl _) rfl
    exact Prod.ext results stores
  | statement =>
    obtain ⟨_, stores, results⟩ := Context.lowerStatement_couples (w := ⟨s, s⟩) translates
      scope.alike_refl calls rfl ⟨s, s⟩ (.refl _) rfl
    exact Prod.ext results stores

theorem lowerRoot_only (s : Store) :
    let c := p.rootContext options root
    (c.lowerRoot root).run s = ((c.only (c.rootParts root)).lowerRoot root).run s := by
  intro c
  have translates : c.Translates .identity (c.only (c.rootParts root)) :=
    ⟨p.translates_refl, rfl, rfl⟩
  obtain ⟨_, stores, results⟩ := Context.lowerRoot_couples (K := .lockstep) (w := ⟨s, s⟩) translates
    (only_coupled options.maxDepth (p.rootScope root) (c.rootParts root)) (Scope.alike_refl _) rfl
    ⟨s, s⟩ (.refl _) rfl
  refine Prod.ext ?_ stores
  generalize ((c.lowerRoot root).run s).1 = a at results ⊢
  generalize (((c.only (c.rootParts root)).lowerRoot root).run s).1 = b at results ⊢
  cases results with
  | none => rfl
  | some same => exact congrArg some same

/-! ### Stores -/

/-- Every call of a store that is left to run time is accounted for, if the store is one on the way
to that of the root. -/
def Accounting (p : Program) (options : LoweringOptions) (root : SyntaxId) (s : Store) : Prop :=
  s.Extends (p.rootStore options root) → p.Accounts options root s

theorem Accounting.add {s : Store} {o : Operation} (older : p.Accounting options root s)
    (newest : (s.add o).Extends (p.rootStore options root) → o.kind.lateCall? ≠ none →
      ∃ depth way form given, p.LeftOpen options root o depth way form given) :
    p.Accounting options root (s.add o) := by
  intro kept
  have before : s.Extends (p.rootStore options root) := (s.extends_add o).trans kept
  exact Store.forall_add (newest kept) (older before)

section Calls

variable {depth : Nat} {way : Way}

/-- What is given for an argument is what the walk makes of it, with what is written on it. -/
theorem lateBoundArgument_gives {parts : List Part} {argument : SyntaxId}
    (listed : Part.expression argument ∈ parts)
    (visited : p.Visits options root ⟨depth, .plain :: way, .expression, argument⟩) :
    Gives (p.rootStore options root)
      (((p.behind options root depth way).only parts).lateBoundArgument argument)
      (p.GivenFor options root depth (.plain :: way) argument) := by
  let c : Context := p.behind options root depth way
  have same : (c.only parts).expression argument = c.expression argument := Context.only_run listed
  have lowers : Gives (p.rootStore options root) (c.expression argument)
      (p.Computes options root depth (.plain :: way) argument) :=
    computes_gives depth (.plain :: way) argument
  have written := (c.only parts).writtenOn_eq argument
  unfold Context.lateBoundArgument
  generalize (c.only parts).writtenArgument argument = entry at written ⊢
  obtain ⟨name, passing, inner⟩ := entry
  rw [same]
  exact .bind lowers fun i => .pure fun computes => ⟨visited, computes, written⟩

/-- A call that is left to run time is accounted for by the visit during which it is added. -/
theorem accounting_keepsOpen {id : SyntaxId}
    (visited : p.Visits options root ⟨depth + 1, way, .expression, id⟩) :
    let c := p.behind options root depth way
    (c.only (c.expressionParts id (c.formOf id))).KeepsOpen (p.Accounting options root) id := by
  intro c form base s o leaves behind older
  have parts : (p.rootContext options root).parts way.sections?.isSome .expression id =
      c.expressionParts id (c.formOf id) := Context.parts_congr (by rfl) _ .expression id
  have own : (c.only (c.expressionParts id (c.formOf id))).expressionParts id (c.formOf id) =
      c.expressionParts id (c.formOf id) := c.parts_only _ false .expression id
  have listed (argument : SyntaxId) (inside : argument ∈ form.arguments) :
      Part.expression argument ∈ c.expressionParts id (c.formOf id) := by
    rw [← own]
    exact leaves.listed (List.mem_map_of_mem inside)
  have gives (argument : SyntaxId) (inside : argument ∈ form.arguments) :=
    lateBoundArgument_gives (listed argument inside)
      (.part visited (by rw [parts]; exact listed argument inside))
  refine older.add fun kept _ => ?_
  have given := (Gives.mapM gives).result s ((behind.extends_add o).trans kept)
  obtain rfl := leaves.origin
  exact ⟨depth, way, form, _, visited, leaves.known, leaves.shown, ⟨base, leaves.access⟩, given⟩

theorem accounting_indifferent {c : Context}
    (walks : ∀ scope role id, Keeps (p.Accounting options root) (c.walk scope role id)) :
    c.Indifferent (p.Accounting options root) where
  adds _ _ early older := older.add fun _ late => absurd early late
  associates _ _ _ older kept := older kept
  walks := walks

end Calls

/-- The walk accounts for the calls that it adds, wherever it comes to. -/
theorem run_keeps_accounting (depth : Nat) : ∀ call, p.Visited options root depth call →
    Keeps (p.Accounting options root) (p.run options depth call) := by
  induction depth with
  | zero =>
    rintro ⟨scope, role, id⟩ _
    have h : Context.Indifferent ⟨p, options, scope, fun _ _ _ => pure 0⟩
        (p.Accounting options root) := accounting_indifferent fun _ _ _ => .pure 0
    cases role with
    | expression => exact h.invalidExpression id []
    | statement => exact h.invalidStatement id []
  | succ depth ih =>
    rintro ⟨scope, role, id⟩ visited s kept
    let c := p.contextAt options depth scope
    have h : (c.only (c.parts scope.innermostSwitch.isSome role id)).Indifferent
        (p.Accounting options root) :=
      accounting_indifferent (Context.keeps_only fun part listed =>
        ih (c.call part) (visited.down (List.mem_map_of_mem listed)))
    unfold run
    rw [run_succ_only]
    cases role with
    | statement => exact h.lowerStatement id s kept
    | expression =>
      obtain ⟨way, visit, rfl⟩ := visited
      exact h.lowerExpression (accounting_keepsOpen visit) s kept

/-- All calls of the store of a root that are left to run time are accounted for. -/
theorem rootStore_accounts (p : Program) (options : LoweringOptions) (root : SyntaxId) :
    p.Accounts options root (p.rootStore options root) := by
  let c := p.rootContext options root
  have h : (c.only (c.rootParts root)).Indifferent (p.Accounting options root) :=
    accounting_indifferent (Context.keeps_only fun part listed =>
      run_keeps_accounting options.maxDepth (c.call part) (visited_of_root listed))
  have kept := h.lowerRoot root .empty fun _ i o found => nomatch found
  rw [← lowerRoot_only] at kept
  exact kept (.refl _)

/-! ### Trees -/

theorem lateCall?_mapChildren (f : OperationId → OperationId) (kind : OperationKind) :
    (kind.mapChildren f).lateCall? = kind.lateCall?.map (DynamicAccess.mapChildren f) := by
  cases kind <;> rfl

theorem fate?_mapChildren (f : OperationId → OperationId) {form : Form} {kind : OperationKind}
    (late : form.fate? kind = some .late) : form.fate? (kind.mapChildren f) = some .late := by
  unfold Form.fate? at late
  split at late <;> first | rfl | contradiction

/-- What was given for the arguments is read back. -/
theorem readsBack_withArguments {depth : Nat} {way : Way} {written : List SyntaxId}
    {given : List DynamicArgument} (base : DynamicAccess)
    (each : List.Forall₂ (p.GivenFor options root depth way) written given) :
    p.ReadsBack written (base.withArguments given) := by
  let entry (g : DynamicArgument) : Option String × Passing := (g.name, g.passing)
  have entries : given.map entry = written.map p.writtenOn := by
    induction each with
    | nil => rfl
    | cons first _ ih => rw [List.map_cons, List.map_cons, ih, ← first.written]
  have length : given.length = written.length := each.length_eq.symm
  have all (P : Option String × Passing → Prop) :
      (∀ g ∈ given, P (entry g)) ↔ ∀ argument ∈ written, P (p.writtenOn argument) := by
    rw [← List.forall_mem_map, entries, List.forall_mem_map]
  refine ⟨?_, ?_, ?_, ?_, ?_, ?_⟩
  · exact (List.length_map _).trans length
  · intro i argument found
    have same : given[i]?.map entry = some (p.writtenOn argument) := by
      rw [← List.getElem?_map, entries, List.getElem?_map, found, Option.map_some]
    obtain ⟨g, inside, reads⟩ := Option.map_eq_some_iff.mp same
    rw [base.argumentName_withArguments, base.argumentPassing_withArguments, inside]
    exact reads
  · exact (base.names_withArguments_eq_nil_iff given).trans (all fun entry => entry.1 = none)
  · exact fun kept => (base.length_names_withArguments given kept).trans length
  · exact (base.passings_withArguments_eq_nil_iff given).trans (all fun entry => entry.2 = .byValue)
  · exact fun kept => (base.length_passings_withArguments given kept).trans length

/-- Names and ways of passing are in step with the arguments. -/
theorem ReadsBack.isConsistent {written : List SyntaxId} {access : DynamicAccess}
    (reads : p.ReadsBack written access) : access.isConsistent = true := by
  have inStep {α : Type} {l : List α} (full : l ≠ [] → l.length = written.length) :
      (l.isEmpty || l.length == access.arguments.length) = true := by
    rw [reads.count, Bool.or_eq_true, List.isEmpty_iff, beq_iff_eq]
    exact or_iff_not_imp_left.mpr full
  exact Bool.and_eq_true_iff.mpr ⟨inStep reads.named, inStep reads.passed⟩

theorem ReadsBack.mapChildren {written : List SyntaxId} {access : DynamicAccess}
    (reads : p.ReadsBack written access) (f : OperationId → OperationId) :
    p.ReadsBack written (access.mapChildren f) where
  count := (List.length_map f).trans reads.count
  read := reads.read
  unnamed := reads.unnamed
  named := reads.named
  byValue := reads.byValue
  passed := reads.passed

/-- In every tree, a call, an element access or an object creation that is left to run time was made
at a visit of a node of its form. It has one child for each argument that is written: what a visit
of the argument made, in the place that it has in the tree. What is read back for an argument is
what is written on it, and what is left out is just what is never written. -/
theorem lateCall_arguments {t : OperationTree} (built : p.tree? options root = some t) :
    ∃ top place, (p.rootStore options root).Compacts top t place ∧
      ∀ j o access, t.get? j = some o → o.kind.lateCall? = some access →
        ∃ depth way form, p.Visits options root ⟨depth + 1, way, .expression, o.origin⟩ ∧
          p.formOf o.origin = some form ∧ form.fate? o.kind = some .late ∧
          List.Forall₂
            (fun argument child =>
              p.Visits options root ⟨depth, .plain :: way, .expression, argument⟩ ∧
              ∃ i, p.Computes options root depth (.plain :: way) argument i ∧ child = place i)
            form.arguments access.arguments ∧
          p.ReadsBack form.arguments access := by
  obtain ⟨top, s, run, rfl⟩ := tree?_eq_some built
  have store : s = p.rootStore options root := (congrArg Prod.snd run).symm
  obtain ⟨place, compacts⟩ := s.finish_compacts p top
  refine ⟨top, place, store ▸ compacts, fun j o access found late => ?_⟩
  obtain ⟨i, o, _, rfl, stored, rfl⟩ := compacts.exists_origin found
  have renumbered : o.kind.lateCall?.map (DynamicAccess.mapChildren place) = some access :=
    (lateCall?_mapChildren place o.kind).symm.trans late
  obtain ⟨access, own, rfl⟩ := Option.map_eq_some_iff.mp renumbered
  obtain ⟨depth, way, form, given, left⟩ := rootStore_accounts p options root i o (store ▸ stored)
    (by rw [own]; exact Option.some_ne_none _)
  obtain ⟨base, made⟩ := left.access
  obtain rfl := Option.some.inj (own.symm.trans made)
  refine ⟨depth, way, form, left.visited, left.known, fate?_mapChildren place left.shown, ?_, ?_⟩
  · refine List.forall₂_map_right_iff.mpr (List.forall₂_map_right_iff.mpr ?_)
    exact left.arguments.imp fun _ g given => ⟨given.visited, g.value, given.lowered, rfl⟩
  · exact (readsBack_withArguments base left.arguments).mapChildren place

/-- A call of a member of a variable known at run time only, with a bare expression, an argument
with a name, and one that is passed outward. -/
def mixedArguments : Program :=
  { empty "mixed" with
    nodes := #[⟨.zero, .identifier "d"⟩, ⟨.zero, .memberAccess 0 "Run" []⟩, ⟨.zero, .literal "1"⟩,
      ⟨.zero, .literal "2"⟩, ⟨.zero, .argument (some "n") .byValue 3⟩, ⟨.zero, .literal "3"⟩,
      ⟨.zero, .argument none .outward 5⟩, ⟨.zero, .invocation 1 [2, 4, 6]⟩]
    types := #[⟨"dynamic", .dynamic⟩]
    symbols := #[.plain "d" .localVariable (some 0)]
    facts := Std.TreeMap.empty.insert 0 { Facts.unknown with type := some 0, symbol := some 0 } }

theorem mixedArguments_readBack :
    let access := { DynamicAccess.unknown with
      receiver := some 1, arguments := [2, 3, 4], names := [none, some "n", none],
      passings := [.byValue, .byValue, .outward] }
    ∃ t o, mixedArguments.tree? {} 7 = some t ∧ t.get? 5 = some o ∧
      o.kind = .dynamicInvocation access ∧ mixedArguments.ReadsBack [2, 4, 6] access := by
  intro access
  have made : ((mixedArguments.tree? {} 7).bind fun t => (t.get? 5).map fun o =>
      (o.kind, o.origin)) = some (.dynamicInvocation access, 7) := by decide +kernel
  obtain ⟨t, built, inTree⟩ := Option.bind_eq_some_iff.mp made
  obtain ⟨o, found, same⟩ := Option.map_eq_some_iff.mp inTree
  obtain ⟨kind, origin⟩ := Prod.mk.inj same
  obtain ⟨_, _, _, holds⟩ := lateCall_arguments built
  obtain ⟨_, _, form, _, known, _, _, reads⟩ := holds 5 o access found (by rw [kind]; rfl)
  rw [origin] at known
  obtain rfl : Form.invocation 1 [2, 4, 6] = form := Option.some.inj known
  exact ⟨t, o, built, found, kind, reads⟩

end Program

end SemanticTrees
