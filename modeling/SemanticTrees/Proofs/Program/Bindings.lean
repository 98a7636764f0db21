import SemanticTrees.Program.Binding
import SemanticTrees.Proofs.Program.Translation
import Mathlib.Data.List.Nodup
import Mathlib.Data.List.Perm.Subperm
import Mathlib.Data.Option.Basic

/-! Bindings of calls. What the parameters of a member receive is told parameter by parameter:
without names the arguments are dealt out in order, and what is left goes to the parameter that
collects. So the count of the arguments decides whether a call is complete. With names, an argument
reaches the parameter of its name, whatever stands around it, unless this parameter collects. -/
namespace SemanticTrees

theorem Symbol.not_isCollecting {parameter : Symbol} (required : parameter.isRequired = true) :
    parameter.isCollecting = false := by
  simp only [isRequired, Bool.and_eq_true, Bool.not_eq_true'] at required
  exact required.2

/-- The arguments that bindings give to parameters, in order. -/
def boundArguments (bindings : List Binding) : List SyntaxId := bindings.filterMap Binding.argument

/-- The parameters that receive an argument of their own, in the order of the bindings. -/
def explicitParameters (bindings : List Binding) : List SymbolId :=
  (bindings.filter fun binding => binding.kind == .explicit && binding.argument.isSome).map
    Binding.parameter

section Lists

variable {bindings more : List Binding} {ids : List SymbolId} {arguments : List SyntaxId}
  {id : SymbolId}

@[simp] theorem boundArguments_nil : boundArguments [] = [] := rfl

@[simp] theorem boundArguments_append :
    boundArguments (bindings ++ more) = boundArguments bindings ++ boundArguments more :=
  List.filterMap_append

@[simp] theorem boundArguments_cons (binding : Binding) :
    boundArguments (binding :: bindings) = binding.argument.toList ++ boundArguments bindings := by
  rw [boundArguments, List.filterMap_cons]
  cases binding.argument <;> rfl

@[simp] theorem explicitParameters_nil : explicitParameters [] = [] := rfl

@[simp] theorem explicitParameters_append :
    explicitParameters (bindings ++ more) =
      explicitParameters bindings ++ explicitParameters more := by
  simp [explicitParameters]

/-- Arguments that are dealt out reach as many parameters as there are. -/
def dealt (ids : List SymbolId) (arguments : List SyntaxId) : List Binding :=
  List.zipWith (fun id argument => ⟨id, .explicit, some argument⟩) ids arguments

@[simp] theorem boundArguments_dealt :
    boundArguments (dealt ids arguments) = arguments.take ids.length := by
  induction ids generalizing arguments with
  | nil => rfl
  | cons id ids ih =>
    cases arguments with
    | nil => rfl
    | cons argument arguments => exact congrArg (argument :: ·) ih

@[simp] theorem explicitParameters_dealt :
    explicitParameters (dealt ids arguments) = ids.take arguments.length := by
  induction ids generalizing arguments with
  | nil => simp [dealt]
  | cons id ids ih =>
    cases arguments with
    | nil => rfl
    | cons argument arguments => exact congrArg (id :: ·) ih

/-- All that is left goes to one parameter. -/
def collected (id : SymbolId) (arguments : List SyntaxId) : List Binding :=
  arguments.map fun argument => ⟨id, .collected, some argument⟩

@[simp] theorem boundArguments_collected : boundArguments (collected id arguments) = arguments := by
  simp [boundArguments, collected]

@[simp] theorem explicitParameters_collected :
    explicitParameters (collected id arguments) = [] := by
  simp [explicitParameters, collected]

end Lists

namespace Program

variable {p : Program} {member id : SymbolId} {symbol parameter : Symbol}
  {arguments unnamed : List SyntaxId} {ids rest : List SymbolId}

/-- The binding of a parameter that is left out, if it has a default. -/
def defaulted? (p : Program) (id : SymbolId) : Option Binding :=
  if (p.symbols[id]?.bind Symbol.default).isSome then some ⟨id, .default, none⟩ else none

/-- A parameter is known, and it takes one argument. -/
def IsPlain (p : Program) (id : SymbolId) : Prop :=
  ∃ parameter, p.symbols[id]? = some parameter ∧ parameter.isCollecting = false

@[simp] theorem boundArguments_defaulted :
    boundArguments (ids.filterMap p.defaulted?) = [] := by
  have none (id : SymbolId) : (p.defaulted? id).bind Binding.argument = none := by
    unfold defaulted?
    split <;> rfl
  rw [boundArguments, List.filterMap_filterMap]
  exact List.filterMap_eq_nil_iff.mpr fun id _ => none id

@[simp] theorem explicitParameters_defaulted :
    explicitParameters (ids.filterMap p.defaulted?) = [] := by
  rw [explicitParameters, List.filter_eq_nil_iff.mpr, List.map_nil]
  intro binding listed
  obtain ⟨id, _, given⟩ := List.mem_filterMap.mp listed
  unfold defaulted? at given
  split at given
  · obtain rfl := Option.some.inj given
    simp
  · contradiction

/-- A parameter that is not known receives nothing. -/
theorem bindParameters_known :
    p.bindParameters arguments ids unnamed =
      p.bindParameters arguments (ids.filter fun id => p.symbols[id]?.isSome) unnamed := by
  fun_induction bindParameters p arguments ids unnamed with
  | case1 => rfl
  | case2 id rest unnamed missing ih => simpa [missing] using ih
  | case3 id rest unnamed parameter found collecting ih =>
    simp [bindParameters, found, collecting, ih]
  | case4 id rest parameter found plain argument unnamed named ih =>
    simp [bindParameters, found, plain, named, ih]
  | case5 id rest parameter found plain argument unnamed named ih =>
    simp [bindParameters, found, plain, named, ih]
  | case6 id rest parameter found plain named default ih =>
    simp [bindParameters, found, plain, named, default, ih]
  | case7 id rest parameter found plain named required ih =>
    simp [bindParameters, found, plain, named, required, ih]

/-! ### Arguments without names -/

theorem namedArgument?_eq_none (positional : ∀ argument ∈ arguments, p.argumentName argument = none)
    (name : String) : p.namedArgument? arguments name = none := by
  refine List.find?_eq_none.mpr fun argument listed => ?_
  simp [positional argument listed]

/-- Plain parameters are dealt the arguments in order; those that come off badly have their
defaults. -/
theorem bindParameters_plain (nameless : ∀ name, p.namedArgument? arguments name = none)
    (plain : ∀ id ∈ ids, p.IsPlain id) :
    p.bindParameters arguments (ids ++ rest) unnamed =
      dealt ids unnamed ++ (ids.drop unnamed.length).filterMap p.defaulted? ++
        p.bindParameters arguments rest (unnamed.drop ids.length) := by
  induction ids generalizing unnamed with
  | nil => simp [dealt]
  | cons id ids ih =>
    obtain ⟨⟨parameter, found, single⟩, plain⟩ := List.forall_mem_cons.mp plain
    rw [List.cons_append, bindParameters, found]
    cases unnamed with
    | cons argument unnamed =>
      simp [single, nameless, dealt, ih plain]
    | nil =>
      have own : p.defaulted? id =
          if parameter.default.isSome then some ⟨id, .default, none⟩ else none := by
        simp [defaulted?, found]
      have remaining := @ih [] plain
      cases default : parameter.default.isSome with
      | false => simpa [single, nameless, dealt, own, default] using remaining
      | true => simpa [single, nameless, dealt, own, default] using remaining

theorem bindParameters_collecting (found : p.symbols[id]? = some parameter)
    (collecting : parameter.isCollecting = true) :
    p.bindParameters arguments [id] unnamed = collected id unnamed := by
  simp [bindParameters, found, collecting, collected]

/-! ### Counting -/

/-- The known parameters of a member, apart: required ones, optional ones behind them, and behind
these at most one that collects. -/
structure InOrder (p : Program) (symbol : Symbol) (required optional collecting : List SymbolId) :
    Prop where
  known : (symbol.parameters.filter fun id => p.symbols[id]?.isSome) =
    required ++ optional ++ collecting
  single : collecting.length ≤ 1
  required : ∀ id ∈ required, ∃ parameter, p.symbols[id]? = some parameter ∧
    parameter.isRequired = true
  optional : ∀ id ∈ optional, ∃ parameter, p.symbols[id]? = some parameter ∧
    parameter.isCollecting = false ∧ parameter.default.isSome = true
  collecting : ∀ id ∈ collecting, ∃ parameter, p.symbols[id]? = some parameter ∧
    parameter.isCollecting = true

/-- What known identifiers stand for. -/
theorem exists_symbols {P : Symbol → Prop}
    (known : ∀ id ∈ ids, ∃ parameter, p.symbols[id]? = some parameter ∧ P parameter) :
    ∃ infos, (ids.filterMap fun id => p.symbols[id]?) = infos ∧ infos.length = ids.length ∧
      ∀ info ∈ infos, P info := by
  induction ids with
  | nil => exact ⟨[], rfl, rfl, fun _ listed => nomatch listed⟩
  | cons id ids ih =>
    obtain ⟨⟨parameter, found, own⟩, known⟩ := List.forall_mem_cons.mp known
    obtain ⟨infos, rfl, length, each⟩ := ih known
    refine ⟨_, List.filterMap_cons_some found, congrArg (· + 1) length, ?_⟩
    exact List.forall_mem_cons.mpr ⟨own, each⟩

theorem getLast?_of_plain {infos : List Symbol}
    (plain : ∀ info ∈ infos, info.isCollecting = false) :
    infos.getLast?.any Symbol.isCollecting = false := by
  cases found : infos.getLast? with
  | none => rfl
  | some info => exact plain info (List.mem_of_getLast? found)

theorem getLast?_of_collecting {infos : List Symbol} (some : infos ≠ [])
    (collecting : ∀ info ∈ infos, info.isCollecting = true) :
    infos.getLast?.any Symbol.isCollecting = true := by
  rw [List.getLast?_eq_some_getLast some, Option.any_some]
  exact collecting _ (List.getLast_mem some)

namespace InOrder

variable {required optional collecting : List SymbolId}
  (order : p.InOrder symbol required optional collecting)
include order

theorem plain : ∀ id ∈ required ++ optional, p.IsPlain id := by
  intro id listed
  obtain first | second := List.mem_append.mp listed
  · obtain ⟨parameter, found, needed⟩ := order.required id first
    exact ⟨parameter, found, Symbol.not_isCollecting needed⟩
  · obtain ⟨parameter, found, single, _⟩ := order.optional id second
    exact ⟨parameter, found, single⟩

/-- The count must cover the required parameters, and only one that collects takes more arguments
than there are parameters. -/
theorem acceptsCount_iff (found : p.symbols[member]? = some symbol) (count : Nat) :
    p.symbols.acceptsCount member count = true ↔
      required.length ≤ count ∧
        (collecting ≠ [] ∨ count ≤ (required ++ optional).length) := by
  obtain ⟨needed, first, length, eachNeeded⟩ := exists_symbols order.required
  obtain ⟨others, second, length', eachOther⟩ := exists_symbols order.optional
  obtain ⟨last, third, length'', eachLast⟩ := exists_symbols order.collecting
  have parameters : p.symbols.parametersOf symbol = needed ++ others ++ last := by
    have lookup : (symbol.parameters.filter fun id => p.symbols[id]?.isSome).filterMap
        (fun id => p.symbols[id]?) = symbol.parameters.filterMap fun id => p.symbols[id]? := by
      rw [List.filterMap_filter]
      refine List.filterMap_congr fun id _ => ?_
      cases p.symbols[id]? <;> rfl
    rw [SymbolTable.parametersOf, ← lookup, order.known, List.filterMap_append,
      List.filterMap_append, first, second, third]
  have requirements : (needed ++ others ++ last).countP Symbol.isRequired = required.length := by
    have none : others.countP Symbol.isRequired = 0 :=
      List.countP_eq_zero.mpr fun info listed => by
        simp [Symbol.isRequired, Option.isSome_iff_ne_none.mp (eachOther info listed).2]
    have none' : last.countP Symbol.isRequired = 0 :=
      List.countP_eq_zero.mpr fun info listed => by simp [Symbol.isRequired, eachLast info listed]
    rw [List.countP_append, List.countP_append, none, none',
      List.countP_eq_length.mpr eachNeeded, length]
    rfl
  have plain : ∀ info ∈ needed ++ others, info.isCollecting = false := by
    intro info listed
    obtain early | late := List.mem_append.mp listed
    · exact Symbol.not_isCollecting (eachNeeded info early)
    · exact (eachOther info late).1
  have total : (needed ++ others).length = (required ++ optional).length := by
    rw [List.length_append, List.length_append, length, length']
  rw [SymbolTable.acceptsCount, found]
  simp only [parameters, requirements, Bool.and_eq_true, Bool.or_eq_true, decide_eq_true_eq]
  refine and_congr_right fun _ => ?_
  by_cases none : last = []
  · subst none
    have empty : collecting = [] := List.eq_nil_of_length_eq_zero length''.symm
    rw [List.append_nil, getLast?_of_plain plain, empty, total]
    simp
  · have some : collecting ≠ [] := by
      rintro rfl
      exact none (List.eq_nil_of_length_eq_zero length'')
    rw [List.getLast?_append_of_ne_nil _ none, getLast?_of_collecting none eachLast]
    simp [some]

/-- Without names, the arguments are dealt out to all parameters but the one that collects, which
takes what is left. -/
theorem bindArguments_eq (found : p.symbols[member]? = some symbol)
    (positional : ∀ argument ∈ arguments, p.argumentName argument = none) :
    p.bindArguments member arguments =
      dealt (required ++ optional) arguments ++
        ((required ++ optional).drop arguments.length).filterMap p.defaulted? ++
          collecting.flatMap
            (collected · (arguments.drop (required ++ optional).length)) := by
  have unnamed : (arguments.filter fun argument => (p.argumentName argument).isNone) = arguments :=
    List.filter_eq_self.mpr fun argument listed => by simp [positional argument listed]
  rw [bindArguments, found]
  simp only [unnamed]
  rw [bindParameters_known, order.known,
    bindParameters_plain (namedArgument?_eq_none positional) order.plain]
  rw [List.append_cancel_left_eq]
  match collecting, order.single, order.collecting with
  | [], _, _ => rfl
  | [id], _, each =>
    obtain ⟨parameter, found, collects⟩ := each id List.mem_cons_self
    rw [bindParameters_collecting found collects, List.flatMap_singleton]

theorem boundArguments_eq (found : p.symbols[member]? = some symbol)
    (positional : ∀ argument ∈ arguments, p.argumentName argument = none) :
    boundArguments (p.bindArguments member arguments) =
      if collecting = [] then arguments.take (required ++ optional).length else arguments := by
  rw [order.bindArguments_eq found positional, boundArguments_append, boundArguments_append,
    boundArguments_dealt, boundArguments_defaulted, List.append_nil]
  match collecting, order.single with
  | [], _ => simp
  | [id], _ =>
    rw [List.flatMap_singleton, boundArguments_collected, List.take_append_drop,
      if_neg (List.cons_ne_nil _ _)]

theorem explicitParameters_eq (found : p.symbols[member]? = some symbol)
    (positional : ∀ argument ∈ arguments, p.argumentName argument = none) :
    explicitParameters (p.bindArguments member arguments) =
      (required ++ optional).take arguments.length := by
  rw [order.bindArguments_eq found positional, explicitParameters_append,
    explicitParameters_append, explicitParameters_dealt, explicitParameters_defaulted,
    List.append_nil]
  match collecting, order.single with
  | [], _ => simp
  | [id], _ => rw [List.flatMap_singleton, explicitParameters_collected, List.append_nil]

end InOrder

/-- Entries of a list without repetitions are all among the first ones exactly when there are no
more. -/
theorem forall_count_take_iff {l : List SyntaxId} (distinct : l.Nodup) {n : Nat} :
    (∀ a ∈ l, (l.take n).count a = 1) ↔ l.length ≤ n := by
  constructor
  · intro once
    have all : l ⊆ l.take n := fun a listed =>
      List.count_pos_iff.mp (by rw [once a listed]; exact Nat.one_pos)
    have length := (distinct.subperm all).length_le
    rw [List.length_take] at length
    omega
  · intro few a listed
    rw [List.take_of_length_le few]
    exact List.count_eq_one_of_mem distinct listed

theorem subperm_take_append_iff {l more : List SymbolId} {n : Nat} :
    l.Subperm ((l ++ more).take n) ↔ l.length ≤ n := by
  constructor
  · intro inside
    have length := inside.length_le
    rw [List.length_take] at length
    omega
  · intro enough
    rw [List.take_append, List.take_of_length_le enough]
    exact (List.sublist_append_left l _).subperm

/-- A member that has its parameters in order accepts a number of arguments exactly when binding
that many arguments without names binds each of them once and gives every required parameter one of
its own, also one that is listed several times. -/
theorem acceptsCount_iff_complete {required optional collecting : List SymbolId}
    (found : p.symbols[member]? = some symbol)
    (order : p.InOrder symbol required optional collecting) (distinct : arguments.Nodup)
    (positional : ∀ argument ∈ arguments, p.argumentName argument = none) :
    p.symbols.acceptsCount member arguments.length = true ↔
      (∀ argument ∈ arguments,
        (boundArguments (p.bindArguments member arguments)).count argument = 1) ∧
      required.Subperm (explicitParameters (p.bindArguments member arguments)) := by
  rw [order.acceptsCount_iff found, order.boundArguments_eq found positional,
    order.explicitParameters_eq found positional, subperm_take_append_iff, and_comm]
  refine and_congr_left fun _ => ?_
  split
  · next none => simp [none, forall_count_take_iff distinct]
  · next some => simpa [some] using List.nodup_iff_count_eq_one.mp distinct

/-- A method with a required parameter, one that is not known, an optional one and one that
collects. -/
def mixedMethod : Symbol := { Symbol.plain "M" .method none with parameters := [1, 9, 2, 3] }

/-- Arguments for the method: some without a name and two with one. -/
def mixedParameters : Program :=
  { empty "mixed" with
    nodes := #[⟨.zero, .literal "1"⟩, ⟨.zero, .literal "2"⟩, ⟨.zero, .argument none .byValue 0⟩,
      ⟨.zero, .literal "3"⟩, ⟨.zero, .argument (some "second") .byValue 0⟩,
      ⟨.zero, .argument (some "rest") .byValue 1⟩]
    symbols := #[mixedMethod, .plain "first" .parameter none,
      { Symbol.plain "second" .parameter none with default := some .null },
      { Symbol.plain "rest" .parameter none with isCollecting := true }] }

theorem mixedParameters_complete :
    let bindings := mixedParameters.bindArguments 0 [3, 2, 1, 0]
    (∀ argument ∈ [3, 2, 1, 0], (boundArguments bindings).count argument = 1) ∧
      List.Subperm [1] (explicitParameters bindings) := by
  have order : mixedParameters.InOrder mixedMethod [1] [2] [3] := by constructor <;> decide
  have positional :
      ∀ argument ∈ [3, 2, 1, 0], mixedParameters.argumentName argument = none := by
    decide
  exact (acceptsCount_iff_complete rfl order (by decide) positional).mp (by decide)

/-! ### Arguments with names -/

theorem namedArgument?_eq_some {argument : SyntaxId} {name : String}
    (named : p.namedArgument? arguments name = some argument) :
    argument ∈ arguments ∧ p.argumentName argument = some name := by
  unfold namedArgument? at named
  exact ⟨List.mem_of_find?_eq_some named, by simpa using List.find?_some named⟩

/-- The argument that names a parameter, unless the parameter collects. -/
def namedFor? (p : Program) (arguments : List SyntaxId) (id : SymbolId) : Option SyntaxId :=
  p.symbols[id]?.bind fun parameter =>
    if parameter.isCollecting then none else p.namedArgument? arguments parameter.name

theorem namedFor?_of_missing (missing : p.symbols[id]? = none) :
    p.namedFor? arguments id = none := by
  rw [namedFor?, missing]
  rfl

theorem namedFor?_of_collecting (found : p.symbols[id]? = some parameter)
    (collecting : parameter.isCollecting = true) : p.namedFor? arguments id = none := by
  rw [namedFor?, found]
  exact if_pos collecting

theorem namedFor?_of_plain (found : p.symbols[id]? = some parameter)
    (plain : ¬parameter.isCollecting = true) :
    p.namedFor? arguments id = p.namedArgument? arguments parameter.name := by
  rw [namedFor?, found]
  exact if_neg plain

theorem namedFor?_eq_some_iff {argument : SyntaxId} :
    p.namedFor? arguments id = some argument ↔ ∃ parameter, p.symbols[id]? = some parameter ∧
      parameter.isCollecting = false ∧
        p.namedArgument? arguments parameter.name = some argument := by
  simp [namedFor?, Option.bind_eq_some_iff]

/-- Parameters receive the arguments that name them and arguments without a name, none of these
twice. -/
theorem boundArguments_subperm (p : Program) (arguments : List SyntaxId) (ids : List SymbolId)
    (unnamed : List SyntaxId) :
    (boundArguments (p.bindParameters arguments ids unnamed)).Subperm
      (ids.filterMap (p.namedFor? arguments) ++ unnamed) := by
  fun_induction bindParameters p arguments ids unnamed with
  | case1 unnamed => exact List.nil_subperm
  | case2 id rest unnamed missing ih =>
    rwa [List.filterMap_cons_none (namedFor?_of_missing missing)]
  | case3 id rest unnamed parameter found collecting ih =>
    change (boundArguments (collected id unnamed ++ _)).Subperm _
    rw [List.append_nil] at ih
    rw [boundArguments_append, boundArguments_collected,
      List.filterMap_cons_none (namedFor?_of_collecting found collecting)]
    exact ((List.subperm_append_left unnamed).mpr ih).trans List.perm_append_comm.subperm
  | case4 id rest parameter found plain argument unnamed named ih =>
    have own := (namedFor?_of_plain found plain).trans named
    rw [boundArguments_cons, List.filterMap_cons_some own]
    exact (List.subperm_cons argument).mpr ih
  | case5 id rest parameter found plain argument unnamed named ih =>
    have own := (namedFor?_of_plain found plain).trans named
    rw [boundArguments_cons, List.filterMap_cons_none own]
    exact ((List.subperm_cons argument).mpr ih).trans List.perm_middle.symm.subperm
  | case6 id rest parameter found plain named default ih =>
    rw [List.filterMap_cons_none ((namedFor?_of_plain found plain).trans named)]
    exact ih
  | case7 id rest parameter found plain named required ih =>
    rwa [List.filterMap_cons_none ((namedFor?_of_plain found plain).trans named)]

/-- What a parameter receives: bindings of its own, and when an argument names it just that one. -/
structure Receives (p : Program) (arguments : List SyntaxId) (id : SymbolId)
    (share : List Binding) : Prop where
  own : ∀ binding ∈ share, binding.parameter = id
  named : ∀ argument, p.namedFor? arguments id = some argument →
    share = [⟨id, .explicit, some argument⟩]

theorem Receives.of_unnamed {share : List Binding} (unnamed : p.namedFor? arguments id = none)
    (own : ∀ binding ∈ share, binding.parameter = id) : p.Receives arguments id share where
  own := own
  named argument named := by
    rw [unnamed] at named
    contradiction

/-- Bindings are what the parameters receive, in the order of the parameters. -/
theorem bindParameters_shares (p : Program) (arguments : List SyntaxId) (ids : List SymbolId)
    (unnamed : List SyntaxId) :
    ∃ shares, List.Forall₂ (p.Receives arguments) ids shares ∧
      p.bindParameters arguments ids unnamed = shares.flatten := by
  fun_induction bindParameters p arguments ids unnamed with
  | case1 unnamed => exact ⟨[], .nil, rfl⟩
  | case2 id rest unnamed missing ih =>
    obtain ⟨shares, each, same⟩ := ih
    exact ⟨[] :: shares, .cons (.of_unnamed (namedFor?_of_missing missing) (by simp)) each, same⟩
  | case3 id rest unnamed parameter found collecting ih =>
    obtain ⟨shares, each, same⟩ := ih
    have unnamed : p.namedFor? arguments id = none := namedFor?_of_collecting found collecting
    exact ⟨_ :: shares, .cons (.of_unnamed unnamed (by simp)) each, congrArg (_ ++ ·) same⟩
  | case4 id rest parameter found plain argument unnamed named ih =>
    obtain ⟨shares, each, same⟩ := ih
    refine ⟨[_] :: shares, .cons ⟨by simp, fun other named' => ?_⟩ each, congrArg (_ :: ·) same⟩
    obtain rfl := Option.some.inj (((namedFor?_of_plain found plain).trans named).symm.trans named')
    rfl
  | case5 id rest parameter found plain argument unnamed named ih =>
    obtain ⟨shares, each, same⟩ := ih
    have unnamed := (namedFor?_of_plain found plain).trans named
    exact ⟨[_] :: shares, .cons (.of_unnamed unnamed (by simp)) each, congrArg (_ :: ·) same⟩
  | case6 id rest parameter found plain named default ih =>
    obtain ⟨shares, each, same⟩ := ih
    have unnamed := (namedFor?_of_plain found plain).trans named
    exact ⟨[_] :: shares, .cons (.of_unnamed unnamed (by simp)) each, congrArg (_ :: ·) same⟩
  | case7 id rest parameter found plain named required ih =>
    obtain ⟨shares, each, same⟩ := ih
    have unnamed := (namedFor?_of_plain found plain).trans named
    exact ⟨[] :: shares, .cons (.of_unnamed unnamed (by simp)) each, same⟩

section Distinct

variable (distinct : (arguments.filterMap p.argumentName).Nodup) {argument : SyntaxId}
  {name : String} (listed : argument ∈ arguments) (named : p.argumentName argument = some name)
include distinct listed named

/-- An argument with a name has it for itself. -/
theorem filter_argumentName :
    (arguments.filter fun argument => p.argumentName argument == some name) = [argument] := by
  have one :
      (arguments.filter fun argument => p.argumentName argument == some name).length = 1 := by
    rw [← List.countP_eq_length_filter, ← List.count_filterMap]
    exact List.count_eq_one_of_mem distinct (List.mem_filterMap.mpr ⟨argument, listed, named⟩)
  obtain ⟨only, same⟩ := List.length_eq_one_iff.mp one
  have own : argument ∈ [only] := same ▸ List.mem_filter.mpr ⟨listed, by simp [named]⟩
  rw [same, List.mem_singleton.mp own]

theorem namedArgument?_of_name : p.namedArgument? arguments name = some argument := by
  rw [namedArgument?, ← List.head?_filter, filter_argumentName distinct listed named,
    List.head?_cons]

theorem count_of_name : arguments.count argument = 1 := by
  have own : (p.argumentName argument == some name) = true := by simp [named]
  rw [← List.count_filter (p := fun argument => p.argumentName argument == some name) own,
    filter_argumentName distinct listed named, List.count_singleton_self]

end Distinct

theorem names_sublist (p : Program) (arguments : List SyntaxId) (ids : List SymbolId) :
    ((ids.filterMap (p.namedFor? arguments)).map p.argumentName).Sublist
      ((ids.filterMap fun id => p.symbols[id]?).map fun parameter => some parameter.name) := by
  induction ids with
  | nil => exact .slnil
  | cons id rest ih =>
    cases given : p.namedFor? arguments id with
    | none =>
      rw [List.filterMap_cons_none given]
      refine ih.trans ?_
      cases found : p.symbols[id]? with
      | none => rw [List.filterMap_cons_none found]
      | some parameter =>
        rw [List.filterMap_cons_some found]
        exact List.sublist_cons_self _ _
    | some argument =>
      obtain ⟨parameter, found, _, named⟩ := namedFor?_eq_some_iff.mp given
      rw [List.filterMap_cons_some given, List.filterMap_cons_some found, List.map_cons,
        List.map_cons, (namedArgument?_eq_some named).2]
      exact ih.cons_cons _

/-- No argument reaches two parameters when these have names of their own. -/
theorem boundArguments_bindArguments_subperm (found : p.symbols[member]? = some symbol)
    (names : ((p.symbols.parametersOf symbol).map Symbol.name).Nodup) :
    (boundArguments (p.bindArguments member arguments)).Subperm arguments := by
  rw [bindArguments, found]
  refine (boundArguments_subperm p arguments symbol.parameters _).trans ?_
  have single : (symbol.parameters.filterMap (p.namedFor? arguments)).Nodup := by
    refine List.Nodup.of_map p.argumentName (List.Nodup.sublist (names_sublist p arguments _) ?_)
    have distinct := names.map (Option.some_injective String)
    rwa [List.map_map] at distinct
  have inside : (symbol.parameters.filterMap (p.namedFor? arguments)).Subperm
      (arguments.filter fun argument => !(p.argumentName argument).isNone) := by
    refine single.subperm fun argument given => ?_
    obtain ⟨id, _, given⟩ := List.mem_filterMap.mp given
    obtain ⟨parameter, _, _, named⟩ := namedFor?_eq_some_iff.mp given
    obtain ⟨listed, named⟩ := namedArgument?_eq_some named
    exact List.mem_filter.mpr ⟨listed, by simp [named]⟩
  refine ((List.subperm_append_right _).mpr inside).trans ?_
  exact (List.perm_append_comm.trans (List.filter_append_perm _ arguments)).subperm

/-- The bindings that give an argument to a parameter, counted. -/
theorem count_boundArguments (bindings : List Binding) (argument : SyntaxId) :
    (boundArguments bindings).count argument =
      (bindings.filter fun binding => binding.argument == some argument).length := by
  rw [boundArguments, List.count_filterMap, List.countP_eq_length_filter]

theorem bindArguments_shares (found : p.symbols[member]? = some symbol)
    (arguments : List SyntaxId) :
    ∃ shares, List.Forall₂ (p.Receives arguments) symbol.parameters shares ∧
      p.bindArguments member arguments = shares.flatten := by
  rw [bindArguments, found]
  exact bindParameters_shares p arguments symbol.parameters _

/-- An argument that is written once and names a parameter is bound to it and to nothing else. -/
theorem filter_bindArguments {argument : SyntaxId} (found : p.symbols[member]? = some symbol)
    (names : ((p.symbols.parametersOf symbol).map Symbol.name).Nodup)
    (inside : id ∈ symbol.parameters) (given : p.namedFor? arguments id = some argument)
    (once : arguments.count argument = 1) :
    (p.bindArguments member arguments).filter (fun binding => binding.argument == some argument) =
      [⟨id, .explicit, some argument⟩] := by
  obtain ⟨shares, each, same⟩ := bindArguments_shares found arguments
  obtain ⟨share, held, receives⟩ := exists_mem_of_forall₂ each inside
  have own : (⟨id, .explicit, some argument⟩ : Binding) ∈ p.bindArguments member arguments := by
    rw [same]
    exact List.mem_flatten.mpr ⟨share, held, by rw [receives.named argument given]; simp⟩
  have kept : (⟨id, .explicit, some argument⟩ : Binding) ∈
      (p.bindArguments member arguments).filter fun binding => binding.argument == some argument :=
    List.mem_filter.mpr ⟨own, by simp⟩
  have most : (boundArguments (p.bindArguments member arguments)).count argument ≤ 1 :=
    once ▸ (boundArguments_bindArguments_subperm found names).count_le argument
  rw [count_boundArguments] at most
  obtain ⟨only, alone⟩ :=
    List.length_eq_one_iff.mp (Nat.le_antisymm most (List.length_pos_of_mem kept))
  rw [alone] at kept ⊢
  rw [List.mem_singleton.mp kept]

/-- What bindings do with the arguments of a call of a member: one that has the name of a parameter
is in a single binding, of this parameter, unless the parameter collects; no argument is given away
more often than it was written; and the parameters have their bindings one behind the other, in
their order. -/
structure BindsByName (p : Program) (symbol : Symbol) (arguments : List SyntaxId)
    (bindings : List Binding) : Prop where
  named : ∀ argument ∈ arguments, ∀ name, p.argumentName argument = some name →
    ∃ id ∈ symbol.parameters, ∃ parameter, p.symbols[id]? = some parameter ∧
      parameter.name = name ∧ (parameter.isCollecting = false →
        bindings.filter (fun binding => binding.argument == some argument) =
          [⟨id, .explicit, some argument⟩])
  single : (boundArguments bindings).Subperm arguments
  ordered : ∃ shares : List (List Binding),
    List.Forall₂ (fun id share => ∀ binding ∈ share, binding.parameter = id) symbol.parameters
      shares ∧ bindings = shares.flatten

/-- Arguments with names reach the parameters of their names, unless these collect. -/
theorem bindArguments_bindsByName (found : p.symbols[member]? = some symbol)
    (names : ((p.symbols.parametersOf symbol).map Symbol.name).Nodup)
    (distinct : (arguments.filterMap p.argumentName).Nodup)
    (known : ∀ name ∈ arguments.filterMap p.argumentName,
      ∃ parameter ∈ p.symbols.parametersOf symbol, parameter.name = name) :
    p.BindsByName symbol arguments (p.bindArguments member arguments) := by
  obtain ⟨shares, each, same⟩ := bindArguments_shares found arguments
  refine ⟨fun argument listed name named => ?_, boundArguments_bindArguments_subperm found names,
    shares, each.imp fun _ _ h => h.own, same⟩
  obtain ⟨parameter, declared, rfl⟩ :=
    known name (List.mem_filterMap.mpr ⟨argument, listed, named⟩)
  obtain ⟨id, inside, stored⟩ := List.mem_filterMap.mp declared
  refine ⟨id, inside, parameter, stored, rfl, fun takesOne => ?_⟩
  have given : p.namedFor? arguments id = some argument :=
    namedFor?_eq_some_iff.mpr
      ⟨parameter, stored, takesOne, namedArgument?_of_name distinct listed named⟩
  exact filter_bindArguments found names inside given (count_of_name distinct listed named)

/-- The name in front of the arguments without one takes its parameter out of their order. -/
theorem mixedParameters_bindsByName :
    mixedParameters.BindsByName mixedMethod [4, 3, 2, 0]
      [⟨1, .explicit, some 3⟩, ⟨2, .explicit, some 4⟩, ⟨3, .collected, some 2⟩,
        ⟨3, .collected, some 0⟩] :=
  bindArguments_bindsByName (show mixedParameters.symbols[0]? = some mixedMethod from rfl)
    (by decide) (by decide) (by decide)

/-- The name of a parameter that collects is not looked for: an argument that has it is lost. -/
theorem mixedParameters_loses :
    let parameters := mixedParameters.symbols.parametersOf mixedMethod
    let arguments := [3, 5]
    mixedParameters.symbols[0]? = some mixedMethod ∧
      (parameters.map Symbol.name).Nodup ∧
      (∀ parameter ∈ parameters.dropLast, parameter.isCollecting = false) ∧
      arguments.filterMap mixedParameters.argumentName = ["rest"] ∧
      (∃ parameter ∈ parameters, parameter.name = "rest") ∧
      mixedParameters.argumentName 5 = some "rest" ∧
      ∀ binding ∈ mixedParameters.bindArguments 0 arguments, binding.argument ≠ some 5 := by
  decide

end Program

end SemanticTrees
