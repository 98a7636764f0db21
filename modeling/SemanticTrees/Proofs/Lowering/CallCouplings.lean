import SemanticTrees.Proofs.Lowering.MemberCouplings

/-! Calls, element accesses and object creations are lowered alike in programs that translate one
another. -/
namespace SemanticTrees.Context

open Lowering

variable {τ : Translation} {c c' : Context} (h : c.Translates τ c') {K : Coupling τ} {w : Stores}
  {r : SortedRelation} {id id' receiver receiver' callee callee' : SyntaxId}
  {arguments arguments' : List SyntaxId}
include h

theorem acceptsCount_eq (member : SymbolId) (count : Nat) :
    c'.program.symbols.acceptsCount (τ.symbols member) count =
      c.program.symbols.acceptsCount member count := by
  unfold SymbolTable.acceptsCount
  rw [h.program.symbol member]
  cases c.program.symbols[member]? with
  | none => rfl
  | some symbol =>
    have parameters : c'.program.symbols.parametersOf (symbol.rename τ.types τ.symbols) =
        (c.program.symbols.parametersOf symbol).map (Symbol.rename τ.types τ.symbols) := by
      unfold SymbolTable.parametersOf
      rw [Symbol.rename, List.filterMap_map, List.map_filterMap]
      exact congrArg (List.filterMap · _) (funext h.program.symbol)
    simp only [Option.map_some, parameters, List.countP_map, List.length_map,
      List.getLast?_map, Option.any_map]
    rfl

theorem anyAcceptsCount_eq (candidates : List SymbolId) (count : Nat) :
    c'.anyAcceptsCount (candidates.map τ.symbols) count = c.anyAcceptsCount candidates count := by
  unfold anyAcceptsCount
  rw [List.isEmpty_map, List.any_map]
  exact congrArg (_ || candidates.any ·) (funext fun member => acceptsCount_eq h member count)

/-- What is written with arguments that stand for one another is the same. -/
theorem writtenArgument_alike (nodes : τ.nodes id id') :
    (c'.writtenArgument id').1 = (c.writtenArgument id).1 ∧
      (c'.writtenArgument id').2.1 = (c.writtenArgument id).2.1 ∧
      τ.nodes (c.writtenArgument id).2.2 (c'.writtenArgument id').2.2 := by
  have stands := h.stands nodes
  unfold writtenArgument
  generalize c.formOf id = form at stands ⊢
  generalize c'.formOf id' = form' at stands ⊢
  cases stands with
  | missing => exact ⟨rfl, rfl, nodes⟩
  | alike alike =>
    cases alike with
    | argument name passing values => exact ⟨rfl, rfl, values⟩
    | _ => exact ⟨rfl, rfl, nodes⟩
  | @wrapped form _ expression =>
    cases form with
    | argument name passing value => contradiction
    | _ => exact ⟨rfl, rfl, nodes⟩

theorem taintedByLambda_eq (values : List.Forall₂ τ.nodes arguments arguments') :
    c'.taintedByLambda arguments' = c.taintedByLambda arguments := by
  have lambda : c'.hasLambda arguments' = c.hasLambda arguments := by
    unfold hasLambda
    induction values with
    | nil => rfl
    | cons first _ ih =>
      rw [List.any_cons, List.any_cons, ih, h.isLambda (writtenArgument_alike h first).2.2]
  unfold taintedByLambda
  rw [lambda, h.taintLambdas]

theorem namesMethod_eq (same : τ.same id id') : c'.namesMethod id' = c.namesMethod id := by
  unfold namesMethod
  rw [h.symbolAt same]
  cases c.symbolAt id <;> rfl

/-- Arguments of accesses that are resolved at run time are linked: their values are, and what is
written with them is the same. -/
structure LinkedArguments (K : Coupling τ) (w : Stores) (a a' : DynamicArgument) : Prop where
  value : K.link .expression w a.value a'.value
  name : a'.name = a.name
  passing : a'.passing = a.passing

omit h in
theorem lasts_linkedArguments : Stores.Lasts (LinkedArguments K) :=
  fun grown linked => { linked with value := K.lasts _ grown linked.value }

theorem lateBoundArguments_couple
    (calls : Coupled K c c' (arguments.map .expression) (arguments'.map .expression))
    (values : List.Forall₂ τ.nodes arguments arguments') :
    K.Couples w (arguments.mapM c.lateBoundArgument) (arguments'.mapM c'.lateBoundArgument)
      (fun v => List.Forall₂ (LinkedArguments K v)) := by
  refine .mapM lasts_linkedArguments ((forall₂_mem values).imp ?_)
  rintro a a' ⟨listed, listed', nodes⟩
  obtain ⟨name, passing, _⟩ := writtenArgument_alike h nodes
  unfold lateBoundArgument
  refine (calls.expression (List.mem_map_of_mem listed) (List.mem_map_of_mem listed')
    nodes).bind fun v _ value value' linked => ?_
  exact .pure lasts_linkedArguments ⟨linked, name, passing⟩

omit h in
/-- An access with linked arguments. -/
theorem withArguments_alike {access access' : DynamicAccess} {values values' : List DynamicArgument}
    (alike : access.Alike τ (fun ρ => K.link ρ w) access')
    (linked : List.Forall₂ (LinkedArguments K w) values values') :
    (access.withArguments values).Alike τ (fun ρ => K.link ρ w) (access'.withArguments values') := by
  have names : values'.map DynamicArgument.name = values.map DynamicArgument.name :=
    map_eq_of_forall₂ (fun _ _ linked => linked.name) linked
  have passings : values'.map DynamicArgument.passing = values.map DynamicArgument.passing :=
    map_eq_of_forall₂ (fun _ _ linked => linked.passing) linked
  unfold DynamicAccess.withArguments
  rw [names, passings]
  exact { alike with
    arguments := forall₂_map (fun _ _ _ _ linked => linked.value) linked
    names := rfl
    passings := rfl }

theorem lateBoundTarget_couples (candidates : List SymbolId)
    (calls : Coupled K c c' (c.lateBoundTargetParts callee) (c'.lateBoundTargetParts callee'))
    (callees : τ.callees callee callee') :
    K.Couples w (c.lateBoundTarget callee candidates)
      (c'.lateBoundTarget callee' (candidates.map τ.symbols)) (K.link .expression) := by
  have nodes := τ.nodes_of_callees callees
  have whole (calls : Coupled K c c' [.expression callee] [.expression callee']) :
      K.Couples w (c.expression callee) (c'.expression callee') (K.link .expression) :=
    calls.expression List.mem_cons_self List.mem_cons_self nodes
  unfold lateBoundTarget
  unfold lateBoundTargetParts at calls
  obtain same | ⟨⟨form, known, computed⟩, inner, known'⟩ := h.program.same_or_computed callees
  · have form := h.form same
    generalize c.formOf callee = found at form calls ⊢
    generalize c'.formOf callee' = found' at form calls ⊢
    cases form with
    | none => exact whole calls
    | some alike =>
      cases alike with
      | memberAccess name typeArguments receivers =>
        dsimp only at calls ⊢
        rw [candidatesOf_eq h same candidates]
        refine lateBoundMember_couples h ?_ (.some receivers) name typeArguments _ true nodes
        rintro _ ⟨⟩ _ ⟨⟩
        exact calls
      | identifier name =>
        dsimp only at calls ⊢
        rw [namesMethod_eq h same] at calls ⊢
        split
        · exact lateBoundMember_couples h (by simp) .none name [] candidates true nodes
        · next value =>
          rw [if_neg value, if_neg value] at calls
          exact whole calls
      | _ => exact whole calls
  · rw [show c.formOf callee = _ from known, show c'.formOf callee' = _ from known'] at calls ⊢
    cases form with
    | memberAccess | identifier => contradiction
    | _ => exact whole calls

theorem lateBoundCall_couples (candidates : List SymbolId)
    (calls : Coupled K c c' (c.lateBoundTargetParts callee ++ arguments.map .expression)
      (c'.lateBoundTargetParts callee' ++ arguments'.map .expression))
    (callees : τ.callees callee callee') (values : List.Forall₂ τ.nodes arguments arguments')
    (nodes : τ.nodes id id') :
    K.Couples w (c.lateBoundCall id callee arguments candidates)
      (c'.lateBoundCall id' callee' arguments' (candidates.map τ.symbols))
      (K.link .expression) := by
  unfold lateBoundCall
  refine (lateBoundTarget_couples h candidates calls.left callees).bind
    fun v grown target target' linked => ?_
  refine (lateBoundArguments_couple h calls.right values).bind fun u grown' given given' each => ?_
  have accesses : DynamicAccess.Alike τ (fun ρ => K.link ρ u)
      { DynamicAccess.unknown with receiver := some target }
      { DynamicAccess.unknown with receiver := some target' } :=
    ⟨rfl, rfl, rfl, .some (K.lasts _ grown' linked), .nil, rfl, rfl⟩
  rw [taintedByLambda_eq h values]
  refine .emit ((lateBound_alike h ?_ nodes).invalidIf _) (admits_lateBound id rfl)
  exact .dynamicInvocation (withArguments_alike accesses each)

theorem lateBoundElement_couples
    (calls : Coupled K c c' (.expression receiver :: arguments.map .expression)
      (.expression receiver' :: arguments'.map .expression))
    (receivers : τ.nodes receiver receiver') (values : List.Forall₂ τ.nodes arguments arguments')
    (nodes : τ.nodes id id') :
    K.Couples w (c.lateBoundElement id receiver arguments)
      (c'.lateBoundElement id' receiver' arguments') (K.link .expression) := by
  have containing : (if c'.isDynamic receiver' then none else c'.typeOf receiver') =
      (if c.isDynamic receiver then none else c.typeOf receiver).map τ.types := by
    rw [h.isDynamic receivers, h.typeOf receivers]
    split <;> rfl
  unfold lateBoundElement
  rw [containing, taintedByLambda_eq h values]
  refine (calls.expression List.mem_cons_self List.mem_cons_self receivers).bind
    fun v grown target target' linked => ?_
  refine (lateBoundArguments_couple h calls.tail values).bind fun u grown' given given' each => ?_
  have accesses : DynamicAccess.Alike τ (fun ρ => K.link ρ u)
      { DynamicAccess.unknown with
        containingType := if c.isDynamic receiver then none else c.typeOf receiver
        receiver := some target }
      { DynamicAccess.unknown with
        containingType :=
          (if c.isDynamic receiver then none else c.typeOf receiver).map τ.types
        receiver := some target' } :=
    ⟨rfl, rfl, rfl, .some (K.lasts _ grown' linked), .nil, rfl, rfl⟩
  refine .emit ((lateBound_alike h ?_ nodes).invalidIf _) (admits_lateBound id rfl)
  exact .dynamicIndexerAccess (withArguments_alike accesses each)

theorem lateBoundCreation_couples (type : TypeId)
    (calls : Coupled K c c' (arguments.map .expression) (arguments'.map .expression))
    (values : List.Forall₂ τ.nodes arguments arguments') (nodes : τ.nodes id id') :
    K.Couples w (c.lateBoundCreation id type arguments)
      (c'.lateBoundCreation id' (τ.types type) arguments') (K.link .expression) := by
  unfold lateBoundCreation
  refine (lateBoundArguments_couple h calls values).bind fun u grown given given' each => ?_
  have accesses : DynamicAccess.Alike τ (fun ρ => K.link ρ u)
      { DynamicAccess.unknown with containingType := some type }
      { DynamicAccess.unknown with containingType := some (τ.types type) } :=
    ⟨rfl, rfl, rfl, .none, .nil, rfl, rfl⟩
  rw [taintedByLambda_eq h values]
  refine .emit (((valued_alike h ?_ nodes).withType (some type)).invalidIf _) ?_
  · exact .dynamicObjectCreation (withArguments_alike accesses each) rfl
  · rfl

theorem defaultArgument_couples (parameter : SymbolId) (nodes : τ.nodes id id') :
    K.Couples w (c.defaultArgument id parameter) (c'.defaultArgument id' (τ.symbols parameter))
      (K.link .argument) := by
  have typed : (c'.symbol? (τ.symbols parameter)).bind Symbol.type =
      ((c.symbol? parameter).bind Symbol.type).map τ.types := by
    rw [h.symbol? parameter]
    cases c.symbol? parameter <;> rfl
  have default : (c'.symbol? (τ.symbols parameter)).bind Symbol.default =
      (c.symbol? parameter).bind Symbol.default := by
    rw [h.symbol? parameter]
    cases c.symbol? parameter <;> rfl
  unfold defaultArgument
  dsimp only
  rw [typed, default]
  have literal : (c.plain .literal id).Alike τ (fun ρ => K.link ρ w) (c'.plain .literal id') :=
    plain_alike h .literal nodes
  refine Coupling.Couples.bind (.emit (σ := .expression)
    ((literal.withType _).withConstant _).implicit ?_) fun v _ value value' linked => ?_
  · rfl
  · exact .emit (plain_alike h (.argument .default parameter linked) nodes).implicit rfl

theorem boundArgument_couples {binding binding' : Binding}
    (calls : Coupled K c c' (bindingParts binding) (bindingParts binding'))
    (alike : binding.Alike τ binding') (nodes : τ.nodes id id') :
    K.Couples w (c.boundArgument id binding) (c'.boundArgument id' binding')
      (K.link .argument) := by
  obtain ⟨parameter, _, argument⟩ := binding
  obtain ⟨_, kind, argument'⟩ := binding'
  obtain ⟨sameParameter, sameKind, values⟩ := alike
  dsimp only at sameParameter sameKind values
  subst sameParameter sameKind
  have missing (kind : ArgumentKind) : K.Couples w
      (do
        let value ← c.invalidExpression id []
        emit (c.plain (.argument kind parameter value) id).implicit)
      (do
        let value ← c'.invalidExpression id' []
        emit (c'.plain (.argument kind (τ.symbols parameter) value) id').implicit)
      (K.link .argument) :=
    (invalidExpression_couples h .nil nodes).bind fun v _ value value' linked =>
      .emit (plain_alike h (.argument kind parameter linked) nodes).implicit rfl
  have written (kind : ArgumentKind) {argument argument' : SyntaxId}
      (calls : Coupled K c c' [.expression argument] [.expression argument'])
      (values : τ.nodes argument argument') : K.Couples w
      (do
        let value ← c.expression argument
        c.emitPlain (.argument kind parameter value) argument)
      (do
        let value ← c'.expression argument'
        c'.emitPlain (.argument kind (τ.symbols parameter) value) argument')
      (K.link .argument) :=
    (calls.expression List.mem_cons_self List.mem_cons_self values).bind
      fun v _ value value' linked =>
        emitPlain_couples h (.argument kind parameter linked) rfl values
  cases kind with
  | default => exact defaultArgument_couples h parameter nodes
  | explicit | collected =>
    cases values with
    | none => exact missing _
    | some values => exact written _ calls values

theorem boundArguments_couple {bindings bindings' : List Binding}
    (calls : Coupled K c c' (bindings.flatMap bindingParts) (bindings'.flatMap bindingParts))
    (bound : List.Forall₂ (Binding.Alike τ) bindings bindings') (nodes : τ.nodes id id') :
    K.Couples w (bindings.mapM (c.boundArgument id)) (bindings'.mapM (c'.boundArgument id'))
      (K.links .argument) := by
  refine .mapM (K.lasts _) ((forall₂_mem bound).imp ?_)
  rintro binding binding' ⟨listed, listed', alike⟩
  have inside : bindingParts binding ⊆ bindings.flatMap bindingParts :=
    fun part member => List.mem_flatMap.mpr ⟨binding, listed, member⟩
  have inside' : bindingParts binding' ⊆ bindings'.flatMap bindingParts :=
    fun part member => List.mem_flatMap.mpr ⟨binding', listed', member⟩
  exact boundArgument_couples h (calls.mono inside inside') alike nodes

theorem salvageCall_couples {target target' : Option OperationId}
    (calls : Coupled K c c' (arguments.map .expression) (arguments'.map .expression))
    (targets : K.link? .expression w target target')
    (values : List.Forall₂ τ.nodes arguments arguments') (nodes : τ.nodes id id') :
    K.Couples w (c.salvageCall id target arguments) (c'.salvageCall id' target' arguments')
      (K.link .expression) := by
  unfold salvageCall
  refine (calls.expressions (fun i => List.mem_map_of_mem) (fun i => List.mem_map_of_mem)
    values).bind fun v grown given given' linked => ?_
  have target := forall₂_toList (K.lasts_link? _ grown targets)
  exact invalidExpression_couples h (List.rel_append target linked) nodes

omit h in
/-- A callee that is lowered as it stands. -/
theorem wholeCallee_couples (calls : Coupled K c c' [.expression callee] [.expression callee'])
    (nodes : τ.nodes callee callee') :
    K.Couples w (some <$> c.expression callee) (some <$> c'.expression callee')
      (K.link? .expression) :=
  (calls.expression List.mem_cons_self List.mem_cons_self nodes).some

theorem salvageCallee_couples
    (calls : Coupled K c c' (c.salvagedCalleeParts callee) (c'.salvagedCalleeParts callee'))
    (callees : τ.callees callee callee') :
    K.Couples w (c.salvageCallee callee) (c'.salvageCallee callee') (K.link? .expression) := by
  have nodes := τ.nodes_of_callees callees
  unfold salvageCallee
  unfold salvagedCalleeParts at calls
  obtain same | ⟨⟨form, known, computed⟩, inner, known'⟩ := h.program.same_or_computed callees
  · have form := h.form same
    generalize c.formOf callee = found at form calls ⊢
    generalize c'.formOf callee' = found' at form calls ⊢
    cases form with
    | none => exact wholeCallee_couples calls nodes
    | some alike =>
      cases alike with
      | memberAccess name typeArguments receivers => exact receiver_couples h calls receivers
      | identifier name => exact .none
      | _ => exact wholeCallee_couples calls nodes
  · rw [show c.formOf callee = _ from known, show c'.formOf callee' = _ from known'] at calls ⊢
    cases form with
    | memberAccess | identifier => contradiction
    | _ => exact wholeCallee_couples calls nodes

theorem callReceiver_couples (member : SymbolId)
    (calls : Coupled K c c' (c.callReceiverParts callee member)
      (c'.callReceiverParts callee' (τ.symbols member)))
    (callees : τ.callees callee callee') :
    K.Couples w (c.callReceiver callee member) (c'.callReceiver callee' (τ.symbols member))
      (K.link? .expression) := by
  have nodes := τ.nodes_of_callees callees
  unfold callReceiver
  unfold callReceiverParts at calls
  obtain same | ⟨⟨form, known, computed⟩, inner, known'⟩ := h.program.same_or_computed callees
  · have form := h.form same
    rw [h.program.symbolOf same] at calls ⊢
    generalize c.formOf callee = found at form calls ⊢
    generalize c'.formOf callee' = found' at form calls ⊢
    cases form with
    | none => exact wholeCallee_couples calls nodes
    | some alike =>
      cases alike with
      | memberAccess name typeArguments receivers =>
        simp only [isStatic_eq h] at calls ⊢
        cases static : c.isStatic member with
        | true =>
          simp only [↓reduceIte, Bool.true_or]
          exact .none
        | false =>
          simp only [static, Bool.false_eq_true, ↓reduceIte, Bool.false_or] at calls ⊢
          exact receiver_couples h calls receivers
      | identifier name =>
        have implicitly := implicitReceiver_couples h (K := K) (w := w) member nodes
        cases named : c.program.symbolOf callee with
        | none => simpa using implicitly
        | some symbol =>
          have differs : τ.symbols symbol ≠ τ.symbols member ↔ symbol ≠ member :=
            h.program.symbols_inj.ne_iff
          simp only [named, Option.map_some, Option.any_some, differs] at calls ⊢
          by_cases other : symbol = member
          · simpa [other] using implicitly
          · simp only [other, ne_eq, not_false_eq_true, decide_true, ↓reduceIte] at calls ⊢
            exact wholeCallee_couples calls nodes
      | _ => exact wholeCallee_couples calls nodes
  · rw [show c.formOf callee = _ from known, show c'.formOf callee' = _ from known'] at calls ⊢
    cases form with
    | memberAccess | identifier => contradiction
    | _ => exact wholeCallee_couples calls nodes

theorem unboundCall_couples
    (calls : Coupled K c c' (c.salvagedCalleeParts callee ++ arguments.map .expression)
      (c'.salvagedCalleeParts callee' ++ arguments'.map .expression))
    (callees : τ.callees callee callee') (values : List.Forall₂ τ.nodes arguments arguments')
    (nodes : τ.nodes id id') :
    K.Couples w (c.unboundCall id callee arguments) (c'.unboundCall id' callee' arguments')
      (K.link .expression) := by
  unfold unboundCall
  exact (salvageCallee_couples h calls.left callees).bind fun v _ target target' linked =>
    salvageCall_couples h calls.right linked values nodes

theorem invocation_couples
    (calls : Coupled K c c' (c.invocationParts id callee arguments)
      (c'.invocationParts id' callee' arguments'))
    (callees : τ.callees callee callee') (values : List.Forall₂ τ.nodes arguments arguments')
    (same : τ.same id id') :
    K.Couples w (c.invocation id callee arguments) (c'.invocation id' callee' arguments')
      (K.link .expression) := by
  have nodes := τ.nodes_of_same same
  have resolution := h.program.resolutionOf same
  unfold invocation
  unfold invocationParts at calls
  rw [h.isDynamicCallee callees] at calls ⊢
  split
  · next dynamic =>
    rw [if_pos dynamic, if_pos dynamic] at calls
    exact lateBoundCall_couples h [] calls callees values nodes
  · next known =>
    rw [if_neg known, if_neg known] at calls
    generalize c.program.resolutionOf id = found at resolution calls ⊢
    generalize c'.program.resolutionOf id' = found' at resolution calls ⊢
    cases resolution with
    | none => exact unboundCall_couples h calls callees values nodes
    | some alike =>
      cases alike with
      | resolved member bound =>
        have virtual : (c'.symbol? (τ.symbols member)).any Symbol.isVirtual =
            (c.symbol? member).any Symbol.isVirtual := by
          rw [h.symbol? member, Option.any_map]
          rfl
        dsimp only at calls ⊢
        rw [virtual]
        refine (callReceiver_couples h member calls.left callees).bind
          fun v _ target target' linked => ?_
        refine (boundArguments_couple h calls.right bound nodes).bind
          fun u grown given given' each => ?_
        exact emitValued_couples h
          (.invocation member _ (K.lasts_link? _ grown linked) each) rfl nodes
      | lateBound candidates =>
        dsimp only at calls ⊢
        rw [anyAcceptsCount_eq h, ← values.length_eq] at calls ⊢
        split
        · next accepted =>
          rw [if_pos accepted, if_pos accepted] at calls
          exact lateBoundCall_couples h candidates calls callees values nodes
        · next rejected =>
          rw [if_neg rejected, if_neg rejected] at calls
          exact unboundCall_couples h calls callees values nodes
      | failed reason candidates => exact unboundCall_couples h calls callees values nodes

theorem unboundElement_couples
    (calls : Coupled K c c' (.expression receiver :: arguments.map .expression)
      (.expression receiver' :: arguments'.map .expression))
    (receivers : τ.nodes receiver receiver') (values : List.Forall₂ τ.nodes arguments arguments')
    (nodes : τ.nodes id id') :
    K.Couples w (c.unboundElement id receiver arguments)
      (c'.unboundElement id' receiver' arguments') (K.link .expression) := by
  unfold unboundElement
  refine (calls.expression List.mem_cons_self List.mem_cons_self receivers).bind
    fun v _ target target' linked => ?_
  exact salvageCall_couples h calls.tail (.some linked) values nodes

theorem elementAccess_couples
    (calls : Coupled K c c' (c.elementParts id receiver arguments)
      (c'.elementParts id' receiver' arguments'))
    (receivers : τ.nodes receiver receiver') (values : List.Forall₂ τ.nodes arguments arguments')
    (same : τ.same id id') :
    K.Couples w (c.elementAccess id receiver arguments)
      (c'.elementAccess id' receiver' arguments') (K.link .expression) := by
  have nodes := τ.nodes_of_same same
  have resolution := h.program.resolutionOf same
  unfold elementAccess
  unfold elementParts at calls
  rw [h.isDynamic receivers] at calls ⊢
  split
  · next dynamic =>
    rw [if_pos dynamic, if_pos dynamic] at calls
    exact lateBoundElement_couples h calls receivers values nodes
  · next known =>
    rw [if_neg known, if_neg known] at calls
    generalize c.program.resolutionOf id = found at resolution calls ⊢
    generalize c'.program.resolutionOf id' = found' at resolution calls ⊢
    cases resolution with
    | none =>
      dsimp only at calls ⊢
      rw [h.isArray receivers]
      split
      · refine (calls.expression List.mem_cons_self List.mem_cons_self receivers).bind
          fun v _ array array' linked => ?_
        refine (calls.tail.expressions (fun i => List.mem_map_of_mem)
          (fun i => List.mem_map_of_mem) values).bind fun u grown given given' each => ?_
        exact emitValued_couples h (.arrayElementReference (K.lasts _ grown linked) each) rfl
          nodes
      · exact unboundElement_couples h calls receivers values nodes
    | some alike =>
      cases alike with
      | resolved member bound =>
        dsimp only at calls ⊢
        refine (calls.expression List.mem_cons_self List.mem_cons_self receivers).bind
          fun v _ target target' linked => ?_
        refine (boundArguments_couple h calls.tail bound nodes).bind
          fun u grown given given' each => ?_
        exact emitValued_couples h
          (.propertyReference member (.some (K.lasts _ grown linked)) each) rfl nodes
      | lateBound candidates =>
        dsimp only at calls ⊢
        rw [anyAcceptsCount_eq h, ← values.length_eq]
        split
        · exact lateBoundElement_couples h calls receivers values nodes
        · exact unboundElement_couples h calls receivers values nodes
      | failed reason candidates => exact unboundElement_couples h calls receivers values nodes

theorem objectCreation_couples (type : TypeId)
    (calls : Coupled K c c' (c.creationParts id arguments) (c'.creationParts id' arguments'))
    (values : List.Forall₂ τ.nodes arguments arguments') (same : τ.same id id') :
    K.Couples w (c.objectCreation id type arguments)
      (c'.objectCreation id' (τ.types type) arguments') (K.link .expression) := by
  have nodes := τ.nodes_of_same same
  have resolution := h.program.resolutionOf same
  unfold objectCreation
  unfold creationParts at calls
  generalize c.program.resolutionOf id = found at resolution calls ⊢
  generalize c'.program.resolutionOf id' = found' at resolution calls ⊢
  cases resolution with
  | none => exact salvageCall_couples h calls .none values nodes
  | some alike =>
    cases alike with
    | resolved member bound =>
      refine (boundArguments_couple h calls bound nodes).bind fun v _ given given' each => ?_
      refine .emit ((valued_alike h (.objectCreation member each) nodes).withType (some type)) ?_
      rfl
    | lateBound candidates =>
      dsimp only at calls ⊢
      rw [anyAcceptsCount_eq h, ← values.length_eq]
      split
      · exact lateBoundCreation_couples h type calls values nodes
      · exact salvageCall_couples h calls .none values nodes
    | failed reason candidates => exact salvageCall_couples h calls .none values nodes

end SemanticTrees.Context
