import SemanticTrees.Proofs.Lowering.Courses

/-! Every form of expression takes the course of its parts. The operations of the parts become
children of the operation of the form, except that a variable leaves behind the receiver that it is
taken of. -/
namespace SemanticTrees.Context

open Lowering

variable {c : Context} {t : Terms} {id receiver callee body : SyntaxId} {symbol member : SymbolId}
  {arguments : List SyntaxId} {candidates : List SymbolId} {used : List OperationId}

theorem referenceKind_other {target : Option OperationId} {kind : OperationKind}
    (chosen : c.referenceKind symbol target = some kind) : kind.isConversion = false := by
  unfold referenceKind at chosen
  split at chosen
  · contradiction
  · split at chosen <;> cases chosen <;> rfl

/-- Whatever is no variable keeps its receiver. -/
theorem referenceKind_keeps {target : Option OperationId} {kind : OperationKind}
    (chosen : c.referenceKind symbol target = some kind)
    (other : c.program.isVariable symbol = false) : target.toList ⊆ kind.children := by
  unfold referenceKind symbol? at chosen
  unfold Program.isVariable at other
  split at chosen
  · contradiction
  · next declared found =>
    rw [found] at other
    split at chosen <;> cases chosen <;> simp_all [OperationKind.children]

theorem implicitReceiver_eq_none (variable_ : c.program.isVariable member = true) :
    c.implicitReceiver member id = pure none := by
  obtain ⟨declared, found, kinds⟩ := (Option.any_eq_true _ _).mp variable_
  have stranger : declared.kind.isMember = false := by
    obtain same | same : declared.kind = .localVariable ∨ declared.kind = .parameter := by
      simpa using kinds
    all_goals rw [same]; rfl
  unfold implicitReceiver symbol?
  rw [found]
  simp [stranger]

theorem symbolOf_of_boundMember (found : c.boundMember id = some member) :
    c.program.symbolOf id = some member := by
  unfold boundMember at found
  split at found
  · exact found
  · exact found
  · contradiction

variable (h : c.program.Allows t)
include h

theorem implicitReceiver_takes (known : t.nodes id) :
    c.TakesOption t [] (c.implicitReceiver member id) := by
  unfold implicitReceiver
  split
  · exact .none
  · split
    · exact .none
    · exact TakesOne.optional (.emit (h.adds _ (by simpa using known) (by simp)) (by simp))

theorem firstImplicitReceiver_takes (known : t.nodes id) :
    (candidates : List SymbolId) → c.TakesOption t [] (c.firstImplicitReceiver id candidates)
  | [] => .none
  | member :: rest => by
    unfold firstImplicitReceiver
    refine Takes.finish (implicitReceiver_takes h known) fun receiver => ?_
    cases receiver with
    | none => exact firstImplicitReceiver_takes known rest
    | some receiver => exact .pure (.refl _)

theorem reference_takes (known : t.nodes id) {target : Option OperationId}
    (kept : used ⊆ target.toList) (free : c.program.isVariable symbol = true → used = []) :
    c.Takes t used [] (c.reference id symbol target) fun i => [i] := by
  unfold reference
  split
  · next kind chosen =>
    refine emitValued_takes h known (referenceKind_other chosen) ?_
    cases taken : c.program.isVariable symbol with
    | true => simp [free taken]
    | false => exact List.Subset.trans kept (referenceKind_keeps chosen taken)
  · exact invalidExpression_takes h known kept

omit h in
theorem receiver_takes (receiver : SyntaxId) :
    c.TakesOption t (c.receiverParts receiver)
      (c.expression? (if c.isTypeName receiver then none else some receiver)) := by
  unfold receiverParts
  split
  · exact .none
  · exact (TakesOne.expression receiver).optional

theorem lateBoundReceiver_takes (known : t.nodes id) (receiver : Option SyntaxId) :
    c.TakesOption t (receiver.toList.flatMap c.receiverParts)
      (c.lateBoundReceiver id receiver candidates) := by
  cases receiver with
  | none => exact firstImplicitReceiver_takes h known candidates
  | some receiver =>
    unfold lateBoundReceiver
    simp only [Option.toList_some, List.flatMap_singleton]
    unfold receiverParts
    split
    · exact .none
    · exact (TakesOne.expression receiver).optional

theorem lateBoundMember_takes (known : t.nodes id) (receiver : Option SyntaxId) (name : String)
    (typeArguments : List TypeId) (called : Bool) :
    c.TakesOne t (receiver.toList.flatMap c.receiverParts)
      (c.lateBoundMember id receiver name typeArguments candidates called) := by
  unfold lateBoundMember
  exact Takes.finish (lateBoundReceiver_takes h known receiver) fun target =>
    .emit (h.adds _ (by simpa using known) (by simp)) (by simp [OperationKind.children])

theorem name_takes (known : t.nodes id) (text : String) : c.TakesOne t [] (c.name id text) := by
  unfold name
  split
  · exact lateBoundMember_takes h known none text [] false
  · split
    · exact invalidExpression_takes h known (.refl _)
    · next symbol found =>
      by_cases taken : c.program.isVariable symbol = true
      · rw [implicitReceiver_eq_none taken]
        exact reference_takes h known (List.nil_subset _) fun _ => rfl
      · exact Takes.finish (implicitReceiver_takes h known) fun receiver =>
          reference_takes h known (.refl _) fun variable_ => absurd variable_ taken

theorem memberAccess_takes (known : t.nodes id) {name : String} {typeArguments : List TypeId}
    (form : c.formOf id = some (.memberAccess receiver name typeArguments)) :
    c.TakesOne t (c.memberParts id receiver) (c.memberAccess id receiver name typeArguments) := by
  have parts : (some receiver).toList.flatMap c.receiverParts = c.receiverParts receiver := by simp
  unfold memberAccess memberParts
  by_cases late : c.isLateBoundAccess id receiver = true
  · simp only [late, ↓reduceIte, Bool.not_true, Bool.false_and, Bool.false_eq_true]
    rw [← parts]
    exact lateBoundMember_takes h known (some receiver) name typeArguments false
  · simp only [late, ↓reduceIte, Bool.not_false, Bool.true_and, Bool.false_eq_true]
    cases found : c.boundMember id with
    | none =>
      exact Takes.finish (receiver_takes receiver) fun target =>
        invalidExpression_takes h known (.refl _)
    | some member =>
      have alone (target : Option OperationId) : c.TakesOne t [] (c.reference id member target) :=
        reference_takes h known (by simp) fun _ => rfl
      cases static : c.isStatic member with
      | true =>
        have taken : c.TakesOne t [] (do
            let target ← c.expression? none
            c.reference id member target) := alone none
        simpa [static] using taken
      | false =>
        suffices taken : c.TakesOne t (c.receiverParts receiver) (do
            let target ← c.expression? (if c.isTypeName receiver then none else some receiver)
            c.reference id member target) by
          cases named : c.isTypeName receiver <;> simpa [static, named] using taken
        by_cases variable_ : c.program.isVariable member = true
        · -- the receiver of a variable is lowered in vain
          unfold receiverParts
          split
          · exact alone none
          · have may : t.forgoes receiver := h.forgoes id receiver
              ⟨name, typeArguments, member, form, symbolOf_of_boundMember found, variable_⟩
            exact Takes.forgo (.expression receiver) (f := fun i => c.reference id member i) may rfl
              fun i => alone (some i)
        · exact Takes.finish (receiver_takes receiver) fun target =>
            reference_takes h known (.refl _) fun taken => absurd taken variable_

theorem lateBoundTarget_takes (inside : t.nodes callee) :
    c.TakesOne t (c.lateBoundTargetParts callee) (c.lateBoundTarget callee candidates) := by
  unfold lateBoundTarget lateBoundTargetParts
  cases found : c.formOf callee with
  | none => exact .expression callee
  | some form =>
    cases form with
    | memberAccess receiver name typeArguments =>
      have taken : c.TakesOne t ((some receiver).toList.flatMap c.receiverParts)
          (c.lateBoundMember callee (some receiver) name typeArguments
            (c.candidatesOf callee candidates) true) :=
        lateBoundMember_takes h inside (some receiver) name typeArguments true
      simpa using taken
    | identifier name =>
      dsimp only
      split
      · exact lateBoundMember_takes h inside none name [] true
      · exact .expression callee
    | _ => exact .expression callee

omit h in
/-- Arguments that are resolved at run time give their values back. -/
theorem lateBoundArguments_take (arguments : List SyntaxId) :
    c.Takes t [] (arguments.map .expression) (arguments.mapM c.lateBoundArgument) fun values =>
      values.map DynamicArgument.value := by
  have all := Takes.mapM (c := c) (t := t) (l := arguments) fun id _ =>
    show c.Takes t [] [.expression id] (c.lateBoundArgument id) (fun value => [value.value]) from
      Takes.finish (TakesOne.expression id) fun _ => .pure (.refl _)
  simp only [← List.map_eq_flatMap] at all
  exact all

theorem lateBoundCall_takes (known : t.nodes id) (inside : t.nodes callee) :
    c.TakesOne t (c.lateBoundTargetParts callee ++ arguments.map .expression)
      (c.lateBoundCall id callee arguments candidates) := by
  unfold lateBoundCall
  exact Takes.bind (lateBoundTarget_takes h inside) fun target =>
    Takes.finish (lateBoundArguments_take arguments) fun values =>
      .emit (h.adds _ (by simpa using known) (by simp))
        (by simp [OperationKind.children, DynamicAccess.withArguments])

theorem lateBoundElement_takes (known : t.nodes id) :
    c.TakesOne t (.expression receiver :: arguments.map .expression)
      (c.lateBoundElement id receiver arguments) := by
  unfold lateBoundElement
  exact Takes.bind (TakesOne.expression receiver) fun target =>
    Takes.finish (lateBoundArguments_take arguments) fun values =>
      .emit (h.adds _ (by simpa using known) (by simp))
        (by simp [OperationKind.children, DynamicAccess.withArguments])

theorem lateBoundCreation_takes (known : t.nodes id) (type : TypeId) :
    c.TakesOne t (arguments.map .expression) (c.lateBoundCreation id type arguments) := by
  unfold lateBoundCreation
  exact Takes.finish (lateBoundArguments_take arguments) fun values =>
    .emit (h.adds _ (by simpa using known) (by simp))
      (by simp [OperationKind.children, DynamicAccess.withArguments])

theorem defaultArgument_takes (known : t.nodes id) (parameter : SymbolId) :
    c.TakesOne t [] (c.defaultArgument id parameter) := by
  have literal : c.TakesOne t [] (emit (((c.plain .literal id).withType
      ((c.symbol? parameter).bind Symbol.type)).withConstant
        ((c.symbol? parameter).bind Symbol.default)).implicit) :=
    .emit (h.adds _ (by simpa using known) (by simp)) (by simp)
  unfold defaultArgument
  exact Takes.finish literal fun value =>
    .emit (h.adds _ (by simpa using known) (by simp)) (by simp [OperationKind.children])

theorem boundArgument_takes (known : t.nodes id) {binding : Binding}
    (inside : ∀ a ∈ binding.lowered, t.nodes a) :
    c.TakesOne t (bindingParts binding) (c.boundArgument id binding) := by
  have missing (kind : ArgumentKind) : c.TakesOne t [] (do
      let value ← c.invalidExpression id []
      emit (c.plain (.argument kind binding.parameter value) id).implicit) :=
    Takes.finish (invalidExpression_takes h known (.refl _)) fun value =>
      .emit (h.adds _ (by simpa using known) (by simp)) (by simp [OperationKind.children])
  have written (kind : ArgumentKind) (argument : SyntaxId) (listed : t.nodes argument) :
      c.TakesOne t [.expression argument] (do
        let value ← c.expression argument
        c.emitPlain (.argument kind binding.parameter value) argument) :=
    Takes.finish (TakesOne.expression argument) fun value =>
      emitPlain_takes h listed rfl (by simp)
  unfold boundArgument bindingParts
  cases kind : binding.kind <;> cases given : binding.argument
  case default.none => exact defaultArgument_takes h known _
  case default.some argument => exact defaultArgument_takes h known _
  case explicit.none => exact missing _
  case collected.none => exact missing _
  case explicit.some argument =>
    exact written _ argument (inside argument (by rw [Binding.lowered, kind, given]; rfl))
  case collected.some argument =>
    exact written _ argument (inside argument (by rw [Binding.lowered, kind, given]; rfl))

theorem boundArguments_take (known : t.nodes id) {form : Form} {bindings : List Binding}
    (found : c.formOf id = some form) (call : form.IsCall)
    (resolved : c.program.resolutionOf id = some (.resolved member bindings)) :
    c.Takes t [] (bindings.flatMap bindingParts) (bindings.mapM (c.boundArgument id))
      fun values => values :=
  TakesOne.mapM fun _ listed =>
    boundArgument_takes h known (h.lowered known found call resolved listed)

theorem salvageCall_takes (known : t.nodes id) (receiver : Option OperationId) :
    c.Takes t receiver.toList (arguments.map .expression) (c.salvageCall id receiver arguments)
      fun i => [i] :=
  Takes.finish (TakesOne.expressions arguments) fun _ => invalidExpression_takes h known (.refl _)

omit h in
theorem salvageCallee_takes (callee : SyntaxId) :
    c.TakesOption t (c.salvagedCalleeParts callee) (c.salvageCallee callee) := by
  unfold salvageCallee salvagedCalleeParts
  cases c.formOf callee with
  | none => exact (TakesOne.expression callee).optional
  | some form =>
    cases form with
    | memberAccess receiver name typeArguments => exact receiver_takes receiver
    | identifier name => exact .none
    | _ => exact (TakesOne.expression callee).optional

theorem callReceiver_takes (inside : t.nodes callee) :
    c.TakesOption t (c.callReceiverParts callee member) (c.callReceiver callee member) := by
  unfold callReceiver callReceiverParts
  cases c.formOf callee with
  | none => exact (TakesOne.expression callee).optional
  | some form =>
    cases form with
    | memberAccess receiver name typeArguments =>
      cases static : c.isStatic member with
      | true => exact .none
      | false => simpa [static] using receiver_takes (c := c) (t := t) receiver
    | identifier name =>
      cases named : c.program.symbolOf callee with
      | none => simpa [named] using implicitReceiver_takes h inside
      | some symbol =>
        by_cases same : symbol = member
        · simpa [named, same] using implicitReceiver_takes h inside
        · simpa [named, same] using (TakesOne.expression (c := c) (t := t) callee).optional
    | _ => exact (TakesOne.expression callee).optional

theorem unboundCall_takes (known : t.nodes id) (callee : SyntaxId) :
    c.TakesOne t (c.salvagedCalleeParts callee ++ arguments.map .expression)
      (c.unboundCall id callee arguments) :=
  Takes.bind (salvageCallee_takes callee) fun receiver => salvageCall_takes h known receiver

theorem invocation_takes (known : t.nodes id)
    (found : c.formOf id = some (.invocation callee arguments)) :
    c.TakesOne t (c.invocationParts id callee arguments) (c.invocation id callee arguments) := by
  have inside : t.nodes callee := h.child known found (by simp [Form.children])
  unfold invocation invocationParts
  split
  · exact lateBoundCall_takes h known inside
  · cases resolved : c.program.resolutionOf id with
    | none => exact unboundCall_takes h known callee
    | some resolution =>
      cases resolution with
      | resolved member bindings =>
        exact Takes.bind (callReceiver_takes h inside) fun receiver =>
          Takes.finish (boundArguments_take h known found trivial resolved) fun values =>
            emitValued_takes h known rfl (by simp)
      | lateBound candidates =>
        dsimp only
        split
        · exact lateBoundCall_takes h known inside
        · exact unboundCall_takes h known callee
      | failed reason candidates => exact unboundCall_takes h known callee

theorem unboundElement_takes (known : t.nodes id) (receiver : SyntaxId) :
    c.TakesOne t (.expression receiver :: arguments.map .expression)
      (c.unboundElement id receiver arguments) :=
  Takes.bind (TakesOne.expression receiver) fun target => salvageCall_takes h known (some target)

theorem elementAccess_takes (known : t.nodes id)
    (found : c.formOf id = some (.elementAccess receiver arguments)) :
    c.TakesOne t (c.elementParts id receiver arguments)
      (c.elementAccess id receiver arguments) := by
  unfold elementAccess elementParts
  split
  · exact lateBoundElement_takes h known
  · cases resolved : c.program.resolutionOf id with
    | none =>
      dsimp only
      split
      · exact Takes.bind (TakesOne.expression receiver) fun array =>
          Takes.finish (TakesOne.expressions arguments) fun indices =>
            emitValued_takes h known rfl (by simp)
      · exact unboundElement_takes h known receiver
    | some resolution =>
      cases resolution with
      | resolved member bindings =>
        exact Takes.bind (TakesOne.expression receiver) fun target =>
          Takes.finish (boundArguments_take h known found trivial resolved) fun values =>
            emitValued_takes h known rfl (by simp)
      | lateBound candidates =>
        dsimp only
        split
        · exact lateBoundElement_takes h known
        · exact unboundElement_takes h known receiver
      | failed reason candidates => exact unboundElement_takes h known receiver

theorem objectCreation_takes (known : t.nodes id) {type : TypeId}
    (found : c.formOf id = some (.objectCreation type arguments)) :
    c.TakesOne t (c.creationParts id arguments) (c.objectCreation id type arguments) := by
  unfold objectCreation creationParts
  cases resolved : c.program.resolutionOf id with
  | none => exact salvageCall_takes h known none
  | some resolution =>
    cases resolution with
    | resolved member bindings =>
      exact Takes.finish (boundArguments_take h known found trivial resolved) fun values =>
        .emit (h.adds _ (by simpa using known) (by simp)) (by simp [OperationKind.children])
    | lateBound candidates =>
      dsimp only
      split
      · exact lateBoundCreation_takes h known type
      · exact salvageCall_takes h known none
    | failed reason candidates => exact salvageCall_takes h known none

theorem assignment_takes (known : t.nodes id) (operator : Option BinaryOperator)
    (target value : SyntaxId) :
    c.TakesOne t [.expression target, .expression value]
      (c.assignment id operator target value) := by
  unfold assignment
  refine Takes.bind (TakesOne.expression target) fun target =>
    Takes.finish (TakesOne.expression value) fun value => ?_
  cases operator with
  | none => exact emitValued_takes h known rfl (by simp)
  | some operator => exact emitValued_takes h known rfl (by simp)

omit h in
/-- Casts are conversions that were written. -/
theorem cast_takes {type : TypeId} {operand : SyntaxId}
    (found : c.formOf id = some (.cast type operand))
    (may : ∀ o, c.program.Records o → o.origin = id → t.adds o) :
    c.TakesOne t [.expression operand] (c.cast id type operand) := by
  unfold cast
  refine Takes.finish (TakesOne.expression operand) fun operand =>
    .emit (may _ ?_ (by simp)) (by simp [OperationKind.children])
  refine .cast found rfl ?_ rfl rfl
  show c.program.CastAs id _
  unfold Program.CastAs
  cases c.program.conversionOf id with
  | none => rfl
  | some conversion => exact fun _ => rfl

theorem lambdaBody_takes (inside : t.nodes body) :
    c.TakesOne t [c.lambdaPart body]
      ((c.within (c.program.rootScope body)).lambdaBody body) := by
  have returning : c.TakesOne t [⟨.lambda body, .expression, body⟩] (do
      let value ← (c.within (c.program.rootScope body)).expression body
      let returned ←
        emit ((c.within (c.program.rootScope body)).plain (.returnValue (some value)) body).implicit
      emit ((c.within (c.program.rootScope body)).plain (.block [returned]) body).implicit) :=
    Takes.finish (TakesOne.part ⟨.lambda body, .expression, body⟩ rfl) fun value =>
      Takes.andThen
        (.emit (h.adds _ (by simpa using inside) (by simp)) (by simp [OperationKind.children]))
        fun returned =>
          .emit (h.adds _ (by simpa using inside) (by simp)) (by simp [OperationKind.children])
  unfold lambdaBody lambdaPart
  rw [show (c.within (c.program.rootScope body)).formOf body = c.formOf body from rfl]
  cases c.formOf body with
  | none => exact returning
  | some form =>
    cases form with
    | block statements => exact TakesOne.part ⟨.lambda body, .statement, body⟩ rfl
    | _ => exact returning

theorem lambda_takes (known : t.nodes id) (inside : t.nodes body) :
    c.TakesOne t [c.lambdaPart body] (c.lambda id body) := by
  unfold lambda
  exact Takes.finish (lambdaBody_takes h inside) fun body =>
    emitValued_takes h known rfl (by simp)

omit h in
theorem parenthesized_takes (id : SyntaxId) {inner : SyntaxId}
    (may : ∀ s, let lowered := (c.expression inner).run s; t.associates lowered.2 id lowered.1) :
    c.TakesOne t [.expression inner] (c.parenthesized id inner) := by
  intro s frame
  refine .call (.associate (may s) (.done ?_))
  rw [List.append_nil]
  exact .refl _

/-- What a form does that not all terms allow: a cast is a conversion, and parentheses associate. -/
structure FormAllowed (c : Context) (t : Terms) (id : SyntaxId) : Prop where
  cast : ∀ type operand, c.formOf id = some (.cast type operand) →
    ∀ o, c.program.Records o → o.origin = id → t.adds o
  parenthesized : ∀ inner, c.formOf id = some (.parenthesized inner) →
    ∀ s, let lowered := (c.expression inner).run s; t.associates lowered.2 id lowered.1

theorem expressionForm_takes (known : t.nodes id) (may : c.FormAllowed t id) :
    c.TakesOne t (c.expressionParts id (c.formOf id)) (c.expressionForm id (c.formOf id)) := by
  cases found : c.formOf id with
  | none => exact invalidExpression_takes h known (.refl _)
  | some form =>
    have inside : ∀ child ∈ form.children, t.nodes child :=
      fun child listed => h.child known found listed
    cases form with
    | literal text => exact emitValued_takes h known rfl (by simp)
    | identifier name => exact name_takes h known name
    | this => exact emitValued_takes h known rfl (by simp)
    | memberAccess receiver name typeArguments => exact memberAccess_takes h known found
    | invocation callee arguments => exact invocation_takes h known found
    | elementAccess receiver arguments => exact elementAccess_takes h known found
    | argument name passing expression => exact .expression expression
    | objectCreation type arguments => exact objectCreation_takes h known found
    | binary operator left right =>
      exact Takes.bind (TakesOne.expression left) fun left =>
        Takes.finish (TakesOne.expression right) fun right =>
          emitValued_takes h known rfl (by simp)
    | unary operator operand =>
      exact Takes.finish (TakesOne.expression operand) fun operand =>
        emitValued_takes h known rfl (by simp)
    | assignment operator target value => exact assignment_takes h known operator target value
    | addressOf operand =>
      exact Takes.finish (TakesOne.expression operand) fun reference =>
        emitValued_takes h known rfl (by simp)
    | cast type operand => exact cast_takes found (may.cast type operand found)
    | parenthesized inner => exact parenthesized_takes id (may.parenthesized inner found)
    | lambda parameters body =>
      exact lambda_takes h known (inside body (by simp [Form.children]))
    | _ => exact invalidExpression_takes h known (.refl _)

omit h in
theorem requiredConversion_eq_some_iff {conversion : Conversion} :
    c.requiredConversion id = some conversion ↔ c.program.Requires id conversion := by
  simp [requiredConversion, Program.Requires, Option.filter_eq_some_iff]

omit h in
theorem converted_takes (may : ∀ o, c.program.Records o → o.origin = id → t.adds o)
    (i : OperationId) : c.Takes t [i] [] (c.converted id i) fun i => [i] := by
  unfold converted
  split
  · exact .pure (.refl _)
  · next conversion required =>
    refine .emit (may _ ?_ (by simp)) (by simp [OperationKind.children])
    exact .required (requiredConversion_eq_some_iff.mp required) rfl rfl rfl

theorem lowerExpression_takes (known : t.nodes id) (may : c.FormAllowed t id)
    (conversions : ∀ o, c.program.Records o → o.origin = id → t.adds o) :
    c.TakesOne t (c.expressionParts id (c.formOf id)) (c.lowerExpression id) :=
  Takes.finish (expressionForm_takes h known may) fun i => converted_takes conversions i

end SemanticTrees.Context
