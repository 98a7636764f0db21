import SemanticTrees.Proofs.Lowering.Trail

/-! Every form of expression walks its parts, in order, and adds operations that mention only what
the program supplies. -/
namespace SemanticTrees.Context

open Lowering

variable {c : Context} {v : Vocabulary} {id receiver callee body : SyntaxId} {member : SymbolId}
  {arguments : List SyntaxId} {candidates : List SymbolId} {form : Form}
  (h : c.program.Supplies v)
include h

theorem typeNamed_known (known : c.formOf id = some form) {type : TypeId}
    (named : type ∈ form.typesNamed) : v.types type :=
  h.typeNamed id form known type named

theorem child_known (known : c.formOf id = some form) {child : SyntaxId}
    (member : child ∈ form.children) : v.nodes child :=
  h.child id form known child member

theorem dynamicType_known {type : TypeId} (found : c.dynamicType = some type) : v.types type := by
  obtain ⟨inside, _⟩ := Array.findIdx?_eq_some_iff_getElem.mp found
  exact h.listedType type inside

theorem covers_lateBound {kind : OperationKind} (known : v.nodes id)
    (covered : v.CoversKind kind) : v.Covers (c.lateBound kind id) := by
  have valued := covers_valued h known covered
  unfold lateBound
  dsimp only
  split
  · exact valued
  · exact valued.withType fun type found => dynamicType_known h found

theorem knownContainingType_known {receiver : Option SyntaxId} {type : TypeId}
    (found : c.knownContainingType receiver candidates = some type) : v.types type := by
  unfold knownContainingType at found
  split at found
  · contradiction
  · obtain inCandidates | ofReceiver := Option.or_eq_some_iff.mp found
    · obtain ⟨symbol, _, contained⟩ := List.exists_of_findSome?_eq_some inCandidates
      obtain ⟨declared, stored, containing⟩ := Option.bind_eq_some_iff.mp contained
      exact h.containingType symbol declared stored type containing
    · obtain ⟨receiver, _, typed⟩ := Option.bind_eq_some_iff.mp ofReceiver.2
      exact h.type receiver type typed

theorem implicitReceiver_walks (known : v.nodes id) :
    c.Walks v [] (c.implicitReceiver member id) := by
  unfold implicitReceiver
  split
  · exact .pure none
  · next symbol stored =>
    split
    · exact .pure none
    · refine Walks.map some (.emit (Vocabulary.Covers.implicit ?_))
      exact (covers_plain known (.of_nil rfl rfl)).withType (h.containingType _ _ stored)

theorem firstImplicitReceiver_walks (known : v.nodes id) :
    (candidates : List SymbolId) → c.Walks v [] (c.firstImplicitReceiver id candidates)
  | [] => .pure none
  | member :: rest => by
    unfold firstImplicitReceiver
    refine Walks.finish (implicitReceiver_walks h known) fun receiver => ?_
    cases receiver with
    | none => exact firstImplicitReceiver_walks known rest
    | some receiver => exact .pure (some receiver)

omit h in
theorem referenceKind_covered {symbol : SymbolId} {receiver : Option OperationId}
    {kind : OperationKind} (known : v.symbols symbol)
    (chosen : c.referenceKind symbol receiver = some kind) : v.CoversKind kind := by
  unfold referenceKind at chosen
  split at chosen
  · contradiction
  · split at chosen <;> cases chosen <;> exact .of_symbol rfl rfl known

theorem reference_walks {symbol : SymbolId} (known : v.nodes id) (named : v.symbols symbol)
    (receiver : Option OperationId) : c.Walks v [] (c.reference id symbol receiver) := by
  unfold reference
  split
  · next kind chosen => exact emitValued_walks h known (referenceKind_covered named chosen)
  · exact invalidExpression_walks h known _

omit h in
theorem receiver_walks (known : v.nodes receiver) :
    c.Walks v (c.receiverParts receiver)
      (c.expression? (if c.isTypeName receiver then none else some receiver)) := by
  unfold receiverParts
  split
  · exact .pure none
  · exact .map some (.expression known)

theorem lateBoundReceiver_walks (known : v.nodes id) (receiver : Option SyntaxId)
    (inside : ∀ r ∈ receiver, v.nodes r) :
    c.Walks v (receiver.toList.flatMap c.receiverParts)
      (c.lateBoundReceiver id receiver candidates) := by
  cases receiver with
  | none => exact firstImplicitReceiver_walks h known candidates
  | some receiver =>
    unfold lateBoundReceiver
    simp only [Option.toList_some, List.flatMap_singleton]
    unfold receiverParts
    split
    · exact .pure none
    · exact .map some (.expression (inside receiver rfl))

theorem lateBoundMember_walks (known : v.nodes id) (receiver : Option SyntaxId)
    (inside : ∀ r ∈ receiver, v.nodes r) (name : String) (typeArguments : List TypeId)
    (typed : ∀ type ∈ typeArguments, v.types type) (called : Bool) :
    c.Walks v (receiver.toList.flatMap c.receiverParts)
      (c.lateBoundMember id receiver name typeArguments candidates called) := by
  unfold lateBoundMember
  refine Walks.finish (lateBoundReceiver_walks h known receiver inside) fun target => .emit ?_
  refine (covers_lateBound h known (.of_access rfl rfl ?_)).invalidIf _
  intro type named
  obtain containing | argument := List.mem_append.mp named
  · exact knownContainingType_known h (Option.mem_toList.mp containing)
  · exact typed type argument

theorem name_walks (known : v.nodes id) (text : String) : c.Walks v [] (c.name id text) := by
  unfold name
  split
  · exact lateBoundMember_walks h known none (by simp) text [] (by simp) false
  · split
    · exact invalidExpression_walks h known _
    · next symbol found =>
      exact .finish (implicitReceiver_walks h known) fun receiver =>
        reference_walks h known (h.symbol id symbol found) receiver

theorem boundMember_known (found : c.boundMember id = some member) : v.symbols member := by
  unfold boundMember at found
  split at found
  · exact h.symbol id member found
  · exact h.symbol id member found
  · contradiction

theorem memberAccess_walks (known : v.nodes id) (inside : v.nodes receiver) (name : String)
    {typeArguments : List TypeId} (typed : ∀ type ∈ typeArguments, v.types type) :
    c.Walks v (c.memberParts id receiver) (c.memberAccess id receiver name typeArguments) := by
  have parts : (some receiver).toList.flatMap c.receiverParts = c.receiverParts receiver := by simp
  unfold memberAccess memberParts
  by_cases late : c.isLateBoundAccess id receiver = true
  · simp only [late, ↓reduceIte, Bool.not_true, Bool.false_and, Bool.false_eq_true]
    rw [← parts]
    exact lateBoundMember_walks h known (some receiver) (by simpa using inside) name
      typeArguments typed false
  · simp only [late, ↓reduceIte, Bool.not_false, Bool.true_and, Bool.false_eq_true]
    cases found : c.boundMember id with
    | none => exact .finish (receiver_walks inside) fun target => invalidExpression_walks h known _
    | some member =>
      have last (target : Option OperationId) : c.Walks v [] (c.reference id member target) :=
        reference_walks h known (boundMember_known h found) target
      cases static : c.isStatic member with
      | true => simpa [static] using Walks.finish (m := c.expression? none) (.pure none) last
      | false =>
        have walked := Walks.finish (receiver_walks (c := c) inside) last
        cases named : c.isTypeName receiver <;> simpa [static, named] using walked

theorem lateBoundTarget_walks (inside : v.nodes callee) :
    c.Walks v (c.lateBoundTargetParts callee) (c.lateBoundTarget callee candidates) := by
  unfold lateBoundTarget lateBoundTargetParts
  cases found : c.formOf callee with
  | none => exact .expression inside
  | some form =>
    cases form with
    | memberAccess receiver name typeArguments =>
      have taken : v.nodes receiver := child_known h found (by simp [Form.children])
      have walked : c.Walks v ((some receiver).toList.flatMap c.receiverParts)
          (c.lateBoundMember callee (some receiver) name typeArguments
            (c.candidatesOf callee candidates) true) :=
        lateBoundMember_walks h inside _ (by simpa using taken) name _
          (fun type named => typeNamed_known h found named) true
      simpa using walked
    | identifier name =>
      dsimp only
      split
      · exact lateBoundMember_walks h inside none (by simp) name [] (by simp) true
      · exact .expression inside
    | _ => exact .expression inside

omit h in
theorem lateBoundArguments_walks (inside : ∀ a ∈ arguments, v.nodes a) :
    c.Walks v (arguments.map .expression) (arguments.mapM c.lateBoundArgument) :=
  Walks.mapM_single fun a listed =>
    Walks.finish (.expression (inside a listed)) fun _ => .pure _

theorem lateBoundCall_walks (known : v.nodes id) (inside : v.nodes callee)
    (within : ∀ a ∈ arguments, v.nodes a) :
    c.Walks v (c.lateBoundTargetParts callee ++ arguments.map .expression)
      (c.lateBoundCall id callee arguments candidates) := by
  unfold lateBoundCall
  refine Walks.bind (lateBoundTarget_walks h inside) fun target =>
    Walks.finish (lateBoundArguments_walks within) fun values => .emit ?_
  refine (covers_lateBound h known (.of_access rfl rfl ?_)).invalidIf _
  rw [DynamicAccess.typesNamed_withArguments]
  simp [DynamicAccess.typesNamed, DynamicAccess.unknown]

theorem lateBoundElement_walks (known : v.nodes id) (inside : v.nodes receiver)
    (within : ∀ a ∈ arguments, v.nodes a) :
    c.Walks v (.expression receiver :: arguments.map .expression)
      (c.lateBoundElement id receiver arguments) := by
  unfold lateBoundElement
  refine Walks.bind (Walks.expression inside) fun target =>
    Walks.finish (lateBoundArguments_walks within) fun values => .emit ?_
  refine (covers_lateBound h known (.of_access rfl rfl ?_)).invalidIf _
  rw [DynamicAccess.typesNamed_withArguments]
  intro type named
  have containing : c.isDynamic receiver = false ∧ c.typeOf receiver = some type := by
    simpa [DynamicAccess.typesNamed, DynamicAccess.unknown] using named
  exact h.type receiver type containing.2

theorem lateBoundCreation_walks (known : v.nodes id) {type : TypeId} (typed : v.types type)
    (within : ∀ a ∈ arguments, v.nodes a) :
    c.Walks v (arguments.map .expression) (c.lateBoundCreation id type arguments) := by
  have named : ∀ t ∈ some type, v.types t := by simpa using typed
  unfold lateBoundCreation
  refine Walks.finish (lateBoundArguments_walks within) fun values => .emit ?_
  refine ((covers_valued h known (.of_access rfl rfl ?_)).withType named).invalidIf _
  rw [DynamicAccess.typesNamed_withArguments]
  simpa [DynamicAccess.typesNamed, DynamicAccess.unknown] using typed

theorem defaultArgument_walks (known : v.nodes id) {parameter : SymbolId}
    (named : v.symbols parameter) : c.Walks v [] (c.defaultArgument id parameter) := by
  have typed : ∀ type ∈ (c.symbol? parameter).bind Symbol.type, v.types type := by
    intro type found
    obtain ⟨declared, stored, declaredType⟩ := Option.bind_eq_some_iff.mp found
    exact h.symbolType parameter declared stored type declaredType
  have literal : v.Covers (c.plain .literal id) := covers_plain known (.of_nil rfl rfl)
  unfold defaultArgument
  refine Walks.finish (.emit ((literal.withType typed).withConstant _).implicit) fun value => ?_
  exact .emit (covers_plain known (.of_symbol rfl rfl named)).implicit

theorem boundArgument_walks (known : v.nodes id) {binding : Binding}
    (named : v.symbols binding.parameter) (inside : ∀ a ∈ binding.argument, v.nodes a) :
    c.Walks v (bindingParts binding) (c.boundArgument id binding) := by
  have covered (kind : ArgumentKind) (value : OperationId) :
      v.CoversKind (.argument kind binding.parameter value) :=
    .of_symbol rfl rfl named
  have missing (kind : ArgumentKind) : c.Walks v [] (do
      let value ← c.invalidExpression id []
      emit (c.plain (.argument kind binding.parameter value) id).implicit) :=
    .finish (invalidExpression_walks h known _) fun value =>
      .emit (covers_plain known (covered kind value)).implicit
  have written (kind : ArgumentKind) (argument : SyntaxId) (listed : v.nodes argument) :
      c.Walks v [.expression argument] (do
        let value ← c.expression argument
        c.emitPlain (.argument kind binding.parameter value) argument) :=
    .finish (.expression listed) fun value => emitPlain_walks listed (covered kind value)
  unfold boundArgument bindingParts
  cases kind : binding.kind <;> cases given : binding.argument
  case default.none => exact defaultArgument_walks h known named
  case default.some argument => exact defaultArgument_walks h known named
  case explicit.none => exact missing _
  case collected.none => exact missing _
  case explicit.some argument => exact written _ argument (inside argument given)
  case collected.some argument => exact written _ argument (inside argument given)

theorem boundArguments_walks (known : v.nodes id) {bindings : List Binding}
    (found : c.program.resolutionOf id = some (.resolved member bindings)) :
    c.Walks v (bindings.flatMap bindingParts) (bindings.mapM (c.boundArgument id)) :=
  Walks.mapM fun binding listed =>
    boundArgument_walks h known (h.parameter id member bindings found binding listed)
      (h.argument id member bindings found binding listed)

omit h in
theorem expressions_walk (within : ∀ a ∈ arguments, v.nodes a) :
    c.Walks v (arguments.map .expression) (arguments.mapM c.expression) :=
  Walks.mapM_single fun a listed => .expression (within a listed)

theorem salvageCall_walks (known : v.nodes id) (within : ∀ a ∈ arguments, v.nodes a)
    (receiver : Option OperationId) :
    c.Walks v (arguments.map .expression) (c.salvageCall id receiver arguments) :=
  .finish (expressions_walk within) fun _ => invalidExpression_walks h known _

theorem salvageCallee_walks (inside : v.nodes callee) :
    c.Walks v (c.salvagedCalleeParts callee) (c.salvageCallee callee) := by
  unfold salvageCallee salvagedCalleeParts
  cases found : c.formOf callee with
  | none => exact .map some (.expression inside)
  | some form =>
    cases form with
    | memberAccess receiver name typeArguments =>
      exact receiver_walks (child_known h found (by simp [Form.children]))
    | identifier name => exact .pure none
    | _ => exact .map some (.expression inside)

theorem callReceiver_walks (inside : v.nodes callee) :
    c.Walks v (c.callReceiverParts callee member) (c.callReceiver callee member) := by
  unfold callReceiver callReceiverParts
  cases found : c.formOf callee with
  | none => exact .map some (.expression inside)
  | some form =>
    cases form with
    | memberAccess receiver name typeArguments =>
      have taken : v.nodes receiver := child_known h found (by simp [Form.children])
      cases static : c.isStatic member with
      | true => exact .pure none
      | false => simpa [static] using receiver_walks (c := c) taken
    | identifier name =>
      cases named : c.program.symbolOf callee with
      | none => simpa [named] using implicitReceiver_walks h inside
      | some symbol =>
        by_cases same : symbol = member
        · simpa [named, same] using implicitReceiver_walks h inside
        · simpa [named, same] using Walks.map some (Walks.expression inside)
    | _ => exact .map some (.expression inside)

theorem unboundCall_walks (known : v.nodes id) (inside : v.nodes callee)
    (within : ∀ a ∈ arguments, v.nodes a) :
    c.Walks v (c.salvagedCalleeParts callee ++ arguments.map .expression)
      (c.unboundCall id callee arguments) :=
  .bind (salvageCallee_walks h inside) fun receiver => salvageCall_walks h known within receiver

theorem resolved_known {bindings : List Binding}
    (found : c.program.resolutionOf id = some (.resolved member bindings)) : v.symbols member :=
  h.candidate id _ found member (by simp [Resolution.candidates])

theorem invocation_walks (known : v.nodes id) (inside : v.nodes callee)
    (within : ∀ a ∈ arguments, v.nodes a) :
    c.Walks v (c.invocationParts id callee arguments) (c.invocation id callee arguments) := by
  unfold invocation invocationParts
  split
  · exact lateBoundCall_walks h known inside within
  · cases found : c.program.resolutionOf id with
    | none => exact unboundCall_walks h known inside within
    | some resolution =>
      cases resolution with
      | resolved member bindings =>
        have covered (receiver : Option OperationId) (isVirtual : Bool)
            (values : List OperationId) :
            v.CoversKind (.invocation member receiver isVirtual values) :=
          .of_symbol rfl rfl (resolved_known h found)
        exact .bind (callReceiver_walks h inside) fun receiver =>
          .finish (boundArguments_walks h known found) fun values =>
            emitValued_walks h known (covered _ _ _)
      | lateBound candidates =>
        dsimp only
        split
        · exact lateBoundCall_walks h known inside within
        · exact unboundCall_walks h known inside within
      | failed reason candidates => exact unboundCall_walks h known inside within

theorem unboundElement_walks (known : v.nodes id) (inside : v.nodes receiver)
    (within : ∀ a ∈ arguments, v.nodes a) :
    c.Walks v (.expression receiver :: arguments.map .expression)
      (c.unboundElement id receiver arguments) :=
  Walks.bind (Walks.expression inside) fun target => salvageCall_walks h known within (some target)

theorem elementAccess_walks (known : v.nodes id) (inside : v.nodes receiver)
    (within : ∀ a ∈ arguments, v.nodes a) :
    c.Walks v (c.elementParts id receiver arguments) (c.elementAccess id receiver arguments) := by
  unfold elementAccess elementParts
  split
  · exact lateBoundElement_walks h known inside within
  · cases found : c.program.resolutionOf id with
    | none =>
      dsimp only
      split
      · exact Walks.bind (Walks.expression inside) fun array =>
          .finish (expressions_walk within) fun indices =>
            emitValued_walks h known (.of_nil rfl rfl)
      · exact unboundElement_walks h known inside within
    | some resolution =>
      cases resolution with
      | resolved member bindings =>
        have covered (target : OperationId) (values : List OperationId) :
            v.CoversKind (.propertyReference member (some target) values) :=
          .of_symbol rfl rfl (resolved_known h found)
        exact Walks.bind (Walks.expression inside) fun target =>
          .finish (boundArguments_walks h known found) fun values =>
            emitValued_walks h known (covered target values)
      | lateBound candidates =>
        dsimp only
        split
        · exact lateBoundElement_walks h known inside within
        · exact unboundElement_walks h known inside within
      | failed reason candidates => exact unboundElement_walks h known inside within

theorem objectCreation_walks (known : v.nodes id) {type : TypeId} (typed : v.types type)
    (within : ∀ a ∈ arguments, v.nodes a) :
    c.Walks v (c.creationParts id arguments) (c.objectCreation id type arguments) := by
  have named : ∀ t ∈ some type, v.types t := by simpa using typed
  unfold objectCreation creationParts
  cases found : c.program.resolutionOf id with
  | none => exact salvageCall_walks h known within none
  | some resolution =>
    cases resolution with
    | resolved member bindings =>
      have covered (values : List OperationId) : v.CoversKind (.objectCreation member values) :=
        .of_symbol rfl rfl (resolved_known h found)
      exact .finish (boundArguments_walks h known found) fun values =>
        .emit ((covers_valued h known (covered values)).withType named)
    | lateBound candidates =>
      dsimp only
      split
      · exact lateBoundCreation_walks h known typed within
      · exact salvageCall_walks h known within none
    | failed reason candidates => exact salvageCall_walks h known within none

theorem assignment_walks (known : v.nodes id) (operator : Option BinaryOperator)
    {target value : SyntaxId} (left : v.nodes target) (right : v.nodes value) :
    c.Walks v [.expression target, .expression value] (c.assignment id operator target value) := by
  unfold assignment
  refine Walks.bind (Walks.expression left) fun target =>
    Walks.finish (Walks.expression right) fun value => ?_
  cases operator with
  | none => exact emitValued_walks h known (.of_nil rfl rfl)
  | some operator => exact emitValued_walks h known (.of_nil rfl rfl)

theorem cast_walks (known : v.nodes id) {type : TypeId} (typed : v.types type)
    {operand : SyntaxId} (inside : v.nodes operand) :
    c.Walks v [.expression operand] (c.cast id type operand) := by
  have named : ∀ t ∈ some type, v.types t := by simpa using typed
  unfold cast
  exact Walks.finish (Walks.expression inside) fun operand =>
    .emit (((covers_valued h known (.of_nil rfl rfl)).withType named).invalidIf _)

omit h in
theorem lambdaBody_walks (inside : v.nodes body) :
    c.Walks v [c.lambdaPart body] ((c.within (c.program.rootScope body)).lambdaBody body) := by
  have covered (kind : OperationKind) (none : v.CoversKind kind) :
      v.Covers ((c.within (c.program.rootScope body)).plain kind body).implicit :=
    (covers_plain inside none).implicit
  have returning : c.Walks v [⟨.lambda body, .expression, body⟩] (do
      let value ← (c.within (c.program.rootScope body)).expression body
      let returned ←
        emit ((c.within (c.program.rootScope body)).plain (.returnValue (some value)) body).implicit
      emit ((c.within (c.program.rootScope body)).plain (.block [returned]) body).implicit) :=
    .finish (.part inside rfl) fun _ =>
      .finish (.emit (covered _ (.of_nil rfl rfl))) fun _ => .emit (covered _ (.of_nil rfl rfl))
  unfold lambdaBody lambdaPart
  rw [show (c.within (c.program.rootScope body)).formOf body = c.formOf body from rfl]
  cases found : c.formOf body with
  | none => exact returning
  | some form =>
    cases form with
    | block statements => exact .part inside rfl
    | _ => exact returning

theorem lambda_walks (known : v.nodes id) (inside : v.nodes body) :
    c.Walks v [c.lambdaPart body] (c.lambda id body) := by
  unfold lambda
  refine Walks.finish (lambdaBody_walks inside) fun body => emitValued_walks h known ?_
  exact .of_declared rfl rfl (h.symbol id)

omit h in
theorem parenthesized_walks {inner : SyntaxId} (inside : v.nodes inner) :
    c.Walks v [.expression inner] (c.parenthesized id inner) := by
  unfold parenthesized
  exact .finish (.expression inside) fun i => .finish (.associate id i) fun _ => .pure i

theorem expressionForm_walks (known : v.nodes id) :
    c.Walks v (c.expressionParts id (c.formOf id)) (c.expressionForm id (c.formOf id)) := by
  have children (form : Form) (found : c.formOf id = some form) :
      ∀ child ∈ form.children, v.nodes child :=
    fun child member => child_known h found member
  have types (form : Form) (found : c.formOf id = some form) :
      ∀ type ∈ form.typesNamed, v.types type :=
    fun type member => typeNamed_known h found member
  cases found : c.formOf id with
  | none => exact invalidExpression_walks h known _
  | some form =>
    have inside := children form found
    have typed := types form found
    cases form with
    | literal text => exact emitValued_walks h known (.of_nil rfl rfl)
    | identifier name => exact name_walks h known name
    | this => exact emitValued_walks h known (.of_nil rfl rfl)
    | memberAccess receiver name typeArguments =>
      exact memberAccess_walks h known (inside receiver (by simp [Form.children])) name typed
    | invocation callee arguments =>
      simp only [Form.children, List.forall_mem_cons] at inside
      exact invocation_walks h known inside.1 inside.2
    | elementAccess receiver arguments =>
      simp only [Form.children, List.forall_mem_cons] at inside
      exact elementAccess_walks h known inside.1 inside.2
    | argument name passing expression =>
      exact .expression (inside expression (by simp [Form.children]))
    | objectCreation type arguments =>
      exact objectCreation_walks h known (typed type (by simp [Form.typesNamed])) inside
    | binary operator left right =>
      simp only [Form.children, List.forall_mem_cons] at inside
      exact Walks.bind (Walks.expression inside.1) fun left =>
        .finish (.expression inside.2.1) fun right =>
          emitValued_walks h known (.of_nil rfl rfl)
    | unary operator operand =>
      exact .finish (.expression (inside operand (by simp [Form.children]))) fun operand =>
        emitValued_walks h known (.of_nil rfl rfl)
    | assignment operator target value =>
      simp only [Form.children, List.forall_mem_cons] at inside
      exact assignment_walks h known operator inside.1 inside.2.1
    | addressOf operand =>
      exact .finish (.expression (inside operand (by simp [Form.children]))) fun reference =>
        emitValued_walks h known (.of_nil rfl rfl)
    | cast type operand =>
      exact cast_walks h known (typed type (by simp [Form.typesNamed]))
        (inside operand (by simp [Form.children]))
    | parenthesized inner =>
      exact parenthesized_walks (inside inner (by simp [Form.children]))
    | lambda parameters body =>
      exact lambda_walks h known (inside body (by simp [Form.children]))
    | _ => exact invalidExpression_walks h known _

theorem converted_walks (known : v.nodes id) (i : OperationId) :
    c.Walks v [] (c.converted id i) := by
  unfold converted
  split
  · exact .pure i
  · next conversion required =>
    have target : ∀ type ∈ some conversion.target, v.types type := by
      intro type same
      obtain rfl := Option.some.inj same
      exact h.target id conversion (Option.filter_eq_some_iff.mp required).1
    exact .emit (((covers_plain known (.of_nil rfl rfl)).withType target).implicit.invalidIf _)

theorem lowerExpression_walks (known : v.nodes id) :
    c.Walks v (c.expressionParts id (c.formOf id)) (c.lowerExpression id) :=
  .finish (expressionForm_walks h known) fun i => converted_walks h known i

end SemanticTrees.Context
