import SemanticTrees.Proofs.Lowering.CallCouplings

/-! Every form of expression is lowered alike in programs that translate one another, when its parts
are. The walks are arbitrary. -/
namespace SemanticTrees.Context

open Lowering

variable {τ : Translation} {c c' : Context} (h : c.Translates τ c') {K : Coupling τ} {w : Stores}
  {id id' body body' : SyntaxId}
include h

theorem assignment_couples (operator : Option BinaryOperator)
    {target target' value value' : SyntaxId}
    (calls : Coupled K c c' [.expression target, .expression value]
      [.expression target', .expression value'])
    (targets : τ.nodes target target') (values : τ.nodes value value') (nodes : τ.nodes id id') :
    K.Couples w (c.assignment id operator target value) (c'.assignment id' operator target' value')
      (K.link .expression) := by
  unfold assignment
  refine (calls.expression (by simp) (by simp) targets).bind fun v _ left left' linked => ?_
  refine (calls.expression (by simp) (by simp) values).bind fun u grown right right' linked' => ?_
  have linked := K.lasts _ grown linked
  cases operator with
  | none => exact emitValued_couples h (.simpleAssignment linked linked') rfl nodes
  | some operator =>
    exact emitValued_couples h (.compoundAssignment operator linked linked') rfl nodes

theorem cast_couples (type : TypeId) {operand operand' : SyntaxId}
    (calls : Coupled K c c' [.expression operand] [.expression operand'])
    (operands : τ.nodes operand operand') (same : τ.same id id') :
    K.Couples w (c.cast id type operand) (c'.cast id' (τ.types type) operand')
      (K.link .expression) := by
  have nodes := τ.nodes_of_same same
  unfold cast
  rw [h.program.conversionOf same]
  refine (calls.expression List.mem_cons_self List.mem_cons_self operands).bind
    fun v _ operand operand' linked => ?_
  have casts (kind : ConversionKind) : K.Couples v
      (emit (((c.valued (.conversion operand kind) id).withType (some type)).invalidIf
        !kind.isValid))
      (emit (((c'.valued (.conversion operand' kind) id').withType
        (some (τ.types type))).invalidIf !kind.isValid))
      (K.link .expression) := by
    have valued := valued_alike h (r := fun ρ => K.link ρ v) (.conversion kind linked) nodes
    refine .emit ((valued.withType (some type)).invalidIf _) ?_
    rfl
  cases c.program.conversionOf id with
  | none => exact casts .noConversion
  | some conversion => exact casts conversion.kind

/-- The bodies of lambdas are in like surroundings of their own. -/
theorem rootScope_alike (same : τ.same body body') (statements : List SyntaxId)
    (known : c.formOf body = some (.block statements)) :
    (c.program.rootScope body).Alike (c'.program.rootScope body') :=
  ⟨rfl, h.program.labelsBelow same known⟩

theorem lambdaBody_couples
    (calls : Coupled K c c' [c.lambdaPart body] [c'.lambdaPart body'])
    (bodies : τ.nodes body body') :
    K.Couples w ((c.within (c.program.rootScope body)).lambdaBody body)
      ((c'.within (c'.program.rootScope body')).lambdaBody body') (K.link .functionBody) := by
  have returning (calls : Coupled K c c' [⟨.lambda body, .expression, body⟩]
      [⟨.lambda body', .expression, body'⟩]) : K.Couples w
      (do
        let value ← c.run ⟨.lambda body, .expression, body⟩
        let returned ← emit (c.plain (.returnValue (some value)) body).implicit
        emit (c.plain (.block [returned]) body).implicit)
      (do
        let value ← c'.run ⟨.lambda body', .expression, body'⟩
        let returned ← emit (c'.plain (.returnValue (some value)) body').implicit
        emit (c'.plain (.block [returned]) body').implicit)
      (K.link .functionBody) := by
    refine (calls _ List.mem_cons_self _ List.mem_cons_self ⟨rfl, bodies, nofun⟩ w).bind
      fun v _ value value' linked => ?_
    have returned : K.Couples v (emit (c.plain (.returnValue (some value)) body).implicit)
        (emit (c'.plain (.returnValue (some value')) body').implicit) (K.link .statement) :=
      .emit (plain_alike h (.returnValue (.some linked)) bodies).implicit rfl
    exact returned.bind fun u _ statement statement' linked =>
      .emit (plain_alike h (.block (.cons linked .nil)) bodies).implicit rfl
  unfold lambdaBody
  unfold lambdaPart at calls
  rw [show (c.within (c.program.rootScope body)).formOf body = c.formOf body from rfl]
  rw [show (c'.within (c'.program.rootScope body')).formOf body' = c'.formOf body' from rfl]
  obtain same | ⟨⟨form, known, expression⟩, inner, known'⟩ := h.program.same_or_wraps bodies
  · have form := h.form same
    have scope (statements : List SyntaxId) := rootScope_alike h same statements
    have sort : c.program.resultSort .statement body = Program.statementSort (c.formOf body) := rfl
    generalize c.formOf body = found at form calls scope sort ⊢
    generalize c'.formOf body' = found' at form calls ⊢
    cases form with
    | none => exact returning calls
    | some alike =>
      cases alike with
      | block inside =>
        have run := calls _ List.mem_cons_self _ List.mem_cons_self
          ⟨rfl, bodies, fun _ => scope _ rfl⟩ w
        rw [sort] at run
        exact run
      | _ => exact returning calls
  · rw [show c'.formOf body' = _ from known'] at calls ⊢
    rw [show c.formOf body = some form from known] at calls ⊢
    cases form with
    | block statements => contradiction
    | _ => exact returning calls

theorem lambda_couples (calls : Coupled K c c' [c.lambdaPart body] [c'.lambdaPart body'])
    (bodies : τ.nodes body body') (same : τ.same id id') :
    K.Couples w (c.lambda id body) (c'.lambda id' body') (K.link .expression) := by
  unfold lambda
  rw [h.program.symbolOf same]
  exact (lambdaBody_couples h calls bodies).bind fun v _ body body' linked =>
    emitValued_couples h (.anonymousFunction _ linked) rfl (τ.nodes_of_same same)

omit h in
theorem parenthesized_couples {inner inner' : SyntaxId}
    (calls : Coupled K c c' [.expression inner] [.expression inner'])
    (inners : τ.nodes inner inner') (nodes : τ.nodes id id') :
    K.Couples w (c.parenthesized id inner) (c'.parenthesized id' inner') (K.link .expression) := by
  unfold parenthesized
  refine (calls.expression List.mem_cons_self List.mem_cons_self inners).bind
    fun v _ i i' linked => ?_
  exact (Coupling.Couples.associate nodes linked).bind fun u _ _ _ linked =>
    .pure (K.lasts _) linked

theorem expressionForm_couples
    (calls : Coupled K c c' (c.expressionParts id (c.formOf id))
      (c'.expressionParts id' (c'.formOf id')))
    (same : τ.same id id') :
    K.Couples w (c.expressionForm id (c.formOf id)) (c'.expressionForm id' (c'.formOf id'))
      (K.link .expression) := by
  have nodes := τ.nodes_of_same same
  have form := h.form same
  have nothing : K.Couples w (c.invalidExpression id []) (c'.invalidExpression id' [])
      (K.link .expression) :=
    invalidExpression_couples h .nil nodes
  generalize c.formOf id = found at form calls ⊢
  generalize c'.formOf id' = found' at form calls ⊢
  cases form with
  | none => exact nothing
  | some alike =>
    cases alike with
    | literal text => exact emitValued_couples h .literal rfl nodes
    | identifier name => exact name_couples h name same
    | this => exact emitValued_couples h .instanceReference rfl nodes
    | memberAccess name typeArguments receivers =>
      exact memberAccess_couples h calls receivers name typeArguments same
    | invocation callees values => exact invocation_couples h calls callees values same
    | elementAccess receivers values => exact elementAccess_couples h calls receivers values same
    | argument name passing values =>
      exact calls.expression List.mem_cons_self List.mem_cons_self values
    | objectCreation type values => exact objectCreation_couples h type calls values same
    | binary operator lefts rights =>
      refine (calls.expression (by simp [expressionParts]) (by simp [expressionParts]) lefts).bind
        fun v _ left left' linked => ?_
      refine (calls.expression (by simp [expressionParts]) (by simp [expressionParts]) rights).bind
        fun u grown right right' linked' => ?_
      exact emitValued_couples h (.binary operator (K.lasts _ grown linked) linked') rfl nodes
    | unary operator operands =>
      exact (calls.expression List.mem_cons_self List.mem_cons_self operands).bind
        fun v _ operand operand' linked => emitValued_couples h (.unary operator linked) rfl nodes
    | assignment operator targets values =>
      exact assignment_couples h operator calls targets values nodes
    | addressOf operands =>
      exact (calls.expression List.mem_cons_self List.mem_cons_self operands).bind
        fun v _ reference reference' linked => emitValued_couples h (.addressOf linked) rfl nodes
    | cast type operands => exact cast_couples h type calls operands same
    | parenthesized inners => exact parenthesized_couples calls inners nodes
    | lambda declared bodies => exact lambda_couples h calls bodies same
    | _ => exact nothing

theorem requiredConversion_eq (same : τ.same id id') :
    c'.requiredConversion id' = (c.requiredConversion id).map (Conversion.rename τ.types) := by
  unfold requiredConversion
  rw [h.program.conversionOf same, Option.filter_map]
  rfl

theorem converted_couples {i i' : OperationId} (linked : K.link .expression w i i')
    (same : τ.same id id') :
    K.Couples w (c.converted id i) (c'.converted id' i') (K.link .expression) := by
  unfold converted
  rw [requiredConversion_eq h same]
  cases c.requiredConversion id with
  | none => exact .pure (K.lasts _) linked
  | some conversion =>
    have alike := plain_alike h (r := fun ρ => K.link ρ w) (.conversion conversion.kind linked)
      (τ.nodes_of_same same)
    refine .emit ((alike.withType (some conversion.target)).implicit.invalidIf _) ?_
    rfl

theorem lowerExpression_couples
    (calls : Coupled K c c' (c.expressionParts id (c.formOf id))
      (c'.expressionParts id' (c'.formOf id')))
    (same : τ.same id id') :
    K.Couples w (c.lowerExpression id) (c'.lowerExpression id') (K.link .expression) := by
  unfold lowerExpression
  exact (expressionForm_couples h calls same).bind fun v _ i i' linked =>
    converted_couples h linked same

end SemanticTrees.Context
