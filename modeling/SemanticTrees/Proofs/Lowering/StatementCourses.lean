import SemanticTrees.Proofs.Lowering.ExpressionCourses

/-! Every form of statement and every root takes the course of its parts, and so does the walk at
any depth, over walks that are less deep. -/
namespace SemanticTrees

namespace Context

open Lowering

variable {c : Context} {t : Terms} {id body : SyntaxId} {form : Form}

theorem formPart_takes (id : SyntaxId) : c.TakesOne t [c.formPart id]
    (if c.isExpression id then c.expression id else c.statement id) := by
  unfold formPart
  split
  · exact .expression id
  · exact .statement id

theorem loopBody_takes (body : SyntaxId) :
    c.TakesOne t [⟨.loop, .statement, body⟩] (c.loopBody body) :=
  .part _ rfl

variable (h : c.program.Allows t)
include h

theorem salvageStatement_takes (known : t.nodes id) :
    c.TakesOne t (c.salvagedParts id) (c.salvageStatement id) := by
  unfold salvageStatement salvagedParts
  exact Takes.finish (TakesOne.mapM_single fun child _ => formPart_takes child) fun children =>
    invalidStatement_takes h known (.refl _)

theorem declarator_takes (known : t.nodes id) (isFixed : Bool) :
    c.TakesOne t (c.declaratorParts id) (c.declarator isFixed id) := by
  have last (value : Option OperationId) : c.Takes t value.toList []
      (c.emitPlain (.variableDeclarator (c.program.symbolOf id) value) id) fun i => [i] :=
    emitPlain_takes h known rfl (by simp)
  unfold declarator declaratorParts
  cases found : c.formOf id with
  | none => exact salvageStatement_takes h known
  | some form =>
    cases form with
    | variableDeclarator name initializer =>
      cases initializer with
      | none =>
        cases isFixed with
        | true =>
          let place := Span.point (c.program.nodes.spanOf id).stop
          have missing : c.TakesOne t []
              (emit (Operation.plain (.invalidExpression []) id place)) :=
            .emit (h.adds _ known rfl) (by simp)
          exact Takes.finish missing.optional last
        | false => exact Takes.finish TakesOption.none last
      | some initializer => exact Takes.finish (TakesOne.expression initializer).optional last
    | _ => exact salvageStatement_takes h known

theorem declarationGroup_takes (known : t.nodes id) (isFixed : Bool) {declarators : List SyntaxId}
    (inside : ∀ d ∈ declarators, t.nodes d) :
    c.TakesOne t (declarators.flatMap c.declaratorParts)
      (c.declarationGroup isFixed id declarators) := by
  unfold declarationGroup
  exact Takes.finish (TakesOne.mapM fun d listed => declarator_takes h (inside d listed) isFixed)
    fun declarators => Takes.andThen (emitPlain_takes h known rfl (by simp)) fun declaration =>
      emitPlain_takes h known rfl (by simp)

theorem ifThen_takes (known : t.nodes id) (condition thenBranch : SyntaxId)
    (elseBranch : Option SyntaxId) :
    c.TakesOne t
      (.expression condition :: .statement thenBranch :: elseBranch.toList.map .statement)
      (c.ifThen id condition thenBranch elseBranch) := by
  unfold ifThen
  exact Takes.bind (TakesOne.expression condition) fun condition =>
    Takes.bind (TakesOne.statement thenBranch) fun whenTrue =>
      Takes.finish (TakesOption.statement? elseBranch) fun whenFalse =>
        emitPlain_takes h known rfl (by simp)

theorem headPart_takes (known : t.nodes id) : c.TakesOne t [c.formPart id] (c.headPart id) := by
  unfold headPart formPart
  split
  · exact Takes.finish (TakesOne.expression id) fun operation =>
      .emit (h.adds _ known rfl) (by simp [OperationKind.children])
  · exact .statement id

theorem forLoop_takes (known : t.nodes id) {initializers incrementors : List SyntaxId}
    (condition : Option SyntaxId) (starts : ∀ i ∈ initializers, t.nodes i)
    (advances : ∀ i ∈ incrementors, t.nodes i) (body : SyntaxId) :
    c.TakesOne t
      (initializers.map c.formPart ++ condition.toList.map .expression ++
        ⟨.loop, .statement, body⟩ :: incrementors.map c.formPart)
      (c.forLoop id initializers condition incrementors body) := by
  unfold forLoop
  rw [List.append_assoc]
  refine Takes.bind (TakesOne.mapM_single fun i listed => headPart_takes h (starts i listed))
    fun before => Takes.bind (TakesOption.expression? condition) fun condition =>
      Takes.bind (loopBody_takes body) fun body =>
        Takes.finish (TakesOne.mapM_single fun i listed => headPart_takes h (advances i listed))
          fun atLoopBottom => emitPlain_takes h known rfl ?_
  intro i waits
  simpa [or_assoc, or_comm, or_left_comm] using waits

section Switch

variable (through : Passage)

/-- A part of a switch is lowered in the surroundings behind the passage into its sections. -/
theorem clause_takes (known : t.nodes id) :
    c.TakesOne t (c.clauseParts through id)
      ((c.within (through.scope c.program c.scope)).clause id) := by
  have last (value : Option OperationId) : c.Takes t value.toList []
      ((c.within (through.scope c.program c.scope)).emitPlain (.caseClause value) id)
      fun i => [i] :=
    .emit (h.adds _ known rfl) (by simp [OperationKind.children])
  have plainly : c.TakesOne t [⟨through, .expression, id⟩] (do
      let value ← some <$> (c.within (through.scope c.program c.scope)).expression id
      (c.within (through.scope c.program c.scope)).emitPlain (.caseClause value) id) :=
    Takes.finish (TakesOne.part ⟨through, .expression, id⟩ rfl).optional last
  unfold clause clauseParts
  rw [show (c.within (through.scope c.program c.scope)).formOf id = c.formOf id from rfl]
  cases c.formOf id with
  | none => exact plainly
  | some form =>
    cases form with
    | caseLabel value =>
      cases value with
      | none => exact Takes.finish TakesOption.none last
      | some value =>
        exact Takes.finish (TakesOne.part ⟨through, .expression, value⟩ rfl).optional last
    | _ => exact plainly

theorem switchSection_takes (known : t.nodes id) :
    c.TakesOne t (c.sectionParts through id)
      ((c.within (through.scope c.program c.scope)).switchSection id) := by
  unfold switchSection sectionParts
  rw [show (c.within (through.scope c.program c.scope)).formOf id = c.formOf id from rfl]
  cases found : c.formOf id with
  | none => exact TakesOne.part ⟨through, .statement, id⟩ rfl
  | some form =>
    cases form with
    | switchSection labels statements =>
      have inside (label : SyntaxId) (listed : label ∈ labels) : t.nodes label :=
        h.child known found (by simp [Form.children, listed])
      exact Takes.bind
        (TakesOne.mapM fun label listed => clause_takes h through (inside label listed))
        fun clauses => Takes.finish
          (TakesOne.mapM_single fun s _ => TakesOne.part ⟨through, .statement, s⟩ rfl)
          fun body => .emit (h.adds _ known rfl) (by simp [OperationKind.children])
    | _ => exact TakesOne.part ⟨through, .statement, id⟩ rfl

end Switch

theorem switch_takes (known : t.nodes id) (expression : SyntaxId) {sections : List SyntaxId}
    (inside : ∀ s ∈ sections, t.nodes s) :
    c.TakesOne t (.expression expression :: sections.flatMap (c.sectionParts (.switch sections)))
      (c.switch id expression sections) := by
  unfold switch
  exact Takes.bind (TakesOne.expression expression) fun value =>
    Takes.finish
      (TakesOne.mapM fun s listed => switchSection_takes h (.switch sections) (inside s listed))
      fun cases => emitPlain_takes h known rfl (by simp)

theorem branch_takes (known : t.nodes id) (kind : BranchKind) (label : Option String)
    (invalid : Bool) : c.TakesOne t [] (c.branch id kind label invalid) :=
  Takes.emit (h.adds _ known rfl) (by simp)

theorem breakJump_takes (known : t.nodes id) : c.TakesOne t [] (c.breakJump id) := by
  unfold breakJump
  split
  · exact branch_takes h known _ _ _
  · exact invalidStatement_takes h known (.refl _)

theorem continueJump_takes (known : t.nodes id) : c.TakesOne t [] (c.continueJump id) := by
  unfold continueJump
  split
  · exact branch_takes h known _ _ _
  · exact invalidStatement_takes h known (.refl _)

theorem goto_takes (known : t.nodes id) (target : JumpTarget) :
    c.TakesOne t (gotoParts c.scope.innermostSwitch.isSome target) (c.goto id target) := by
  unfold goto
  cases target with
  | label label => exact branch_takes h known _ _ _
  | defaultCase =>
    cases c.scope.innermostSwitch with
    | none => exact invalidStatement_takes h known (.refl _)
    | some cases => exact branch_takes h known _ _ _
  | caseOf value =>
    cases c.scope.innermostSwitch with
    | none =>
      exact Takes.finish (TakesOne.expression value) fun value =>
        invalidStatement_takes h known (.refl _)
    | some cases => exact branch_takes h known _ _ _

theorem fixed_takes (known : t.nodes id) {declaration : SyntaxId} (declares : t.nodes declaration)
    (body : SyntaxId) :
    c.TakesOne t (c.fixedParts declaration ++ [.statement body]) (c.fixed id declaration body) := by
  have last (declared : OperationId) : c.Takes t [declared] [.statement body] (do
      let body ← c.statement body
      c.emitPlain (.fixedStatement declared body) id) fun i => [i] :=
    Takes.finish (TakesOne.statement body) fun _ => emitPlain_takes h known rfl (by simp)
  unfold fixed fixedParts
  have salvaged : c.TakesOne t (c.salvagedParts declaration ++ [.statement body]) _ :=
    Takes.bind (salvageStatement_takes h declares) last
  cases found : c.formOf declaration with
  | none => exact salvaged
  | some form =>
    cases form with
    | localDeclaration type declarators =>
      exact Takes.bind (declarationGroup_takes h declares true fun d listed =>
        h.child declares found listed) last
    | _ => exact salvaged

theorem lock_takes (known : t.nodes id) (expression body : SyntaxId) :
    c.TakesOne t [.expression expression, .statement body] (c.lock id expression body) := by
  unfold lock
  exact Takes.bind (TakesOne.expression expression) fun value =>
    Takes.finish (TakesOne.statement body) fun body =>
      .emit (h.adds _ known rfl) (by simp [OperationKind.children])

theorem usingResource_takes (known : t.nodes id) {resource : SyntaxId} (holds : t.nodes resource)
    (body : SyntaxId) :
    c.TakesOne t (c.resourceParts resource ++ [.statement body])
      (c.usingResource id resource body) := by
  have last (resources : OperationId) : c.Takes t [resources] [.statement body] (do
      let body ← c.statement body
      c.emitPlain (.usingStatement resources body) id) fun i => [i] :=
    Takes.finish (TakesOne.statement body) fun _ => emitPlain_takes h known rfl (by simp)
  unfold usingResource resourceParts
  have computed : c.TakesOne t ([.expression resource] ++ [.statement body]) _ :=
    Takes.bind (TakesOne.expression resource) last
  cases found : c.formOf resource with
  | none => exact computed
  | some form =>
    cases form with
    | localDeclaration type declarators =>
      exact Takes.bind (declarationGroup_takes h holds false fun d listed =>
        h.child holds found listed) last
    | _ => exact computed

theorem misplaced_takes (known : t.nodes id) (form : Form) :
    c.TakesOne t (if form.isExpression then [.expression id] else []) (c.misplaced id form) := by
  unfold misplaced
  split
  · exact Takes.finish (TakesOne.expression id) fun child =>
      invalidStatement_takes h known (.refl _)
  · exact invalidStatement_takes h known (.refl _)

theorem statementForm_takes (known : t.nodes id) :
    c.TakesOne t (c.statementParts c.scope.innermostSwitch.isSome id (c.formOf id))
      (c.statementForm id (c.formOf id)) := by
  cases found : c.formOf id with
  | none => exact invalidStatement_takes h known (.refl _)
  | some form =>
    have inside : ∀ child ∈ form.children, t.nodes child :=
      fun child listed => h.child known found listed
    have kept := misplaced_takes h known form
    cases form with
    | block statements =>
      exact Takes.finish (TakesOne.mapM_single fun s _ => TakesOne.statement s) fun statements =>
        emitPlain_takes h known rfl (by simp)
    | expressionStatement expression =>
      exact Takes.finish (TakesOne.expression expression) fun operation =>
        emitPlain_takes h known rfl (by simp)
    | localDeclaration type declarators => exact declarationGroup_takes h known false inside
    | variableDeclarator name initializer => exact declarator_takes h known false
    | ifThen condition thenBranch elseBranch => exact ifThen_takes h known _ _ _
    | whileLoop condition body =>
      exact Takes.bind (TakesOne.expression condition) fun condition =>
        Takes.finish (loopBody_takes body) fun body => emitPlain_takes h known rfl (by simp)
    | forLoop initializers condition incrementors body =>
      exact forLoop_takes h known condition
        (fun i listed => inside i (by simp [Form.children, listed]))
        (fun i listed => inside i (by simp [Form.children, listed])) body
    | switch expression sections =>
      simp only [Form.children, List.forall_mem_cons] at inside
      exact switch_takes h known expression inside.2
    | breakJump => exact breakJump_takes h known
    | continueJump => exact continueJump_takes h known
    | goto target => exact goto_takes h known target
    | labeled label statement =>
      exact Takes.finish (TakesOne.statement statement) fun operation =>
        emitPlain_takes h known rfl (by simp)
    | returnJump expression =>
      exact Takes.finish (TakesOption.expression? expression) fun value =>
        emitPlain_takes h known rfl (by simp)
    | empty => exact emitPlain_takes h known rfl (by simp)
    | fixed declaration body =>
      exact fixed_takes h known (inside declaration (by simp [Form.children])) body
    | lock expression body => exact lock_takes h known expression body
    | usingResource resource body =>
      exact usingResource_takes h known (inside resource (by simp [Form.children])) body
    | switchSection labels statements => exact salvageStatement_takes h known
    | caseLabel value => exact salvageStatement_takes h known
    | _ => exact kept

theorem lowerStatement_takes (known : t.nodes id) :
    c.TakesOne t (c.statementParts c.scope.innermostSwitch.isSome id (c.formOf id))
      (c.lowerStatement id) :=
  statementForm_takes h known

theorem initialized_takes (known : t.nodes id) (value : Option SyntaxId)
    {make : SymbolId → OperationId → OperationKind}
    (wraps : ∀ symbol value, (make symbol value).children = [value])
    (other : ∀ symbol value, (make symbol value).isConversion = false) :
    c.TakesOption t (value.toList.map .expression) (c.initialized id value make) := by
  have around (value : OperationId) :
      c.Takes t [value] [] (c.initializer id value make) fun i => [i] := by
    unfold initializer
    split
    · exact .emit (h.adds _ known (other _ _)) (by rw [children_plain, wraps]; exact .refl _)
    · exact invalidStatement_takes h known (.refl _)
  unfold initialized
  cases value with
  | none => exact .none
  | some value =>
    exact Takes.finish (TakesOne.expression value) fun value =>
      Takes.map (around value) fun _ => rfl

theorem lowerRoot_takes (known : t.nodes id) :
    c.TakesOption t (c.rootParts id) (c.lowerRoot id) := by
  unfold lowerRoot rootParts
  cases c.formOf id with
  | none => exact .none
  | some form =>
    have asked : c.TakesOption t [if form.isExpression then .expression id else .statement id]
        (some <$> if form.isExpression then c.expression id else c.statement id) := by
      cases form.isExpression with
      | true => exact (TakesOne.expression id).optional
      | false => exact (TakesOne.statement id).optional
    cases form with
    | variableDeclarator name value =>
      dsimp only
      split
      · exact initialized_takes h known value (fun _ _ => rfl) fun _ _ => rfl
      · exact (TakesOne.statement id).optional
    | property name value => exact initialized_takes h known value (fun _ _ => rfl) fun _ _ => rfl
    | parameter name value => exact initialized_takes h known value (fun _ _ => rfl) fun _ _ => rfl
    | method name parameters body =>
      cases body with
      | none => exact .none
      | some body =>
        exact Takes.finish (TakesOne.statement body) fun body =>
          Takes.map (emitPlain_takes h known rfl (by simp)) fun _ => rfl
    | field declarators => exact .none
    | typeDeclaration name members => exact .none
    | _ => exact asked

end Context

namespace Program

open Lowering

variable {p : Program} {options : LoweringOptions} {t : Terms} {id : SyntaxId}

/-- The walk takes the course of the parts of a node, over walks that are one level less deep. -/
theorem walk_takes (h : p.Allows t) (known : t.nodes id) (depth : Nat) (scope : Scope) (role : Role)
    (form : role = .expression → (p.contextAt options depth scope).FormAllowed t id)
    (conversions : role = .expression → ∀ o, p.Records o → o.origin = id → t.adds o) :
    let c := p.contextAt options depth scope
    c.TakesOne t (c.parts scope.innermostSwitch.isSome role id)
      (walk p options (depth + 1) scope role id) := by
  cases role with
  | expression =>
    exact Context.lowerExpression_takes (c := p.contextAt options depth scope) h known (form rfl)
      (conversions rfl)
  | statement =>
    exact Context.lowerStatement_takes (c := p.contextAt options depth scope) h known

/-- A node below the depth that the options set becomes a placeholder. -/
theorem walk_zero_takes (h : p.Allows t) (known : t.nodes id) (scope : Scope) (role : Role) :
    let c : Context := { program := p, options, scope, walk := fun _ _ _ => pure 0 }
    c.TakesOne t [] (walk p options 0 scope role id) :=
  Context.placeholder_takes (c := { program := p, options, scope, walk := fun _ _ _ => pure 0 }) h
    known role

/-- Lowering a root takes the course of its parts, over walks of the depth that the options set. -/
theorem rootContext_takes (h : p.Allows t) (known : t.nodes id) (options : LoweringOptions) :
    let c := p.rootContext options id
    c.TakesOption t (c.rootParts id) (c.lowerRoot id) :=
  Context.lowerRoot_takes (c := p.rootContext options id) h known

end Program

end SemanticTrees
