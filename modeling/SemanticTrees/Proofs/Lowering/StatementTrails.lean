import SemanticTrees.Proofs.Lowering.ExpressionTrails

/-! Every form of statement and every root walks its parts, in order, and adds operations that
mention only what the program supplies. -/
namespace SemanticTrees.Context

open Lowering

variable {c : Context} {v : Vocabulary} {id body : SyntaxId} {form : Form}
  (h : c.program.Supplies v)

theorem formPart_walks (known : v.nodes id) :
    c.Walks v [c.formPart id] (if c.isExpression id then c.expression id else c.statement id) := by
  unfold formPart
  split
  · exact .expression known
  · exact .statement known

include h

theorem childrenOf_known {child : SyntaxId} (listed : child ∈ c.program.nodes.childrenOf id) :
    v.nodes child := by
  unfold SyntaxTable.childrenOf at listed
  split at listed
  · next node found =>
    exact child_known h (Option.map_eq_some_iff.mpr ⟨node, found, rfl⟩) listed
  · contradiction

theorem salvageStatement_walks (known : v.nodes id) :
    c.Walks v (c.salvagedParts id) (c.salvageStatement id) := by
  unfold salvageStatement salvagedParts
  exact .finish (.mapM_single fun child listed => formPart_walks (childrenOf_known h listed))
    fun children => invalidStatement_walks known children

theorem declarator_walks (known : v.nodes id) (isFixed : Bool) :
    c.Walks v (c.declaratorParts id) (c.declarator isFixed id) := by
  have covered (value : Option OperationId) :
      v.CoversKind (.variableDeclarator (c.program.symbolOf id) value) :=
    .of_declared rfl rfl (h.symbol id)
  unfold declarator declaratorParts
  cases found : c.formOf id with
  | none => exact salvageStatement_walks h known
  | some form =>
    cases form with
    | variableDeclarator name initializer =>
      cases initializer with
      | none =>
        cases isFixed with
        | true =>
          exact .finish (.map some (.emit (.plain known _ (.of_nil rfl rfl)))) fun value =>
            emitPlain_walks known (covered value)
        | false => exact emitPlain_walks known (covered none)
      | some initializer =>
        have inside : v.nodes initializer := child_known h found (by simp [Form.children])
        exact .finish (.map some (.expression inside)) fun value =>
          emitPlain_walks known (covered value)
    | _ => exact salvageStatement_walks h known

theorem declarationGroup_walks (known : v.nodes id) (isFixed : Bool) {declarators : List SyntaxId}
    (inside : ∀ d ∈ declarators, v.nodes d) :
    c.Walks v (declarators.flatMap c.declaratorParts)
      (c.declarationGroup isFixed id declarators) := by
  unfold declarationGroup
  exact .finish (.mapM fun d listed => declarator_walks h (inside d listed) isFixed) fun _ =>
    .finish (emitPlain_walks known (.of_nil rfl rfl)) fun _ =>
      emitPlain_walks known (.of_nil rfl rfl)

omit h in
theorem ifThen_walks (known : v.nodes id) {condition thenBranch : SyntaxId}
    {elseBranch : Option SyntaxId} (decides : v.nodes condition) (holds : v.nodes thenBranch)
    (fails : ∀ e ∈ elseBranch, v.nodes e) :
    c.Walks v (.expression condition :: .statement thenBranch :: elseBranch.toList.map .statement)
      (c.ifThen id condition thenBranch elseBranch) := by
  unfold ifThen
  exact Walks.bind (.expression decides) fun _ => Walks.bind (.statement holds) fun _ =>
    .finish (.statement? fails) fun _ => emitPlain_walks known (.of_nil rfl rfl)

omit h in
theorem loopBody_walks (inside : v.nodes body) :
    c.Walks v [⟨.loop, .statement, body⟩] (c.loopBody body) :=
  .part inside rfl

omit h in
theorem headPart_walks (known : v.nodes id) : c.Walks v [c.formPart id] (c.headPart id) := by
  unfold headPart formPart
  split
  · exact .finish (.expression known) fun _ =>
      .emit (covers_plain known (.of_nil rfl rfl)).implicit
  · exact .statement known

omit h in
theorem forLoop_walks (known : v.nodes id) {initializers incrementors : List SyntaxId}
    {condition : Option SyntaxId} (starts : ∀ i ∈ initializers, v.nodes i)
    (decides : ∀ i ∈ condition, v.nodes i) (advances : ∀ i ∈ incrementors, v.nodes i)
    (inside : v.nodes body) :
    c.Walks v
      (initializers.map c.formPart ++ condition.toList.map .expression ++
        ⟨.loop, .statement, body⟩ :: incrementors.map c.formPart)
      (c.forLoop id initializers condition incrementors body) := by
  unfold forLoop
  rw [List.append_assoc]
  exact .bind (.mapM_single fun i listed => headPart_walks (starts i listed)) fun _ =>
    .bind (.expression? decides) fun _ => Walks.bind (loopBody_walks inside) fun _ =>
      .finish (.mapM_single fun i listed => headPart_walks (advances i listed)) fun _ =>
        emitPlain_walks known (.of_nil rfl rfl)

section Switch

variable (through : Passage)

/-- A part of a switch is walked in the surroundings behind the passage into its sections. -/
theorem clause_walks (known : v.nodes id) :
    c.Walks v (c.clauseParts through id)
      ((c.within (through.scope c.program c.scope)).clause id) := by
  have plainly : c.Walks v [⟨through, .expression, id⟩] (do
      let value ← some <$> (c.within (through.scope c.program c.scope)).expression id
      (c.within (through.scope c.program c.scope)).emitPlain (.caseClause value) id) :=
    .finish (.map some (.part known rfl)) fun _ => .emit (covers_plain known (.of_nil rfl rfl))
  unfold clause clauseParts
  rw [show (c.within (through.scope c.program c.scope)).formOf id = c.formOf id from rfl]
  cases found : c.formOf id with
  | none => exact plainly
  | some form =>
    cases form with
    | caseLabel value =>
      refine .finish ?_ fun _ => .emit (covers_plain known (.of_nil rfl rfl))
      cases value with
      | none => exact .pure none
      | some value => exact .map some (.part (child_known h found (by simp [Form.children])) rfl)
    | _ => exact plainly

theorem switchSection_walks (known : v.nodes id) :
    c.Walks v (c.sectionParts through id)
      ((c.within (through.scope c.program c.scope)).switchSection id) := by
  unfold switchSection sectionParts
  rw [show (c.within (through.scope c.program c.scope)).formOf id = c.formOf id from rfl]
  cases found : c.formOf id with
  | none => exact .part known rfl
  | some form =>
    cases form with
    | switchSection labels statements =>
      have inside : ∀ child ∈ labels ++ statements, v.nodes child :=
        fun child listed => child_known h found (by simpa [Form.children] using listed)
      refine .bind
        (.mapM fun label listed => clause_walks h through (inside label (by simp [listed])))
        fun _ => .finish (.mapM_single fun s listed => ?_) fun _ =>
          .emit (covers_plain known (.of_nil rfl rfl))
      exact .part (inside s (by simp [listed])) rfl
    | _ => exact .part known rfl

end Switch

theorem switch_walks (known : v.nodes id) {expression : SyntaxId} {sections : List SyntaxId}
    (decides : v.nodes expression) (inside : ∀ s ∈ sections, v.nodes s) :
    c.Walks v (.expression expression :: sections.flatMap (c.sectionParts (.switch sections)))
      (c.switch id expression sections) := by
  unfold switch
  exact Walks.bind (.expression decides) fun _ =>
    .finish (.mapM fun s listed => switchSection_walks h (.switch sections)
      (inside s listed)) fun _ => emitPlain_walks known (.of_nil rfl rfl)

omit h in
theorem branch_walks (known : v.nodes id) (kind : BranchKind) (label : Option String)
    (invalid : Bool) : c.Walks v [] (c.branch id kind label invalid) :=
  .emit ((covers_plain known (.of_nil rfl rfl)).invalidIf invalid)

omit h in
theorem breakJump_walks (known : v.nodes id) : c.Walks v [] (c.breakJump id) := by
  unfold breakJump
  split
  · exact branch_walks known _ _ _
  · exact invalidStatement_walks known _

omit h in
theorem continueJump_walks (known : v.nodes id) : c.Walks v [] (c.continueJump id) := by
  unfold continueJump
  split
  · exact branch_walks known _ _ _
  · exact invalidStatement_walks known _

omit h in
theorem goto_walks (known : v.nodes id) (target : JumpTarget)
    (inside : ∀ value, target = .caseOf value → v.nodes value) :
    c.Walks v (gotoParts c.scope.innermostSwitch.isSome target) (c.goto id target) := by
  unfold goto
  cases target with
  | label label => exact branch_walks known _ _ _
  | defaultCase =>
    cases c.scope.innermostSwitch with
    | none => exact invalidStatement_walks known []
    | some cases => exact branch_walks known _ _ _
  | caseOf value =>
    cases c.scope.innermostSwitch with
    | none =>
      exact .finish (.expression (inside value rfl)) fun value =>
        invalidStatement_walks known [value]
    | some cases => exact branch_walks known _ _ _

theorem fixed_walks (known : v.nodes id) {declaration : SyntaxId} (declares : v.nodes declaration)
    (inside : v.nodes body) :
    c.Walks v (c.fixedParts declaration ++ [.statement body]) (c.fixed id declaration body) := by
  have last (declared : OperationId) : c.Walks v [.statement body] (do
      let body ← c.statement body
      c.emitPlain (.fixedStatement declared body) id) :=
    .finish (.statement inside) fun _ => emitPlain_walks known (.of_nil rfl rfl)
  unfold fixed fixedParts
  have salvaged := Walks.bind (salvageStatement_walks h declares) last
  cases found : c.formOf declaration with
  | none => exact salvaged
  | some form =>
    cases form with
    | localDeclaration type declarators =>
      refine .bind (declarationGroup_walks h declares true fun d listed => ?_) last
      exact child_known h found (by simpa [Form.children] using listed)
    | _ => exact salvaged

omit h in
theorem lock_walks (known : v.nodes id) {expression : SyntaxId} (locks : v.nodes expression)
    (inside : v.nodes body) :
    c.Walks v [.expression expression, .statement body] (c.lock id expression body) := by
  unfold lock
  exact Walks.bind (.expression locks) fun _ => .finish (.statement inside) fun _ =>
    .emit ((covers_plain known (.of_nil rfl rfl)).invalidIf _)

theorem usingResource_walks (known : v.nodes id) {resource : SyntaxId} (holds : v.nodes resource)
    (inside : v.nodes body) :
    c.Walks v (c.resourceParts resource ++ [.statement body])
      (c.usingResource id resource body) := by
  have last (resources : OperationId) : c.Walks v [.statement body] (do
      let body ← c.statement body
      c.emitPlain (.usingStatement resources body) id) :=
    .finish (.statement inside) fun _ => emitPlain_walks known (.of_nil rfl rfl)
  unfold usingResource resourceParts
  have computed := Walks.bind (Walks.expression (c := c) holds) last
  cases found : c.formOf resource with
  | none => exact computed
  | some form =>
    cases form with
    | localDeclaration type declarators =>
      refine .bind (declarationGroup_walks h holds false fun d listed => ?_) last
      exact child_known h found (by simpa [Form.children] using listed)
    | _ => exact computed

omit h in
theorem misplaced_walks (known : v.nodes id) (form : Form) :
    c.Walks v (if form.isExpression then [.expression id] else []) (c.misplaced id form) := by
  unfold misplaced
  split
  · exact .finish (.expression known) fun child => invalidStatement_walks known [child]
  · exact invalidStatement_walks known []

theorem statementForm_walks (known : v.nodes id) :
    c.Walks v (c.statementParts c.scope.innermostSwitch.isSome id (c.formOf id))
      (c.statementForm id (c.formOf id)) := by
  have children (form : Form) (found : c.formOf id = some form) :
      ∀ child ∈ form.children, v.nodes child :=
    fun child member => child_known h found member
  cases found : c.formOf id with
  | none => exact invalidStatement_walks known _
  | some form =>
    have inside := children form found
    have kept := misplaced_walks (c := c) known form
    cases form with
    | block statements =>
      exact .finish (.mapM_single fun s listed => .statement (inside s listed)) fun _ =>
        emitPlain_walks known (.of_nil rfl rfl)
    | expressionStatement expression =>
      exact .finish (.expression (inside expression (by simp [Form.children]))) fun _ =>
        emitPlain_walks known (.of_nil rfl rfl)
    | localDeclaration type declarators => exact declarationGroup_walks h known false inside
    | variableDeclarator name initializer => exact declarator_walks h known false
    | ifThen condition thenBranch elseBranch =>
      simp only [Form.children, List.forall_mem_cons, Option.mem_toList] at inside
      exact ifThen_walks known inside.1 inside.2.1 inside.2.2
    | whileLoop condition body =>
      simp only [Form.children, List.forall_mem_cons] at inside
      exact Walks.bind (.expression inside.1) fun _ =>
        .finish (loopBody_walks inside.2.1) fun _ => emitPlain_walks known (.of_nil rfl rfl)
    | forLoop initializers condition incrementors body =>
      exact forLoop_walks known (fun i listed => inside i (by simp [Form.children, listed]))
        (fun i given => inside i (by simp [Form.children, Option.mem_def.mp given]))
        (fun i listed => inside i (by simp [Form.children, listed]))
        (inside body (by simp [Form.children]))
    | switch expression sections =>
      simp only [Form.children, List.forall_mem_cons] at inside
      exact switch_walks h known inside.1 inside.2
    | breakJump => exact breakJump_walks known
    | continueJump => exact continueJump_walks known
    | goto target =>
      exact goto_walks known target fun value same => inside value (by simp [same, Form.children])
    | labeled label statement =>
      exact .finish (.statement (inside statement (by simp [Form.children]))) fun _ =>
        emitPlain_walks known (.of_nil rfl rfl)
    | returnJump expression =>
      exact .finish (.expression? fun i given => inside i (Option.mem_toList.mpr given))
        fun _ => emitPlain_walks known (.of_nil rfl rfl)
    | empty => exact emitPlain_walks known (.of_nil rfl rfl)
    | fixed declaration body =>
      simp only [Form.children, List.forall_mem_cons] at inside
      exact fixed_walks h known inside.1 inside.2.1
    | lock expression body =>
      simp only [Form.children, List.forall_mem_cons] at inside
      exact lock_walks known inside.1 inside.2.1
    | usingResource resource body =>
      simp only [Form.children, List.forall_mem_cons] at inside
      exact usingResource_walks h known inside.1 inside.2.1
    | switchSection labels statements => exact salvageStatement_walks h known
    | caseLabel value => exact salvageStatement_walks h known
    | _ => exact kept

theorem lowerStatement_walks (known : v.nodes id) :
    c.Walks v (c.statementParts c.scope.innermostSwitch.isSome id (c.formOf id))
      (c.lowerStatement id) :=
  statementForm_walks h known

theorem initializer_walks (known : v.nodes id) (value : OperationId)
    (make : SymbolId → OperationId → OperationKind)
    (covered : ∀ symbol, v.symbols symbol → v.CoversKind (make symbol value)) :
    c.Walks v [] (c.initializer id value make) := by
  unfold initializer
  split
  · next symbol found => exact emitPlain_walks known (covered symbol (h.symbol id symbol found))
  · exact invalidStatement_walks known [value]

theorem initialized_walks (known : v.nodes id) {value : Option SyntaxId}
    (inside : ∀ i ∈ value, v.nodes i) (make : SymbolId → OperationId → OperationKind)
    (covered : ∀ symbol value, v.symbols symbol → v.CoversKind (make symbol value)) :
    c.Walks v (value.toList.map .expression) (c.initialized id value make) := by
  unfold initialized
  cases value with
  | none => exact .pure none
  | some value =>
    exact .finish (.expression (inside value rfl)) fun value =>
      .map some (initializer_walks h known value make fun symbol => covered symbol value)

theorem lowerRoot_walks (known : v.nodes id) : c.Walks v (c.rootParts id) (c.lowerRoot id) := by
  unfold lowerRoot rootParts
  cases found : c.formOf id with
  | none => exact .pure none
  | some form =>
    have inside : ∀ child ∈ form.children, v.nodes child :=
      fun child member => child_known h found member
    have asked : c.Walks v [if form.isExpression then .expression id else .statement id]
        (some <$> if form.isExpression then c.expression id else c.statement id) := by
      cases form.isExpression with
      | true => exact .map some (.expression known)
      | false => exact .map some (.statement known)
    cases form with
    | variableDeclarator name value =>
      dsimp only
      split
      · exact initialized_walks h known (fun i given => inside i (Option.mem_toList.mpr given)) _
          fun _ _ named => .of_symbol rfl rfl named
      · exact .map some (.statement known)
    | property name value =>
      exact initialized_walks h known (fun i given => inside i (Option.mem_toList.mpr given)) _
        fun _ _ named => .of_symbol rfl rfl named
    | parameter name value =>
      exact initialized_walks h known (fun i given => inside i (Option.mem_toList.mpr given)) _
        fun _ _ named => .of_symbol rfl rfl named
    | method name parameters body =>
      cases body with
      | none => exact .pure none
      | some body =>
        exact .finish (.statement (inside body (by simp [Form.children]))) fun _ =>
          .map some (emitPlain_walks known (.of_nil rfl rfl))
    | field declarators => exact .pure none
    | typeDeclaration name members => exact .pure none
    | _ => exact asked

end SemanticTrees.Context
