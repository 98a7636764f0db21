import SemanticTrees.Proofs.Lowering.ExpressionRegions

/-! The regions of statements and roots. Every form of statement is lowered to one operation that was
made for its node or below it, and so is every root. The walk inherits this by induction on the
number of nested nodes that it may still lower. -/
namespace SemanticTrees

namespace Context

open Lowering

variable {c : Context} {id body condition : SyntaxId} {declarators : List SyntaxId}

theorem branch_into (kind : BranchKind) (label : Option String) (invalid : Bool) :
    c.Into id (c.branch id kind label invalid) :=
  emit_leaf_settles (at_plain.invalidIf _) (by simp [OperationKind.children])

theorem invalidStatement_into : c.Into id (c.invalidStatement id []) :=
  emit_leaf_settles at_plain (by simp [OperationKind.children])

theorem placeholder_into (role : Role) (id : SyntaxId) : c.Into id (c.placeholder role id) := by
  cases role with
  | expression =>
    exact emit_leaf_settles (at_plain.withType _) (by simp [OperationKind.children])
  | statement => exact invalidStatement_into

theorem breakJump_into : c.Into id (c.breakJump id) := by
  unfold breakJump
  split
  · exact branch_into _ _ _
  · exact invalidStatement_into

theorem continueJump_into : c.Into id (c.continueJump id) := by
  unfold continueJump
  split
  · exact branch_into _ _ _
  · exact invalidStatement_into

namespace WalksInto

variable (h : c.WalksInto)
include h

theorem loopBody : c.Into body (c.loopBody body) := (h.within (c.scope.inside .loop)).statement body

theorem headPart (id : SyntaxId) : c.Into id (c.headPart id) := by
  unfold Context.headPart
  split
  · exact Settles.andThen (h.expression id) fun operation =>
      emit_inside_settles at_plain.implicit .refl (by simp [OperationKind.children])
  · exact h.statement id

theorem headParts (ids : List SyntaxId) : c.IntoList ids (ids.mapM c.headPart) :=
  .mapM fun id _ => h.headPart id

theorem misplaced (form : Form) : c.Into id (c.misplaced id form) := by
  unfold Context.misplaced
  split
  · exact Settles.andThen (h.expression id) fun child =>
      emit_inside_settles at_plain .refl (by simp [OperationKind.children])
  · exact invalidStatement_into

variable (tidy : c.program.Tidy)
include tidy

theorem salvageStatement (id : SyntaxId) : c.Into id (c.salvageStatement id) := by
  have each (child : SyntaxId) : c.Into child
      (if c.isExpression child then c.expression child else c.statement child) := by
    split
    · exact h.expression child
    · exact h.statement child
  unfold Context.salvageStatement
  exact Settles.andThen (IntoList.mapM fun child _ => each child) fun children =>
    emit_parts_settles at_plain tidy (.refl _) (by simp [OperationKind.children])

theorem declarator (isFixed : Bool) (id : SyntaxId) : c.Into id (c.declarator isFixed id) := by
  unfold Context.declarator
  split
  · next name initializer known =>
    cases initializer with
    | some initializer =>
      have part : c.program.HasPart id initializer :=
        Program.hasPart_of_formOf known (by simp [Form.children])
      exact Settles.andThen (h.expression initializer).optional fun value =>
        emit_inside_settles at_plain (.single part) (by simp [OperationKind.children])
    | none =>
      cases isFixed with
      | true =>
        let place := Span.point (c.program.nodes.spanOf id).stop
        show Settles c.program (do
          let i ← emit (Operation.plain (.invalidExpression []) id place)
          emit (c.plain (.variableDeclarator (c.program.symbolOf id) (some i)) id)) [] []
          [.below id] fun i => [i]
        exact .emit_behind known (by simp [OperationKind.children]) rfl rfl
          (by simp [OperationKind.children]) (fun _ => rfl) (fun _ => rfl) fun _ => rfl
      | false => exact emit_leaf_settles at_plain (by simp [OperationKind.children])
  · exact h.salvageStatement tidy id

theorem declarationGroup {type : Option TypeId} (isFixed : Bool)
    (known : c.formOf id = some (.localDeclaration type declarators)) :
    c.Into id (c.declarationGroup isFixed id declarators) := by
  have each : c.IntoList declarators (declarators.mapM (c.declarator isFixed)) :=
    .mapM fun id _ => h.declarator tidy isFixed id
  unfold Context.declarationGroup
  exact Settles.andThen each fun values =>
    Settles.andThen
      (emit_settles at_plain tidy known (.refl _) (by simp [OperationKind.children]))
      fun declaration => emit_inside_settles at_plain .refl (by simp [OperationKind.children])

theorem ifThen {thenBranch : SyntaxId} {elseBranch : Option SyntaxId}
    (known : c.formOf id = some (.ifThen condition thenBranch elseBranch)) :
    c.Into id (c.ifThen id condition thenBranch elseBranch) := by
  unfold Context.ifThen
  exact Settles.andThen (h.expression condition) fun condition =>
    Settles.bind (h.statement thenBranch) fun whenTrue =>
      Settles.bind (h.statement? elseBranch) fun whenFalse =>
        emit_settles at_plain tidy known (by simp [Form.children])
          (by simp [OperationKind.children])

theorem whileLoop (known : c.formOf id = some (.whileLoop condition body)) : c.Into id (do
    let condition ← c.expression condition
    let body ← c.loopBody body
    c.emitPlain (.whileLoop condition body) id) :=
  Settles.andThen (h.expression condition) fun condition =>
    Settles.bind h.loopBody fun body =>
      emit_settles at_plain tidy known (by simp [Form.children]) (by simp [OperationKind.children])

/-- The body is lowered in front of the incrementors and listed behind them. -/
theorem forLoop {initializers incrementors : List SyntaxId} {condition : Option SyntaxId}
    (known : c.formOf id = some (.forLoop initializers condition incrementors body)) :
    c.Into id (c.forLoop id initializers condition incrementors body) := by
  unfold Context.forLoop
  refine Settles.andThen (h.headParts initializers) fun before =>
    Settles.bind (h.expression? condition) fun test =>
      Settles.bind h.loopBody fun repeated =>
        Settles.bind (h.headParts incrementors) fun atLoopBottom =>
          emit_settles at_plain tidy known (List.Perm.subperm ?_) ?_
  · have swapped : (Region.below body :: incrementors.map .below).Perm
        (incrementors.map .below ++ [.below body]) := (List.perm_append_singleton _ _).symm
    simpa [Form.children] using
      (swapped.append_left (condition.toList.map .below)).append_left (initializers.map .below)
  · intro child listed
    simpa [OperationKind.children, or_comm, or_left_comm] using listed

theorem clause (id : SyntaxId) : c.Into id (c.clause id) := by
  unfold Context.clause
  dsimp only
  split
  · next value known =>
    exact Settles.andThen (h.expression? value) fun value =>
      emit_settles at_plain tidy known (by simp [Form.children]) (by simp [OperationKind.children])
  · exact Settles.andThen (h.expression id).optional fun value =>
      emit_inside_settles at_plain .refl (by simp [OperationKind.children])

theorem switchSection (id : SyntaxId) : c.Into id (c.switchSection id) := by
  unfold Context.switchSection
  split
  · next labels statements known =>
    have clauses : c.IntoList labels (labels.mapM c.clause) :=
      .mapM fun id _ => h.clause tidy id
    exact Settles.andThen clauses fun clauses =>
      Settles.bind (h.statements statements) fun body =>
        emit_settles at_plain tidy known (by simp [Form.children])
          (by simp [OperationKind.children])
  · exact h.statement id

theorem switch {expression : SyntaxId} {sections : List SyntaxId}
    (known : c.formOf id = some (.switch expression sections)) :
    c.Into id (c.switch id expression sections) := by
  let inside := c.within (c.scope.inside (.switch (c.program.switchCases sections)))
  have cases : c.IntoList sections (sections.mapM inside.switchSection) :=
    .mapM fun id _ => (h.within inside.scope).switchSection tidy id
  unfold Context.switch
  exact Settles.andThen (h.expression expression) fun value =>
    Settles.bind cases fun cases =>
      emit_settles at_plain tidy known (by simp [Form.children]) (by simp [OperationKind.children])

theorem goto {target : JumpTarget} (known : c.formOf id = some (.goto target)) :
    c.Into id (c.goto id target) := by
  unfold Context.goto
  split
  · exact branch_into _ _ _
  · exact branch_into _ _ _
  · exact Settles.andThen (h.expression _) fun value =>
      emit_settles at_plain tidy known (by simp [Form.children]) (by simp [OperationKind.children])
  · exact branch_into _ _ _
  · exact invalidStatement_into

theorem fixed {declaration : SyntaxId} (known : c.formOf id = some (.fixed declaration body)) :
    c.Into id (c.fixed id declaration body) := by
  have last (declared : OperationId) : Settles c.program (do
      let body ← c.statement body
      c.emitPlain (.fixedStatement declared body) id) [.below declaration] [declared] [.below id]
      fun i => [i] :=
    Settles.bind (h.statement body) fun body =>
      emit_settles at_plain tidy known (by simp [Form.children]) (by simp [OperationKind.children])
  unfold Context.fixed
  dsimp only
  split
  · next declared => exact Settles.andThen (h.declarationGroup tidy true declared) last
  · exact Settles.andThen (h.salvageStatement tidy declaration) last

theorem lock {expression : SyntaxId} (known : c.formOf id = some (.lock expression body)) :
    c.Into id (c.lock id expression body) := by
  unfold Context.lock
  exact Settles.andThen (h.expression expression) fun value =>
    Settles.bind (h.statement body) fun body =>
      emit_settles (at_plain.invalidIf _) tidy known (by simp [Form.children])
        (by simp [OperationKind.children])

theorem usingResource {resource : SyntaxId}
    (known : c.formOf id = some (.usingResource resource body)) :
    c.Into id (c.usingResource id resource body) := by
  have last (resources : OperationId) : Settles c.program (do
      let body ← c.statement body
      c.emitPlain (.usingStatement resources body) id) [.below resource] [resources] [.below id]
      fun i => [i] :=
    Settles.bind (h.statement body) fun body =>
      emit_settles at_plain tidy known (by simp [Form.children]) (by simp [OperationKind.children])
  unfold Context.usingResource
  dsimp only
  split
  · next declared => exact Settles.andThen (h.declarationGroup tidy false declared) last
  · exact Settles.andThen (h.expression resource) last

theorem block {statements : List SyntaxId} (known : c.formOf id = some (.block statements)) :
    c.Into id (do
      let statements ← statements.mapM c.statement
      c.emitPlain (.block statements) id) :=
  Settles.andThen (h.statements statements) fun statements =>
    emit_settles at_plain tidy known (.refl _) (by simp [OperationKind.children])

theorem statementForm {form : Option Form} (known : c.formOf id = form) :
    c.Into id (c.statementForm id form) := by
  unfold Context.statementForm
  split
  · exact invalidStatement_into
  · exact h.block tidy known
  · exact Settles.andThen (h.expression _) fun operation =>
      emit_settles at_plain tidy known (.refl _) (by simp [OperationKind.children])
  · exact h.declarationGroup tidy _ known
  · exact h.declarator tidy _ _
  · exact h.ifThen tidy known
  · exact h.whileLoop tidy known
  · exact h.forLoop tidy known
  · exact h.switch tidy known
  · exact breakJump_into
  · exact continueJump_into
  · exact h.goto tidy known
  · exact Settles.andThen (h.statement _) fun operation =>
      emit_settles at_plain tidy known (.refl _) (by simp [OperationKind.children])
  · exact Settles.andThen (h.expression? _) fun value =>
      emit_settles at_plain tidy known (.refl _) (by simp [OperationKind.children])
  · exact emit_leaf_settles at_plain (by simp [OperationKind.children])
  · exact h.fixed tidy known
  · exact h.lock tidy known
  · exact h.usingResource tidy known
  · exact h.salvageStatement tidy id
  · exact h.salvageStatement tidy id
  · exact h.misplaced _

theorem lowerStatement (id : SyntaxId) : c.Into id (c.lowerStatement id) :=
  h.statementForm tidy rfl

end WalksInto

end Context

open Lowering

/-- Whatever the depth that is left, the walk gives back an operation for its node. -/
theorem walk_into {p : Program} (tidy : p.Tidy) (own : p.BindsOwnArguments)
    (options : LoweringOptions) (depth : Nat) (scope : Scope) (role : Role) (id : SyntaxId) :
    Settles p (walk p options depth scope role id) [] [] [.below id] fun i => [i] := by
  induction depth generalizing scope role id with
  | zero =>
    -- the walk that is never reached may be any
    let c : Context := { program := p, options, scope, walk := fun _ _ _ => pure 0 }
    exact Context.placeholder_into (c := c) role id
  | succ depth ih =>
    let c : Context := { program := p, options, scope, walk := walk p options depth }
    have h : c.WalksInto := ih
    cases role with
    | expression => exact h.lowerExpression tidy own id
    | statement => exact h.lowerStatement tidy id

namespace Context.WalksInto

variable {c : Context} {id : SyntaxId} (h : c.WalksInto)
include h

theorem initialized {value : Option SyntaxId} {make : SymbolId → OperationId → OperationKind}
    (parts : ∀ part ∈ value, c.program.HasPart id part)
    (wraps : ∀ symbol value, (make symbol value).children = [value]) :
    c.IntoOption id (c.initialized id value make) := by
  cases value with
  | none => exact .none
  | some value =>
    have last (i : OperationId) : Settles c.program (c.initializer id i make) [.below value] [i]
        [.below id] fun i => [i] := by
      unfold Context.initializer
      split
      · exact emit_inside_settles at_plain (.single (parts value rfl)) (by simp [wraps])
      · exact emit_inside_settles at_plain (.single (parts value rfl))
          (by simp [OperationKind.children])
    exact Settles.andThen (h.expression value) fun i => Settles.map (last i) fun _ => rfl

theorem lowerRoot (id : SyntaxId) : c.IntoOption id (c.lowerRoot id) := by
  unfold Context.lowerRoot
  split
  · exact .none
  · next value known =>
    split
    · exact h.initialized (fun part listed => Program.hasPart_of_formOf known
        (by simpa [Form.children] using listed)) fun _ _ => rfl
    · exact (h.statement id).optional
  · next value known =>
    exact h.initialized (fun part listed => Program.hasPart_of_formOf known
      (by simpa [Form.children] using listed)) fun _ _ => rfl
  · next value known =>
    exact h.initialized (fun part listed => Program.hasPart_of_formOf known
      (by simpa [Form.children] using listed)) fun _ _ => rfl
  · exact .none
  · next body known =>
    have part : c.program.HasPart id body :=
      Program.hasPart_of_formOf known (by simp [Form.children])
    exact Settles.andThen (h.statement body) fun body =>
      Settles.map (emit_inside_settles at_plain (.single part) (by simp [OperationKind.children]))
        fun _ => rfl
  · exact .none
  · exact .none
  · split
    · exact (h.expression id).optional
    · exact (h.statement id).optional

end Context.WalksInto

end SemanticTrees
