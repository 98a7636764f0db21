import SemanticTrees.Lowering.Root
import SemanticTrees.Proofs.Lowering.Expressions

/-! Every form of statement is lowered to one operation that nothing uses, and so is every root.
The walk inherits this by induction on the number of nested nodes that it may still lower. -/
namespace SemanticTrees

namespace Context

open Lowering

variable {c : Context} {id body condition : SyntaxId}

theorem branch_fresh (kind : BranchKind) (label : Option String) (invalid : Bool) :
    Fresh (c.branch id kind label invalid) :=
  Trades.emit (by simp [OperationKind.children])

theorem breakJump_fresh : Fresh (c.breakJump id) := by
  unfold breakJump
  split
  · exact branch_fresh _ _ _
  · exact invalidStatement_trades (.refl _)

theorem continueJump_fresh : Fresh (c.continueJump id) := by
  unfold continueJump
  split
  · exact branch_fresh _ _ _
  · exact invalidStatement_trades (.refl _)

namespace WalksFresh

variable (h : c.WalksFresh)
include h

theorem declarator (isFixed : Bool) (id : SyntaxId) : Fresh (c.declarator isFixed id) := by
  unfold Context.declarator
  split
  · next initializer _ =>
    have last (value : Option OperationId) : Trades (c.emitPlain
        (.variableDeclarator (c.program.symbolOf id) value) id) value.toList fun i => [i] :=
      emitPlain_trades (by simp)
    cases initializer with
    | some initializer => exact Trades.bind (h.expression initializer).optional last
    | none =>
      cases isFixed with
      | true =>
        exact Trades.bind (Fresh.optional (Trades.emit (by simp [OperationKind.children]))) last
      | false => exact Trades.bind FreshOption.none last
  · exact h.salvageStatement id

theorem declarationGroup (isFixed : Bool) (id : SyntaxId) (declarators : List SyntaxId) :
    Fresh (c.declarationGroup isFixed id declarators) := by
  unfold Context.declarationGroup
  exact Trades.bind (Fresh.mapM (h.declarator isFixed) declarators) fun declarators =>
    Trades.andThen (emitPlain_trades (by simp)) fun declaration => emitPlain_trades (by simp)

theorem ifThen (thenBranch : SyntaxId) (elseBranch : Option SyntaxId) :
    Fresh (c.ifThen id condition thenBranch elseBranch) := by
  unfold Context.ifThen
  exact Trades.bind (h.expression condition) fun condition =>
    Trades.bind (h.statement thenBranch) fun whenTrue =>
      Trades.bind (h.statement? elseBranch) fun whenFalse => emitPlain_trades (by simp)

theorem loopBody : Fresh (c.loopBody body) := (h.within _).statement body

theorem whileLoop : Fresh (do
    let condition ← c.expression condition
    let body ← c.loopBody body
    c.emitPlain (.whileLoop condition body) id) :=
  Trades.bind (h.expression condition) fun condition =>
    Trades.bind h.loopBody fun body => emitPlain_trades (by simp)

theorem headPart (id : SyntaxId) : Fresh (c.headPart id) := by
  unfold Context.headPart
  split
  · exact Trades.bind (h.expression id) fun operation => .emit (by simp [OperationKind.children])
  · exact h.statement id

/-- The body is lowered in front of the incrementors and listed behind them. -/
theorem forLoop (initializers : List SyntaxId) (condition : Option SyntaxId)
    (incrementors : List SyntaxId) :
    Fresh (c.forLoop id initializers condition incrementors body) := by
  unfold Context.forLoop
  refine Trades.bind (Fresh.mapM h.headPart initializers) fun before =>
    Trades.bind (h.expression? condition) fun condition =>
      Trades.bind h.loopBody fun body =>
        Trades.bind (Fresh.mapM h.headPart incrementors) fun atLoopBottom =>
          emitPlain_trades (List.Perm.subperm ?_)
  have swapped : (atLoopBottom ++ [body]).Perm ([body] ++ atLoopBottom) := List.perm_append_comm
  simpa using (swapped.append_left condition.toList).append_left before

theorem clause (id : SyntaxId) : Fresh (c.clause id) := by
  unfold Context.clause
  have last (value : Option OperationId) :
      Trades (c.emitPlain (.caseClause value) id) value.toList fun i => [i] :=
    emitPlain_trades (by simp)
  dsimp only
  split
  · exact Trades.bind (h.expression? _) last
  · exact Trades.bind (h.expression id).optional last

theorem switchSection (id : SyntaxId) : Fresh (c.switchSection id) := by
  unfold Context.switchSection
  split
  · exact Trades.bind (Fresh.mapM h.clause _) fun clauses =>
      Trades.bind (Fresh.mapM h.statement _) fun body => emitPlain_trades (by simp)
  · exact h.statement id

theorem switch (expression : SyntaxId) (sections : List SyntaxId) :
    Fresh (c.switch id expression sections) := by
  unfold Context.switch
  exact Trades.bind (h.expression expression) fun value =>
    Trades.bind (Fresh.mapM (h.within _).switchSection sections) fun cases =>
      emitPlain_trades (by simp)

theorem goto (target : JumpTarget) : Fresh (c.goto id target) := by
  unfold Context.goto
  split
  · exact branch_fresh _ _ _
  · exact branch_fresh _ _ _
  · exact Trades.bind (h.expression _) fun value => invalidStatement_trades (.refl _)
  · exact branch_fresh _ _ _
  · exact invalidStatement_trades (.refl _)

theorem fixed (declaration : SyntaxId) : Fresh (c.fixed id declaration body) := by
  unfold Context.fixed
  have last (declared : OperationId) : Trades (do
      let body ← c.statement body
      c.emitPlain (.fixedStatement declared body) id) [declared] fun i => [i] :=
    Trades.bind (h.statement body) fun body => emitPlain_trades (by simp)
  dsimp only
  split
  · exact Trades.bind (h.declarationGroup _ _ _) last
  · exact Trades.bind (h.salvageStatement declaration) last

theorem lock (expression : SyntaxId) : Fresh (c.lock id expression body) := by
  unfold Context.lock
  exact Trades.bind (h.expression expression) fun value =>
    Trades.bind (h.statement body) fun body => .emit (by simp [OperationKind.children])

theorem usingResource (resource : SyntaxId) : Fresh (c.usingResource id resource body) := by
  unfold Context.usingResource
  have last (resources : OperationId) : Trades (do
      let body ← c.statement body
      c.emitPlain (.usingStatement resources body) id) [resources] fun i => [i] :=
    Trades.bind (h.statement body) fun body => emitPlain_trades (by simp)
  dsimp only
  split
  · exact Trades.bind (h.declarationGroup _ _ _) last
  · exact Trades.bind (h.expression resource) last

theorem misplaced (form : Form) : Fresh (c.misplaced id form) := by
  unfold Context.misplaced
  split
  · exact Trades.bind (h.expression id) fun child => invalidStatement_trades (.refl _)
  · exact invalidStatement_trades (.refl _)

theorem statementForm (id : SyntaxId) (form : Option Form) : Fresh (c.statementForm id form) := by
  unfold Context.statementForm
  split
  · exact invalidStatement_trades (.refl _)
  · exact Trades.bind (Fresh.mapM h.statement _) fun statements => emitPlain_trades (by simp)
  · exact Trades.bind (h.expression _) fun operation => emitPlain_trades (by simp)
  · exact h.declarationGroup _ _ _
  · exact h.declarator _ _
  · exact h.ifThen _ _
  · exact h.whileLoop
  · exact h.forLoop _ _ _
  · exact h.switch _ _
  · exact breakJump_fresh
  · exact continueJump_fresh
  · exact h.goto _
  · exact Trades.bind (h.statement _) fun operation => emitPlain_trades (by simp)
  · exact Trades.bind (h.expression? _) fun value => emitPlain_trades (by simp)
  · exact emitPlain_trades (by simp)
  · exact h.fixed _
  · exact h.lock _
  · exact h.usingResource _
  · exact h.salvageStatement id
  · exact h.salvageStatement id
  · exact h.misplaced _

theorem lowerStatement (id : SyntaxId) : Fresh (c.lowerStatement id) := h.statementForm id _

end WalksFresh

end Context

open Lowering

/-- Whatever the depth that is left, the walk gives back one operation that nothing uses. -/
theorem walk_fresh (program : Program) (options : LoweringOptions) (depth : Nat) (scope : Scope)
    (role : Role) (id : SyntaxId) : Fresh (walk program options depth scope role id) := by
  induction depth generalizing scope role id with
  | zero => exact Context.placeholder_fresh role id
  | succ depth ih =>
    have h : Context.WalksFresh { program, options, scope, walk := walk program options depth } :=
      ih
    cases role with
    | expression => exact h.lowerExpression id
    | statement => exact h.lowerStatement id

namespace Context.WalksFresh

variable {c : Context} {id : SyntaxId} (h : c.WalksFresh)
include h

omit h in
theorem initializer (value : OperationId) {make : SymbolId → OperationId → OperationKind}
    (wraps : ∀ symbol value, (make symbol value).children = [value]) :
    Trades (c.initializer id value make) [value] fun i => [i] := by
  unfold Context.initializer
  split
  · exact Trades.emit (by rw [children_plain, wraps])
  · exact invalidStatement_trades (.refl _)

theorem initialized (value : Option SyntaxId) {make : SymbolId → OperationId → OperationKind}
    (wraps : ∀ symbol value, (make symbol value).children = [value]) :
    FreshOption (c.initialized id value make) := by
  cases value with
  | none => exact .none
  | some value =>
    exact Trades.andThen (h.expression value) fun value =>
      Trades.map (initializer value wraps) fun _ => rfl

theorem lowerRoot (id : SyntaxId) : FreshOption (c.lowerRoot id) := by
  unfold Context.lowerRoot
  split
  · exact .none
  · split
    · exact h.initialized _ fun _ _ => rfl
    · exact (h.statement id).optional
  · exact h.initialized _ fun _ _ => rfl
  · exact h.initialized _ fun _ _ => rfl
  · exact .none
  · exact Trades.bind (h.statement _) fun body =>
      Trades.map (emitPlain_trades (by simp)) fun _ => rfl
  · exact .none
  · exact .none
  · split
    · exact (h.expression id).optional
    · exact (h.statement id).optional

end Context.WalksFresh

end SemanticTrees
