import SemanticTrees.Proofs.Lowering.ExpressionReruns
import SemanticTrees.Proofs.Lowering.Tree

/-! Statements that are lowered with other options, and roots. Options do not matter for statements
as such; as the depth limit is the same in both runs, the walk ends at the same nodes. -/
namespace SemanticTrees.Rerun

open Lowering

variable {r : Rerun} {id body condition : SyntaxId}

theorem branch_agrees (kind : BranchKind) (label : Option String) (invalid : Bool) :
    r.Agrees (r.first.branch id kind label invalid) (r.second.branch id kind label invalid) :=
  .settled _

theorem breakJump_agrees (id : SyntaxId) :
    r.Agrees (r.first.breakJump id) (r.second.breakJump id) := by
  simp only [Context.breakJump, scope_second]
  exact .ite (branch_agrees _ _ _) (invalidStatement_agrees id [])

theorem continueJump_agrees (id : SyntaxId) :
    r.Agrees (r.first.continueJump id) (r.second.continueJump id) := by
  simp only [Context.continueJump, scope_second]
  exact .ite (branch_agrees _ _ _) (invalidStatement_agrees id [])

namespace Walks

variable (h : r.Walks)
include h

theorem declarator (isFixed : Bool) (id : SyntaxId) :
    r.Agrees (r.first.declarator isFixed id) (r.second.declarator isFixed id) := by
  simp only [Context.declarator, formOf_second, program_second]
  have last (value : Option OperationId) : r.Agrees
      (r.first.emitPlain (.variableDeclarator (r.first.program.symbolOf id) value) id)
      (r.second.emitPlain (.variableDeclarator (r.first.program.symbolOf id) value) id) :=
    emitPlain_agrees _ id
  split
  · next initializer _ =>
    cases initializer with
    | some initializer => exact .bind (.map some (h.expression initializer)) last
    | none => exact .ite (.bind (.map some (.settled _)) last) (.bind (.pure none) last)
  · exact h.salvageStatement id

theorem declarationGroup (isFixed : Bool) (id : SyntaxId) (declarators : List SyntaxId) :
    r.Agrees (r.first.declarationGroup isFixed id declarators)
      (r.second.declarationGroup isFixed id declarators) := by
  apply Agrees.bind (.mapM (h.declarator isFixed) declarators)
  intro declarators
  exact .bind (emitPlain_agrees _ id) fun declaration => emitPlain_agrees _ id

theorem ifThen (thenBranch : SyntaxId) (elseBranch : Option SyntaxId) :
    r.Agrees (r.first.ifThen id condition thenBranch elseBranch)
      (r.second.ifThen id condition thenBranch elseBranch) := by
  apply Agrees.bind (h.expression condition)
  intro condition
  apply Agrees.bind (h.statement thenBranch)
  intro whenTrue
  exact .bind (h.statement? elseBranch) fun whenFalse => emitPlain_agrees _ id

theorem loopBody (body : SyntaxId) :
    r.Agrees (r.first.loopBody body) (r.second.loopBody body) :=
  (h.within (r.first.scope.inside .loop)).statement body

theorem headPart (id : SyntaxId) : r.Agrees (r.first.headPart id) (r.second.headPart id) := by
  simp only [Context.headPart, isExpression_second]
  refine .ite ?_ (h.statement id)
  exact .bind (h.expression id) fun operation => .settled _

theorem forLoop (initializers : List SyntaxId) (condition : Option SyntaxId)
    (incrementors : List SyntaxId) :
    r.Agrees (r.first.forLoop id initializers condition incrementors body)
      (r.second.forLoop id initializers condition incrementors body) := by
  apply Agrees.bind (.mapM h.headPart initializers)
  intro before
  apply Agrees.bind (h.expression? condition)
  intro condition
  apply Agrees.bind (h.loopBody body)
  intro body
  exact .bind (.mapM h.headPart incrementors) fun atLoopBottom => emitPlain_agrees _ id

theorem clause (id : SyntaxId) : r.Agrees (r.first.clause id) (r.second.clause id) := by
  simp only [Context.clause, formOf_second]
  have last (value : Option OperationId) : r.Agrees
      (r.first.emitPlain (.caseClause value) id) (r.second.emitPlain (.caseClause value) id) :=
    emitPlain_agrees _ id
  split
  · exact .bind (h.expression? _) last
  · exact .bind (.map some (h.expression id)) last

theorem switchSection (id : SyntaxId) :
    r.Agrees (r.first.switchSection id) (r.second.switchSection id) := by
  simp only [Context.switchSection, formOf_second]
  split
  · apply Agrees.bind (.mapM h.clause _)
    intro clauses
    exact .bind (.mapM h.statement _) fun body => emitPlain_agrees _ id
  · exact h.statement id

theorem switch (expression : SyntaxId) (sections : List SyntaxId) :
    r.Agrees (r.first.switch id expression sections) (r.second.switch id expression sections) := by
  apply Agrees.bind (h.expression expression)
  intro value
  have inside := h.within (r.first.scope.inside (.switch (r.first.program.switchCases sections)))
  apply Agrees.bind (.mapM inside.switchSection sections)
  intro cases
  exact emitPlain_agrees _ id

theorem goto (target : JumpTarget) :
    r.Agrees (r.first.goto id target) (r.second.goto id target) := by
  simp only [Context.goto, scope_second, program_second]
  split
  · exact branch_agrees _ _ _
  · exact branch_agrees _ _ _
  · exact .bind (h.expression _) fun value => invalidStatement_agrees id [value]
  · exact branch_agrees _ _ _
  · exact invalidStatement_agrees id []

theorem fixed (declaration body : SyntaxId) :
    r.Agrees (r.first.fixed id declaration body) (r.second.fixed id declaration body) := by
  simp only [Context.fixed, formOf_second]
  have last (declared : OperationId) : r.Agrees
      (r.first.statement body >>= fun body => r.first.emitPlain (.fixedStatement declared body) id)
      (r.second.statement body >>= fun body =>
        r.second.emitPlain (.fixedStatement declared body) id) :=
    .bind (h.statement body) fun body => emitPlain_agrees _ id
  split
  · exact .bind (h.declarationGroup _ _ _) last
  · exact .bind (h.salvageStatement declaration) last

theorem lock (expression body : SyntaxId) :
    r.Agrees (r.first.lock id expression body) (r.second.lock id expression body) := by
  apply Agrees.bind (h.expression expression)
  intro value
  exact .bind (h.statement body) fun body => .settled _

theorem usingResource (resource body : SyntaxId) :
    r.Agrees (r.first.usingResource id resource body)
      (r.second.usingResource id resource body) := by
  simp only [Context.usingResource, formOf_second]
  have last (resources : OperationId) : r.Agrees
      (r.first.statement body >>= fun body =>
        r.first.emitPlain (.usingStatement resources body) id)
      (r.second.statement body >>= fun body =>
        r.second.emitPlain (.usingStatement resources body) id) :=
    .bind (h.statement body) fun body => emitPlain_agrees _ id
  split
  · exact .bind (h.declarationGroup _ _ _) last
  · exact .bind (h.expression resource) last

theorem misplaced (form : Form) :
    r.Agrees (r.first.misplaced id form) (r.second.misplaced id form) := by
  refine .ite ?_ (invalidStatement_agrees id [])
  exact .bind (h.expression id) fun child => invalidStatement_agrees id [child]

theorem statementForm (id : SyntaxId) (form : Option Form) :
    r.Agrees (r.first.statementForm id form) (r.second.statementForm id form) := by
  simp only [Context.statementForm]
  split
  · exact invalidStatement_agrees id []
  · exact .bind (.mapM h.statement _) fun statements => emitPlain_agrees _ id
  · exact .bind (h.expression _) fun operation => emitPlain_agrees _ id
  · exact h.declarationGroup _ _ _
  · exact h.declarator _ _
  · exact h.ifThen _ _
  · exact .bind (h.expression _) fun condition => .bind (h.loopBody _) fun body =>
      emitPlain_agrees _ id
  · exact h.forLoop _ _ _
  · exact h.switch _ _
  · exact breakJump_agrees id
  · exact continueJump_agrees id
  · exact h.goto _
  · exact .bind (h.statement _) fun operation => emitPlain_agrees _ id
  · exact .bind (h.expression? _) fun value => emitPlain_agrees _ id
  · exact emitPlain_agrees _ id
  · exact h.fixed _ _
  · exact h.lock _ _
  · exact h.usingResource _ _
  · exact h.salvageStatement id
  · exact h.salvageStatement id
  · exact h.misplaced _

theorem lowerStatement (id : SyntaxId) :
    r.Agrees (r.first.lowerStatement id) (r.second.lowerStatement id) :=
  h.statementForm id _

omit h in
theorem initializer (value : OperationId) (make : SymbolId → OperationId → OperationKind) :
    r.Agrees (r.first.initializer id value make) (r.second.initializer id value make) := by
  simp only [Context.initializer, program_second]
  split
  · exact emitPlain_agrees _ id
  · exact invalidStatement_agrees id [value]

theorem initialized (value : Option SyntaxId) (make : SymbolId → OperationId → OperationKind) :
    r.Agrees (r.first.initialized id value make) (r.second.initialized id value make) := by
  cases value with
  | none => exact .pure none
  | some value =>
    exact .bind (h.expression value) fun value => .map some (initializer value make)

theorem lowerRoot (id : SyntaxId) : r.Agrees (r.first.lowerRoot id) (r.second.lowerRoot id) := by
  simp only [Context.lowerRoot, formOf_second, symbolAt_second]
  split
  · exact .pure none
  · exact .ite (h.initialized _ _) (.map some (h.statement id))
  · exact h.initialized _ _
  · exact h.initialized _ _
  · exact .pure none
  · exact .bind (h.statement _) fun body => .map some (emitPlain_agrees _ id)
  · exact .pure none
  · exact .pure none
  · exact .map some (.ite (h.expression id) (h.statement id))

end Walks

end SemanticTrees.Rerun
