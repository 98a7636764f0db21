import SemanticTrees.Proofs.Lowering.Closure
import SemanticTrees.Proofs.Lowering.StatementCouplings

/-! Whole runs of lowering side by side. Roots are lowered alike in programs that translate one
another when their parts are. The walk keeps a coupling if it does so where the smaller number of
levels is used up: each level lowers the parts of a node, one level less deep. -/
namespace SemanticTrees

open Lowering

variable {τ : Translation} {K : Coupling τ} {w : Stores} {id id' : SyntaxId}

namespace Context

variable {c c' : Context} (h : c.Translates τ c')
include h

theorem placeholder_couples (role : Role) (nodes : τ.nodes id id') :
    K.Couples w (c.placeholder role id) (c'.placeholder role id')
      (K.link (c.program.resultSort role id)) := by
  cases role with
  | expression => exact invalidExpression_couples h .nil nodes
  | statement =>
    have step : K.Couples w (c.invalidStatement id []) (c'.invalidStatement id' [])
        (K.link .placeholder) :=
      invalidStatement_couples h .nil nodes
    refine step.weaken ?_
    rw [Program.resultSort, Program.statementSort.eq_def]
    split
    · exact OperationSort.placeholder_within_functionBody
    · exact OperationSort.placeholder_within_statement

theorem initialized_couples {value value' : Option SyntaxId}
    {make : SymbolId → OperationId → OperationKind}
    (calls : Coupled K c c' (value.toList.map .expression) (value'.toList.map .expression))
    (makes : ∀ (v : Stores) symbol i i', K.link .expression v i i' →
      (make symbol i).Alike τ (fun ρ => K.link ρ v) (make (τ.symbols symbol) i'))
    (fits : ∀ symbol i, OperationSort.top.admits (make symbol i) = true)
    (values : Option.Rel τ.nodes value value') (same : τ.same id id') :
    K.Couples w (c.initialized id value make) (c'.initialized id' value' make) (K.link? .top) := by
  have nodes := τ.nodes_of_same same
  cases values with
  | none => exact .none
  | some values =>
    refine (calls.expression List.mem_cons_self List.mem_cons_self values).bind
      fun v _ i i' linked => ?_
    refine Coupling.Couples.some ?_
    unfold initializer
    rw [h.program.symbolOf same]
    cases c.program.symbolOf id with
    | some symbol => exact emitPlain_couples h (makes v symbol i i' linked) (fits symbol i) nodes
    | none =>
      have part := K.weaken OperationSort.expression_within_part linked
      exact ((invalidStatement_couples h (.cons part .nil) nodes).weaken
        OperationSort.placeholder_within_statement).weaken OperationSort.statement_within_top

theorem lowerRoot_couples (calls : Coupled K c c' (c.rootParts id) (c'.rootParts id'))
    (scopes : c.scope.Alike c'.scope) (same : τ.same id id') :
    K.Couples w (c.lowerRoot id) (c'.lowerRoot id') (K.link? (c.program.rootSort id)) := by
  have nodes := τ.nodes_of_same same
  have form := h.form same
  have isField : ((c'.symbolAt id').any fun symbol => symbol.kind == .field) =
      (c.symbolAt id).any fun symbol => symbol.kind == .field := by
    rw [h.symbolAt same, Option.any_map]
    rfl
  have sort : c.program.rootSort id =
    if (c.formOf id).any Form.isExpression then .expression else .top := rfl
  unfold lowerRoot
  unfold rootParts at calls
  rw [isField] at calls ⊢
  generalize c.program.rootSort id = expected at sort ⊢
  generalize c.formOf id = found at form calls sort ⊢
  generalize c'.formOf id' = found' at form calls ⊢
  subst sort
  cases form with
  | none => exact .none
  | some alike =>
    cases alike with
    | variableDeclarator name values =>
      generalize ((c.symbolAt id).any fun symbol => symbol.kind == .field) = inField at calls ⊢
      cases inField with
      | true =>
        exact initialized_couples h calls (fun _ symbol _ _ linked => .fieldInitializer symbol linked)
          (fun _ _ => rfl) values same
      | false =>
        have statement : K.Couples w (c.statement id) (c'.statement id') (K.link .statement) :=
          calls.statement scopes List.mem_cons_self List.mem_cons_self nodes
        exact (statement.weaken OperationSort.statement_within_top).some
    | property name values =>
      exact initialized_couples h calls
        (fun _ symbol _ _ linked => .propertyInitializer symbol linked) (fun _ _ => rfl) values same
    | parameter name values =>
      exact initialized_couples h calls
        (fun _ symbol _ _ linked => .parameterInitializer symbol linked) (fun _ _ => rfl) values same
    | method name declared bodies =>
      cases bodies with
      | none => exact .none
      | some bodies =>
        exact (calls.statement scopes List.mem_cons_self List.mem_cons_self bodies).bind
          fun v _ body body' linked => (emitPlain_couples h (.methodBody linked) rfl nodes).some
    | field declared | typeDeclaration name declared => exact .none
    | literal | identifier | this | memberAccess | invocation | elementAccess
    | objectCreation | binary | unary | assignment | addressOf | cast | parenthesized | lambda
    | missing =>
      exact (calls.expression List.mem_cons_self List.mem_cons_self nodes).some
    | _ =>
      have statement : K.Couples w (c.statement id) (c'.statement id') (K.link .statement) :=
        calls.statement scopes List.mem_cons_self List.mem_cons_self nodes
      exact (statement.weaken OperationSort.statement_within_top).some

end Context

namespace Program

variable {p p' : Program} {o o' : LoweringOptions}

/-- The run of the walk that a call asks for. -/
def run (p : Program) (o : LoweringOptions) (depth : Nat) (call : Call) : Lowering OperationId :=
  walk p o depth call.scope call.role call.node

/-- The calls of the walk when the node of a call is lowered. -/
def callsOf (p : Program) (o : LoweringOptions) (depth : Nat) (call : Call) : List Call :=
  let c := p.contextAt o depth call.scope
  (c.parts call.scope.innermostSwitch.isSome call.role call.node).map c.call

section Runs

variable (h : p.Translates τ p') (lambdas : o'.taintLambdas = o.taintLambdas)
  (typed : o'.flagTypeArguments = o.flagTypeArguments)
include h lambdas typed

theorem contextAt_translates (depth depth' : Nat) (scope scope' : Scope) :
    (p.contextAt o depth scope).Translates τ (p'.contextAt o' depth' scope') :=
  ⟨h, lambdas, typed⟩

/-- Where the levels are used up in both runs, nodes become placeholders. -/
theorem run_zero_couples {call call' : Call} (alike : call.Alike τ call') :
    K.Couples w (p.run o 0 call) (p'.run o' 0 call')
      (K.link (p.resultSort call.role call.node)) := by
  obtain ⟨scope, role, id⟩ := call
  obtain ⟨scope', role', id'⟩ := call'
  obtain rfl : role' = role := alike.role
  let c : Context := ⟨p, o, scope, fun _ _ _ => pure 0⟩
  let c' : Context := ⟨p', o', scope', fun _ _ _ => pure 0⟩
  have translates : c.Translates τ c' := ⟨h, lambdas, typed⟩
  exact Context.placeholder_couples translates role' alike.nodes

/-- Runs on alike nodes are coupled when the runs on their parts are, one level less deep. An
expression must be of a like form. -/
theorem run_succ_couples {depth depth' : Nat} {call call' : Call} (alike : call.Alike τ call')
    (opened : call.role = .expression → τ.same call.node call'.node)
    (parts : ∀ part ∈ p.callsOf o depth call, ∀ part' ∈ p'.callsOf o' depth' call',
      part.Alike τ part' → ∀ w, K.Couples w (p.run o depth part) (p'.run o' depth' part')
        (K.link (p.resultSort part.role part.node))) :
    K.Couples w (p.run o (depth + 1) call) (p'.run o' (depth' + 1) call')
      (K.link (p.resultSort call.role call.node)) := by
  obtain ⟨scope, role, id⟩ := call
  obtain ⟨scope', role', id'⟩ := call'
  obtain rfl : role' = role := alike.role
  have nodes : τ.nodes id id' := alike.nodes
  let c := p.contextAt o depth scope
  let c' := p'.contextAt o' depth' scope'
  have translates : c.Translates τ c' := contextAt_translates h lambdas typed _ _ _ _
  have calls : Context.Coupled K c c' (c.parts scope.innermostSwitch.isSome role' id)
      (c'.parts scope'.innermostSwitch.isSome role' id') :=
    fun part listed part' listed' =>
      parts _ (List.mem_map_of_mem listed) _ (List.mem_map_of_mem listed')
  cases role' with
  | expression => exact Context.lowerExpression_couples translates calls (opened rfl)
  | statement =>
    obtain same | wraps := h.same_or_wraps nodes
    · exact Context.lowerStatement_couples translates (alike.scope rfl) calls same
    · exact Context.lowerStatement_couples_of_wraps translates calls wraps nodes

variable {Reach : Nat → Call → Prop} {gap : Nat}

/-- Runs of the walk on nodes of like forms are coupled, level by level, if they are where the first
run has used up its levels. Only calls that are reached matter. -/
theorem run_couples (exact : ∀ {id id'}, τ.nodes id id' → τ.same id id')
    (down : ∀ depth call part, Reach (depth + 1) call → part ∈ p.callsOf o depth call →
      Reach depth part)
    (limit : ∀ call call', Reach 0 call → call.Alike τ call' → ∀ w,
      K.Couples w (p.run o 0 call) (p'.run o' gap call')
        (K.link (p.resultSort call.role call.node)))
    (depth : Nat) :
    ∀ call call', Reach depth call → call.Alike τ call' → ∀ w,
      K.Couples w (p.run o depth call) (p'.run o' (depth + gap) call')
        (K.link (p.resultSort call.role call.node)) := by
  induction depth with
  | zero =>
    rw [Nat.zero_add]
    exact limit
  | succ depth ih =>
    intro call call' reached alike w
    have levels : depth + 1 + gap = depth + gap + 1 := by omega
    rw [levels]
    refine run_succ_couples h lambdas typed alike (fun _ => exact alike.nodes) ?_
    intro part listed part' _ alike w
    exact ih part part' (down depth call part reached listed) alike w

/-- Roots of like forms are coupled, if runs are where the first one has used up its levels. -/
theorem lowerRoot_couples_of_limit (exact : ∀ {id id'}, τ.nodes id id' → τ.same id id')
    (depths : o'.maxDepth = o.maxDepth + gap)
    (start : ∀ part ∈ (p.rootContext o id).rootParts id,
      Reach o.maxDepth ((p.rootContext o id).call part))
    (down : ∀ depth call part, Reach (depth + 1) call → part ∈ p.callsOf o depth call →
      Reach depth part)
    (limit : ∀ call call', Reach 0 call → call.Alike τ call' → ∀ w,
      K.Couples w (p.run o 0 call) (p'.run o' gap call')
        (K.link (p.resultSort call.role call.node)))
    (scopes : (p.rootScope id).Alike (p'.rootScope id')) (nodes : τ.nodes id id') :
    K.Couples w ((p.rootContext o id).lowerRoot id) ((p'.rootContext o' id').lowerRoot id')
      (K.link? (p.rootSort id)) := by
  have translates : (p.rootContext o id).Translates τ (p'.rootContext o' id') :=
    ⟨h, lambdas, typed⟩
  refine Context.lowerRoot_couples translates ?_ scopes (exact nodes)
  intro part listed part' listed' alike w
  have runs := run_couples h lambdas typed exact down limit o.maxDepth _ _ (start part listed)
    alike w
  rw [← depths] at runs
  exact runs

end Runs

end Program

end SemanticTrees
