import SemanticTrees.Proofs.Lowering.ExpressionHeights
import SemanticTrees.Proofs.Lowering.Tree
import SemanticTrees.Proofs.Operation.Heights

/-! Heights of statements, and of trees. A declaration of variables is three levels, and a statement
around one is another; so a node adds at most four levels, whatever its form, and a tree has at most
four for each level of syntax that is lowered. -/
namespace SemanticTrees

namespace Context

open Lowering

variable {c : Context} {id body condition : SyntaxId} {high : Nat}

theorem branch_raises (kind : BranchKind) (label : Option String) (invalid : Bool) :
    Raises (c.branch id kind label invalid) (high + 1) fun i => [i] :=
  .leaf (by simp [OperationKind.children])

theorem nothing_raises : Raises (c.invalidStatement id []) (high + 1) fun i => [i] :=
  .leaf (by simp [OperationKind.children])

theorem breakJump_raises : Raises (c.breakJump id) (high + 1) fun i => [i] := by
  unfold breakJump
  split
  · exact branch_raises _ _ _
  · exact nothing_raises

theorem continueJump_raises : Raises (c.continueJump id) (high + 1) fun i => [i] := by
  unfold continueJump
  split
  · exact branch_raises _ _ _
  · exact nothing_raises

namespace WalksWithin

variable (h : c.WalksWithin high)
include h

theorem declarator (isFixed : Bool) (id : SyntaxId) :
    Raises (c.declarator isFixed id) (high + 2) fun i => [i] := by
  unfold Context.declarator
  split
  · next initializer _ =>
    have last (value : Option OperationId) : Rises (c.emitPlain
        (.variableDeclarator (c.program.symbolOf id) value) id) (high + 1) value.toList (high + 2)
        fun i => [i] :=
      emitPlain_rises (by simp [OperationKind.children])
    cases initializer with
    | some initializer => exact .bind (h.expression initializer).some last
    | none =>
      cases isFixed with
      | true => exact .bind (Raises.some (.leaf (by simp [OperationKind.children]))) last
      | false => exact .bind (.pure rfl) last
  · exact h.salvageStatement id

theorem declarationGroup (isFixed : Bool) (id : SyntaxId) (declarators : List SyntaxId) :
    Raises (c.declarationGroup isFixed id declarators) (high + 4) fun i => [i] := by
  unfold Context.declarationGroup
  exact .bind (.list (h.declarator isFixed) declarators) fun declarators =>
    .andThen (emitPlain_rises (by simp [OperationKind.children])) fun declaration =>
      emitPlain_rises (by simp [OperationKind.children])

theorem ifThen (thenBranch : SyntaxId) (elseBranch : Option SyntaxId) :
    Raises (c.ifThen id condition thenBranch elseBranch) (high + 2) fun i => [i] := by
  unfold Context.ifThen
  exact .bind (h.expression condition) fun condition =>
    .bind (h.statement thenBranch) fun whenTrue =>
      .bind (h.statement? elseBranch) fun whenFalse =>
        emitPlain_rises (by simp [OperationKind.children])

theorem loopBody : Raises (c.loopBody body) (high + 1) fun i => [i] := (h.within _).statement body

theorem headPart (id : SyntaxId) : Raises (c.headPart id) (high + 2) fun i => [i] := by
  unfold Context.headPart
  split
  · exact .bind (h.expression id) fun operation => .emit (by simp [OperationKind.children])
  · exact (h.statement id).weaken (by omega)

theorem forLoop (initializers : List SyntaxId) (condition : Option SyntaxId)
    (incrementors : List SyntaxId) :
    Raises (c.forLoop id initializers condition incrementors body) (high + 3) fun i => [i] := by
  unfold Context.forLoop
  exact .bind (.list h.headPart initializers) fun before =>
    .bind ((h.expression? condition).weaken (by omega)) fun condition =>
      .bind (h.loopBody.weaken (by omega)) fun body =>
        .bind (.list h.headPart incrementors) fun atLoopBottom => by
          refine emitPlain_rises fun i listed => ?_
          simp only [OperationKind.children, OperationKind.slots, List.flatMap_cons,
            List.flatMap_nil, Slot.children, List.mem_append] at listed ⊢
          tauto

theorem clause (id : SyntaxId) : Raises (c.clause id) (high + 2) fun i => [i] := by
  unfold Context.clause
  have last (value : Option OperationId) :
      Rises (c.emitPlain (.caseClause value) id) (high + 1) value.toList (high + 2) fun i => [i] :=
    emitPlain_rises (by simp [OperationKind.children])
  dsimp only
  split
  · exact .bind (h.expression? _) last
  · exact .bind (h.expression id).some last

theorem switchSection (id : SyntaxId) : Raises (c.switchSection id) (high + 3) fun i => [i] := by
  unfold Context.switchSection
  split
  · exact .bind (.list h.clause _) fun clauses =>
      .bind (.list (fun id => (h.statement id).weaken (by omega)) _) fun body =>
        emitPlain_rises (by simp [OperationKind.children])
  · exact (h.statement id).weaken (by omega)

theorem switch (expression : SyntaxId) (sections : List SyntaxId) :
    Raises (c.switch id expression sections) (high + 4) fun i => [i] := by
  unfold Context.switch
  exact .bind ((h.expression expression).weaken (by omega)) fun value =>
    .bind (.list (h.within _).switchSection sections) fun cases =>
      emitPlain_rises (by simp [OperationKind.children])

theorem goto (target : JumpTarget) : Raises (c.goto id target) (high + 2) fun i => [i] := by
  unfold Context.goto
  split
  · exact branch_raises _ _ _
  · exact branch_raises _ _ _
  · exact .bind (h.expression _) fun value => invalidStatement_rises (by simp)
  · exact branch_raises _ _ _
  · exact nothing_raises

theorem fixed (declaration : SyntaxId) :
    Raises (c.fixed id declaration body) (high + 5) fun i => [i] := by
  unfold Context.fixed
  have last (declared : OperationId) : Rises (do
      let body ← c.statement body
      c.emitPlain (.fixedStatement declared body) id) (high + 4) [declared] (high + 5)
      fun i => [i] :=
    .bind ((h.statement body).weaken (by omega)) fun body =>
      emitPlain_rises (by simp [OperationKind.children])
  dsimp only
  split
  · exact .bind (h.declarationGroup _ _ _) last
  · exact .bind ((h.salvageStatement declaration).weaken (by omega)) last

theorem lock (expression : SyntaxId) :
    Raises (c.lock id expression body) (high + 2) fun i => [i] := by
  unfold Context.lock
  exact .bind (h.expression expression) fun value =>
    .bind (h.statement body) fun body => .emit (by simp [OperationKind.children])

theorem usingResource (resource : SyntaxId) :
    Raises (c.usingResource id resource body) (high + 5) fun i => [i] := by
  unfold Context.usingResource
  have last (resources : OperationId) : Rises (do
      let body ← c.statement body
      c.emitPlain (.usingStatement resources body) id) (high + 4) [resources] (high + 5)
      fun i => [i] :=
    .bind ((h.statement body).weaken (by omega)) fun body =>
      emitPlain_rises (by simp [OperationKind.children])
  dsimp only
  split
  · exact .bind (h.declarationGroup _ _ _) last
  · exact .bind ((h.expression resource).weaken (by omega)) last

theorem misplaced (form : Form) : Raises (c.misplaced id form) (high + 2) fun i => [i] := by
  unfold Context.misplaced
  split
  · exact .bind (h.expression id) fun child => invalidStatement_rises (by simp)
  · exact nothing_raises

theorem statementForm (id : SyntaxId) (form : Option Form) :
    Raises (c.statementForm id form) (high + 5) fun i => [i] := by
  unfold Context.statementForm
  have one {m : Lowering OperationId} (step : Raises m (high + 2) fun i => [i]) :
      Raises m (high + 5) fun i => [i] := step.weaken (by omega)
  split
  · exact nothing_raises
  · exact one (.bind (.list h.statement _) fun statements =>
      emitPlain_rises (by simp [OperationKind.children]))
  · exact one (.bind (h.expression _) fun operation =>
      emitPlain_rises (by simp [OperationKind.children]))
  · exact (h.declarationGroup _ _ _).weaken (by omega)
  · exact one (h.declarator _ _)
  · exact one (h.ifThen _ _)
  · exact one (.bind (h.expression _) fun condition => .bind h.loopBody fun body =>
      emitPlain_rises (by simp [OperationKind.children]))
  · exact (h.forLoop _ _ _).weaken (by omega)
  · exact (h.switch _ _).weaken (by omega)
  · exact breakJump_raises
  · exact continueJump_raises
  · exact one (h.goto _)
  · exact one (.bind (h.statement _) fun operation =>
      emitPlain_rises (by simp [OperationKind.children]))
  · exact one (.bind (h.expression? _) fun value =>
      emitPlain_rises (by simp [OperationKind.children]))
  · exact .leaf (by simp [OperationKind.children])
  · exact h.fixed _
  · exact one (h.lock _)
  · exact h.usingResource _
  · exact one (h.salvageStatement id)
  · exact one (h.salvageStatement id)
  · exact one (h.misplaced _)

theorem lowerStatement (id : SyntaxId) : Raises (c.lowerStatement id) (high + 5) fun i => [i] :=
  h.statementForm id _

end WalksWithin

end Context

open Lowering

/-- Each level of syntax that is lowered adds at most four levels of operations. -/
theorem walk_raises (program : Program) (options : LoweringOptions) (depth : Nat) (scope : Scope)
    (role : Role) (id : SyntaxId) :
    Raises (walk program options depth scope role id) (4 * depth + 1) fun i => [i] := by
  induction depth generalizing scope role id with
  | zero => exact Context.placeholder_raises role id
  | succ depth ih =>
    have h : Context.WalksWithin { program, options, scope, walk := walk program options depth }
        (4 * depth) := ih
    cases role with
    | expression => exact h.lowerExpression id
    | statement => exact h.lowerStatement id

namespace Context.WalksWithin

variable {c : Context} {id : SyntaxId} {low high : Nat} (h : c.WalksWithin high)
include h

omit h in
theorem initializer (value : OperationId) {make : SymbolId → OperationId → OperationKind}
    (wraps : ∀ symbol value, (make symbol value).children = [value]) :
    Rises (c.initializer id value make) low [value] (low + 1) fun i => [i] := by
  unfold Context.initializer
  split
  · exact emitPlain_rises (by rw [wraps]; exact List.Subset.refl _)
  · exact invalidStatement_rises (List.Subset.refl _)

theorem initialized (value : Option SyntaxId) {make : SymbolId → OperationId → OperationKind}
    (wraps : ∀ symbol value, (make symbol value).children = [value]) :
    Raises (c.initialized id value make) (high + 2) Option.toList := by
  cases value with
  | none => exact .pure rfl
  | some value =>
    exact .bind (h.expression value) fun value => (initializer value wraps).some

theorem lowerRoot (id : SyntaxId) : Raises (c.lowerRoot id) (high + 2) Option.toList := by
  unfold Context.lowerRoot
  split
  · exact .pure rfl
  · split
    · exact h.initialized _ fun _ _ => rfl
    · exact (h.statement id).some.weaken (by omega)
  · exact h.initialized _ fun _ _ => rfl
  · exact h.initialized _ fun _ _ => rfl
  · exact .pure rfl
  · exact .bind (h.statement _) fun body =>
      .some (emitPlain_rises (by simp [OperationKind.children]))
  · exact .pure rfl
  · exact .pure rfl
  · split
    · exact (h.expression id).some.weaken (by omega)
    · exact (h.statement id).some.weaken (by omega)

end Context.WalksWithin

/-! ### Trees -/

namespace Store

variable {s : Store} {t : OperationTree} {root i : OperationId} {place : Nat → Nat} {bound : Nat}

theorem Within.lt_size (within : s.Within bound i) : i < s.size := by
  cases bound with
  | zero => exact within.elim
  | succ bound =>
    obtain ⟨o, found, _⟩ := within
    exact (Array.getElem?_eq_some_iff.mp found).1

/-- Closing a store adds no levels. -/
theorem Compacts.within (c : s.Compacts root t place) (keeps : s.Keeps root i)
    (within : s.Within bound i) : t.Within bound (place i) := by
  induction bound generalizing i with
  | zero => exact within.elim
  | succ bound ih =>
    intro child known
    obtain ⟨o, found, below⟩ := within
    have listed : child ∈ (s.childrenOf i).map place := c.childrenOf_place keeps ▸ known
    obtain ⟨j, member, rfl⟩ := List.mem_map.mp listed
    obtain ⟨_, same, lower⟩ := mem_childrenOf_iff.mp member
    obtain rfl := Option.some.inj (found.symm.trans same)
    exact ih (keeps.child member (below j lower).lt_size) (below j lower)

end Store

/-- A tree has at most four levels of operations for each level of syntax that is lowered, apart from
the placeholder below the last one and the root around the first one. -/
theorem Program.tree?_within {p : Program} {options : LoweringOptions} {id : SyntaxId}
    {t : OperationTree} (built : p.tree? options id = some t) :
    t.Within (4 * options.maxDepth + 2) t.root := by
  obtain ⟨root, s, run, rfl⟩ := tree?_eq_some built
  have h : (p.rootContext options id).WalksWithin (4 * options.maxDepth) :=
    walk_raises p options options.maxDepth
  have above := (h.lowerRoot id Store.empty).2
  rw [run] at above
  have within := above root (by simp)
  obtain ⟨place, compacts⟩ := s.finish_compacts p root
  rw [compacts.top]
  exact compacts.within (.refl within.lt_size) within

/-- So the depth of an operation is bounded by the depth to which syntax is lowered. -/
theorem Program.depth_le_maxDepth {p : Program} {options : LoweringOptions} {id : SyntaxId}
    {t : OperationTree} (built : p.tree? options id = some t) {i : OperationId}
    (inside : i < t.size) : t.depth i ≤ 4 * options.maxDepth + 1 :=
  Nat.le_of_lt_succ ((tree?_compact built).within_iff.mp (tree?_within built) i inside)

/-- A method that is nothing but a fixed statement, around a value of a variable. -/
def Program.fixedBody : Program :=
  { empty "fixed" with
    nodes := #[⟨.zero, .literal "1"⟩, ⟨.zero, .variableDeclarator "x" (some 0)⟩,
      ⟨.zero, .localDeclaration none [1]⟩, ⟨.zero, .block []⟩, ⟨.zero, .fixed 2 3⟩,
      ⟨.zero, .method "M" [] (some 4)⟩] }

/-- The value stands as deep as it can. -/
theorem Program.fixedBody_depth_le :
    ∃ t, fixedBody.tree? { maxDepth := 1 } 5 = some t ∧ (∀ i < t.size, t.depth i ≤ 5) ∧
      ∃ i < t.size, t.depth i = 5 := by
  have deepest : ((fixedBody.tree? { maxDepth := 1 } 5).map fun t =>
      (List.range t.size).any fun i => t.depth i == 5) = some true := by decide +kernel
  obtain ⟨t, built, deep⟩ := Option.map_eq_some_iff.mp deepest
  obtain ⟨i, inside, same⟩ := List.any_eq_true.mp deep
  exact ⟨t, built, fun i inside => depth_le_maxDepth built inside, i, List.mem_range.mp inside,
    beq_iff_eq.mp same⟩

end SemanticTrees
