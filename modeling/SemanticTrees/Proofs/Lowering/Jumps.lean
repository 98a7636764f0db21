import SemanticTrees.Proofs.Lowering.Conversions
import SemanticTrees.Proofs.Lowering.Visits

/-! Jumps. Where a statement is expected, what becomes of a jump is decided by its way from the root
alone: by the loops and switches that the way leads into behind the innermost lambda, and by the
labels of the region that it is in. Where an expression is expected, a jump is no different from
any other statement there. -/
namespace SemanticTrees

open Lowering

def Form.IsJump : Form → Prop
  | .breakJump | .continueJump | .goto _ => True
  | _ => False

/-- A jump without a label that is valid as far as its own node is concerned. -/
def Operation.IsValidBranch (o : Operation) (kind : BranchKind) : Prop :=
  o.kind = .branch kind none ∧ o.isSelfInvalid = false

/-- A way leads into something that a `break` leaves. -/
def Way.InLoopOrSwitch (way : Way) : Prop := way.InLoop ∨ way.sections?.isSome = true

namespace Program

/-- What a jump becomes where a statement is expected. -/
def JumpBecomes (p : Program) (options : LoweringOptions) (root : SyntaxId) (visit : Visit)
    (o : Operation) : Form → Prop
  | .breakJump =>
    (o.IsValidBranch .breakOut ↔ visit.way.InLoopOrSwitch) ∧
      (o.kind = .invalidStatement [] ↔ ¬visit.way.InLoopOrSwitch)
  | .continueJump =>
    (o.IsValidBranch .continueLoop ↔ visit.way.InLoop) ∧
      (o.kind = .invalidStatement [] ↔ ¬visit.way.InLoop)
  | .goto (.label label) =>
    o.kind = .branch .goto (some label) ∧
      (o.isSelfInvalid = true ↔ ¬p.HasLabel (visit.way.region root) label)
  | .goto (.caseOf value) =>
    match visit.way.sections? with
    | some sections =>
      (∃ text, o.kind = .branch .goto (some text)) ∧
        (o.isSelfInvalid = true ↔
          ¬∃ constant, p.constantOf value = some constant ∧ p.HasCase sections constant)
    | none =>
      ∃ i, o.kind = .invalidStatement [i] ∧
        p.Lowers options root ⟨visit.depth - 1, .plain :: visit.way, .expression, value⟩ i
  | .goto .defaultCase =>
    match visit.way.sections? with
    | some sections =>
      o.kind = .branch .goto (some "default") ∧
        (o.isSelfInvalid = true ↔ ¬p.HasDefaultLabel sections)
    | none => o.kind = .invalidStatement []
  | _ => True

end Program

namespace Context

variable {c : Context}

theorem branch_eq_emit (id : SyntaxId) (kind : BranchKind) (label : Option String)
    (invalid : Bool) :
    ∃ o, c.branch id kind label invalid = emit o ∧ o.origin = id ∧
      o.kind = .branch kind label ∧ o.isSelfInvalid = invalid :=
  ⟨_, rfl, rfl, rfl, Bool.false_or invalid⟩

/-- A jump that leaves something is a valid branch when there is something to leave, and a
placeholder otherwise. -/
theorem leaving_eq_emit (id : SyntaxId) (kind : BranchKind) (may : Bool) :
    ∃ o, (if may then c.branch id kind none false else c.invalidStatement id []) = emit o ∧
      o.origin = id ∧ (o.IsValidBranch kind ↔ may = true) ∧
      (o.kind = .invalidStatement [] ↔ ¬may = true) := by
  cases may with
  | true =>
    obtain ⟨o, same, origin, branch, valid⟩ := c.branch_eq_emit id kind none false
    refine ⟨o, same, origin, ?_, ?_⟩
    · simp [Operation.IsValidBranch, branch, valid]
    · simp [branch]
  | false => exact ⟨_, rfl, rfl, by simp [Operation.IsValidBranch, plain, Operation.plain],
      by simp [plain, Operation.plain]⟩

end Context

namespace Program

variable {p : Program} {options : LoweringOptions} {root : SyntaxId} {m : Lowering OperationId}
  {s t : Store}

theorem get?_of_emit {o : Operation} (same : m = emit o) (kept : (m.run s).2.Extends t) :
    t.get? (m.run s).1 = some o := by
  subst same
  exact kept _ o (get?_emit s o)

/-- An operation that is made of what a step returns, and the store that the step leaves. -/
theorem get?_of_bind_emit {first : Lowering OperationId} {make : OperationId → Operation}
    (same : m = first >>= fun i => emit (make i)) (kept : (m.run s).2.Extends t) :
    t.get? (m.run s).1 = some (make (first.run s).1) ∧ (first.run s).2.Extends t := by
  subst same
  exact ⟨kept _ _ (get?_emit _ _), ((first.run s).2.extends_add _).trans kept⟩

theorem any_holds_iff {sections : List SyntaxId} {constant : Option Constant} :
    constant.any (p.switchCases sections).holds = true ↔
      ∃ known, constant = some known ∧ p.HasCase sections known := by
  cases constant with
  | none => simp
  | some known => simp [holds_switchCases_iff]

/-- A step adds what a jump becomes behind a way, whatever store it is run on. -/
def Adds (p : Program) (options : LoweringOptions) (root : SyntaxId) (visit : Visit) (form : Form)
    (m : Lowering OperationId) : Prop :=
  ∀ s, (m.run s).2.Extends (p.rootStore options root) →
    ∃ o, (p.rootStore options root).get? (m.run s).1 = some o ∧ o.origin = visit.node ∧
      p.JumpBecomes options root visit o form

theorem Adds.of_emit {visit : Visit} {form : Form} {o : Operation} (same : m = emit o)
    (origin : o.origin = visit.node) (becomes : p.JumpBecomes options root visit o form) :
    p.Adds options root visit form m :=
  fun _ kept => ⟨o, get?_of_emit same kept, origin, becomes⟩

section Behind

variable {c : Context} {way : Way} {depth : Nat} {id : SyntaxId}

theorem breakJump_adds (behind : c.scope = way.scope p root) :
    p.Adds options root ⟨depth, way, .statement, id⟩ .breakJump (c.breakJump id) := by
  obtain ⟨o, same, origin, valid, placeholder⟩ :=
    c.leaving_eq_emit id .breakOut c.scope.canBreak
  have enclosed : c.scope.canBreak = true ↔ way.InLoopOrSwitch := by
    rw [behind]
    exact Way.canBreak_scope_iff
  rw [enclosed] at valid placeholder
  exact .of_emit same origin ⟨valid, placeholder⟩

theorem continueJump_adds (behind : c.scope = way.scope p root) :
    p.Adds options root ⟨depth, way, .statement, id⟩ .continueJump (c.continueJump id) := by
  obtain ⟨o, same, origin, valid, placeholder⟩ :=
    c.leaving_eq_emit id .continueLoop c.scope.canContinue
  have enclosed : c.scope.canContinue = true ↔ way.InLoop := by
    rw [behind]
    exact Way.canContinue_scope_iff
  rw [enclosed] at valid placeholder
  exact .of_emit same origin ⟨valid, placeholder⟩

theorem gotoLabel_adds (behind : c.scope = way.scope p root) (label : String) :
    p.Adds options root ⟨depth, way, .statement, id⟩ (.goto (.label label))
      (c.goto id (.label label)) := by
  obtain ⟨o, same, origin, branch, invalid⟩ :=
    c.branch_eq_emit id .goto (some label) !c.scope.labels.contains label
  refine .of_emit same origin ⟨branch, ?_⟩
  rw [invalid, behind, Way.labels_scope, ← mem_labelsBelow_iff]
  simp

theorem gotoCase_adds (program : c.program = p) (behind : c.scope = way.scope p root)
    (walks : c.walk = walk p options depth) (value : SyntaxId) :
    p.Adds options root ⟨depth + 1, way, .statement, id⟩ (.goto (.caseOf value))
      (c.goto id (.caseOf value)) := by
  have switch : c.scope.innermostSwitch = way.sections?.map p.switchCases := by
    rw [behind]
    exact Way.innermostSwitch_scope p root way
  cases around : way.sections? with
  | none =>
    have salvaged : c.goto id (.caseOf value) =
        (c.expression value >>= fun value => c.invalidStatement id [value]) := by
      simp only [Context.goto, switch, around, Option.map_none]
    intro s kept
    obtain ⟨stored, later⟩ := get?_of_bind_emit salvaged kept
    refine ⟨_, stored, rfl, ?_⟩
    simp only [JumpBecomes, around]
    have lowering : (⟨depth, .plain :: way, .expression, value⟩ : Visit).lowering p options root =
        c.expression value := by
      rw [Context.expression, behind, walks]
      rfl
    exact ⟨_, rfl, s, congrArg (fun m => (m.run s).1) lowering, lowering ▸ later⟩
  | some sections =>
    obtain ⟨o, same, origin, branch, invalid⟩ :=
      c.branch_eq_emit id .goto (some (Context.caseText (p.constantOf value)))
        !(p.constantOf value).any (p.switchCases sections).holds
    have emits : c.goto id (.caseOf value) = emit o := by
      simp only [Context.goto, switch, around, Option.map_some, program]
      exact same
    refine .of_emit emits origin ?_
    simp only [JumpBecomes, around]
    exact ⟨⟨_, branch⟩, by rw [invalid, ← any_holds_iff]; simp⟩

theorem gotoDefault_adds (behind : c.scope = way.scope p root) :
    p.Adds options root ⟨depth, way, .statement, id⟩ (.goto .defaultCase)
      (c.goto id .defaultCase) := by
  have switch : c.scope.innermostSwitch = way.sections?.map p.switchCases := by
    rw [behind]
    exact Way.innermostSwitch_scope p root way
  cases around : way.sections? with
  | none =>
    have emits : c.goto id .defaultCase = emit (c.plain (.invalidStatement []) id) := by
      simp only [Context.goto, switch, around, Option.map_none]
      rfl
    refine .of_emit emits rfl ?_
    simp only [JumpBecomes, around]
    rfl
  | some sections =>
    obtain ⟨o, same, origin, branch, invalid⟩ :=
      c.branch_eq_emit id .goto (some "default") !(p.switchCases sections).hasDefault
    have emits : c.goto id .defaultCase = emit o := by
      simp only [Context.goto, switch, around, Option.map_some]
      exact same
    refine .of_emit emits origin ?_
    simp only [JumpBecomes, around]
    exact ⟨branch, by rw [invalid, ← hasDefault_switchCases_iff]; simp⟩

end Behind

/-- A jump that is lowered as a statement becomes what its way says. -/
theorem statementJump_adds {depth : Nat} {way : Way} {id : SyntaxId} {form : Form}
    (known : p.formOf id = some form) (jump : form.IsJump) :
    p.Adds options root ⟨depth + 1, way, .statement, id⟩ form
      (walk p options (depth + 1) (way.scope p root) .statement id) := by
  let c : Context := p.contextAt options depth (way.scope p root)
  have lowers : walk p options (depth + 1) (way.scope p root) .statement id =
      c.statementForm id (some form) :=
    congrArg (c.statementForm id) known
  have behind : c.scope = way.scope p root := rfl
  rw [lowers]
  cases form with
  | breakJump => exact breakJump_adds behind
  | continueJump => exact continueJump_adds behind
  | goto target =>
    cases target with
    | label label => exact gotoLabel_adds behind label
    | caseOf value => exact gotoCase_adds rfl behind rfl value
    | defaultCase => exact gotoDefault_adds behind
  | _ => exact jump.elim

/-- A jump that is lowered as an expression is a placeholder without children. -/
theorem expressionJump_lowered {depth : Nat} {scope : Scope} {id : SyntaxId} {form : Form}
    (known : p.formOf id = some form) (jump : form.IsJump)
    (kept : ((walk p options (depth + 1) scope .expression id).run s).2.Extends t) :
    ∃ i o, t.get? i = some o ∧ o.origin = id ∧ o.kind = .invalidExpression [] ∧
      (p.contextAt options depth scope).Converts t id i
        ((walk p options (depth + 1) scope .expression id).run s).1 := by
  let c : Context := p.contextAt options depth scope
  obtain ⟨older, converts⟩ := c.lowerExpression_converts id s
  have form : c.expressionForm id (c.formOf id) = c.invalidExpression id [] := by
    rw [show c.formOf id = some form from known]
    cases form with
    | breakJump | continueJump | goto => rfl
    | _ => exact jump.elim
  rw [form] at older converts
  exact ⟨_, _, kept _ _ (older _ _ (get?_emit s _)), by simp, by simp, converts.mono kept⟩

/-- What becomes of the jumps that the walk comes to above the depth limit. -/
theorem jump_lowered {visit : Visit} (visited : p.Visits options root visit)
    (above : 0 < visit.depth) {form : Form} (known : p.formOf visit.node = some form)
    (jump : form.IsJump) :
    (∃ i, p.Lowers options root visit i) ∧ ∀ i, p.Lowers options root visit i →
      match visit.role with
      | .statement =>
        ∃ o, (p.rootStore options root).get? i = some o ∧ o.origin = visit.node ∧
          p.JumpBecomes options root visit o form
      | .expression =>
        ∃ j o, (p.rootStore options root).get? j = some o ∧ o.origin = visit.node ∧
          o.kind = .invalidExpression [] ∧
          (p.rootContext options root).Converts (p.rootStore options root) visit.node j i := by
  refine ⟨visited.exists_lowers, ?_⟩
  obtain ⟨depth, way, role, id⟩ := visit
  obtain ⟨depth, rfl⟩ : ∃ d, depth = d + 1 := Nat.exists_eq_add_one.mpr above
  rintro i ⟨s, rfl, kept⟩
  cases role with
  | statement => exact statementJump_adds known jump s kept
  | expression =>
    obtain ⟨i, o, stored, origin, kind, converts⟩ := expressionJump_lowered known jump kept
    exact ⟨i, o, stored, origin, kind, converts⟩

/-- A loop around a switch with two jumps in its only section: to a case that the switch does not
have, and on with the loop. -/
def nestedJumps : Program :=
  { empty "nested" with
    nodes := #[⟨.zero, .literal "true"⟩, ⟨.zero, .literal "2"⟩, ⟨.zero, .caseLabel (some 1)⟩,
      ⟨.zero, .literal "3"⟩, ⟨.zero, .goto (.caseOf 3)⟩, ⟨.zero, .continueJump⟩,
      ⟨.zero, .block [4, 5]⟩, ⟨.zero, .switchSection [2] [6]⟩, ⟨.zero, .literal "2"⟩,
      ⟨.zero, .switch 8 [7]⟩, ⟨.zero, .whileLoop 0 9⟩]
    facts := Std.TreeMap.ofList
      [(1, { Facts.unknown with constant := some (.int 2) }),
        (3, { Facts.unknown with constant := some (.int 3) })] }

/-- A node of the block that holds the jumps, as the walk comes to it. -/
def nestedVisit (id : SyntaxId) : Visit :=
  ⟨497, [.plain, .switch [7], .loop, .plain], .statement, id⟩

theorem nestedJumps_visits {id : SyntaxId} (listed : id ∈ [4, 5]) :
    nestedJumps.Visits {} 10 (nestedVisit id) := by
  have loop : nestedJumps.Visits {} 10 ⟨500, [.plain], .statement, 10⟩ :=
    .root (show Part.statement 10 ∈ _ by decide)
  have switch : nestedJumps.Visits {} 10 ⟨499, [.loop, .plain], .statement, 9⟩ :=
    .part loop (show ⟨.loop, .statement, 9⟩ ∈ _ by decide)
  have block : nestedJumps.Visits {} 10 ⟨498, [.switch [7], .loop, .plain], .statement, 6⟩ :=
    .part switch (show ⟨.switch [7], .statement, 6⟩ ∈ _ by decide)
  exact .part block (List.mem_map_of_mem listed)

theorem nestedJumps_lowered :
    nestedJumps.Visits {} 10 (nestedVisit 4) ∧ nestedJumps.Visits {} 10 (nestedVisit 5) ∧
      (∃ i o, nestedJumps.Lowers {} 10 (nestedVisit 4) i ∧
        (nestedJumps.rootStore {} 10).get? i = some o ∧ o.isSelfInvalid = true) ∧
      ∃ i o, nestedJumps.Lowers {} 10 (nestedVisit 5) i ∧
        (nestedJumps.rootStore {} 10).get? i = some o ∧ o.IsValidBranch .continueLoop := by
  have toCase := nestedJumps_visits (show 4 ∈ [4, 5] by decide)
  have onward := nestedJumps_visits (show 5 ∈ [4, 5] by decide)
  have caseForm : nestedJumps.formOf 4 = some (.goto (.caseOf 3)) := rfl
  have loopForm : nestedJumps.formOf 5 = some .continueJump := rfl
  refine ⟨toCase, onward, ?_, ?_⟩
  · obtain ⟨⟨i, lowered⟩, becomes⟩ := jump_lowered toCase (by decide) caseForm trivial
    obtain ⟨o, stored, _, _, invalid⟩ := becomes i lowered
    refine ⟨i, o, lowered, stored, invalid.mpr ?_⟩
    rintro ⟨constant, recorded, labeled⟩
    obtain rfl : constant = .int 3 := (Option.some.inj recorded).symm
    exact absurd (holds_switchCases_iff.mpr labeled) (by decide)
  · obtain ⟨⟨i, lowered⟩, becomes⟩ := jump_lowered onward (by decide) loopForm trivial
    obtain ⟨o, stored, _, valid, _⟩ := becomes i lowered
    exact ⟨i, o, lowered, stored, valid.mpr (by decide)⟩

/-- A loop whose body is a `break` in the place of the expression of a statement. -/
def strayBreak : Program :=
  { empty "stray" with
    nodes := #[⟨.zero, .breakJump⟩, ⟨.zero, .expressionStatement 0⟩, ⟨.zero, .literal "true"⟩,
      ⟨.zero, .whileLoop 2 1⟩] }

/-- The `break` of `strayBreak`, as the walk comes to it. -/
def strayVisit : Visit := ⟨498, [.plain, .loop, .plain], .expression, 0⟩

/-- A `break` is inside a loop, is lowered above the depth limit, and is no branch. -/
theorem strayBreak_no_branch :
    strayBreak.Visits {} 3 strayVisit ∧ 0 < strayVisit.depth ∧
      strayBreak.formOf strayVisit.node = some .breakJump ∧ strayVisit.way.InLoopOrSwitch ∧
      (∃ i, strayBreak.Lowers {} 3 strayVisit i) ∧
      ∀ i, strayBreak.Lowers {} 3 strayVisit i →
        ∃ o, (strayBreak.rootStore {} 3).get? i = some o ∧ o.kind = .invalidExpression [] := by
  have loop : strayBreak.Visits {} 3 ⟨500, [.plain], .statement, 3⟩ :=
    .root (show Part.statement 3 ∈ _ by decide)
  have body : strayBreak.Visits {} 3 ⟨499, [.loop, .plain], .statement, 1⟩ :=
    .part loop (show ⟨.loop, .statement, 1⟩ ∈ _ by decide)
  have visited : strayBreak.Visits {} 3 strayVisit :=
    .part body (show Part.expression 0 ∈ _ by decide)
  have known : strayBreak.formOf 0 = some .breakJump := rfl
  refine ⟨visited, by decide, known, .inl (by decide), visited.exists_lowers, ?_⟩
  rintro i ⟨s, rfl, kept⟩
  obtain ⟨j, o, stored, _, kind, same⟩ := expressionJump_lowered known trivial kept
  obtain rfl : _ = j := same
  exact ⟨o, stored, kind⟩

end Program

end SemanticTrees
