import SemanticTrees.Proofs.Lowering.Coupling

/-! Lowering in programs that translate one another. Whatever decides how a node is lowered has the
same answer for a node that stands for it, and the surroundings of the two are alike. A pair of
contexts whose parts are coupled is where the forms are compared one by one. -/
namespace SemanticTrees

variable {τ : Translation}

/-- Surroundings are alike: the same jumps are possible. -/
structure Scope.Alike (s s' : Scope) : Prop where
  enclosures : s'.enclosures = s.enclosures
  labels : ∀ label, label ∈ s'.labels ↔ label ∈ s.labels

namespace Scope.Alike

variable {s s' : Scope}

theorem inside (alike : s.Alike s') (enclosure : Enclosure) :
    (s.inside enclosure).Alike (s'.inside enclosure) :=
  ⟨congrArg (enclosure :: ·) alike.enclosures, alike.labels⟩

theorem canBreak (alike : s.Alike s') : s'.canBreak = s.canBreak := by
  rw [Scope.canBreak, Scope.canBreak, alike.enclosures]

theorem canContinue (alike : s.Alike s') : s'.canContinue = s.canContinue := by
  rw [Scope.canContinue, Scope.canContinue, alike.enclosures]

theorem innermostSwitch (alike : s.Alike s') : s'.innermostSwitch = s.innermostSwitch := by
  rw [Scope.innermostSwitch, Scope.innermostSwitch, alike.enclosures]

theorem contains (alike : s.Alike s') (label : String) :
    s'.labels.contains label = s.labels.contains label := by
  rw [Bool.eq_iff_iff, List.contains_iff_mem, List.contains_iff_mem, alike.labels]

end Scope.Alike

/-- Runs of the walk are alike: on nodes that stand for one another and in the same role, and when a
statement is expected, in like surroundings. -/
structure Call.Alike (τ : Translation) (call call' : Call) : Prop where
  role : call'.role = call.role
  nodes : τ.nodes call.node call'.node
  scope : call.role = .statement → call.scope.Alike call'.scope

namespace Program

variable {p p' : Program}

/-- What the operation of a statement may stand for. Where a block is expected as the body of a
lambda, a placeholder may stand for it. -/
def statementSort : Option Form → OperationSort
  | some (.block _) => .functionBody
  | _ => .statement

/-- What the operation of a node may stand for. -/
def resultSort (p : Program) : Role → SyntaxId → OperationSort
  | .expression, _ => .expression
  | .statement, id => statementSort (p.formOf id)

/-- What the operation of a root may stand for. -/
def rootSort (p : Program) (id : SyntaxId) : OperationSort :=
  if (p.formOf id).any Form.isExpression then .expression else .top

theorem resultSort_within_statement (p : Program) (id : SyntaxId) :
    (p.resultSort .statement id).Within .statement := by
  rw [resultSort, statementSort.eq_def]
  split
  · exact OperationSort.functionBody_within_statement
  · exact .refl _

namespace Translates

variable (h : p.Translates τ p') {id id' : SyntaxId}
include h

theorem stands (nodes : τ.nodes id id') : Form.Stands τ (p.formOf id) (p'.formOf id') := by
  obtain same | ⟨⟨form, known, expression⟩, inner, known'⟩ := h.same_or_wraps nodes
  · have form := h.form same
    generalize p.formOf id = found at form
    generalize p'.formOf id' = found' at form
    cases form with
    | none => exact .missing
    | some alike => exact .alike alike
  · rw [known, known']
    exact .wrapped expression

theorem sectionLabels_alike (nodes : τ.nodes id id') :
    List.Forall₂ τ.nodes (p.sectionLabels id) (p'.sectionLabels id') := by
  unfold sectionLabels
  have stands := h.stands nodes
  generalize p.formOf id = found at stands
  generalize p'.formOf id' = found' at stands
  cases stands with
  | missing => exact .nil
  | alike alike =>
    cases alike with
    | switchSection marks inside => exact marks
    | _ => exact .nil
  | @wrapped form _ expression =>
    cases form with
    | switchSection labels statements => contradiction
    | _ => exact .nil

theorem addLabel_alike (nodes : τ.nodes id id') (cases : SwitchCases) :
    p'.addLabel cases id' = p.addLabel cases id := by
  unfold addLabel
  have stands := h.stands nodes
  generalize p.formOf id = found at stands
  generalize p'.formOf id' = found' at stands
  cases stands with
  | missing => rfl
  | alike alike =>
    cases alike with
    | caseLabel values =>
      cases values with
      | none => rfl
      | some values =>
        dsimp only
        rw [h.constantOf values]
    | _ => rfl
  | @wrapped form _ expression =>
    cases form with
    | caseLabel value => contradiction
    | _ => rfl

/-- Jumps into like switches may lead to the same cases. -/
theorem switchCases_alike {sections sections' : List SyntaxId}
    (entries : List.Forall₂ τ.nodes sections sections') :
    p'.switchCases sections' = p.switchCases sections := by
  have labels : List.Forall₂ τ.nodes (sections.flatMap p.sectionLabels)
      (sections'.flatMap p'.sectionLabels) :=
    List.rel_flatMap entries fun _ _ nodes => h.sectionLabels_alike nodes
  unfold switchCases
  generalize (⟨[], false⟩ : SwitchCases) = cases
  generalize sections.flatMap p.sectionLabels = marks at labels
  generalize sections'.flatMap p'.sectionLabels = marks' at labels
  induction labels generalizing cases with
  | nil => rfl
  | cons first _ ih => rw [List.foldl_cons, List.foldl_cons, h.addLabel_alike first, ih]

end Translates

end Program

/-- The forms agree on being an expression. -/
theorem Form.Alike.isExpression {form form' : Form} (alike : form.Alike τ form') :
    form'.isExpression = form.isExpression := by
  cases alike <;> rfl

namespace Context

/-- The program of one context translates that of another one, and what the options say about
validity is the same. -/
structure Translates (τ : Translation) (c c' : Context) : Prop where
  program : c.program.Translates τ c'.program
  taintLambdas : c'.options.taintLambdas = c.options.taintLambdas
  flagTypeArguments : c'.options.flagTypeArguments = c.options.flagTypeArguments

variable {c c' : Context} {id id' : SyntaxId}

theorem isTypeName_iff : c.isTypeName id = true ↔ c.program.NamesType id := by
  simp only [isTypeName, symbolAt, symbol?, Program.NamesType, Option.any_eq_true,
    Option.bind_eq_some_iff, beq_iff_eq]
  constructor
  · rintro ⟨info, ⟨symbol, named, stored⟩, type⟩
    exact ⟨symbol, info, named, stored, type⟩
  · rintro ⟨symbol, info, named, stored, type⟩
    exact ⟨info, ⟨symbol, named, stored⟩, type⟩

namespace Translates

variable (h : c.Translates τ c')

include h

theorem form (same : τ.same id id') : Option.Rel (Form.Alike τ) (c.formOf id) (c'.formOf id') :=
  h.program.form same

theorem stands (nodes : τ.nodes id id') : Form.Stands τ (c.formOf id) (c'.formOf id') :=
  h.program.stands nodes

theorem typeOf (nodes : τ.nodes id id') : c'.typeOf id' = (c.typeOf id).map τ.types :=
  h.program.typeOf nodes

theorem symbol? (symbol : SymbolId) :
    c'.symbol? (τ.symbols symbol) = (c.symbol? symbol).map (Symbol.rename τ.types τ.symbols) :=
  h.program.symbol symbol

theorem symbolAt (same : τ.same id id') :
    c'.symbolAt id' = (c.symbolAt id).map (Symbol.rename τ.types τ.symbols) := by
  unfold Context.symbolAt
  rw [h.program.symbolOf same]
  cases c.program.symbolOf id with
  | none => rfl
  | some symbol => exact h.symbol? symbol

theorem isDynamic (nodes : τ.nodes id id') : c'.isDynamic id' = c.isDynamic id := by
  unfold Context.isDynamic
  rw [h.typeOf nodes, Option.any_map]
  exact congrArg (Option.any · _) (funext h.program.isDynamic)

theorem isArray (nodes : τ.nodes id id') :
    (c'.typeOf id').any c'.program.types.isArray = (c.typeOf id).any c.program.types.isArray := by
  rw [h.typeOf nodes, Option.any_map]
  exact congrArg (Option.any · _) (funext h.program.isArray)

theorem isReference (nodes : τ.nodes id id') :
    (c'.typeOf id').any c'.program.types.isReference =
      (c.typeOf id).any c.program.types.isReference := by
  rw [h.typeOf nodes, Option.any_map]
  exact congrArg (Option.any · _) (funext h.program.isReference)

theorem isTypeName (nodes : τ.nodes id id') : c'.isTypeName id' = c.isTypeName id := by
  rw [Bool.eq_iff_iff, isTypeName_iff, isTypeName_iff]
  exact h.program.namesType nodes

theorem isExpression (nodes : τ.nodes id id') : c'.isExpression id' = c.isExpression id := by
  have stands := h.stands nodes
  unfold Context.isExpression
  generalize c.formOf id = form at stands
  generalize c'.formOf id' = form' at stands
  cases stands with
  | missing => rfl
  | alike alike => exact alike.isExpression
  | wrapped expression => exact expression.symm

theorem isLambda (nodes : τ.nodes id id') : c'.isLambda id' = c.isLambda id := by
  rw [Bool.eq_iff_iff, isLambda_iff, isLambda_iff]
  exact h.program.holdsLambda nodes

theorem isDynamicCallee (callees : τ.callees id id') :
    c'.isDynamicCallee c'.program.nodes.size id' = c.isDynamicCallee c.program.nodes.size id := by
  rw [Bool.eq_iff_iff, isDynamicCallee_iff, isDynamicCallee_iff]
  exact h.program.isLateCallee callees

theorem dynamicType : c'.dynamicType = c.dynamicType.map τ.types := h.program.dynamicType

end Translates

/-- The run of the walk on a part of the node that is being lowered. -/
def run (c : Context) (part : Part) : Lowering OperationId :=
  c.walk (c.call part).scope part.role part.node

/-- The runs of the walk on parts of two nodes are coupled when they are alike. -/
def Coupled (K : Coupling τ) (c c' : Context) (parts parts' : List Part) : Prop :=
  ∀ part ∈ parts, ∀ part' ∈ parts', (c.call part).Alike τ (c'.call part') → ∀ w,
    K.Couples w (c.run part) (c'.run part') (K.link (c.program.resultSort part.role part.node))

namespace Coupled

variable {K : Coupling τ} {w : Stores} {parts parts' more more' : List Part}

theorem mono (calls : Coupled K c c' more more') (sub : parts ⊆ more) (sub' : parts' ⊆ more') :
    Coupled K c c' parts parts' :=
  fun part listed part' listed' => calls part (sub listed) part' (sub' listed')

theorem left (calls : Coupled K c c' (parts ++ more) (parts' ++ more')) :
    Coupled K c c' parts parts' :=
  calls.mono (List.subset_append_left _ _) (List.subset_append_left _ _)

theorem right (calls : Coupled K c c' (parts ++ more) (parts' ++ more')) :
    Coupled K c c' more more' :=
  calls.mono (List.subset_append_right _ _) (List.subset_append_right _ _)

theorem tail {part part' : Part} (calls : Coupled K c c' (part :: parts) (part' :: parts')) :
    Coupled K c c' parts parts' :=
  calls.mono (List.subset_cons_self _ _) (List.subset_cons_self _ _)

variable (calls : Coupled K c c' parts parts')
include calls

theorem expression (listed : .expression id ∈ parts) (listed' : .expression id' ∈ parts')
    (nodes : τ.nodes id id') :
    K.Couples w (c.expression id) (c'.expression id') (K.link .expression) :=
  calls _ listed _ listed' ⟨rfl, nodes, nofun⟩ w

theorem statement (scopes : c.scope.Alike c'.scope) (listed : .statement id ∈ parts)
    (listed' : .statement id' ∈ parts') (nodes : τ.nodes id id') :
    K.Couples w (c.statement id) (c'.statement id') (K.link .statement) :=
  (calls _ listed _ listed' ⟨rfl, nodes, fun _ => scopes⟩ w).weaken
    (c.program.resultSort_within_statement id)

theorem expression? {id id' : Option SyntaxId} (listed : ∀ i ∈ id, .expression i ∈ parts)
    (listed' : ∀ i ∈ id', .expression i ∈ parts') (nodes : Option.Rel τ.nodes id id') :
    K.Couples w (c.expression? id) (c'.expression? id') (K.link? .expression) := by
  cases nodes with
  | none => exact .none
  | some nodes => exact (calls.expression (listed _ rfl) (listed' _ rfl) nodes).some

theorem statement? {id id' : Option SyntaxId} (scopes : c.scope.Alike c'.scope)
    (listed : ∀ i ∈ id, .statement i ∈ parts) (listed' : ∀ i ∈ id', .statement i ∈ parts')
    (nodes : Option.Rel τ.nodes id id') :
    K.Couples w (c.statement? id) (c'.statement? id') (K.link? .statement) := by
  cases nodes with
  | none => exact .none
  | some nodes => exact (calls.statement scopes (listed _ rfl) (listed' _ rfl) nodes).some

theorem expressions {ids ids' : List SyntaxId} (listed : ∀ i ∈ ids, .expression i ∈ parts)
    (listed' : ∀ i ∈ ids', .expression i ∈ parts') (nodes : List.Forall₂ τ.nodes ids ids') :
    K.Couples w (ids.mapM c.expression) (ids'.mapM c'.expression) (K.links .expression) :=
  .mapM (K.lasts _) ((forall₂_mem nodes).imp fun i j ⟨first, second, nodes⟩ =>
    calls.expression (listed i first) (listed' j second) nodes)

theorem statements {ids ids' : List SyntaxId} (scopes : c.scope.Alike c'.scope)
    (listed : ∀ i ∈ ids, .statement i ∈ parts) (listed' : ∀ i ∈ ids', .statement i ∈ parts')
    (nodes : List.Forall₂ τ.nodes ids ids') :
    K.Couples w (ids.mapM c.statement) (ids'.mapM c'.statement) (K.links .statement) :=
  .mapM (K.lasts _) ((forall₂_mem nodes).imp fun i j ⟨first, second, nodes⟩ =>
    calls.statement scopes (listed i first) (listed' j second) nodes)

end Coupled

section Adding

variable (h : c.Translates τ c') {K : Coupling τ} {w : Stores} {r : SortedRelation}
  {kind kind' : OperationKind} {σ : OperationSort}
include h

theorem plain_alike (kinds : kind.Alike τ r kind') (nodes : τ.nodes id id') :
    (c.plain kind id).Alike τ r (c'.plain kind' id') :=
  .plain kinds nodes (h.program.spanOf nodes)

theorem valued_alike (kinds : kind.Alike τ r kind') (nodes : τ.nodes id id') :
    (c.valued kind id).Alike τ r (c'.valued kind' id') := by
  have typed := (plain_alike h kinds nodes).withType (c.typeOf id)
  rw [← h.typeOf nodes] at typed
  unfold valued
  rw [h.program.constantOf nodes]
  exact typed.withConstant (c.program.constantOf id)

theorem emitPlain_couples (kinds : kind.Alike τ (fun ρ => K.link ρ w) kind')
    (fits : σ.admits kind = true) (nodes : τ.nodes id id') :
    K.Couples w (c.emitPlain kind id) (c'.emitPlain kind' id') (K.link σ) :=
  .emit (plain_alike h kinds nodes) fits

theorem emitValued_couples (kinds : kind.Alike τ (fun ρ => K.link ρ w) kind')
    (fits : σ.admits kind = true) (nodes : τ.nodes id id') :
    K.Couples w (c.emitValued kind id) (c'.emitValued kind' id') (K.link σ) :=
  .emit (valued_alike h kinds nodes) (by simpa [valued, plain, Operation.plain] using fits)

theorem invalidExpression_couples {children children' : List OperationId}
    (inside : K.links .expression w children children') (nodes : τ.nodes id id') :
    K.Couples w (c.invalidExpression id children) (c'.invalidExpression id' children')
      (K.link .expression) := by
  have kinds : (OperationKind.invalidExpression children).Alike τ (fun ρ => K.link ρ w)
      (.invalidExpression children') :=
    .invalidExpression inside
  have typed := (plain_alike h kinds nodes).withType (c.typeOf id)
  rw [← h.typeOf nodes] at typed
  exact .emit typed rfl

theorem invalidStatement_couples {children children' : List OperationId}
    (inside : K.links .part w children children') (nodes : τ.nodes id id') :
    K.Couples w (c.invalidStatement id children) (c'.invalidStatement id' children')
      (K.link .placeholder) :=
  emitPlain_couples h (.invalidStatement inside) rfl nodes

end Adding

end Context

end SemanticTrees
