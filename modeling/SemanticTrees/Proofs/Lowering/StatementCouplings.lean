import SemanticTrees.Proofs.Lowering.ExpressionCouplings

/-! Every form of statement and every root is lowered alike in programs that translate one another,
when its parts are and the surroundings are alike. The walks are arbitrary. -/
namespace SemanticTrees.Context

open Lowering

variable {τ : Translation} {c c' : Context} (h : c.Translates τ c') {K : Coupling τ} {w : Stores}
  {id id' body body' : SyntaxId} {parts parts' : List Part}

include h

variable (scopes : c.scope.Alike c'.scope)
include scopes

/-- A node in the role that its form says. -/
theorem formPart_couples (calls : Coupled K c c' parts parts') (listed : c.formPart id ∈ parts)
    (listed' : c'.formPart id' ∈ parts') (nodes : τ.nodes id id') :
    K.Couples w (if c.isExpression id then c.expression id else c.statement id)
      (if c'.isExpression id' then c'.expression id' else c'.statement id') (K.link .part) := by
  unfold formPart at listed listed'
  rw [h.isExpression nodes] at listed' ⊢
  split
  · next expression =>
    rw [if_pos expression] at listed listed'
    exact (calls.expression listed listed' nodes).weaken OperationSort.expression_within_part
  · next statement =>
    rw [if_neg statement] at listed listed'
    exact (calls.statement scopes listed listed' nodes).weaken OperationSort.statement_within_part

theorem salvageStatement_couples
    (calls : Coupled K c c' (c.salvagedParts id) (c'.salvagedParts id')) (same : τ.same id id') :
    K.Couples w (c.salvageStatement id) (c'.salvageStatement id') (K.link .placeholder) := by
  unfold salvageStatement
  unfold salvagedParts at calls
  refine Coupling.Couples.bind (R := K.links .part) (.mapM (K.lasts _) ?_)
    fun v _ given given' linked =>
      invalidStatement_couples h linked (τ.nodes_of_same same)
  refine (forall₂_mem (Program.childrenOf_alike (h.form same))).imp ?_
  rintro child child' ⟨listed, listed', nodes⟩
  exact formPart_couples h scopes calls (List.mem_map_of_mem listed) (List.mem_map_of_mem listed')
    nodes

theorem declarator_couples (isFixed : Bool)
    (calls : Coupled K c c' (c.declaratorParts id) (c'.declaratorParts id')) (same : τ.same id id') :
    K.Couples w (c.declarator isFixed id) (c'.declarator isFixed id') (K.link .declarator) := by
  have nodes := τ.nodes_of_same same
  have form := h.form same
  have salvaged (calls : Coupled K c c' (c.salvagedParts id) (c'.salvagedParts id')) :
      K.Couples w (c.salvageStatement id) (c'.salvageStatement id') (K.link .declarator) :=
    (salvageStatement_couples h scopes calls same).weaken
      OperationSort.placeholder_within_declarator
  have declared {v : Stores} {value value' : Option OperationId}
      (linked : K.link? .expression v value value') :
      K.Couples v (c.emitPlain (.variableDeclarator (c.program.symbolOf id) value) id)
        (c'.emitPlain (.variableDeclarator (c'.program.symbolOf id') value') id')
        (K.link .declarator) := by
    rw [h.program.symbolOf same]
    exact emitPlain_couples h (.variableDeclarator _ linked) rfl nodes
  unfold declarator
  unfold declaratorParts at calls
  generalize c.formOf id = found at form calls ⊢
  generalize c'.formOf id' = found' at form calls ⊢
  cases form with
  | none => exact salvaged calls
  | some alike =>
    cases alike with
    | variableDeclarator name values =>
      cases values with
      | some values =>
        exact (calls.expression List.mem_cons_self List.mem_cons_self values).some.bind
          fun v _ value value' linked => declared linked
      | none =>
        cases isFixed with
        | false => exact declared .none
        | true =>
          have missing : K.Couples w
              (emit (Operation.plain (.invalidExpression []) id
                (Span.point (c.program.nodes.spanOf id).stop)))
              (emit (Operation.plain (.invalidExpression []) id'
                (Span.point (c'.program.nodes.spanOf id').stop)))
              (K.link .expression) :=
            .emit (.plain (.invalidExpression .nil) nodes
              (h.program.behind (h.program.spanOf nodes))) rfl
          exact missing.some.bind fun v _ value value' linked => declared linked
    | _ => exact salvaged calls

theorem declarationGroup_couples (isFixed : Bool) {declarators declarators' : List SyntaxId}
    (calls : Coupled K c c' (declarators.flatMap c.declaratorParts)
      (declarators'.flatMap c'.declaratorParts))
    (declared : List.Forall₂ τ.same declarators declarators') (nodes : τ.nodes id id') :
    K.Couples w (c.declarationGroup isFixed id declarators)
      (c'.declarationGroup isFixed id' declarators') (K.link .group) := by
  unfold declarationGroup
  refine Coupling.Couples.bind (R := K.links .declarator) (.mapM (K.lasts _) ?_) ?_
  · refine (forall₂_mem declared).imp ?_
    rintro d d' ⟨listed, listed', same⟩
    have inside : c.declaratorParts d ⊆ declarators.flatMap c.declaratorParts :=
      fun part member => List.mem_flatMap.mpr ⟨d, listed, member⟩
    have inside' : c'.declaratorParts d' ⊆ declarators'.flatMap c'.declaratorParts :=
      fun part member => List.mem_flatMap.mpr ⟨d', listed', member⟩
    exact declarator_couples h scopes isFixed (calls.mono inside inside') same
  · intro v _ given given' linked
    have declaration : K.Couples v (c.emitPlain (.variableDeclaration given) id)
        (c'.emitPlain (.variableDeclaration given') id') (K.link .declaration) :=
      emitPlain_couples h (.variableDeclaration linked) rfl nodes
    exact declaration.bind fun u _ i i' linked =>
      emitPlain_couples h (.variableDeclarationGroup (.cons linked .nil)) rfl nodes

theorem ifThen_couples {condition condition' thenBranch thenBranch' : SyntaxId}
    {elseBranch elseBranch' : Option SyntaxId}
    (calls : Coupled K c c'
      (.expression condition :: .statement thenBranch :: elseBranch.toList.map .statement)
      (.expression condition' :: .statement thenBranch' :: elseBranch'.toList.map .statement))
    (conditions : τ.nodes condition condition') (holds : τ.nodes thenBranch thenBranch')
    (fails : Option.Rel τ.nodes elseBranch elseBranch') (nodes : τ.nodes id id') :
    K.Couples w (c.ifThen id condition thenBranch elseBranch)
      (c'.ifThen id' condition' thenBranch' elseBranch') (K.link .statement) := by
  unfold ifThen
  refine (calls.expression List.mem_cons_self List.mem_cons_self conditions).bind
    fun v _ test test' tested => ?_
  refine (calls.tail.statement scopes List.mem_cons_self List.mem_cons_self holds).bind
    fun u grown whenTrue whenTrue' first => ?_
  have listed {id : Option SyntaxId} : ∀ i ∈ id, Part.statement i ∈ id.toList.map .statement :=
    fun i given => List.mem_map_of_mem (Option.mem_toList.mpr given)
  refine (calls.tail.tail.statement? scopes listed listed fails).bind
    fun z grown' whenFalse whenFalse' second => ?_
  have tested := K.lasts _ (grown.trans grown') tested
  exact emitPlain_couples h (.conditional tested (K.lasts _ grown' first) second) rfl nodes

omit h in
theorem loopBody_couples (calls : Coupled K c c' parts parts')
    (listed : ⟨.loop, .statement, body⟩ ∈ parts) (listed' : ⟨.loop, .statement, body'⟩ ∈ parts')
    (bodies : τ.nodes body body') :
    K.Couples w (c.loopBody body) (c'.loopBody body') (K.link .statement) :=
  (calls _ listed _ listed' ⟨rfl, bodies, fun _ => scopes.inside .loop⟩ w).weaken
    (c.program.resultSort_within_statement body)

theorem headPart_couples (calls : Coupled K c c' parts parts') (listed : c.formPart id ∈ parts)
    (listed' : c'.formPart id' ∈ parts') (nodes : τ.nodes id id') :
    K.Couples w (c.headPart id) (c'.headPart id') (K.link .statement) := by
  unfold headPart
  unfold formPart at listed listed'
  rw [h.isExpression nodes] at listed' ⊢
  split
  · next expression =>
    rw [if_pos expression] at listed listed'
    exact (calls.expression listed listed' nodes).bind fun v _ operation operation' linked =>
      .emit (plain_alike h (.expressionStatement linked) nodes).implicit rfl
  · next statement =>
    rw [if_neg statement] at listed listed'
    exact calls.statement scopes listed listed' nodes

theorem headParts_couple {ids ids' : List SyntaxId} (calls : Coupled K c c' parts parts')
    (listed : ids.map c.formPart ⊆ parts) (listed' : ids'.map c'.formPart ⊆ parts')
    (nodes : List.Forall₂ τ.nodes ids ids') :
    K.Couples w (ids.mapM c.headPart) (ids'.mapM c'.headPart) (K.links .statement) := by
  refine .mapM (K.lasts _) ((forall₂_mem nodes).imp ?_)
  rintro i j ⟨first, second, nodes⟩
  exact headPart_couples h scopes calls (listed (List.mem_map_of_mem first))
    (listed' (List.mem_map_of_mem second)) nodes

theorem forLoop_couples {initializers initializers' : List SyntaxId}
    {condition condition' : Option SyntaxId} {incrementors incrementors' : List SyntaxId}
    (calls : Coupled K c c'
      (initializers.map c.formPart ++ condition.toList.map .expression ++
        ⟨.loop, .statement, body⟩ :: incrementors.map c.formPart)
      (initializers'.map c'.formPart ++ condition'.toList.map .expression ++
        ⟨.loop, .statement, body'⟩ :: incrementors'.map c'.formPart))
    (starts : List.Forall₂ τ.nodes initializers initializers')
    (conditions : Option.Rel τ.nodes condition condition')
    (advances : List.Forall₂ τ.nodes incrementors incrementors') (bodies : τ.nodes body body')
    (nodes : τ.nodes id id') :
    K.Couples w (c.forLoop id initializers condition incrementors body)
      (c'.forLoop id' initializers' condition' incrementors' body') (K.link .statement) := by
  unfold forLoop
  refine (headParts_couple h scopes calls.left.left (List.Subset.refl _) (List.Subset.refl _)
    starts).bind fun v _ before before' first => ?_
  have listed {id : Option SyntaxId} : ∀ i ∈ id, Part.expression i ∈ id.toList.map .expression :=
    fun i given => List.mem_map_of_mem (Option.mem_toList.mpr given)
  refine (calls.left.right.expression? listed listed conditions).bind
    fun u grown test test' second => ?_
  refine (loopBody_couples scopes calls.right List.mem_cons_self List.mem_cons_self bodies).bind
    fun x grown' inside inside' third => ?_
  refine (headParts_couple h scopes calls.right.tail (List.Subset.refl _) (List.Subset.refl _)
    advances).bind fun y grown'' bottom bottom' fourth => ?_
  have first := K.lasts_links _ (grown.trans (grown'.trans grown'')) first
  have second := K.lasts_link? _ (grown'.trans grown'') second
  exact emitPlain_couples h (.forLoop first second fourth (K.lasts _ grown'' third)) rfl nodes

section Sections

variable {through through' : Passage}

omit scopes

theorem clause_couples
    (calls : Coupled K c c' (c.clauseParts through id) (c'.clauseParts through' id'))
    (nodes : τ.nodes id id') :
    K.Couples w ((c.within (through.scope c.program c.scope)).clause id)
      ((c'.within (through'.scope c'.program c'.scope)).clause id') (K.link .clause) := by
  have holds {v : Stores} {value value' : Option OperationId}
      (linked : K.link? .expression v value value') :
      K.Couples v (c.emitPlain (.caseClause value) id) (c'.emitPlain (.caseClause value') id')
        (K.link .clause) :=
    emitPlain_couples h (.caseClause linked) rfl nodes
  have whole (calls : Coupled K c c' [⟨through, .expression, id⟩] [⟨through', .expression, id'⟩]) :
      K.Couples w
        (do
          let value ← some <$> c.run ⟨through, .expression, id⟩
          c.emitPlain (.caseClause value) id)
        (do
          let value ← some <$> c'.run ⟨through', .expression, id'⟩
          c'.emitPlain (.caseClause value) id')
        (K.link .clause) :=
    (calls _ List.mem_cons_self _ List.mem_cons_self ⟨rfl, nodes, nofun⟩ w).some.bind
      fun v _ value value' linked => holds linked
  unfold clause
  unfold clauseParts at calls
  rw [show (c.within (through.scope c.program c.scope)).formOf id = c.formOf id from rfl]
  rw [show (c'.within (through'.scope c'.program c'.scope)).formOf id' = c'.formOf id' from rfl]
  have stands := h.stands nodes
  generalize c.formOf id = found at stands calls ⊢
  generalize c'.formOf id' = found' at stands calls ⊢
  cases stands with
  | missing => exact whole calls
  | alike alike =>
    cases alike with
    | caseLabel values =>
      cases values with
      | none => exact Coupling.Couples.none.bind fun v _ value value' linked => holds linked
      | some values =>
        exact (calls _ List.mem_cons_self _ List.mem_cons_self ⟨rfl, values, nofun⟩ w).some.bind
          fun v _ value value' linked => holds linked
    | _ => exact whole calls
  | @wrapped form _ expression =>
    cases form with
    | caseLabel value => contradiction
    | _ => exact whole calls

theorem switchSection_couples
    (calls : Coupled K c c' (c.sectionParts through id) (c'.sectionParts through' id'))
    (around : (through.scope c.program c.scope).Alike (through'.scope c'.program c'.scope))
    (nodes : τ.nodes id id') :
    K.Couples w ((c.within (through.scope c.program c.scope)).switchSection id)
      ((c'.within (through'.scope c'.program c'.scope)).switchSection id') (K.link .entry) := by
  have inside {ids ids' : List SyntaxId}
      (calls : Coupled K c c' (ids.map (⟨through, .statement, ·⟩))
        (ids'.map (⟨through', .statement, ·⟩)))
      (nodes : List.Forall₂ τ.nodes ids ids') (v : Stores) :
      K.Couples v (ids.mapM (c.within (through.scope c.program c.scope)).statement)
        (ids'.mapM (c'.within (through'.scope c'.program c'.scope)).statement)
        (K.links .statement) := by
    refine .mapM (K.lasts _) ((forall₂_mem nodes).imp ?_)
    rintro i j ⟨first, second, nodes⟩
    exact (calls _ (List.mem_map_of_mem first) _ (List.mem_map_of_mem second)
      ⟨rfl, nodes, fun _ => around⟩ v).weaken (c.program.resultSort_within_statement i)
  have whole (calls : Coupled K c c' [⟨through, .statement, id⟩] [⟨through', .statement, id'⟩]) :
      K.Couples w (c.run ⟨through, .statement, id⟩) (c'.run ⟨through', .statement, id'⟩)
        (K.link .entry) :=
    ((calls _ List.mem_cons_self _ List.mem_cons_self ⟨rfl, nodes, fun _ => around⟩ w).weaken
      (c.program.resultSort_within_statement id)).weaken OperationSort.statement_within_entry
  unfold switchSection
  unfold sectionParts at calls
  rw [show (c.within (through.scope c.program c.scope)).formOf id = c.formOf id from rfl]
  rw [show (c'.within (through'.scope c'.program c'.scope)).formOf id' = c'.formOf id' from rfl]
  have stands := h.stands nodes
  generalize c.formOf id = found at stands calls ⊢
  generalize c'.formOf id' = found' at stands calls ⊢
  cases stands with
  | missing => exact whole calls
  | alike alike =>
    cases alike with
    | @switchSection labels labels' statements statements' marks body =>
      have clauses : K.Couples w
          (labels.mapM (c.within (through.scope c.program c.scope)).clause)
          (labels'.mapM (c'.within (through'.scope c'.program c'.scope)).clause)
          (K.links .clause) := by
        refine .mapM (K.lasts _) ((forall₂_mem marks).imp ?_)
        rintro i j ⟨first, second, nodes⟩
        have part : c.clauseParts through i ⊆ labels.flatMap (c.clauseParts through) :=
          fun part listed => List.mem_flatMap.mpr ⟨i, first, listed⟩
        have part' : c'.clauseParts through' j ⊆ labels'.flatMap (c'.clauseParts through') :=
          fun part listed => List.mem_flatMap.mpr ⟨j, second, listed⟩
        exact clause_couples h (calls.left.mono part part') nodes
      refine clauses.bind fun v _ given given' linked => ?_
      refine (inside calls.right body v).bind fun u grown operations operations' linked' => ?_
      exact emitPlain_couples h (.switchCase (K.lasts_links _ grown linked) linked') rfl nodes
    | _ => exact whole calls
  | @wrapped form _ expression =>
    cases form with
    | switchSection labels statements => contradiction
    | _ => exact whole calls

end Sections

theorem switch_couples {expression expression' : SyntaxId} {sections sections' : List SyntaxId}
    (calls : Coupled K c c'
      (.expression expression :: sections.flatMap (c.sectionParts (.switch sections)))
      (.expression expression' :: sections'.flatMap (c'.sectionParts (.switch sections'))))
    (values : τ.nodes expression expression') (entries : List.Forall₂ τ.nodes sections sections')
    (nodes : τ.nodes id id') :
    K.Couples w (c.switch id expression sections) (c'.switch id' expression' sections')
      (K.link .statement) := by
  have around : ((Passage.switch sections).scope c.program c.scope).Alike
      ((Passage.switch sections').scope c'.program c'.scope) := by
    rw [Passage.scope, Passage.scope, h.program.switchCases_alike entries]
    exact scopes.inside _
  unfold switch
  refine (calls.expression List.mem_cons_self List.mem_cons_self values).bind
    fun v _ value value' linked => ?_
  refine Coupling.Couples.bind (R := K.links .entry) (.mapM (K.lasts _) ?_) ?_
  · refine (forall₂_mem entries).imp ?_
    rintro i j ⟨first, second, nodes⟩
    have part : c.sectionParts (.switch sections) i ⊆
        sections.flatMap (c.sectionParts (.switch sections)) :=
      fun part listed => List.mem_flatMap.mpr ⟨i, first, listed⟩
    have part' : c'.sectionParts (.switch sections') j ⊆
        sections'.flatMap (c'.sectionParts (.switch sections')) :=
      fun part listed => List.mem_flatMap.mpr ⟨j, second, listed⟩
    have entry := switchSection_couples h (w := v) (calls.tail.mono part part') around nodes
    exact entry
  · exact fun u grown cases cases' linked' =>
      emitPlain_couples h (.switch (K.lasts _ grown linked) linked') rfl nodes

omit scopes in
theorem branch_couples (kind : BranchKind) (label : Option String) (invalid : Bool)
    (nodes : τ.nodes id id') :
    K.Couples w (c.branch id kind label invalid) (c'.branch id' kind label invalid)
      (K.link .statement) := by
  have alike := plain_alike h (r := fun ρ => K.link ρ w) (.branch kind label) nodes
  exact .emit (alike.invalidIf invalid) rfl

omit scopes in
/-- Nothing is left of a statement. -/
theorem nothing_couples (nodes : τ.nodes id id') :
    K.Couples w (c.invalidStatement id []) (c'.invalidStatement id' []) (K.link .statement) :=
  (invalidStatement_couples h .nil nodes).weaken OperationSort.placeholder_within_statement

theorem breakJump_couples (nodes : τ.nodes id id') :
    K.Couples w (c.breakJump id) (c'.breakJump id') (K.link .statement) := by
  unfold breakJump
  rw [scopes.canBreak]
  split
  · exact branch_couples h .breakOut none false nodes
  · exact nothing_couples h nodes

theorem continueJump_couples (nodes : τ.nodes id id') :
    K.Couples w (c.continueJump id) (c'.continueJump id') (K.link .statement) := by
  unfold continueJump
  rw [scopes.canContinue]
  split
  · exact branch_couples h .continueLoop none false nodes
  · exact nothing_couples h nodes

theorem goto_couples {target target' : JumpTarget}
    (calls : Coupled K c c' (gotoParts c.scope.innermostSwitch.isSome target)
      (gotoParts c'.scope.innermostSwitch.isSome target'))
    (targets : target.Alike τ target') (nodes : τ.nodes id id') :
    K.Couples w (c.goto id target) (c'.goto id' target') (K.link .statement) := by
  unfold goto
  rw [scopes.innermostSwitch] at calls ⊢
  generalize c.scope.innermostSwitch = around at calls ⊢
  cases targets with
  | label name =>
    dsimp only
    rw [scopes.contains]
    exact branch_couples h .goto _ _ nodes
  | caseOf values =>
    cases around with
    | some cases =>
      dsimp only
      rw [h.program.constantOf values]
      exact branch_couples h .goto _ _ nodes
    | none =>
      refine (calls.expression List.mem_cons_self List.mem_cons_self values).bind
        fun v _ value value' linked => ?_
      have part := K.weaken OperationSort.expression_within_part linked
      exact (invalidStatement_couples h (.cons part .nil) nodes).weaken
        OperationSort.placeholder_within_statement
  | defaultCase =>
    cases around with
    | some cases => exact branch_couples h .goto _ _ nodes
    | none => exact nothing_couples h nodes

theorem fixed_couples {declaration declaration' : SyntaxId}
    (calls : Coupled K c c' (c.fixedParts declaration ++ [.statement body])
      (c'.fixedParts declaration' ++ [.statement body']))
    (declared : τ.same declaration declaration') (bodies : τ.nodes body body')
    (nodes : τ.nodes id id') :
    K.Couples w (c.fixed id declaration body) (c'.fixed id' declaration' body')
      (K.link .statement) := by
  have form := h.form declared
  have whole {m m' : Lowering OperationId} (declares : K.Couples w m m' (K.link .fixedVariables)) :
      K.Couples w
        (do
          let declared ← m
          let body ← c.statement body
          c.emitPlain (.fixedStatement declared body) id)
        (do
          let declared ← m'
          let body ← c'.statement body'
          c'.emitPlain (.fixedStatement declared body) id')
        (K.link .statement) := by
    refine declares.bind fun v _ held held' linked => ?_
    refine (calls.right.statement scopes List.mem_cons_self List.mem_cons_self bodies).bind
      fun u grown inside inside' linked' => ?_
    exact emitPlain_couples h (.fixedStatement (K.lasts _ grown linked) linked') rfl nodes
  have salvaged (calls : Coupled K c c' (c.salvagedParts declaration)
      (c'.salvagedParts declaration')) :
      K.Couples w (c.salvageStatement declaration) (c'.salvageStatement declaration')
        (K.link .fixedVariables) :=
    (salvageStatement_couples h scopes calls declared).weaken
      OperationSort.placeholder_within_fixedVariables
  have first := calls.left
  unfold fixed
  unfold fixedParts at first
  generalize c.formOf declaration = found at form first ⊢
  generalize c'.formOf declaration' = found' at form first ⊢
  cases form with
  | none => exact whole (salvaged first)
  | some alike =>
    cases alike with
    | localDeclaration type declarators =>
      exact whole ((declarationGroup_couples h scopes true first declarators
        (τ.nodes_of_same declared)).weaken OperationSort.group_within_fixedVariables)
    | _ => exact whole (salvaged first)

theorem lock_couples {expression expression' : SyntaxId}
    (calls : Coupled K c c' [.expression expression, .statement body]
      [.expression expression', .statement body'])
    (values : τ.nodes expression expression') (bodies : τ.nodes body body')
    (nodes : τ.nodes id id') :
    K.Couples w (c.lock id expression body) (c'.lock id' expression' body')
      (K.link .statement) := by
  unfold lock
  rw [h.isReference values]
  refine (calls.expression List.mem_cons_self List.mem_cons_self values).bind
    fun v _ value value' linked => ?_
  refine (calls.tail.statement scopes List.mem_cons_self List.mem_cons_self bodies).bind
    fun u grown inside inside' linked' => ?_
  have alike := plain_alike h (r := fun ρ => K.link ρ u)
    (.lockStatement (K.lasts _ grown linked) linked') nodes
  exact .emit (alike.invalidIf _) rfl

theorem usingResource_couples {resource resource' : SyntaxId}
    (calls : Coupled K c c' (c.resourceParts resource ++ [.statement body])
      (c'.resourceParts resource' ++ [.statement body']))
    (resources : τ.nodes resource resource') (bodies : τ.nodes body body')
    (nodes : τ.nodes id id') :
    K.Couples w (c.usingResource id resource body) (c'.usingResource id' resource' body')
      (K.link .statement) := by
  have whole {m m' : Lowering OperationId} (holds : K.Couples w m m' (K.link .resource)) :
      K.Couples w
        (do
          let resources ← m
          let body ← c.statement body
          c.emitPlain (.usingStatement resources body) id)
        (do
          let resources ← m'
          let body ← c'.statement body'
          c'.emitPlain (.usingStatement resources body) id')
        (K.link .statement) := by
    refine holds.bind fun v _ held held' linked => ?_
    refine (calls.right.statement scopes List.mem_cons_self List.mem_cons_self bodies).bind
      fun u grown inside inside' linked' => ?_
    exact emitPlain_couples h (.usingStatement (K.lasts _ grown linked) linked') rfl nodes
  have value (calls : Coupled K c c' [.expression resource] [.expression resource']) :
      K.Couples w (c.expression resource) (c'.expression resource') (K.link .resource) :=
    (calls.expression List.mem_cons_self List.mem_cons_self resources).weaken
      OperationSort.expression_within_resource
  have first := calls.left
  unfold usingResource
  unfold resourceParts at first
  have stands := h.stands resources
  generalize c.formOf resource = found at stands first ⊢
  generalize c'.formOf resource' = found' at stands first ⊢
  cases stands with
  | missing => exact whole (value first)
  | alike alike =>
    cases alike with
    | localDeclaration type declarators =>
      exact whole ((declarationGroup_couples h scopes false first declarators resources).weaken
        OperationSort.group_within_resource)
    | _ => exact whole (value first)
  | @wrapped form _ expression =>
    cases form with
    | localDeclaration type declarators => contradiction
    | _ => exact whole (value first)

omit scopes in
theorem misplaced_couples {form form' : Form}
    (calls : Coupled K c c' (if form.isExpression then [.expression id] else [])
      (if form'.isExpression then [.expression id'] else []))
    (agree : form'.isExpression = form.isExpression) (nodes : τ.nodes id id') :
    K.Couples w (c.misplaced id form) (c'.misplaced id' form') (K.link .statement) := by
  unfold misplaced
  rw [agree] at calls ⊢
  split
  · next expression =>
    rw [if_pos expression, if_pos expression] at calls
    refine (calls.expression List.mem_cons_self List.mem_cons_self nodes).bind
      fun v _ child child' linked => ?_
    have part := K.weaken OperationSort.expression_within_part linked
    exact (invalidStatement_couples h (.cons part .nil) nodes).weaken
      OperationSort.placeholder_within_statement
  · exact nothing_couples h nodes

theorem lowerStatement_couples
    (calls : Coupled K c c'
      (c.statementParts c.scope.innermostSwitch.isSome id (c.formOf id))
      (c'.statementParts c'.scope.innermostSwitch.isSome id' (c'.formOf id')))
    (same : τ.same id id') :
    K.Couples w (c.lowerStatement id) (c'.lowerStatement id')
      (K.link (c.program.resultSort .statement id)) := by
  have nodes := τ.nodes_of_same same
  have form := h.form same
  have sort : c.program.resultSort .statement id = Program.statementSort (c.formOf id) := rfl
  unfold lowerStatement
  generalize c.program.resultSort .statement id = expected at sort ⊢
  generalize c.formOf id = found at form calls sort ⊢
  generalize c'.formOf id' = found' at form calls ⊢
  subst sort
  cases form with
  | none => exact nothing_couples h nodes
  | some alike =>
    have agree := alike.isExpression
    cases alike with
    | block inside =>
      have listed {ids : List SyntaxId} : ∀ i ∈ ids, Part.statement i ∈ ids.map .statement :=
        fun i member => List.mem_map_of_mem member
      exact (calls.statements scopes listed listed inside).bind fun v _ given given' linked =>
        emitPlain_couples h (.block linked) rfl nodes
    | expressionStatement values =>
      exact (calls.expression List.mem_cons_self List.mem_cons_self values).bind
        fun v _ operation operation' linked =>
          emitPlain_couples h (.expressionStatement linked) rfl nodes
    | localDeclaration type declared =>
      exact (declarationGroup_couples h scopes false calls declared nodes).weaken
        OperationSort.group_within_statement
    | variableDeclarator name values =>
      exact (declarator_couples h scopes false calls same).weaken
        OperationSort.declarator_within_statement
    | ifThen conditions holds fails =>
      exact ifThen_couples h scopes calls conditions holds fails nodes
    | whileLoop conditions bodies =>
      refine (calls.expression (by simp [statementParts]) (by simp [statementParts]) conditions).bind
        fun v _ test test' linked => ?_
      refine (loopBody_couples scopes calls (by simp [statementParts]) (by simp [statementParts])
        bodies).bind fun u grown inside inside' linked' => ?_
      exact emitPlain_couples h (.whileLoop (K.lasts _ grown linked) linked') rfl nodes
    | forLoop starts conditions advances bodies =>
      exact forLoop_couples h scopes calls starts conditions advances bodies nodes
    | switch values entries => exact switch_couples h scopes calls values entries nodes
    | breakJump => exact breakJump_couples h scopes nodes
    | continueJump => exact continueJump_couples h scopes nodes
    | goto targets => exact goto_couples h scopes calls targets nodes
    | labeled label inside =>
      exact (calls.statement scopes List.mem_cons_self List.mem_cons_self inside).bind
        fun v _ operation operation' linked =>
          emitPlain_couples h (.labeled label (.some linked)) rfl nodes
    | returnJump values =>
      have listed {id : Option SyntaxId} :
          ∀ i ∈ id, Part.expression i ∈ id.toList.map .expression :=
        fun i given => List.mem_map_of_mem (Option.mem_toList.mpr given)
      exact (calls.expression? listed listed values).bind fun v _ value value' linked =>
        emitPlain_couples h (.returnValue linked) rfl nodes
    | empty => exact emitPlain_couples h .empty rfl nodes
    | fixed declared bodies => exact fixed_couples h scopes calls declared bodies nodes
    | lock values bodies => exact lock_couples h scopes calls values bodies nodes
    | usingResource resources bodies =>
      exact usingResource_couples h scopes calls resources bodies nodes
    | switchSection marks inside | caseLabel values =>
      exact (salvageStatement_couples h scopes calls same).weaken
        OperationSort.placeholder_within_statement
    | _ => exact misplaced_couples h calls agree nodes

omit h scopes in
/-- An expression where a statement is expected is kept in a placeholder, whatever its form. -/
theorem lowerStatement_of_isExpression {form : Form} (known : c.formOf id = some form)
    (expression : form.isExpression = true) : c.lowerStatement id = c.misplaced id form := by
  rw [lowerStatement, known]
  cases form <;> first | contradiction | rfl

omit h scopes in
theorem statementParts_of_isExpression {form : Form} (inSwitch : Bool)
    (expression : form.isExpression = true) :
    c.statementParts inSwitch id (some form) = [.expression id] := by
  cases form <;> first | contradiction | rfl

omit scopes in
theorem lowerStatement_couples_of_wraps {inSwitch inSwitch' : Bool}
    (calls : Coupled K c c' (c.statementParts inSwitch id (c.formOf id))
      (c'.statementParts inSwitch' id' (c'.formOf id')))
    (wraps : c.program.Wraps c'.program id id') (nodes : τ.nodes id id') :
    K.Couples w (c.lowerStatement id) (c'.lowerStatement id')
      (K.link (c.program.resultSort .statement id)) := by
  obtain ⟨⟨form, known, expression⟩, inner, known'⟩ := wraps
  have expression' : (Form.parenthesized inner).isExpression = true := rfl
  have sort : c.program.resultSort .statement id = .statement := by
    rw [Program.resultSort, known]
    cases form <;> first | contradiction | rfl
  rw [show c.formOf id = _ from known, show c'.formOf id' = _ from known',
    statementParts_of_isExpression inSwitch expression,
    statementParts_of_isExpression inSwitch' expression'] at calls
  rw [lowerStatement_of_isExpression known expression,
    lowerStatement_of_isExpression known' expression', sort]
  refine misplaced_couples h ?_ (expression'.trans expression.symm) nodes
  rw [if_pos expression, if_pos expression']
  exact calls

end SemanticTrees.Context
