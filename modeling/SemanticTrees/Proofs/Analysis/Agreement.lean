import SemanticTrees.Proofs.Analysis.Innermost
import SemanticTrees.Proofs.Correlation.Narrowest

/-! Agreement of queries. The operation of a node is in the tree of the innermost root around the
node, which is where an error at the node goes, so the error makes the operation invalid and all
above it. This is so unless the node is parenthesized and has the operation of the expression inside,
or calls were given arguments of other calls or one argument twice. -/
namespace SemanticTrees

namespace Program

variable {p : Program} {options : LoweringOptions} {id origin : SyntaxId} {t : OperationTree}
  {i : OperationId} {o : Operation}

/-- The node of an operation has no inner root than the one whose tree the operation is in. -/
theorem InnermostRoot.eq_of_tree? (tidy : p.Tidy) (own : p.BindsOwnArguments)
    (built : p.tree? options id = some t) (listed : id ∈ p.roots) (found : t.get? i = some o)
    (innermost : p.InnermostRoot o.origin origin) : id = origin := by
  have above := below_of_tree? tidy own built found
  have below := innermost.inner id listed above
  by_contra different
  -- the inner root is the default of a parameter, and the tree of the method is that of its body
  obtain ⟨name, parameters, body, known, parameter⟩ :=
    tidy.method_of_nested_roots listed innermost.listed below different
  obtain same | ⟨inner, present, within⟩ := below_body_of_tree? tidy own known built found
  · have around := innermost.above
    rw [same] at around
    exact different (tidy.acyclic.antisymm below around)
  · have parts : (parameters ++ body.toList).Pairwise p.Disjoint :=
      tidy.pairwise_disjoint_children known
    obtain ⟨_, _, apart⟩ := List.pairwise_append.mp parts
    exact apart origin parameter inner (Option.mem_toList.mpr present) _ innermost.above within

end Program

namespace Analysis

variable {p : Program} {options : LoweringOptions} {trees : List (SyntaxId × OperationTree)}
  {id node : SyntaxId} {i j : Nat} {tree tree' : OperationTree} {r above : OperationRef}

/-- The operation of a node is that of one of the trees. -/
theorem exists_of_operationFor (known : (ofTrees p trees).operationFor node = some r) :
    ∃ id tree, trees[r.root]? = some (id, tree) ∧ tree.operationFor node = some r.operation := by
  obtain ⟨⟨root, i⟩, listed, made⟩ := List.exists_of_findSome?_eq_some known
  obtain ⟨k, own, rfl⟩ := Option.map_eq_some_iff.mp made
  have stored : (ofTrees p trees).roots[i]? = some root := List.mem_zipIdx_iff_getElem?.mp listed
  obtain ⟨id, tree, found, rfl⟩ := exists_of_getElem?_roots stored
  exact ⟨id, tree, found, own⟩

section Root

variable {a : Analysis} {root : AnalyzedRoot}

theorem get?_of_root? (found : a.root? i = some root) (j : OperationId) :
    a.get? ⟨i, j⟩ = root.tree.get? j := by
  simp [get?, found]

theorem isInvalid_of_root? (found : a.root? i = some root) (j : OperationId) :
    a.isInvalid ⟨i, j⟩ = root.correlation.isInvalid j := by
  simp [isInvalid, found]

theorem below_of_mem_above {fuel : Nat} (listed : above ∈ a.above fuel r)
    (found : a.root? r.root = some root) :
    above.root = r.root ∧ root.tree.Below above.operation r.operation := by
  induction fuel generalizing r with
  | zero => contradiction
  | succ fuel ih =>
    unfold Analysis.above at listed
    split at listed
    · next parent known =>
      have step : parent.root = r.root ∧ root.tree.IsChild parent.operation r.operation := by
        obtain ⟨_, same, inner⟩ := Option.bind_eq_some_iff.mp known
        obtain rfl := Option.some.inj (found.symm.trans same)
        obtain ⟨i, up, same⟩ := Option.bind_eq_some_iff.mp inner
        obtain rfl := Option.some.inj same
        exact ⟨rfl, OperationTree.isChild_of_parent up⟩
      obtain ⟨same, child⟩ := step
      obtain rfl | later := List.mem_cons.mp listed
      · exact ⟨same, .single child⟩
      · obtain ⟨same', below⟩ := ih later (same ▸ found)
        exact ⟨same'.trans same, below.tail child⟩
    · contradiction

/-- What is above an operation is in the same tree, and the operation is below it there. -/
theorem below_of_mem_ancestors (listed : above ∈ a.ancestors r)
    (found : a.root? r.root = some root) :
    above.root = r.root ∧ root.tree.Below above.operation r.operation := by
  unfold ancestors at listed
  rw [found] at listed
  exact below_of_mem_above listed found

end Root

/-- A root has one tree. -/
theorem index_eq_of_treesOf (tidy : p.Tidy) (found : (treesOf p options)[i]? = some (id, tree))
    (found' : (treesOf p options)[j]? = some (id, tree')) : i = j := by
  have same : tree = tree' := by
    obtain ⟨_, built⟩ := mem_treesOf_iff.mp (List.mem_of_getElem? found)
    obtain ⟨_, built'⟩ := mem_treesOf_iff.mp (List.mem_of_getElem? found')
    exact Option.some.inj (built.symm.trans built')
  have nodup : (treesOf p options).Nodup := by
    refine tidy.nodup_roots.filterMap ?_
    intro a b entry made made'
    obtain ⟨_, _, rfl⟩ := Option.map_eq_some_iff.mp made
    obtain ⟨_, _, same⟩ := Option.map_eq_some_iff.mp made'
    exact (Prod.mk.inj same).1.symm
  exact (List.getElem?_inj (List.getElem?_eq_some_iff.mp found).1 nodup).mp
    (found.trans (same ▸ found'.symm))

section Own

variable (tidy : p.Tidy) (nested : p.Nested) (own : p.BindsOwnArguments)
  (parts : ∀ whole part, p.HasPart whole part → part < p.nodes.size)
include tidy nested own parts

/-- An error in the place of a node makes the operation of the node and all above it invalid. -/
theorem isInvalid_of_operation {o : Operation} {d : Diagnostic} {k : OperationId}
    (found : (treesOf p options)[i]? = some (id, tree)) (known : tree.operationFor node = some k)
    (here : tree.get? k = some o) (origin : o.origin = node) (reported : d ∈ p.diagnostics)
    (error : d.isError = true) (place : d.span = p.nodes.spanOf node) (above : tree.Below j k) :
    (ofTrees p (treesOf p options)).isInvalid ⟨i, j⟩ = true := by
  obtain ⟨listed, built⟩ := mem_treesOf_iff.mp (List.mem_of_getElem? found)
  have mirrors := Program.tree?_mirrors tidy own built
  have inside (i : OperationId) (o : Operation) (found : tree.get? i = some o) :
      o.origin < p.nodes.size := by
    obtain same | ⟨whole, _, part⟩ :=
      Relation.ReflTransGen.cases_tail (Program.below_of_tree? tidy own built found)
    · exact same ▸ Program.lt_of_mem_roots listed
    · exact parts whole _ part
  obtain ⟨m, root, _, sent, found', innermost⟩ := destination_innermost tidy nested listed
    (origin ▸ Program.below_of_tree? tidy own built here) (origin ▸ inside _ o here) place
  rw [← origin] at innermost
  -- the error was sent to the tree that the operation is in
  obtain rfl := innermost.eq_of_tree? tidy own built listed here
  obtain rfl := index_eq_of_treesOf tidy found found'
  have arrived : d ∈ sentTo p (treesOf p options) i :=
    List.mem_filter.mpr ⟨reported, decide_eq_true sent⟩
  rw [isInvalid_of_root? (getElem?_roots found)]
  exact OperationTree.isInvalid_of_error (Program.tree?_compact built) mirrors known here origin
    nested inside arrived error place above

end Own

end Analysis

namespace Draft

variable {d : Draft}

theorem bindsOwnArguments_finish (tidy : d.program.Tidy) (own : d.program.BindsOwnArguments) :
    d.finish.BindsOwnArguments := by
  intro call form member bindings known
  rw [Program.formOf_congr (forms_finish tidy)] at known
  exact own call form member bindings known

/-- An error that was reported at a node makes the operation of the node invalid, and every
operation above it. When the node is parenthesized, its operation must have been made for it and
not for the expression inside. -/
theorem error_reaches_operation (assembled : d.Assembled) (unshared : d.program.Unshared)
    (own : d.program.BindsOwnArguments) {pending : PendingDiagnostic}
    (reported : pending ∈ d.pending) (error : pending.category = .error)
    (options : LoweringOptions) :
    ∃ a, Analysis.of d.finish options .pending = .ok a ∧
      ∀ r, a.operationFor pending.node = some r → ∃ o, a.get? r = some o ∧
        ((∀ inner, d.finish.formOf pending.node = some (.parenthesized inner) →
            o.origin = pending.node) →
          a.isInvalid r = true ∧ ∀ above ∈ a.ancestors r, a.isInvalid above = true) := by
  have tidy := assembled.tidy unshared
  have own' := bindsOwnArguments_finish tidy own
  have parts (whole part : SyntaxId) (known : d.finish.HasPart whole part) :
      part < d.finish.nodes.size := by
    have inside := Program.lt_of_hasPart known
    rw [hasPart_finish tidy] at known
    exact (assembled.lt_of_hasPart known).trans inside
  refine ⟨_, Analysis.of_pending d.finish options, ?_⟩
  intro r known
  obtain ⟨id, tree, found, mapped⟩ := Analysis.exists_of_operationFor known
  have stored : Analysis.root? _ r.root = some _ := Analysis.getElem?_roots (p := d.finish) found
  obtain ⟨_, built⟩ := Analysis.mem_treesOf_iff.mp (List.mem_of_getElem? found)
  obtain ⟨o, here, made, _⟩ :=
    (Program.tree?_mirrors (tidy_finish tidy) own' built).mapped pending.node r.operation mapped
  refine ⟨o, (Analysis.get?_of_root? stored r.operation).trans here, fun plain => ?_⟩
  have origin : o.origin = pending.node := by
    obtain same | ⟨inner, form⟩ := made
    · exact same
    · exact plain inner form
  have known : d.placed pending ∈ d.finish.diagnostics :=
    List.mem_append_right _ (List.mem_map_of_mem reported)
  have invalid {j : OperationId} (above : tree.Below j r.operation) :=
    Analysis.isInvalid_of_operation (tidy_finish tidy) (nested_finish tidy) own' parts found mapped
      here origin known (beq_iff_eq.mpr error) rfl above
  refine ⟨invalid .refl, ?_⟩
  intro above listed
  obtain ⟨same, below⟩ := Analysis.below_of_mem_ancestors listed stored
  have upper := invalid below
  rwa [← same] at upper

theorem factsOf_after_changeFacts (d : Draft) (id other : SyntaxId) (f : Facts → Facts) :
    (d.after (Drafting.changeFacts id f)).program.factsOf other =
      if id = other then f (d.program.factsOf id) else d.program.factsOf other := by
  change (d.program.facts.insert id (f (d.program.factsOf id))).getD other Facts.unknown = _
  rw [Std.TreeMap.getD_insert]
  simp only [Std.compare_eq_iff_eq]
  rfl

/-- A property with the sum of a call and of a value in parentheses. -/
def sumOfCall : Draft :=
  (((((((((((((start "sum").after (Drafting.symbol (.plain "x" .parameter none))).after
    (Drafting.symbol (.plain "F" .method none))).after
    (Drafting.symbol (.plain "P" .property none))).after
    (Drafting.node (.identifier "F"))).after
    (Drafting.node (.literal "1"))).after
    (Drafting.node (.argument none .byValue 1))).after
    (Drafting.node (.invocation 0 [2]))).after
    (Drafting.node (.literal "2"))).after
    (Drafting.node (.parenthesized 4))).after
    (Drafting.node (.binary .add 3 5))).after
    (Drafting.node (.property "P" (some 6)))).after
    (Drafting.changeFacts 7 fun _ => { Facts.unknown with symbol := some 2 })).after
    (Drafting.addMember 7)

def callFacts (bindings : List Binding) : Facts :=
  { Facts.unknown with resolution := some (.resolved 1 bindings) }

/-- The sum with bindings for the call and an error at a node. -/
def flawedCall (bindings : List Binding) (flawed : SyntaxId) : Draft :=
  (sumOfCall.after (Drafting.changeFacts 3 fun _ => callFacts bindings)).after
    (Drafting.reportAt flawed .error 1001 "wrong value")

theorem assembled_sumOfCall : sumOfCall.Assembled := by
  have plain (name : String) (kind : SymbolKind) (d : Draft) :
      d.program.SymbolInRange (.plain name kind none) :=
    ⟨by simp [Symbol.plain], by simp [Symbol.plain], by simp [Symbol.plain]⟩
  have x := Assembled.symbol _ (.start "sum") (plain "x" .parameter _)
  have F := x.symbol _ (plain "F" .method _)
  have P := F.symbol _ (plain "P" .property _)
  have callee := P.node (.identifier "F") (by decide) (by decide)
  have one := callee.node (.literal "1") (by decide) (by decide)
  have argument := one.node (.argument none .byValue 1) (by decide) (by decide)
  have call := argument.node (.invocation 0 [2]) (by decide) (by decide)
  have two := call.node (.literal "2") (by decide) (by decide)
  have inParentheses := two.node (.parenthesized 4) (by decide) (by decide)
  have sum := inParentheses.node (.binary .add 3 5) (by decide) (by decide)
  have property := sum.node (.property "P" (some 6)) (by decide) (by decide)
  have declared := property.changeFacts 7 (fun _ => { Facts.unknown with symbol := some 2 })
    (by decide)
    { type := by simp [Facts.unknown]
      target := by simp [Facts.unknown]
      symbol := by
        rintro _ ⟨⟩
        decide
      candidate := by simp [Facts.unknown]
      binding := by simp [Facts.unknown] }
  exact declared.addMember 7 (by decide)

theorem unshared_sumOfCall : sumOfCall.program.Unshared where
  once := by decide
  distinct := by decide
  free := by
    intro member listed
    obtain rfl := List.mem_singleton.mp listed
    exact Program.isTop_iff.mpr (by decide)

section Flawed

variable {bindings : List Binding} {flawed : SyntaxId}

theorem assembled_flawedCall
    (known : ∀ b ∈ bindings, b.parameter = 0 ∧ ∀ argument ∈ b.argument, argument < 8)
    (issued : flawed < 8) : (flawedCall bindings flawed).Assembled := by
  have symbols : sumOfCall.program.symbols.size = 3 := by decide
  have nodes : sumOfCall.program.nodes.size = 8 := by decide
  have bound := assembled_sumOfCall.changeFacts 3 (fun _ => callFacts bindings) (by decide)
    { type := by simp [callFacts, Facts.unknown]
      target := by simp [callFacts, Facts.unknown]
      symbol := by simp [callFacts, Facts.unknown]
      candidate := by
        rintro _ ⟨⟩ symbol listed
        obtain rfl := List.mem_singleton.mp listed
        decide
      binding := by
        rintro _ _ ⟨⟩ b listed
        obtain ⟨parameter, inside⟩ := known b listed
        rw [parameter, symbols, nodes]
        exact ⟨by decide, inside⟩ }
  exact bound.reportAt flawed .error 1001 "wrong value" (nodes ▸ issued)

theorem unshared_flawedCall : (flawedCall bindings flawed).program.Unshared where
  once := unshared_sumOfCall.once
  distinct := unshared_sumOfCall.distinct
  free := unshared_sumOfCall.free

theorem bindsOwnArguments_flawedCall (own : (bindings.filterMap Binding.lowered).Subperm [2]) :
    (flawedCall bindings flawed).program.BindsOwnArguments := by
  intro call form member bindings' known _ resolved
  have facts : (flawedCall bindings flawed).program.factsOf call =
      if 3 = call then callFacts bindings else sumOfCall.program.factsOf call :=
    factsOf_after_changeFacts sumOfCall 3 call fun _ => callFacts bindings
  rw [Program.resolutionOf, facts] at resolved
  split at resolved
  · next same =>
    subst same
    have call : (flawedCall bindings flawed).program.formOf 3 = some (.invocation 0 [2]) := rfl
    obtain rfl := Option.some.inj (call.symm.trans known)
    obtain ⟨_, rfl⟩ := Resolution.resolved.inj (Option.some.inj resolved)
    exact own
  · have inside : call < 8 := Program.lt_of_formOf known
    have unresolved : ∀ id < 8, sumOfCall.program.resolutionOf id = none := by decide
    have none : none = some (Resolution.resolved member bindings') :=
      (unresolved call inside).symm.trans resolved
    contradiction

end Flawed

/-- An error was reported at a node, and the operation of the node is not invalid. -/
def Misses (d : Draft) (node : SyntaxId) : Prop :=
  d.Assembled ∧ d.program.Unshared ∧
    (∃ pending ∈ d.pending, pending.node = node ∧ pending.category = .error) ∧
    ∃ a r, Analysis.of d.finish {} .pending = .ok a ∧ a.operationFor node = some r ∧
      a.isInvalid r = false

/-- The value in parentheses takes no error from them. An argument that is bound twice takes its
error the first time only, and one that is bound in a call elsewhere takes it there. -/
theorem flawedCall_misses :
    (flawedCall [⟨0, .explicit, some 2⟩] 5).Misses 5 ∧
    (flawedCall [⟨0, .explicit, some 2⟩, ⟨0, .explicit, some 2⟩] 2).Misses 2 ∧
    (flawedCall [⟨0, .explicit, some 4⟩] 4).Misses 4 := by
  refine ⟨?_, ?_, ?_⟩
  · exact ⟨assembled_flawedCall (by simp) (by decide), unshared_flawedCall,
      ⟨_, List.mem_singleton_self _, rfl, rfl⟩, _, ⟨0, 4⟩, Analysis.of_pending _ _,
      by decide +kernel, by decide +kernel⟩
  · exact ⟨assembled_flawedCall (by simp) (by decide), unshared_flawedCall,
      ⟨_, List.mem_singleton_self _, rfl, rfl⟩, _, ⟨0, 4⟩, Analysis.of_pending _ _,
      by decide +kernel, by decide +kernel⟩
  · exact ⟨assembled_flawedCall (by simp) (by decide), unshared_flawedCall,
      ⟨_, List.mem_singleton_self _, rfl, rfl⟩, _, ⟨0, 4⟩, Analysis.of_pending _ _,
      by decide +kernel, by decide +kernel⟩

theorem flawedCall_error_reaches_operation :
    ∃ a, Analysis.of (flawedCall [⟨0, .explicit, some 2⟩] 2).finish {} .pending = .ok a ∧
      a.operationFor 2 = some ⟨0, 2⟩ ∧ a.isInvalid ⟨0, 2⟩ = true ∧
      a.ancestors ⟨0, 2⟩ = [⟨0, 3⟩, ⟨0, 5⟩, ⟨0, 6⟩] ∧
      ∀ above ∈ a.ancestors ⟨0, 2⟩, a.isInvalid above = true := by
  have assembled : (flawedCall [⟨0, .explicit, some 2⟩] 2).Assembled :=
    assembled_flawedCall (by simp) (by decide)
  obtain ⟨a, analysed, reaches⟩ := error_reaches_operation assembled unshared_flawedCall
    (bindsOwnArguments_flawedCall (.refl _)) (List.mem_singleton_self _) rfl {}
  obtain rfl := Except.ok.inj ((Analysis.of_pending _ _).symm.trans analysed)
  obtain ⟨o, _, invalid⟩ := reaches ⟨0, 2⟩ (by decide +kernel)
  have form : (flawedCall [⟨0, .explicit, some 2⟩] 2).finish.formOf 2 =
      some (.argument none .byValue 1) := rfl
  have bare : ∀ inside, (flawedCall [⟨0, .explicit, some 2⟩] 2).finish.formOf 2 ≠
      some (.parenthesized inside) := by
    intro inside other
    have same : Form.argument none .byValue 1 = .parenthesized inside :=
      Option.some.inj (form.symm.trans other)
    contradiction
  obtain ⟨own, above⟩ := invalid fun inside other => absurd other (bare inside)
  exact ⟨_, rfl, by decide +kernel, own, by decide +kernel, above⟩

end Draft

end SemanticTrees
