import SemanticTrees.Proofs.Analysis.Dispatch
import SemanticTrees.Proofs.Lowering.RootNesting
import SemanticTrees.Proofs.Program.Assembly

/-! The root that a diagnostic at a node goes to. Among the roots around the node it is the innermost
one: spans are nested like nodes, and a root inside another one is narrower. -/
namespace SemanticTrees

namespace Program

variable {p : Program} {id root other : SyntaxId}

/-- Of the roots that a node is or lies below, one that lies below all the others. -/
structure InnermostRoot (p : Program) (id root : SyntaxId) : Prop where
  listed : root ∈ p.roots
  above : p.Below root id
  inner : ∀ other ∈ p.roots, p.Below other id → p.Below other root

theorem lt_of_mem_roots (listed : root ∈ p.roots) : root < p.nodes.size := by
  obtain ⟨_, known, _⟩ := form_of_mem_roots listed
  exact lt_of_formOf known

/-- A root contains exactly the nodes below it. -/
theorem Nested.root_contains_iff (nested : p.Nested) (tidy : p.Tidy) (listed : root ∈ p.roots)
    (inside : id < p.nodes.size) :
    (p.nodes.spanOf root).contains (p.nodes.spanOf id) = true ↔ p.Below root id :=
  nested.contains_iff_below (fun _ known => tidy.not_isArgument_of_root listed known)
    (lt_of_mem_roots listed) inside

/-- Of two roots around a node, one that is no wider lies below the other one. -/
theorem Nested.below_of_length_le (nested : p.Nested) (tidy : p.Tidy) (listed : root ∈ p.roots)
    (listed' : other ∈ p.roots) (above : p.Below root id) (above' : p.Below other id)
    (narrow : (p.nodes.spanOf root).length ≤ (p.nodes.spanOf other).length) :
    p.Below other root := by
  have inside := lt_of_mem_roots listed
  have inside' := lt_of_mem_roots listed'
  obtain below | below := tidy.comparable above above'
  · refine (nested.root_contains_iff tidy listed' inside).mp ?_
    have wider := (nested.root_contains_iff tidy listed inside').mpr below
    have ordered := nested.ordered other inside'
    rw [Span.contains_iff] at wider ⊢
    unfold Span.length at narrow
    omega
  · exact below

end Program

namespace Analysis

variable {p : Program} {options : LoweringOptions} {trees : List (SyntaxId × OperationTree)}
  {d : Diagnostic} {i : Nat} {id root : SyntaxId}

/-- No root around a diagnostic is narrower than the one that it goes to. -/
theorem destination_least (sent : destination (rootSpans trees) d = some i) :
    ∃ origin tree, trees[i]? = some (origin, tree) ∧
      (tree.spanOf tree.root).contains d.span = true ∧
      ∀ other ∈ trees, (other.2.spanOf other.2.root).contains d.span = true →
        (tree.spanOf tree.root).length ≤ (other.2.spanOf other.2.root).length := by
  obtain ⟨⟨j, span⟩, chosen, rfl⟩ := Option.map_eq_some_iff.mp sent
  have least := not_precedes_of_foldl
    (fun a b : Nat × Span => decide (a.2.length < b.2.length)) (by grind) (by grind)
    (fun _ => rfl) (by simp [narrower]) chosen
  obtain impossible | member := narrower_isChoice.mem_of_foldl_eq_some chosen
  · contradiction
  · obtain ⟨listed, around⟩ := List.mem_filter.mp member
    obtain ⟨origin, tree, found, rfl⟩ := mem_rootSpans_iff.mp listed
    refine ⟨origin, tree, found, around, ?_⟩
    intro other listed around'
    obtain ⟨k, found'⟩ := List.mem_iff_getElem?.mp listed
    have candidate := mem_rootSpans_iff.mpr ⟨other.1, other.2, found', rfl⟩
    have beaten := least _ (.inr (List.mem_filter.mpr ⟨candidate, around'⟩))
    simpa using beaten

theorem mem_treesOf_iff {tree : OperationTree} : (id, tree) ∈ treesOf p options ↔
    id ∈ p.roots ∧ p.tree? options id = some tree := by
  simp only [treesOf, List.mem_filterMap, Option.map_eq_some_iff, Prod.mk.injEq]
  constructor
  · rintro ⟨_, listed, _, built, rfl, rfl⟩
    exact ⟨listed, built⟩
  · rintro ⟨listed, built⟩
    exact ⟨id, listed, tree, built, rfl, rfl⟩

theorem spanOf_root {tree : OperationTree} (member : (id, tree) ∈ treesOf p options) :
    tree.spanOf tree.root = p.nodes.spanOf id := by
  obtain ⟨listed, built⟩ := mem_treesOf_iff.mp member
  obtain ⟨tree', built', _, span⟩ := Program.exists_tree options listed
  rwa [Option.some.inj (built.symm.trans built')]

/-- A diagnostic at a node goes to the innermost root around the node. -/
theorem destination_innermost (tidy : p.Tidy) (nested : p.Nested) (listed : root ∈ p.roots)
    (above : p.Below root id) (inside : id < p.nodes.size) (place : d.span = p.nodes.spanOf id) :
    ∃ i origin tree, destination (rootSpans (treesOf p options)) d = some i ∧
      (treesOf p options)[i]? = some (origin, tree) ∧ p.InnermostRoot id origin := by
  have around {origin : SyntaxId} {tree : OperationTree}
      (member : (origin, tree) ∈ treesOf p options) :
      (tree.spanOf tree.root).contains d.span = true ↔ p.Below origin id := by
    rw [spanOf_root member, place]
    exact nested.root_contains_iff tidy (mem_treesOf_iff.mp member).1 inside
  cases sent : destination (rootSpans (treesOf p options)) d with
  | none =>
    obtain ⟨tree, built, _⟩ := Program.exists_tree options listed
    have member := mem_treesOf_iff.mpr ⟨listed, built⟩
    have outside := destination_eq_none_iff.mp sent root tree member
    rw [(around member).mpr above] at outside
    contradiction
  | some i =>
    obtain ⟨origin, tree, found, contains, least⟩ := destination_least sent
    have member := List.mem_of_getElem? found
    refine ⟨i, origin, tree, rfl, found, (mem_treesOf_iff.mp member).1,
      (around member).mp contains, ?_⟩
    intro other listed' above'
    obtain ⟨tree', built', _⟩ := Program.exists_tree options listed'
    have member' := mem_treesOf_iff.mpr ⟨listed', built'⟩
    have narrow := least _ member' ((around member').mpr above')
    rw [spanOf_root member, spanOf_root member'] at narrow
    exact nested.below_of_length_le tidy (mem_treesOf_iff.mp member).1 listed'
      ((around member).mp contains) above' narrow

theorem getElem?_roots {tree : OperationTree} (found : trees[i]? = some (id, tree)) :
    (ofTrees p trees).roots[i]? =
      some { origin := id, tree, correlation := Correlation.of tree (sentTo p trees i) } := by
  rw [ofTrees_roots, List.getElem?_map, List.getElem?_zipIdx, found]
  simp

theorem exists_of_getElem?_roots {r : AnalyzedRoot} (found : (ofTrees p trees).roots[i]? = some r) :
    ∃ id tree, trees[i]? = some (id, tree) ∧
      r = { origin := id, tree, correlation := Correlation.of tree (sentTo p trees i) } := by
  rw [ofTrees_roots, List.getElem?_map] at found
  obtain ⟨⟨⟨id, tree⟩, j⟩, listed, rfl⟩ := Option.map_eq_some_iff.mp found
  obtain ⟨stored, rfl⟩ : trees[i]? = some (id, tree) ∧ i = j := by
    simpa [List.getElem?_zipIdx] using listed
  exact ⟨id, tree, stored, rfl⟩

/-- The tree that a diagnostic goes to has it, and no other tree does. -/
theorem attached_iff_destination (reported : d ∈ p.diagnostics) {r : AnalyzedRoot}
    (found : (ofTrees p (treesOf p options)).roots[i]? = some r) :
    d ∈ r.correlation.attached.map Prod.snd ↔
      destination (rootSpans (treesOf p options)) d = some i := by
  have member := List.mem_of_getElem? found
  have kept := unattached_root (fun _ _ => treesOf_rootWritten) member
  obtain ⟨_, tree, _, rfl⟩ := exists_of_getElem?_roots found
  have parted := Correlation.perm_attached_append_unattached tree (sentTo p (treesOf p options) i)
  rw [kept, List.append_nil] at parted
  rw [← parted.mem_iff, sentTo, List.mem_filter]
  simp [reported]

end Analysis

namespace Draft

/-- The diagnostic that a finished program has for one that was reported at a node. -/
def placed (d : Draft) (pending : PendingDiagnostic) : Diagnostic :=
  { span := d.finish.nodes.spanOf pending.node, text := pending.text,
    category := pending.category, code := pending.code }

/-- A diagnostic that was reported at a root or at a node below one is found, when the program is
finished, in the tree of the innermost root there and in no other tree. -/
theorem diagnostic_at_innermost_root {d : Draft} (assembled : d.Assembled)
    (unshared : d.program.Unshared) {pending : PendingDiagnostic} {root : SyntaxId}
    (reported : pending ∈ d.pending) (listed : root ∈ d.finish.roots)
    (above : d.finish.Below root pending.node) (options : LoweringOptions) :
    ∃ a, Analysis.of d.finish options .pending = .ok a ∧
      ∃ (i : Nat) (r : AnalyzedRoot), a.roots[i]? = some r ∧
        d.finish.InnermostRoot pending.node r.origin ∧
        d.finish.build options .pending r.origin = .ok (some r.tree) ∧
        ∀ (j : Nat) (other : AnalyzedRoot), a.roots[j]? = some other →
          (d.placed pending ∈ other.correlation.attached.map Prod.snd ↔ j = i) := by
  have tidy := assembled.tidy unshared
  have inside : pending.node < d.finish.nodes.size := by
    rw [below_finish tidy] at above
    exact (assembled.le_of_below above).trans_lt (Program.lt_of_mem_roots listed)
  have known : d.placed pending ∈ d.finish.diagnostics :=
    List.mem_append_right _ (List.mem_map_of_mem reported)
  have place : (d.placed pending).span = d.finish.nodes.spanOf pending.node := rfl
  obtain ⟨i, origin, tree, sent, found, innermost⟩ :=
    Analysis.destination_innermost (tidy_finish tidy) (nested_finish tidy) listed above inside place
  refine ⟨_, Analysis.of_pending d.finish options, i, _, Analysis.getElem?_roots found, innermost,
    congrArg Except.ok (Analysis.mem_treesOf_iff.mp (List.mem_of_getElem? found)).2, ?_⟩
  intro j other found'
  rw [Analysis.attached_iff_destination known found', sent, Option.some.injEq, eq_comm]

/-- A method with a parameter whose default is missing, and an error where it is missing. -/
def missingDefault : Draft :=
  ((((((start "missing").after (Drafting.node .missing)).after
    (Drafting.node (.parameter "x" (some 0)))).after
    (Drafting.node (.block []))).after
    (Drafting.node (.method "M" [1] (some 2)))).after
    (Drafting.addMember 3)).after
    (Drafting.reportAt 0 .error 1001 "missing")

theorem assembled_missingDefault : missingDefault.Assembled := by
  have default := Assembled.node .missing (.start "missing") (by decide) (by decide)
  have parameter := default.node (.parameter "x" (some 0)) (by decide) (by decide)
  have body := parameter.node (.block []) (by decide) (by decide)
  have method := body.node (.method "M" [1] (some 2)) (by decide) (by decide)
  exact (method.addMember 3 (by decide)).reportAt 0 .error 1001 "missing" (by decide)

theorem unshared_missingDefault : missingDefault.program.Unshared where
  once := by decide
  distinct := by decide
  free := by
    intro member listed
    obtain rfl := List.mem_singleton.mp listed
    exact Program.isTop_iff.mpr (by decide)

theorem missingDefault_at_innermost_root :
    missingDefault.finish.roots = [1, 3] ∧ (missingDefault.finish.nodes.spanOf 0).isEmpty = true ∧
    ∃ a, Analysis.of missingDefault.finish {} .pending = .ok a ∧
      ∃ (i : Nat) (r : AnalyzedRoot), a.roots[i]? = some r ∧
        missingDefault.finish.InnermostRoot 0 r.origin ∧
        missingDefault.finish.build {} .pending r.origin = .ok (some r.tree) ∧
        ∀ (j : Nat) (other : AnalyzedRoot), a.roots[j]? = some other →
          (missingDefault.placed ⟨0, .error, 1001, "missing"⟩ ∈
            other.correlation.attached.map Prod.snd ↔ j = i) := by
  have roots : missingDefault.finish.roots = [1, 3] := rfl
  have form : missingDefault.finish.formOf 1 = some (.parameter "x" (some 0)) := rfl
  have part : missingDefault.finish.HasPart 1 0 :=
    Program.hasPart_of_formOf form List.mem_cons_self
  refine ⟨roots, rfl, ?_⟩
  exact diagnostic_at_innermost_root assembled_missingDefault unshared_missingDefault
    (List.mem_singleton_self _) (roots ▸ List.mem_cons_self) (.single part) {}

end Draft

end SemanticTrees
