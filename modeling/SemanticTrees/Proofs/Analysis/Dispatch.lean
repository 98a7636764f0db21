import SemanticTrees.Analysis
import SemanticTrees.Proofs.Correlation.Attachment
import SemanticTrees.Proofs.Lowering.Roots

/-! Where an analysis leaves the diagnostics of its program. Each goes to one root or stays outside
of all; the root that it goes to contains it and was written, so some operation of the tree takes
it, and none is lost or taken twice. -/
namespace SemanticTrees

/-- A tree whose root was written receives whatever lies in its root. -/
theorem Correlation.unattached_eq_nil {t : OperationTree} {ds : List Diagnostic}
    (written : t.RootWritten)
    (inside : ∀ d ∈ ds, (t.spanOf t.root).contains d.span = true) : (of t ds).unattached = [] := by
  obtain ⟨o, stored, explicit⟩ := written
  obtain ⟨r, listed, _, span⟩ := OperationTree.exists_receiver stored explicit
  have rootSpan : t.spanOf t.root = r.span := by
    rw [OperationTree.spanOf, stored, span]
  refine List.Perm.eq_nil ((unattached_perm t ds).trans (.of_eq ?_))
  refine List.filter_eq_nil_iff.mpr ?_
  intro d member alone
  have missed : Correlation.receiverOf t d = none := Option.isNone_iff_eq_none.mp alone
  have outside := OperationTree.narrowest_eq_none_iff.mp missed r listed
  rw [← rootSpan, inside d member] at outside
  contradiction

namespace Analysis

variable {p : Program} {options : LoweringOptions} {trees : List (SyntaxId × OperationTree)}
  {d : Diagnostic} {i : Nat}

/-- The spans of the roots of trees, with the places of the trees. -/
def rootSpans (trees : List (SyntaxId × OperationTree)) : List (Nat × Span) :=
  trees.zipIdx.map fun ((_, tree), i) => (i, tree.spanOf tree.root)

/-- The diagnostics that go to a root. -/
def sentTo (p : Program) (trees : List (SyntaxId × OperationTree)) (i : Nat) : List Diagnostic :=
  p.diagnostics.filter fun d => destination (rootSpans trees) d = some i

/-- The diagnostics that go to no root. -/
def outside (p : Program) (trees : List (SyntaxId × OperationTree)) : List Diagnostic :=
  p.diagnostics.filter fun d => (destination (rootSpans trees) d).isNone

theorem narrower_isChoice : IsChoice narrower := by
  intro best next
  unfold narrower
  cases best with
  | none => exact .inl rfl
  | some other =>
    dsimp only
    split
    · exact .inl rfl
    · exact .inr ⟨other, rfl, rfl⟩

theorem mem_rootSpans_iff {span : Span} : (i, span) ∈ rootSpans trees ↔
    ∃ origin tree, trees[i]? = some (origin, tree) ∧ tree.spanOf tree.root = span := by
  simp only [rootSpans, List.mem_map, Prod.exists, List.mem_zipIdx_iff_getElem?]
  constructor
  · rintro ⟨origin, tree, j, found, same⟩
    obtain ⟨rfl, rfl⟩ := Prod.mk.inj same
    exact ⟨origin, tree, found, rfl⟩
  · rintro ⟨origin, tree, found, rfl⟩
    exact ⟨origin, tree, i, found, rfl⟩

theorem exists_of_destination (sent : destination (rootSpans trees) d = some i) :
    ∃ origin tree, trees[i]? = some (origin, tree) ∧
      (tree.spanOf tree.root).contains d.span = true := by
  obtain ⟨⟨j, span⟩, chosen, rfl⟩ := Option.map_eq_some_iff.mp sent
  obtain impossible | member := narrower_isChoice.mem_of_foldl_eq_some chosen
  · contradiction
  · obtain ⟨listed, around⟩ := List.mem_filter.mp member
    obtain ⟨origin, tree, found, rfl⟩ := mem_rootSpans_iff.mp listed
    exact ⟨origin, tree, found, around⟩

theorem destination_eq_none_iff : destination (rootSpans trees) d = none ↔
    ∀ origin tree, (origin, tree) ∈ trees → (tree.spanOf tree.root).contains d.span = false := by
  rw [destination, Option.map_eq_none_iff, narrower_isChoice.foldl_eq_none_iff,
    List.filter_eq_nil_iff, and_iff_right rfl]
  constructor
  · intro none origin tree member
    obtain ⟨i, found⟩ := List.mem_iff_getElem?.mp member
    exact Bool.not_eq_true _ ▸ none (i, _) (mem_rootSpans_iff.mpr ⟨origin, tree, found, rfl⟩)
  · rintro none ⟨i, span⟩ member
    obtain ⟨origin, tree, found, rfl⟩ := mem_rootSpans_iff.mp member
    exact Bool.not_eq_true _ ▸ none origin tree (List.mem_of_getElem? found)

theorem filterMap_sent (spans : List (Nat × Span)) (ds : List Diagnostic) (i : Nat) :
    ((ds.map fun d => (destination spans d, d)).filterMap fun (root, d) =>
      if root = some i then some d else none) =
        ds.filter fun d => destination spans d = some i := by
  rw [List.filterMap_map, ← List.filterMap_eq_filter]
  refine List.filterMap_congr fun d _ => ?_
  simp [Option.guard]

theorem ofTrees_roots (p : Program) (trees : List (SyntaxId × OperationTree)) :
    (ofTrees p trees).roots = trees.zipIdx.map fun ((origin, tree), i) =>
      { origin, tree, correlation := Correlation.of tree (sentTo p trees i) } :=
  List.map_congr_left fun ⟨⟨origin, tree⟩, i⟩ _ =>
    congrArg (fun own => AnalyzedRoot.mk origin tree (Correlation.of tree own))
      (filterMap_sent (rootSpans trees) p.diagnostics i)

theorem ofTrees_unattached (p : Program) (trees : List (SyntaxId × OperationTree)) :
    (ofTrees p trees).unattached = Diagnostic.sort (outside p trees ++
      (ofTrees p trees).roots.flatMap fun root => root.correlation.unattached) := by
  have none : outside p trees =
      (p.diagnostics.map fun d => (destination (rootSpans trees) d, d)).filterMap
        fun (root, d) => if root.isNone then some d else none := by
    rw [List.filterMap_map, outside, ← List.filterMap_eq_filter]
    rfl
  rw [none]
  rfl

theorem mem_sentTo (member : d ∈ sentTo p trees i) :
    ∃ origin tree, trees[i]? = some (origin, tree) ∧
      (tree.spanOf tree.root).contains d.span = true :=
  exists_of_destination (of_decide_eq_true (List.mem_filter.mp member).2)

theorem perm_flatMap_sentTo (p : Program) (trees : List (SyntaxId × OperationTree)) :
    p.diagnostics.Perm
      ((trees.zipIdx.flatMap fun (_, i) => sentTo p trees i) ++ outside p trees) := by
  have known : ∀ d ∈ p.diagnostics, ∀ i, destination (rootSpans trees) d = some i →
      i ∈ List.range trees.length := by
    intro d _ i sent
    obtain ⟨origin, tree, found, _⟩ := exists_of_destination sent
    exact List.mem_range.mpr (List.getElem?_eq_some_iff.mp found).1
  have parted := perm_flatMap_filter_append List.nodup_range known
  rw [List.range_eq_range', ← List.zipIdx_map_snd 0 trees, List.flatMap_map] at parted
  exact parted

section Written

variable (written : ∀ origin tree, (origin, tree) ∈ trees → tree.RootWritten)
include written

theorem unattached_root {r : AnalyzedRoot} (member : r ∈ (ofTrees p trees).roots) :
    r.correlation.unattached = [] := by
  rw [ofTrees_roots] at member
  obtain ⟨⟨⟨origin, tree⟩, i⟩, listed, rfl⟩ := List.mem_map.mp member
  have found := List.mem_zipIdx_iff_getElem?.mp listed
  refine Correlation.unattached_eq_nil (written origin tree (List.mem_of_getElem? found)) ?_
  intro d sent
  obtain ⟨origin', tree', found', around⟩ := mem_sentTo sent
  obtain ⟨rfl, rfl⟩ := Prod.mk.inj (Option.some.inj (found.symm.trans found'))
  exact around

theorem unattached_perm_outside : (ofTrees p trees).unattached.Perm (outside p trees) := by
  have none : ((ofTrees p trees).roots.flatMap fun root => root.correlation.unattached) = [] :=
    List.flatMap_eq_nil_iff.mpr fun r member => unattached_root written member
  rw [ofTrees_unattached, none, List.append_nil]
  exact List.mergeSort_perm _ _

theorem attached_perm_sentTo :
    ((ofTrees p trees).roots.flatMap fun r => r.correlation.attached.map Prod.snd).Perm
      (trees.zipIdx.flatMap fun (_, i) => sentTo p trees i) := by
  have empty := fun r => unattached_root (p := p) (r := r) written
  rw [ofTrees_roots] at empty ⊢
  rw [List.flatMap_map]
  refine List.Perm.flatMap_left _ fun entry listed => ?_
  have kept := Correlation.perm_attached_append_unattached entry.1.2 (sentTo p trees entry.2)
  have none := empty _ (List.mem_map_of_mem listed)
  rw [none, List.append_nil] at kept
  exact kept.symm

theorem ofTrees_conserves : p.diagnostics.Perm
    (((ofTrees p trees).roots.flatMap fun r => r.correlation.attached.map Prod.snd) ++
      (ofTrees p trees).unattached) :=
  (perm_flatMap_sentTo p trees).trans
    ((attached_perm_sentTo written).symm.append (unattached_perm_outside written).symm)

theorem mem_unattached_iff : d ∈ (ofTrees p trees).unattached ↔
    d ∈ p.diagnostics ∧
      ∀ r ∈ (ofTrees p trees).roots, (r.tree.spanOf r.tree.root).contains d.span = false := by
  rw [(unattached_perm_outside written).mem_iff, outside, List.mem_filter,
    Option.isNone_iff_eq_none, destination_eq_none_iff, ofTrees_roots]
  refine and_congr_right fun _ => ?_
  constructor
  · intro none r member
    obtain ⟨⟨⟨origin, tree⟩, i⟩, listed, rfl⟩ := List.mem_map.mp member
    exact none origin tree (List.mem_of_getElem? (List.mem_zipIdx_iff_getElem?.mp listed))
  · intro none origin tree member
    obtain ⟨i, found⟩ := List.mem_iff_getElem?.mp member
    have listed : ((origin, tree), i) ∈ trees.zipIdx := List.mem_zipIdx_iff_getElem?.mpr found
    exact none _ (List.mem_map_of_mem listed)

end Written

/-- The trees of the roots of a program, with the nodes they were built for. -/
def treesOf (p : Program) (options : LoweringOptions) : List (SyntaxId × OperationTree) :=
  p.roots.filterMap fun id => (p.tree? options id).map (id, ·)

theorem of_pending (p : Program) (options : LoweringOptions) :
    of p options .pending = .ok (ofTrees p (treesOf p options)) := by
  have built : build p options .pending = .ok (treesOf p options) := by
    have each : (p.roots.mapM fun id => do
        let tree ← p.build options .pending id
        return tree.map fun tree => (id, tree)) =
        (.ok (p.roots.map fun id => (p.tree? options id).map (id, ·)) : Except Cancelled _) :=
      List.mapM_pure
    rw [build, each]
    exact congrArg Except.ok List.filterMap_map
  rw [of, built]
  rfl

theorem treesOf_rootWritten {origin : SyntaxId} {tree : OperationTree}
    (member : (origin, tree) ∈ treesOf p options) : tree.RootWritten := by
  obtain ⟨id, listed, made⟩ := List.mem_filterMap.mp member
  obtain ⟨built, found, same⟩ := Option.map_eq_some_iff.mp made
  obtain ⟨rfl, rfl⟩ := Prod.mk.inj same
  exact Program.tree?_rootWritten listed found

/-- An analysis keeps every diagnostic of its program as often as it was reported: in the tree of
one root, or outside of all when no root contains it. No tree sends back what it was given. -/
theorem diagnostics_conserved (p : Program) (options : LoweringOptions) :
    ∃ a, of p options .pending = .ok a ∧
      p.diagnostics.Perm
        ((a.roots.flatMap fun r => r.correlation.attached.map Prod.snd) ++ a.unattached) ∧
      (∀ d, d ∈ a.unattached ↔ d ∈ p.diagnostics ∧
        ∀ r ∈ a.roots, (r.tree.spanOf r.tree.root).contains d.span = false) ∧
      ∀ r ∈ a.roots, r.correlation.unattached = [] := by
  have written : ∀ origin tree, (origin, tree) ∈ treesOf p options → tree.RootWritten :=
    fun _ _ => treesOf_rootWritten
  exact ⟨ofTrees p (treesOf p options), of_pending p options, ofTrees_conserves written,
    fun _ => mem_unattached_iff written, fun _ => unattached_root written⟩

end Analysis

end SemanticTrees
