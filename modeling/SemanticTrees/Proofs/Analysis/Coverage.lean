import SemanticTrees.Proofs.Analysis.Termination

/-! No root is lost. Collecting the roots asks for the form of a declaration and for what is written
with it, lowering a root asks for its symbol as well; a root that was collected is lowered to an
operation all the same, so an analysis has a tree for each of them, in the order in which they were
collected. -/
namespace SemanticTrees

namespace Program

variable {p : Program} {options : LoweringOptions} {id declaration : SyntaxId}

/-- What was collected as a root has a tree, whichever declaration it was collected for. -/
theorem exists_build_of_mem_rootsIn (options : LoweringOptions) (member : id ∈ p.rootsIn declaration) :
    ∃ t, p.build options .pending id = .ok (some t) := by
  obtain ⟨form, known, analysed⟩ := form_of_mem_rootsBelow member
  have written : Lowering.Yields ((p.rootContext options id).lowerRoot id) _ :=
    lowerRoot_written known analysed
  obtain ⟨root, lowered, _⟩ := written Store.empty
  have built : p.build options .pending id = .ok (p.tree? options id) := rfl
  rw [built]
  unfold tree?
  split
  · next other store run => exact ⟨store.finish p other, rfl⟩
  · next store run =>
    rw [run] at lowered
    contradiction

theorem exists_build_of_mem_roots (options : LoweringOptions) (member : id ∈ p.roots) :
    ∃ t, p.build options .pending id = .ok (some t) := by
  obtain ⟨declaration, _, below⟩ := List.mem_flatMap.mp member
  exact exists_build_of_mem_rootsIn options below

/-- Of nodes that all have trees no tree is left out. -/
theorem forall₂_build {ids : List SyntaxId}
    (built : ∀ id ∈ ids, ∃ t, p.build options .pending id = .ok (some t)) :
    List.Forall₂ (fun id t => p.build options .pending id = .ok (some t)) ids
      (ids.filterMap (p.tree? options)) := by
  induction ids with
  | nil => exact .nil
  | cons id rest ih =>
    obtain ⟨t, made⟩ := built id List.mem_cons_self
    rw [List.filterMap_cons_some (build_eq_ok made)]
    refine List.Forall₂.cons made (ih ?_)
    exact fun other listed => built other (List.mem_cons_of_mem id listed)

end Program

namespace Analysis

open Program

variable {p : Program} {options : LoweringOptions}

theorem map_origin_ofTrees (p : Program) (trees : List (SyntaxId × OperationTree)) :
    (ofTrees p trees).roots.map AnalyzedRoot.origin = trees.map Prod.fst := by
  rw [ofTrees_roots, List.map_map]
  change trees.zipIdx.map (Prod.fst ∘ Prod.fst) = _
  rw [← List.map_map, List.zipIdx_map_fst]

theorem map_fst_treesOf (p : Program) (options : LoweringOptions) :
    (treesOf p options).map Prod.fst = p.roots := by
  have each : ∀ id ∈ p.roots,
      ((p.tree? options id).map (id, ·)).map Prod.fst = some id := by
    intro id listed
    obtain ⟨t, made⟩ := exists_build_of_mem_roots options listed
    rw [build_eq_ok made]
    rfl
  rw [treesOf, List.map_filterMap, List.filterMap_congr each, List.filterMap_some]

theorem build_of_mem_ofTrees {r : AnalyzedRoot}
    (member : r ∈ (ofTrees p (treesOf p options)).roots) :
    p.build options .pending r.origin = .ok (some r.tree) := by
  rw [ofTrees_roots] at member
  obtain ⟨⟨⟨origin, tree⟩, i⟩, listed, rfl⟩ := List.mem_map.mp member
  have found := List.mem_of_getElem? (List.mem_zipIdx_iff_getElem?.mp listed)
  obtain ⟨id, _, made⟩ := List.mem_filterMap.mp found
  obtain ⟨built, same, pair⟩ := Option.map_eq_some_iff.mp made
  obtain ⟨rfl, rfl⟩ := Prod.mk.inj pair
  exact congrArg Except.ok same

/-- Every root that is collected has a tree. So the roots of an analysis are the roots of the
program, in the same order and as often, and building a declaration gives the tree of each root in
it. -/
theorem roots_covered (p : Program) (options : LoweringOptions) :
    (∀ id ∈ p.roots, ∃ t, p.build options .pending id = .ok (some t)) ∧
      (∃ a, of p options .pending = .ok a ∧ a.roots.map AnalyzedRoot.origin = p.roots ∧
        ∀ r ∈ a.roots, p.build options .pending r.origin = .ok (some r.tree)) ∧
      ∀ declaration, ∃ trees, p.buildDeclaration options .pending declaration = .ok trees ∧
        List.Forall₂ (fun id t => p.build options .pending id = .ok (some t))
          (p.rootsIn declaration) trees := by
  refine ⟨fun id listed => exists_build_of_mem_roots options listed, ?_, ?_⟩
  · refine ⟨_, of_pending p options, ?_, fun r member => build_of_mem_ofTrees member⟩
    rw [map_origin_ofTrees, map_fst_treesOf]
  · intro declaration
    refine ⟨_, buildDeclaration_pending p options declaration, ?_⟩
    exact forall₂_build fun id listed => exists_build_of_mem_rootsIn options listed

end Analysis

end SemanticTrees
