import SemanticTrees.Proofs.Analysis.Dispatch
import SemanticTrees.Proofs.Correlation.Order

/-! An analysis does not depend on the order in which diagnostics are reported: the trees are built
without looking at them, each root is sent the same ones, and every list of them is sorted. -/
namespace SemanticTrees

/-- A root whose tree names another program. -/
def AnalyzedRoot.within (r : AnalyzedRoot) (p : Program) : AnalyzedRoot :=
  { r with tree := r.tree.within p }

namespace Analysis

variable {p : Program} {options : LoweringOptions} {ds : List Diagnostic}
  {trees : List (SyntaxId × OperationTree)} {i : Nat}

/-- Trees that name another program. -/
def treesWithin (p : Program) (trees : List (SyntaxId × OperationTree)) :
    List (SyntaxId × OperationTree) :=
  trees.map fun (origin, tree) => (origin, tree.within p)

theorem treesOf_reporting (p : Program) (options : LoweringOptions) (ds : List Diagnostic) :
    treesOf (p.reporting ds) options = treesWithin (p.reporting ds) (treesOf p options) := by
  rw [treesOf, treesWithin, treesOf, Program.roots_reporting, List.map_filterMap]
  refine List.filterMap_congr fun id _ => ?_
  rw [Program.tree?_reporting, Option.map_map, Option.map_map]
  rfl

theorem zipIdx_treesWithin (p : Program) (trees : List (SyntaxId × OperationTree)) :
    (treesWithin p trees).zipIdx =
      trees.zipIdx.map fun ((origin, tree), i) => ((origin, tree.within p), i) :=
  List.zipIdx_map

theorem rootSpans_treesWithin (p : Program) (trees : List (SyntaxId × OperationTree)) :
    rootSpans (treesWithin p trees) = rootSpans trees := by
  rw [rootSpans, zipIdx_treesWithin, List.map_map]
  rfl

section Permuted

variable (perm : p.diagnostics.Perm ds)
include perm

theorem sentTo_perm : (sentTo p trees i).Perm
    (sentTo (p.reporting ds) (treesWithin (p.reporting ds) trees) i) := by
  rw [sentTo, sentTo, rootSpans_treesWithin]
  exact perm.filter _

theorem outside_perm : (outside p trees).Perm
    (outside (p.reporting ds) (treesWithin (p.reporting ds) trees)) := by
  rw [outside, outside, rootSpans_treesWithin]
  exact perm.filter _

theorem roots_of_perm :
    (ofTrees (p.reporting ds) (treesWithin (p.reporting ds) trees)).roots =
      (ofTrees p trees).roots.map (AnalyzedRoot.within · (p.reporting ds)) := by
  rw [ofTrees_roots, ofTrees_roots, zipIdx_treesWithin, List.map_map, List.map_map]
  refine List.map_congr_left fun ⟨⟨origin, tree⟩, i⟩ _ => ?_
  refine congrArg (AnalyzedRoot.mk origin (tree.within (p.reporting ds))) ?_
  rw [Correlation.of_within]
  exact Correlation.of_perm tree (sentTo_perm perm).symm

theorem unattached_of_perm :
    (ofTrees (p.reporting ds) (treesWithin (p.reporting ds) trees)).unattached =
      (ofTrees p trees).unattached := by
  rw [ofTrees_unattached, ofTrees_unattached, roots_of_perm perm, List.flatMap_map]
  exact Diagnostic.sort_eq_of_perm ((outside_perm perm).symm.append (.refl _))

end Permuted

/-- Neither a correlation nor an analysis depends on the order of the diagnostics. The trees of the
two analyses are the same but for the program that they name. -/
theorem diagnostic_order_irrelevant (t : OperationTree) (p : Program) (options : LoweringOptions)
    {ds es fs : List Diagnostic} (perm : ds.Perm es) (reported : p.diagnostics.Perm fs) :
    Correlation.of t ds = Correlation.of t es ∧
    ∃ a b, of p options .pending = .ok a ∧
      of { p with diagnostics := fs } options .pending = .ok b ∧
      b.roots = a.roots.map
        (fun r => { r with tree := { r.tree with program := { p with diagnostics := fs } } }) ∧
      b.unattached = a.unattached := by
  refine ⟨Correlation.of_perm t perm, ofTrees p (treesOf p options),
    ofTrees (p.reporting fs) (treesOf (p.reporting fs) options), of_pending p options,
    of_pending (p.reporting fs) options, ?_, ?_⟩
  · rw [treesOf_reporting]
    exact roots_of_perm reported
  · rw [treesOf_reporting]
    exact unattached_of_perm reported

/-- An error in the value of a property. -/
def wrongValue : Diagnostic := ⟨⟨4, 5⟩, "wrong value", .error, 1⟩

/-- A warning about a property. -/
def poorName : Diagnostic := ⟨⟨0, 5⟩, "poor name", .warning, 2⟩

/-- A property with a value, and two diagnostics. -/
def criticized : Program :=
  { Program.empty "criticized" with
    nodes := #[⟨⟨4, 5⟩, .literal "1"⟩, ⟨⟨0, 5⟩, .property "p" (some 0)⟩]
    symbols := #[.plain "p" .property none]
    facts := Std.TreeMap.empty.insert 1 { Facts.unknown with symbol := some 0 }
    members := [1]
    diagnostics := [wrongValue, poorName] }

theorem criticized_order_irrelevant :
    ∃ t, criticized.build {} .pending 1 = .ok (some t) ∧
      Correlation.of t [wrongValue, poorName] = Correlation.of t [poorName, wrongValue] ∧
      ∃ a b, of criticized {} .pending = .ok a ∧
        of { criticized with diagnostics := [poorName, wrongValue] } {} .pending = .ok b ∧
        b.roots = a.roots.map (fun r => { r with tree := { r.tree with
          program := { criticized with diagnostics := [poorName, wrongValue] } } }) ∧
        b.unattached = a.unattached :=
  ⟨_, rfl, diagnostic_order_irrelevant _ criticized {} (.swap _ _ _) (.swap _ _ _)⟩

end Analysis

end SemanticTrees
