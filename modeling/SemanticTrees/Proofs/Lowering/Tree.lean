import SemanticTrees.Proofs.Lowering.Statements

/-! Trees of lowered roots. The store that lowering a root fills is a forest in which only the
operation of the root is still unused, so closing it gives a tree, whatever was lowered and
dropped on the way. -/
namespace SemanticTrees.Program

open Lowering

variable {p : Program} {options : LoweringOptions} {id : SyntaxId} {t : OperationTree}

theorem rootContext_fresh (p : Program) (options : LoweringOptions) (id : SyntaxId) :
    (p.rootContext options id).WalksFresh :=
  walk_fresh p options options.maxDepth

/-- A tree is the closed store of a root that was lowered to an operation. -/
theorem tree?_eq_some (built : p.tree? options id = some t) :
    ∃ root s, ((p.rootContext options id).lowerRoot id).run Store.empty = (some root, s) ∧
      t = s.finish p root := by
  unfold tree? at built
  split at built
  · next root s run => exact ⟨root, s, run, (Option.some.inj built).symm⟩
  · contradiction

theorem tree?_compact (built : p.tree? options id = some t) : t.Compact := by
  obtain ⟨root, s, run, rfl⟩ := tree?_eq_some built
  have forest := (rootContext_fresh p options id).lowerRoot id Store.empty [] .empty
  rw [run] at forest
  obtain ⟨place, compacts⟩ := s.finish_compacts p root
  exact compacts.compact forest

theorem program_finish (s : Store) (p : Program) (root : OperationId) :
    (s.finish p root).program = p := by
  unfold Store.finish
  dsimp only
  split <;> rfl

theorem program_of_tree? (built : p.tree? options id = some t) : t.program = p := by
  obtain ⟨root, s, _, rfl⟩ := tree?_eq_some built
  exact program_finish s p root

theorem build_eq_ok (built : p.build options .pending id = .ok (some t)) :
    p.tree? options id = some t :=
  Except.ok.inj built

/-- Every tree that is built has its operations in the slots of one another just as a tree has. -/
theorem build_isTree (built : p.build options .pending id = .ok (some t)) : t.IsTree :=
  (tree?_compact (build_eq_ok built)).isTree

/-- The sum of a node and itself. The node takes a variable as a member of a literal, so lowering
it leaves the literal behind, twice. -/
def sharedSum : Program :=
  { empty "shared" with
    nodes := #[⟨.zero, .literal "1"⟩, ⟨.zero, .memberAccess 0 "x" []⟩, ⟨.zero, .binary .add 1 1⟩]
    symbols := #[.plain "x" .localVariable none]
    facts := Std.TreeMap.empty.insert 1 { Facts.unknown with symbol := some 0 } }

theorem sharedSum_isTree :
    ∃ t, sharedSum.build {} .pending 2 = .ok (some t) ∧ t.size = 3 ∧ t.IsTree :=
  ⟨_, rfl, by cbv, build_isTree (show sharedSum.build {} .pending 2 = .ok (some _) from rfl)⟩

end SemanticTrees.Program
