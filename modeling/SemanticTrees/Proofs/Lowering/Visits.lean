import SemanticTrees.Proofs.Lowering.Closure
import SemanticTrees.Proofs.Lowering.Scopes

/-! Visits: the runs of the walk while a root is lowered, each with the way that led to it. They
follow the parts of nodes alone. The walk is run for every visit, in the surroundings that its way
has, and whatever it adds is still there when the root is done. -/
namespace SemanticTrees

/-- A run of the walk: how many nested nodes it may still lower, the way from the root, and the node
with its role. -/
structure Visit where
  depth : Nat
  way : Way
  role : Role
  node : SyntaxId

/-- The lowering of the node of a visit in the surroundings that its way has. -/
def Visit.lowering (visit : Visit) (p : Program) (options : LoweringOptions) (root : SyntaxId) :
    Lowering OperationId :=
  walk p options visit.depth (visit.way.scope p root) visit.role visit.node

namespace Program

/-- The walk comes to a node while a root is lowered. -/
inductive Visits (p : Program) (options : LoweringOptions) (root : SyntaxId) : Visit → Prop
  | root {part : Part} (listed : part ∈ (p.rootContext options root).rootParts root) :
      Visits p options root ⟨options.maxDepth, [part.passage], part.role, part.node⟩
  | part {depth : Nat} {way : Way} {role : Role} {id : SyntaxId} {part : Part}
      (above : Visits p options root ⟨depth + 1, way, role, id⟩)
      (listed : part ∈ (p.rootContext options root).parts way.sections?.isSome role id) :
      Visits p options root ⟨depth, part.passage :: way, part.role, part.node⟩

variable {p : Program} {options : LoweringOptions} {root : SyntaxId} {visit : Visit}

/-- The store that lowering a root fills. -/
def rootStore (p : Program) (options : LoweringOptions) (root : SyntaxId) : Store :=
  (((p.rootContext options root).lowerRoot root).run Store.empty).2

/-- A visit is lowered to an operation: the walk returns it, and its store only grows until the root
is done. -/
def Lowers (p : Program) (options : LoweringOptions) (root : SyntaxId) (visit : Visit)
    (i : OperationId) : Prop :=
  ∃ s, ((visit.lowering p options root).run s).1 = i ∧
    ((visit.lowering p options root).run s).2.Extends (p.rootStore options root)

/-- Every visit is lowered. -/
theorem Visits.exists_run (visited : p.Visits options root visit) :
    ∃ s, ((visit.lowering p options root).run s).2.Extends (p.rootStore options root) := by
  induction visited with
  | @root part listed =>
    have known : Vocabulary.all.nodes root := trivial
    have trail := Context.lowerRoot_walks (c := p.rootContext options root) p.supplies_all known
      Store.empty
    obtain ⟨s, _, after⟩ := trail.exists_run (walk_extends p options options.maxDepth)
      (List.mem_map_of_mem listed)
    exact ⟨s, after⟩
  | @part depth way role id part _ listed ih =>
    obtain ⟨s, after⟩ := ih
    have known : Vocabulary.all.nodes id := trivial
    have trail := walk_trail options p.supplies_all depth (way.scope p root) role known s
    have inSwitch : way.sections?.isSome = (way.scope p root).innermostSwitch.isSome := by
      rw [Way.innermostSwitch_scope, Option.isSome_map]
    have same : (p.rootContext options root).parts way.sections?.isSome role id =
        (p.contextAt options depth (way.scope p root)).parts way.sections?.isSome role id :=
      Context.parts_congr (by rfl) _ role id
    rw [same, inSwitch] at listed
    obtain ⟨middle, _, later⟩ := trail.exists_run (walk_extends p options depth)
      (List.mem_map_of_mem listed)
    exact ⟨middle, later.trans after⟩

theorem Visits.exists_lowers (visited : p.Visits options root visit) :
    ∃ i, p.Lowers options root visit i := by
  obtain ⟨s, after⟩ := visited.exists_run
  exact ⟨_, s, rfl, after⟩

end Program

end SemanticTrees
