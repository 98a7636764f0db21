import SemanticTrees.Proofs.Analysis.Dispatch
import SemanticTrees.Proofs.Lowering.Termination
import SemanticTrees.Proofs.Operation.Depth
import SemanticTrees.Proofs.Program.WellFormed

/-! Analyses end. For a valid program every recursion of an analysis comes to an end, be it guarded
by the depth limit or not, and the only error that there is, that of a build which was given up,
does not come up. -/
namespace SemanticTrees

variable {p : Program}

namespace Program

/-- What an analysis of a program runs ends, with what its functions give. Of the walk this says
that it is called finitely often and comes back with an operation every time. -/
structure Terminates (p : Program) (options : LoweringOptions) : Prop where
  roots : ∀ declaration, p.CollectsRoots declaration (p.rootsIn declaration)
  visits : ∀ root, {visit | p.Visits options root visit}.Finite
  nesting : ∀ root visit, p.Visits options root visit →
    visit.way.length + visit.depth = options.maxDepth + 1
  lowered : ∀ root visit, p.Visits options root visit → ∃ i, p.Lowers options root visit i
  callee : ∀ c : Context, c.program = p → ∀ callee,
    c.TestsCallee callee (c.isDynamicCallee p.nodes.size callee)
  parentheses : ∀ c : Context, c.program = p → ∀ id,
    p.Strips id (c.unparenthesized p.nodes.size id)
  depths : ∀ root t, p.tree? options root = some t →
    t.CountsDepths 0 t.root (t.depthsBelow t.size 0 t.root)
  build : ∀ root, p.build options .pending root = .ok (p.tree? options root)
  buildDeclaration : ∀ declaration, p.buildDeclaration options .pending declaration =
    .ok ((p.rootsIn declaration).filterMap (p.tree? options))
  analysis : Analysis.of p options .pending =
    .ok (Analysis.ofTrees p (Analysis.treesOf p options))

theorem buildDeclaration_pending (p : Program) (options : LoweringOptions) (id : SyntaxId) :
    p.buildDeclaration options .pending id = .ok ((p.rootsIn id).filterMap (p.tree? options)) := by
  have each : (p.rootsIn id).mapM (p.build options .pending) =
      (.ok ((p.rootsIn id).map (p.tree? options)) : Except Cancelled _) := List.mapM_pure
  rw [buildDeclaration, each]
  exact congrArg Except.ok List.filterMap_map

/-- Whatever the facts of a valid program record, an analysis of it ends without an error. -/
theorem analysis_terminates (valid : p.validate = .ok ()) (options : LoweringOptions) :
    p.Terminates options := by
  have acyclic : p.Acyclic := (fault?_eq_none_iff.mp (validate_eq_ok_iff.mp valid)).acyclic
  constructor
  · intro declaration
    exact collectsRoots_rootsBelow (acyclic.shallow declaration) (Nat.lt_succ_self _)
  · exact finite_visits p options
  · intro root visit visited
    exact visited.length_add_depth
  · intro root visit visited
    exact visited.exists_lowers
  · rintro c rfl callee
    exact Context.testsCallee_isDynamicCallee (acyclic.shallow callee) (Nat.le_refl _)
  · rintro c rfl id
    exact Context.strips_unparenthesized (acyclic.shallow id) (Nat.le_refl _)
  · intro root t built
    have compact := tree?_compact built
    exact compact.countsDepths (compact.last ▸ Nat.lt_succ_self t.root)
  · intro root
    rfl
  · exact buildDeclaration_pending p options
  · exact Analysis.of_pending p options

/-- A call whose arguments are bound to the call itself and to the parentheses around it. -/
def selfBoundCall : Program :=
  { empty "bound" with
    nodes := #[⟨.zero, .identifier "f"⟩, ⟨.zero, .invocation 0 []⟩, ⟨.zero, .parenthesized 1⟩,
      ⟨.zero, .property "P" (some 2)⟩]
    symbols := #[.plain "f" .method none, .plain "x" .parameter none]
    members := [3]
    facts := Std.TreeMap.empty.insert 1 { Facts.unknown with
      resolution := some (.resolved 0 [⟨1, .explicit, some 1⟩, ⟨1, .explicit, some 2⟩]) } }

theorem selfBoundCall_terminates :
    selfBoundCall.validate = .ok () ∧ 3 ∈ selfBoundCall.roots ∧
      selfBoundCall.Terminates { maxDepth := 6 } :=
  ⟨rfl, by decide, analysis_terminates rfl { maxDepth := 6 }⟩

end Program

end SemanticTrees
