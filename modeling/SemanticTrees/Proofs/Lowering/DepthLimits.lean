import SemanticTrees.Proofs.Lowering.Sorting
import SemanticTrees.Proofs.Lowering.Visits
import SemanticTrees.Proofs.Operation.Pruning

/-! Limits of depth. Two runs of lowering that differ in their limits alone go together until the
smaller one is used up; there the first run adds a placeholder, and whatever the second one adds
stands where the placeholder does. So the tree of the smaller limit is pruned from the other one. -/
namespace SemanticTrees.Program

open Lowering

variable {p : Program} {o o' : LoweringOptions} {id : SyntaxId} {w : Stores}

/-- The walk does the same for calls that are alike. -/
theorem run_couples_self {K : Coupling .identity} (depth : Nat) {call call' : Call}
    (alike : call.Alike .identity call') :
    K.Couples w (p.run o depth call) (p.run o depth call')
      (K.link (p.resultSort call.role call.node)) :=
  run_couples (o := o) p.translates_refl rfl rfl (fun same => same)
    (fun _ _ _ (_ : True) _ => trivial)
    (fun _ _ _ alike _ => run_zero_couples p.translates_refl rfl rfl alike) depth call call' trivial
    alike w

/-- The walk gives an operation that stands where the node is expected. -/
theorem run_sorted (p : Program) (o : LoweringOptions) (depth : Nat) (call : Call) (s : Store) :
    ∃ operation, ((p.run o depth call).run s).2.get? ((p.run o depth call).run s).1 =
      some operation ∧ (p.resultSort call.role call.node).admits operation.kind = true := by
  have same : call.Alike .identity call := ⟨rfl, rfl, fun _ => call.scope.alike_refl⟩
  have coupled : (Coupling.uncut .identity).Couples ⟨s, s⟩ (p.run o depth call) (p.run o depth call)
      _ := run_couples_self depth same
  obtain ⟨_, _, linked⟩ := coupled ⟨s, s⟩ (.refl _) trivial
  obtain ⟨operation, _, found, _⟩ := Corresponds.exists_found linked
  exact ⟨operation, found, Corresponds.admits linked found⟩

/-- Where the levels are used up, the walk gives a placeholder of the category that is expected. -/
theorem run_zero_placeholder (p : Program) (o : LoweringOptions) (call : Call) (s : Store) :
    ∃ operation, ((p.run o 0 call).run s).2.get? ((p.run o 0 call).run s).1 = some operation ∧
      operation.kind = .bare call.role := by
  obtain ⟨scope, role, id⟩ := call
  cases role with
  | expression => exact ⟨_, get?_emit s _, rfl⟩
  | statement => exact ⟨_, get?_emit s _, rfl⟩

theorem role?_resultSort (p : Program) (role : Role) (id : SyntaxId) :
    (p.resultSort role id).role? = some role := by
  cases role with
  | expression => rfl
  | statement =>
    rw [resultSort, statementSort.eq_def]
    split <;> rfl

/-- A run that has used up its levels is cut off where another one goes on. -/
theorem run_cuts_off (gap : Nat) {call call' : Call} (alike : call.Alike .identity call') :
    (Coupling.matching .identity Operation.CutsOff).Couples w (p.run o 0 call) (p.run o' gap call')
      ((Coupling.matching .identity Operation.CutsOff).link (p.resultSort call.role call.node)) := by
  intro v _ _
  obtain ⟨placeholder, found, kind⟩ := run_zero_placeholder p o call v.first
  obtain ⟨operation, found', fits'⟩ := run_sorted p o' gap call' v.second
  have sorted := run_sorted p o 0 call v.first
  have same : call'.node = call.node := alike.nodes.symm
  rw [alike.role, same] at fits'
  have role : operation.role = call.role :=
    OperationSort.role_of_admits fits' (role?_resultSort p call.role call.node)
  have fits : (p.resultSort call.role call.node).admits placeholder.kind = true := by
    obtain ⟨_, known, fits⟩ := sorted
    obtain rfl := Option.some.inj (found.symm.trans known)
    exact fits
  refine ⟨⟨walk_extends p o 0 v.first _ _ _, walk_extends p o' gap v.second _ _ _⟩, trivial, ?_⟩
  exact .cut found found' fits fits' (by rw [Operation.CutsOff, role, kind])

/-- With a larger limit, a root is lowered alike apart from what is cut off. -/
theorem lowerRoot_couples_of_le (p : Program) (o : LoweringOptions) (id : SyntaxId) {d d' : Nat}
    (le : d ≤ d') :
    (Coupling.matching .identity Operation.CutsOff).Couples ⟨.empty, .empty⟩
      ((p.rootContext { o with maxDepth := d } id).lowerRoot id)
      ((p.rootContext { o with maxDepth := d' } id).lowerRoot id)
      ((Coupling.matching .identity Operation.CutsOff).link? (p.rootSort id)) := by
  obtain ⟨gap, rfl⟩ := Nat.exists_eq_add_of_le le
  exact lowerRoot_couples_of_limit p.translates_refl rfl rfl (fun same => same) rfl
    (fun _ _ => trivial) (fun _ _ _ (_ : True) _ => trivial)
    (fun _ _ _ alike _ => run_cuts_off gap alike) (p.rootScope id).alike_refl rfl

/-- A call of the walk for one of the visits of a root. -/
def Visited (p : Program) (o : LoweringOptions) (root : SyntaxId) (depth : Nat) (call : Call) :
    Prop :=
  ∃ way, p.Visits o root ⟨depth, way, call.role, call.node⟩ ∧ call.scope = way.scope p root

theorem visited_of_root {part : Part} (listed : part ∈ (p.rootContext o id).rootParts id) :
    p.Visited o id o.maxDepth ((p.rootContext o id).call part) :=
  ⟨[part.passage], .root listed, rfl⟩

theorem Visited.down {depth : Nat} {call part : Call} (visited : p.Visited o id (depth + 1) call)
    (listed : part ∈ p.callsOf o depth call) : p.Visited o id depth part := by
  obtain ⟨scope, role, node⟩ := call
  obtain ⟨way, visit, rfl⟩ := visited
  obtain ⟨part, found, rfl⟩ := List.mem_map.mp listed
  have inSwitch : (way.scope p id).innermostSwitch.isSome = way.sections?.isSome := by
    rw [Way.innermostSwitch_scope, Option.isSome_map]
  have same : (p.contextAt o depth (way.scope p id)).parts way.sections?.isSome role node =
      (p.rootContext o id).parts way.sections?.isSome role node :=
    Context.parts_congr (by rfl) _ role node
  rw [inSwitch, same] at found
  exact ⟨part.passage :: way, .part visit found, rfl⟩

theorem Visited.depth_ne_zero {depth : Nat} {call : Call} (visited : p.Visited o id depth call)
    (unreached : ∀ visit, p.Visits o id visit → visit.depth ≠ 0) : depth ≠ 0 := by
  obtain ⟨way, visit, _⟩ := visited
  exact unreached _ visit

/-- With a larger limit, a root is lowered the same when the smaller one is never used up. -/
theorem lowerRoot_couples_of_unreached {d d' : Nat} (le : d ≤ d')
    (unreached : ∀ visit, p.Visits { o with maxDepth := d } id visit → visit.depth ≠ 0) :
    Coupling.lockstep.Couples ⟨.empty, .empty⟩
      ((p.rootContext { o with maxDepth := d } id).lowerRoot id)
      ((p.rootContext { o with maxDepth := d' } id).lowerRoot id)
      (Coupling.lockstep.link? (p.rootSort id)) := by
  obtain ⟨gap, rfl⟩ := Nat.exists_eq_add_of_le le
  refine lowerRoot_couples_of_limit p.translates_refl rfl rfl (fun same => same) rfl
    (fun _ listed => visited_of_root listed) (fun _ _ _ visited listed => visited.down listed) ?_
    (p.rootScope id).alike_refl rfl
  exact fun _ _ visited => absurd rfl (visited.depth_ne_zero unreached)

/-- No limit is used up when a list without used up levels has the levels of the root and, with those
of a node, the levels of its parts. -/
theorem Visits.depth_ne_zero_of_levels {visit : Visit} (visited : p.Visits o id visit)
    (levels : List (Role × SyntaxId × Nat)) (left : ∀ level ∈ levels, level.2.2 ≠ 0)
    (start : ∀ part ∈ (p.rootContext o id).rootParts id, (part.role, part.node, o.maxDepth) ∈ levels)
    (down : ∀ level ∈ levels, ∀ inSwitch,
      ∀ part ∈ (p.rootContext o id).parts inSwitch level.1 level.2.1,
        (part.role, part.node, level.2.2 - 1) ∈ levels) : visit.depth ≠ 0 := by
  suffices listed : (visit.role, visit.node, visit.depth) ∈ levels from left _ listed
  induction visited with
  | root listed => exact start _ listed
  | part _ listed ih => exact down _ ih _ _ listed

/-- The tree that is built with a smaller limit of depth is pruned from the tree that is built with a
larger one, and it is the same tree when the smaller limit is never reached. -/
theorem tree?_prunes (p : Program) (o : LoweringOptions) (id : SyntaxId) {d d' : Nat}
    (le : d ≤ d') :
    Option.Rel (fun small big => ∃ cuts, OperationTree.Prunes small big cuts)
        (p.tree? { o with maxDepth := d } id) (p.tree? { o with maxDepth := d' } id) ∧
      ((∀ visit, p.Visits { o with maxDepth := d } id visit → visit.depth ≠ 0) →
        p.tree? { o with maxDepth := d } id = p.tree? { o with maxDepth := d' } id) := by
  refine ⟨?_, fun unreached => tree?_eq_of_lockstep (lowerRoot_couples_of_unreached le unreached)⟩
  have trees := tree?_corresponds (fun _ _ f g cut => cut.mapChildren f g)
    (lowerRoot_couples_of_le p o id le)
  exact rel_imp (fun _ _ related => ⟨_, OperationTree.prunes_of_corresponds related⟩) trees

/-- A sum of a number and another sum. -/
def nestedSum : Program :=
  { empty "nested" with
    nodes := #[⟨.zero, .literal "1"⟩, ⟨.zero, .literal "2"⟩, ⟨.zero, .literal "3"⟩,
      ⟨.zero, .binary .multiply 1 2⟩, ⟨.zero, .binary .add 0 3⟩] }

theorem nestedSum_prunes :
    (∃ small big, nestedSum.tree? { maxDepth := 1 } 4 = some small ∧
      nestedSum.tree? { maxDepth := 3 } 4 = some big ∧ small.size = 3 ∧ big.size = 5 ∧
      ∃ cuts, small.Prunes big cuts) ∧
    nestedSum.tree? { maxDepth := 3 } 4 = nestedSum.tree? { maxDepth := 9 } 4 := by
  refine ⟨⟨_, _, rfl, rfl, by cbv, by cbv, ?_⟩, ?_⟩
  · have pruned : Option.Rel _ (some _) (some _) :=
      (tree?_prunes nestedSum {} 4 (show 1 ≤ 3 by decide)).1
    cases pruned with
    | some cuts => exact cuts
  · refine (tree?_prunes nestedSum {} 4 (show 3 ≤ 9 by decide)).2 fun visit visited => ?_
    exact visited.depth_ne_zero_of_levels
      [(.expression, 4, 3), (.expression, 0, 2), (.expression, 3, 2), (.expression, 1, 1),
        (.expression, 2, 1)] (by decide) (by decide) (by decide)

end SemanticTrees.Program
