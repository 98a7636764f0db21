import SemanticTrees.Proofs.Lowering.DepthLimits
import SemanticTrees.Proofs.Rendering.Equality

/-! Expressions are lowered alike wherever they stand. Neither the surroundings of an expression nor
what is in the store before it decide how it is lowered: two runs on one node add the same
operations, each from the place on where its store ends, as long as no run comes to the limit of
depth. So what is lowered of an expression anywhere is the tree that it has as a root. -/
namespace SemanticTrees

open Lowering

/-! ### Copies -/

namespace Store

variable {s s' u u' : Store} {a b : Nat} {i i' j k : OperationId} {o o' : Operation}

/-- The operations below one of a store are those below one of another store under new places, in
the same order: nothing about them differs but the places of their children. -/
structure Renumbers (place : OperationId → OperationId) (s s' : Store) (i i' : OperationId) :
    Prop where
  inside : s.Keeps i i
  top : place i = i'
  copied : ∀ j o, s.Keeps i j → s.get? j = some o → s'.get? (place j) = some (o.mapChildren place)
  onto : ∀ j', s'.Keeps i' j' → ∃ j, s.Keeps i j ∧ place j = j'
  mono : ∀ j k, s.Keeps i j → s.Keeps i k → j < k → place j < place k

/-- The place of an operation when the one at `a` stands at `b`. -/
def moved (a b : Nat) (i : OperationId) : OperationId := b + (i - a)

theorem moved_lt_moved (start : a ≤ i) (less : i < j) : moved a b i < moved a b j :=
  Nat.add_lt_add_left (Nat.sub_lt_sub_right start less) b

theorem moved_succ (start : a ≤ i) : moved a b (i + 1) = moved a b i + 1 := by
  rw [moved, moved, Nat.sub_add_comm start, Nat.add_assoc]

/-- What one store has from a place on, another one has from another place on, and the children of
these operations are among them. -/
structure Copies (a b : Nat) (s s' : Store) : Prop where
  start : a ≤ s.size
  size : s'.size = moved a b s.size
  entry : ∀ i o, a ≤ i → s.get? i = some o →
    s'.get? (moved a b i) = some (o.mapChildren (moved a b))
  closed : ∀ i o, a ≤ i → s.get? i = some o → ∀ child ∈ o.children, a ≤ child ∧ child < i

theorem Copies.refl (s s' : Store) : Copies s.size s'.size s s' where
  start := Nat.le_refl _
  size := by rw [moved, Nat.sub_self, Nat.add_zero]
  entry i _ start found := absurd (get?_lt_size found) (Nat.not_lt_of_le start)
  closed i _ start found := absurd (get?_lt_size found) (Nat.not_lt_of_le start)

namespace Copies

variable (copies : Copies a b s s')
include copies

theorem associate (node : SyntaxId) (i i' : OperationId) (node' : SyntaxId) :
    Copies a b (s.associate node i) (s'.associate node' i') :=
  ⟨copies.start, copies.size, copies.entry, copies.closed⟩

theorem add (children : ∀ child ∈ o.children, a ≤ child ∧ child < s.size) :
    Copies a b (s.add o) (s'.add (o.mapChildren (moved a b))) where
  start := by
    rw [size_add]
    exact Nat.le_succ_of_le copies.start
  size := by rw [size_add, size_add, copies.size, moved_succ copies.start]
  entry i o' start found := by
    obtain ⟨rfl, rfl⟩ | ⟨_, old⟩ := get?_add_cases found
    · rw [get?_add, if_pos copies.size.symm]
    · exact s'.extends_add _ _ _ (copies.entry i o' start old)
  closed i o' start found := by
    obtain ⟨rfl, rfl⟩ | ⟨_, old⟩ := get?_add_cases found
    · exact children
    · exact copies.closed i o' start old

section Later

variable (grown : s.Extends u) (grown' : s'.Extends u') (start : a ≤ i) (inside : i < s.size)
include grown start inside

/-- What is below an operation that is copied is copied as well, whatever is added later. -/
theorem below (keeps : u.Keeps i j) : a ≤ j ∧ j < s.size := by
  induction keeps.2 with
  | refl => exact ⟨start, inside⟩
  | @tail m n path edge ih =>
    obtain ⟨start', inside'⟩ := ih ⟨edge.1, path⟩
    obtain ⟨o, found⟩ := exists_get? inside'
    obtain ⟨o', found', listed⟩ := mem_childrenOf_iff.mp edge.2
    obtain rfl := Option.some.inj ((grown m o found).symm.trans found')
    obtain ⟨first, before⟩ := copies.closed m o start' found n listed
    exact ⟨first, before.trans inside'⟩

theorem get?_below (keeps : u.Keeps i j) (found : u.get? j = some o) : s.get? j = some o := by
  obtain ⟨_, inside'⟩ := copies.below grown start inside keeps
  obtain ⟨o', old⟩ := exists_get? inside'
  exact old.trans ((grown j o' old).symm.trans found)

include grown'

theorem renumbers : Renumbers (moved a b) u u' i (moved a b i) where
  inside := by
    obtain ⟨o, found⟩ := exists_get? inside
    exact .refl (get?_lt_size (grown i o found))
  top := rfl
  copied j o keeps found := by
    obtain ⟨start', _⟩ := copies.below grown start inside keeps
    exact grown' _ _ (copies.entry j o start' (copies.get?_below grown start inside keeps found))
  onto j' keeps' := by
    -- along the path to the copy: a child of a copy is the copy of a child
    induction keeps'.2 with
    | refl =>
      obtain ⟨o, found⟩ := exists_get? inside
      exact ⟨i, .refl (get?_lt_size (grown i o found)), rfl⟩
    | @tail m' n' path edge ih =>
      obtain ⟨m, keeps, rfl⟩ := ih ⟨edge.1, path⟩
      obtain ⟨o, found⟩ := exists_get? keeps.1
      obtain ⟨start', _⟩ := copies.below grown start inside keeps
      have old := copies.get?_below grown start inside keeps found
      obtain ⟨o', found', listed⟩ := mem_childrenOf_iff.mp edge.2
      obtain rfl := Option.some.inj
        ((grown' _ _ (copies.entry m o start' old)).symm.trans found')
      rw [Operation.children_mapChildren] at listed
      obtain ⟨n, child, rfl⟩ := List.mem_map.mp listed
      obtain ⟨_, before⟩ := copies.closed m o start' old n child
      exact ⟨n, keeps.child (mem_childrenOf_iff.mpr ⟨o, found, child⟩) (before.trans keeps.1), rfl⟩
  mono j k keeps keeps' less := moved_lt_moved (copies.below grown start inside keeps).1 less

end Later

end Copies

end Store

/-- From the given places on, the second store is a copy of the first one, and operations are linked
with their copies. -/
def Coupling.copying (a b : Nat) : Coupling .identity where
  holds w := Store.Copies a b w.first w.second
  link _ w i i' := (a ≤ i ∧ i < w.first.size) ∧ Store.moved a b i = i'
  lasts _ _ _ _ _ grown linked := by
    obtain ⟨⟨start, inside⟩, same⟩ := linked
    obtain ⟨o, found⟩ := Store.exists_get? inside
    exact ⟨⟨start, Store.get?_lt_size (grown.first _ o found)⟩, same⟩
  weaken _ linked := linked
  add := by
    intro w o o' copies alike
    have children : ∀ child ∈ o.children, a ≤ child ∧ child < w.first.size := by
      intro child listed
      obtain ⟨_, _, _, inside, _⟩ := exists_mem_of_forall₂ alike.kind.children listed
      exact inside
    -- linked children are the same once they are moved, and then so are the operations
    have same : (o.mapChildren (Store.moved a b)).Alike .identity (fun _ => Eq)
        (o'.mapChildren id) :=
      alike.mapChildren fun _ _ _ _ _ linked => linked.2
    obtain rfl := (o'.mapChildren_id).symm.trans (Operation.eq_of_alike same)
    refine ⟨copies.add children, fun _ _ => ⟨⟨copies.start, ?_⟩, copies.size.symm⟩⟩
    exact Store.get?_lt_size ((w.first.get?_add w.first.size).trans (if_pos rfl))
  associate copies _ _ := copies.associate _ _ _ _

/-! ### Runs -/

namespace Program

variable {p : Program} {o : LoweringOptions} {root root' : SyntaxId} {visit visit' : Visit}

/-- The depth suffices for a call: neither the call nor one that is made on the way comes to the
limit. -/
def Suffices (p : Program) (o : LoweringOptions) : Nat → Call → Prop
  | 0, _ => False
  | depth + 1, call => ∀ part ∈ p.callsOf o depth call, p.Suffices o depth part

instance decidableSuffices (p : Program) (o : LoweringOptions) :
    (depth : Nat) → (call : Call) → Decidable (p.Suffices o depth call)
  | 0, _ => .isFalse id
  | depth + 1, call =>
    have := decidableSuffices p o depth
    inferInstanceAs (Decidable (∀ part ∈ p.callsOf o depth call, p.Suffices o depth part))

/-- When no visit of a root comes to the limit, the depth suffices for each. -/
theorem Visited.suffices (unreached : ∀ visit, p.Visits o root visit → visit.depth ≠ 0)
    {depth : Nat} {call : Call} (visited : p.Visited o root depth call) :
    p.Suffices o depth call := by
  induction depth generalizing call with
  | zero => exact visited.depth_ne_zero unreached rfl
  | succ depth ih => exact fun part listed => ih (visited.down listed)

/-- Runs on one node are coupled where the depth suffices for both. Which of the two has more levels
left does not matter, so this is no case of `run_couples`. -/
theorem Suffices.run_couples {K : Coupling .identity} {depth depth' : Nat} {call call' : Call}
    (enough : p.Suffices o depth call) (enough' : p.Suffices o depth' call')
    (alike : call.Alike .identity call') (w : Stores) :
    K.Couples w (p.run o depth call) (p.run o depth' call')
      (K.link (p.resultSort call.role call.node)) := by
  induction depth generalizing depth' call call' w with
  | zero => exact enough.elim
  | succ depth ih =>
    cases depth' with
    | zero => exact enough'.elim
    | succ depth' =>
      refine run_succ_couples p.translates_refl rfl rfl alike (fun _ => alike.nodes) ?_
      intro part listed part' listed' alike w
      exact ih (enough part listed) (enough' part' listed') alike w

/-! ### Visits -/

/-- The call of the walk for a visit. -/
abbrev callAt (p : Program) (root : SyntaxId) (visit : Visit) : Call :=
  ⟨visit.way.scope p root, visit.role, visit.node⟩

section Visits

variable {i i' : OperationId} (enough : p.Suffices o visit.depth (p.callAt root visit))
  (enough' : p.Suffices o visit'.depth (p.callAt root' visit'))
  (alike : (p.callAt root visit).Alike .identity (p.callAt root' visit'))
  (lowered : p.Lowers o root visit i) (lowered' : p.Lowers o root' visit' i')
include enough enough' alike lowered lowered'

/-- What alike visits are lowered to is the same under new places. -/
theorem Lowers.exists_renumbers :
    ∃ place, Store.Renumbers place (p.rootStore o root) (p.rootStore o root') i i' := by
  obtain ⟨s, rfl, kept⟩ := lowered
  obtain ⟨s', rfl, kept'⟩ := lowered'
  obtain ⟨_, copies, ⟨start, inside⟩, same⟩ :=
    enough.run_couples (K := .copying s.size s'.size) enough' alike ⟨s, s'⟩ ⟨s, s'⟩ (.refl _)
      (Store.Copies.refl s s')
  have renumbers := copies.renumbers kept kept' start inside
  rw [same] at renumbers
  exact ⟨_, renumbers⟩

theorem Lowers.corresponds :
    Corresponds .identity (fun _ _ => False) (p.rootStore o root).get? (p.rootStore o root').get?
      (p.resultSort visit.role visit.node) i i' := by
  obtain ⟨s, rfl, kept⟩ := lowered
  obtain ⟨s', rfl, kept'⟩ := lowered'
  obtain ⟨_, _, related⟩ :=
    enough.run_couples (K := .uncut .identity) enough' alike ⟨s, s'⟩ ⟨s, s'⟩ (.refl _) trivial
  exact related.mono kept kept'

end Visits

/-! ### Trees -/

/-- Whatever is lowered makes a tree of its own. -/
theorem finish_rootStore_compact {i : OperationId} (inside : i < (p.rootStore o root).size) :
    ((p.rootStore o root).finish p i).Compact := by
  have forest := (rootContext_fresh p o root).lowerRoot root Store.empty [] .empty
  obtain ⟨_, compacts⟩ := (p.rootStore o root).finish_compacts p i
  exact compacts.compact_of_lt forest inside

/-- The visit of an expression that is a root. -/
abbrev rootVisit (o : LoweringOptions) (id : SyntaxId) : Visit :=
  ⟨o.maxDepth, [.plain], .expression, id⟩

/-- The tree of an expression is what is lowered of it as a root. -/
theorem exists_tree?_of_isExpression {id : SyntaxId} {form : Form} (known : p.formOf id = some form)
    (expression : form.isExpression = true) :
    p.Visits o id (rootVisit o id) ∧ ∃ i, p.Lowers o id (rootVisit o id) i ∧
      p.tree? o id = some ((p.rootStore o id).finish p i) := by
  have parts : (p.rootContext o id).rootParts id = [.expression id] := by
    unfold Context.rootParts
    rw [show (p.rootContext o id).formOf id = some form from known]
    cases form <;> first | rfl | contradiction
  have lowering : (p.rootContext o id).lowerRoot id =
      some <$> (rootVisit o id).lowering p o id := by
    unfold Context.lowerRoot
    rw [show (p.rootContext o id).formOf id = some form from known]
    cases form <;> first | rfl | contradiction
  have listed : .expression id ∈ (p.rootContext o id).rootParts id :=
    parts ▸ List.mem_cons_self
  refine ⟨.root listed, _, ⟨.empty, rfl, ?_⟩, ?_⟩
  · rw [rootStore, lowering]
    exact .refl _
  · rw [tree?, rootStore, lowering]
    rfl

/-- What is lowered to an operation compares equal to a tree, both when it is closed by itself and
where it stands in the tree of the root, if it is kept there. -/
structure ComparesEqual (p : Program) (o : LoweringOptions) (root : SyntaxId) (i : OperationId)
    (t : OperationTree) : Prop where
  alone : (Comparison.of t ((p.rootStore o root).finish p i)).divergence t.root
    ((p.rootStore o root).finish p i).root = none
  inPlace : ∀ whole top place, p.tree? o root = some whole →
    (p.rootStore o root).Compacts top whole place → (p.rootStore o root).Keeps top i →
      (Comparison.of t whole).divergence t.root (place i) = none

theorem ComparesEqual.of_corresponds {id : SyntaxId} {i j : OperationId} {σ : OperationSort}
    (related : Corresponds .identity (fun _ _ => False) (p.rootStore o id).get?
      (p.rootStore o root).get? σ j i) :
    p.ComparesEqual o root i ((p.rootStore o id).finish p j) := by
  obtain ⟨_, _, found, found'⟩ := related.exists_found
  have inside := Store.get?_lt_size found
  have compact : ((p.rootStore o id).finish p j).Compact := finish_rootStore_compact inside
  constructor
  · have agree : OperationTree.Agree .identity ((p.rootStore o id).finish p j)
        ((p.rootStore o root).finish p i) _ _ :=
      ⟨σ, Store.finish_corresponds (fun _ _ _ _ never => never) related p p⟩
    refine agree.divergence_eq_none ?_ compact
      (finish_rootStore_compact (Store.get?_lt_size found'))
    rw [program_finish, program_finish]
    exact .refl p
  · intro whole top place built kept keeps
    obtain ⟨place', compacts⟩ := (p.rootStore o id).finish_compacts p j
    have agree : OperationTree.Agree .identity ((p.rootStore o id).finish p j) whole (place' j)
        (place i) :=
      ⟨σ, compacts.corresponds kept (fun _ _ never => never) related (.refl inside) keeps⟩
    rw [compacts.top]
    refine agree.divergence_eq_none ?_ compact (tree?_compact built)
    rw [program_finish, program_of_tree? built]
    exact .refl p

/-- An expression is lowered to the same operations wherever it stands, apart from their places,
when the depth suffices: for any two visits in any two roots. Where the depth suffices for its own
tree, what is lowered compares equal to this tree. -/
theorem expression_lowered_alike (visited : p.Visits o root visit)
    (visited' : p.Visits o root' visit') (role : visit.role = .expression)
    (role' : visit'.role = .expression) (same : visit'.node = visit.node)
    (enough : p.Suffices o visit.depth (p.callAt root visit))
    (enough' : p.Suffices o visit'.depth (p.callAt root' visit')) :
    (∃ i, p.Lowers o root visit i) ∧ (∃ i', p.Lowers o root' visit' i') ∧
      ∀ i i', p.Lowers o root visit i → p.Lowers o root' visit' i' →
        (∃ place, Store.Renumbers place (p.rootStore o root) (p.rootStore o root') i i') ∧
          ∀ form, p.formOf visit.node = some form → form.isExpression = true →
            (∀ below, p.Visits o visit.node below → below.depth ≠ 0) →
              ∃ t, p.tree? o visit.node = some t ∧ p.ComparesEqual o root i t ∧
                p.ComparesEqual o root' i' t := by
  have alike : (p.callAt root visit).Alike .identity (p.callAt root' visit') :=
    ⟨role'.trans role.symm, same.symm, fun statement => absurd (role.symm.trans statement) nofun⟩
  refine ⟨visited.exists_lowers, visited'.exists_lowers, fun i i' lowered lowered' =>
    ⟨lowered.exists_renumbers enough enough' alike lowered', ?_⟩⟩
  intro form known expression unreached
  obtain ⟨top, j, made, built⟩ := exists_tree?_of_isExpression (o := o) known expression
  have whole : p.Suffices o (rootVisit o visit.node).depth
      (p.callAt visit.node (rootVisit o visit.node)) :=
    Visited.suffices unreached ⟨_, top, rfl⟩
  refine ⟨_, built, .of_corresponds (made.corresponds whole enough ?_ lowered),
    .of_corresponds (made.corresponds whole enough' ?_ lowered')⟩
  · exact ⟨role, rfl, nofun⟩
  · exact ⟨role', same.symm, nofun⟩

/-- A loop around a lambda that jumps out of nothing: its only statement is a break. -/
def breakInLambda : Program :=
  { empty "break" with
    nodes := #[⟨.zero, .breakJump⟩, ⟨.zero, .block [0]⟩, ⟨.zero, .lambda [] 1⟩,
      ⟨.zero, .literal "true"⟩, ⟨.zero, .expressionStatement 2⟩, ⟨.zero, .whileLoop 3 4⟩] }

/-- The lambda is lowered in the loop, behind the condition, and in the statement alone. -/
theorem breakInLambda_lowered_alike :
    let o : LoweringOptions := { maxDepth := 5 }
    let inLoop : Visit := ⟨3, [.plain, .loop, .plain], .expression, 2⟩
    let alone : Visit := ⟨4, [.plain, .plain], .expression, 2⟩
    breakInLambda.Visits o 5 inLoop ∧ breakInLambda.Visits o 4 alone ∧
      ∃ i i' t, breakInLambda.Lowers o 5 inLoop i ∧ breakInLambda.Lowers o 4 alone i' ∧
        (∃ place, Store.Renumbers place (breakInLambda.rootStore o 5)
          (breakInLambda.rootStore o 4) i i') ∧
        breakInLambda.tree? o 2 = some t ∧
        breakInLambda.ComparesEqual o 5 i t ∧ breakInLambda.ComparesEqual o 4 i' t := by
  intro o inLoop alone
  have loop : breakInLambda.Visits o 5 ⟨5, [.plain], .statement, 5⟩ :=
    .root (show Part.statement 5 ∈ _ by decide)
  have body : breakInLambda.Visits o 5 ⟨4, [.loop, .plain], .statement, 4⟩ :=
    .part loop (show ⟨.loop, .statement, 4⟩ ∈ _ by decide)
  have visited : breakInLambda.Visits o 5 inLoop :=
    .part body (show Part.expression 2 ∈ _ by decide)
  have statement : breakInLambda.Visits o 4 ⟨5, [.plain], .statement, 4⟩ :=
    .root (show Part.statement 4 ∈ _ by decide)
  have visited' : breakInLambda.Visits o 4 alone :=
    .part statement (show Part.expression 2 ∈ _ by decide)
  obtain ⟨⟨i, lowered⟩, ⟨i', lowered'⟩, alike⟩ :=
    expression_lowered_alike visited visited' rfl rfl rfl (by decide) (by decide)
  obtain ⟨renumbers, equal⟩ := alike i i' lowered lowered'
  obtain ⟨t, built, here, there⟩ := equal _ rfl rfl fun _ visited =>
    visited.depth_ne_zero_of_levels
      [(.expression, 2, 5), (.statement, 1, 4), (.statement, 0, 3)]
      (by decide) (by decide) (by decide)
  exact ⟨visited, visited', i, i', t, lowered, lowered', renumbers, built, here, there⟩

end Program

end SemanticTrees
