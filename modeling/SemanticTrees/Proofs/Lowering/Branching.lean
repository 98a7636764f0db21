import SemanticTrees.Proofs.Lowering.Tree
import SemanticTrees.Proofs.Lowering.StatementRegions

/-! Trees branch as syntax does. Closing a store keeps what its operations were made for, so the nodes
of different children of an operation have nothing in common, unless one child with everything below
it was made for the node of the operation itself. -/
namespace SemanticTrees

variable {p : Program}

namespace OperationTree

variable {t : OperationTree} {i a b : OperationId} {o oa ob : Operation}

/-- A child and everything below it was made for the node of the operation above it. That operation
was written, and its node is no argument. -/
structure Fills (t : OperationTree) (p : Program) (o : Operation) (child : OperationId) : Prop where
  written : o.isImplicit = false
  plain : ¬p.IsArgument o.origin
  alone : ∀ j, t.Below child j → ∃ o', t.get? j = some o' ∧ o'.origin = o.origin

/-- The operations of a tree branch as syntax does and stand where it stands, and the operation of a
node, unless the node is parenthesized, is the last one that was written for it. -/
structure Mirrors (t : OperationTree) (p : Program) : Prop where
  stands : ∀ i o, t.get? i = some o → o.Stands p
  descends : ∀ i o child, t.get? i = some o → t.IsChild i child →
    ∃ o', t.get? child = some o' ∧ p.Below o.origin o'.origin
  parts : ∀ i o a b oa ob, t.get? i = some o → t.IsChild i a → t.IsChild i b → a ≠ b →
    t.get? a = some oa → t.get? b = some ob →
      p.Disjoint oa.origin ob.origin ∨ t.Fills p o a ∨ t.Fills p o b
  mapped : ∀ node i, t.operationFor node = some i → ∃ o, t.get? i = some o ∧
    (o.origin = node ∨ ∃ inner, p.formOf node = some (.parenthesized inner)) ∧
    (o.origin = node → o.isImplicit = false ∧ o.span = p.nodes.spanOf node)
  latest : ∀ node i o j o', t.operationFor node = some i → t.get? i = some o → o.origin = node →
    t.get? j = some o' → o'.isImplicit = false → o'.origin = node → j ≤ i

end OperationTree

namespace Store

variable {s : Store} {t : OperationTree} {root i j k : OperationId} {o : Operation}
  {place : OperationId → OperationId} {regions : List Region} {used : List OperationId}
  {region : Region}

namespace Branches

variable (branches : s.Branches p o regions used)
include branches

theorem exists_region {child : OperationId} (listed : child ∈ o.children) :
    ∃ region, (region, child) ∈ regions.zip used ∧ s.Holds p region child ∧ region.Fits p o := by
  obtain ⟨same, each⟩ := List.forall₂_iff_zip.mp branches.held
  have known : child ∈ (regions.zip used).map Prod.snd := by
    rw [List.map_snd_zip (Nat.le_of_eq same.symm)]
    exact branches.covers listed
  obtain ⟨⟨region, _⟩, member, rfl⟩ := List.mem_map.mp known
  exact ⟨region, member, each member, branches.fits region (List.of_mem_zip member).1⟩

theorem exists_apart (left : j ∈ o.children) (right : k ∈ o.children) (other : j ≠ k) :
    ∃ a b : Region, (s.Holds p a j ∧ a.Fits p o) ∧ (s.Holds p b k ∧ b.Fits p o) ∧ a.Apart p b := by
  obtain ⟨a, first, held⟩ := branches.exists_region left
  obtain ⟨b, second, held'⟩ := branches.exists_region right
  have same := (List.forall₂_iff_zip.mp branches.held).1
  have apart : (regions.zip used).Pairwise fun x y => x.1.Apart p y.1 := by
    have listed := branches.apart
    rw [← List.map_fst_zip (Nat.le_of_eq same)] at listed
    exact List.pairwise_map.mp listed
  have : Std.Symm fun x y : Region × OperationId => x.1.Apart p y.1 :=
    ⟨fun _ _ => Region.Apart.symm⟩
  exact ⟨a, b, held, held',
    apart.forall first second fun same => other (congrArg Prod.snd same)⟩

end Branches

namespace Compacts

variable (c : s.Compacts root t place) (follows : s.Follows p)
include c follows

/-- A child in the tree is a child of the store in its new place. -/
theorem exists_child (keeps : s.Keeps root i) (found : s.get? i = some o) {child : OperationId}
    (listed : t.IsChild (place i) child) :
    ∃ j ∈ o.children, place j = child ∧ s.Keeps root j := by
  rw [OperationTree.IsChild, c.childrenOf_place keeps] at listed
  obtain ⟨j, member, rfl⟩ := List.mem_map.mp listed
  obtain ⟨o', found', member'⟩ := mem_childrenOf_iff.mp member
  obtain rfl := Option.some.inj (found.symm.trans found')
  obtain ⟨regions, used, branches⟩ := follows.branches i o found
  obtain ⟨region, _, held, _⟩ := branches.exists_region member'
  exact ⟨j, member', rfl, keeps.child member held.lt_size⟩

/-- What was made for a node alone is so with everything below it. -/
theorem alone {node : SyntaxId} (held : s.Holds p (.only node) i) (keeps : s.Keeps root i)
    (below : t.Below (place i) k) : ∃ o, t.get? k = some o ∧ o.origin = node := by
  obtain ⟨o, found, same, each⟩ := held
  -- there are at most two operations, one below the other
  obtain rfl | ⟨_, child, below⟩ := Relation.ReflTransGen.cases_head below
  · exact ⟨_, c.kept i o keeps found, same⟩
  · obtain ⟨j, listed, rfl, keeps'⟩ := c.exists_child follows keeps found child
    obtain ⟨o', found', same', leaf⟩ := each j listed
    obtain rfl | ⟨_, child, _⟩ := Relation.ReflTransGen.cases_head below
    · exact ⟨_, c.kept j o' keeps' found', same'⟩
    · obtain ⟨_, impossible, _⟩ := c.exists_child follows keeps' found' child
      rw [leaf] at impossible
      contradiction

omit follows in
/-- The node of a child is in its region. -/
theorem origin_of_holds {o' : Operation} {node : SyntaxId} (held : s.Holds p (.below node) i)
    (keeps : s.Keeps root i) (found : t.get? (place i) = some o') : p.Below node o'.origin := by
  obtain ⟨o, stored, below⟩ := held
  obtain rfl := Option.some.inj ((c.kept i o keeps stored).symm.trans found)
  exact below

theorem mirrors : t.Mirrors p where
  stands := by
    intro _ _ found
    obtain ⟨i, o, _, _, stored, rfl⟩ := c.exists_origin found
    exact follows.stands i o stored
  descends := by
    intro _ _ _ found listed
    obtain ⟨i, o, keeps, rfl, stored, rfl⟩ := c.exists_origin found
    obtain ⟨j, member, rfl, keeps'⟩ := c.exists_child follows keeps stored listed
    obtain ⟨regions, used, branches⟩ := follows.branches i o stored
    obtain ⟨region, _, held, fits⟩ := branches.exists_region member
    cases region with
    | below node =>
      obtain ⟨o', stored', below⟩ := held
      exact ⟨_, c.kept j o' keeps' stored', fits.trans below⟩
    | only node =>
      obtain ⟨o', stored', same, _⟩ := held
      refine ⟨_, c.kept j o' keeps' stored', ?_⟩
      obtain ⟨origin, _⟩ := fits
      show p.Below o.origin o'.origin
      rw [same, origin]
      exact .refl
  parts := by
    intro _ _ _ _ oa ob found first second other founda foundb
    obtain ⟨i, o, keeps, rfl, stored, rfl⟩ := c.exists_origin found
    obtain ⟨j, member, rfl, keepsj⟩ := c.exists_child follows keeps stored first
    obtain ⟨k, member', rfl, keepsk⟩ := c.exists_child follows keeps stored second
    obtain ⟨regions, used, branches⟩ := follows.branches i o stored
    have different : j ≠ k := fun same => other (congrArg place same)
    have fills {j : OperationId} {node : SyntaxId} (keeps : s.Keeps root j)
        (held : s.Holds p (.only node) j) (fits : Region.Fits p o (.only node)) :
        t.Fills p (o.mapChildren place) (place j) := by
      obtain ⟨rfl, written, plain⟩ := fits
      exact ⟨written, plain, fun k below => c.alone follows held keeps below⟩
    obtain ⟨a, b, ⟨heldj, fitsj⟩, ⟨heldk, fitsk⟩, apart⟩ :=
      branches.exists_apart member member' different
    cases a with
    | only node => exact .inr (.inl (fills keepsj heldj fitsj))
    | below a =>
      cases b with
      | only node => exact .inr (.inr (fills keepsk heldk fitsk))
      | below b =>
        have lowera := c.origin_of_holds heldj keepsj founda
        have lowerb := c.origin_of_holds heldk keepsk foundb
        exact .inl fun id left right => apart id (lowera.trans left) (lowerb.trans right)
  mapped := by
    intro node _ known
    obtain ⟨i, old, rfl, keeps⟩ := c.mapped node _ known
    obtain ⟨o, stored, rest⟩ := follows.mapped node i old
    exact ⟨_, c.kept i o (keeps (Array.getElem?_eq_some_iff.mp stored).1) stored, rest⟩
  latest := by
    intro node _ o' _ _ known found same found' written same'
    obtain ⟨i, old, rfl, keeps⟩ := c.mapped node _ known
    obtain ⟨o, stored, _⟩ := follows.mapped node i old
    have keeps := keeps (Array.getElem?_eq_some_iff.mp stored).1
    obtain rfl := Option.some.inj ((c.kept i o keeps stored).symm.trans found)
    obtain ⟨j, o', keeps', rfl, stored', rfl⟩ := c.exists_origin found'
    have before := follows.latest node i o j o' old stored same stored' written same'
    obtain less | rfl := Nat.lt_or_eq_of_le before
    · exact Nat.le_of_lt (c.mono j i keeps' keeps less)
    · exact Nat.le_refl _

end Compacts

end Store

theorem OperationTree.Mirrors.below_origin {t : OperationTree} {i j : OperationId} {o : Operation}
    (mirrors : t.Mirrors p) (found : t.get? i = some o) (below : t.Below i j) :
    ∃ o', t.get? j = some o' ∧ p.Below o.origin o'.origin := by
  induction below with
  | refl => exact ⟨o, found, .refl⟩
  | tail _ child ih =>
    obtain ⟨o', found', below⟩ := ih
    obtain ⟨o'', found'', step⟩ := mirrors.descends _ o' _ found' child
    exact ⟨o'', found'', below.trans step⟩

/-- Everything below what was made for a node was made for nodes below it. -/
theorem Store.Compacts.below_of_holds {s : Store} {t : OperationTree} {root i j : OperationId}
    {place : OperationId → OperationId} {node : SyntaxId} {o : Operation}
    (c : s.Compacts root t place) (follows : s.Follows p) (held : s.Holds p (.below node) i)
    (keeps : s.Keeps root i) (below : t.Below (place i) j) (found : t.get? j = some o) :
    p.Below node o.origin := by
  obtain ⟨o', stored, inside⟩ := held
  obtain ⟨o'', found', deeper⟩ :=
    (c.mirrors follows).below_origin (c.kept i o' keeps stored) below
  obtain rfl := Option.some.inj (found.symm.trans found')
  exact inside.trans deeper

namespace Program

open Lowering

variable {options : LoweringOptions} {id : SyntaxId} {t : OperationTree} {i : OperationId}
  {o : Operation} (tidy : p.Tidy) (own : p.BindsOwnArguments)
include tidy own

theorem rootContext_into (options : LoweringOptions) (id : SyntaxId) :
    (p.rootContext options id).WalksInto :=
  walk_into tidy own options options.maxDepth

theorem tree?_mirrors (built : p.tree? options id = some t) : t.Mirrors p := by
  obtain ⟨root, s, run, rfl⟩ := tree?_eq_some built
  obtain ⟨follows, _⟩ := (rootContext_into tidy own options id).lowerRoot id .empty
    Store.follows_empty .nil
  rw [run] at follows
  obtain ⟨place, compacts⟩ := s.finish_compacts p root
  exact compacts.mirrors follows

/-- Every operation of a tree was made for a node below that of the tree. -/
theorem below_of_tree? (built : p.tree? options id = some t) (found : t.get? i = some o) :
    p.Below id o.origin := by
  have reached := (tree?_compact built).reached i (Array.getElem?_eq_some_iff.mp found).1
  obtain ⟨root, s, run, rfl⟩ := tree?_eq_some built
  obtain ⟨follows, _, made⟩ := (rootContext_into tidy own options id).lowerRoot id .empty
    Store.follows_empty .nil
  rw [run] at follows made
  obtain ⟨place, compacts⟩ := s.finish_compacts p root
  have held : s.Holds p (.below id) root := made.holds
  rw [compacts.top] at reached
  exact compacts.below_of_holds follows held (.refl held.lt_size) reached found

/-- In the tree of a method everything but the root was made for nodes of the body. -/
theorem below_body_of_tree? {name : String} {parameters : List SyntaxId} {body : Option SyntaxId}
    (known : p.formOf id = some (.method name parameters body))
    (built : p.tree? options id = some t) (found : t.get? i = some o) :
    o.origin = id ∨ ∃ inner ∈ body, p.Below inner o.origin := by
  have reached := (tree?_compact built).reached i (Array.getElem?_eq_some_iff.mp found).1
  obtain ⟨root, s, run, rfl⟩ := tree?_eq_some built
  let c := p.rootContext options id
  have h : c.WalksInto := rootContext_into tidy own options id
  obtain ⟨follows, _⟩ := h.lowerRoot id .empty Store.follows_empty .nil
  rw [run] at follows
  obtain ⟨place, compacts⟩ := s.finish_compacts p root
  rw [compacts.top] at reached
  unfold Context.lowerRoot at run
  rw [show (p.rootContext options id).formOf id = _ from known] at run
  cases body with
  | none => exact nomatch run
  | some body =>
    let first := (c.statement body).run .empty
    let whole := c.plain (.methodBody first.1) id
    obtain ⟨_, _, made⟩ := h.statement body .empty Store.follows_empty .nil
    -- the root is the operation that was added last
    have last : (some first.2.size, first.2.add whole) = (some root, s) := run
    obtain ⟨same, rfl⟩ := Prod.mk.inj last
    obtain rfl := Option.some.inj same
    have stored := Lowering.get?_emit first.2 whole
    have keeps := Store.Keeps.refl (Array.getElem?_eq_some_iff.mp stored).1
    obtain top | ⟨_, child, below⟩ := Relation.ReflTransGen.cases_head reached
    · rw [← top] at found
      obtain rfl := Option.some.inj ((compacts.kept _ _ keeps stored).symm.trans found)
      exact .inl rfl
    · obtain ⟨j, listed, rfl, keeps'⟩ := compacts.exists_child follows keeps stored child
      obtain rfl := List.mem_singleton.mp listed
      have held := made.holds.mono (first.2.extends_add whole)
      exact .inr ⟨body, rfl, compacts.below_of_holds follows held keeps' below found⟩

end Program

end SemanticTrees
