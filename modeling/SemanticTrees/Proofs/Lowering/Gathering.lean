import SemanticTrees.Proofs.Lowering.Invariants
import SemanticTrees.Proofs.Operation.Closing
import Mathlib.Order.Bounds.Basic
import Mathlib.Tactic.IntervalCases

/-! Operations that were written, and the entries of their nodes. An entry leads to the operation
that was written last for its node. Whatever is lowered ends up below the root, apart from what is
lowered for a receiver that a variable is taken of, so the entry of any other node is kept with its
operation when the store is closed. -/
namespace SemanticTrees

namespace Store

variable {s s' : Store} {o : Operation} {i j : OperationId} {waiting waiting' : List OperationId}
  {lost : SyntaxId → Prop}

/-- An operation is below another one, or is the same. -/
def Below (s : Store) : OperationId → OperationId → Prop :=
  Relation.ReflTransGen fun parent child => child ∈ s.childrenOf parent

/-- Every operation is below one that waits to be used, or was made for a node that is lost. -/
def Gathers (s : Store) (lost : SyntaxId → Prop) (waiting : List OperationId) : Prop :=
  ∀ i o, s.get? i = some o → lost o.origin ∨ ∃ top ∈ waiting, s.Below top i

/-- Every operation that was written has an entry for its node, which leads to one that was written
for the node and not earlier. -/
def Indexes (s : Store) : Prop :=
  ∀ i o, s.get? i = some o → o.isImplicit = false → ∃ j o', s.origins[o.origin]? = some j ∧
    i ≤ j ∧ s.get? j = some o' ∧ o'.isImplicit = false ∧ o'.origin = o.origin

theorem Below.mono (below : s.Below i j) (grows : s.Extends s') : s'.Below i j := by
  refine Relation.ReflTransGen.mono ?_ _ _ below
  intro parent child listed
  obtain ⟨o, found, member⟩ := mem_childrenOf_iff.mp listed
  exact mem_childrenOf_iff.mpr ⟨o, grows parent o found, member⟩

/-- What is below a root is kept. -/
theorem Below.keeps {root : OperationId} (below : s.Below root i) (inside : i < s.size) :
    s.Keeps root i := by
  refine ⟨inside, Relation.ReflTransGen.mono ?_ _ _ below⟩
  exact fun parent child listed => ⟨childrenOf_lt listed, listed⟩

namespace Gathers

theorem empty : Store.empty.Gathers lost [] := by simp [Gathers, Store.empty, get?]

theorem weaken (gathers : s.Gathers lost waiting) (kept : waiting ⊆ waiting') :
    s.Gathers lost waiting' := by
  intro i o found
  refine (gathers i o found).imp_right ?_
  rintro ⟨top, listed, below⟩
  exact ⟨top, kept listed, below⟩

/-- A new operation stands for its children. -/
theorem add (gathers : s.Gathers lost waiting) {others : List OperationId}
    (kept : waiting ⊆ others ++ o.children) : (s.add o).Gathers lost (others ++ [s.size]) := by
  have newest : s.size ∈ others ++ [s.size] := by simp
  refine forall_add (.inr ⟨s.size, newest, .refl⟩) ?_
  intro i o' found
  refine (gathers i o' found).imp_right ?_
  rintro ⟨top, listed, below⟩
  have below := below.mono (s.extends_add o)
  obtain other | child := List.mem_append.mp (kept listed)
  · exact ⟨top, List.mem_append_left _ other, below⟩
  · refine ⟨s.size, newest, .head ?_ below⟩
    rw [childrenOf_add, if_pos rfl]
    exact child

/-- Operations that are lost may be added anywhere. -/
theorem extend (gathers : s.Gathers lost waiting) (grows : s.Extends s')
    (added : ∀ i o, s'.get? i = some o → s.get? i = some o ∨ lost o.origin) :
    s'.Gathers lost waiting := by
  intro i o found
  obtain old | new := added i o found
  · refine (gathers i o old).imp_right ?_
    rintro ⟨top, listed, below⟩
    exact ⟨top, listed, below.mono grows⟩
  · exact .inl new

end Gathers

namespace Indexes

theorem empty : Store.empty.Indexes := by simp [Indexes, Store.empty, get?]

theorem add (indexes : s.Indexes) (o : Operation) : (s.add o).Indexes := by
  have newest : (s.add o).get? s.size = some o := (s.get?_add s.size).trans (if_pos rfl)
  intro i o' found explicit
  rw [origins_add]
  split
  · next own => exact ⟨s.size, o, rfl, le_of_get?_add found, newest, own⟩
  · next other =>
    obtain ⟨_, rfl⟩ | ⟨_, old⟩ := get?_add_cases found
    · exact absurd ⟨explicit, rfl⟩ other
    · obtain ⟨j, last, known, later, stored, written⟩ := indexes i o' old explicit
      exact ⟨j, last, known, later, s.extends_add o j last stored, written⟩

/-- Entries that are there stay when others are associated. -/
theorem associate (indexes : s.Indexes) (node : SyntaxId) (i : OperationId) :
    (s.associate node i).Indexes := by
  intro k o found explicit
  obtain ⟨j, last, known, rest⟩ := indexes k o found explicit
  refine ⟨j, last, ?_, rest⟩
  unfold Store.associate
  rw [Std.TreeMap.getElem?_insertIfNew, if_neg]
  · exact known
  · rintro ⟨same, absent⟩
    obtain rfl := Std.compare_eq_iff_eq.mp same
    exact absent (Std.TreeMap.mem_iff_isSome_getElem?.mpr (by simp [known]))

end Indexes

end Store

namespace OperationTree

variable {s : Store} {p : Program} {root i : OperationId} {o : Operation}

/-- The operations that were written for a node. -/
def writtenFor (t : OperationTree) (node : SyntaxId) : Set OperationId :=
  {j | ∃ o, t.get? j = some o ∧ o.isImplicit = false ∧ o.origin = node}

/-- In the tree of a store, the operation of a node is the last one that was written for it, if any
was. -/
theorem isGreatest_of_operationFor (indexes : s.Indexes) {node : SyntaxId}
    (written : ((s.finish p root).writtenFor node).Nonempty)
    (known : (s.finish p root).operationFor node = some i) :
    IsGreatest ((s.finish p root).writtenFor node) i := by
  obtain ⟨place, compacts⟩ := s.finish_compacts p root
  obtain ⟨last, entry, rfl, keeps⟩ := compacts.mapped node i known
  -- whatever was written for the node comes from an operation in front of the entry
  have each (j : OperationId) (listed : j ∈ (s.finish p root).writtenFor node) :
      ∃ k o, s.Keeps root k ∧ place k = j ∧ k ≤ last ∧ s.get? last = some o ∧
        o.isImplicit = false ∧ o.origin = node := by
    obtain ⟨o, found, explicit, origin⟩ := listed
    obtain ⟨k, o', kept, same, stored, rfl⟩ := compacts.exists_origin found
    obtain ⟨m, o'', entry', later, stored', explicit', origin'⟩ := indexes k o' stored explicit
    rw [show o'.origin = node from origin] at entry' origin'
    obtain rfl := Option.some.inj (entry'.symm.trans entry)
    exact ⟨k, o'', kept, same, later, stored', explicit', origin'⟩
  obtain ⟨j, listed⟩ := written
  obtain ⟨_, o, _, _, _, stored, explicit, origin⟩ := each j listed
  have keeps : s.Keeps root last := keeps (Array.getElem?_eq_some_iff.mp stored).1
  refine ⟨⟨_, compacts.kept last o keeps stored, explicit, origin⟩, ?_⟩
  intro j listed
  obtain ⟨k, _, kept, rfl, le, _⟩ := each j listed
  obtain rfl | less := Nat.eq_or_lt_of_le le
  · exact Nat.le_refl _
  · exact Nat.le_of_lt (compacts.mono k last kept keeps less)

end OperationTree

namespace Program

open Lowering

variable {p : Program} {options : LoweringOptions} {id node : SyntaxId} {t : OperationTree}
  {i : OperationId} {o : Operation}

/-- A node is lowered for a receiver that a variable is taken of. -/
def LeftBehind (p : Program) (node : SyntaxId) : Prop :=
  ∃ access receiver, p.TakesVariable access receiver ∧ p.Reaches receiver node

/-- Everything may be lowered, and left behind for a receiver that a variable is taken of. -/
def gathering (p : Program) : Terms where
  nodes _ := True
  adds _ := True
  forgoes receiver := ∃ access, p.TakesVariable access receiver
  associates _ _ _ := True

theorem permits_gathering (p : Program) (options : LoweringOptions) :
    p.Permits options p.gathering where
  involved _ _ _ _ := trivial
  adds _ _ _ := trivial
  forgoes access _ taken := ⟨access, taken⟩
  conversions _ _ _ := trivial
  parentheses _ _ _ _ _ _ := trivial

/-- What is lowered for a node that is left behind is lost. -/
theorem walk_leaves_behind (p : Program) (options : LoweringOptions) (depth : Nat) (s : Store)
    (scope : Scope) (role : Role) (known : p.LeftBehind id) :
    ∀ i o, ((walk p options depth scope role id).run s).2.get? i = some o →
      s.get? i = some o ∨ p.LeftBehind o.origin := by
  have closed (id node : SyntaxId) : p.LeftBehind id → p.Involves id node → p.LeftBehind node := by
    rintro ⟨access, receiver, taken, reaches⟩ involved
    exact ⟨access, receiver, taken, reaches.tail involved⟩
  refine (permits_within options closed).walk_keeps
    (I := fun s' => ∀ i o, s'.get? i = some o → s.get? i = some o ∨ p.LeftBehind o.origin) ?_ ?_
    depth s scope role id known fun _ _ found => .inl found
  · exact fun _ _ lost kept => Store.forall_add (.inr lost) kept
  · exact fun _ _ _ _ kept => kept

/-- A course whose calls gather what they add gathers it all. -/
theorem gathers_of_course {walk : Walk} {s s' : Store} {calls : List Call}
    {waiting waiting' : List OperationId}
    (course : Course p.gathering walk s waiting calls s' waiting')
    (walks : ∀ (s : Store) (waiting : List OperationId) (scope : Scope) (role : Role)
      (id : SyntaxId), s.Gathers p.LeftBehind waiting →
        ((walk scope role id).run s).2.Gathers p.LeftBehind
          (waiting ++ [((walk scope role id).run s).1]))
    (grows : WalkExtends walk)
    (behind : ∀ (s : Store) (scope : Scope) (role : Role) (id : SyntaxId), p.LeftBehind id →
      ∀ i o, ((walk scope role id).run s).2.get? i = some o →
        s.get? i = some o ∨ p.LeftBehind o.origin)
    (start : s.Gathers p.LeftBehind waiting) : s'.Gathers p.LeftBehind waiting' := by
  induction course with
  | done kept => exact start.weaken kept
  | add _ kept _ ih => exact ih (start.add kept)
  | associate _ _ ih => exact ih start
  | call _ ih => exact ih (walks _ _ _ _ _ start)
  | forgo may _ ih =>
    obtain ⟨access, taken⟩ := may
    exact ih (start.extend (grows _ _ _ _) (behind _ _ _ _ ⟨access, _, taken, .refl⟩))

/-- A run of the walk gathers what it adds below the operation that it gives. -/
theorem walk_gathers (p : Program) (options : LoweringOptions) (depth : Nat) :
    ∀ (s : Store) (waiting : List OperationId) (scope : Scope) (role : Role) (id : SyntaxId),
      s.Gathers p.LeftBehind waiting →
        ((walk p options depth scope role id).run s).2.Gathers p.LeftBehind
          (waiting ++ [((walk p options depth scope role id).run s).1]) := by
  induction depth with
  | zero =>
    intro s waiting scope role id start
    cases role with
    | expression => exact start.add (List.subset_append_left _ _)
    | statement => exact start.add (List.subset_append_left _ _)
  | succ depth ih =>
    intro s waiting scope role id start
    have known : p.gathering.nodes id := trivial
    have course := (permits_gathering p options).walk_takes known depth scope role s waiting
    rw [List.append_nil] at course
    exact gathers_of_course course ih (walk_extends p options depth)
      (fun s scope role id => walk_leaves_behind p options depth s scope role) start

/-- The store that lowering a root fills has an entry for whatever was written, and everything in it
is below the root or was left behind. -/
theorem lowerRoot_gathers {s : Store} {root : OperationId}
    (run : ((p.rootContext options id).lowerRoot id).run Store.empty = (some root, s)) :
    s.Indexes ∧ s.Gathers p.LeftBehind [root] := by
  have permits := permits_gathering p options
  constructor
  · have indexes : (((p.rootContext options id).lowerRoot id).run Store.empty).2.Indexes :=
      permits.lowerRoot_keeps (fun _ o _ indexes => indexes.add o)
        (fun _ node i _ indexes => indexes.associate node i) trivial Store.Indexes.empty
    rwa [run] at indexes
  · have known : p.gathering.nodes id := trivial
    have course := rootContext_takes permits.toAllows known options Store.empty []
    rw [run] at course
    exact gathers_of_course course (walk_gathers p options options.maxDepth)
      (walk_extends p options options.maxDepth)
      (fun s scope role id => walk_leaves_behind p options options.maxDepth s scope role)
      Store.Gathers.empty

/-- In a tree, the operation of a node is the last one that was written for the node, if any was. A
node that was written for has an operation, unless it is left behind. -/
theorem operationFor_isGreatest (built : p.tree? options id = some t) (found : t.get? i = some o)
    (explicit : o.isImplicit = false) :
    (∀ m, t.operationFor o.origin = some m → IsGreatest (t.writtenFor o.origin) m) ∧
      (¬p.LeftBehind o.origin → ∃ m, t.operationFor o.origin = some m) := by
  obtain ⟨root, s, run, rfl⟩ := tree?_eq_some built
  obtain ⟨indexes, gathers⟩ := lowerRoot_gathers run
  refine ⟨fun m known =>
    OperationTree.isGreatest_of_operationFor indexes ⟨i, o, found, explicit, rfl⟩ known, ?_⟩
  intro used
  obtain ⟨place, compacts⟩ := s.finish_compacts p root
  obtain ⟨k, o', _, _, stored, rfl⟩ := compacts.exists_origin found
  obtain ⟨last, o'', entry, _, stored', _, same⟩ := indexes k o' stored explicit
  have used : ¬p.LeftBehind o''.origin := same ▸ used
  obtain ⟨_, listed, below⟩ := (gathers last o'' stored').resolve_left used
  obtain rfl := List.mem_singleton.mp listed
  exact Store.exists_operationFor_finish entry
    (below.keeps (Array.getElem?_eq_some_iff.mp stored').1)

/-- Only the literal of the shared sum is left behind. -/
theorem sharedSum_leftBehind (lost : sharedSum.LeftBehind node) : node = 0 := by
  obtain ⟨access, receiver, ⟨_, _, _, taken, _⟩, reaches⟩ := lost
  have same : receiver = 0 := by
    have inside : access < 3 := lt_of_formOf taken
    interval_cases access
    all_goals cases taken
    rfl
  obtain rfl := same
  have literal : sharedSum.formOf 0 = some (.literal "1") := rfl
  obtain rfl | ⟨_, part | ⟨form, _, _, found, call, _⟩, _⟩ :=
    Relation.ReflTransGen.cases_head reaches
  · rfl
  · simp [HasPart, childrenOf_of_formOf literal, Form.children] at part
  · obtain rfl := Option.some.inj (literal.symm.trans found)
    exact call.elim

theorem sharedSum_isGreatest :
    ∃ t o, sharedSum.tree? {} 2 = some t ∧ t.get? 0 = some o ∧ o.isImplicit = false ∧
      o.origin = 1 ∧ ∃ m, t.operationFor 1 = some m ∧ IsGreatest (t.writtenFor 1) m := by
  have written : (sharedSum.tree? {} 2).bind (fun t => (t.get? 0).map fun o =>
      (o.isImplicit, o.origin)) = some (false, 1) := by decide +kernel
  obtain ⟨t, built, written⟩ := Option.bind_eq_some_iff.mp written
  obtain ⟨o, found, same⟩ := Option.map_eq_some_iff.mp written
  obtain ⟨explicit, origin⟩ := Prod.mk.inj same
  obtain ⟨greatest, kept⟩ := operationFor_isGreatest built found explicit
  rw [origin] at greatest kept
  obtain ⟨m, known⟩ := kept fun lost => absurd (sharedSum_leftBehind lost) (by decide)
  exact ⟨t, o, built, found, explicit, origin, m, known, greatest m known⟩

/-- The sum of a literal and a variable that is taken as a member of the same literal. The literal
is lowered once more for the variable, and left behind there with its entry. -/
def buriedLiteral : Program :=
  { empty "buried" with
    nodes := #[⟨.zero, .literal "1"⟩, ⟨.zero, .memberAccess 0 "x" []⟩, ⟨.zero, .binary .add 0 1⟩]
    symbols := #[.plain "x" .localVariable none]
    facts := Std.TreeMap.empty.insert 1 { Facts.unknown with symbol := some 0 } }

theorem buriedLiteral_unmapped :
    buriedLiteral.validate = .ok () ∧ ∃ t o, buriedLiteral.tree? {} 2 = some t ∧
      t.get? 0 = some o ∧ o.isImplicit = false ∧ t.operationFor o.origin = none := by
  have lost : (buriedLiteral.tree? {} 2).bind (fun t => (t.get? 0).map fun o =>
      (o.isImplicit, t.operationFor o.origin)) = some (false, none) := by decide +kernel
  obtain ⟨t, built, lost⟩ := Option.bind_eq_some_iff.mp lost
  obtain ⟨o, found, same⟩ := Option.map_eq_some_iff.mp lost
  obtain ⟨explicit, unmapped⟩ := Prod.mk.inj same
  exact ⟨rfl, t, o, built, found, explicit, unmapped⟩

end Program

end SemanticTrees
