import SemanticTrees.Proofs.Lowering.Tree
import SemanticTrees.Proofs.Operation.Heights

/-! Ways through operation trees. The table of parents, the way up that counts depths and the listing
of what is below an operation are computed each in its own manner; in a compact tree they agree with
the children in the slots. -/
namespace SemanticTrees.OperationTree

variable {t : OperationTree} {i j parent child fuel more n : Nat} {o : Operation}
  {stack out : List OperationId}

/-! ### Up -/

/-- The operation that a number of steps from parent to parent leads to. -/
def ascend (t : OperationTree) : Nat → OperationId → Option OperationId
  | 0, i => some i
  | n + 1, i => (t.parent i).bind (t.ascend n)

namespace Compact

variable (compact : t.Compact)
include compact

theorem parent_eq_some_iff : t.parent child = some parent ↔ t.IsChild parent child :=
  ⟨isChild_of_parent, compact.parent_eq⟩

/-- The way up ends at the root after as many steps as the operation is deep, and is nowhere at the
root before. -/
theorem ascend_eq_root_iff (inside : i < t.size) :
    t.ascend n i = some t.root ↔ n = t.depth i := by
  have below := compact.reached i inside
  clear inside
  induction below generalizing n with
  | refl =>
    rw [compact.depth_root]
    cases n with
    | zero => exact iff_of_true rfl rfl
    | succ n => simp [ascend, compact.parent_root]
  | @tail parent child _ known ih =>
    rw [compact.depth_child known]
    cases n with
    | zero =>
      have inner : child ≠ t.root := by
        rintro rfl
        exact compact.root_free known
      simp [ascend, inner]
    | succ n => simp [ascend, compact.parent_eq known, ih]

/-- Of two operations above a third one, one lies below the other. -/
theorem comparable (first : t.Below i child) (second : t.Below j child) :
    t.Below i j ∨ t.Below j i := by
  refine Graph.comparable (fun {_ _ _} known known' => ?_) first second
  exact Option.some.inj ((compact.parent_eq known).symm.trans (compact.parent_eq known'))

/-- Different children of one operation have nothing below them in common. -/
theorem eq_of_below_children (known : t.IsChild parent i) (known' : t.IsChild parent j)
    (first : t.Below i child) (second : t.Below j child) : i = j := by
  have apart {i j : OperationId} (known : t.IsChild parent i) (known' : t.IsChild parent j)
      (below : t.Below i j) : i = j := by
    obtain same | ⟨m, above, last⟩ := Relation.ReflTransGen.cases_tail below
    · exact same.symm
    · obtain rfl : m = parent :=
        Option.some.inj ((compact.parent_eq last).symm.trans (compact.parent_eq known'))
      exact absurd (compact.before _ _ known) (Nat.not_lt_of_le (compact.le_of_below above))
  obtain below | below := compact.comparable first second
  · exact apart known known' below
  · exact (apart known' known below).symm

/-! ### Down -/

theorem below_eq (enough : i < fuel) (enough' : i < more) : t.below fuel i = t.below more i := by
  induction fuel generalizing more i with
  | zero => contradiction
  | succ fuel ih =>
    obtain ⟨more, rfl⟩ := Nat.exists_eq_succ_of_ne_zero (Nat.ne_zero_of_lt enough')
    unfold below
    cases found : t.get? i with
    | none => rfl
    | some o =>
      refine congrArg (i :: ·) (List.flatMap_congr fun child listed => ?_)
      have before := compact.before i child (childrenOf_of_get? found ▸ listed)
      exact ih (by omega) (by omega)

/-- An operation is listed in front of what the listings of its children say. -/
theorem descendants_eq (found : t.get? i = some o) :
    t.descendants i = i :: o.children.flatMap t.descendants := by
  have inside : i < t.size := (Array.getElem?_eq_some_iff.mp found).1
  obtain ⟨n, size⟩ := Nat.exists_eq_succ_of_ne_zero (Nat.ne_zero_of_lt inside)
  unfold descendants
  rw [size, below, found]
  refine congrArg (i :: ·) (List.flatMap_congr fun child listed => ?_)
  have before := compact.before i child (childrenOf_of_get? found ▸ listed)
  exact compact.below_eq (by omega) (by omega)

theorem mem_descendants_iff (inside : i < t.size) : j ∈ t.descendants i ↔ t.Below i j := by
  induction i using Nat.strongRecOn with
  | ind i ih =>
    obtain ⟨o, found⟩ : ∃ o, t.get? i = some o := ⟨_, Array.getElem?_eq_getElem inside⟩
    rw [compact.descendants_eq found, List.mem_cons, List.mem_flatMap, Below,
      Relation.ReflTransGen.cases_head_iff, eq_comm]
    refine or_congr_right (exists_congr fun child => ?_)
    rw [IsChild, childrenOf_of_get? found]
    refine and_congr_right fun listed => ?_
    have known : t.IsChild i child := mem_childrenOf_iff.mpr ⟨o, found, listed⟩
    exact ih child (compact.before _ _ known) (compact.child_lt_size known)

omit compact in
theorem descendants_eq_nil (missing : t.get? i = none) : t.descendants i = [] := by
  unfold descendants
  cases t.size with
  | zero => rfl
  | succ n =>
    rw [below, missing]

theorem nodup_children (found : t.get? i = some o) : o.children.Nodup := by
  rw [get?, ← Array.getElem?_toList] at found
  exact nodup_of_mem_flatMap compact.single (List.mem_of_getElem? found)

/-- What is below different children is apart, and an operation is not below its children. -/
theorem nodup_descendants (i : OperationId) : (t.descendants i).Nodup := by
  induction i using Nat.strongRecOn with
  | ind i ih =>
    cases found : t.get? i with
    | none => exact descendants_eq_nil found ▸ List.nodup_nil
    | some o =>
      have known {child : OperationId} (listed : child ∈ o.children) : t.IsChild i child :=
        mem_childrenOf_iff.mpr ⟨o, found, listed⟩
      have reaches {child j : OperationId} (listed : child ∈ o.children)
          (member : j ∈ t.descendants child) : t.Below child j :=
        (compact.mem_descendants_iff (compact.child_lt_size (known listed))).mp member
      rw [compact.descendants_eq found, List.nodup_cons, List.nodup_flatMap]
      refine ⟨?_, fun child listed => ih child (compact.before _ _ (known listed)), ?_⟩
      · intro member
        obtain ⟨child, listed, member⟩ := List.mem_flatMap.mp member
        have above := compact.le_of_below (reaches listed member)
        exact absurd (compact.before _ _ (known listed)) (Nat.not_lt_of_le above)
      · refine (compact.nodup_children found).imp_of_mem ?_
        intro a b first second other j below below'
        exact other (compact.eq_of_below_children (known first) (known second)
          (reaches first below) (reaches second below'))

theorem descendants_root_perm : (t.descendants t.root).Perm (List.range t.size) := by
  rw [List.perm_ext_iff_of_nodup (compact.nodup_descendants t.root) List.nodup_range]
  intro i
  rw [compact.mem_descendants_iff compact.root_lt_size, List.mem_range]
  refine ⟨fun below => ?_, compact.reached i⟩
  exact Nat.lt_of_le_of_lt (compact.le_of_below below) compact.root_lt_size

end Compact

/-! ### A stack -/

/-- A walk by a stack: what is on top is taken off and listed, if it is known, and its children are
put on the stack, the first one on top. Nothing bounds the walk. -/
inductive Unstacks (t : OperationTree) : List OperationId → List OperationId → Prop
  | done : Unstacks t [] []
  | unknown {i : OperationId} {stack out : List OperationId} (missing : t.get? i = none)
      (others : Unstacks t stack out) : Unstacks t (i :: stack) out
  | known {i : OperationId} {o : Operation} {stack out : List OperationId}
      (found : t.get? i = some o) (others : Unstacks t (o.children ++ stack) out) :
      Unstacks t (i :: stack) (i :: out)

/-- The walk lists what is below the top of the stack before it comes to the others. -/
theorem Compact.unstacks (compact : t.Compact) (others : t.Unstacks stack out) :
    t.Unstacks (i :: stack) (t.descendants i ++ out) := by
  induction i using Nat.strongRecOn generalizing stack out with
  | ind i ih =>
    cases found : t.get? i with
    | none => exact descendants_eq_nil found ▸ .unknown found others
    | some o =>
      have each (children : List OperationId) (listed : ∀ child ∈ children, child < i) :
          t.Unstacks (children ++ stack) (children.flatMap t.descendants ++ out) := by
        induction children with
        | nil => exact others
        | cons child rest ihc =>
          rw [List.flatMap_cons, List.append_assoc]
          exact ih child (listed child List.mem_cons_self)
            (ihc fun child member => listed child (.tail _ member))
      rw [compact.descendants_eq found]
      refine .known found (each o.children fun child listed => ?_)
      exact compact.before i child (mem_childrenOf_iff.mpr ⟨o, found, listed⟩)

/-! ### Agreement -/

/-- A tree tells of its operations the same by all ways through it: parents are what lists children,
a depth is the length of the one path of slots and of the way up, and a listing has every operation
below another one once, each in front of the listings of its children in the order of the slots. -/
structure Navigable (t : OperationTree) : Prop where
  parent_iff : ∀ child parent, t.parent child = some parent ↔ child ∈ t.childrenOf parent
  top : t.parent t.root = none
  path : ∀ i < t.size, ∃ path : List SlotPosition,
    (∀ other, t.follow other t.root = some i ↔ other = path) ∧ path.length = t.depth i
  ascent : ∀ i < t.size, ∀ n, t.ascend n i = some t.root ↔ n = t.depth i
  listing : ∀ i o, t.get? i = some o →
    t.descendants i = i :: o.kind.slots.flatMap fun (_, slot) => slot.children.flatMap t.descendants
  once : ∀ i < t.size, (t.descendants i).Nodup ∧ ∀ j, j ∈ t.descendants i ↔ t.Below i j
  all : (t.descendants t.root).Perm (List.range t.size)
  walk : ∀ i, t.Unstacks [i] (t.descendants i)

theorem Compact.navigable (compact : t.Compact) : t.Navigable where
  parent_iff _ _ := compact.parent_eq_some_iff
  top := compact.parent_root
  path i inside := by
    obtain ⟨path, leads⟩ := exists_path (compact.reached i inside)
    refine ⟨path, fun other => ⟨fun leads' => compact.path_unique leads' leads, ?_⟩,
      (compact.depth_eq_length leads).symm⟩
    rintro rfl
    exact leads
  ascent _ inside _ := compact.ascend_eq_root_iff inside
  listing i o found := by
    rw [compact.descendants_eq found, Operation.children, OperationKind.children,
      List.flatMap_assoc]
  once i inside := ⟨compact.nodup_descendants i, fun _ => compact.mem_descendants_iff inside⟩
  all := compact.descendants_root_perm
  walk i := List.append_nil (t.descendants i) ▸ compact.unstacks .done

end SemanticTrees.OperationTree

namespace SemanticTrees.Program

variable {p : Program} {options : LoweringOptions} {id : SyntaxId} {t : OperationTree}

/-- In every tree that is built, parents, depths and listings agree with the slots. -/
theorem build_navigable (built : p.build options .pending id = .ok (some t)) : t.Navigable :=
  (tree?_compact (build_eq_ok built)).navigable

/-- A product and a literal, added. The product comes behind the literal. -/
def sumWithProduct : Program :=
  { empty "product" with
    nodes := #[⟨.zero, .literal "1"⟩, ⟨.zero, .literal "2"⟩, ⟨.zero, .literal "3"⟩,
      ⟨.zero, .binary .multiply 1 2⟩, ⟨.zero, .binary .add 3 0⟩] }

theorem sumWithProduct_navigable :
    ∃ t, sumWithProduct.build {} .pending 4 = .ok (some t) ∧
      t.descendants t.root = [4, 2, 0, 1, 3] ∧ t.parent 1 = some 2 ∧ t.depth 1 = 2 ∧
      t.Navigable :=
  ⟨_, rfl, by decide +kernel, by decide +kernel, by decide +kernel,
    build_navigable (show sumWithProduct.build {} .pending 4 = .ok (some _) from rfl)⟩

end SemanticTrees.Program
