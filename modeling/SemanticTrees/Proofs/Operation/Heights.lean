import SemanticTrees.Proofs.Operation.Depth

/-! Heights of operations. In a compact tree the table of parents has the one operation that lists
another one, so the depth that is counted up to the root is the length of the path from there. How
deep a tree is can then be told from its root, step by step down. -/
namespace SemanticTrees.OperationTree

variable {t : OperationTree} {i j parent child : OperationId} {bound depth fuel more : Nat}
  {table : Array (Option OperationId)}

/-! ### The table of parents -/

/-- A table of parents that is big enough has some parent for an operation. -/
def Recorded (table : Array (Option OperationId)) (child : OperationId) : Prop :=
  child < table.size ∧ (table[child]?.join).isSome

theorem size_foldl_set (children : List OperationId) (parent : OperationId)
    (table : Array (Option OperationId)) :
    (children.foldl (fun table child => table.setIfInBounds child (some parent)) table).size =
      table.size :=
  List.foldlRecOn (motive := fun result : Array (Option OperationId) => result.size = table.size)
    children _ rfl fun _ same _ _ => Array.size_setIfInBounds.trans same

theorem recorded_foldl_set (children : List OperationId) (parent : OperationId)
    (inside : child < table.size) (known : child ∈ children ∨ Recorded table child) :
    Recorded (children.foldl (fun table child => table.setIfInBounds child (some parent)) table)
      child := by
  induction children generalizing table with
  | nil => simpa using known
  | cons first rest ih =>
    refine ih (by simpa using inside) ?_
    rw [List.mem_cons, or_assoc] at known
    obtain rfl | listed | before := known
    · exact .inr ⟨by simpa using inside, by simp [inside]⟩
    · exact .inl listed
    · refine .inr ⟨by simpa using inside, ?_⟩
      rw [Array.getElem?_setIfInBounds]
      split
      · next same =>
        subst same
        rw [if_pos inside]
        rfl
      · exact before.2

/-- Every operation that is listed as a child has an entry in the table of parents. -/
theorem recorded_parentTable (known : t.IsChild parent child) (inside : child < t.size)
    (bound : parent < t.size) : Recorded t.parentTable child := by
  have folds (parents : List OperationId) (table : Array (Option OperationId))
      (inside : child < table.size)
      (known : parent ∈ parents ∨ Recorded table child) :
      Recorded (parents.foldl (fun table parent => (t.childrenOf parent).foldl
        (fun table child => table.setIfInBounds child (some parent)) table) table) child := by
    induction parents generalizing table with
    | nil => simpa using known
    | cons first rest ih =>
      refine ih _ (by rwa [size_foldl_set]) ?_
      rw [List.mem_cons, or_assoc] at known
      obtain rfl | listed | before := known
      · exact .inr (recorded_foldl_set _ _ inside (.inl ‹t.IsChild parent child›))
      · exact .inl listed
      · exact .inr (recorded_foldl_set _ _ inside (.inr before))
  exact folds _ _ (by simpa using inside) (.inl (List.mem_range.mpr bound))

/-- A depth is counted with as many steps as there are operations. -/
theorem depth_le_size (i : OperationId) : t.depth i ≤ t.size := by
  have steps (fuel : Nat) (i : OperationId) : depthBy t.parentTable fuel i ≤ fuel := by
    induction fuel generalizing i with
    | zero => exact Nat.le_refl 0
    | succ fuel ih =>
      unfold depthBy
      split
      · exact Nat.succ_le_succ (ih _)
      · exact Nat.zero_le _
  exact steps t.size i

namespace Compact

variable (compact : t.Compact)
include compact

/-- The operation that lists another one is its parent. -/
theorem parent_eq (known : t.IsChild parent child) : t.parent child = some parent := by
  obtain ⟨_, some⟩ :=
    recorded_parentTable known (compact.child_lt_size known) (parent_lt_size known)
  obtain ⟨other, found⟩ := Option.isSome_iff_exists.mp some
  obtain ⟨position, stored⟩ := mem_childrenOf_iff_childAt.mp known
  obtain ⟨position', stored'⟩ := mem_childrenOf_iff_childAt.mp (isChild_of_parent found)
  obtain ⟨rfl, _⟩ := compact.childAt_inj stored stored'
  exact found

theorem parent_root : t.parent t.root = none := by
  cases found : t.parent t.root with
  | none => rfl
  | some parent => exact absurd (isChild_of_parent found) compact.root_free

/-! ### Counting up -/

/-- There are as many steps up from an operation as there are operations behind it, at most. -/
theorem depthBy_eq (inside : i < t.size) (enough : t.size - i ≤ fuel) :
    depthBy t.parentTable fuel i = t.depth i := by
  have more (fuel other : Nat) (i : OperationId) (inside : i < t.size) (enough : t.size - i ≤ fuel)
      (enough' : t.size - i ≤ other) :
      depthBy t.parentTable fuel i = depthBy t.parentTable other i := by
    induction fuel generalizing other i with
    | zero => exact absurd (Nat.sub_eq_zero_iff_le.mp (Nat.le_zero.mp enough)) (by simpa using inside)
    | succ fuel ih =>
      obtain ⟨other, rfl⟩ := Nat.exists_eq_succ_of_ne_zero
        (Nat.ne_zero_of_lt (Nat.lt_of_lt_of_le (Nat.sub_pos_of_lt inside) enough'))
      unfold depthBy
      cases found : t.parentTable[i]?.join with
      | none => rfl
      | some parent =>
        have known := isChild_of_parent found
        have before := compact.before parent i known
        have bound := parent_lt_size known
        exact congrArg (· + 1) (ih other parent bound (by omega) (by omega))
  exact more fuel t.size i inside enough (Nat.sub_le _ _)

theorem depth_root : t.depth t.root = 0 := by
  have none := compact.parent_root
  unfold depth
  rw [compact.last, depthBy]
  unfold parent at none
  rw [none]

/-- A child is one step deeper. -/
theorem depth_child (known : t.IsChild parent child) : t.depth child = t.depth parent + 1 := by
  have above := compact.parent_eq known
  have before := compact.before parent child known
  have bound := parent_lt_size known
  have inside := compact.child_lt_size known
  obtain ⟨n, size⟩ := Nat.exists_eq_succ_of_ne_zero (Nat.ne_zero_of_lt bound)
  have few : t.size - parent ≤ n := by omega
  rw [← compact.depthBy_eq bound few, ← compact.depthBy_eq inside (Nat.sub_le _ _), size, depthBy]
  unfold OperationTree.parent at above
  rw [above]

/-- The depth of an operation is the length of the path to it. -/
theorem depth_eq_length {path : List SlotPosition} (leads : t.follow path t.root = some i) :
    t.depth i = path.length := by
  induction path using List.reverseRecOn generalizing i with
  | nil =>
    obtain rfl : t.root = i := Option.some.inj leads
    exact compact.depth_root
  | append_singleton path position ih =>
    rw [follow_concat] at leads
    obtain ⟨parent, before, stored⟩ := Option.bind_eq_some_iff.mp leads
    rw [compact.depth_child (mem_childrenOf_iff_childAt.mpr ⟨position, stored⟩), ih before,
      List.length_append]
    rfl

end Compact

/-! ### Counting down -/

/-- Every way down from an operation has fewer steps than a bound. -/
def Within (t : OperationTree) : Nat → OperationId → Prop
  | 0, _ => False
  | bound + 1, i => ∀ child, t.IsChild i child → Within t bound child

theorem Within.mono (within : t.Within bound i) (le : bound ≤ more) : t.Within more i := by
  induction bound generalizing more i with
  | zero => exact within.elim
  | succ bound ih =>
    obtain ⟨more, rfl⟩ := Nat.exists_eq_add_of_lt le
    exact fun child known => ih (within child known) (by omega)

theorem Within.length_lt {path : List SlotPosition} (within : t.Within bound i)
    (leads : t.follow path i = some j) : path.length < bound := by
  induction path generalizing bound i with
  | nil =>
    cases bound with
    | zero => exact within.elim
    | succ bound => exact Nat.succ_pos bound
  | cons position path ih =>
    cases bound with
    | zero => exact within.elim
    | succ bound =>
      rw [follow, List.foldlM_cons] at leads
      obtain ⟨child, stored, leads⟩ := Option.bind_eq_some_iff.mp leads
      have known : t.IsChild i child := mem_childrenOf_iff_childAt.mpr ⟨position, stored⟩
      exact Nat.succ_lt_succ (ih (within child known) leads)

/-- Operations of a tree are less deep than a bound exactly when ways down from its root have fewer
steps. -/
theorem Compact.within_iff (compact : t.Compact) :
    t.Within bound t.root ↔ ∀ i < t.size, t.depth i < bound := by
  constructor
  · intro within i inside
    obtain ⟨path, leads⟩ := Compact.exists_path (compact.reached i inside)
    rw [compact.depth_eq_length leads]
    exact within.length_lt leads
  · intro each
    have down (rest : Nat) (i : OperationId) (inside : i < t.size)
        (deep : t.depth i + rest = bound) : t.Within rest i := by
      induction rest generalizing i with
      | zero =>
        have less := each i inside
        omega
      | succ rest ih =>
        intro child known
        have deeper := compact.depth_child known
        exact ih child (compact.child_lt_size known) (by omega)
    refine down bound t.root compact.root_lt_size ?_
    rw [compact.depth_root, Nat.zero_add]

end SemanticTrees.OperationTree
