import SemanticTrees.Proofs.Correlation.Order
import SemanticTrees.Proofs.Operation.Navigation

/-! Accounts of diagnostics. Attached diagnostics are in the order of their receivers, so the search
by halving finds those of one operation in one piece, and what is found below an operation is every
diagnostic there, once and in order. Every receiver is as narrow as can be, and as deep. -/
namespace SemanticTrees

namespace Correlation

/-! ### Searching by halving -/

section Searching

variable {α : Type} {passes : α → Bool} {entries : Array α} {low high point : Nat} {l : List α}

/-- The search ends where entries stop to pass. -/
theorem partitionPoint_eq (front : ∀ k < point, entries[k]?.any passes = true)
    (back : ∀ k, point ≤ k → entries[k]?.any passes = false) (above : low ≤ point)
    (below : point ≤ high) : partitionPoint passes entries low high = point := by
  fun_induction partitionPoint passes entries low high with
  | case1 low high less middle passed ih =>
    refine ih ?_ below
    by_contra behind
    rw [back middle (by omega)] at passed
    contradiction
  | case2 low high less middle failed ih =>
    refine ih above ?_
    by_contra ahead
    exact failed (front middle (by omega))
  | case3 low high final => omega

/-- Of a list in two parts the search finds the length of the first one. -/
theorem partitionPoint_append {first second : List α} (front : ∀ a ∈ first, passes a = true)
    (back : ∀ a ∈ second, passes a = false) :
    partitionPoint passes (first ++ second).toArray 0 (first ++ second).toArray.size =
      first.length := by
  refine partitionPoint_eq ?_ ?_ (Nat.zero_le _) (by simp)
  · intro k inside
    simp [List.getElem?_append_left inside, List.getElem?_eq_getElem inside, front]
  · intro k outside
    rw [List.getElem?_toArray, List.getElem?_append_right outside]
    cases found : second[k - first.length]? with
    | none => rfl
    | some a => exact back a (List.mem_of_getElem? found)

/-- A list in which nothing that passes comes behind what does not is in two parts. -/
theorem filter_append_filter_not (ordered : l.Pairwise fun a b => passes b = true → passes a = true) :
    (l.filter passes) ++ l.filter (fun a => !passes a) = l := by
  induction l with
  | nil => rfl
  | cons a rest ih =>
    obtain ⟨first, ordered⟩ := List.pairwise_cons.mp ordered
    cases passed : passes a with
    | true => simp [passed, ih ordered]
    | false =>
      have none : ∀ b ∈ rest, passes b = false := by
        intro b listed
        by_contra later
        rw [first b listed (Bool.not_eq_false _ ▸ later)] at passed
        contradiction
      have front : rest.filter passes = [] := by simpa using none
      have back : (rest.filter fun a => !passes a) = rest := by simpa using none
      simp [passed, front, back]

end Searching

variable {c : Correlation} {t : OperationTree} {ds : List Diagnostic} {i : Nat}

/-- Entries in the order of their operations are those in front of an operation, its own and those
behind it. -/
theorem exists_parts {entries : List (OperationId × Diagnostic)}
    (ordered : entries.Pairwise fun a b => a.1 ≤ b.1) (i : Nat) :
    ∃ before own behind, entries = before ++ (own ++ behind) ∧ (∀ a ∈ before, a.1 < i) ∧
      (∀ a ∈ own, a.1 = i) ∧ ∀ a ∈ behind, i < a.1 := by
  let rest := entries.filter fun a => !decide (a.1 < i)
  have first : (entries.filter fun a => decide (a.1 < i)) ++ rest = entries := by
    refine filter_append_filter_not (ordered.imp ?_)
    simp only [decide_eq_true_eq]
    exact fun le less => Nat.lt_of_le_of_lt le less
  have second : (rest.filter fun a => decide (a.1 ≤ i)) ++
      (rest.filter fun a => !decide (a.1 ≤ i)) = rest := by
    refine filter_append_filter_not ((ordered.sublist List.filter_sublist).imp ?_)
    simp only [decide_eq_true_eq]
    exact fun le le' => Nat.le_trans le le'
  refine ⟨_, _, _, ((congrArg _ second).trans first).symm, by simp, ?_, by simp⟩
  intro a member
  obtain ⟨member, le⟩ := List.mem_filter.mp member
  have ge := (List.mem_filter.mp member).2
  simp only [decide_eq_true_eq, Bool.not_eq_true', decide_eq_false_iff_not] at le ge
  exact Nat.le_antisymm le (Nat.le_of_not_lt ge)

/-- The diagnostics that are found for an operation are the entries of the operation, all of them
and in their order. -/
theorem diagnosticsOf_eq (ordered : c.attached.Pairwise fun a b => a.1 ≤ b.1) :
    c.diagnosticsOf i = (c.attached.filter fun entry => entry.1 == i).map Prod.snd := by
  obtain ⟨before, own, behind, whole, less, same, greater⟩ := exists_parts ordered i
  have start : partitionPoint (fun entry : OperationId × Diagnostic => decide (entry.1 < i))
      c.attached.toArray 0 c.attached.toArray.size = before.length := by
    rw [whole]
    refine partitionPoint_append (by simpa using less) ?_
    intro entry member
    obtain member | member := List.mem_append.mp member
    · simp [same entry member]
    · simp [Nat.le_of_lt (greater entry member)]
  have stop : partitionPoint (fun entry : OperationId × Diagnostic => decide (entry.1 ≤ i))
      c.attached.toArray 0 c.attached.toArray.size = (before ++ own).length := by
    rw [whole, ← List.append_assoc]
    refine partitionPoint_append ?_ (by simpa using greater)
    intro entry member
    obtain member | member := List.mem_append.mp member
    · simp [Nat.le_of_lt (less entry member)]
    · simp [same entry member]
  have piece : (c.attached.toArray.extract before.length (before ++ own).length).toList = own := by
    simp [whole, List.extract_eq_take_drop]
  have filtered : (c.attached.filter fun entry => entry.1 == i) = own := by
    have none : (before.filter fun entry => entry.1 == i) = [] := by
      simpa using fun j d member => Nat.ne_of_lt (less (j, d) member)
    have all : (own.filter fun entry => entry.1 == i) = own := by
      simpa using fun j d member => same (j, d) member
    have none' : (behind.filter fun entry => entry.1 == i) = [] := by
      simpa using fun j d member => Nat.ne_of_gt (greater (j, d) member)
    rw [whole, List.filter_append, List.filter_append, none, all, none', List.nil_append,
      List.append_nil]
  unfold diagnosticsOf
  dsimp only
  rw [start, stop, piece, filtered]

/-! ### The order of what is attached -/

theorem pairwise_attached (t : OperationTree) (ds : List Diagnostic) :
    (of t ds).attached.Pairwise fun a b => (compareAttached a b).isLE = true :=
  pairwise_mergeSort_isLE compareAttached _

/-- An entry that does not come behind another one has no later operation, and no later diagnostic
if they have one operation. -/
theorem le_of_compareAttached {a b : OperationId × Diagnostic}
    (ordered : (compareAttached a b).isLE = true) :
    a.1 ≤ b.1 ∧ (a.1 = b.1 → a.2.le b.2 = true) := by
  change ((compare a.1 b.1).then (a.2.compare b.2)).isLE = true at ordered
  cases order : compare a.1 b.1 with
  | lt =>
    have less := Nat.compare_eq_lt.mp order
    exact ⟨Nat.le_of_lt less, fun same => absurd same (Nat.ne_of_lt less)⟩
  | eq =>
    rw [order] at ordered
    exact ⟨Nat.le_of_eq (Nat.compare_eq_eq.mp order), fun _ => ordered⟩
  | gt =>
    rw [order] at ordered
    contradiction

theorem diagnosticsOf_of (t : OperationTree) (ds : List Diagnostic) (i : Nat) :
    (of t ds).diagnosticsOf i =
      ((of t ds).attached.filter fun entry => entry.1 == i).map Prod.snd :=
  diagnosticsOf_eq ((pairwise_attached t ds).imp fun ordered => (le_of_compareAttached ordered).1)

theorem pairwise_diagnosticsOf (t : OperationTree) (ds : List Diagnostic) (i : Nat) :
    ((of t ds).diagnosticsOf i).Pairwise fun d e => d.le e = true := by
  rw [diagnosticsOf_of, List.pairwise_map]
  refine ((pairwise_attached t ds).sublist List.filter_sublist).imp_of_mem ?_
  intro a b first second ordered
  have own {entry : OperationId × Diagnostic}
      (member : entry ∈ (of t ds).attached.filter fun entry => entry.1 == i) : entry.1 = i :=
    beq_iff_eq.mp (List.mem_filter.mp member).2
  exact (le_of_compareAttached ordered).2 ((own first).trans (own second).symm)

/-! ### What lies below an operation -/

open scoped Classical in
/-- Below an operation are the diagnostics of all entries below it. -/
theorem within_perm (compact : t.Compact) (inside : i < t.size) :
    ((of t ds).within t i).Perm
      (((of t ds).attached.filter fun entry => t.Below i entry.1).map Prod.snd) := by
  let entries := (of t ds).attached
  let below := entries.filter fun entry => decide (t.Below i entry.1)
  have listed (entry : OperationId × Diagnostic) (member : entry ∈ below) (j : OperationId)
      (key : some entry.1 = some j) : j ∈ t.descendants i := by
    obtain rfl := Option.some.inj key
    exact (compact.mem_descendants_iff inside).mpr (by simpa using (List.mem_filter.mp member).2)
  have parted := perm_flatMap_filter_append (compact.nodup_descendants i) listed
  have keyed : (below.filter fun entry => (some entry.1).isNone) = [] := by simp
  rw [keyed, List.append_nil] at parted
  have each : (t.descendants i).flatMap (fun j => below.filter fun entry => some entry.1 = some j) =
      (t.descendants i).flatMap fun j => entries.filter fun entry => entry.1 == j := by
    refine List.flatMap_congr fun j member => ?_
    have known := (compact.mem_descendants_iff inside).mp member
    rw [List.filter_filter]
    refine List.filter_congr fun entry _ => ?_
    by_cases same : entry.1 = j
    · simp [same, known]
    · simp [same]
  have gathered : (t.descendants i).flatMap (of t ds).diagnosticsOf =
      ((t.descendants i).flatMap fun j => entries.filter fun entry => entry.1 == j).map Prod.snd := by
    rw [List.map_flatMap]
    exact List.flatMap_congr fun j _ => diagnosticsOf_of t ds j
  refine (List.mergeSort_perm _ _).trans ?_
  rw [gathered, ← each]
  exact (parted.map Prod.snd).symm

theorem within_root_perm (compact : t.Compact) (ds : List Diagnostic) :
    ((of t ds).within t t.root).Perm ((of t ds).attached.map Prod.snd) := by
  refine (within_perm compact compact.root_lt_size).trans (.of_eq ?_)
  rw [List.filter_eq_self.mpr]
  rintro ⟨j, d⟩ member
  have found := (mem_attached_iff.mp member).2
  simpa using compact.reached j (lt_size_of_receiverOf found)

end Correlation

/-! ### Where a diagnostic is attached -/

namespace OperationTree

variable {t : OperationTree} {i : Nat} {o : Operation} {place : Span}

/-- An operation that was written and contains a place, and is the best one to do so: none is
shorter, and none that is as short is deeper. -/
structure IsNarrowest (t : OperationTree) (place : Span) (i : OperationId) (o : Operation) :
    Prop where
  found : t.get? i = some o
  written : o.isImplicit = false
  around : o.span.contains place = true
  best : ∀ j o', t.get? j = some o' → o'.isImplicit = false → o'.span.contains place = true →
    o.span.length ≤ o'.span.length ∧
      (o'.span.length = o.span.length → t.depth j ≤ t.depth i)

theorem Compact.depthTable_eq (compact : t.Compact) (inside : i < t.size) :
    t.depthTable[i]? = some (t.depth i) := by
  have bound : i < t.depthTable.size := by rwa [size_depthTable]
  have deep : t.depthTable[i]? = some t.depthTable[i] := Array.getElem?_eq_getElem bound
  obtain ⟨path, leads, length⟩ := compact.exists_path_of_depthTable deep
  rw [deep, ← length, compact.depth_eq_length leads]

theorem Compact.receiver_depth (compact : t.Compact) {r : Receiver} (listed : r ∈ t.receivers) :
    r.depth = t.depth r.operation := by
  obtain ⟨_, _, _, _, deep⟩ := mem_receivers_iff.mp listed
  rw [compact.depthTable_eq (lt_size_of_mem_receivers listed)] at deep
  exact (Option.some.inj deep).symm

theorem Compact.isNarrowest (compact : t.Compact) (found : narrowest t.receivers place = some i) :
    ∃ o, t.IsNarrowest place i o := by
  obtain ⟨r, listed, rfl, around, least⟩ := not_precedes_of_narrowest found
  obtain ⟨o, stored, written, span, _⟩ := mem_receivers_iff.mp listed
  refine ⟨o, stored, written, span ▸ around, ?_⟩
  intro j o' stored' written' around'
  obtain ⟨r', listed', rfl, span'⟩ := exists_receiver stored' written'
  have beaten := least r' listed' (span' ▸ around')
  have depth := compact.receiver_depth listed
  have depth' := compact.receiver_depth listed'
  simp only [Receiver.precedes, Bool.or_eq_false_iff, Bool.and_eq_false_iff,
    decide_eq_false_iff_not, beq_eq_false_iff_ne, span', ← span, depth, depth'] at beaten
  refine ⟨Nat.le_of_not_lt beaten.1, fun same => ?_⟩
  obtain other | deep := beaten.2
  · exact absurd same other
  · exact Nat.le_of_not_lt deep

end OperationTree

namespace Correlation

variable {t : OperationTree} {ds : List Diagnostic}

open scoped Classical in
/-- What a correlation tells of the diagnostics of a tree: for an operation, the entries of that
operation in order; below an operation, each diagnostic once that is attached there, in order; and
each diagnostic is attached to the narrowest operation around it, or to none as there is none. -/
structure Accounts (c : Correlation) (t : OperationTree) (ds : List Diagnostic) : Prop where
  own : ∀ i, c.diagnosticsOf i = (c.attached.filter fun entry => entry.1 == i).map Prod.snd
  ownOrdered : ∀ i, (c.diagnosticsOf i).Pairwise fun d e => d.le e = true
  below : ∀ i < t.size, (c.within t i).Perm
    ((c.attached.filter fun entry => t.Below i entry.1).map Prod.snd)
  belowOrdered : ∀ i < t.size, (c.within t i).Pairwise fun d e => d.le e = true
  whole : (c.within t t.root).Perm (c.attached.map Prod.snd)
  narrowest : ∀ i d, (i, d) ∈ c.attached → ∃ o, t.IsNarrowest d.span i o
  kept : ds.Perm (c.attached.map Prod.snd ++ c.unattached)
  outside : ∀ d ∈ c.unattached, ∀ i o, t.get? i = some o → o.isImplicit = false →
    o.span.contains d.span = false

theorem of_accounts (compact : t.Compact) (ds : List Diagnostic) : (of t ds).Accounts t ds where
  own := diagnosticsOf_of t ds
  ownOrdered := pairwise_diagnosticsOf t ds
  below _ := within_perm compact
  belowOrdered _ _ := Diagnostic.pairwise_sort _
  whole := within_root_perm compact ds
  narrowest _ _ member := compact.isNarrowest (mem_attached_iff.mp member).2
  kept := perm_attached_append_unattached t ds
  outside d member i o stored written := by
    have alone := (List.mem_filter.mp ((unattached_perm t ds).mem_iff.mp member)).2
    obtain ⟨r, listed, _, span⟩ := OperationTree.exists_receiver stored written
    rw [← span]
    exact OperationTree.narrowest_eq_none_iff.mp (Option.isNone_iff_eq_none.mp alone) r listed

/-- The correlation of every tree that is built accounts for any diagnostics. -/
theorem build_accounts {p : Program} {options : LoweringOptions} {id : SyntaxId}
    (built : p.build options .pending id = .ok (some t)) (ds : List Diagnostic) :
    (of t ds).Accounts t ds :=
  of_accounts (Program.tree?_compact (Program.build_eq_ok built)) ds

/-- A warning about a whole sum. -/
def remark : Diagnostic := ⟨⟨0, 5⟩, "remark", .warning, 2⟩

theorem flawedSum_accounts :
    ∃ t, flawedSum.build {} .pending 2 = .ok (some t) ∧ receiverOf t flaw = some 1 ∧
      receiverOf t remark = some 2 ∧ (of t [flaw, remark]).within t 2 = [remark, flaw] ∧
      (of t [flaw, remark]).Accounts t [flaw, remark] := by
  obtain ⟨t, built, inner, outer, listed⟩ : ∃ t, flawedSum.build {} .pending 2 = .ok (some t) ∧
      receiverOf t flaw = some 1 ∧ receiverOf t remark = some 2 ∧ t.descendants 2 = [2, 0, 1] :=
    ⟨_, rfl, by decide +kernel, by decide +kernel, by decide +kernel⟩
  have accounts := build_accounts built [flaw, remark]
  -- both lists are in order already, so that sorting leaves them as they are
  have attached : (of t [flaw, remark]).attached = [(1, flaw), (2, remark)] := by
    have placed : (of t [flaw, remark]).attached =
        List.mergeSort [(1, flaw), (2, remark)] Correlation.le := by
      rw [receiverOf] at inner outer
      simp [of, inner, outer]
    exact placed.trans (List.mergeSort_of_pairwise (by decide))
  have within : (of t [flaw, remark]).within t 2 = [remark, flaw] := by
    have gathered : (of t [flaw, remark]).within t 2 = Diagnostic.sort [remark, flaw] := by
      simp [Correlation.within, listed, accounts.own, attached]
    exact gathered.trans (List.mergeSort_of_pairwise (by decide))
  exact ⟨t, built, inner, outer, within, accounts⟩

end Correlation

end SemanticTrees
