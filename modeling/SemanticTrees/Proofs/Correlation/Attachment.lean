import Mathlib.Data.List.Basic
import SemanticTrees.Correlation

/-! Where diagnostics go. An operation that was written receives a diagnostic if and only if the
search for the narrowest span ends at it, and the search ends somewhere whenever some span
contains the diagnostic. -/
namespace SemanticTrees

section Choice

variable {α : Type} {choose : Option α → α → Option α} {best : Option α} {a : α} {l : List α}

/-- The better one of the best so far and the next is one of the two. -/
def IsChoice (choose : Option α → α → Option α) : Prop :=
  ∀ best next, choose best next = some next ∨ ∃ a, best = some a ∧ choose best next = some a

theorem IsChoice.foldl_eq_none_iff (choice : IsChoice choose) :
    l.foldl choose best = none ↔ best = none ∧ l = [] := by
  induction l generalizing best with
  | nil => simp
  | cons next rest ih =>
    have found : choose best next ≠ none := by
      obtain taken | ⟨a, _, kept⟩ := choice best next
      · simp [taken]
      · simp [kept]
    simp [ih, found]

theorem IsChoice.mem_of_foldl_eq_some (choice : IsChoice choose)
    (chosen : l.foldl choose best = some a) : best = some a ∨ a ∈ l := by
  induction l generalizing best with
  | nil => exact .inl chosen
  | cons next rest ih =>
    obtain now | later := ih chosen
    · obtain taken | ⟨b, known, kept⟩ := choice best next
      · have same : next = a := Option.some.inj (taken.symm.trans now)
        exact .inr (same ▸ List.mem_cons_self)
      · exact .inl (known.trans (kept.symm.trans now))
    · exact .inr (List.mem_cons_of_mem _ later)

/-- Of two candidates the later one is chosen only if it precedes the other. What is chosen among
all of them is preceded by none. -/
theorem not_precedes_of_foldl (precedes : α → α → Bool)
    (asymm : ∀ a b, precedes a b = true → precedes b a = false)
    (trans : ∀ a b c, precedes a b = false → precedes b c = false → precedes a c = false)
    (first : ∀ a, choose none a = some a)
    (next : ∀ a b, choose (some a) b = if precedes b a then some b else some a)
    (chosen : l.foldl choose best = some a) :
    ∀ b, best = some b ∨ b ∈ l → precedes b a = false := by
  have irrefl (a : α) : precedes a a = false := by
    by_contra own
    exact own (asymm a a (Bool.not_eq_false _ ▸ own))
  induction l generalizing best with
  | nil =>
    rintro b (known | impossible)
    · obtain rfl := Option.some.inj (known.symm.trans chosen)
      exact irrefl b
    · contradiction
  | cons x rest ih =>
    have later := ih chosen
    rintro b (known | listed)
    · subst known
      by_cases before : precedes x b = true
      · rw [next, if_pos before] at later
        exact trans b x a (asymm x b before) (later x (.inl rfl))
      · rw [next, if_neg before] at later
        exact later b (.inl rfl)
    · obtain rfl | listed := List.mem_cons.mp listed
      · cases best with
        | none => exact later b (.inl (first b))
        | some y =>
          by_cases before : precedes b y = true
          · exact later b (.inl ((next y b).trans (if_pos before)))
          · have kept := later y (.inl ((next y b).trans (if_neg before)))
            exact trans b y a (Bool.not_eq_true _ ▸ before) kept
      · exact later b (.inr listed)

end Choice

section Sorting

variable {α β : Type} [DecidableEq β] {key : α → Option β} {keys : List β} {l : List α}

/-- Items are sorted into one bin for each key, and one for items without a key. -/
theorem perm_flatMap_filter_append (once : keys.Nodup)
    (known : ∀ a ∈ l, ∀ k, key a = some k → k ∈ keys) :
    l.Perm (keys.flatMap (fun k => l.filter fun a => key a = some k) ++
      l.filter fun a => (key a).isNone) := by
  induction keys generalizing l with
  | nil =>
    have all : ∀ a ∈ l, (key a).isNone = true := by
      intro a member
      cases found : key a with
      | none => rfl
      | some k => exact nomatch known a member k found
    rw [List.flatMap_nil, List.nil_append, List.filter_eq_self.mpr all]
  | cons k rest ih =>
    obtain ⟨fresh, once⟩ := List.nodup_cons.mp once
    let others := l.filter fun a => !decide (key a = some k)
    have later : ∀ a ∈ others, ∀ k', key a = some k' → k' ∈ rest := by
      intro a member k' found
      obtain ⟨listed, different⟩ := List.mem_filter.mp member
      obtain rfl | elsewhere := List.mem_cons.mp (known a listed k' found)
      · simp [found] at different
      · exact elsewhere
    have bins : rest.flatMap (fun k' => others.filter fun a => key a = some k') =
        rest.flatMap fun k' => l.filter fun a => key a = some k' := by
      refine List.flatMap_congr fun k' member => ?_
      rw [List.filter_filter]
      refine List.filter_congr fun a _ => ?_
      have different : k' ≠ k := fun same => fresh (same ▸ member)
      by_cases found : key a = some k' <;> simp [found, different]
    have outside : (others.filter fun a => (key a).isNone) = l.filter fun a => (key a).isNone := by
      rw [List.filter_filter]
      refine List.filter_congr fun a _ => ?_
      cases key a <;> simp
    have parted := (List.filter_append_perm (fun a => decide (key a = some k)) l).symm
    rw [List.flatMap_cons, List.append_assoc, ← bins, ← outside]
    exact parted.trans ((ih once later).append_left _)

end Sorting

theorem Receiver.better_isChoice : IsChoice Receiver.better := by
  intro best next
  unfold Receiver.better
  cases best with
  | none => exact .inl rfl
  | some s =>
    dsimp only
    split
    · exact .inl rfl
    · exact .inr ⟨s, rfl, rfl⟩

namespace OperationTree

variable {t : OperationTree} {receivers : List Receiver} {place : Span} {i : Nat} {r : Receiver}

theorem size_depthTable (t : OperationTree) : t.depthTable.size = t.size := by
  have sized (entries : List (OperationId × Nat)) :
      (entries.foldr (fun entry table => table.setIfInBounds entry.1 entry.2)
        (Array.replicate t.size 0)).size = t.size := by
    induction entries with
    | nil => exact Array.size_replicate
    | cons entry rest ih => exact Array.size_setIfInBounds.trans ih
  exact sized _

/-- The receivers are the operations that were written, each with its span and its depth. -/
theorem mem_receivers_iff :
    r ∈ t.receivers ↔ ∃ o, t.get? r.operation = some o ∧ o.isImplicit = false ∧ o.span = r.span ∧
      t.depthTable[r.operation]? = some r.depth := by
  obtain ⟨i, span, depth⟩ := r
  simp only [receivers, List.mem_filterMap, List.mem_zipIdx_iff_getElem?, Prod.exists,
    List.getElem?_zip_eq_some, Array.getElem?_toList]
  constructor
  · rintro ⟨o, d, j, ⟨stored, deep⟩, made⟩
    split at made
    · contradiction
    · next written =>
      obtain ⟨rfl, rfl, rfl⟩ := Receiver.mk.inj (Option.some.inj made)
      exact ⟨o, stored, Bool.not_eq_true _ ▸ written, rfl, deep⟩
  · rintro ⟨o, stored, written, rfl, deep⟩
    exact ⟨o, depth, i, ⟨stored, deep⟩, by simp [written]⟩

theorem lt_size_of_mem_receivers (member : r ∈ t.receivers) : r.operation < t.size := by
  obtain ⟨o, stored, _⟩ := mem_receivers_iff.mp member
  exact (Array.getElem?_eq_some_iff.mp stored).1

/-- Every operation that was written is among the receivers. -/
theorem exists_receiver {o : Operation} (stored : t.get? i = some o)
    (written : o.isImplicit = false) : ∃ r ∈ t.receivers, r.operation = i ∧ r.span = o.span := by
  have bound : i < t.depthTable.size := by
    rw [size_depthTable]
    exact (Array.getElem?_eq_some_iff.mp stored).1
  exact ⟨⟨i, o.span, t.depthTable[i]⟩,
    mem_receivers_iff.mpr ⟨o, stored, written, rfl, Array.getElem?_eq_getElem bound⟩, rfl, rfl⟩

theorem narrowest_eq_none_iff :
    narrowest receivers place = none ↔ ∀ r ∈ receivers, r.span.contains place = false := by
  simp [narrowest, Receiver.better_isChoice.foldl_eq_none_iff]

theorem exists_of_narrowest_eq_some (found : narrowest receivers place = some i) :
    ∃ r ∈ receivers, r.operation = i ∧ r.span.contains place = true := by
  obtain ⟨r, chosen, rfl⟩ := Option.map_eq_some_iff.mp found
  obtain impossible | member := Receiver.better_isChoice.mem_of_foldl_eq_some chosen
  · contradiction
  · obtain ⟨listed, around⟩ := List.mem_filter.mp member
    exact ⟨r, listed, rfl, around⟩

/-- What receives a diagnostic is preceded by no operation around it: none is narrower, and none as
narrow is deeper. -/
theorem not_precedes_of_narrowest (found : narrowest receivers place = some i) :
    ∃ r ∈ receivers, r.operation = i ∧ r.span.contains place = true ∧
      ∀ other ∈ receivers, other.span.contains place = true → other.precedes r = false := by
  obtain ⟨r, chosen, rfl⟩ := Option.map_eq_some_iff.mp found
  have least := not_precedes_of_foldl Receiver.precedes (by grind [Receiver.precedes])
    (by grind [Receiver.precedes]) (fun _ => rfl) (fun _ _ => rfl) chosen
  obtain impossible | member := Receiver.better_isChoice.mem_of_foldl_eq_some chosen
  · contradiction
  · obtain ⟨listed, around⟩ := List.mem_filter.mp member
    exact ⟨r, listed, rfl, around,
      fun other listed' around' => least other (.inr (List.mem_filter.mpr ⟨listed', around'⟩))⟩

end OperationTree

namespace Correlation

variable {t : OperationTree} {ds : List Diagnostic} {d : Diagnostic} {i : Nat}

/-- The operation of a tree that receives a diagnostic. -/
def receiverOf (t : OperationTree) (d : Diagnostic) : Option OperationId :=
  OperationTree.narrowest t.receivers d.span

theorem attached_perm (t : OperationTree) (ds : List Diagnostic) :
    (of t ds).attached.Perm (ds.filterMap fun d => (receiverOf t d).map (·, d)) := by
  refine (List.mergeSort_perm _ _).trans ?_
  rw [List.filterMap_map]
  exact .refl _

theorem unattached_perm (t : OperationTree) (ds : List Diagnostic) :
    (of t ds).unattached.Perm (ds.filter fun d => (receiverOf t d).isNone) := by
  refine (List.mergeSort_perm _ _).trans ?_
  rw [List.filterMap_map, ← List.filterMap_eq_filter]
  exact .refl _

/-- Every diagnostic is kept, be it with its receiver or without one. -/
theorem perm_attached_append_unattached (t : OperationTree) (ds : List Diagnostic) :
    ds.Perm ((of t ds).attached.map Prod.snd ++ (of t ds).unattached) := by
  have received : ((of t ds).attached.map Prod.snd).Perm
      (ds.filter fun d => !(receiverOf t d).isNone) := by
    refine ((attached_perm t ds).map Prod.snd).trans ?_
    rw [List.map_filterMap, ← List.filterMap_eq_filter]
    refine .of_eq (List.filterMap_congr fun d _ => ?_)
    cases found : receiverOf t d <;> simp [Option.guard, found]
  have parted := (List.filter_append_perm (fun d => (receiverOf t d).isNone) ds).symm
  exact parted.trans (List.perm_append_comm.trans
    (received.symm.append (unattached_perm t ds).symm))

theorem mem_attached_iff :
    (i, d) ∈ (of t ds).attached ↔ d ∈ ds ∧ receiverOf t d = some i := by
  rw [(attached_perm t ds).mem_iff, List.mem_filterMap]
  constructor
  · rintro ⟨e, member, made⟩
    obtain ⟨j, found, same⟩ := Option.map_eq_some_iff.mp made
    obtain ⟨rfl, rfl⟩ := Prod.mk.inj same
    exact ⟨member, found⟩
  · rintro ⟨member, found⟩
    exact ⟨d, member, by rw [found]; rfl⟩

theorem lt_size_of_receiverOf (found : receiverOf t d = some i) : i < t.size := by
  obtain ⟨r, member, rfl, _⟩ := OperationTree.exists_of_narrowest_eq_some found
  exact OperationTree.lt_size_of_mem_receivers member

end Correlation

end SemanticTrees
