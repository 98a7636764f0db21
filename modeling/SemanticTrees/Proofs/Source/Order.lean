import Mathlib.Data.List.Basic
import SemanticTrees.Source.Diagnostic

/-! The order of diagnostics. It is linear and tells any two different diagnostics apart, so sorting
forgets the order of the input. -/
namespace SemanticTrees

open Std

section Sorting

variable {α : Type} (cmp : α → α → Ordering) [TransCmp cmp] {l l' : List α}

theorem pairwise_mergeSort_isLE (l : List α) :
    (l.mergeSort fun a b => (cmp a b).isLE).Pairwise fun a b => (cmp a b).isLE = true := by
  refine List.pairwise_mergeSort (fun a b c => TransCmp.isLE_trans) (fun a b => ?_) l
  have swapped : cmp b a = (cmp a b).swap := OrientedCmp.eq_swap
  rw [swapped]
  cases cmp a b <;> rfl

theorem mergeSort_eq_of_perm [LawfulEqCmp cmp] (perm : l.Perm l') :
    l.mergeSort (fun a b => (cmp a b).isLE) = l'.mergeSort fun a b => (cmp a b).isLE := by
  refine List.Perm.eq_of_pairwise ?_ (pairwise_mergeSort_isLE cmp l)
    (pairwise_mergeSort_isLE cmp l')
    ((List.mergeSort_perm l _).trans (perm.trans (List.mergeSort_perm l' _).symm))
  intro a b _ _ le ge
  exact LawfulEqCmp.eq_of_compare (OrientedCmp.isLE_antisymm le ge)

end Sorting

namespace Span

instance : Ord Span := ⟨Span.compare⟩

theorem compare_eq_compareLex : Span.compare = compareLex (compareOn start) (compareOn stop) := rfl

instance : TransOrd Span := by
  change TransCmp Span.compare
  rw [compare_eq_compareLex]
  infer_instance

instance : LawfulEqOrd Span where
  compare_self := ReflCmp.compare_self
  eq_of_compare {s t} same := by
    obtain ⟨starts, stops⟩ := Ordering.then_eq_eq.mp same
    cases s
    cases t
    rw [mk.injEq]
    exact ⟨LawfulEqOrd.eq_of_compare starts, LawfulEqOrd.eq_of_compare stops⟩

end Span

theorem Category.rank_inj {a b : Category} (same : a.rank = b.rank) : a = b := by
  cases a <;> cases b <;> first | rfl | contradiction

namespace Diagnostic

instance : Ord Diagnostic := ⟨Diagnostic.compare⟩

/-- The code points of the text. -/
def codePoints (d : Diagnostic) : List Nat := d.text.toList.map Char.toNat

theorem compareText_eq (s t : List Char) :
    compareText s t = Ord.compare (s.map Char.toNat) (t.map Char.toNat) := by
  fun_induction compareText s t with
  | case1 => rfl
  | case2 => rfl
  | case3 => rfl
  | case4 c s d t ih =>
    rw [ih]
    exact List.compareLex_cons_cons.symm

theorem codePoints_inj {d e : Diagnostic} (same : d.codePoints = e.codePoints) :
    d.text = e.text := by
  have chars : d.text.toList = e.text.toList :=
    List.map_injective_iff.mpr (fun _ _ => Char.toNat_inj.mp) same
  exact String.toList_inj.mp chars

theorem compare_eq_compareLex :
    Diagnostic.compare = compareLex (compareOn span) (compareLex (compareOn code)
      (compareLex (compareOn fun d => d.category.rank) (compareOn codePoints))) := by
  funext d e
  simp only [Diagnostic.compare, compareText_eq]
  rfl

instance : TransOrd Diagnostic := by
  change TransCmp Diagnostic.compare
  rw [compare_eq_compareLex]
  infer_instance

instance : LawfulEqOrd Diagnostic where
  compare_self := ReflCmp.compare_self
  eq_of_compare {d e} same := by
    change Diagnostic.compare d e = .eq at same
    simp only [compare_eq_compareLex, compareLex, Ordering.then_eq_eq, compareOn,
      LawfulEqOrd.compare_eq_iff_eq] at same
    obtain ⟨spans, codes, ranks, texts⟩ := same
    cases d
    cases e
    rw [mk.injEq]
    exact ⟨spans, codePoints_inj texts, Category.rank_inj ranks, codes⟩

theorem pairwise_sort (ds : List Diagnostic) : (sort ds).Pairwise fun d e => d.le e = true :=
  pairwise_mergeSort_isLE Ord.compare ds

theorem sort_eq_of_perm {ds es : List Diagnostic} (perm : ds.Perm es) : sort ds = sort es :=
  mergeSort_eq_of_perm Ord.compare perm

end Diagnostic

end SemanticTrees
