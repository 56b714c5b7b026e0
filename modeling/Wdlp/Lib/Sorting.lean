import Mathlib

/-!
# Unstable sorting

An unstable sort puts the entries of a list in order and promises nothing about entries that
compare as equal. A program that uses one is determined only as far as its result does not depend
on their arrangement.

## Main definitions

* `UnstableSort cmp` — a sorting function for the comparison `cmp`, with its contract.

## Main results

* `UnstableSort.head_isLE` — no entry comes before the first one.
* `UnstableSort.cons_perm` — the first entry and the others are the entries of the list.
-/

namespace CrashSafe

variable {α : Type} {cmp : α → α → Ordering}

/-- A sort by the given comparison: the entries are kept, and none stands behind one that it comes
before. -/
structure UnstableSort (cmp : α → α → Ordering) where
  sort : List α → List α
  perm : ∀ l, (sort l).Perm l
  sorted : ∀ l, (sort l).Pairwise fun a b => (cmp a b).isLE = true

namespace UnstableSort

/-- A stable sort is an unstable one. -/
def stable [Std.TransCmp cmp] : UnstableSort cmp where
  sort l := l.mergeSort fun a b => (cmp a b).isLE
  perm l := l.mergeSort_perm _
  sorted l := by
    refine List.pairwise_mergeSort (fun a b c => Std.TransCmp.isLE_trans) (fun a b => ?_) l
    have hswap : cmp b a = (cmp a b).swap := Std.OrientedCmp.eq_swap
    rw [hswap]
    cases cmp a b <;> rfl

variable (S : UnstableSort cmp) {l : List α}

theorem sort_ne_nil (h : l ≠ []) : S.sort l ≠ [] :=
  fun hnil => h (List.perm_nil.mp (hnil ▸ (S.perm l).symm))

/-- The first entry and the others are the entries of the list. -/
theorem cons_perm (h : l ≠ []) : ((S.sort l).head (S.sort_ne_nil h) :: (S.sort l).tail).Perm l := by
  rw [List.cons_head_tail]
  exact S.perm l

theorem head_mem (h : l ≠ []) : (S.sort l).head (S.sort_ne_nil h) ∈ l :=
  (S.cons_perm h).mem_iff.mp List.mem_cons_self

/-- No entry comes before the first one. -/
theorem head_isLE [Std.ReflCmp cmp] (h : l ≠ []) {a : α} (ha : a ∈ l) :
    (cmp ((S.sort l).head (S.sort_ne_nil h)) a).isLE = true := by
  have hsorted := S.sorted l
  rw [← List.cons_head_tail (S.sort_ne_nil h)] at hsorted
  rcases List.mem_cons.mp ((S.cons_perm h).mem_iff.mpr ha) with rfl | htail
  · exact Std.ReflCmp.isLE_rfl
  · exact (List.pairwise_cons.mp hsorted).1 a htail

end UnstableSort

end CrashSafe
