import Mathlib.Data.List.Sort

/-!
# Places in a sorted list

The number at a place of a sorted list is at least `m` exactly when as many numbers are at least `m` as there are from
that place on. So a place can be followed through changes of the list that are only known up to order.
-/

namespace Blocx

open List

variable {α : Type} [LinearOrder α] {l : List α} {m : α} {i : ℕ}

def sortedList (l : List α) : List α := l.insertionSort (· ≤ ·)

lemma length_sortedList (l : List α) : (sortedList l).length = l.length := length_insertionSort _ l

lemma countP_sortedList {f : α → Bool} : (sortedList l).countP f = l.countP f :=
  (perm_insertionSort _ l).countP_eq f

lemma pairwise_sortedList : (sortedList l).Pairwise (· ≤ ·) := pairwise_insertionSort _ l

lemma length_sub_le_countP (hm : (sortedList l)[i]? = some m) : l.length - i ≤ l.countP (m ≤ ·) := by
  rw [← countP_sortedList, ← length_sortedList l]
  obtain ⟨hi', rfl⟩ := List.getElem?_eq_some_iff.mp hm
  have hdrop : ∀ x ∈ (sortedList l).drop i, decide ((sortedList l)[i] ≤ x) = true := by
    intro x hx
    obtain ⟨j, hj, rfl⟩ := mem_drop_iff_getElem.mp hx
    refine decide_eq_true ?_
    rcases Nat.eq_zero_or_pos j with rfl | hpos
    · simp
    · exact pairwise_iff_getElem.mp pairwise_sortedList i (i + j) hi' (by omega) (by omega)
  have hcount := countP_eq_length.mpr hdrop
  have hle := ((sortedList l).drop_sublist i).countP_le (p := fun x => decide ((sortedList l)[i] ≤ x))
  rw [hcount, length_drop] at hle
  exact hle

/-- With so many numbers of at least `m`, the one at the place is one of them. -/
lemma le_of_length_sub_le_countP (h : l.length - i ≤ l.countP (m ≤ ·)) {x : α} (hx : (sortedList l)[i]? = some x) :
    m ≤ x := by
  obtain ⟨hi, rfl⟩ := List.getElem?_eq_some_iff.mp hx
  by_contra hlt
  rw [not_le] at hlt
  rw [← countP_sortedList, ← length_sortedList l, ← take_append_drop (i + 1) (sortedList l), countP_append,
    length_append] at h
  have htake : ((sortedList l).take (i + 1)).countP (m ≤ ·) = 0 := by
    rw [countP_eq_zero]
    intro x hx
    obtain ⟨j, hj, rfl⟩ := mem_take_iff_getElem.mp hx
    have hle : (sortedList l)[j] ≤ (sortedList l)[i] := by
      rcases Nat.lt_or_ge j i with hji | hij
      · exact pairwise_iff_getElem.mp pairwise_sortedList j i (by omega) hi hji
      · obtain rfl : j = i := by omega
        exact le_refl _
    simpa using hle.trans_lt hlt
  have hdrop : ((sortedList l).drop (i + 1)).countP (m ≤ ·) ≤ ((sortedList l).drop (i + 1)).length := countP_le_length
  rw [htake, length_take] at h
  omega

end Blocx
