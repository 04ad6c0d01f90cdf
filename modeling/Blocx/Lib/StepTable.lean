import Mathlib.Algebra.BigOperators.Intervals
import Mathlib.Algebra.BigOperators.Ring.Finset
import Mathlib.Tactic.Ring

/-!
# Step tables

A chain of tests `x ≤ b₀`, `x ≤ b₁`, … that selects a value is kept as the list of its
bounds and values. The table is read by `lookup`, two tables are combined pointwise by
`zip`, and the sum of a table over a range of naturals is computed, interval by
interval, by `rangeSum`.
-/

namespace Blocx.StepTable

open List

variable {β γ δ : Type*} {x : ℤ} {t : List (ℤ × β)} {d : β} {f : β → γ → δ} {e : ℤ × β}

/-- The value of the first entry whose bound is not below `x`. -/
def lookup : List (ℤ × β) → β → ℤ → β
  | [], d, _ => d
  | (b, v) :: t, d, x => if x ≤ b then v else lookup t d x

@[simp] lemma lookup_nil (d : β) (x : ℤ) : lookup [] d x = d := rfl

lemma lookup_cons (e : ℤ × β) (t : List (ℤ × β)) (d : β) (x : ℤ) :
    lookup (e :: t) d x = if x ≤ e.1 then e.2 else lookup t d x := rfl

lemma lookup_append_of_lt {s : List (ℤ × β)} (h : ∀ e ∈ s, e.1 < x) (t : List (ℤ × β)) (d : β) :
    lookup (s ++ t) d x = lookup t d x := by
  induction s with
  | nil => rfl
  | cons e s ih =>
    have he : ¬ x ≤ e.1 := not_le.mpr (h e (mem_cons_self ..))
    rw [cons_append, lookup_cons, if_neg he]
    exact ih fun e' he' => h e' (mem_cons_of_mem _ he')

lemma lookup_succ (h : ∀ e ∈ t, e.1 ≠ x) : lookup t d (x + 1) = lookup t d x := by
  induction t with
  | nil => rfl
  | cons e t ih =>
    rw [forall_mem_cons] at h
    have hbound : x + 1 ≤ e.1 ↔ x ≤ e.1 := by have := h.1; omega
    simp only [lookup_cons, hbound, ih h.2]

/-- One entry of a table, refined by another table. -/
def zipEntry (f : β → γ → δ) (e : ℤ × β) (t : List (ℤ × γ)) (d : γ) : List (ℤ × δ) :=
  t.map (fun e' => (min e.1 e'.1, f e.2 e'.2)) ++ [(e.1, f e.2 d)]

/-- The pointwise combination of two tables. -/
def zip (f : β → γ → δ) (s : List (ℤ × β)) (ds : β) (t : List (ℤ × γ)) (dt : γ) : List (ℤ × δ) :=
  s.flatMap (fun e => zipEntry f e t dt) ++ t.map (fun e => (e.1, f ds e.2))

lemma lookup_zipEntry_of_le (h : x ≤ e.1) {t : List (ℤ × γ)} {d : γ} {rest : List (ℤ × δ)} {d' : δ} :
    lookup (zipEntry f e t d ++ rest) d' x = f e.2 (lookup t d x) := by
  induction t with
  | nil => simp [zipEntry, lookup_cons, h]
  | cons e' t ih =>
    simp only [zipEntry, map_cons, cons_append, lookup_cons, le_min_iff, h, true_and] at ih ⊢
    split_ifs with hx
    · rfl
    · exact ih

lemma lt_of_mem_zipEntry (h : e.1 < x) {t : List (ℤ × γ)} {d : γ} {e' : ℤ × δ} (he' : e' ∈ zipEntry f e t d) :
    e'.1 < x := by
  simp only [zipEntry, mem_append, mem_map, mem_singleton] at he'
  rcases he' with ⟨a, -, rfl⟩ | rfl
  · exact lt_of_le_of_lt (min_le_left _ _) h
  · exact h

lemma lookup_map {f : β → γ} : lookup (t.map fun e => (e.1, f e.2)) (f d) x = f (lookup t d x) := by
  induction t with
  | nil => rfl
  | cons e t ih =>
    simp only [map_cons, lookup_cons]
    split_ifs
    · rfl
    · exact ih

lemma lookup_zip (f : β → γ → δ) (s : List (ℤ × β)) (ds : β) (t : List (ℤ × γ)) (dt : γ) (x : ℤ) :
    lookup (zip f s ds t dt) (f ds dt) x = f (lookup s ds x) (lookup t dt x) := by
  induction s with
  | nil => exact lookup_map
  | cons e s ih =>
    simp only [zip, flatMap_cons, append_assoc] at ih ⊢
    by_cases hx : x ≤ e.1
    · rw [lookup_zipEntry_of_le hx, lookup_cons, if_pos hx]
    · rw [lookup_append_of_lt (fun e' he' => lt_of_mem_zipEntry (not_le.mp hx) he'), ih, lookup_cons, if_neg hx]

/-- The table without the entries that no `x` above `lo` reaches. -/
def prune : ℤ → List (ℤ × β) → List (ℤ × β)
  | _, [] => []
  | lo, (b, v) :: t => if b ≤ lo then prune lo t else (b, v) :: prune b t

lemma lookup_prune {lo : ℤ} (hx : lo < x) (t : List (ℤ × β)) (d : β) : lookup (prune lo t) d x = lookup t d x := by
  induction t generalizing lo with
  | nil => rfl
  | cons e t ih =>
    simp only [prune]
    by_cases hb : e.1 ≤ lo
    · rw [if_pos hb, ih hx, lookup_cons, if_neg (by omega)]
    rw [if_neg hb, lookup_cons, lookup_cons]
    by_cases hxb : x ≤ e.1
    · rw [if_pos hxb, if_pos hxb]
    · rw [if_neg hxb, if_neg hxb, ih (not_le.mp hxb)]

/-- The sum of a table over the naturals from `lo` below `hi`, interval by interval. -/
def rangeSum : List (ℤ × ℤ) → ℤ → ℕ → ℕ → ℤ
  | [], d, lo, hi => (hi - lo : ℕ) * d
  | (b, v) :: t, d, lo, hi =>
    (min hi (b + 1).toNat - lo : ℕ) * v + rangeSum t d (max lo (b + 1).toNat) hi

lemma sum_Ico_const {lo hi : ℕ} {v : ℤ} : ∑ _p ∈ Finset.Ico lo hi, v = (hi - lo : ℕ) * v := by
  rw [Finset.sum_const, Nat.card_Ico, nsmul_eq_mul]

/-- `rangeSum` is the sum of the values read. -/
lemma sum_lookup (t : List (ℤ × ℤ)) (d : ℤ) (lo hi : ℕ) :
    ∑ p ∈ Finset.Ico lo hi, lookup t d p = rangeSum t d lo hi := by
  induction t generalizing lo with
  | nil => exact sum_Ico_const
  | cons e t ih =>
    obtain ⟨b, v⟩ := e
    -- the range splits where the first entry ends
    have hsplit : Finset.Ico lo hi = Finset.Ico lo (min hi (b + 1).toNat) ∪ Finset.Ico (max lo (b + 1).toNat) hi := by
      ext p
      simp only [Finset.mem_union, Finset.mem_Ico]
      omega
    have hdisj : Disjoint (Finset.Ico lo (min hi (b + 1).toNat)) (Finset.Ico (max lo (b + 1).toNat) hi) := by
      rw [Finset.disjoint_left]
      intro p hp hp'
      simp only [Finset.mem_Ico] at hp hp'
      omega
    rw [hsplit, Finset.sum_union hdisj, rangeSum, ← ih, ← sum_Ico_const]
    congr 1
    · refine Finset.sum_congr rfl fun p hp => ?_
      simp only [Finset.mem_Ico] at hp
      rw [lookup_cons, if_pos (by omega)]
    · refine Finset.sum_congr rfl fun p hp => ?_
      simp only [Finset.mem_Ico] at hp
      rw [lookup_cons, if_neg (by omega)]

end Blocx.StepTable
