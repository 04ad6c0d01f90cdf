import Mathlib.Data.Finset.Card

/-!
# Waiting for a turn

The first element of a list under an order that is given by a comparison, as a loop finds it that keeps the best element
so far, and the counting argument behind a queue: an element gets its turn once everything that is ahead of it has had
one, if nothing joins ahead of it and each turn takes one element away.
-/

namespace Blocx

open List

variable {α : Type*}

/-! ### The first element -/

section

/-- A turn of a loop that keeps the first element seen so far. -/
def keepFirst (lt : α → α → Bool) (first : Option α) (a : α) : Option α :=
  match first with
  | none => some a
  | some b => if lt a b then some a else some b

variable {lt : α → α → Bool} {l : List α}

/-- The loop over a list that is not empty ends with an element of it that nothing comes before, if the comparison is a
strict order. -/
lemma exists_foldl_keepFirst (hirrefl : ∀ a, lt a a = false) (htrans : ∀ a b c, lt a b → lt b c → lt a c)
    (hl : l ≠ []) : ∃ m ∈ l, l.foldl (keepFirst lt) none = some m ∧ ∀ a ∈ l, lt a m = false := by
  induction l using reverseRecOn with
  | nil => exact absurd rfl hl
  | append_singleton l a ih =>
    rw [foldl_append, foldl_cons, foldl_nil]
    by_cases hnil : l = []
    · subst hnil
      exact ⟨a, by simp, rfl, by simp [hirrefl]⟩
    · obtain ⟨m, hm, hfold, hleast⟩ := ih hnil
      rw [hfold, keepFirst]
      cases ham : lt a m with
      | true =>
        refine ⟨a, by simp, rfl, fun c hc => ?_⟩
        obtain hc | hc := mem_append.mp hc
        · by_contra hca
          have hcm := htrans c a m (by simpa using hca) ham
          rw [hleast c hc] at hcm
          cases hcm
        · rw [mem_singleton.mp hc, hirrefl]
      | false =>
        refine ⟨m, mem_append_left _ hm, rfl, fun c hc => ?_⟩
        obtain hc | hc := mem_append.mp hc
        · exact hleast c hc
        · rw [mem_singleton.mp hc, ham]

end

/-! ### Turns -/

variable [DecidableEq α]

/-- If every turn that is not one's own takes away an element that is ahead, and lets nothing in, and the turn is one's
own when nothing is ahead, then the turn comes after at most as many others as were ahead. -/
lemma exists_turn {ahead : ℕ → Finset α} {isTurn : ℕ → Prop} {n : ℕ} (hn : (ahead 0).card ≤ n)
    (hstep : ∀ k < n, ¬isTurn k → ∃ y ∈ ahead k, ahead (k + 1) ⊆ (ahead k).erase y)
    (hlast : ∀ k ≤ n, ahead k = ∅ → isTurn k) : ∃ k ≤ n, isTurn k := by
  induction n generalizing ahead isTurn with
  | zero => exact ⟨0, le_rfl, hlast 0 le_rfl (Finset.card_eq_zero.mp (Nat.le_zero.mp hn))⟩
  | succ n ih =>
    by_cases h0 : isTurn 0
    · exact ⟨0, Nat.zero_le _, h0⟩
    obtain ⟨y, hy, hsub⟩ := hstep 0 (Nat.succ_pos n) h0
    have hcard : (ahead (0 + 1)).card ≤ n := by
      have hle := Finset.card_le_card hsub
      rw [Finset.card_erase_of_mem hy] at hle
      omega
    obtain ⟨k, hk, hturn⟩ := @ih (fun k => ahead (k + 1)) (fun k => isTurn (k + 1)) hcard
      (fun k hk => hstep (k + 1) (by omega)) (fun k hk => hlast (k + 1) (by omega))
    exact ⟨k + 1, by omega, hturn⟩

end Blocx
