import Mathlib.Data.List.Basic

/-!
# Making entries in a table and taking them out

A table is a function to optional values. What it holds after one change is said by `update_some_eq_some_iff` and
`update_none_eq_some_iff`. Entries that were made under keys which had none are taken back by emptying the keys
(`withoutKeys_eq`).
-/

namespace Blocx

open Function

variable {K V : Type} [DecidableEq K] {f g : K → Option V} {k k' : K} {ks : List K} {v : V}

lemma update_some_eq_some_iff {v' : V} :
    update f k (some v) k' = some v' ↔ k' = k ∧ v = v' ∨ k' ≠ k ∧ f k' = some v' := by
  by_cases h : k' = k
  · subst h
    simp
  · simp [h]

lemma update_none_eq_some_iff : update f k none k' = some v ↔ k' ≠ k ∧ f k' = some v := by
  by_cases h : k' = k
  · subst h
    simp
  · simp [h]

/-- A loop that changes the entries of its keys, where changing an entry twice is changing it once. -/
lemma foldl_at_keys {S X W : Type} {step : S → X → S} (read : S → K → W) (key : X → K) (change : W → W)
    (hchange : ∀ w, change (change w) = change w)
    (hstep : ∀ s x k, read (step s x) k = if k = key x then change (read s k) else read s k) (xs : List X) (s : S)
    (k : K) : read (xs.foldl step s) k = if k ∈ xs.map key then change (read s k) else read s k := by
  induction xs generalizing s with
  | nil => rfl
  | cons x xs ih =>
    rw [List.foldl_cons, ih, hstep, List.map_cons]
    by_cases h : k = key x
    · simp [h, hchange]
    · simp [h]

/-- The table without the entries of some keys. -/
def withoutKeys (f : K → Option V) (ks : List K) : K → Option V := fun k => if k ∈ ks then none else f k

@[simp]
lemma withoutKeys_nil : withoutKeys f [] = f := by
  funext k
  simp [withoutKeys]

lemma withoutKeys_of_notMem (h : k ∉ ks) : withoutKeys f ks k = f k := if_neg h

lemma withoutKeys_eq_some_iff : withoutKeys f ks k = some v ↔ k ∉ ks ∧ f k = some v := by
  unfold withoutKeys
  split_ifs with h <;> simp [h]

variable (f k ks) in
lemma withoutKeys_update : withoutKeys (update f k none) ks = withoutKeys f (k :: ks) := by
  funext k'
  unfold withoutKeys
  by_cases hk : k' = k <;> simp [hk]

lemma withoutKeys_eq (hnone : ∀ k ∈ ks, f k = none) (hsame : ∀ k, k ∉ ks → g k = f k) : withoutKeys g ks = f := by
  funext k
  unfold withoutKeys
  by_cases hk : k ∈ ks
  · rw [if_pos hk, hnone k hk]
  · rw [if_neg hk, hsame k hk]

end Blocx
