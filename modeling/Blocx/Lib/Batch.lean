import Mathlib.Data.List.Basic

/-!
# Batches of writes to a store

A store is a partial map, given as a function. A batch is a list of writes and erasures that are made in their order, so
that of several for one key the last one counts. What a batch did is undone by any batch that is about the same keys and
gives each of them the value it had.
-/

namespace Blocx

open List

open Function

variable {K V : Type*} [DecidableEq K]

/-- Make the changes of a batch, the first one first. A key without a value is erased. -/
def applyBatch (batch : List (K × Option V)) (store : K → Option V) : K → Option V :=
  batch.foldl (fun store change => update store change.1 change.2) store

variable {batch batch' : List (K × Option V)} {store : K → Option V} {k : K}

@[simp]
lemma applyBatch_nil : applyBatch [] store = store := rfl

@[simp]
lemma applyBatch_cons (change : K × Option V) :
    applyBatch (change :: batch) store = applyBatch batch (update store change.1 change.2) := rfl

@[simp]
lemma applyBatch_append : applyBatch (batch ++ batch') store = applyBatch batch' (applyBatch batch store) :=
  foldl_append

lemma applyBatch_of_notMem (h : k ∉ batch.map Prod.fst) : applyBatch batch store k = store k := by
  induction batch generalizing store with
  | nil => rfl
  | cons change batch ih =>
    rw [map_cons, mem_cons, not_or] at h
    rw [applyBatch_cons, ih h.2, update_of_ne h.1]

lemma applyBatch_of_forall {v : Option V} (hmem : k ∈ batch.map Prod.fst)
    (h : ∀ change ∈ batch, change.1 = k → change.2 = v) :
    applyBatch batch store k = v := by
  induction batch generalizing store with
  | nil => cases hmem
  | cons change batch ih =>
    rw [applyBatch_cons]
    by_cases hrest : k ∈ batch.map Prod.fst
    · exact ih hrest fun c hc => h c (mem_cons_of_mem change hc)
    · rw [map_cons, mem_cons] at hmem
      obtain rfl := hmem.resolve_right hrest
      rw [applyBatch_of_notMem hrest, update_self]
      exact h change mem_cons_self rfl

lemma applyBatch_ne_none (hmem : k ∈ batch.map Prod.fst) (h : ∀ change ∈ batch, change.2 ≠ none) :
    applyBatch batch store k ≠ none := by
  induction batch generalizing store with
  | nil => cases hmem
  | cons change batch ih =>
    rw [forall_mem_cons] at h
    rw [applyBatch_cons]
    by_cases hrest : k ∈ batch.map Prod.fst
    · exact ih hrest h.2
    · rw [map_cons, mem_cons] at hmem
      obtain rfl := hmem.resolve_right hrest
      rw [applyBatch_of_notMem hrest, update_self]
      exact h.1

/-- A batch is undone by one about the same keys that gives them the values they had. -/
lemma applyBatch_restores (hkeys : ∀ k, k ∈ batch'.map Prod.fst ↔ k ∈ batch.map Prod.fst)
    (hvalues : ∀ change ∈ batch', change.2 = store change.1) : applyBatch batch' (applyBatch batch store) = store := by
  funext k
  by_cases hk : k ∈ batch'.map Prod.fst
  · exact applyBatch_of_forall hk fun change hchange heq => heq ▸ hvalues change hchange
  · rw [applyBatch_of_notMem hk, applyBatch_of_notMem fun h => hk ((hkeys k).mpr h)]

end Blocx
