import Mathlib.Tactic.Common

/-!
# Tree maps

Lookups in `Std.ExtTreeMap` with keys compared by equality, and maps that are filled from a list.
-/

namespace Blocx

open Std.ExtTreeMap

variable {K V : Type} [Ord K] [Std.TransOrd K] {m : Std.ExtTreeMap K V} {k : K} {v : V} {l : List (K × V)}

lemma getElem?_of_filter {f : K → V → Bool} (h : (m.filter f)[k]? = some v) : m[k]? = some v := by
  rw [getElem?_filter, Option.pfilter_eq_some_iff] at h
  exact h.choose

lemma not_contains_iff : ¬m.contains k = true ↔ m[k]? = none := by
  rw [contains_eq_isSome_getElem?, Option.not_isSome_iff_eq_none]

variable (m) [Std.LawfulEqOrd K]

lemma nodup_keys_toList : (m.toList.map Prod.fst).Nodup := by
  rw [List.Nodup, List.pairwise_map]
  refine m.distinct_keys_toList.imp fun h => ?_
  rwa [Std.compare_eq_iff_eq] at h

variable [DecidableEq K]

lemma getElem?_insert_ite (k a : K) (v : V) : (m.insert k v)[a]? = if a = k then some v else m[a]? := by
  rw [getElem?_insert]
  exact if_congr (by rw [Std.compare_eq_iff_eq, eq_comm]) rfl rfl

lemma getElem?_erase_ite (k a : K) : (m.erase k)[a]? = if a = k then none else m[a]? := by
  rw [getElem?_erase]
  exact if_congr (by rw [Std.compare_eq_iff_eq, eq_comm]) rfl rfl

lemma getElem?_insertIfNew_ite (k a : K) (v : V) :
    (m.insertIfNew k v)[a]? = if a = k ∧ m[k]? = none then some v else m[a]? := by
  rw [getElem?_insertIfNew]
  refine if_congr ?_ rfl rfl
  rw [Std.compare_eq_iff_eq, eq_comm, ← contains_iff_mem, not_contains_iff]

variable {m}

lemma forall_getElem?_insert {P : K → V → Prop} (hnew : P k v) (hm : ∀ a w, m[a]? = some w → P a w) :
    ∀ a w, (m.insert k v)[a]? = some w → P a w := by
  intro a w h
  rw [getElem?_insert_ite] at h
  split_ifs at h with hak
  · cases h
    exact hak ▸ hnew
  · exact hm a w h

/-- Enter the pairs of a list, the first one for each key. -/
def insertAllIfNew (l : List (K × V)) (m : Std.ExtTreeMap K V) : Std.ExtTreeMap K V :=
  l.foldl (fun m p => m.insertIfNew p.1 p.2) m

lemma getElem?_insertAllIfNew (hl : (l.map Prod.fst).Nodup) (m : Std.ExtTreeMap K V) (k : K) (v : V) :
    (insertAllIfNew l m)[k]? = some v ↔ m[k]? = some v ∨ (m[k]? = none ∧ (k, v) ∈ l) := by
  induction l generalizing m with
  | nil => simp [insertAllIfNew]
  | cons p l ih =>
    obtain ⟨hp, hl⟩ := List.nodup_cons.mp hl
    have hmem : ∀ v, (p.1, v) ∉ l := fun v h => hp (List.mem_map.mpr ⟨(p.1, v), h, rfl⟩)
    rw [insertAllIfNew, List.foldl_cons]
    change (insertAllIfNew l (m.insertIfNew p.1 p.2))[k]? = some v ↔ _
    rw [ih hl, getElem?_insertIfNew_ite]
    by_cases hk : k = p.1
    · subst hk
      cases hm : m[p.1]? with
      | none => simp [hmem, Prod.ext_iff, eq_comm]
      | some w => simp
    · have hne : (k, v) ≠ p := fun h => hk (congrArg Prod.fst h)
      simp [hk, hne]

lemma insertAllIfNew_of_perm (h : l.Perm m.toList) : insertAllIfNew l ∅ = m := by
  have hl : (l.map Prod.fst).Nodup := (h.map Prod.fst).nodup_iff.mpr (nodup_keys_toList m)
  apply ext_getElem?
  intro k
  apply Option.ext
  intro v
  rw [getElem?_insertAllIfNew hl]
  simp [h.mem_iff, mem_toList_iff_getElem?_eq_some]

end Blocx
