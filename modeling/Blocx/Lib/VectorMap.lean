import Mathlib.Data.List.Induction
import Mathlib.Data.List.Nodup

/-!
# Maps from keys to vectors

A `std::map` whose values are vectors, kept as the list of its entries in the order of the keys. `emplaceBack` is
`map[key].emplace_back(value)`. A map that is filled from nothing holds, under each key, the values that were put there
in the order in which they came (`mem_grouped`), whatever the order of the keys is.
-/

namespace Blocx

open List

variable {α K V : Type*}

/-- Put an element after those that go before it, in a list that is in order. -/
def insertOrdered (before : α → Bool) (a : α) (l : List α) : List α := l.takeWhile before ++ a :: l.dropWhile before

lemma perm_insertOrdered (before : α → Bool) (a : α) (l : List α) : (insertOrdered before a l).Perm (a :: l) := by
  refine perm_middle.trans ?_
  rw [takeWhile_append_dropWhile]

@[simp]
lemma mem_insertOrdered {before : α → Bool} {a b : α} {l : List α} : b ∈ insertOrdered before a l ↔ b = a ∨ b ∈ l := by
  rw [(perm_insertOrdered before a l).mem_iff, mem_cons]

variable [Ord K] [DecidableEq K]

/-- Put a value at the end of the vector of a key. -/
def emplaceBack (key : K) (value : V) (map : List (K × List V)) : List (K × List V) :=
  if map.any fun entry => entry.1 = key then
    map.map fun entry => if entry.1 = key then (entry.1, entry.2 ++ [value]) else entry
  else insertOrdered (fun entry => (compare entry.1 key).isLT) (key, [value]) map

/-- The map that is filled with values in turn. -/
def grouped (values : List (K × V)) : List (K × List V) :=
  values.foldl (fun map value => emplaceBack value.1 value.2 map) []

/-- The values that were put under a key. -/
def valuesAt (values : List (K × V)) (key : K) : List V := (values.filter fun value => value.1 = key).map Prod.snd

variable {values : List (K × V)} {key : K} {vector : List V} {v : V} {map : List (K × List V)}

lemma grouped_append_singleton (values : List (K × V)) (value : K × V) :
    grouped (values ++ [value]) = emplaceBack value.1 value.2 (grouped values) := by
  unfold grouped
  rw [foldl_append]
  rfl

omit [Ord K] in
lemma valuesAt_append_singleton {value : K × V} :
    valuesAt (values ++ [value]) key = valuesAt values key ++ if value.1 = key then [value.2] else [] := by
  unfold valuesAt
  split_ifs <;> simp_all

omit [Ord K] in
lemma mem_valuesAt : v ∈ valuesAt values key ↔ (key, v) ∈ values := by
  unfold valuesAt
  simp only [mem_map, mem_filter, decide_eq_true_eq]
  constructor
  · rintro ⟨⟨k, w⟩, ⟨hmem, rfl⟩, rfl⟩
    exact hmem
  · intro hmem
    exact ⟨(key, v), ⟨hmem, rfl⟩, rfl⟩

lemma keys_emplaceBack_perm {value : V} : ((emplaceBack key value map).map Prod.fst).Perm
      (if key ∈ map.map Prod.fst then map.map Prod.fst else key :: map.map Prod.fst) := by
  unfold emplaceBack
  have hany : (map.any fun entry => entry.1 = key) ↔ key ∈ map.map Prod.fst := by
    simp [any_eq_true]
  split_ifs with h hmem hmem
  · rw [map_map]
    refine List.Perm.of_eq (map_congr_left fun entry _ => ?_)
    dsimp only [Function.comp_apply]
    split_ifs <;> rfl
  · exact absurd (hany.mp h) hmem
  · exact absurd (hany.mpr hmem) h
  · exact (perm_insertOrdered _ _ _).map Prod.fst

lemma nodup_keys_grouped (values : List (K × V)) : ((grouped values).map Prod.fst).Nodup := by
  induction values using reverseRecOn with
  | nil => exact nodup_nil
  | append_singleton values value ih =>
    rw [grouped_append_singleton, (keys_emplaceBack_perm ..).nodup_iff]
    split_ifs with hmem
    · exact ih
    · exact nodup_cons.mpr ⟨hmem, ih⟩

/-- The vector of the key gets longer, or a new one comes in; the others stay. -/
lemma mem_emplaceBack {k : K} : (k, vector) ∈ emplaceBack key v map ↔
    k ≠ key ∧ (k, vector) ∈ map ∨ k = key ∧ ((∃ old, (key, old) ∈ map ∧ vector = old ++ [v]) ∨
      (∀ old, (key, old) ∉ map) ∧ vector = [v]) := by
  unfold emplaceBack
  split_ifs with h
  · grind
  · grind [mem_insertOrdered]

lemma mem_grouped : (key, vector) ∈ grouped values ↔ vector = valuesAt values key ∧ vector ≠ [] := by
  induction values using reverseRecOn generalizing key vector with
  | nil => exact iff_of_false not_mem_nil fun h => h.2 h.1
  | append_singleton values value ih =>
    rw [grouped_append_singleton, valuesAt_append_singleton, mem_emplaceBack]
    simp only [ih]
    by_cases hk : value.1 = key
    · -- there was a vector for the key exactly if it had values
      subst hk
      by_cases hempty : valuesAt values value.1 = [] <;> simp +contextual [hempty]
    · simp [hk, Ne.symm hk]

lemma mem_flatMap_grouped : v ∈ (grouped values).flatMap Prod.snd ↔ ∃ key, (key, v) ∈ values := by
  rw [mem_flatMap]
  constructor
  · rintro ⟨⟨key, vector⟩, hmem, hv⟩
    obtain ⟨rfl, -⟩ := mem_grouped.mp hmem
    exact ⟨key, mem_valuesAt.mp hv⟩
  · rintro ⟨key, hmem⟩
    have hv := mem_valuesAt.mpr hmem
    exact ⟨(key, valuesAt values key), mem_grouped.mpr ⟨rfl, ne_nil_of_mem hv⟩, hv⟩

lemma mem_keys_grouped : key ∈ (grouped values).map Prod.fst ↔ key ∈ values.map Prod.fst := by
  simp only [mem_map, Prod.exists, exists_and_right, exists_eq_right]
  constructor
  · rintro ⟨vector, hmem⟩
    obtain ⟨rfl, hne⟩ := mem_grouped.mp hmem
    obtain ⟨v, hv⟩ := exists_mem_of_ne_nil _ hne
    exact ⟨v, mem_valuesAt.mp hv⟩
  · rintro ⟨v, hmem⟩
    exact ⟨valuesAt values key, mem_grouped.mpr ⟨rfl, ne_nil_of_mem (mem_valuesAt.mpr hmem)⟩⟩

lemma length_grouped_eq_one (hkey : key ∈ values.map Prod.fst) :
    (grouped values).length = 1 ↔ ∀ value ∈ values, value.1 = key := by
  have hmem := mem_keys_grouped.mpr hkey
  rw [← length_map Prod.fst, length_eq_one_iff]
  constructor
  · rintro ⟨k, hk⟩ value hvalue
    have hvalue := mem_keys_grouped.mpr (mem_map_of_mem (f := Prod.fst) hvalue)
    rw [hk, mem_singleton] at hmem hvalue
    rw [hvalue, hmem]
  · intro hall
    refine ⟨key, by_contra fun hne => ?_⟩
    obtain hnil | ⟨k, hk, hother⟩ := ((nodup_keys_grouped values).ne_singleton_iff key).mp hne
    · rw [hnil] at hmem
      cases hmem
    · obtain ⟨value, hvalue, rfl⟩ := mem_map.mp (mem_keys_grouped.mp hk)
      exact hother (hall value hvalue)

end Blocx
