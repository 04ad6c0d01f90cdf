import Mathlib.Algebra.BigOperators.Group.List.Basic
import Mathlib.Algebra.Ring.Int.Defs
import Mathlib.Data.List.Sort
import Mathlib.Data.Prod.Lex

/-!
# Ordered stores

A finite map whose keys are in order, with an iterator: `seek` gives the entries from a key on. A loop over the iterator
that stops at the first entry which fails a test sees all entries that pass it, provided that the entries that pass come
first (`mem_takeWhile_seek`).
-/

namespace Blocx

open List Option

/-- A finite map with ordered keys. -/
structure OrderedStore (K V : Type) [LinearOrder K] where
  entries : List (K × V) := []
  sorted : entries.Pairwise (fun a b => a.1 < b.1) := by exact List.Pairwise.nil

namespace OrderedStore

variable {K V : Type} [LinearOrder K] {s : OrderedStore K V} {k k' : K} {v v' : V} {keys : List K}

/-- The value of a key. -/
def get (s : OrderedStore K V) (k : K) : Option V := (s.entries.find? (·.1 = k)).map (·.2)

lemma nodup (s : OrderedStore K V) : (s.entries.map Prod.fst).Nodup :=
  pairwise_map.mpr (s.sorted.imp ne_of_lt)

lemma get_eq_some_iff : s.get k = some v ↔ (k, v) ∈ s.entries := by
  unfold get
  rw [map_eq_some_iff]
  constructor
  · rintro ⟨⟨k', v'⟩, hfind, rfl⟩
    obtain rfl : k' = k := by simpa using find?_some hfind
    exact mem_of_find?_eq_some hfind
  · intro hmem
    cases hfind : s.entries.find? (·.1 = k) with
    | none => exact absurd (find?_eq_none.mp hfind _ hmem) (by simp)
    | some e =>
      have hkey : e.1 = k := by simpa using find?_some hfind
      rw [inj_on_of_nodup_map s.nodup (mem_of_find?_eq_some hfind) hmem hkey]
      exact ⟨_, rfl, rfl⟩

/-! ### Writes and erasures -/

/-- Write a value. -/
def write (s : OrderedStore K V) (k : K) (v : V) : OrderedStore K V where
  entries := s.entries.filter (·.1 < k) ++ (k, v) :: s.entries.filter (k < ·.1)
  sorted := by
    refine pairwise_append.mpr ⟨s.sorted.filter _, pairwise_cons.mpr ⟨?_, s.sorted.filter _⟩, ?_⟩
    · intro e he
      exact of_decide_eq_true (mem_filter.mp he).2
    · intro e he e' he'
      have hlt : e.1 < k := of_decide_eq_true (mem_filter.mp he).2
      obtain rfl | he' := mem_cons.mp he'
      · exact hlt
      · exact hlt.trans (of_decide_eq_true (mem_filter.mp he').2)

/-- Erase a key. -/
def erase (s : OrderedStore K V) (k : K) : OrderedStore K V where
  entries := s.entries.filter (·.1 ≠ k)
  sorted := s.sorted.filter _

@[simp]
lemma get_write : (s.write k v).get k' = if k' = k then some v else s.get k' := by
  apply Option.ext
  intro w
  rw [get_eq_some_iff]
  show (k', w) ∈ s.entries.filter _ ++ (k, v) :: s.entries.filter _ ↔ _
  simp only [mem_append, mem_cons, mem_filter, decide_eq_true_eq, Prod.mk.injEq]
  split_ifs with hk
  · subst hk
    simp [eq_comm]
  · rw [get_eq_some_iff]
    have hlt := lt_or_gt_of_ne hk
    tauto

@[simp]
lemma get_erase : (s.erase k).get k' = if k' = k then none else s.get k' := by
  apply Option.ext
  intro w
  rw [get_eq_some_iff]
  show (k', w) ∈ s.entries.filter _ ↔ _
  split_ifs with hk
  · simp [hk]
  · simp [hk, get_eq_some_iff]

lemma get_foldl_erase : (keys.foldl erase s).get k' = if k' ∈ keys then none else s.get k' := by
  induction keys generalizing s with
  | nil => simp
  | cons k keys ih =>
    rw [foldl_cons, ih, get_erase]
    by_cases hk : k' = k <;> simp [hk]

lemma get_foldl_write : (keys.foldl (fun s k => s.write k v) s).get k' = if k' ∈ keys then some v else s.get k' := by
  induction keys generalizing s with
  | nil => simp
  | cons k keys ih =>
    rw [foldl_cons, ih, get_write]
    by_cases hk : k' = k <;> simp [hk]

/-! ### Values under a function -/

/-- Change the values; an entry without a new value is left out. -/
def filterMap {W : Type} (s : OrderedStore K V) (f : K → V → Option W) : OrderedStore K W where
  entries := s.entries.filterMap fun e => (f e.1 e.2).map fun w => (e.1, w)
  sorted := by
    refine s.sorted.filterMap _ fun a b hlt a' ha' b' hb' => ?_
    obtain ⟨w, -, rfl⟩ := map_eq_some_iff.mp ha'
    obtain ⟨w', -, rfl⟩ := map_eq_some_iff.mp hb'
    exact hlt

lemma get_filterMap {W : Type} (f : K → V → Option W) : (s.filterMap f).get k = (s.get k).bind (f k) := by
  apply Option.ext
  intro w
  rw [get_eq_some_iff, bind_eq_some_iff]
  show (k, w) ∈ s.entries.filterMap _ ↔ _
  simp only [mem_filterMap, map_eq_some_iff, Prod.mk.injEq, Prod.exists]
  constructor
  · rintro ⟨k', v, hmem, w', hf, rfl, rfl⟩
    exact ⟨v, get_eq_some_iff.mpr hmem, hf⟩
  · rintro ⟨v, hget, hf⟩
    exact ⟨k, v, get_eq_some_iff.mp hget, w, hf, rfl, rfl⟩

/-! ### Sums -/

/-- The sum of a number for each entry. -/
def sumBy (f : K → V → ℤ) (s : OrderedStore K V) : ℤ := (s.entries.map fun e => f e.1 e.2).sum

/-- The entry of a key in the sum. -/
def part (f : K → V → ℤ) (s : OrderedStore K V) (k : K) : ℤ := ((s.get k).map (f k)).getD 0

lemma filter_key : s.entries.filter (fun e => !decide (e.1 ≠ k)) = ((s.get k).map fun v => (k, v)).toList := by
  cases hget : s.get k with
  | none =>
    refine filter_eq_nil_iff.mpr fun e he => ?_
    have hne : e.1 ≠ k := by
      rintro rfl
      rw [get_eq_some_iff.mpr he] at hget
      cases hget
    simp [hne]
  | some v =>
    have hmem := get_eq_some_iff.mp hget
    refine perm_singleton.mp ((perm_ext_iff_of_nodup (s.nodup.of_map.filter _) (by simp)).mpr fun e => ?_)
    rw [mem_filter, mem_singleton]
    constructor
    · rintro ⟨he, hk⟩
      have hkey : e.1 = k := by simpa using hk
      exact inj_on_of_nodup_map s.nodup he hmem hkey
    · rintro rfl
      exact ⟨hmem, by simp⟩

lemma sumBy_erase (f : K → V → ℤ) (s : OrderedStore K V) (k : K) : (s.erase k).sumBy f = s.sumBy f - s.part f k := by
  have hperm := (filter_append_perm (fun e : K × V => decide (e.1 ≠ k)) s.entries).map fun e => f e.1 e.2
  have hsum := hperm.sum_eq
  rw [map_append, sum_append, filter_key] at hsum
  unfold sumBy part
  rw [← hsum]
  show _ = (s.erase k).sumBy f + _ - _
  cases s.get k <;> simp [sumBy]

lemma sumBy_write (f : K → V → ℤ) (s : OrderedStore K V) (k : K) (v : V) :
    (s.write k v).sumBy f = s.sumBy f - s.part f k + f k v := by
  rw [← sumBy_erase]
  have hperm : (s.write k v).entries.Perm ((k, v) :: (s.erase k).entries) := by
    refine (perm_ext_iff_of_nodup (s.write k v).nodup.of_map ?_).mpr fun e => ?_
    · refine nodup_cons.mpr ⟨fun hmem => ?_, (s.erase k).nodup.of_map⟩
      exact absurd (mem_filter.mp hmem).2 (by simp)
    · rw [← get_eq_some_iff, get_write, mem_cons, ← get_eq_some_iff, get_erase, Prod.mk.injEq]
      split_ifs with hk <;> simp [hk, eq_comm]
  have hsum := (hperm.map fun e => f e.1 e.2).sum_eq
  rw [map_cons, sum_cons] at hsum
  unfold sumBy
  rw [hsum, add_comm]

/-! ### Iterators -/

lemma takeWhile_eq_filter {α : Type} {p : α → Bool} {l : List α} (h : l.Pairwise fun a b => p b → p a) :
    l.takeWhile p = l.filter p ∧ l.dropWhile p = l.filter (!p ·) := by
  induction l with
  | nil => exact ⟨rfl, rfl⟩
  | cons a l ih =>
    obtain ⟨ha, hl⟩ := pairwise_cons.mp h
    obtain ⟨htake, hdrop⟩ := ih hl
    by_cases hp : p a
    · simp [hp, htake, hdrop]
    · have hfail : ∀ b ∈ l, p b = false := fun b hb => Bool.eq_false_iff.mpr fun hpb => hp (ha b hb hpb)
      have hnone : l.filter p = [] := filter_eq_nil_iff.mpr fun b hb => by simp [hfail b hb]
      have hall : l.filter (!p ·) = l := filter_eq_self.mpr fun b hb => by simp [hfail b hb]
      simp [hp, hnone, hall]

/-- The entries that an iterator gives, from a key on. -/
def seek (s : OrderedStore K V) (k : K) : List (K × V) := s.entries.dropWhile (·.1 < k)

lemma seek_eq_filter : s.seek k = s.entries.filter (k ≤ ·.1) := by
  have hcut : s.entries.Pairwise fun a b => decide (b.1 < k) → decide (a.1 < k) :=
    s.sorted.imp fun hlt hk => decide_eq_true (hlt.trans (of_decide_eq_true hk))
  unfold seek
  rw [(takeWhile_eq_filter hcut).2]
  exact filter_congr fun e _ => by simp [← not_lt]

/-- What a loop over the iterator sees, when the entries that pass its test come first. -/
lemma mem_takeWhile_seek {p : K × V → Bool} (hp : ∀ a b : K × V, k ≤ a.1 → a.1 < b.1 → p b → p a) {e : K × V} :
    e ∈ (s.seek k).takeWhile p ↔ e ∈ s.entries ∧ k ≤ e.1 ∧ p e := by
  have hcut : (s.seek k).Pairwise fun a b => p b → p a := by
    rw [seek_eq_filter]
    refine (s.sorted.filter _).imp_of_mem fun ha _ hlt => hp _ _ ?_ hlt
    exact of_decide_eq_true (mem_filter.mp ha).2
  rw [(takeWhile_eq_filter hcut).1, seek_eq_filter, mem_filter, mem_filter, decide_eq_true_eq, and_assoc]

end OrderedStore

end Blocx
