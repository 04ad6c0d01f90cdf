import Mathlib.Data.List.Sort

/-!
# Caches that forget what was used least recently

A cache holds values for some keys, each with the time of its last access. An insertion that makes it larger than a
threshold leaves the most recently used entries only, up to a size. So an insertion may take any other entry away, and a
statement about what a cache holds says that every entry it has is right, never that it has one. All that such
statements need is in `lookup_get`, `lookup_insert` and `lookup_erase`.
-/

namespace Blocx

open List Function

/-- A cache. -/
structure LruCache (K V : Type) where
  /-- Number of entries that a truncation leaves. -/
  maxSize : ℕ
  /-- Number of entries up to which there is no truncation. -/
  truncateThreshold : ℕ
  /-- The entries: key, value and time of the last access. -/
  entries : List (K × V × ℕ) := []
  /-- The next time of an access. -/
  accessCounter : ℕ := 0
  nodup : (entries.map Prod.fst).Nodup := by exact List.nodup_nil

namespace LruCache

variable {K V : Type} [DecidableEq K] {c : LruCache K V} {k k' : K} {v v' : V} {keys : List K} {f : K → V}

/-- The value that the cache holds for a key. -/
def lookup (c : LruCache K V) (k : K) : Option V := (c.entries.find? (·.1 = k)).map (·.2.1)

lemma lookup_eq_some_iff : c.lookup k = some v ↔ ∃ n, (k, v, n) ∈ c.entries := by
  unfold lookup
  rw [Option.map_eq_some_iff]
  constructor
  · rintro ⟨⟨k', v', n⟩, hfind, rfl⟩
    obtain rfl : k' = k := by simpa using find?_some hfind
    exact ⟨n, mem_of_find?_eq_some hfind⟩
  · rintro ⟨n, hmem⟩
    cases hfind : c.entries.find? (·.1 = k) with
    | none => exact absurd (find?_eq_none.mp hfind _ hmem) (by simp)
    | some e =>
      have hkey : e.1 = k := by simpa using find?_some hfind
      rw [inj_on_of_nodup_map c.nodup (mem_of_find?_eq_some hfind) hmem hkey]
      exact ⟨_, rfl, rfl⟩

lemma entries_ne_nil (h : c.lookup k = some v) : c.entries ≠ [] := by
  obtain ⟨n, hmem⟩ := lookup_eq_some_iff.mp h
  exact ne_nil_of_mem hmem

/-! ### Lookups -/

/-- Set the time of the last access of a key. -/
def touch (c : LruCache K V) (k : K) : LruCache K V where
  maxSize := c.maxSize
  truncateThreshold := c.truncateThreshold
  entries := c.entries.map fun e => if e.1 = k then (e.1, e.2.1, c.accessCounter) else e
  accessCounter := c.accessCounter + 1
  nodup := by
    have hkeys : (Prod.fst ∘ fun e : K × V × ℕ => if e.1 = k then (e.1, e.2.1, c.accessCounter) else e) = Prod.fst := by
      funext e
      simp only [comp_apply]
      split_ifs <;> rfl
    rw [map_map, hkeys]
    exact c.nodup

/-- A lookup that counts as an access. -/
def get (c : LruCache K V) (k : K) : Option V × LruCache K V :=
  match c.lookup k with
  | some v => (some v, c.touch k)
  | none => (none, c)

@[simp]
lemma fst_get : (c.get k).1 = c.lookup k := by
  unfold get
  cases c.lookup k with
  | none | some v => rfl

lemma lookup_touch : (c.touch k').lookup k = c.lookup k := by
  apply Option.ext
  intro v
  rw [lookup_eq_some_iff, lookup_eq_some_iff]
  show (∃ n, (k, v, n) ∈ c.entries.map _) ↔ _
  simp only [mem_map]
  constructor
  · rintro ⟨n, e, hmem, heq⟩
    split_ifs at heq
    · obtain ⟨rfl, rfl, -⟩ := heq
      exact ⟨e.2.2, hmem⟩
    · exact ⟨n, heq ▸ hmem⟩
  · rintro ⟨n, hmem⟩
    by_cases hk : k = k'
    · exact ⟨c.accessCounter, _, hmem, if_pos hk⟩
    · exact ⟨n, _, hmem, if_neg hk⟩

@[simp]
lemma lookup_get : (c.get k').2.lookup k = c.lookup k := by
  unfold get
  split
  · exact lookup_touch
  · rfl

/-! ### Insertions -/

/-- The entries that an insertion leaves: all of them, or the most recently used ones. -/
def truncate (maxSize truncateThreshold : ℕ) (entries : List (K × V × ℕ)) : List (K × V × ℕ) :=
  if entries.length ≤ truncateThreshold then entries
  else (entries.insertionSort fun a b => b.2.2 ≤ a.2.2).take maxSize

omit [DecidableEq K] in
lemma subperm_truncate {maxSize truncateThreshold : ℕ} {entries : List (K × V × ℕ)} :
    (truncate maxSize truncateThreshold entries).Subperm entries := by
  unfold truncate
  split_ifs
  · exact List.Subperm.refl _
  · exact (take_sublist ..).subperm.trans (perm_insertionSort ..).subperm

lemma nodup_insert {maxSize truncateThreshold n : ℕ} :
    ((truncate maxSize truncateThreshold ((k, v, n) :: c.entries.filter (·.1 ≠ k))).map Prod.fst).Nodup := by
  obtain ⟨l, hperm, hsub⟩ := subperm_truncate
  refine (hperm.map Prod.fst).nodup_iff.mp ((hsub.map Prod.fst).nodup ?_)
  rw [map_cons, nodup_cons]
  constructor
  · intro hmem
    simp at hmem
  · exact c.nodup.sublist (filter_sublist.map Prod.fst)

/-- Enter a value for a key. -/
def insert (c : LruCache K V) (k : K) (v : V) : LruCache K V where
  maxSize := c.maxSize
  truncateThreshold := c.truncateThreshold
  entries := truncate c.maxSize c.truncateThreshold ((k, v, c.accessCounter) :: c.entries.filter (·.1 ≠ k))
  accessCounter := c.accessCounter + 1
  nodup := nodup_insert ..

lemma lookup_insert (h : (c.insert k v).lookup k' = some v') : k' = k ∧ v' = v ∨ k' ≠ k ∧ c.lookup k' = some v' := by
  obtain ⟨n, hmem⟩ := lookup_eq_some_iff.mp h
  obtain heq | hmem := mem_cons.mp ((subperm_truncate ..).subset hmem)
  · obtain ⟨rfl, rfl, -⟩ := heq
    exact .inl ⟨rfl, rfl⟩
  · obtain ⟨hmem, hne⟩ := mem_filter.mp hmem
    exact .inr ⟨of_decide_eq_true hne, lookup_eq_some_iff.mpr ⟨n, hmem⟩⟩

lemma lookup_foldl_insert (h : (keys.foldl (fun c k => c.insert k v) c).lookup k' = some v') :
    k' ∈ keys ∧ v' = v ∨ k' ∉ keys ∧ c.lookup k' = some v' := by
  induction keys generalizing c with
  | nil => exact .inr ⟨not_mem_nil, h⟩
  | cons k keys ih =>
    obtain ⟨hmem, hv⟩ | ⟨hnot, hlookup⟩ := ih h
    · exact .inl ⟨mem_cons_of_mem k hmem, hv⟩
    · obtain ⟨rfl, hv⟩ | ⟨hne, hlookup⟩ := lookup_insert hlookup
      · exact .inl ⟨mem_cons_self, hv⟩
      · exact .inr ⟨not_mem_cons_of_ne_of_not_mem hne hnot, hlookup⟩

lemma lookup_get_insert (h : ((c.get k).2.insert k v).lookup k' = some v') :
    c.lookup k' = some v' ∨ k' = k ∧ v' = v := by
  obtain ⟨heq, hv⟩ | ⟨-, h⟩ := lookup_insert h
  · exact .inr ⟨heq, hv⟩
  · exact .inl (lookup_get.symm.trans h)

/-! ### Reading through a cache -/

/-- The entry of a key, or the value below the cache, which then gets an entry. -/
def getThrough (c : LruCache K V) (f : K → V) (k : K) : V × LruCache K V :=
  match c.get k with
  | (some v, c) => (v, c)
  | (none, c) => (f k, c.insert k (f k))

lemma fst_getThrough : (c.getThrough f k).1 = (c.lookup k).getD (f k) := by
  have hfst : (c.get k).1 = c.lookup k := fst_get
  unfold getThrough
  split
  next v c' hget =>
    rw [hget] at hfst
    rw [← hfst]
    rfl
  next c' hget =>
    rw [hget] at hfst
    rw [← hfst]
    rfl

lemma lookup_getThrough (h : (c.getThrough f k).2.lookup k' = some v') :
    c.lookup k' = some v' ∨ k' = k ∧ v' = f k := by
  have hsnd : ∀ k', (c.get k).2.lookup k' = c.lookup k' := fun _ => lookup_get
  unfold getThrough at h
  split at h
  next v c' hget =>
    rw [hget] at hsnd
    exact .inl ((hsnd k').symm.trans h)
  next c' hget =>
    rw [hget] at hsnd
    obtain ⟨rfl, rfl⟩ | ⟨-, h⟩ := lookup_insert h
    · exact .inr ⟨rfl, rfl⟩
    · exact .inl ((hsnd k').symm.trans h)

/-- A cache whose entries are the values below it gives those values, and keeps its entries so. -/
lemma getThrough_spec (h : ∀ k v, c.lookup k = some v → v = f k) (k : K) :
    (c.getThrough f k).1 = f k ∧ ∀ k' v, (c.getThrough f k).2.lookup k' = some v → v = f k' := by
  constructor
  · rw [fst_getThrough]
    cases hlookup : c.lookup k with
    | none => rfl
    | some v => exact h k v hlookup
  · intro k' v hk
    obtain hk | ⟨rfl, rfl⟩ := lookup_getThrough hk
    · exact h k' v hk
    · rfl

/-! ### Erasures -/

/-- Take the entry of a key away. -/
def erase (c : LruCache K V) (k : K) : LruCache K V where
  maxSize := c.maxSize
  truncateThreshold := c.truncateThreshold
  entries := c.entries.filter (·.1 ≠ k)
  accessCounter := c.accessCounter
  nodup := c.nodup.sublist (filter_sublist.map Prod.fst)

lemma lookup_erase : (c.erase k).lookup k' = some v' ↔ k' ≠ k ∧ c.lookup k' = some v' := by
  rw [lookup_eq_some_iff, lookup_eq_some_iff]
  show (∃ n, (k', v', n) ∈ c.entries.filter _) ↔ _
  simp only [mem_filter, decide_eq_true_eq]
  exact ⟨fun ⟨n, hmem, hne⟩ => ⟨hne, n, hmem⟩, fun ⟨hne, n, hmem⟩ => ⟨n, hmem, hne⟩⟩

/-! ### Right entries -/

section

variable {α : Type} {g : α → V} {m : K → α} {a : α} (h : ∀ k v, c.lookup k = some v → v = g (m k))

include h

/-- Entries that are right stay so when a table and its cache get a value for a key. -/
lemma right_insert (hv : v = g a) : ∀ k' v', (c.insert k v).lookup k' = some v' →
    v' = g (Function.update m k a k') := by
  intro k' v' hlookup
  obtain ⟨rfl, rfl⟩ | ⟨hne, hlookup⟩ := lookup_insert hlookup
  · rw [update_self, hv]
  · rw [update_of_ne hne, h k' v' hlookup]

lemma right_erase : ∀ k' v', (c.erase k).lookup k' = some v' → v' = g (Function.update m k a k') := by
  intro k' v' hlookup
  obtain ⟨hne, hlookup⟩ := lookup_erase.mp hlookup
  rw [update_of_ne hne, h k' v' hlookup]

end

lemma lookup_foldl_erase : (keys.foldl erase c).lookup k' = some v' ↔ k' ∉ keys ∧ c.lookup k' = some v' := by
  induction keys generalizing c with
  | nil => simp
  | cons k keys ih => rw [foldl_cons, ih, lookup_erase, mem_cons, not_or]; tauto

end LruCache

end Blocx
