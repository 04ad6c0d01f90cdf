import Blocx.Lib.OrderedStore
import Mathlib.Data.List.Lex

/-!
# Iterators

An iterator over the keys of a store is known by its operations: whether it stands on a key, the key, a step to the next
one and a jump to the first key from a given one on. What a client sees is the list of keys it passes (`Visits`). An
iterator is right for a store if, wherever it is sent, it visits the keys of the store from there on, in order
(`Iterates`).

Bytes and lists of bytes are ordered here as `memcmp` orders them.
-/

namespace Blocx

open List

/-! ### The order of bytes -/

instance linearOrderUInt8 : LinearOrder UInt8 where
  le_refl a := UInt8.le_refl a
  le_trans _ _ _ := UInt8.le_trans
  le_antisymm _ _ := UInt8.le_antisymm
  le_total := UInt8.le_total
  lt_iff_le_not_ge a b := by
    rw [UInt8.le_iff_toNat_le, UInt8.le_iff_toNat_le, UInt8.lt_iff_toNat_lt]
    omega
  toDecidableLE := inferInstance
  toDecidableLT := inferInstance

/-! ### Sorted lists of keys -/

section

variable {K : Type} [LinearOrder K] {l l' : List K}

lemma eq_of_mem_iff (hl : l.Pairwise (· < ·)) (hl' : l'.Pairwise (· < ·)) (h : ∀ k, k ∈ l ↔ k ∈ l') : l = l' := by
  have hperm : l.Perm l' := (perm_ext_iff_of_nodup (hl.imp ne_of_lt) (hl'.imp ne_of_lt)).mpr h
  exact hperm.eq_of_pairwise (fun a b _ _ hab hba => absurd (hab.trans hba) (lt_irrefl a)) hl hl'

lemma pairwise_lt_merge (hl : l.Pairwise (· < ·)) (hl' : l'.Pairwise (· < ·)) (hdisj : ∀ k ∈ l, k ∉ l') :
    (merge l l').Pairwise (· < ·) := by
  have hle : (merge l l').Pairwise fun a b => decide (a ≤ b) = true := by
    refine pairwise_merge (fun a b c hab hbc => ?_) (fun a b => ?_) l l' (hl.imp fun h => ?_) (hl'.imp fun h => ?_)
    · exact decide_eq_true ((of_decide_eq_true hab).trans (of_decide_eq_true hbc))
    · simpa using le_total a b
    · exact decide_eq_true h.le
    · exact decide_eq_true h.le
  have hnodup : (merge l l').Nodup :=
    (merge_perm_append _).nodup_iff.mpr (List.Nodup.append (hl.imp ne_of_lt) (hl'.imp ne_of_lt) hdisj)
  exact (hle.and hnodup).imp fun h => lt_of_le_of_ne (of_decide_eq_true h.1) h.2

end

/-! ### Stores -/

namespace OrderedStore

variable {K V W : Type} [LinearOrder K] {s : OrderedStore K V} {t : OrderedStore K W} {k : K}

def keys (s : OrderedStore K V) : List K := s.entries.map Prod.fst

lemma pairwise_keys (s : OrderedStore K V) : s.keys.Pairwise (· < ·) := pairwise_map.mpr s.sorted

lemma mem_keys : k ∈ s.keys ↔ (s.get k).isSome = true := by
  unfold keys
  rw [mem_map, Option.isSome_iff_exists]
  constructor
  · rintro ⟨e, he, rfl⟩
    exact ⟨e.2, get_eq_some_iff.mpr he⟩
  · rintro ⟨v, hv⟩
    exact ⟨(k, v), get_eq_some_iff.mp hv, rfl⟩

def keysFrom (s : OrderedStore K V) (k : K) : List K := (s.seek k).map Prod.fst

lemma keysFrom_eq : s.keysFrom k = s.keys.filter (k ≤ ·) := by
  unfold keysFrom keys
  rw [seek_eq_filter, filter_map]
  rfl

lemma pairwise_keysFrom (s : OrderedStore K V) (k : K) : (s.keysFrom k).Pairwise (· < ·) := by
  rw [keysFrom_eq]
  exact s.pairwise_keys.filter _

lemma mem_keysFrom {k' : K} : k' ∈ s.keysFrom k ↔ (s.get k').isSome = true ∧ k ≤ k' := by
  rw [keysFrom_eq, mem_filter, mem_keys, decide_eq_true_iff]

end OrderedStore

/-! ### Iterators -/

/-- The operations of an iterator. A step may fail an assertion. -/
structure IterOps (K S : Type) where
  new : S
  /-- The iterator stands on a key. -/
  valid : S → Bool
  getKey : S → K
  next : S → Option S
  /-- The first key from a key on. -/
  seek : S → K → Option S

namespace IterOps

variable {K S V : Type} {ops : IterOps K S}

/-- The keys on which the iterator stands, up to its end, each position with a property. -/
def Visits (ops : IterOps K S) (P : S → K → Prop) : S → List K → Prop
  | s, [] => ops.valid s = false
  | s, k :: ks => ops.valid s = true ∧ ops.getKey s = k ∧ P s k ∧ ∃ s', ops.next s = some s' ∧ Visits ops P s' ks

lemma Visits.imp {P Q : S → K → Prop} (h : ∀ s k, ops.valid s = true → ops.getKey s = k → P s k → Q s k) {s : S}
    {ks : List K} (hvisits : ops.Visits P s ks) : ops.Visits Q s ks := by
  induction ks generalizing s with
  | nil => exact hvisits
  | cons k ks ih =>
    obtain ⟨hvalid, hkey, hP, s', hnext, hrest⟩ := hvisits
    exact ⟨hvalid, hkey, h s k hvalid hkey hP, s', hnext, ih hrest⟩

variable [LinearOrder K]

/-- Wherever it is sent, the iterator visits the keys of the store from there on. -/
def Iterates (ops : IterOps K S) (store : OrderedStore K V) : Prop :=
  ∀ s k, ∃ s', ops.seek s k = some s' ∧ ops.Visits (fun _ _ => True) s' (store.keysFrom k)

end IterOps

/-- The iterator of a store itself: what is left of its entries. -/
def OrderedStore.iterOps {K V : Type} [LinearOrder K] (store : OrderedStore K V) (default : K) :
    IterOps K (List (K × V)) where
  new := []
  valid s := !s.isEmpty
  getKey s := match s with
    | [] => default
    | e :: _ => e.1
  next s := some s.tail
  seek _ k := some (store.seek k)

lemma OrderedStore.iterates {K V : Type} [LinearOrder K] (store : OrderedStore K V) (default : K) :
    (store.iterOps default).Iterates store := by
  have hvisits : ∀ l : List (K × V), (store.iterOps default).Visits (fun _ _ => True) l (l.map Prod.fst) := by
    intro l
    induction l with
    | nil => rfl
    | cons e l ih => exact ⟨rfl, rfl, trivial, l, rfl, ih⟩
  intro s k
  exact ⟨_, rfl, hvisits (store.seek k)⟩

end Blocx
