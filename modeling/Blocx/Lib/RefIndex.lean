import Blocx.Lib.TreeMap
import Mathlib.Data.Multiset.AddSub

/-!
# Reference-counted indexes

An index maps a key to the one owner that holds it and to the number of times the owner holds it. An owner takes a
reference with `add`, which is refused when another owner has the key, and gives one back with `delete`, which is
refused when the owner does not have the key.

What an index is for is said by `Counts m held`: the multiset `held o` is what the owner `o` holds, and the index is
exactly the table of the multiplicities. It follows that no key has two owners (`Counts.unique`), that the index is
determined by what is held (`Counts.ext`), and that the two operations succeed exactly when they should and change
the multiset of one owner by one key. A sequence of operations is then followed through the multisets alone.
-/

namespace Blocx

open Function Multiset Option

/-- An index: the owner of a key and the number of times that the owner holds it. -/
abbrev RefIndex (K O : Type) [Ord K] : Type := Std.ExtTreeMap K (O × ℕ)

namespace RefIndex

variable {K O : Type} [Ord K] [Std.TransOrd K]

/-- Take a reference on a key. Refused when another owner has the key. -/
def add [DecidableEq O] (m : RefIndex K O) (o : O) (k : K) : Bool × RefIndex K O :=
  match m[k]? with
  | none => (true, m.insert k (o, 1))
  | some (o', c) => if o' = o then (true, m.insert k (o, c + 1)) else (false, m)

/-- Give a reference back. Refused when the owner does not have the key. -/
def delete [DecidableEq O] (m : RefIndex K O) (o : O) (k : K) : Bool × RefIndex K O :=
  match m[k]? with
  | none => (false, m)
  | some (o', c) =>
    if o' = o then (true, if c = 1 then m.erase k else m.insert k (o, c - 1)) else (false, m)

/-! ### What an index stands for -/

variable [DecidableEq K] {m : RefIndex K O} {held : O → Multiset K} {o o' : O} {k : K}

/-- The index is the table of what the owners hold. -/
def Counts (m : RefIndex K O) (held : O → Multiset K) : Prop :=
  ∀ k o c, m[k]? = some (o, c) ↔ 0 < c ∧ (held o).count k = c

namespace Counts

variable {m' : RefIndex K O}

section

variable (h : Counts m held)

include h

lemma getElem?_eq_some (hk : k ∈ held o) : m[k]? = some (o, (held o).count k) :=
  (h k o _).mpr ⟨count_pos.mpr hk, rfl⟩

lemma unique (hk : k ∈ held o) (hk' : k ∈ held o') : o = o' := by
  have ho := h.getElem?_eq_some hk
  rw [h.getElem?_eq_some hk', some.injEq, Prod.mk.injEq] at ho
  exact ho.1.symm

lemma mem_of_getElem? {c : ℕ} (hk : m[k]? = some (o, c)) : k ∈ held o := by
  obtain ⟨hc, hcount⟩ := (h k o c).mp hk
  exact count_pos.mp (hcount ▸ hc)

lemma getElem?_eq_none : m[k]? = none ↔ ∀ o, k ∉ held o := by
  constructor
  · intro hk o ho
    rw [h.getElem?_eq_some ho] at hk
    exact some_ne_none _ hk
  · intro hk
    cases hm : m[k]? with
    | none => rfl
    | some p => exact absurd (h.mem_of_getElem? hm) (hk p.1)

lemma ext [Std.LawfulEqOrd K] (h' : Counts m' held) : m = m' := by
  apply Std.ExtTreeMap.ext_getElem?
  intro k
  cases hm : m[k]? with
  | none => exact (h'.getElem?_eq_none.mpr (h.getElem?_eq_none.mp hm)).symm
  | some p => exact ((h' k p.1 p.2).mpr ((h k p.1 p.2).mp hm)).symm

end

lemma empty : Counts (∅ : RefIndex K O) fun _ => 0 := by
  intro k o c
  rw [Std.ExtTreeMap.getElem?_empty]
  simp only [reduceCtorEq, count_zero, false_iff, not_and]
  omega

/-! ### The operations -/

variable [DecidableEq O] (h : Counts m held)

include h

/-- Writing one key of one owner changes its multiplicity there and nothing else. -/
lemma set {s : Multiset K} (hk : ∀ o', k ∈ held o' → o' = o)
    (hs : ∀ a ≠ k, s.count a = (held o).count a) (hm : ∀ a ≠ k, m'[a]? = m[a]?)
    (hmk : m'[k]? = if s.count k = 0 then none else some (o, s.count k)) : Counts m' (update held o s) := by
  intro a o' c
  by_cases ha : a = k
  · subst ha
    rw [hmk]
    by_cases ho : o' = o
    · subst ho
      rw [update_self]
      split_ifs with h0
      · simp only [false_iff, h0]
        omega
      · simp only [some.injEq, Prod.mk.injEq, true_and]
        omega
    · have h0 : (held o').count a = 0 := count_eq_zero.mpr fun hmem => ho (hk o' hmem)
      rw [update_of_ne ho, h0]
      split_ifs with h0
      · simp only [false_iff]
        omega
      · simp only [some.injEq, Prod.mk.injEq, Ne.symm ho, false_and, false_iff]
        omega
  · rw [hm a ha, h a o' c]
    by_cases ho : o' = o
    · subst ho
      rw [update_self, hs a ha]
    · rw [update_of_ne ho]

lemma add [Std.LawfulEqOrd K] (hk : ∀ o', k ∈ held o' → o' = o) :
    (m.add o k).1 = true ∧ Counts (m.add o k).2 (update held o (k ::ₘ held o)) := by
  have key : ∀ c, (held o).count k = c → Counts (m.insert k (o, c + 1)) (update held o (k ::ₘ held o)) := by
    intro c hc
    refine h.set hk (fun a ha => count_cons_of_ne ha _) (fun a ha => ?_) ?_
    · rw [getElem?_insert_ite, if_neg ha]
    · rw [getElem?_insert_ite, if_pos rfl, count_cons_self, hc, if_neg (Nat.succ_ne_zero c)]
  unfold RefIndex.add
  cases hm : m[k]? with
  | none => exact ⟨rfl, key 0 (count_eq_zero.mpr (h.getElem?_eq_none.mp hm o))⟩
  | some p =>
    obtain ⟨o', c⟩ := p
    obtain rfl := hk o' (h.mem_of_getElem? hm)
    dsimp only
    rw [if_pos rfl]
    exact ⟨rfl, key c ((h k _ c).mp hm).2⟩

lemma add_of_mem (hk : k ∈ held o') (ho : o' ≠ o) : m.add o k = (false, m) := by
  unfold RefIndex.add
  rw [h.getElem?_eq_some hk]
  exact if_neg ho

lemma delete [Std.LawfulEqOrd K] (hk : k ∈ held o) :
    (m.delete o k).1 = true ∧ Counts (m.delete o k).2 (update held o ((held o).erase k)) := by
  have hget := h.getElem?_eq_some hk
  unfold RefIndex.delete
  rw [hget]
  dsimp only
  rw [if_pos rfl]
  refine ⟨rfl, h.set (fun o' ho' => h.unique ho' hk) (fun a ha => count_erase_of_ne ha _) (fun a ha => ?_) ?_⟩
  · split_ifs
    · rw [getElem?_erase_ite, if_neg ha]
    · rw [getElem?_insert_ite, if_neg ha]
  · have hpos := count_pos.mpr hk
    rw [count_erase_self]
    split_ifs with h1 h2 h2
    · rw [getElem?_erase_ite, if_pos rfl]
    · omega
    · omega
    · rw [getElem?_insert_ite, if_pos rfl]

end Counts

end RefIndex

end Blocx
