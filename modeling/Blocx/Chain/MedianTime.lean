import Blocx.Chain.BlockIndex
import Blocx.Lib.OrderStatistic

/-!
# The median time past

The time of a block has to exceed the median time past of its parent (`ContextualCheckBlockHeader`). In a chain of such
blocks the median time past never goes down (`getMedianTimePast_le_child`).
-/

namespace Blocx.CBlockIndex

open List Option

/-- The times that the median is taken of. -/
def lastTimes (pindex : CBlockIndex) : List ℤ := (pindex.chain.take nMedianTimeSpan).map fun h => (h.nTime.toNat : ℤ)

lemma getMedianTimePast_eq {pindex : CBlockIndex} :
    (sortedList pindex.lastTimes)[pindex.lastTimes.length / 2]? = some pindex.getMedianTimePast := by
  have hpos : 0 < pindex.lastTimes.length := by
    simp [lastTimes, chain, nMedianTimeSpan]
  have hlen := length_sortedList pindex.lastTimes
  have hi : (sortedList pindex.lastTimes).length / 2 < (sortedList pindex.lastTimes).length := by omega
  have hmedian : pindex.getMedianTimePast = (sortedList pindex.lastTimes).getD
      ((sortedList pindex.lastTimes).length / 2) 0 :=
    rfl
  rw [hmedian, getD_eq_getElem?_getD, ← hlen, getElem?_eq_getElem hi, getD_some]

variable {pindexPrev : CBlockIndex} {block : CBlockHeader}

lemma getMedianTimePast_le_child (h : pindexPrev.getMedianTimePast < block.nTime.toNat) :
    pindexPrev.getMedianTimePast ≤ (pindexPrev.child block).getMedianTimePast := by
  set m := pindexPrev.getMedianTimePast with hm
  have hcount : pindexPrev.lastTimes.length - pindexPrev.lastTimes.length / 2 ≤ pindexPrev.lastTimes.countP (m ≤ ·) :=
    length_sub_le_countP getMedianTimePast_eq
  refine le_of_length_sub_le_countP ?_ getMedianTimePast_eq
  -- the new window has the new time, and all of the old one but perhaps its last time
  set kept := (pindexPrev.chain.take 10).map fun h => (h.nTime.toNat : ℤ) with hkept
  have hnew : (pindexPrev.child block).lastTimes = (block.nTime.toNat : ℤ) :: kept := rfl
  have hold : pindexPrev.lastTimes = kept ∨ ∃ t, pindexPrev.lastTimes = kept ++ [t] ∧ kept.length = 10 := by
    rcases Nat.lt_or_ge 10 pindexPrev.chain.length with hlt | hge
    · right
      refine ⟨(pindexPrev.chain[10].nTime.toNat : ℤ), ?_, by simp [hkept]; omega⟩
      rw [lastTimes, nMedianTimeSpan, take_succ_eq_append_getElem hlt, map_append]
      rfl
    · left
      rw [lastTimes, nMedianTimeSpan, hkept, take_of_length_le hge, take_of_length_le (by omega)]
  rw [hnew, length_cons, countP_cons_of_pos (by simpa using h.le)]
  rcases hold with hold | ⟨t, hold, hlen⟩
  · rw [hold] at hcount
    omega
  · rw [hold, length_append, countP_append, length_singleton] at hcount
    have hlast : countP (m ≤ ·) [t] ≤ 1 := countP_le_length
    omega

/-! ### Chains of timely blocks -/

/-- Each block's time exceeds its parent's median time past. -/
def Timely (pindex : CBlockIndex) : Prop :=
  ∀ height p prev, pindex.getAncestor height = some p → p.pprev = some prev → prev.getMedianTimePast < p.getBlockTime

lemma getAncestor_self (pindex : CBlockIndex) : pindex.getAncestor pindex.nHeight = some pindex := by
  rw [getAncestor_eq_some_iff]
  exact ⟨⟨nHeight_nonneg _, le_refl _⟩, by simp⟩

variable {pindex p : CBlockIndex} {height : ℤ}

lemma Timely.getAncestor (h : pindex.Timely) (hp : pindex.getAncestor height = some p) : p.Timely := by
  intro height' q prev hq hprev
  have hheight := nHeight_of_getAncestor hp
  obtain ⟨⟨-, hle⟩, -⟩ := getAncestor_eq_some_iff.mp hq
  exact h height' q prev ((getAncestor_getAncestor hp (by omega)).symm.trans hq) hprev

lemma nHeight_of_pprev_none (h : pindex.pprev = none) : pindex.nHeight = 0 := by
  unfold pprev at h
  unfold nHeight
  cases hanc : pindex.ancestors with
  | nil => rfl
  | cons g gs => simp [hanc] at h

lemma getAncestor_pred {prev : CBlockIndex} (h : pindex.pprev = some prev) :
    pindex.getAncestor (pindex.nHeight - 1) = some prev := by
  rw [eq_child_of_pprev h, nHeight_child, show prev.nHeight + 1 - 1 = prev.nHeight by omega,
    getAncestor_child (le_refl _), getAncestor_self]

lemma timely_genesis (header : CBlockHeader) : Timely ⟨header, []⟩ := by
  intro height p prev hp hprev
  have hheight := nHeight_of_getAncestor hp
  obtain ⟨⟨-, hle⟩, -⟩ := getAncestor_eq_some_iff.mp hp
  have hzero : (⟨header, []⟩ : CBlockIndex).nHeight = 0 := rfl
  have hnonneg := prev.nHeight_nonneg
  have hsucc := nHeight_of_pprev hprev
  omega

lemma Timely.child (h : pindexPrev.Timely) (hblock : pindexPrev.getMedianTimePast < block.nTime.toNat) :
    (pindexPrev.child block).Timely := by
  intro height p prev hp hprev
  obtain ⟨⟨-, hle⟩, -⟩ := getAncestor_eq_some_iff.mp hp
  rcases hle.eq_or_lt with rfl | hlt
  · rw [getAncestor_self] at hp
    obtain rfl := some.inj hp
    obtain rfl : pindexPrev = prev := some.inj hprev
    exact hblock
  · rw [nHeight_child] at hlt
    exact h height p prev ((getAncestor_child (by omega)).symm.trans hp) hprev

/-- Along a chain of timely blocks the median time past does not go down. -/
lemma Timely.getMedianTimePast_le (h : pindex.Timely) (hp : pindex.getAncestor height = some p) :
    p.getMedianTimePast ≤ pindex.getMedianTimePast := by
  induction hn : pindex.ancestors.length generalizing pindex with
  | zero =>
    have hheight : pindex.nHeight = 0 := by simp [nHeight, hn]
    obtain ⟨⟨h0, hle⟩, -⟩ := getAncestor_eq_some_iff.mp hp
    obtain rfl : height = pindex.nHeight := by omega
    rw [getAncestor_self] at hp
    rw [some.inj hp]
  | succ n ih =>
    obtain ⟨prev, hprev⟩ : ∃ prev, pindex.pprev = some prev := by
      unfold pprev
      cases hanc : pindex.ancestors with
      | nil => simp [hanc] at hn
      | cons g gs => exact ⟨_, rfl⟩
    have hheight := nHeight_of_pprev hprev
    have hpred := getAncestor_pred hprev
    obtain ⟨⟨h0, hle⟩, -⟩ := getAncestor_eq_some_iff.mp hp
    rcases hle.eq_or_lt with rfl | hlt
    · rw [getAncestor_self] at hp
      rw [some.inj hp]
    · have hlower := ih (h.getAncestor hpred) ((getAncestor_getAncestor hpred (by omega)).trans hp) (by
        have hprevLen : prev.nHeight = (n : ℤ) := by
          rw [show pindex.nHeight = ((n + 1 : ℕ) : ℤ) by rw [nHeight, hn]] at hheight
          omega
        rw [nHeight] at hprevLen
        exact_mod_cast hprevLen)
      refine hlower.trans ?_
      have htime := h pindex.nHeight pindex prev (getAncestor_self pindex) hprev
      rw [eq_child_of_pprev hprev]
      exact getMedianTimePast_le_child htime

end Blocx.CBlockIndex
