import Blocx.Consensus.Subsidy
import Blocx.Governance.Superblock
import Mathlib.Algebra.Order.BigOperators.Group.Finset

/-!
# The superblock payments limit

`CSuperblock::GetPaymentsLimit` (`governance/classes.cpp`): what a superblock may pay.
By default it is the superblock share of one block times the cycle; at the heights
where the subsidy changes within a cycle the source fixes the amount.

The heights that close a cycle are enumerated by `cycleEnd`. `getPaymentsLimit_le_sum`
says that the limit at the end of a cycle is covered by the shares withheld from the
blocks of that cycle.
-/

namespace Blocx

open Consensus StepTable

namespace CSuperblock

/-- The amounts `GetPaymentsLimit` fixes. -/
def fixedPaymentsLimits : List (ℤ × ℤ) :=
  [(175200, 214200 * COIN), (292000, 157200 * COIN), (335200, 168640 * COIN), (508000, 128640 * COIN),
   (680800, 98920 * COIN), (853600, 75680 * COIN), (983200, 71360 * COIN), (1156000, 52960 * COIN),
   (1328800, 44840 * COIN), (1501600, 39440 * COIN), (1631200, 38100 * COIN), (1804000, 31600 * COIN),
   (1976800, 28900 * COIN), (2149600, 26200 * COIN), (2279200, 25660 * COIN), (2452000, 22960 * COIN),
   (2624800, 20260 * COIN), (2797600, 17560 * COIN), (2927200, 17020 * COIN), (3100000, 14320 * COIN),
   (3272800, 11620 * COIN), (3445600, 8920 * COIN), (3575200, 8380 * COIN), (3748000, 5680 * COIN),
   (3920800, 2980 * COIN)]

def superblockCycle (params : Params) (nBlockHeight : ℤ) : ℤ :=
  if nBlockHeight < params.nNewSuperBlockStartHeight then params.nSuperblockCycle
  else if nBlockHeight < params.nAutolykosSuperBlockStartHeight then params.nNewSuperBlockCycle
  else params.nAutolykosSuperBlockCycle

def getPaymentsLimit (params : Params) (nBlockHeight : ℤ) : ℤ :=
  if isValidBlockHeight params nBlockHeight then
    -- some part of all blocks issued during the cycle goes to the superblock
    let nSuperblockPartOfSubsidy := getBlockSubsidy params (nBlockHeight - 1) true
    match fixedPaymentsLimits.find? fun e => nBlockHeight == e.1 with
    | some e => e.2
    | none => nSuperblockPartOfSubsidy * superblockCycle params nBlockHeight
  else 0

/-! ### Cycles -/

/-- The last height of the `k`-th superblock cycle of the main network: six cycles of
`14600` blocks, seven of `29200`, then cycles of `43200`. -/
def cycleEnd (k : ℕ) : ℕ :=
  if k < 6 then 14600 * (k + 1)
  else if k < 13 then 87600 + 29200 * (k - 5)
  else 292000 + 43200 * (k - 12)

/-- The first block of the `k`-th cycle is built on this height. -/
def cycleStart : ℕ → ℕ
  | 0 => 0
  | k + 1 => cycleEnd k

lemma cycleStart_lt_cycleEnd (k : ℕ) : cycleStart k < cycleEnd k := by
  cases k with
  | zero => decide
  | succ k =>
    simp only [cycleStart, cycleEnd]
    split_ifs <;> omega

lemma exists_cycleEnd_of_autolykosCycleEnd {h : ℕ} (h₁ : 292001 ≤ h) (hend : autolykosCycleEnd h) :
    ∃ k, 13 ≤ k ∧ cycleEnd k = h := by
  unfold autolykosCycleEnd at hend
  refine ⟨12 + (h - 292000) / 43200, by omega, ?_⟩
  unfold cycleEnd
  split_ifs <;> omega

/-- Which heights close a cycle: the superblock heights of the first two eras and the
ends of the Autolykos cycles. -/
lemma exists_cycleEnd_iff {h : ℕ} (h₁ : 1 ≤ h) : (∃ k, cycleEnd k = h) ↔
      (h < 292001 ∧ isValidBlockHeight mainParams h = true) ∨ (292001 ≤ h ∧ autolykosCycleEnd h) := by
  constructor
  · rintro ⟨k, rfl⟩
    by_cases hk₁ : k < 6
    · have hk : cycleEnd k = 14600 * (k + 1) := by simp [cycleEnd, hk₁]
      refine Or.inl ⟨by omega, ?_⟩
      rw [isValidBlockHeight_old (by omega) (by omega)]
      omega
    by_cases hk₂ : k < 13
    · have hk : cycleEnd k = 87600 + 29200 * (k - 5) := by simp [cycleEnd, hk₁, hk₂]
      refine Or.inl ⟨by omega, ?_⟩
      rw [isValidBlockHeight_new (by omega) (by omega)]
      omega
    · have hk : cycleEnd k = 292000 + 43200 * (k - 12) := by simp [cycleEnd, hk₁, hk₂]
      exact Or.inr ⟨by omega, by unfold autolykosCycleEnd; omega⟩
  · rintro (⟨hlt, hvalid⟩ | ⟨hge, hend⟩)
    · by_cases hold : h < 87601
      · rw [isValidBlockHeight_old (by omega) (by omega)] at hvalid
        refine ⟨h / 14600 - 1, ?_⟩
        unfold cycleEnd
        split_ifs <;> omega
      · rw [isValidBlockHeight_new (by omega) (by omega)] at hvalid
        refine ⟨h / 29200 + 2, ?_⟩
        unfold cycleEnd
        split_ifs <;> omega
    · obtain ⟨k, -, hk⟩ := exists_cycleEnd_of_autolykosCycleEnd hge hend
      exact ⟨k, hk⟩

lemma cycleEnd_ne_of_between {j k h : ℕ} (h₁ : cycleStart k < h) (h₂ : h < cycleEnd k) : cycleEnd j ≠ h := by
  intro hj
  cases k with
  | zero | succ k =>
    simp only [cycleStart, cycleEnd] at h₁ h₂ hj
    split_ifs at * <;> omega

/-! ### Every limit is covered by its cycle -/

/-- As long as there is a subsidy: the limit at the end of each cycle against the shares
of its blocks, one comparison of two computed amounts per cycle. -/
lemma getPaymentsLimit_le_rangeSum : ∀ k < 134,
    getPaymentsLimit mainParams (cycleEnd k) ≤ rangeSum superblockShares 0 (cycleStart k) (cycleEnd k) := by
  decide +kernel

lemma getPaymentsLimit_eq_zero {k : ℕ} (hk : 134 ≤ k) : getPaymentsLimit mainParams (cycleEnd k) = 0 := by
  have hend : cycleEnd k = 292000 + 43200 * (k - 12) := by
    unfold cycleEnd
    split_ifs <;> omega
  have hfix : fixedPaymentsLimits.find? (fun e => (cycleEnd k : ℤ) == e.1) = none := by
    have hsmall : ∀ e ∈ fixedPaymentsLimits, e.1 ≤ 3920800 := by decide
    rw [List.find?_eq_none]
    intro e he
    have := hsmall e he
    simp only [beq_iff_eq]
    omega
  have hpart : getBlockSubsidy mainParams ((cycleEnd k : ℤ) - 1) true = 0 := by
    have hcast : (cycleEnd k : ℤ) - 1 = ((cycleEnd k - 1 : ℕ) : ℤ) := by omega
    rw [hcast]
    exact superblockPart_eq_zero (by omega)
  simp only [getPaymentsLimit, hfix, hpart, zero_mul, ite_self]

/-- The payments limit at the end of a cycle does not exceed the superblock shares
withheld from the blocks of the cycle. -/
lemma getPaymentsLimit_le_sum (k : ℕ) : getPaymentsLimit mainParams (cycleEnd k) ≤
      ∑ p ∈ Finset.Ico (cycleStart k) (cycleEnd k), superblockPart mainParams p := by
  by_cases hk : k < 134
  · rw [sum_superblockPart]
    exact getPaymentsLimit_le_rangeSum k hk
  · rw [getPaymentsLimit_eq_zero (by omega)]
    exact Finset.sum_nonneg fun p _ => superblockPart_nonneg p

end CSuperblock

end Blocx
