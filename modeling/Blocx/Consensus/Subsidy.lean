import Blocx.Consensus.Params
import Blocx.Lib.StepTable

/-!
# Block subsidy

`GetBlockSubsidy`, `isExtraFundAllocationHeight` and `GetExtraPayOutAmount`
(`validation.cpp`). The chain of tests on `nPrevHeight` is the table
`subsidySchedule`; the multiplications by `0.05` and `0.07` are exact rationals
truncated to an integer amount.
-/

namespace Blocx

open Consensus StepTable

/-- The chain `nPrevHeight <= …` of `GetBlockSubsidy`: the base subsidy up to each height. -/
def subsidySchedule : List (ℤ × ℤ) :=
  [(6000, 2000 * COIN), (14000, 1000 * COIN), (24000, 800 * COIN), (44000, 600 * COIN),
   (74000, 400 * COIN), (87500, 300 * COIN), (172000, 150 * COIN), (283000, 120 * COIN),
   (330000, 80 * COIN), (492000, 64 * COIN), (654000, 52 * COIN), (816000, 42 * COIN),
   (978000, 34 * COIN), (1140000, 26 * COIN), (1302000, 22 * COIN), (1464000, 20 * COIN),
   (1626000, 18 * COIN), (1788000, 15 * COIN), (1950000, 14 * COIN), (2112000, 13 * COIN),
   (2274000, 12 * COIN), (2436000, 11 * COIN), (2598000, 10 * COIN), (2760000, 9 * COIN),
   (2922000, 8 * COIN), (3084000, 7 * COIN), (3246000, 6 * COIN), (3408000, 5 * COIN),
   (3570000, 4 * COIN), (3732000, 3 * COIN), (3894000, 2 * COIN), (4056000, 1 * COIN),
   (4218000, 9 * COIN / 10), (4380000, 8 * COIN / 10), (4542000, 7 * COIN / 10), (4704000, 6 * COIN / 10),
   (4866000, 5 * COIN / 10), (5028000, 4 * COIN / 10), (5190000, 3 * COIN / 10), (5352000, 2 * COIN / 10),
   (5514000, 1 * COIN / 10)]

def subsidyBase (nPrevHeight : ℤ) : ℤ :=
  if nPrevHeight = 0 then 3000000 * COIN else lookup subsidySchedule 0 nPrevHeight

/-- `nSubsidy`: the base, raised at the first heights of a devnet. -/
def fullSubsidy (params : Params) (nPrevHeight : ℤ) : ℤ :=
  if nPrevHeight < params.nHighSubsidyBlocks then subsidyBase nPrevHeight * params.nHighSubsidyFactor
  else subsidyBase nPrevHeight

/-- `nSuperblockPart`: the share withheld for the superblock. -/
def superblockPart (params : Params) (nPrevHeight : ℤ) : ℤ :=
  let nSubsidy := fullSubsidy params nPrevHeight
  if nPrevHeight > 2 then
    if nPrevHeight < 16700 then
      if nPrevHeight > params.nBudgetPaymentsStartBlock then (nSubsidy * 5).tdiv 100 else 0
    else if nPrevHeight ≤ params.V3ForkHeight then
      if nPrevHeight > params.nBudgetPaymentsStartBlock then (nSubsidy * 7).tdiv 100 else 0
    else
      if nPrevHeight > params.nBudgetPaymentsStartBlock then (nSubsidy * 5).tdiv 100 else 0
  else 0

def getBlockSubsidy (params : Params) (nPrevHeight : ℤ) (fSuperblockPartOnly : Bool) : ℤ :=
  if fSuperblockPartOnly then superblockPart params nPrevHeight
  else fullSubsidy params nPrevHeight - superblockPart params nPrevHeight

/-- The amounts of `GetExtraPayOutAmount`; its heights are those of
`isExtraFundAllocationHeight` on the main network. -/
def extraPayOuts : List (ℤ × ℤ) :=
  [(87500, 1000000 * COIN), (130000, 2000000 * COIN), (154000, 300000 * COIN), (220000, 1000000 * COIN),
   (285000, 1500000 * COIN), (370000, 1500000 * COIN), (460000, 1500000 * COIN), (545000, 1000000 * COIN),
   (630000, 1000000 * COIN), (715000, 1000000 * COIN), (885000, 1000000 * COIN), (1060000, 1000000 * COIN),
   (1230000, 1000000 * COIN)]

/-- `isExtraFundAllocationHeight` on the main network. -/
def isExtraFundAllocationHeight (nHeight : ℤ) : Bool := extraPayOuts.any fun e => nHeight == e.1

def getExtraPayOutAmount (nHeight : ℤ) : ℤ :=
  ((extraPayOuts.find? fun e => nHeight == e.1).map Prod.snd).getD 0

/-! ### The superblock share as a table -/

/-- The share of the superblock, in percent. -/
def superblockRate : List (ℤ × ℤ) := [(2, 0), (16699, 5), (87500, 7)]

/-- The superblock share of every height, from the two tables. -/
def superblockPartTable : List (ℤ × ℤ) :=
  StepTable.zip (fun subsidy rate => (subsidy * rate).tdiv 100) ((0, 3000000 * COIN) :: subsidySchedule) 0
    superblockRate 5

/-- The same table, evaluated. -/
def superblockShares : List (ℤ × ℤ) :=
  [(0, 0), (2, 0), (6000, 10000000000), (14000, 5000000000), (16699, 4000000000),
   (24000, 5600000000), (44000, 4200000000), (74000, 2800000000), (87500, 2100000000), (172000, 750000000),
   (283000, 600000000), (330000, 400000000), (492000, 320000000), (654000, 260000000), (816000, 210000000),
   (978000, 170000000), (1140000, 130000000), (1302000, 110000000), (1464000, 100000000), (1626000, 90000000),
   (1788000, 75000000), (1950000, 70000000), (2112000, 65000000), (2274000, 60000000), (2436000, 55000000),
   (2598000, 50000000), (2760000, 45000000), (2922000, 40000000), (3084000, 35000000), (3246000, 30000000),
   (3408000, 25000000), (3570000, 20000000), (3732000, 15000000), (3894000, 10000000), (4056000, 5000000),
   (4218000, 4500000), (4380000, 4000000), (4542000, 3500000), (4704000, 3000000), (4866000, 2500000),
   (5028000, 2000000), (5190000, 1500000), (5352000, 1000000), (5514000, 500000)]

lemma prune_superblockPartTable : prune (-1) superblockPartTable = superblockShares := by decide

/-- On the main network the superblock share is read off the table. -/
lemma superblockPart_eq_lookup {p : ℕ} : superblockPart mainParams p = lookup superblockShares 0 p := by
  have hbase : fullSubsidy mainParams p = lookup ((0, 3000000 * COIN) :: subsidySchedule) 0 p := by
    have h₀ : ¬ ((p : ℤ) < mainParams.nHighSubsidyBlocks) := by simp [mainParams]
    rw [fullSubsidy, if_neg h₀, subsidyBase, lookup_cons]
    simp only
    omega
  have hrate : superblockPart mainParams p = (fullSubsidy mainParams p * lookup superblockRate 5 p).tdiv 100 := by
    have hV : mainParams.V3ForkHeight = 87500 := rfl
    have hB : mainParams.nBudgetPaymentsStartBlock = 1 := rfl
    simp only [superblockPart, superblockRate, lookup_cons, lookup_nil, hV, hB]
    generalize fullSubsidy mainParams p = nSubsidy
    split_ifs <;> first | rfl | omega | rw [mul_zero]; rfl
  rw [hrate, hbase, ← prune_superblockPartTable, lookup_prune (by omega), superblockPartTable]
  exact (lookup_zip (fun subsidy rate => (subsidy * rate).tdiv 100) _ 0 superblockRate 5 (p : ℤ)).symm

/-- The superblock shares withheld by the blocks on top of heights `lo` to `hi - 1`. -/
lemma sum_superblockPart (lo hi : ℕ) :
    ∑ p ∈ Finset.Ico lo hi, superblockPart mainParams p = rangeSum superblockShares 0 lo hi := by
  rw [← sum_lookup]
  exact Finset.sum_congr rfl fun p _ => superblockPart_eq_lookup

lemma lookup_nonneg {t : List (ℤ × ℤ)} (h : ∀ e ∈ t, 0 ≤ e.2) {x : ℤ} : 0 ≤ lookup t 0 x := by
  induction t with
  | nil => simp
  | cons e t ih =>
    rw [lookup_cons]
    split_ifs
    · exact h e (List.mem_cons_self ..)
    · exact ih fun e' he' => h e' (List.mem_cons_of_mem _ he')

lemma superblockPart_nonneg (p : ℕ) : 0 ≤ superblockPart mainParams p := by
  rw [superblockPart_eq_lookup]
  exact lookup_nonneg (by decide)

lemma superblockPart_eq_zero {p : ℕ} (hp : 5514000 < p) : superblockPart mainParams p = 0 := by
  have hlt : ∀ e ∈ superblockShares, e.1 ≤ 5514000 := by decide
  rw [superblockPart_eq_lookup, ← List.append_nil superblockShares]
  exact lookup_append_of_lt (fun e he => lt_of_le_of_lt (hlt e he) (by exact_mod_cast hp)) [] 0

end Blocx
