import Blocx.Validation.ContextualCheckBlock

/-!
# The development payout of the miner

`BlockAssembler::FillFoundersReward` (`miner.cpp`) puts into the coinbase the output that `ContextualCheckBlock` looks
for. Miner and validator compute its value from the height, each with a formula of its own. The product of a subsidy and
`300.0 / 95.0`, divided by 100 in double precision and truncated, is a function `scale` of the subsidy that both use;
nothing is assumed of it.

Over long ranges the validator reads the subsidy of the next height, with exceptions for single heights. So the two part
where the subsidy changes and no exception is made: at heights 44000, 74000 and 172000.
-/

namespace Blocx

open Consensus StepTable

variable (scale : ℤ → ℤ)

/-- `devPayoutValue` of `FillFoundersReward`. -/
def foundersReward (params : Params) (nHeight : ℤ) : ℤ :=
  if nHeight > 18000 ∧ nHeight ≤ 24000 then (getBlockSubsidy params nHeight false * 18).tdiv 100
  else if nHeight ≤ params.V3ForkHeight then
    (getBlockSubsidy params nHeight false * params.DevelopementFundShare).tdiv 100
  else scale (getBlockSubsidy params nHeight false)

def fillFoundersReward (rules : BlockRules) (chainparams : CChainParams) (coinbaseTx : CTransaction) (nHeight : ℤ) :
    CTransaction :=
  let devPayoutValue := foundersReward scale chainparams.consensus nHeight
  let vout := coinbaseTx.vout.modifyHead (fun txout => { txout with nValue := txout.nValue - devPayoutValue }) ++
    [⟨devPayoutValue, rules.devPayoutScript⟩]
  let extra := if chainparams.isMain && isExtraFundAllocationHeight nHeight then
      [⟨getExtraPayOutAmount nHeight, rules.additionalPayoutScript⟩] else []
  { coinbaseTx with vout := vout ++ extra }

/-- `devPayoutValue` of `ContextualCheckBlock`. -/
def requiredDevPayout (params : Params) (nHeight : ℤ) : ℤ :=
  if nHeight > 18000 ∧ nHeight ≤ 24000 then (getBlockSubsidy params nHeight false * 18).tdiv 100
  else if nHeight = 24001 then 1674000000
  else if nHeight < params.V3ForkHeight then
    (getBlockSubsidy params (nHeight + 1) false * params.DevelopementFundShare).tdiv 100
  else if nHeight = 87500 then 837000000
  else if nHeight < params.AutolykosForkHeight - 1 then scale (getBlockSubsidy params (nHeight + 1) false)
  else scale (getBlockSubsidy params nHeight false)

lemma requiredDevPayout_exact (params : Params) (nHeight : ℤ) :
    requiredDevPayout (fun subsidy => (subsidy * 300).tdiv (95 * 100)) params nHeight = devPayoutValue params nHeight :=
  rfl

/-- The subsidy changes only after a height of the schedule, and after the last height of the raised superblock
share. -/
lemma getBlockSubsidy_succ {h : ℤ} (hstart : 16700 < h) (hV : h ≠ 87500) (hne : ∀ e ∈ subsidySchedule, e.1 ≠ h) :
    getBlockSubsidy mainParams (h + 1) false = getBlockSubsidy mainParams h false := by
  have hfull : fullSubsidy mainParams (h + 1) = fullSubsidy mainParams h := by
    have hhigh : ∀ {x : ℤ}, 16700 < x → fullSubsidy mainParams x = lookup subsidySchedule 0 x := fun {x} hx => by
      have h₀ : ¬x < mainParams.nHighSubsidyBlocks := not_lt.mpr (show (0 : ℤ) ≤ x by omega)
      rw [fullSubsidy, if_neg h₀, subsidyBase, if_neg (by omega)]
    rw [hhigh hstart, hhigh (by omega), lookup_succ hne]
  have hpart : superblockPart mainParams (h + 1) = superblockPart mainParams h := by
    have hfork : mainParams.V3ForkHeight = 87500 := rfl
    have hbudget : mainParams.nBudgetPaymentsStartBlock = 1 := rfl
    unfold superblockPart
    rw [hfull, hfork, hbudget]
    split_ifs <;> first | rfl | omega
  unfold getBlockSubsidy
  rw [hfull, hpart]

/-- Miner and validator agree on the development output exactly where the subsidy does not change after the height, or
an exception of the validator makes up for it. -/
theorem fillFoundersReward_iff (rules : BlockRules) (coinbaseTx : CTransaction) {h : ℤ}
    (hstart : mainParams.DevRewardStartHeight < h) :
    (fillFoundersReward scale rules mainChainParams coinbaseTx h).vout[coinbaseTx.vout.length]? =
        some ⟨requiredDevPayout scale mainParams h, rules.devPayoutScript⟩ ↔
      h ≠ 44000 ∧ h ≠ 74000 ∧ (h = 172000 → scale (1425 * COIN / 10) = scale (114 * COIN)) := by
  have hput : (fillFoundersReward scale rules mainChainParams coinbaseTx h).vout[coinbaseTx.vout.length]? =
      some ⟨foundersReward scale mainParams h, rules.devPayoutScript⟩ := by
    simp [fillFoundersReward, mainChainParams]
  rw [hput, Option.some_inj, CTxOut.mk.injEq, and_iff_left rfl]
  replace hstart : 16700 < h := hstart
  by_cases hstep : h ∈ [24001, 44000, 74000, 87500, 172000]
  · simp only [List.mem_cons, List.not_mem_nil, or_false] at hstep
    obtain rfl | rfl | rfl | rfl | rfl := hstep
    · exact iff_of_true rfl ⟨by decide, by decide, nofun⟩
    · exact iff_of_false (fun heq : (1674000000 : ℤ) = 1116000000 => absurd heq (by decide)) fun h => h.1 rfl
    · exact iff_of_false (fun heq : (1116000000 : ℤ) = 837000000 => absurd heq (by decide)) fun h => h.2.1 rfl
    · exact iff_of_true rfl ⟨by decide, by decide, nofun⟩
    · exact ⟨fun heq => ⟨by decide, by decide, fun _ => heq⟩, fun heq => heq.2.2 rfl⟩
  simp only [List.mem_cons, List.not_mem_nil, or_false, not_or] at hstep
  refine iff_of_true ?_ ⟨hstep.2.1, hstep.2.2.1, fun heq => absurd heq hstep.2.2.2.2⟩
  have hsteps : ∀ e ∈ subsidySchedule, e.1 ≤ 16700 ∨ 18000 < e.1 ∧ e.1 ≤ 24001 ∨ 282999 ≤ e.1 ∨
      e.1 = 44000 ∨ e.1 = 74000 ∨ e.1 = 87500 ∨ e.1 = 172000 := by decide
  have hnext : (h ≤ 18000 ∨ 24001 < h) → h < 282999 →
      getBlockSubsidy mainParams (h + 1) false = getBlockSubsidy mainParams h false := by
    intro hrange hlt
    refine getBlockSubsidy_succ hstart hstep.2.2.2.1 fun e he heq => ?_
    have := hsteps e he
    omega
  have hfork : mainParams.V3ForkHeight = 87500 := rfl
  have hautolykos : mainParams.AutolykosForkHeight = 283000 := rfl
  unfold foundersReward requiredDevPayout
  rw [hfork, hautolykos]
  split_ifs <;> first | rfl | omega | rw [hnext (by omega) (by omega)]

/-- A coinbase that pays the miner. -/
def minerCoinbase : CTransaction where
  hash := 1
  nVersion := 3
  nType := .coinbase
  vin := []
  vout := [⟨600 * COIN, [0x53]⟩]

/-- At the height with the first exception both ask for the same output. -/
theorem fillFoundersReward_iff_24001 :
    (fillFoundersReward id plainRules mainChainParams minerCoinbase 24001).vout[1]? =
      some ⟨requiredDevPayout id mainParams 24001, plainRules.devPayoutScript⟩ :=
  (fillFoundersReward_iff id plainRules minerCoinbase (by decide)).mpr ⟨by decide, by decide, nofun⟩

/-- At the last height of a subsidy of 600 coins the miner pays a share of it, the validator wants one of 400 coins. -/
theorem fillFoundersReward_44000 : mainParams.DevRewardStartHeight < 44000 ∧
    (fillFoundersReward id plainRules mainChainParams minerCoinbase 44000).vout[1]? =
      some ⟨1674000000, plainRules.devPayoutScript⟩ ∧
    requiredDevPayout id mainParams 44000 = 1116000000 ∧ devPayoutValue mainParams 44000 = 1116000000 := by
  decide

end Blocx
