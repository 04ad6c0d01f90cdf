import Blocx.Governance.PaymentsLimit

/-!
# Block value and issuance

`IsBlockValueValid` (`masternode/payments.cpp`) and the block reward `ConnectBlock`
passes to it, and what the check means for a whole chain: the comment of
`IsBlockValueValid` says that superblocks pay more and other blocks less, "so in
total, no extra coins are created".

A chain is the list of its blocks after genesis, as far as the check reads them: the
value of the coinbase and the fees. `issued` adds up what the coinbases create beyond
fees and the fixed extra payouts, `scheduled` the full subsidies.
-/

namespace Blocx

open Finset

variable {f : ℕ → ℤ} {value reward h : ℤ} {k n : ℕ}

open Consensus CSuperblock

/-! ### The check -/

/-- What `IsBlockValueValid` asks of the rest of the node. -/
structure NodeView where
  isSynced : Bool
  fDisableGovernance : Bool
  areSuperblocksEnabled : Bool
  /-- `CSuperblockManager::IsSuperblockTriggered` at a height. -/
  isSuperblockTriggered : ℤ → Bool
  /-- `CSuperblockManager::IsValid` for a coinbase of this value, a height and a reward. -/
  isSuperblockValid : ℤ → ℤ → ℤ → Bool

/-- `isBlockRewardValueMet`, with the message of the branch that asks for it. -/
def checkBlockReward (value : ℤ) (nBlockHeight : ℤ) (blockReward : ℤ) (reason : String) : Except String Unit :=
  if value ≤ blockReward then .ok ()
  else .error (s!"coinbase pays too much at height {nBlockHeight} (actual={value} vs limit={blockReward}), " ++ reason)

def isOldBudgetBlockValueValid (params : Params) (node : NodeView) (value : ℤ) (nBlockHeight : ℤ)
    (blockReward : ℤ) : Except String Unit :=
  if nBlockHeight < params.nBudgetPaymentsStartBlock then
    .error s!"Incorrect block {nBlockHeight}, old budgets are not activated yet"
  else if nBlockHeight ≥ params.nSuperblockStartBlock then
    .error s!"Incorrect block {nBlockHeight}, old budgets are no longer active"
  else
    let nOffset := nBlockHeight.tmod params.nBudgetPaymentsCycleBlocks
    if nBlockHeight ≥ params.nBudgetPaymentsStartBlock ∧ nOffset < params.nBudgetPaymentsWindowBlocks then
      if node.isSynced then
        checkBlockReward value nBlockHeight blockReward "exceeded block reward, old budgets are disabled"
      else .ok ()
    else
      checkBlockReward value nBlockHeight blockReward "exceeded block reward, block is not in old budget cycle window"

/-- `IsBlockValueValid`, for a coinbase paying `value`. -/
def isBlockValueValid (params : Params) (node : NodeView) (value : ℤ) (nBlockHeight : ℤ)
    (blockReward : ℤ) : Except String Unit :=
  if nBlockHeight < params.nBudgetPaymentsStartBlock then
    checkBlockReward value nBlockHeight blockReward "exceeded block reward, old budgets are not activated yet"
  else if nBlockHeight < params.nSuperblockStartBlock then
    isOldBudgetBlockValueValid params node value nBlockHeight blockReward
  else
    let nSuperblockMaxValue := blockReward + getPaymentsLimit params nBlockHeight
    if !isValidBlockHeight params nBlockHeight then
      checkBlockReward value nBlockHeight blockReward
        "exceeded block reward, only regular blocks are allowed at this height"
    else if ¬ value ≤ nSuperblockMaxValue then
      checkBlockReward value nBlockHeight nSuperblockMaxValue "exceeded superblock max value"
    else if !node.isSynced || node.fDisableGovernance then
      -- not enough data for full checks, but the superblock limits were honoured
      .ok ()
    else if !node.areSuperblocksEnabled then
      checkBlockReward value nBlockHeight blockReward "exceeded block reward, superblocks are disabled"
    else if !node.isSuperblockTriggered nBlockHeight then
      checkBlockReward value nBlockHeight blockReward "exceeded block reward, no triggered superblock detected"
    else if !node.isSuperblockValid value nBlockHeight blockReward then
      .error s!"invalid superblock detected at height {nBlockHeight}"
    else .ok ()

/-- The block reward `ConnectBlock` computes: fees, subsidy and the fixed extra payouts. -/
def blockReward (params : Params) (nHeight : ℤ) (nFees : ℤ) : ℤ :=
  let reward := nFees + getBlockSubsidy params (nHeight - 1) false
  if isExtraFundAllocationHeight nHeight then reward + getExtraPayOutAmount nHeight else reward

lemma checkBlockReward_ok {reason : String} (hok : checkBlockReward value h reward reason = .ok ()) :
    value ≤ reward := by
  unfold checkBlockReward at hok
  split_ifs at hok with hv
  exact hv

variable {node : NodeView}

section

variable (hnode : node.isSynced = false ∨ node.fDisableGovernance = true)

include hnode

/-- A block accepted without governance data pays at most the reward and the payments
limit of its height. -/
lemma value_le_of_isBlockValueValid (h₁ : 1 ≤ h) (hok : isBlockValueValid mainParams node value h reward = .ok ()) :
    value ≤ reward + getPaymentsLimit mainParams h := by
  have hb : ¬ h < mainParams.nBudgetPaymentsStartBlock := not_lt.mpr h₁
  have hs : ¬ h < mainParams.nSuperblockStartBlock := not_lt.mpr h₁
  have hbr : (!node.isSynced || node.fDisableGovernance) = true := by rcases hnode with hn | hn <;> simp [hn]
  simp only [isBlockValueValid, hb, hs, hbr, if_false, if_true] at hok
  split_ifs at hok with hvalid hmax
  · have hzero : getPaymentsLimit mainParams h = 0 := by
      simp only [Bool.not_eq_true'] at hvalid
      simp [getPaymentsLimit, hvalid]
    rw [hzero, add_zero]
    exact checkBlockReward_ok hok
  · exact hmax
  · exact checkBlockReward_ok hok

/-! ### Chains -/

/-- What the check reads of a block. -/
structure BlockPayout where
  /-- `block.vtx[0]->GetValueOut()`. -/
  value : ℤ
  fees : ℤ

/-- The extra payout of a height, where there is one. -/
def extraPayOut (nHeight : ℤ) : ℤ :=
  if isExtraFundAllocationHeight nHeight then getExtraPayOutAmount nHeight else 0

/-- What a coinbase creates: its value without the fees and the extra payout. -/
def BlockPayout.created (b : BlockPayout) (nHeight : ℤ) : ℤ := b.value - b.fees - extraPayOut nHeight

/-- Every block of the chain was accepted, the `i`-th of the list at height `i + 1`. -/
def Accepted (node : NodeView) (chain : List BlockPayout) : Prop :=
  ∀ i (hi : i < chain.length),
    isBlockValueValid mainParams node chain[i].value (i + 1 : ℕ)
      (blockReward mainParams (i + 1 : ℕ) chain[i].fees) = .ok ()

/-- The coins the first `H` blocks of a chain create. -/
def issued (chain : List BlockPayout) (H : ℕ) : ℤ :=
  ∑ i ∈ range H, ((chain.getD i ⟨0, 0⟩).created (i + 1 : ℕ))

/-- The full subsidies of the heights up to `H`, the superblock shares included. -/
def scheduled (H : ℕ) : ℤ :=
  ∑ i ∈ range H, (getBlockSubsidy mainParams i false + getBlockSubsidy mainParams i true)

/-- No block of the Autolykos era takes a superblock allowance before its cycle ends. -/
def AllowanceAtCycleEnds (chain : List BlockPayout) : Prop :=
  ∀ i (hi : i < chain.length), 292001 ≤ i + 1 → ¬ autolykosCycleEnd (i + 1 : ℕ) →
    chain[i].value ≤ blockReward mainParams (i + 1 : ℕ) chain[i].fees

/-- The allowance a height has when only cycle ends have one. -/
def allowance (h : ℕ) : ℤ :=
  if h < 292001 ∨ autolykosCycleEnd h then getPaymentsLimit mainParams h else 0

omit hnode in
lemma blockReward_eq {fees : ℤ} (h : ℤ) :
    blockReward mainParams h fees = fees + getBlockSubsidy mainParams (h - 1) false + extraPayOut h := by
  unfold blockReward extraPayOut
  split_ifs <;> ring

/-- One step: a block of such a chain creates its reduced subsidy and at most the
allowance of its height. -/
lemma created_le {chain : List BlockPayout}
    (hacc : Accepted node chain) (hcond : AllowanceAtCycleEnds chain) {i : ℕ} {hi : i < chain.length} :
    chain[i].created (i + 1 : ℕ) ≤ getBlockSubsidy mainParams i false + allowance (i + 1) := by
  have hval := value_le_of_isBlockValueValid hnode (by omega) (hacc i hi)
  have hcap : chain[i].value ≤ blockReward mainParams (i + 1 : ℕ) chain[i].fees + allowance (i + 1) := by
    unfold allowance
    split_ifs with hcase
    · exact hval
    · rw [not_or, not_lt] at hcase
      rw [add_zero]
      exact hcond i hi hcase.1 hcase.2
  rw [blockReward_eq] at hcap
  have hcast : ((i + 1 : ℕ) : ℤ) - 1 = i := by omega
  rw [hcast] at hcap
  unfold BlockPayout.created
  omega

end

lemma allowance_eq_zero {h : ℕ} (h₁ : 1 ≤ h) (hend : ∀ k, cycleEnd k ≠ h) : allowance h = 0 := by
  have hnot := mt (exists_cycleEnd_iff h₁).mpr fun ⟨k, hk⟩ => hend k hk
  rw [not_or] at hnot
  unfold allowance
  split_ifs with hcase
  · by_cases hlt : h < 292001
    · have hinv : isValidBlockHeight mainParams h ≠ true := fun hv => hnot.1 ⟨hlt, hv⟩
      rw [getPaymentsLimit, if_neg hinv]
    · exact absurd ⟨not_lt.mp hlt, hcase.resolve_left hlt⟩ hnot.2
  · rfl

lemma allowance_cycleEnd : allowance (cycleEnd k) ≤ getPaymentsLimit mainParams (cycleEnd k) := by
  unfold allowance
  split_ifs with hcase
  · exact le_rfl
  · rcases (exists_cycleEnd_iff (by have := cycleStart_lt_cycleEnd k; omega)).mp ⟨k, rfl⟩ with h | h
    · exact absurd (Or.inl h.1) hcase
    · exact absurd (Or.inr h.2) hcase

/-- The allowances of one cycle are covered by the superblock shares of its blocks. -/
lemma sum_allowance_cycle_le (k : ℕ) : ∑ i ∈ Finset.Ico (cycleStart k) (cycleEnd k), allowance (i + 1) ≤
      ∑ i ∈ Finset.Ico (cycleStart k) (cycleEnd k), superblockPart mainParams i := by
  have hlt := cycleStart_lt_cycleEnd k
  -- all summands but the last one are zero
  have hzero : ∑ i ∈ Finset.Ico (cycleStart k) (cycleEnd k - 1), allowance (i + 1) = 0 := by
    refine sum_eq_zero fun i hi => ?_
    rw [mem_Ico] at hi
    exact allowance_eq_zero (by omega) fun j => cycleEnd_ne_of_between (k := k) (by omega) (by omega)
  have hlast : ∑ i ∈ Finset.Ico (cycleStart k) (cycleEnd k), allowance (i + 1) = allowance (cycleEnd k) := by
    obtain ⟨e, he⟩ : ∃ e, cycleEnd k = e + 1 := ⟨cycleEnd k - 1, by omega⟩
    rw [he] at hzero hlt ⊢
    rw [sum_Ico_succ_top (by omega), Nat.add_sub_cancel] at *
    rw [hzero, zero_add]
  rw [hlast]
  exact allowance_cycleEnd.trans (getPaymentsLimit_le_sum k)

/-- The allowances up to the end of any cycle are covered: induction over the cycles. -/
lemma sum_allowance_le :
    ∑ i ∈ range (cycleEnd k), allowance (i + 1) ≤ ∑ i ∈ range (cycleEnd k), superblockPart mainParams i := by
  induction k with
  | zero =>
    rw [range_eq_Ico]
    exact sum_allowance_cycle_le 0
  | succ k ih =>
    have hle : cycleEnd k ≤ cycleEnd (k + 1) := (cycleStart_lt_cycleEnd (k + 1)).le
    rw [← sum_range_add_sum_Ico _ hle, ← sum_range_add_sum_Ico _ hle]
    exact add_le_add ih (sum_allowance_cycle_le (k + 1))

/-- **No extra coins**: on a chain accepted without governance data in which the
Autolykos era takes its superblock allowance only at the end of a cycle, the blocks up
to the end of any Autolykos cycle create at most the full subsidies. -/
theorem issued_le_scheduled (node : NodeView) (hnode : node.isSynced = false ∨ node.fDisableGovernance = true)
    (chain : List BlockPayout) (hacc : Accepted node chain) (hcond : AllowanceAtCycleEnds chain)
    (H : ℕ) (hH : H ≤ chain.length) (hera : 292001 ≤ H) (hend : autolykosCycleEnd H) :
    issued chain H ≤ scheduled H := by
  obtain ⟨k, -, rfl⟩ := exists_cycleEnd_of_autolykosCycleEnd hera hend
  have hstep : issued chain (cycleEnd k) ≤
      ∑ i ∈ range (cycleEnd k), (getBlockSubsidy mainParams i false + allowance (i + 1)) := by
    refine sum_le_sum fun i hi => ?_
    have hi' : i < chain.length := lt_of_lt_of_le (mem_range.mp hi) hH
    rw [List.getD_eq_getElem?_getD, List.getElem?_eq_getElem hi', Option.getD_some]
    exact created_le hnode hacc hcond
  refine hstep.trans ?_
  rw [scheduled, sum_add_distrib, sum_add_distrib]
  exact add_le_add le_rfl sum_allowance_le

/-! ### Chains that take an allowance -/

lemma getPaymentsLimit_nonneg (h : ℕ) : 0 ≤ getPaymentsLimit mainParams h := by
  unfold getPaymentsLimit
  split_ifs
  · cases hfix : fixedPaymentsLimits.find? (fun e => (h : ℤ) == e.1) with
    | some e =>
      have hall : ∀ e ∈ fixedPaymentsLimits, 0 ≤ e.2 := by decide
      exact hall e (List.mem_of_find?_eq_some hfix)
    | none =>
      refine Int.mul_nonneg ?_ (by unfold superblockCycle; split_ifs <;> decide)
      cases h with
      | zero => decide
      | succ p =>
        rw [Nat.cast_succ, add_sub_cancel_right]
        exact superblockPart_nonneg p
  · exact le_rfl

/-- The chain of `n` blocks without fees that pay their reward and `f h` more at height `h`. -/
def payingChain (f : ℕ → ℤ) (n : ℕ) : List BlockPayout :=
  (List.range n).map fun i => ⟨blockReward mainParams (i + 1 : ℕ) 0 + f (i + 1), 0⟩

@[simp] lemma length_payingChain : (payingChain f n).length = n := by simp [payingChain]

lemma getElem_payingChain {i : ℕ} {hi : i < (payingChain f n).length} :
    (payingChain f n)[i] = ⟨blockReward mainParams (i + 1 : ℕ) 0 + f (i + 1), 0⟩ := by
  simp [payingChain]

/-- A node that is still syncing. -/
def syncingNode : NodeView := ⟨false, false, true, fun _ => false, fun _ _ _ => false⟩

lemma payingChain_accepted (hf : ∀ h : ℕ, f h ≤ getPaymentsLimit mainParams h) :
    Accepted syncingNode (payingChain f n) := by
  intro i hi
  have hb : ¬ ((i + 1 : ℕ) : ℤ) < mainParams.nBudgetPaymentsStartBlock := by
    show ¬ ((i + 1 : ℕ) : ℤ) < 1
    omega
  have hlim := hf (i + 1)
  rw [getElem_payingChain]
  unfold isBlockValueValid
  rw [if_neg hb, if_neg (show ¬ ((i + 1 : ℕ) : ℤ) < mainParams.nSuperblockStartBlock from hb)]
  by_cases hv : isValidBlockHeight mainParams (i + 1 : ℕ) = true
  · simp only [hv, Bool.not_true, Bool.false_eq_true, syncingNode, Bool.not_false, Bool.true_or, if_true, if_false]
    rw [if_neg (not_not.mpr (by omega))]
  · rw [getPaymentsLimit, if_neg hv] at hlim
    simp only [hv, Bool.not_false, if_true, checkBlockReward]
    rw [if_pos (by omega)]

/-- A chain whose superblocks take their whole allowance. -/
theorem issued_le_scheduled_payingChain : issued (payingChain allowance 335200) 335200 ≤ scheduled 335200 := by
  have hle : ∀ h : ℕ, allowance h ≤ getPaymentsLimit mainParams h := by
    intro h
    unfold allowance
    split_ifs
    · exact le_rfl
    · exact getPaymentsLimit_nonneg h
  refine issued_le_scheduled syncingNode (Or.inl rfl) _ (payingChain_accepted hle) (fun i hi hera hend => ?_)
    335200 (by simp) (by decide) (by decide)
  have hzero : allowance (i + 1) = 0 := by
    rw [allowance, if_neg (not_or.mpr ⟨not_lt.mpr hera, hend⟩)]
  rw [getElem_payingChain, hzero, add_zero]

lemma issued_payingChain :
    issued (payingChain f n) n = ∑ i ∈ range n, (getBlockSubsidy mainParams i false + f (i + 1)) := by
  refine sum_congr rfl fun i hi => ?_
  have hi' : i < (payingChain f n).length := by simpa using hi
  have hcast : ((i + 1 : ℕ) : ℤ) - 1 = i := by omega
  rw [List.getD_eq_getElem?_getD, List.getElem?_eq_getElem hi', Option.getD_some, getElem_payingChain,
    BlockPayout.created, blockReward_eq, hcast]
  ring

/-- At the end of the first Autolykos cycle the chain that takes the payments limit at
every height has created more than the full subsidies: a hundred blocks of that cycle
each take the allowance of a whole cycle. -/
theorem issued_payingChain_gt :
    ¬ ∀ (node : NodeView) (chain : List BlockPayout) (H : ℕ),
      (node.isSynced = false ∨ node.fDisableGovernance = true) → Accepted node chain → H ≤ chain.length →
      292001 ≤ H → autolykosCycleEnd H → issued chain H ≤ scheduled H := by
  intro hall
  have hle := hall syncingNode (payingChain (fun h => getPaymentsLimit mainParams h) 335200) 335200 (Or.inl rfl)
    (payingChain_accepted (fun _ => le_rfl)) (by simp) (by decide) (by decide)
  rw [issued_payingChain, scheduled, sum_add_distrib, sum_add_distrib] at hle
  have hlimits : ∑ i ∈ Finset.Ico 292000 292100, getPaymentsLimit mainParams (i + 1 : ℕ) ≤
      ∑ i ∈ range 335200, getPaymentsLimit mainParams (i + 1 : ℕ) := by
    refine sum_le_sum_of_subset_of_nonneg (fun i hi => ?_) fun i _ _ => getPaymentsLimit_nonneg _
    rw [mem_Ico] at hi
    exact mem_range.mpr (by omega)
  have hlow : 100 * (172800 * COIN) ≤ ∑ i ∈ Finset.Ico 292000 292100, getPaymentsLimit mainParams (i + 1 : ℕ) := by
    have heach : ∀ i ∈ Finset.Ico 292000 292100, 172800 * COIN ≤ getPaymentsLimit mainParams (i + 1 : ℕ) := by
      decide +kernel
    simpa using card_nsmul_le_sum _ _ _ heach
  have hparts : ∑ i ∈ range 335200, getBlockSubsidy mainParams i true < 100 * (172800 * COIN) := by
    show ∑ i ∈ range 335200, superblockPart mainParams i < 100 * (172800 * COIN)
    rw [range_eq_Ico, sum_superblockPart]
    decide
  omega

end Blocx
