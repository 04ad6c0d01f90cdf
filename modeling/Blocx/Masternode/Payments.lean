import Blocx.Evo.ListChain
import Mathlib.Algebra.Order.BigOperators.Group.List

/-!
# Payments to masternodes

`GetMasternodePayment` (`validation.cpp`) and `CMasternodePayments::GetBlockTxOuts` (`masternode/payments.cpp`): what
the coinbase of a block must pay to the masternodes whose turn it is. `BuildNewListFromBlock` chooses the same
masternodes again and marks them as paid, so the two must agree.

They do not when nobody in the first tier can be paid. `GetBlockTxOuts` then gives up before it looks at the second
tier, while `BuildNewListFromBlock` marks the payee of the second tier, which loses its turn.

A product of an amount and a decimal constant is computed in double precision and truncated. `scale v q` stands for the
amount that results for the exact value `v * q`; nothing is assumed of it.
-/

namespace Blocx

open List

open CDeterministicMNList Wire

variable {G : Type}

def getMasternodePayment (params : Consensus.Params) (scale : ℤ → ℚ → ℤ) (nHeight blockValue : ℤ) : ℤ :=
  if nHeight > 16700 then
    if nHeight ≤ 18000 then scale blockValue (30 / 100)
    else if nHeight ≤ 24000 then scale blockValue (335 / 1000)
    else if nHeight ≤ 87500 then scale blockValue (485 / 1000)
    else scale blockValue (48 / 95)
  else
    let ret := scale blockValue (1 / 2)
    if nHeight < params.BRRHeight then ret
    else
      let nSuperblockCycle :=
        if nHeight < params.nNewSuperBlockStartHeight then params.nSuperblockCycle
        else if nHeight < params.nAutolykosSuperBlockStartHeight then params.nNewSuperBlockCycle
        else params.nAutolykosSuperBlockCycle
      let nReallocStart := params.BRRHeight - params.BRRHeight.tmod nSuperblockCycle + nSuperblockCycle
      if nHeight < nReallocStart then ret else blockValue

/-- The outputs for a payee with a share of the reward, for the owner and for the operator. -/
def payShare (dmnPayee : CDeterministicMN G) (reward : ℤ) : List CTxOut :=
  let operatorReward :=
    if dmnPayee.nOperatorReward ≠ 0 ∧ dmnPayee.pdmnState.scriptOperatorPayout ≠ [] then
      (reward * dmnPayee.nOperatorReward.toNat).tdiv 10000
    else 0
  let reward := reward - operatorReward
  (if reward > 0 then [⟨reward, dmnPayee.pdmnState.scriptPayout⟩] else []) ++
    if operatorReward > 0 then [⟨operatorReward, dmnPayee.pdmnState.scriptOperatorPayout⟩] else []

section Payments

variable (rules : EvoRules G) (scale : ℤ → ℚ → ℤ) (list : CDeterministicMNList G) (nBlockHeight blockReward : ℤ)

/-- The payees in `GetBlockTxOuts`, with their shares of the reward. The list is the one of the block before. After the
first test the second one, that there is no payee in either tier, cannot succeed. -/
def getBlockPayees : Option (List (CDeterministicMN G × ℤ)) :=
  match list.getMNPayee false .standardMasternode with
  | none => none
  | some dmnPayee =>
    let masternodeReward := getMasternodePayment rules.params scale nBlockHeight blockReward
    match if rules.params.MNTierForkHeight ≤ nBlockHeight - 1 then list.getMNPayee false .lite else none with
    | none => some [(dmnPayee, masternodeReward)]
    | some dmnPayee2 =>
      let mnTierOneReward := scale masternodeReward (4400 / 48 / 100)
      some [(dmnPayee, mnTierOneReward), (dmnPayee2, masternodeReward - mnTierOneReward)]

def getBlockTxOuts : Option (List CTxOut) :=
  (getBlockPayees rules scale list nBlockHeight blockReward).map fun payees =>
    payees.flatMap fun (dmnPayee, reward) => payShare dmnPayee reward

end Payments

lemma payShare_ne_nil (dmn : CDeterministicMN G) {reward : ℤ} (h : 0 < reward) : ∃ out ∈ payShare dmn reward,
      out.scriptPubKey = dmn.pdmnState.scriptPayout ∨ out.scriptPubKey = dmn.pdmnState.scriptOperatorPayout := by
  unfold payShare
  dsimp only
  generalize (if dmn.nOperatorReward ≠ 0 ∧ dmn.pdmnState.scriptOperatorPayout ≠ [] then
    (reward * dmn.nOperatorReward.toNat).tdiv 10000 else 0) = operatorReward
  by_cases hop : 0 < operatorReward
  · rw [if_pos hop]
    exact ⟨_, mem_append_right _ mem_cons_self, .inr rfl⟩
  · rw [if_pos (show reward - operatorReward > 0 by omega)]
    exact ⟨_, mem_append_left _ mem_cons_self, .inl rfl⟩

/-! ### Paid means paid -/

section

variable [DecidableEq G] (rules : EvoRules G) (scale : ℤ → ℚ → ℤ) (pindexPrev : CBlockIndex)
  (old new : CDeterministicMNList G) (blockReward : ℤ)

def NoShareIsZero : Prop :=
  ∀ payees, getBlockPayees rules scale old (pindexPrev.nHeight + 1) blockReward = some payees →
    ∀ payee ∈ payees, 0 < payee.2

/-- Every masternode that the block marks as paid gets an output, and the other way round. -/
structure PaidMeansPaid : Prop where
  /-- A masternode that is marked gets an output. -/
  paid : ∀ (x : Uint256) (d : CDeterministicMN G), new.mnMap[x]? = some d →
    d.pdmnState.nLastPaidHeight = pindexPrev.nHeight + 1 →
    ∃ outs dmn, getBlockTxOuts rules scale old (pindexPrev.nHeight + 1) blockReward = some outs ∧
      old.mnMap[x]? = some dmn ∧ ∃ out ∈ outs,
        out.scriptPubKey = dmn.pdmnState.scriptPayout ∨ out.scriptPubKey = dmn.pdmnState.scriptOperatorPayout
  /-- A payee that is still listed is marked. -/
  marked : ∀ payees, getBlockPayees rules scale old (pindexPrev.nHeight + 1) blockReward = some payees →
    ∀ payee ∈ payees, ∀ d, new.mnMap[payee.1.proTxHash]? = some d → d.pdmnState.nLastPaidHeight = pindexPrev.nHeight + 1

/-- Nobody in the first tier can be paid, and the payee of the second tier stays in the list. -/
def OnlyLitePayee : Prop :=
  old.getMNPayee false .standardMasternode = none ∧ isMnTierForkActivated rules pindexPrev ∧
    ∃ dmn, old.getMNPayee false .lite = some dmn ∧ new.mnMap[dmn.proTxHash]?.isSome

variable {rules scale pindexPrev old new blockReward}

omit [DecidableEq G] in
/-- The payees of `GetBlockTxOuts`, when there is one in the first tier. -/
lemma getBlockPayees_eq (rules : EvoRules G) (scale : ℤ → ℚ → ℤ) (nBlockHeight blockReward : ℤ)
    {dmnPayee : CDeterministicMN G} (h : old.getMNPayee false .standardMasternode = some dmnPayee) :
    ∃ share payees, getBlockPayees rules scale old nBlockHeight blockReward = some ((dmnPayee, share) :: payees) ∧
      ∀ dmnPayee2, (∃ share2, (dmnPayee2, share2) ∈ payees) ↔
        rules.params.MNTierForkHeight ≤ nBlockHeight - 1 ∧ old.getMNPayee false .lite = some dmnPayee2 := by
  unfold getBlockPayees
  rw [h]
  by_cases hfork : rules.params.MNTierForkHeight ≤ nBlockHeight - 1
  · rw [if_pos hfork]
    cases hlite : old.getMNPayee false .lite with
    | none => exact ⟨_, [], rfl, fun d => ⟨fun ⟨_, hmem⟩ => (nomatch hmem), fun ⟨_, heq⟩ => (nomatch heq)⟩⟩
    | some dmnPayee2 =>
      refine ⟨_, [_], rfl, fun d => ⟨fun ⟨share2, hmem⟩ => ⟨hfork, ?_⟩, fun ⟨_, heq⟩ => ?_⟩⟩
      · rw [mem_singleton] at hmem
        cases hmem
        rfl
      · cases heq
        exact ⟨_, mem_singleton_self _⟩
  · rw [if_neg hfork]
    exact ⟨_, [], rfl, fun d => ⟨fun ⟨_, hmem⟩ => (nomatch hmem), fun ⟨h, _⟩ => absurd h hfork⟩⟩

/-- A payee in the second tier was registered when the tier existed, so `GetBlockTxOuts` looks at the tier. -/
lemma ChainList.forkHeight_le (h : ChainList rules (BlockChecked rules) pindexPrev old) {dmn : CDeterministicMN G}
    (hdmn : old.getMNPayee false .lite = some dmn) : rules.params.MNTierForkHeight ≤ pindexPrev.nHeight := by
  have hwf := h.listHeightsWf
  obtain ⟨hpayable, -⟩ := payable_of_getMNPayee hwf.mapWf (.inr rfl) hdmn
  refine (hwf.heights _ dmn hpayable.listed).lite ?_
  have hvalid := h.nType_isValid hpayable.listed
  have htier := hpayable.tier
  cases htype : dmn.nType with
  | standardMasternode => exact absurd (htier.mp htype) (by decide)
  | lite => rfl
  | other v =>
    rw [htype] at hvalid
    cases hvalid

/-- For every list along a chain and every block, the payments and the marks agree exactly if the first tier has a payee
or the second one has none that stays. -/
theorem paidMeansPaid_iff (hchain : ChainList rules (BlockChecked rules) pindexPrev old) {view : CCoinsView}
    {block : CBlock} (hrun : (buildNewListFromBlock rules pindexPrev view block).run old = .ok () new)
    (hshares : NoShareIsZero rules scale pindexPrev old blockReward) :
    PaidMeansPaid rules scale pindexPrev old new blockReward ↔ ¬OnlyLitePayee rules pindexPrev old new := by
  have hwf := hchain.listHeightsWf
  obtain ⟨-, hheights⟩ := buildNewListFromBlock_heights hwf hrun
  constructor
  · rintro ⟨hpaid, -⟩ ⟨hnone, hfork, dmn, hdmn, hsome⟩
    obtain ⟨d, hd⟩ := Option.isSome_iff_exists.mp hsome
    obtain ⟨outs, -, houts, -⟩ := hpaid _ d hd ((hheights _ d hd).paid (.inr ⟨hfork, dmn, hdmn, rfl⟩))
    unfold getBlockTxOuts getBlockPayees at houts
    rw [hnone] at houts
    cases houts
  · intro hnot
    -- a payee of `GetBlockTxOuts` gets an output
    have hout : ∀ {payees : List (CDeterministicMN G × ℤ)} {dmn : CDeterministicMN G} {share : ℤ},
        getBlockPayees rules scale old (pindexPrev.nHeight + 1) blockReward = some payees → (dmn, share) ∈ payees →
        ∃ outs, getBlockTxOuts rules scale old (pindexPrev.nHeight + 1) blockReward = some outs ∧ ∃ out ∈ outs,
          out.scriptPubKey = dmn.pdmnState.scriptPayout ∨ out.scriptPubKey = dmn.pdmnState.scriptOperatorPayout := by
      intro payees dmn share hpayees hmem
      obtain ⟨out, hout, hscript⟩ := payShare_ne_nil dmn (hshares payees hpayees _ hmem)
      refine ⟨_, congrArg (Option.map _) hpayees, out, mem_flatMap.mpr ⟨_, hmem, hout⟩, hscript⟩
    have hlisted : ∀ {type : MnType} {dmn : CDeterministicMN G}, type = .standardMasternode ∨ type = .lite →
        old.getMNPayee false type = some dmn → old.mnMap[dmn.proTxHash]? = some dmn :=
      fun htype hdmn => (payable_of_getMNPayee hwf.mapWf htype hdmn).1.listed
    constructor
    · intro x d hd hlast
      have hpayee : IsPayee rules pindexPrev old x := by
        by_contra hno
        have hle := ((hheights x d hd).unpaid hno).1
        omega
      obtain ⟨dmn, hdmn, rfl⟩ | ⟨hfork, dmn, hdmn, rfl⟩ := hpayee
      · obtain ⟨share, payees, hpayees, -⟩ := getBlockPayees_eq rules scale (pindexPrev.nHeight + 1) blockReward hdmn
        obtain ⟨outs, houts, hmem⟩ := hout hpayees mem_cons_self
        exact ⟨outs, dmn, houts, hlisted (.inl rfl) hdmn, hmem⟩
      · cases hone : old.getMNPayee false .standardMasternode with
        | none => exact absurd ⟨hone, hfork, dmn, hdmn, by rw [hd]; rfl⟩ hnot
        | some dmnPayee =>
          obtain ⟨share, payees, hpayees, hsecond⟩ :=
            getBlockPayees_eq rules scale (pindexPrev.nHeight + 1) blockReward hone
          have hheight := hchain.forkHeight_le hdmn
          obtain ⟨share2, hmem⟩ := (hsecond dmn).mpr ⟨by omega, hdmn⟩
          obtain ⟨outs, houts, hmem⟩ := hout hpayees (mem_cons_of_mem _ hmem)
          exact ⟨outs, dmn, houts, hlisted (.inr rfl) hdmn, hmem⟩
    · intro payees hpayees payee hmem d hd
      refine (hheights _ d hd).paid ?_
      cases hone : old.getMNPayee false .standardMasternode with
      | none =>
        unfold getBlockPayees at hpayees
        rw [hone] at hpayees
        cases hpayees
      | some dmnPayee =>
        obtain ⟨share, payees', hpayees', hsecond⟩ :=
          getBlockPayees_eq rules scale (pindexPrev.nHeight + 1) blockReward hone
        rw [hpayees] at hpayees'
        cases hpayees'
        obtain rfl | hmem := mem_cons.mp hmem
        · exact .inl ⟨dmnPayee, hone, rfl⟩
        · obtain ⟨hfork, hlite⟩ := (hsecond payee.1).mp ⟨payee.2, hmem⟩
          exact .inr ⟨decide_eq_true (by omega), payee.1, hlite, rfl⟩

end

/-! ### A masternode that loses its turn -/

/-- The exact product, truncated. -/
def exactScale (v : ℤ) (q : ℚ) : ℤ := (v * q.num).tdiv q.den

lemma noShareIsZero_of_all {rules : EvoRules G} {scale : ℤ → ℚ → ℤ} {pindexPrev : CBlockIndex}
    {old : CDeterministicMNList G} {blockReward : ℤ}
    (h : (getBlockPayees rules scale old (pindexPrev.nHeight + 1) blockReward).all fun payees =>
      payees.all fun payee => decide (0 < payee.2)) : NoShareIsZero rules scale pindexPrev old blockReward := by
  intro payees hpayees payee hmem
  rw [hpayees] at h
  exact of_decide_eq_true (all_eq_true.mp h payee hmem)

/-- With a masternode in each tier both are paid and marked. -/
theorem paidMeansPaid_iff_tierList :
    let old := tierList [tierRegistration 7 .lite 5 2, tierRegistration 8 .standardMasternode 4 3]
    let new := finalState (buildNewListFromBlock tierRules (toyIndex 2) (fun _ => none) (toyBlock 3 [])) old
    (PaidMeansPaid tierRules exactScale (toyIndex 2) old new (100 * COIN) ↔
      ¬OnlyLitePayee tierRules (toyIndex 2) old new) ∧
      (old.getMNPayee false .standardMasternode).isSome ∧
      (getBlockTxOuts tierRules exactScale old 3 (100 * COIN)).map length = some 2 := by
  have hchain := chainList_tierList [tierRegistration 7 .lite 5 2, tierRegistration 8 .standardMasternode 4 3]
    (by decide +kernel) (by decide +kernel)
  have hrun : returns (buildNewListFromBlock tierRules (toyIndex 2) (fun _ => none) (toyBlock 3 []))
      (tierList [tierRegistration 7 .lite 5 2, tierRegistration 8 .standardMasternode 4 3]) := by decide +kernel
  exact ⟨paidMeansPaid_iff hchain (run_of_returns hrun) (noShareIsZero_of_all (by decide +kernel)), by decide +kernel,
    by decide +kernel⟩

/-- With a masternode in the second tier only, the block marks it as paid and `GetBlockTxOuts` finds no payee. -/
theorem not_paidMeansPaid_tierList :
    let old := tierList [tierRegistration 7 .lite 5 2]
    let new := finalState (buildNewListFromBlock tierRules (toyIndex 2) (fun _ => none) (toyBlock 3 [])) old
    ChainList tierRules (BlockChecked tierRules) (toyIndex 2) old ∧
      (buildNewListFromBlock tierRules (toyIndex 2) (fun _ => none) (toyBlock 3 [])).run old = .ok () new ∧
      NoShareIsZero tierRules exactScale (toyIndex 2) old (100 * COIN) ∧
      new.mnMap[(7 : Uint256)]?.map (·.pdmnState.nLastPaidHeight) = some 3 ∧
      getBlockTxOuts tierRules exactScale old 3 (100 * COIN) = none ∧
      ¬PaidMeansPaid tierRules exactScale (toyIndex 2) old new (100 * COIN) := by
  have hchain := chainList_tierList [tierRegistration 7 .lite 5 2] (by decide +kernel) (by decide +kernel)
  have hrun : returns (buildNewListFromBlock tierRules (toyIndex 2) (fun _ => none) (toyBlock 3 []))
      (tierList [tierRegistration 7 .lite 5 2]) := by decide +kernel
  have hmarked : (finalState (buildNewListFromBlock tierRules (toyIndex 2) (fun _ => none) (toyBlock 3 []))
      (tierList [tierRegistration 7 .lite 5 2])).mnMap[(7 : Uint256)]?.map (·.pdmnState.nLastPaidHeight) = some 3 := by
    decide +kernel
  have houts : getBlockTxOuts tierRules exactScale (tierList [tierRegistration 7 .lite 5 2]) 3 (100 * COIN) = none := by
    decide +kernel
  refine ⟨hchain, run_of_returns hrun, noShareIsZero_of_all (by decide +kernel), hmarked, houts, fun h => ?_⟩
  obtain ⟨d, hd, hlast⟩ := Option.map_eq_some_iff.mp hmarked
  obtain ⟨outs, -, houts', -⟩ := h.paid 7 d hd hlast
  exact absurd (houts.symm.trans houts') (by simp)

/-! ### The outputs of a coinbase -/

section

variable (rules : EvoRules G) (scale : ℤ → ℚ → ℤ) (list : CDeterministicMNList G) (nBlockHeight blockReward : ℤ)

/-- The outputs that `IsTransactionValid` looks for. The extra payout of the height is not shared out. -/
def requiredTxOuts : Option (List CTxOut) :=
  getBlockTxOuts rules scale list nBlockHeight
    (if rules.isMain && isExtraFundAllocationHeight nBlockHeight then blockReward - getExtraPayOutAmount nBlockHeight
    else blockReward)

def isTransactionValid (txNew : CTransaction) : Bool :=
  if !isDIP3Enforced rules nBlockHeight then true
  else match requiredTxOuts rules scale list nBlockHeight blockReward with
    | none => true
    | some voutMasternodePayments =>
      voutMasternodePayments.all fun txout => txNew.vout.any fun txout2 => txout = txout2

/-- The required outputs are paid in full. -/
structure PaidInFull (outs vout : List CTxOut) : Prop where
  /-- Each has an output of its own. -/
  contained : outs.Subperm vout
  /-- Their scripts get at least their sum. -/
  paid : (∀ out ∈ vout, 0 ≤ out.nValue) → (outs.map (·.nValue)).sum ≤
    ((vout.filter fun out => out.scriptPubKey ∈ outs.map (·.scriptPubKey)).map (·.nValue)).sum

lemma paidInFull {outs vout : List CTxOut} (h : outs.Subperm vout) : PaidInFull outs vout := by
  refine ⟨h, fun hnonneg => ?_⟩
  have hfilter := h.filter fun out => out.scriptPubKey ∈ outs.map (·.scriptPubKey)
  rw [filter_eq_self.mpr fun out hmem => decide_eq_true (mem_map_of_mem hmem)] at hfilter
  obtain ⟨l, hperm, hsub⟩ := hfilter
  rw [← (hperm.map (·.nValue)).sum_eq]
  refine (hsub.map (·.nValue)).sum_le_sum fun v hv => ?_
  obtain ⟨out, hout, rfl⟩ := mem_map.mp hv
  exact hnonneg out (mem_of_mem_filter hout)

/-- Where the masternode list is enforced, every valid coinbase pays the required outputs in full exactly when no two of
them are equal: equal ones are all found at the same output. -/
theorem paidInFull_iff {outs : List CTxOut} (henforced : isDIP3Enforced rules nBlockHeight)
    (houts : requiredTxOuts rules scale list nBlockHeight blockReward = some outs) :
    (∀ txNew, isTransactionValid rules scale list nBlockHeight blockReward txNew → PaidInFull outs txNew.vout) ↔
      outs.Nodup := by
  have hvalid : ∀ txNew, isTransactionValid rules scale list nBlockHeight blockReward txNew ↔ outs ⊆ txNew.vout := by
    intro txNew
    unfold isTransactionValid
    rw [henforced, houts]
    simp [subset_def]
  constructor
  · intro hpaid
    have hle :=
      (hpaid ⟨0, 3, .coinbase, [], outs.dedup, 0, []⟩ ((hvalid _).mpr (subset_dedup outs))).contained.length_le
    rw [← (dedup_sublist outs).eq_of_length_le hle]
    exact nodup_dedup outs
  · exact fun hnodup txNew h => paidInFull (subperm_of_subset hnodup ((hvalid txNew).mp h))

end

def oneMasternode : CDeterministicMNList (Fin 4) := tierList [tierRegistration 8 .standardMasternode 4 3]

/-- The list with an operator who gets half of the reward, at a given address. -/
def halfToOperator (scriptOperatorPayout : CScript) : CDeterministicMNList (Fin 4) :=
  let half := fun (_ : Uint256) (dmn : CDeterministicMN (Fin 4)) => { dmn with
    nOperatorReward := 5000
    pdmnState := { dmn.pdmnState with scriptOperatorPayout } }
  { oneMasternode with mnMap := oneMasternode.mnMap.map half, tierOne := oneMasternode.tierOne.map half }

/-- The owner and the operator have equal shares and different addresses. -/
theorem paidInFull_iff_ownerAndOperator :
    PaidInFull [⟨25 * COIN, toyScript 6⟩, ⟨25 * COIN, toyScript 7⟩]
      [⟨25 * COIN, toyScript 7⟩, ⟨50 * COIN, toyScript 5⟩, ⟨25 * COIN, toyScript 6⟩] :=
  (paidInFull_iff tierRules exactScale (halfToOperator (toyScript 7)) 3 (100 * COIN) (by decide)
    (by decide +kernel)).mpr (by decide)
    ⟨0, 3, .coinbase, [], [⟨25 * COIN, toyScript 7⟩, ⟨50 * COIN, toyScript 5⟩, ⟨25 * COIN, toyScript 6⟩], 0, []⟩
    (by decide +kernel)

/-- Before the list is enforced a coinbase without outputs is valid. Later, one output is enough for the owner and the
operator with equal shares and one address. -/
theorem isTransactionValid_unpaid :
    let rules := { tierRules with params := { tierRules.params with DIP0003EnforcementHeight := 4 } }
    isTransactionValid rules exactScale oneMasternode 3 (100 * COIN) ⟨0, 3, .coinbase, [], [], 0, []⟩ ∧
      requiredTxOuts rules exactScale oneMasternode 3 (100 * COIN) = some [⟨50 * COIN, toyScript 6⟩] ∧
      isTransactionValid tierRules exactScale (halfToOperator (toyScript 6)) 3 (100 * COIN)
        ⟨0, 3, .coinbase, [], [⟨25 * COIN, toyScript 6⟩], 0, []⟩ ∧
      requiredTxOuts tierRules exactScale (halfToOperator (toyScript 6)) 3 (100 * COIN) =
        some [⟨25 * COIN, toyScript 6⟩, ⟨25 * COIN, toyScript 6⟩] := by
  decide +kernel

end Blocx
