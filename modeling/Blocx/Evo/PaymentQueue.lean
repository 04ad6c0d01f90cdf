import Blocx.Evo.ListChain

/-!
# Nobody starves in the payment queue

`GetMNPayee` chooses the masternode of a tier that comes first in the order of `CompareByLastPaid`, and the block moves
it behind all others. The argument is the one of a queue. Across a block a masternode that was paid, revived or
registered gets the height of the block, which is later than the height of everybody who was there before and was not
touched; the others keep their height. So nobody gets ahead of a masternode that waits, and whoever is paid before it
falls behind it.
-/

namespace Blocx

open List

open CDeterministicMNList

variable {G : Type} {x : Uint256} {rules : EvoRules G} {type : MnType}

/-! ### Runs of blocks -/

section

variable [DecidableEq G] (rules : EvoRules G) (index : ℕ → CBlockIndex) (lists : ℕ → CDeterministicMNList G) (n : ℕ)

/-- A run of blocks, each of which builds its list from the one before. The first list is any list of a chain. -/
structure ListRun : Prop where
  start : ChainList rules (fun _ _ _ _ => True) (index 0) (lists 0)
  pprev : ∀ k < n, (index (k + 1)).pprev = some (index k)
  build : ∀ k < n, ∃ (view : CCoinsView) (block : CBlock) (new : CDeterministicMNList G) (blockHash : Uint256)
    (nTotalRegisteredCount : ℕ), (buildNewListFromBlock rules (index k) view block).run (lists k) = .ok () new ∧
      lists (k + 1) = { new with blockHash, nTotalRegisteredCount }

/-- A masternode stays in the list during a run, and is neither banned nor revived. -/
def StaysValid (type : MnType) (X : CDeterministicMN G) : Prop :=
  ∀ k ≤ n, ∃ d, Payable (lists k) type d ∧ d.proTxHash = X.proTxHash ∧
    d.pdmnState.nRegisteredHeight = X.pdmnState.nRegisteredHeight ∧
    d.pdmnState.nPoSeRevivedHeight = X.pdmnState.nPoSeRevivedHeight

/-- The masternode is the payee of the tier for the block after a list. -/
def Selects (type : MnType) (x : Uint256) (list : CDeterministicMNList G) : Prop :=
  ∃ d, list.getMNPayee false type = some d ∧ d.proTxHash = x

/-- The masternodes of the tier that can be paid and come before another one. -/
def rankedBefore (list : CDeterministicMNList G) (type : MnType) (X : CDeterministicMN G) : List (CDeterministicMN G) :=
  ((mns (list.tierMap type)).filter isMNValid).filter fun d => compareByLastPaid d X

end

/-! ### What a block does to the order -/

section

variable {pindexPrev : CBlockIndex} {old : CDeterministicMNList G} {d a : CDeterministicMN G}

lemma HeightsWf.lastPaidHeight_le {height : ℤ} (h : HeightsWf rules height height d) : lastPaidHeight d ≤ height := by
  unfold lastPaidHeight
  dsimp only
  split_ifs
  · exact h.revived
  · exact h.registered
  · exact h.lastPaid

lemma SameHeights.lastPaidHeight_eq (h : SameHeights a.pdmnState d.pdmnState) :
    lastPaidHeight d = lastPaidHeight a := by
  unfold lastPaidHeight
  dsimp only
  rw [h.registered, h.lastPaid, h.revived]

/-- After a block a masternode has the height of the block, or it was there before, with the same height, and it was not
paid. -/
lemma BlockHeights.lastPaidHeight_cases (h : BlockHeights rules pindexPrev old x d) :
    lastPaidHeight d = pindexPrev.nHeight + 1 ∨
    ¬IsPayee rules pindexPrev old x ∧ ∃ a, old.mnMap[x]? = some a ∧ d.nType = a.nType ∧
      SameHeights a.pdmnState d.pdmnState ∧ (isMNValid d → isMNValid a) := by
  have hpos := pindexPrev.nHeight_nonneg
  have hrevived := h.wf.revived
  by_cases hpayee : IsPayee rules pindexPrev old x
  · left
    have hpaid := h.paid hpayee
    unfold lastPaidHeight
    dsimp only
    rw [hpaid, if_neg (by omega), if_neg (by omega)]
  · obtain ⟨hpaid, hafter⟩ := h.unpaid hpayee
    cases hafter with
    | kept ha htype hsame hvalid => exact .inr ⟨hpayee, _, ha, htype, hsame, hvalid⟩
    | revived hrev =>
      left
      unfold lastPaidHeight
      dsimp only
      rw [hrev, if_pos ⟨by omega, by omega⟩]
    | registered hrev hzero hreg =>
      left
      unfold lastPaidHeight
      dsimp only
      rw [hrev, hzero, hreg, if_neg (by omega), if_pos rfl]

lemma Payable.eq_of_proTxHash {type' : MnType} (ha : Payable old type a) (hd : Payable old type' d)
    (h : a.proTxHash = d.proTxHash) : a = d := by
  have ha' := ha.listed
  rw [h, hd.listed] at ha'
  exact (Option.some.inj ha').symm

/-- The payee of a block is the one of its own tier. -/
lemma IsPayee.selects (hwf : MapWf old) (htype : type = .standardMasternode ∨ type = .lite) (hd : Payable old type d)
    (h : IsPayee rules pindexPrev old d.proTxHash) : Selects type d.proTxHash old := by
  have hselects : ∀ {type' : MnType}, type' = .standardMasternode ∨ type' = .lite →
      (∃ m, old.getMNPayee false type' = some m ∧ m.proTxHash = d.proTxHash) → Selects type d.proTxHash old := by
    rintro type' htype' ⟨m, hm, hhash⟩
    obtain ⟨hpayable, -⟩ := payable_of_getMNPayee hwf htype' hm
    obtain rfl := hpayable.eq_of_proTxHash hd hhash
    have hiff := hpayable.tier.symm.trans hd.tier
    have heq : type' = type := by
      obtain rfl | rfl := htype <;> obtain rfl | rfl := htype' <;> simp_all
    exact ⟨m, heq ▸ hm, rfl⟩
  obtain h | ⟨-, h⟩ := h
  · exact hselects (.inl rfl) h
  · exact hselects (.inr rfl) h

end

/-! ### Waiting -/

section

variable [DecidableEq G] {index : ℕ → CBlockIndex} {lists : ℕ → CDeterministicMNList G} {n k : ℕ}
  {X a d : CDeterministicMN G}

section

variable (h : ListRun rules index lists n)

include h

lemma ListRun.chainList (hk : k ≤ n) : ChainList rules (fun _ _ _ _ => True) (index k) (lists k) := by
  induction k with
  | zero => exact h.start
  | succ k ih =>
    obtain ⟨view, block, new, blockHash, total, hrun, hlist⟩ := h.build k hk
    rw [hlist]
    exact .build blockHash total (ih (Nat.le_of_succ_le hk)) (h.pprev k hk) trivial hrun

lemma ListRun.wf (hk : k ≤ n) : ListHeightsWf rules (index k).nHeight (lists k) := (h.chainList hk).listHeightsWf

lemma ListRun.blockHeights (hk : k < n) (hd : (lists (k + 1)).mnMap[x]? = some d) :
    BlockHeights rules (index k) (lists k) x d := by
  obtain ⟨view, block, new, blockHash, total, hrun, hlist⟩ := h.build k hk
  rw [hlist] at hd
  exact (buildNewListFromBlock_heights (h.wf hk.le) hrun).2 x d hd

lemma ListRun.nHeight_le (hk : k ≤ n) : (index 0).nHeight ≤ (index k).nHeight := by
  induction k with
  | zero => exact le_rfl
  | succ k ih =>
    have hstep := CBlockIndex.nHeight_of_pprev (h.pprev k hk)
    omega

variable (htype : type = .standardMasternode ∨ type = .lite)

include htype

lemma ListRun.isPayee (hfork : type = .lite → rules.params.MNTierForkHeight ≤ (index 0).nHeight + 1) (hk : k ≤ n)
    (hx : Selects type x (lists k)) : IsPayee rules (index k) (lists k) x := by
  obtain rfl | rfl := htype
  · exact .inl hx
  · have hheight := h.nHeight_le hk
    have hfork := hfork rfl
    exact .inr ⟨decide_eq_true (by omega), hx⟩

/-- A masternode that stays valid and is not selected keeps its height. -/
lemma ListRun.lastPaidHeight_eq (hk : k < n)
    (ha : Payable (lists k) type a) (hd : Payable (lists (k + 1)) type d) (hhash : d.proTxHash = a.proTxHash)
    (hregistered : d.pdmnState.nRegisteredHeight = a.pdmnState.nRegisteredHeight)
    (hrevived : d.pdmnState.nPoSeRevivedHeight = a.pdmnState.nPoSeRevivedHeight)
    (hnot : ¬Selects type a.proTxHash (lists k)) : lastPaidHeight d = lastPaidHeight a := by
  have hwf := h.wf hk.le
  have hpayee : ¬IsPayee rules (index k) (lists k) d.proTxHash :=
    fun hp => hnot ((hhash ▸ hp).selects hwf.mapWf htype ha)
  have hblock := h.blockHeights hk hd.listed
  have ha' := hwf.heights _ a ha.listed
  obtain ⟨hpaid, hafter⟩ := hblock.unpaid hpayee
  cases hafter with
  | kept hb _ hsame _ =>
    rw [hhash, ha.listed] at hb
    cases hb
    exact hsame.lastPaidHeight_eq
  | revived hrev =>
    have hle := ha'.revived
    omega
  | registered _ _ hreg =>
    have hle := ha'.registered
    omega

end

/-- The hashes of the masternodes ahead of another one. -/
def aheadOf (list : CDeterministicMNList G) (type : MnType) (X : CDeterministicMN G) : Finset Uint256 :=
  ((rankedBefore list type X).map (·.proTxHash)).toFinset

omit [DecidableEq G] in
lemma mem_aheadOf {list : CDeterministicMNList G} (hwf : MapWf list) {y : Uint256} :
    y ∈ aheadOf list type X ↔ ∃ d, Payable list type d ∧ compareByLastPaid d X ∧ d.proTxHash = y := by
  unfold aheadOf rankedBefore
  simp only [mem_toFinset, mem_map, mem_filter, and_assoc]
  constructor
  · rintro ⟨d, hmem, hvalid, hlt, rfl⟩
    exact ⟨d, hwf.mem_tierMap.mp (mem_filter.mpr ⟨hmem, hvalid⟩), hlt, rfl⟩
  · rintro ⟨d, hd, hlt, rfl⟩
    obtain ⟨hmem, hvalid⟩ := mem_filter.mp (hwf.mem_tierMap.mpr hd)
    exact ⟨d, hmem, hvalid, hlt, rfl⟩

/-- A block that does not select the masternode selects one ahead of it, which falls behind, and lets nobody in. -/
lemma ListRun.aheadOf_subset (h : ListRun rules index lists n) (htype : type = .standardMasternode ∨ type = .lite)
    (hfork : type = .lite → rules.params.MNTierForkHeight ≤ (index 0).nHeight + 1) (hk : k < n)
    (ha : Payable (lists k) type a) (hhash : d.proTxHash = a.proTxHash) (hsame : lastPaidHeight d = lastPaidHeight a)
    (hnot : ¬Selects type a.proTxHash (lists k)) :
    ∃ y ∈ aheadOf (lists k) type a, aheadOf (lists (k + 1)) type d ⊆ (aheadOf (lists k) type a).erase y := by
  have hwf := h.wf hk.le
  have hwf' := h.wf hk
  obtain ⟨-, hnone⟩ | ⟨m, hm, hpayable, hfirst⟩ := getMNPayee_spec hwf.mapWf htype
  · exact absurd ha (hnone a)
  have hne : a.proTxHash ≠ m.proTxHash := fun heq => hnot ⟨m, hm, heq.symm⟩
  refine ⟨m.proTxHash, (mem_aheadOf hwf.mapWf).mpr ⟨m, hpayable, ?_, rfl⟩, fun y hy => ?_⟩
  · exact compareByLastPaid_total hne (hfirst a ha)
  obtain ⟨e, he, hlt, rfl⟩ := (mem_aheadOf hwf'.mapWf).mp hy
  have hle := (lastPaidHeight_le_of_compareByLastPaid hlt).trans (hsame.le.trans
    (hwf.heights _ a ha.listed).lastPaidHeight_le)
  obtain hnew | ⟨hpayee, b, hb, hbtype, hbsame, hbvalid⟩ := (h.blockHeights hk he.listed).lastPaidHeight_cases
  · omega
  have hbhash := hwf.mapWf.proTxHash _ b hb
  have hbpay : Payable (lists k) type b :=
    ⟨hbhash.symm ▸ hb, by have ht := he.tier; unfold InTier at ht ⊢; rwa [hbtype] at ht, hbvalid he.valid⟩
  have hbefore : compareByLastPaid b a = compareByLastPaid e d := by
    unfold compareByLastPaid
    rw [hbsame.lastPaidHeight_eq, hsame, hbhash, hhash]
  refine Finset.mem_erase.mpr ⟨fun heq => hpayee ?_, (mem_aheadOf hwf.mapWf).mpr ⟨b, hbpay, hbefore ▸ hlt, hbhash⟩⟩
  exact h.isPayee htype hfork hk.le ⟨m, hm, heq.symm⟩

/-- In every run of blocks, a masternode that stays in the list and is neither banned nor revived is selected for one of
the next `r + 1` blocks, if `r` masternodes of its tier come before it, and no other masternode of the tier is selected
twice without it being selected in between. -/
theorem selects_within_rank (htype : type = .standardMasternode ∨ type = .lite) (h : ListRun rules index lists n)
    (hfork : type = .lite → rules.params.MNTierForkHeight ≤ (index 0).nHeight + 1)
    (hX : (lists 0).mnMap[X.proTxHash]? = some X) (hstays : StaysValid lists n type X) :
    ((rankedBefore (lists 0) type X).length ≤ n →
      ∃ k ≤ (rankedBefore (lists 0) type X).length, Selects type X.proTxHash (lists k)) ∧
    ∀ k l y, k < l → l ≤ n → y ≠ X.proTxHash → Selects type y (lists k) → Selects type y (lists l) →
      ∃ m, k < m ∧ m < l ∧ Selects type X.proTxHash (lists m) := by
  have : Nonempty (CDeterministicMN G) := ⟨X⟩
  choose! entry hentry hhash hregistered hrevived using hstays
  have hnext : ∀ k < n, (entry (k + 1)).proTxHash = (entry k).proTxHash := by
    intro k hk
    rw [hhash k hk.le, hhash (k + 1) hk]
  have hstep : ∀ k < n, ¬Selects type X.proTxHash (lists k) → lastPaidHeight (entry (k + 1)) =
      lastPaidHeight (entry k) := by
    intro k hk hnot
    refine h.lastPaidHeight_eq htype hk (hentry k hk.le) (hentry (k + 1) hk) (hnext k hk) ?_ ?_ (hhash k hk.le ▸ hnot)
    · rw [hregistered k hk.le, hregistered (k + 1) hk]
    · rw [hrevived k hk.le, hrevived (k + 1) hk]
  constructor
  · intro hr
    have hX₀ : entry 0 = X := by
      have h₀ := (hentry 0 (Nat.zero_le n)).listed
      rw [hhash 0 (Nat.zero_le n), hX] at h₀
      exact (Option.some.inj h₀).symm
    have hcard : (aheadOf (lists 0) type (entry 0)).card ≤ (rankedBefore (lists 0) type X).length := by
      rw [hX₀]
      exact (toFinset_card_le _).trans (length_map _).le
    refine @exists_turn _ _ (fun k => aheadOf (lists k) type (entry k)) _ _ hcard (fun k hk hnot => ?_)
      fun k hk hempty => ?_
    · have hkn := hk.trans_le hr
      exact h.aheadOf_subset htype hfork hkn (hentry k hkn.le) (hnext k hkn) (hstep k hkn hnot) (hhash k hkn.le ▸ hnot)
    · have hkn := hk.trans hr
      have hwf := h.wf hkn
      obtain ⟨-, hnone⟩ | ⟨m, hm, hpayable, hfirst⟩ := getMNPayee_spec hwf.mapWf htype
      · exact absurd (hentry k hkn) (hnone _)
      · refine ⟨m, hm, ?_⟩
        by_contra hne
        have hbefore := compareByLastPaid_total (fun heq => hne (heq.symm.trans (hhash k hkn)))
          (hfirst _ (hentry k hkn))
        have hmem := (mem_aheadOf hwf.mapWf).mpr ⟨m, hpayable, hbefore, rfl⟩
        rw [hempty] at hmem
        cases hmem
  · intro k l y hkl hln hne hk hl
    by_contra hnot
    push Not at hnot
    have hkn := hkl.trans_le hln
    -- once the other one was selected, it stays behind
    have hbehind : ∀ m, k < m → m ≤ l → ∀ e, (lists m).mnMap[y]? = some e →
        lastPaidHeight (entry m) < lastPaidHeight e := by
      intro m hm
      induction m, hm using Nat.le_induction with
      | base =>
        intro _ e he
        have hX : ¬Selects type X.proTxHash (lists k) := by
          rintro ⟨d, hd, hdX⟩
          obtain ⟨d', hd', hdy⟩ := hk
          rw [hd] at hd'
          cases hd'
          exact hne (hdy.symm.trans hdX)
        have hpayee := h.isPayee htype hfork hkn.le hk
        have hold := ((h.wf hkn.le).heights _ _ (hentry k hkn.le).listed).lastPaidHeight_le
        obtain hnew | ⟨hno, -⟩ := (h.blockHeights hkn he).lastPaidHeight_cases
        · rw [hstep k hkn hX]
          omega
        · exact absurd hpayee hno
      | succ m hm ih =>
        intro hml e he
        have hmn : m < n := Nat.lt_of_lt_of_le hml hln
        rw [hstep m hmn (hnot m hm hml)]
        have hold := ((h.wf hmn.le).heights _ _ (hentry m hmn.le).listed).lastPaidHeight_le
        obtain hnew | ⟨-, b, hb, -, hsame, -⟩ := (h.blockHeights hmn he).lastPaidHeight_cases
        · omega
        · rw [hsame.lastPaidHeight_eq]
          exact ih (Nat.le_of_lt hml) b hb
    obtain ⟨d, hd, rfl⟩ := hl
    have hwf := h.wf hln
    obtain ⟨hpayable, hfirst⟩ := payable_of_getMNPayee hwf.mapWf htype hd
    have hlt := hbehind l hkl le_rfl d hpayable.listed
    have hfalse := hfirst _ (hentry l hln)
    unfold compareByLastPaid at hfalse
    rw [if_neg hlt.ne] at hfalse
    exact absurd hlt (of_decide_eq_false hfalse)

end

/-! ### Two masternodes that wait -/

/-- The lists of the toy chain after two registrations. -/
def waitingLists : ℕ → CDeterministicMNList (Fin 4)
  | 0 => tierList [tierRegistration 7 .standardMasternode 5 2, tierRegistration 8 .standardMasternode 4 3]
  | k + 1 => tierBuilt (waitingLists k) (k + 3) (toyBlock (k + 3) [])

lemma listRun_waitingLists : ListRun tierRules (fun k => toyIndex (k + 2)) waitingLists 1 := by
  have hchain := chainList_tierList [tierRegistration 7 .standardMasternode 5 2,
    tierRegistration 8 .standardMasternode 4 3]
    (by decide +kernel) (by decide +kernel)
  have hstart : ∀ {b list}, ChainList tierRules (BlockChecked tierRules) b list →
      ChainList tierRules (fun _ _ _ _ => True) b list := by
    intro b list h
    induction h with
    | initial blockHash hbelow => exact .initial blockHash hbelow
    | build blockHash n _ hp _ hrun ih => exact .build blockHash n ih hp trivial hrun
  have hrun : returns (buildNewListFromBlock tierRules (toyIndex 2) (fun _ => none) (toyBlock 3 []))
      (waitingLists 0) := by
    decide +kernel
  refine ⟨hstart hchain, fun k hk => ?_, fun k hk => ?_⟩
  · obtain rfl : k = 0 := by omega
    rfl
  · obtain rfl : k = 0 := by omega
    exact ⟨fun _ => none, toyBlock 3 [], _, 3, _, run_of_returns hrun, rfl⟩

lemma staysValid_waitingLists : ∃ X, (waitingLists 0).mnMap[(8 : Uint256)]? = some X ∧ X.proTxHash = 8 ∧
    (rankedBefore (waitingLists 0) .standardMasternode X).length = 1 ∧
    StaysValid waitingLists 1 .standardMasternode X := by
  have hentry : ∀ k < 2, (waitingLists k).mnMap[(8 : Uint256)]?.any fun d => d.proTxHash = 8 &&
      d.nType = .standardMasternode && isMNValid d && d.pdmnState.nRegisteredHeight = 2 &&
      d.pdmnState.nPoSeRevivedHeight = -1 := by decide +kernel
  have hrank : (waitingLists 0).mnMap[(8 : Uint256)]?.any fun X =>
      (rankedBefore (waitingLists 0) .standardMasternode X).length = 1 := by decide +kernel
  simp only [Option.any_eq_true, Bool.and_eq_true, decide_eq_true_eq] at hentry hrank
  obtain ⟨X, hX, hrank⟩ := hrank
  obtain ⟨X', hX', ⟨⟨⟨hhash, -⟩, -⟩, hregistered⟩, hrevived⟩ := hentry 0 (by decide)
  rw [hX] at hX'
  cases hX'
  refine ⟨X, hX, hhash, hrank, fun k hk => ?_⟩
  obtain ⟨d, hd, ⟨⟨⟨hdhash, htype⟩, hvalid⟩, hdregistered⟩, hdrevived⟩ := hentry k (by omega)
  refine ⟨d, ⟨hdhash.symm ▸ hd, by simp [InTier, htype], hvalid⟩, hdhash.trans hhash.symm, ?_, ?_⟩
  · rw [hdregistered, hregistered]
  · rw [hdrevived, hrevived]

/-- Of two masternodes the second one is selected after the first. -/
theorem selects_within_rank_waitingLists : ∃ X, (waitingLists 0).mnMap[(8 : Uint256)]? = some X ∧
    ((rankedBefore (waitingLists 0) .standardMasternode X).length ≤ 1 →
      ∃ k ≤ (rankedBefore (waitingLists 0) .standardMasternode X).length,
        Selects .standardMasternode X.proTxHash (waitingLists k)) ∧
    ∀ k l y, k < l → l ≤ 1 → y ≠ X.proTxHash → Selects .standardMasternode y (waitingLists k) →
      Selects .standardMasternode y (waitingLists l) →
      ∃ m, k < m ∧ m < l ∧ Selects .standardMasternode X.proTxHash (waitingLists m) := by
  obtain ⟨X, hX, hhash, -, hstays⟩ := staysValid_waitingLists
  exact ⟨X, hX, selects_within_rank (.inl rfl) listRun_waitingLists nofun (hhash.symm ▸ hX) hstays⟩

end Blocx
