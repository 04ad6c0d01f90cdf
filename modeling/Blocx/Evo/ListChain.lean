import Blocx.Evo.StoredDiffs
import Blocx.Lib.TurnQueue

/-!
# Lists along a chain

`ChainList` is the list of a block: the empty one before masternodes, and otherwise what the block builds from the list
of its predecessor. The count of registrations is left open, because a list that was read from stored differences may
have lost some. The heights that a masternode carries lie in the past, and a masternode of the second tier was
registered when that tier existed. The order of payments depends on these heights only.
-/

namespace Blocx

open Option List

open CDeterministicMNList Wire CDeterministicMNState

variable {G : Type} {pindexPrev b : CBlockIndex} {d : CDeterministicMN G} {rules : EvoRules G} {x : Uint256}
  {height : ℤ} {list : CDeterministicMNList G}
  {admits : CBlockIndex → CDeterministicMNList G → CCoinsView → CBlock → Prop}

/-- The list of a block, for blocks that are admitted. -/
inductive ChainList [DecidableEq G] (rules : EvoRules G)
    (admits : CBlockIndex → CDeterministicMNList G → CCoinsView → CBlock → Prop) :
    CBlockIndex → CDeterministicMNList G → Prop where
  /-- Before masternodes. -/
  | initial {b : CBlockIndex} (blockHash : Uint256) (hbelow : b.nHeight < rules.params.DIP0003Height) :
    ChainList rules admits b { blockHash }
  /-- After the list of the predecessor. -/
  | build {b p : CBlockIndex} {old new : CDeterministicMNList G} {view : CCoinsView} {block : CBlock}
    (blockHash : Uint256) (nTotalRegisteredCount : ℕ) (hold : ChainList rules admits p old) (hp : b.pprev = some p)
    (hadmits : admits p old view block)
    (hrun : (buildNewListFromBlock rules p view block).run old = .ok () new) :
    ChainList rules admits b { new with blockHash, nTotalRegisteredCount }

/-! ### Heights -/

/-- The heights of a masternode, when the last payment was made up to one height and everything else up to another. -/
structure HeightsWf (rules : EvoRules G) (paidHeight height : ℤ) (dmn : CDeterministicMN G) : Prop where
  registered : dmn.pdmnState.nRegisteredHeight ≤ height
  lastPaid : dmn.pdmnState.nLastPaidHeight ≤ paidHeight
  revived : dmn.pdmnState.nPoSeRevivedHeight ≤ height
  lite : dmn.nType = .lite → rules.params.MNTierForkHeight ≤ height

section Heights

variable {txs : List CTransaction} {st : CDeterministicMNState G}
  {before after : Option (CDeterministicMN G)}

/-- The heights in a state are those in another one. -/
structure SameHeights (st st' : CDeterministicMNState G) : Prop where
  registered : st'.nRegisteredHeight = st.nRegisteredHeight
  lastPaid : st'.nLastPaidHeight = st.nLastPaidHeight
  revived : st'.nPoSeRevivedHeight = st.nPoSeRevivedHeight

variable (st)

lemma sameHeights_banIfNotBanned : SameHeights st (st.banIfNotBanned height) := by
  unfold banIfNotBanned
  split_ifs <;> exact ⟨rfl, rfl, rfl⟩

lemma isBanned_banIfNotBanned (hheight : height ≠ -1) : (st.banIfNotBanned height).isBanned := by
  unfold banIfNotBanned
  split_ifs with h
  · exact h
  · exact decide_eq_true hheight

lemma sameHeights_register (height : ℤ) (proTx : CProRegTx G) :
    SameHeights { nRegisteredHeight := height } (register height proTx) := by
  unfold register
  split_ifs
  · exact { sameHeights_banIfNotBanned { ofProRegTx proTx with nRegisteredHeight := height } with }
  · exact ⟨rfl, rfl, rfl⟩

/-- A service update revives, or keeps the heights and the ban. -/
lemma updateService_heights {proTx : CProUpServTx} :
    (st.updateService height proTx).nRegisteredHeight = st.nRegisteredHeight ∧
      (st.updateService height proTx).nLastPaidHeight = st.nLastPaidHeight ∧
      ((st.updateService height proTx).nPoSeRevivedHeight = height ∨
        (st.updateService height proTx).nPoSeRevivedHeight = st.nPoSeRevivedHeight ∧
          (st.updateService height proTx).isBanned = st.isBanned) := by
  unfold updateService
  dsimp only
  split_ifs
  · exact ⟨rfl, rfl, .inl rfl⟩
  · exact ⟨rfl, rfl, .inr ⟨rfl, rfl⟩⟩

lemma revoke_heights (hheight : height ≠ -1) (proTx : CProUpRevTx) :
    SameHeights st (st.revoke height proTx) ∧ (st.revoke height proTx).isBanned :=
  ⟨{ sameHeights_banIfNotBanned st.resetOperatorFields with }, isBanned_banIfNotBanned st.resetOperatorFields hheight⟩

lemma punishedState_heights (list : CDeterministicMNList G) (penalty : ℤ) :
    SameHeights st (list.punishedState st penalty) ∧
      ((list.punishedState st penalty).isBanned = false → st.isBanned = false) := by
  unfold punishedState
  dsimp only
  split_ifs with hban
  · refine ⟨{ sameHeights_banIfNotBanned
      { st with nPoSePenalty := min list.calcMaxPoSePenalty (st.nPoSePenalty + penalty) } with }, fun _ => ?_⟩
    have hnot := hban.2
    rw [Bool.not_eq_true'] at hnot
    exact hnot
  · exact ⟨⟨rfl, rfl, rfl⟩, id⟩

variable {st}

/-- What steps can do to the heights of an entry: they are kept, and a masternode that is not banned was not banned
before, or it was revived or registered by the block. -/
inductive HeightsAfter (height : ℤ) (before : Option (CDeterministicMN G)) (d : CDeterministicMN G) : Prop where
  | kept {a : CDeterministicMN G} (ha : before = some a) (htype : d.nType = a.nType)
    (hsame : SameHeights a.pdmnState d.pdmnState) (hvalid : isMNValid d → isMNValid a) : HeightsAfter height before d
  | revived (h : d.pdmnState.nPoSeRevivedHeight = height) : HeightsAfter height before d
  | registered (hrevived : d.pdmnState.nPoSeRevivedHeight = -1) (hpaid : d.pdmnState.nLastPaidHeight = 0)
    (hregistered : d.pdmnState.nRegisteredHeight = height) : HeightsAfter height before d

lemma HeightsAfter.update (h : HeightsAfter height before d) (hsame : SameHeights d.pdmnState st)
    (hvalid : st.isBanned = false → d.pdmnState.isBanned = false) :
    HeightsAfter height before { d with pdmnState := st } := by
  cases h with
  | kept ha htype hsame' hvalid' =>
    refine .kept ha htype ⟨?_, ?_, ?_⟩ fun hv => hvalid' ?_
    · exact hsame.registered.trans hsame'.registered
    · exact hsame.lastPaid.trans hsame'.lastPaid
    · exact hsame.revived.trans hsame'.revived
    · unfold isMNValid at hv ⊢
      rw [hvalid (by simpa using hv)]
      rfl
  | revived h => exact .revived (hsame.revived.trans h)
  | registered hrevived hpaid hregistered =>
    exact .registered (hsame.revived.trans hrevived) (hsame.lastPaid.trans hpaid) (hsame.registered.trans hregistered)

lemma HeightsWf.update {paidHeight : ℤ} (h : HeightsWf rules paidHeight height d) (hsame : SameHeights d.pdmnState st) :
    HeightsWf rules paidHeight height { d with pdmnState := st } :=
  ⟨hsame.registered ▸ h.registered, hsame.lastPaid ▸ h.lastPaid, hsame.revived ▸ h.revived, h.lite⟩

lemma HeightsWf.mono {paidHeight paidHeight' height' : ℤ} (h : HeightsWf rules paidHeight height d)
    (hpaid : paidHeight ≤ paidHeight') (hheight : height ≤ height') : HeightsWf rules paidHeight' height' d :=
  ⟨h.registered.trans hheight, h.lastPaid.trans hpaid, h.revived.trans hheight, fun hl => (h.lite hl).trans hheight⟩

variable [DecidableEq G]

lemma updateRegistrar_heights (hheight : height ≠ -1) (proTx : CProUpRegTx G)
    (st : CDeterministicMNState G) : SameHeights st (st.updateRegistrar height proTx) ∧
      ((st.updateRegistrar height proTx).isBanned = false → st.isBanned = false) := by
  unfold updateRegistrar
  split_ifs
  · exact ⟨⟨rfl, rfl, rfl⟩, id⟩
  · refine ⟨{ sameHeights_banIfNotBanned st.resetOperatorFields with }, fun hvalid => ?_⟩
    have hban := isBanned_banIfNotBanned st.resetOperatorFields hheight
    exact absurd hban (Bool.eq_false_iff.mp hvalid)

variable (h : MnSteps rules pindexPrev txs x before after)

include h

/-- The steps of a block change the heights of an entry in these ways only. -/
lemma MnSteps.heightsAfter : ∀ d, after = some d → HeightsAfter (pindexPrev.nHeight + 1) before d := by
  have hne := pindexPrev.nHeight_succ_ne
  refine MnSteps.forall_entry h (fun d hd => .kept hd rfl ⟨rfl, rfl, rfl⟩ id) fun hstep ih => ?_
  cases hstep with
  | confirmed dmn h | decreased dmn h => exact (ih dmn rfl).update ⟨rfl, rfl, rfl⟩ id
  | @registered tx proTx internalId htx h hlite =>
    have hsame := sameHeights_register (pindexPrev.nHeight + 1) proTx
    exact .registered hsame.revived hsame.lastPaid hsame.registered
  | @service tx proTx dmn htx h =>
    obtain ⟨hregistered, hpaid, hrevived | ⟨hrevived, hban⟩⟩ :=
      updateService_heights dmn.pdmnState
    · exact .revived hrevived
    · exact (ih dmn rfl).update ⟨hregistered, hpaid, hrevived⟩ fun hvalid => hban ▸ hvalid
  | @registrar tx proTx dmn htx h =>
    obtain ⟨hsame, hban⟩ := updateRegistrar_heights hne proTx dmn.pdmnState
    exact (ih dmn rfl).update hsame hban
  | @revoked tx proTx dmn htx h =>
    obtain ⟨hsame, hban⟩ := revoke_heights dmn.pdmnState hne proTx
    exact (ih dmn rfl).update hsame fun hvalid => absurd hban (Bool.eq_false_iff.mp hvalid)
  | @punished tx qc list penalty dmn htx h hheight hpenalty =>
    obtain ⟨hsame, hban⟩ := punishedState_heights dmn.pdmnState list penalty
    exact (ih dmn rfl).update hsame hban

/-- The steps of a block keep the heights in the past, and pay nobody. -/
lemma MnSteps.heightsWf (hbefore : ∀ d, before = some d → HeightsWf rules pindexPrev.nHeight pindexPrev.nHeight d) :
    ∀ d, after = some d → HeightsWf rules pindexPrev.nHeight (pindexPrev.nHeight + 1) d := by
  have hpos := pindexPrev.nHeight_nonneg
  have hne := pindexPrev.nHeight_succ_ne
  refine MnSteps.forall_entry h (fun d hd => (hbefore d hd).mono le_rfl (by omega)) fun hstep ih => ?_
  cases hstep with
  | confirmed dmn h | decreased dmn h => exact (ih dmn rfl).update ⟨rfl, rfl, rfl⟩
  | @registered tx proTx internalId htx h hlite =>
    have hsame := sameHeights_register (pindexPrev.nHeight + 1) proTx
    refine ⟨hsame.registered.le, hsame.lastPaid.le.trans hpos, hsame.revived.le.trans (by dsimp only; omega), ?_⟩
    exact fun hl => of_decide_eq_true (hlite hl)
  | @service tx proTx dmn htx h =>
    have hdmn := ih dmn rfl
    obtain ⟨hregistered, hpaid, hrevived⟩ := updateService_heights dmn.pdmnState
    refine ⟨hregistered ▸ hdmn.registered, hpaid ▸ hdmn.lastPaid, ?_, hdmn.lite⟩
    obtain hrevived | ⟨hrevived, -⟩ := hrevived
    · exact hrevived.le
    · exact hrevived ▸ hdmn.revived
  | @registrar tx proTx dmn htx h => exact (ih dmn rfl).update (updateRegistrar_heights hne proTx dmn.pdmnState).1
  | @revoked tx proTx dmn htx h => exact (ih dmn rfl).update (revoke_heights dmn.pdmnState hne proTx).1
  | @punished tx qc list penalty dmn htx h hheight hpenalty =>
    exact (ih dmn rfl).update (punishedState_heights dmn.pdmnState list penalty).1

end Heights

/-! ### Lists -/

section

variable [DecidableEq G] {old new : CDeterministicMNList G}

/-- A list with consistent maps whose masternodes have their heights in the past. -/
structure ListHeightsWf (rules : EvoRules G) (height : ℤ) (list : CDeterministicMNList G) : Prop where
  mapWf : MapWf list
  heights : ∀ (x : Uint256) (d : CDeterministicMN G), list.mnMap[x]? = some d → HeightsWf rules height height d

/-- What a block does to the heights of a masternode. -/
structure BlockHeights (rules : EvoRules G) (pindexPrev : CBlockIndex) (old : CDeterministicMNList G) (x : Uint256)
    (d : CDeterministicMN G) : Prop where
  wf : HeightsWf rules (pindexPrev.nHeight + 1) (pindexPrev.nHeight + 1) d
  paid : IsPayee rules pindexPrev old x → d.pdmnState.nLastPaidHeight = pindexPrev.nHeight + 1
  unpaid : ¬IsPayee rules pindexPrev old x →
    d.pdmnState.nLastPaidHeight ≤ pindexPrev.nHeight ∧ HeightsAfter (pindexPrev.nHeight + 1) old.mnMap[x]? d

lemma buildNewListFromBlock_heights (hold : ListHeightsWf rules pindexPrev.nHeight old) {view : CCoinsView}
    {block : CBlock} (hrun : (buildNewListFromBlock rules pindexPrev view block).run old = .ok () new) :
    MapWf new ∧ ∀ x d, new.mnMap[x]? = some d →
      BlockHeights rules pindexPrev old x d := by
  obtain ⟨mid, hmid, hmarked⟩ := buildNewListFromBlock_steps hold.mapWf hrun
  refine ⟨hmarked.mapWf, fun x d hd => ?_⟩
  by_cases hpayee : IsPayee rules pindexPrev old x
  · rw [hmarked.paid x hpayee] at hd
    obtain ⟨a, ha, rfl⟩ := map_eq_some_iff.mp hd
    have hwf := MnSteps.heightsWf (hmid.steps x) (hold.heights x) a ha
    exact ⟨⟨hwf.registered, le_rfl, hwf.revived, hwf.lite⟩, fun _ => rfl, fun hnot => absurd hpayee hnot⟩
  · rw [hmarked.unpaid x hpayee] at hd
    have hwf := MnSteps.heightsWf (hmid.steps x) (hold.heights x) d hd
    exact ⟨hwf.mono (by omega) le_rfl, fun h => absurd h hpayee,
      fun _ => ⟨hwf.lastPaid, MnSteps.heightsAfter (hmid.steps x) d hd⟩⟩

omit [DecidableEq G] in
lemma listHeightsWf_empty {blockHash : Uint256} :
    ListHeightsWf rules height ({ blockHash } : CDeterministicMNList G) := by
  have hempty : ∀ {P : Prop} {x : Uint256} {dmn : CDeterministicMN G}, (∅ : MnMap G)[x]? = some dmn → P := by
    intro P x dmn h
    cases h
  exact ⟨⟨fun _ _ => hempty, fun x => by simp, fun x => by simp⟩, fun _ _ => hempty⟩

/-- Along a chain the maps are consistent and the heights lie in the past. -/
lemma ChainList.listHeightsWf (h : ChainList rules admits b list) : ListHeightsWf rules b.nHeight list := by
  induction h with
  | initial blockHash _ => exact listHeightsWf_empty
  | build blockHash n _ hp _ hrun ih =>
    obtain ⟨hmaps, hheights⟩ := buildNewListFromBlock_heights ih hrun
    refine ⟨⟨hmaps.proTxHash, hmaps.tierOne, hmaps.tierTwo⟩, fun x d hd => ?_⟩
    rw [CBlockIndex.nHeight_of_pprev hp]
    exact (hheights x d hd).wf

end

/-! ### Checked blocks -/

section

variable [DecidableEq G]

/-- The special transactions of the block pass the checks against the list of the block before, with or without those of
signatures. -/
def BlockChecked (rules : EvoRules G) (pindexPrev : CBlockIndex) (old : CDeterministicMNList G) (view : CCoinsView)
    (block : CBlock) : Prop :=
  ∃ checkSigs, ∀ tx ∈ block.vtx, checkSpecialTx rules pindexPrev old view checkSigs tx = .ok ()

/-- What every step of an admitted block establishes for the entry it leads to, and a payment keeps, is true of every
masternode along a chain. -/
lemma ChainList.forall_entry {P : CDeterministicMN G → Prop}
    (hstep : ∀ {p : CBlockIndex} {old : CDeterministicMNList G} {view : CCoinsView} {block : CBlock} {x : Uint256}
      {before : Option (CDeterministicMN G)} {d : CDeterministicMN G}, admits p old view block →
      MnStep rules p (block.vtx.drop 1) x before (some d) → (∀ a, before = some a → P a) → P d)
    (hpaid : ∀ height d, P d → P (d.paidAt height)) (h : ChainList rules admits b list)
    (hd : list.mnMap[x]? = some d) : P d := by
  induction h generalizing x d with
  | initial blockHash _ =>
    cases hd
  | @build b p old new view block blockHash n hold _ hadmits hrun ih =>
    obtain ⟨mid, hmid, hmarked⟩ := buildNewListFromBlock_steps hold.listHeightsWf.mapWf hrun
    have hsteps := MnSteps.forall_entry (hmid.steps x) (fun d hd => ih hd) (hstep hadmits)
    by_cases hpayee : IsPayee rules p old x
    · rw [hmarked.paid x hpayee] at hd
      obtain ⟨a, ha, rfl⟩ := map_eq_some_iff.mp hd
      exact hpaid _ a (hsteps a ha)
    · rw [hmarked.unpaid x hpayee] at hd
      exact hsteps d hd

lemma ChainList.nType_isValid (h : ChainList rules (BlockChecked rules) b list) (hd : list.mnMap[x]? = some d) :
    d.nType.isValid := by
  refine ChainList.forall_entry (P := fun d => d.nType.isValid) ?_ (fun _ _ hd => hd) h hd
  intro p old view block x before d hchecked hstep hbefore
  obtain ⟨tx, htx, proTx, id, hreg, heq⟩ | heq | ⟨dmn, st, ha, heq⟩ := hstep.shape
  · cases heq
    obtain ⟨checkSigs, hchecked⟩ := hchecked
    exact (hreg.checked (hchecked tx (mem_of_mem_drop htx))).nType
  · cases heq
  · cases heq
    exact hbefore dmn ha

end

/-! ### The order of payments -/

section

variable {type : MnType} {a b : CDeterministicMN G}

lemma strictTotal_less : StrictTotal fun a b : ℤ => decide (a < b) where
  irrefl _ := decide_eq_false (lt_irrefl _)
  trans _ _ _ hab hbc := decide_eq_true ((of_decide_eq_true hab).trans (of_decide_eq_true hbc))
  connected _ _ hab hba := le_antisymm (not_lt.mp (of_decide_eq_false hba)) (not_lt.mp (of_decide_eq_false hab))

lemma compareByLastPaid_eq : compareByLastPaid a b =
    lexLess (fun a b : ℤ => decide (a < b)) uint256Less (lastPaidHeight a, a.proTxHash)
      (lastPaidHeight b, b.proTxHash) :=
  rfl

lemma compareByLastPaid_irrefl (a : CDeterministicMN G) : compareByLastPaid a a = false := by
  rw [compareByLastPaid_eq]
  exact (strictTotal_less.lex strictTotal_uint256Less).irrefl _

lemma compareByLastPaid_trans (a b c : CDeterministicMN G) (hab : compareByLastPaid a b) (hbc : compareByLastPaid b c) :
    compareByLastPaid a c := by
  rw [compareByLastPaid_eq] at hab hbc ⊢
  exact (strictTotal_less.lex strictTotal_uint256Less).trans _ _ _ hab hbc

lemma compareByLastPaid_total (hne : a.proTxHash ≠ b.proTxHash)
    (hab : compareByLastPaid a b = false) : compareByLastPaid b a := by
  by_contra hba
  rw [compareByLastPaid_eq] at hab hba
  have heq := (strictTotal_less.lex strictTotal_uint256Less).connected _ _ hab (Bool.eq_false_iff.mpr hba)
  exact hne (congrArg Prod.snd heq)

/-- The height that counts is at most the one of the later masternode. -/
lemma lastPaidHeight_le_of_compareByLastPaid (h : compareByLastPaid a b) : lastPaidHeight a ≤ lastPaidHeight b := by
  unfold compareByLastPaid at h
  split_ifs at h with heq
  · exact heq.le
  · exact (of_decide_eq_true h).le

lemma best_eq_foldl {dmns : List (CDeterministicMN G)} :
    best dmns = dmns.foldl (keepFirst compareByLastPaid) none := by
  unfold best
  congr 1
  funext first dmn
  cases first <;> rfl

/-- The masternode is in the tier of a type, that is, in the first one for standard masternodes and otherwise in the
second one. -/
def InTier (type : MnType) (dmn : CDeterministicMN G) : Prop :=
  dmn.nType = .standardMasternode ↔ type = .standardMasternode

/-- A masternode that can be paid: it is listed in the tier and not banned. -/
structure Payable (list : CDeterministicMNList G) (type : MnType) (dmn : CDeterministicMN G) : Prop where
  listed : list.mnMap[dmn.proTxHash]? = some dmn
  tier : InTier type dmn
  valid : isMNValid dmn

def CDeterministicMNList.tierMap (list : CDeterministicMNList G) (type : MnType) : MnMap G :=
  if type = .standardMasternode then list.tierOne else list.tierTwo

variable (h : MapWf list)

include h

lemma MapWf.mem_tierMap {dmn : CDeterministicMN G} :
    dmn ∈ (mns (list.tierMap type)).filter isMNValid ↔ Payable list type dmn := by
  have htier : ∀ x : Uint256, (list.tierMap type)[x]? = some dmn ↔ list.mnMap[x]? = some dmn ∧ InTier type dmn := by
    intro x
    unfold tierMap InTier
    split_ifs with ht
    · rw [h.tierOne, Option.filter_eq_some_iff]
      simp [ht]
    · rw [h.tierTwo, filter_eq_some_iff]
      simp [ht]
  rw [List.mem_filter, mns, List.mem_map]
  constructor
  · rintro ⟨⟨⟨x, d⟩, hmem, rfl⟩, hvalid⟩
    obtain ⟨hx, ht⟩ := (htier x).mp (Std.ExtTreeMap.mem_toList_iff_getElem?_eq_some.mp hmem)
    obtain rfl := h.proTxHash x d hx
    exact ⟨hx, ht, hvalid⟩
  · rintro ⟨hx, ht, hvalid⟩
    exact ⟨⟨(dmn.proTxHash, dmn), Std.ExtTreeMap.mem_toList_iff_getElem?_eq_some.mpr ((htier _).mpr ⟨hx, ht⟩), rfl⟩,
      hvalid⟩

variable (htype : type = .standardMasternode ∨ type = .lite)

include htype

lemma getMNPayee_eq_best : list.getMNPayee false type = best ((mns (list.tierMap type)).filter isMNValid) := by
  have htoList : ∀ m : MnMap G, m.size = 0 → m.toList = [] := by
    intro m hm
    rwa [← Std.ExtTreeMap.length_toList, length_eq_zero_iff] at hm
  have hnil : ∀ m : MnMap G, m.size = 0 → mns m = [] := by
    intro m hm
    rw [mns, htoList m hm]
    rfl
  have hempty : list.mnMap.size = 0 → (mns (list.tierMap type)).filter isMNValid = [] := by
    intro hsize
    rw [eq_nil_iff_forall_not_mem]
    intro dmn hmem
    have hx := Std.ExtTreeMap.mem_toList_iff_getElem?_eq_some.mpr (h.mem_tierMap.mp hmem).listed
    rw [htoList list.mnMap hsize] at hx
    cases hx
  unfold getMNPayee
  split_ifs with h0 h1 h2 hfull
  · rw [hempty h0]
    rfl
  · obtain ⟨rfl, h1⟩ := h1
    change none = best ((mns list.tierOne).filter isMNValid)
    rw [hnil _ h1]
    rfl
  · obtain ⟨rfl, h2⟩ := h2
    change none = best ((mns list.tierTwo).filter isMNValid)
    rw [hnil _ h2]
    rfl
  · exact hfull.elim
  · obtain rfl | rfl := htype <;> rfl

/-- The payee of a tier is the first masternode that can be paid. -/
lemma getMNPayee_spec : (list.getMNPayee false type = none ∧ ∀ d : CDeterministicMN G, ¬Payable list type d) ∨
    ∃ m, list.getMNPayee false type = some m ∧ Payable list type m ∧
      ∀ d : CDeterministicMN G, Payable list type d → compareByLastPaid d m = false := by
  rw [getMNPayee_eq_best h htype, best_eq_foldl]
  by_cases hnil : (mns (list.tierMap type)).filter isMNValid = []
  · left
    refine ⟨by rw [hnil]; rfl, fun d hd => ?_⟩
    have hmem := h.mem_tierMap.mpr hd
    rw [hnil] at hmem
    cases hmem
  · right
    obtain ⟨m, hm, hfold, hfirst⟩ := exists_foldl_keepFirst compareByLastPaid_irrefl compareByLastPaid_trans hnil
    exact ⟨m, hfold, h.mem_tierMap.mp hm, fun d hd => hfirst d (h.mem_tierMap.mpr hd)⟩

lemma payable_of_getMNPayee {m : CDeterministicMN G} (hm : list.getMNPayee false type = some m) :
    Payable list type m ∧ ∀ d : CDeterministicMN G, Payable list type d → compareByLastPaid d m = false := by
  obtain ⟨hnone, -⟩ | ⟨m', hm', hspec⟩ := getMNPayee_spec h htype
  · cases hm.symm.trans hnone
  · cases hm.symm.trans hm'
    exact hspec

end

/-! ### A chain with masternodes of both types -/

/-- The toy rules with the second tier from the first block with masternodes. -/
def tierRules : EvoRules (Fin 4) :=
  { toyRules with params := { Consensus.mainParams with MNTierForkHeight := 2 } }

/-- The registration of a masternode of a type with an address, whose collateral is its own first output. -/
def tierRegistration (hash : Uint256) (nType : MnType) (owner : CKeyID) (operator : Fin 4) : CTransaction where
  hash := hash
  nVersion := 3
  nType := .providerRegister
  vin := []
  vout := [⟨nType.collatAmount, toyScript 6⟩]
  vExtraPayload := put 1#16 ++ put nType.toBits ++ put 0#16 ++ COutPoint.serialize ⟨0, 0⟩ ++
    CService.serialize ⟨0x010203#128 <<< 104 ||| owner.setWidth 128 <<< 96 ||| 0xffff#128 <<< 80, 1#16⟩ ++ put owner ++
    put (toyBls.serialize true operator) ++ put owner ++ put 0#16 ++ putBytes (toyScript 6) ++ put 0#256 ++ putBytes []

def tierBuilt (old : CDeterministicMNList (Fin 4)) (height : ℕ) (block : CBlock) : CDeterministicMNList (Fin 4) :=
  { finalState (buildNewListFromBlock tierRules (toyIndex (height - 1)) (fun _ => none) block) old with
    blockHash := height }

/-- The list after a block that registers masternodes. -/
def tierList (registrations : List CTransaction) : CDeterministicMNList (Fin 4) :=
  tierBuilt toyInitial 2 (toyBlock 2 registrations)

/-- The list after a block that registers masternodes and passes the checks, evaluated. -/
lemma chainList_tierList (registrations : List CTransaction) (hchecked : ∀ tx ∈ (toyBlock 2 registrations).vtx,
      checkSpecialTx tierRules (toyIndex 1) toyInitial (fun _ => none) true tx = .ok ())
    (hrun : returns (buildNewListFromBlock tierRules (toyIndex 1) (fun _ => none) (toyBlock 2 registrations))
      toyInitial) :
    ChainList tierRules (BlockChecked tierRules) (toyIndex 2) (tierList registrations) :=
  .build 2 _ (.initial 1 (by decide)) rfl ⟨true, hchecked⟩ (run_of_returns hrun)

end Blocx
