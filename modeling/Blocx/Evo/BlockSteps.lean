import Blocx.Evo.BuildNewList
import Blocx.Evo.DmnListInvariant

/-!
# What a block does to a masternode

`BuildNewListFromBlock` seen from one masternode: the entry of a hash goes through a number of steps, each of which is
the confirmation of a registration, a smaller penalty, the effect of one transaction of the block, or the loss of the
collateral, and at the end it is marked as paid if it was the payee of its tier. `MnStep` says once what each step can
do. What is true of every masternode after a block follows from that, by induction over the steps, and does not look at
the program any more.

Nothing is assumed of the block here: neither that its transactions pass the checks nor that the property map is
consistent.
-/

namespace Blocx

open List

open CDeterministicMNList

variable {G : Type} {x : Uint256} {pindexPrev : CBlockIndex} {rules : EvoRules G} {view : CCoinsView}
  {tx : CTransaction}

/-! ### Transactions about a masternode -/

section

variable (rules : EvoRules G) (tx : CTransaction) (x : Uint256)

/-- The transaction registers the masternode. -/
structure Registers (proTx : CProRegTx G) : Prop where
  nVersion : tx.nVersion = 3
  nType : tx.nType = .providerRegister
  payload : getProRegTx rules tx = some proTx
  hash : tx.hash = x

/-- The transaction updates the service of the masternode. -/
structure UpdatesService (proTx : CProUpServTx) : Prop where
  nVersion : tx.nVersion = 3
  nType : tx.nType = .providerUpdateService
  payload : getProUpServTx rules tx = some proTx
  hash : proTx.proTxHash = x

/-- The transaction updates the registrar of the masternode. -/
structure UpdatesRegistrar (proTx : CProUpRegTx G) : Prop where
  nVersion : tx.nVersion = 3
  nType : tx.nType = .providerUpdateRegistrar
  payload : getProUpRegTx rules tx = some proTx
  hash : proTx.proTxHash = x

/-- The transaction revokes the operator key of the masternode. -/
structure Revokes (proTx : CProUpRevTx) : Prop where
  nVersion : tx.nVersion = 3
  nType : tx.nType = .providerUpdateRevoke
  payload : getProUpRevTx rules tx = some proTx
  hash : proTx.proTxHash = x

/-- The transaction is a commitment, not a null one, that lists the masternode as an invalid member of its quorum. -/
structure Punishes (qc : CFinalCommitment) : Prop where
  nVersion : tx.nVersion = 3
  nType : tx.nType = .quorumCommitment
  payload : ∃ payload, getTxPayload .quorumCommitment (CFinalCommitmentTxPayload.unserialize rules.crypto.bls) tx =
    some payload ∧ payload.commitment = qc
  notNull : qc.isNull = false
  invalid : ∃ (base : CBlockIndex) (i : ℕ), rules.getBlockHash base.header = qc.quorumHash ∧
    (rules.getAllQuorumMembers qc.llmqType base)[i]? = some x ∧ qc.validMembers[i]? = some false

end

section Checked

variable {mnList : CDeterministicMNList G} {checkSigs : Bool}
  (h : checkSpecialTx rules pindexPrev mnList view checkSigs tx = .ok ())
include h

lemma Registers.checked {proTx : CProRegTx G} (hreg : Registers rules tx x proTx) :
    ProRegChecked rules mnList tx proTx :=
  checkProRegTx_ok hreg.payload ((checkSpecialTx_ok h hreg.nVersion).1 hreg.nType)

lemma UpdatesService.checked {proTx : CProUpServTx} (hserv : UpdatesService rules tx x proTx) :
    ProUpServChecked rules mnList checkSigs proTx :=
  checkProUpServTx_ok hserv.payload ((checkSpecialTx_ok h hserv.nVersion).2.1 hserv.nType)

lemma UpdatesRegistrar.checked {proTx : CProUpRegTx G} (hreg : UpdatesRegistrar rules tx x proTx) :
    ProUpRegChecked rules mnList proTx :=
  checkProUpRegTx_ok hreg.payload ((checkSpecialTx_ok h hreg.nVersion).2.2.1 hreg.nType)

lemma Revokes.checked {proTx : CProUpRevTx} (hrev : Revokes rules tx x proTx) (hsigs : checkSigs) :
    ∃ dmn, mnList.getMN proTx.proTxHash = some dmn ∧ rules.checkRevSig proTx dmn.pdmnState.pubKeyOperator :=
  checkProUpRevTx_ok hrev.payload ((checkSpecialTx_ok h hrev.nVersion).2.2.2 hrev.nType) hsigs

end Checked

/-! ### Steps -/

def confirmedState (rules : EvoRules G) (pindexPrev : CBlockIndex) (dmn : CDeterministicMN G) :
    CDeterministicMNState G :=
  dmn.pdmnState.updateConfirmedHash rules.crypto.sha256 dmn.proTxHash (rules.getBlockHash pindexPrev.header)

/-- A step of the entry of a hash, in the block after another with the given transactions. -/
inductive MnStep [DecidableEq G] (rules : EvoRules G) (pindexPrev : CBlockIndex) (txs : List CTransaction)
    (x : Uint256) : Option (CDeterministicMN G) → Option (CDeterministicMN G) → Prop where
  | confirmed (dmn : CDeterministicMN G) (h : dmn.pdmnState.confirmedHash = 0) :
    MnStep rules pindexPrev txs x (some dmn) (some { dmn with pdmnState := confirmedState rules pindexPrev dmn })
  | decreased (dmn : CDeterministicMN G) (h : 0 < dmn.pdmnState.nPoSePenalty) :
    MnStep rules pindexPrev txs x (some dmn)
      (some { dmn with pdmnState.nPoSePenalty := dmn.pdmnState.nPoSePenalty - 1 })
  | registered {tx : CTransaction} {proTx : CProRegTx G} (internalId : ℕ) (htx : tx ∈ txs)
    (h : Registers rules tx x proTx) (hlite : proTx.nType = .lite → isMnTierForkActivated rules pindexPrev) :
    MnStep rules pindexPrev txs x none (some (registeredMN (pindexPrev.nHeight + 1) internalId tx proTx))
  | service {tx : CTransaction} {proTx : CProUpServTx} (dmn : CDeterministicMN G) (htx : tx ∈ txs)
    (h : UpdatesService rules tx x proTx) :
    MnStep rules pindexPrev txs x (some dmn)
      (some { dmn with pdmnState := dmn.pdmnState.updateService (pindexPrev.nHeight + 1) proTx })
  | registrar {tx : CTransaction} {proTx : CProUpRegTx G} (dmn : CDeterministicMN G) (htx : tx ∈ txs)
    (h : UpdatesRegistrar rules tx x proTx) :
    MnStep rules pindexPrev txs x (some dmn)
      (some { dmn with pdmnState := dmn.pdmnState.updateRegistrar (pindexPrev.nHeight + 1) proTx })
  | revoked {tx : CTransaction} {proTx : CProUpRevTx} (dmn : CDeterministicMN G) (htx : tx ∈ txs)
    (h : Revokes rules tx x proTx) :
    MnStep rules pindexPrev txs x (some dmn)
      (some { dmn with pdmnState := dmn.pdmnState.revoke (pindexPrev.nHeight + 1) proTx })
  | punished {tx : CTransaction} {qc : CFinalCommitment} {list : CDeterministicMNList G} {penalty : ℤ}
    (dmn : CDeterministicMN G) (htx : tx ∈ txs) (h : Punishes rules tx x qc)
    (hheight : list.nHeight = pindexPrev.nHeight + 1) (hpenalty : 0 < penalty) :
    MnStep rules pindexPrev txs x (some dmn) (some { dmn with pdmnState := list.punishedState dmn.pdmnState penalty })
  | removed (dmn : CDeterministicMN G) : MnStep rules pindexPrev txs x (some dmn) none

section Stepped

variable [DecidableEq G] (rules : EvoRules G) (pindexPrev : CBlockIndex) (txs : List CTransaction)

/-- Any number of steps. -/
abbrev MnSteps (x : Uint256) : Option (CDeterministicMN G) → Option (CDeterministicMN G) → Prop :=
  Relation.ReflTransGen (MnStep rules pindexPrev txs x)

/-- Every entry of a list came from the one of another list by steps. -/
structure Stepped (old list : CDeterministicMNList G) : Prop where
  mapWf : MapWf list
  nHeight : list.nHeight = pindexPrev.nHeight + 1
  steps : ∀ x : Uint256, MnSteps rules pindexPrev txs x old.mnMap[x]? list.mnMap[x]?

end Stepped

section StepRules

variable [DecidableEq G] {txs txs' : List CTransaction} {old list list' : CDeterministicMNList G}
  {dmn : CDeterministicMN G}

/-- A step adds a registration, removes, or changes the state of a masternode. -/
lemma MnStep.shape {a b : Option (CDeterministicMN G)} (h : MnStep rules pindexPrev txs x a b) :
    (∃ tx ∈ txs, ∃ proTx internalId, Registers rules tx x proTx ∧
      b = some (registeredMN (pindexPrev.nHeight + 1) internalId tx proTx)) ∨ b = none ∨
    ∃ dmn st, a = some dmn ∧ b = some { dmn with pdmnState := st } := by
  cases h with
  | registered id htx h hlite => exact .inl ⟨_, htx, _, id, h, rfl⟩
  | removed dmn => exact .inr (.inl rfl)
  | confirmed dmn | decreased dmn | service dmn | registrar dmn | revoked dmn | punished dmn =>
    exact .inr (.inr ⟨dmn, _, rfl, rfl⟩)

/-- What every step establishes for the entry it leads to is true of the last one. -/
lemma MnSteps.forall_entry {before after : Option (CDeterministicMN G)} {P : CDeterministicMN G → Prop}
    (h : MnSteps rules pindexPrev txs x before after) (hbefore : ∀ a, before = some a → P a)
    (hstep : ∀ {mid d}, MnStep rules pindexPrev txs x mid (some d) → (∀ a, mid = some a → P a) → P d) :
    ∀ d, after = some d → P d := by
  induction h with
  | refl => exact hbefore
  | tail _ hlast ih =>
    rintro d rfl
    exact hstep hlast ih

variable (h : Stepped rules pindexPrev txs old list)

include h

lemma Stepped.write {st : CDeterministicMNState G} (hx : list.mnMap[x]? = some dmn)
    (hw : Writes list { dmn with pdmnState := st } list')
    (hstep : MnSteps rules pindexPrev txs x (some dmn) (some { dmn with pdmnState := st })) :
    Stepped rules pindexPrev txs old list' := by
  obtain rfl := h.mapWf.proTxHash x dmn hx
  refine ⟨h.mapWf.write hw fun a ha => ?_, hw.nHeight.trans h.nHeight, fun y => ?_⟩
  · rw [show list.mnMap[dmn.proTxHash]? = some a from ha] at hx
    cases hx
    rfl
  · rw [hw.mnMap, getElem?_insert_ite]
    split_ifs with hy
    · have hsteps := h.steps y
      rw [hy] at hsteps ⊢
      rw [hx] at hsteps
      exact hsteps.trans hstep
    · exact h.steps y

lemma Stepped.add (hnone : list.mnMap[dmn.proTxHash]? = none) (hw : Writes list dmn list')
    (hstep : MnStep rules pindexPrev txs dmn.proTxHash none (some dmn)) : Stepped rules pindexPrev txs old list' := by
  refine ⟨h.mapWf.write hw fun a ha => ?_, hw.nHeight.trans h.nHeight, fun y => ?_⟩
  · rw [hnone] at ha
    cases ha
  · rw [hw.mnMap, getElem?_insert_ite]
    split_ifs with hy
    · have hsteps := h.steps y
      rw [hy] at hsteps ⊢
      rw [hnone] at hsteps
      exact hsteps.tail hstep
    · exact h.steps y

lemma Stepped.erase (hx : list.mnMap[x]? = some dmn) (he : Erases list dmn x list') :
    Stepped rules pindexPrev txs old list' := by
  refine ⟨h.mapWf.erase hx he, he.nHeight.trans h.nHeight, fun y => ?_⟩
  rw [he.mnMap, getElem?_erase_ite]
  split_ifs with hy
  · have hsteps := h.steps y
    rw [hy] at hsteps ⊢
    rw [hx] at hsteps
    exact hsteps.tail (.removed dmn)
  · exact h.steps y

end StepRules

/-! ### The programs -/

variable [DecidableEq G] {txs rest : List CTransaction} {old list : CDeterministicMNList G} {block : CBlock}

/-- A property of the list and of the transactions still to come which the steps of a block keep. -/
structure StepInvariant (rules : EvoRules G) (pindexPrev : CBlockIndex) (txs : List CTransaction)
    (I : List CTransaction → CDeterministicMNList G → Prop) : Prop where
  nHeight : ∀ {rest list}, I rest list → list.nHeight = pindexPrev.nHeight + 1
  /-- The next transaction is not a registration. -/
  skip : ∀ {tx rest list}, I (tx :: rest) list → I rest list
  update : ∀ {rest list} {x : Uint256} {dmn st}, I rest list → list.mnMap[x]? = some dmn →
    st = dmn.pdmnState ∨ MnStep rules pindexPrev txs x (some dmn) (some { dmn with pdmnState := st }) →
    wlp (updateMNByHash rules.crypto x st) (fun _ => I rest) list
  remove : ∀ {rest list}, I rest list → ∀ x, wlp (removeMN rules.crypto x) (fun _ => I rest) list
  register : ∀ {tx rest list proTx}, I (tx :: rest) list → tx ∈ txs → Registers rules tx tx.hash proTx →
    (proTx.nType = .lite → isMnTierForkActivated rules pindexPrev) →
    wlp (do removeReplaced rules (proTx.collateral tx)
            addRegistered rules proTx (registeredMN (pindexPrev.nHeight + 1) list.nTotalRegisteredCount tx proTx))
      (fun _ => I rest) list

namespace StepInvariant

variable {I : List CTransaction → CDeterministicMNList G → Prop} (h : StepInvariant rules pindexPrev txs I)

include h

section

variable (hI : I rest list)

include hI

lemma wp_poSeDecrease (x : Uint256) : wlp (poSeDecrease rules.crypto x) (fun _ => I rest) list :=
  wp_getMN (fun _ => trivial) fun dmn hx =>
    (wp_ite _ _).mpr ⟨fun hpos => h.update hI hx (.inr (.decreased dmn hpos.1)), fun _ => trivial⟩

lemma wp_poSePunish {qc : CFinalCommitment} (htx : tx ∈ txs) (hqc : Punishes rules tx x qc)
    (penalty : ℤ) : wlp (poSePunish rules.crypto x penalty) (fun _ => I rest) list := by
  unfold poSePunish
  rw [wlp, wp_bind, wp_get, wp_ite]
  refine ⟨fun _ => trivial, fun hpos => wp_matchMN (fun _ => trivial) fun dmn hx => ?_⟩
  exact h.update hI hx (.inr (.punished dmn htx hqc (h.nHeight hI) (not_le.mp hpos)))

lemma wp_decreasePoSePenalties : wlp (decreasePoSePenalties rules) (fun _ => I rest) list :=
  wp_forM (I := fun _ => I rest) (fun x _ _ hl => h.wp_poSeDecrease hl x) hI

lemma wp_removeSpent (prevout : COutPoint) : wlp (removeSpent rules prevout) (fun _ => I rest) list := by
  unfold removeSpent
  rw [wlp, wp_bind, wp_get]
  cases list.getMNByCollateral rules.crypto prevout with
  | none => exact hI
  | some dmn => exact (wp_ite _ _).mpr ⟨fun _ => h.remove hI _, fun _ => hI⟩

/-- The loop that confirms registrations reads the masternodes of the old list, and writes each of them at most once. -/
lemma wp_confirmMNs (hold : MapWf old) (hmap : list.mnMap = old.mnMap) :
    wlp (confirmMNs rules pindexPrev old) (fun _ => I rest) list := by
  -- the masternodes are still the old ones, or confirmed
  let Same := fun l : CDeterministicMNList G => ∀ (x : Uint256) a, old.mnMap[x]? = some a →
    l.mnMap[x]? = some a ∨ l.mnMap[x]? = some { a with pdmnState := confirmedState rules pindexPrev a }
  have hlisted : ∀ a ∈ mns old.mnMap, old.mnMap[a.proTxHash]? = some a := by
    intro a ha
    obtain ⟨⟨x, d⟩, hd, rfl⟩ := mem_map.mp ha
    have hx := Std.ExtTreeMap.mem_toList_iff_getElem?_eq_some.mp hd
    rw [hold.proTxHash x d hx]
    exact hx
  have hstart : Same list := fun x a ha => .inl (hmap ▸ ha)
  refine (wp_forM (I := fun todo l => (∀ a ∈ todo, old.mnMap[a.proTxHash]? = some a) ∧ I rest l ∧ Same l) ?_
    ⟨hlisted, hI, hstart⟩).imp fun _ l hl => hl.2.1
  rintro a todo l ⟨htodo, hl, hsame⟩
  have htodo' : ∀ b ∈ todo, old.mnMap[b.proTxHash]? = some b := fun b hb => htodo b (mem_cons_of_mem a hb)
  refine (wp_ite _ _).mpr ⟨fun hconf => ?_, fun _ => ⟨htodo', hl, hsame⟩⟩
  have ha := htodo a mem_cons_self
  obtain ⟨b, hb, hb'⟩ : ∃ b, l.mnMap[a.proTxHash]? = some b ∧
      (b = a ∨ b = { a with pdmnState := confirmedState rules pindexPrev a }) := by
    obtain hb | hb := hsame _ a ha
    · exact ⟨a, hb, .inl rfl⟩
    · exact ⟨_, hb, .inr rfl⟩
  have hupdate : wlp (updateMNByHash rules.crypto a.proTxHash (confirmedState rules pindexPrev a))
      (fun _ => I rest) l := by
    refine h.update hl hb ?_
    obtain rfl | rfl := hb'
    · exact .inr (.confirmed b hconf.1)
    · exact .inl rfl
  refine (hupdate.and (wp_updateMNByHash_maps rules.crypto a.proTxHash _)).imp_true
    fun _ l' ⟨hl', d, hd, hw⟩ => ⟨htodo', hl', fun x d' hd' => ?_⟩
  rw [hb] at hd
  cases hd
  have hwrite : ({ b with pdmnState := confirmedState rules pindexPrev a } : CDeterministicMN G) =
      { a with pdmnState := confirmedState rules pindexPrev a } := by
    obtain rfl | rfl := hb' <;> rfl
  rw [hw.mnMap, getElem?_insert_ite, hwrite]
  split_ifs with hx
  · rw [hx, ha] at hd'
    cases hd'
    exact .inr rfl
  · exact hsame x d' hd'

lemma wp_updateListed {reason : String} {f : CDeterministicMNState G → CDeterministicMNState G}
    (hstep : ∀ dmn, MnStep rules pindexPrev txs x (some dmn) (some { dmn with pdmnState := f dmn.pdmnState })) :
    wlp (do let list ← get
            match list.getMN x with
            | none => invalidBlock reason
            | some dmn => updateMNByHash rules.crypto x (f dmn.pdmnState)) (fun _ => I rest) list :=
  wp_getMN (fun _ => trivial) fun dmn hx => h.update hI hx (.inr (hstep dmn))

variable (htx : tx ∈ txs) (hversion : tx.nVersion = 3)

include htx hversion

lemma wp_updateServiceMN (htype : tx.nType = .providerUpdateService) :
    wlp (updateServiceMN rules pindexPrev tx) (fun _ => I rest) list := by
  unfold updateServiceMN
  cases hpayload : getProUpServTx rules tx with
  | none => exact trivial
  | some proTx =>
    refine wp_ite_throw fun _ => wp_ite_throw fun _ => ?_
    refine wp_matchMN (fun _ => trivial) fun dmn hx => wp_ite_throw fun _ => ?_
    exact h.update hI hx (.inr (.service dmn htx ⟨hversion, htype, hpayload, rfl⟩))

lemma wp_updateRegistrarMN (htype : tx.nType = .providerUpdateRegistrar) :
    wlp (updateRegistrarMN rules pindexPrev tx) (fun _ => I rest) list := by
  unfold updateRegistrarMN
  cases hpayload : getProUpRegTx rules tx with
  | none => exact trivial
  | some proTx => exact h.wp_updateListed hI fun dmn => .registrar dmn htx ⟨hversion, htype, hpayload, rfl⟩

lemma wp_revokeMN (htype : tx.nType = .providerUpdateRevoke) :
    wlp (revokeMN rules pindexPrev tx) (fun _ => I rest) list := by
  unfold revokeMN
  cases hpayload : getProUpRevTx rules tx with
  | none => exact trivial
  | some proTx => exact h.wp_updateListed hI fun dmn => .revoked dmn htx ⟨hversion, htype, hpayload, rfl⟩

lemma wp_applyCommitment (htype : tx.nType = .quorumCommitment) :
    wlp (applyCommitment rules pindexPrev tx) (fun _ => I rest) list := by
  unfold applyCommitment
  cases hpayload : getTxPayload .quorumCommitment (CFinalCommitmentTxPayload.unserialize rules.crypto.bls) tx with
  | none => exact trivial
  | some qc =>
    refine (wp_ite _ _).mpr ⟨fun _ => hI, fun hnull => ?_⟩
    cases rules.params.getLLMQ qc.commitment.llmqType with
    | none => exact trivial
    | some llmqParams =>
      dsimp only
      cases pindexPrev.getAncestor _ with
      | none => exact trivial
      | some base =>
        refine wp_ite_throw fun hbase => ?_
        refine (wp_forM (I := fun todo l => (∀ m ∈ todo, m ∈ (rules.getAllQuorumMembers qc.commitment.llmqType
          base).zipIdx) ∧ I rest l) ?_ ⟨fun _ => id, hI⟩).imp fun _ _ hl => hl.2
        rintro ⟨x, i⟩ todo l ⟨htodo, hl⟩
        have htodo' := fun m hm => htodo m (mem_cons_of_mem _ hm)
        refine (wp_ite _ _).mpr ⟨fun _ => ?_, fun _ => ⟨htodo', hl⟩⟩
        cases hvalid : qc.commitment.validMembers[i]? with
        | none => exact trivial
        | some b =>
          cases b with
          | true => exact ⟨htodo', hl⟩
          | false =>
            have hmember := mem_zipIdx_iff_getElem?.mp (htodo _ mem_cons_self)
            have hpunish : Punishes rules tx x qc.commitment :=
              ⟨hversion, htype, ⟨qc, hpayload, rfl⟩, Bool.eq_false_iff.mpr hnull, base, i, not_not.mp hbase,
                hmember, hvalid⟩
            generalize l.calcPenalty 66 = penalty
            exact (h.wp_poSePunish hl htx hpunish penalty).imp fun _ _ hl' => ⟨htodo', hl'⟩

end

lemma wp_registerMN (hI : I (tx :: rest) list) (view : CCoinsView) (htx : tx ∈ txs) (hversion : tx.nVersion = 3)
    (htype : tx.nType = .providerRegister) :
    wlp (registerMN rules pindexPrev view tx) (fun _ => I rest) list := by
  unfold registerMN
  cases hpayload : getProRegTx rules tx with
  | none => exact trivial
  | some proTx =>
    refine wp_ite_throw fun hlite => wp_ite_throw fun _ => ?_
    rw [wlp, wp_bind, wp_get]
    refine h.register hI htx ⟨hversion, htype, hpayload, rfl⟩ fun heq => ?_
    by_contra hfork
    exact hlite ⟨heq, by simpa using hfork⟩

lemma wp_applySpecialTx (hI : I (tx :: rest) list) (view : CCoinsView) (htx : tx ∈ txs) :
    wlp (applySpecialTx rules pindexPrev view tx) (fun _ => I rest) list := by
  refine (wp_ite _ _).mpr ⟨fun _ => h.skip hI, fun hversion => ?_⟩
  rw [not_not] at hversion
  split
  · exact h.wp_registerMN hI view htx hversion (by assumption)
  · exact h.wp_updateServiceMN (h.skip hI) htx hversion (by assumption)
  · exact h.wp_updateRegistrarMN (h.skip hI) htx hversion (by assumption)
  · exact h.wp_revokeMN (h.skip hI) htx hversion (by assumption)
  · exact h.wp_applyCommitment (h.skip hI) htx hversion (by assumption)
  · exact h.skip hI

lemma wp_applySpecialTxs (hI : I txs list) (view : CCoinsView) :
    wlp (txs.forM (applySpecialTx rules pindexPrev view)) (fun _ => I []) list := by
  refine (wp_forM (I := fun todo l => (∀ tx ∈ todo, tx ∈ txs) ∧ I todo l) ?_ ⟨fun _ => id, hI⟩).imp fun _ _ hl => hl.2
  rintro tx todo l ⟨htodo, hl⟩
  exact (h.wp_applySpecialTx hl view (htodo tx mem_cons_self)).imp
    fun _ _ hl' => ⟨fun tx' htx' => htodo tx' (mem_cons_of_mem _ htx'), hl'⟩

lemma wp_buildNewListFromBlock {Q : Unit → CDeterministicMNList G → Prop} (hold : MapWf old)
    (htxs : block.vtx.drop 1 = txs) (hI : I txs { old with blockHash := 0, nHeight := pindexPrev.nHeight + 1 })
    (hpaid : ∀ mid, I [] mid → wlp (do
      markPaid rules (pindexPrev.nHeight + 1) (old.getMNPayee false .standardMasternode)
      markPaid rules (pindexPrev.nHeight + 1)
        (if isMnTierForkActivated rules pindexPrev then old.getMNPayee false .lite else none)) Q mid) :
    wlp (buildNewListFromBlock rules pindexPrev view block) Q old := by
  unfold buildNewListFromBlock
  rw [htxs, wlp, wp_bind, wp_get, wp_bind, wp_modify]
  refine wp_seq (h.wp_confirmMNs hI hold rfl) fun _ _ h₁ => wp_seq (h.wp_decreasePoSePenalties h₁) fun _ _ h₂ => ?_
  refine wp_seq (h.wp_applySpecialTxs h₂ view) fun _ _ h₃ => ?_
  exact wp_seq (wp_forM (I := fun _ => I []) (fun o _ _ hl => h.wp_removeSpent hl o) h₃) fun _ mid hmid =>
    hpaid mid hmid

end StepInvariant

lemma stepInvariant_stepped (rules : EvoRules G) (pindexPrev : CBlockIndex) (txs : List CTransaction)
    (old : CDeterministicMNList G) :
    StepInvariant rules pindexPrev txs fun _ => Stepped rules pindexPrev txs old where
  nHeight h := h.nHeight
  skip h := h
  update h hx hstep := by
    refine (wp_updateMNByHash_maps rules.crypto _ _).imp_true fun _ l ⟨dmn', hx', hw⟩ => ?_
    rw [hx] at hx'
    cases hx'
    refine h.write hx hw ?_
    obtain rfl | hstep := hstep
    · exact .refl
    · exact .single hstep
  remove h x := (wp_removeMN_maps rules.crypto x).imp_true fun _ l ⟨dmn, hx, he⟩ => h.erase hx he
  register {tx rest list proTx} h htx hreg hlite := by
    have hreplaced : wlp (removeReplaced rules (proTx.collateral tx))
        (fun _ => Stepped rules pindexPrev txs old) list := by
      unfold removeReplaced
      rw [wlp, wp_bind, wp_get]
      cases list.getMNByCollateral rules.crypto _ with
      | none => exact h
      | some dmn => exact (wp_removeMN_maps rules.crypto _).imp_true fun _ l ⟨dmn, hx, he⟩ => h.erase hx he
    refine wp_seq hreplaced fun _ l hl => ?_
    refine wp_ite_throw fun _ => wp_ite_throw fun _ => ?_
    exact (wp_addMN_maps rules.crypto _ true).imp_true fun _ l' hl' =>
      hl.add hl'.1 hl'.2 (.registered _ htx hreg hlite)

lemma stepped_start (hold : MapWf old) :
    Stepped rules pindexPrev txs old { old with blockHash := 0, nHeight := pindexPrev.nHeight + 1 } :=
  ⟨⟨hold.proTxHash, hold.tierOne, hold.tierTwo⟩, rfl, fun _ => .refl⟩

/-- The part of `BuildNewListFromBlock` before the transactions, and the first transactions. -/
def applyFirst (rules : EvoRules G) (pindexPrev : CBlockIndex) (view : CCoinsView) (txs : List CTransaction) :
    ListM G Unit := do
  let oldList ← get
  modify fun list => { list with blockHash := 0, nHeight := pindexPrev.nHeight + 1 }
  confirmMNs rules pindexPrev oldList
  decreasePoSePenalties rules
  txs.forM (applySpecialTx rules pindexPrev view)

lemma stepped_applyFirst (hold : MapWf old) (view : CCoinsView) (txs : List CTransaction) :
    wlp (applyFirst rules pindexPrev view txs) (fun _ => Stepped rules pindexPrev txs old) old := by
  have h := stepInvariant_stepped rules pindexPrev txs old
  unfold applyFirst
  rw [wlp, wp_bind, wp_get, wp_bind, wp_modify]
  refine wp_seq (@StepInvariant.wp_confirmMNs _ _ _ _ _ txs _ _ _ h (stepped_start hold) hold rfl) fun _ _ h₁ => ?_
  refine wp_seq (@StepInvariant.wp_decreasePoSePenalties _ _ _ _ _ txs _ _ h h₁) fun _ _ h₂ => ?_
  exact h.wp_applySpecialTxs h₂ view

/-! ### Payees -/

/-- The masternode is the payee of its tier in the block after another. -/
def IsPayee (rules : EvoRules G) (pindexPrev : CBlockIndex) (oldList : CDeterministicMNList G) (x : Uint256) : Prop :=
  (∃ dmn, oldList.getMNPayee false .standardMasternode = some dmn ∧ dmn.proTxHash = x) ∨
    isMnTierForkActivated rules pindexPrev ∧ ∃ dmn, oldList.getMNPayee false .lite = some dmn ∧ dmn.proTxHash = x

/-- A masternode that was paid at a height. -/
def CDeterministicMN.paidAt (height : ℤ) (dmn : CDeterministicMN G) : CDeterministicMN G :=
  { dmn with pdmnState := { dmn.pdmnState with nLastPaidHeight := height } }

/-- A list is another one with some masternodes marked as paid. -/
structure Marked (height : ℤ) (isPaid : Uint256 → Prop) (list list' : CDeterministicMNList G) : Prop where
  mapWf : MapWf list'
  nHeight : list'.nHeight = list.nHeight
  paid : ∀ x, isPaid x → list'.mnMap[x]? = list.mnMap[x]?.map (CDeterministicMN.paidAt height)
  unpaid : ∀ x, ¬isPaid x → list'.mnMap[x]? = list.mnMap[x]?

omit [DecidableEq G] in
lemma Marked.trans {height : ℤ} {p q : Uint256 → Prop} {list' list'' : CDeterministicMNList G}
    (h : Marked height p list list') (h' : Marked height q list' list'') :
    Marked height (fun x => p x ∨ q x) list list'' := by
  refine ⟨h'.mapWf, h'.nHeight.trans h.nHeight, fun x hx => ?_, fun x hx => ?_⟩
  · by_cases hq : q x
    · by_cases hp : p x
      · rw [h'.paid x hq, h.paid x hp, Option.map_map]
        rfl
      · rw [h'.paid x hq, h.unpaid x hp]
    · rw [h'.unpaid x hq, h.paid x (hx.resolve_right hq)]
  · obtain ⟨hp, hq⟩ := not_or.mp hx
    rw [h'.unpaid x hq, h.unpaid x hp]

lemma marked_markPaid (h : MapWf list) (height : ℤ) (payee : Option (CDeterministicMN G)) :
    wlp (markPaid rules height payee) (fun _ =>
      Marked height (fun x => ∃ dmn, payee = some dmn ∧ dmn.proTxHash = x) list) list := by
  cases payee with
  | none => exact ⟨h, rfl, fun x ⟨dmn, hdmn, _⟩ => (nomatch hdmn), fun _ _ => rfl⟩
  | some payee =>
    have hpaid : ∀ x, (∃ dmn, some payee = some dmn ∧ dmn.proTxHash = x) ↔ x = payee.proTxHash := fun x =>
      ⟨fun ⟨dmn, hdmn, hx⟩ => by cases hdmn; exact hx.symm, fun hx => ⟨payee, rfl, hx.symm⟩⟩
    simp only [hpaid]
    change wp (match list.mnMap[payee.proTxHash]? with | none => _ | some dmn => _) _ _ _
    cases hx : list.mnMap[payee.proTxHash]? with
    | none =>
      refine ⟨h, rfl, fun x hpay => ?_, fun _ _ => rfl⟩
      rw [hpay, hx]
      rfl
    | some dmn =>
      refine (wp_updateMNByHash_maps rules.crypto _ _).imp_true fun _ l hl => ?_
      obtain ⟨dmn', hx', hw⟩ := hl
      rw [hx] at hx'
      cases hx'
      change Writes list (dmn.paidAt height) l at hw
      have hkey : (dmn.paidAt height).proTxHash = payee.proTxHash := h.proTxHash _ dmn hx
      refine ⟨h.write hw fun a ha => ?_, hw.nHeight, fun x hpay => ?_, fun x hpay => ?_⟩
      · rw [hkey, hx] at ha
        cases ha
        rfl
      · rw [hw.mnMap, getElem?_insert_ite, if_pos (hpay.trans hkey.symm), hpay, hx]
        rfl
      · rw [hw.mnMap, getElem?_insert_ite, if_neg fun heq => hpay (heq.trans hkey)]

/-- What a block does to the masternodes: each of them goes through steps, and then the payees are marked. -/
lemma buildNewListFromBlock_steps (hold : MapWf old) {new : CDeterministicMNList G}
    (hrun : (buildNewListFromBlock rules pindexPrev view block).run old = .ok () new) :
    ∃ mid, Stepped rules pindexPrev (block.vtx.drop 1) old mid ∧
      Marked (pindexPrev.nHeight + 1) (IsPayee rules pindexPrev old) mid new := by
  have hbuild : wlp (buildNewListFromBlock rules pindexPrev view block)
      (fun _ l => ∃ mid, Stepped rules pindexPrev (block.vtx.drop 1) old mid ∧
        Marked (pindexPrev.nHeight + 1) (IsPayee rules pindexPrev old) mid l) old := by
    refine (stepInvariant_stepped rules pindexPrev _ old).wp_buildNewListFromBlock hold rfl (stepped_start hold)
      fun mid hmid => ?_
    refine wp_seq (marked_markPaid hmid.mapWf _ _) fun _ l₄ h₄ => ?_
    refine (marked_markPaid h₄.mapWf _ _).imp fun _ l₅ h₅ => ⟨mid, hmid, ?_⟩
    have hpayee : IsPayee rules pindexPrev old = fun x =>
        (∃ dmn, old.getMNPayee false .standardMasternode = some dmn ∧ dmn.proTxHash = x) ∨
          ∃ dmn, (if isMnTierForkActivated rules pindexPrev then old.getMNPayee false .lite else none) = some dmn ∧
            dmn.proTxHash = x := by
      funext x
      unfold IsPayee
      cases isMnTierForkActivated rules pindexPrev <;> simp
    rw [hpayee]
    exact h₄.trans h₅
  exact hbuild.ok hrun

end Blocx
