import Blocx.Evo.ListChain

/-!
# Who may act for a masternode

A service update and a revocation are signed by the operator of the masternode. `CheckProUpServTx` and `CheckProUpRevTx`
look the operator key up in the list of the previous block, for every transaction of a block and before any of them has
an effect. `BuildNewListFromBlock` then applies the transactions one after the other and looks at no signature. So an
action is always signed with the key that the masternode had when the block began. That is the key the masternode has
when the action is applied, as long as no transaction before it in the block has replaced or revoked the operator. An
operator that was replaced or revoked earlier in the block can still act until its end.
-/

namespace Blocx

open CDeterministicMNList Wire

variable {G : Type} {tx : CTransaction} {rules : EvoRules G} {x : Uint256} {pindexPrev : CBlockIndex}
  {view : CCoinsView} {key : CBLSLazyPublicKey G}

/-! ### Actions -/

section

variable (rules : EvoRules G) (tx : CTransaction) (x : Uint256)

/-- The transaction is one that the operator of the masternode has to sign. -/
def OperatorActs : Prop := (∃ proTx, UpdatesService rules tx x proTx) ∨ ∃ proTx, Revokes rules tx x proTx

/-- The transaction is signed with the key. -/
def SignedBy (key : CBLSLazyPublicKey G) : Prop :=
  (∃ proTx, UpdatesService rules tx x proTx ∧ rules.checkServSig proTx key) ∨
    ∃ proTx, Revokes rules tx x proTx ∧ rules.checkRevSig proTx key

/-- The transaction takes the masternode away from the operator with the key. -/
def ReplacesOperator [DecidableEq G] (key : CBLSLazyPublicKey G) : Prop :=
  (∃ proTx, UpdatesRegistrar rules tx x proTx ∧ key.eq proTx.pubKeyOperator = false) ∨ ∃ proTx, Revokes rules tx x proTx

end

section Signed

variable {mnList : CDeterministicMNList G}

/-- An action that passed the checks is signed with the key in the list it was checked against. -/
lemma OperatorActs.signed (hacts : OperatorActs rules tx x)
    (h : checkSpecialTx rules pindexPrev mnList view true tx = .ok ()) :
    ∃ dmn, mnList.mnMap[x]? = some dmn ∧ SignedBy rules tx x dmn.pdmnState.pubKeyOperator := by
  obtain ⟨proTx, hserv⟩ | ⟨proTx, hrev⟩ := hacts
  · obtain ⟨dmn, hdmn, hsig⟩ := (hserv.checked h).signed rfl
    rw [hserv.hash] at hdmn
    exact ⟨dmn, hdmn, .inl ⟨proTx, hserv, hsig⟩⟩
  · obtain ⟨dmn, hdmn, hsig⟩ := hrev.checked h rfl
    rw [hrev.hash] at hdmn
    exact ⟨dmn, hdmn, .inr ⟨proTx, hrev, hsig⟩⟩

end Signed

/-! ### Keys along the steps of a block -/

section

variable {txs : List CTransaction} {old : CDeterministicMNList G} {block : CBlock}
  {st : CDeterministicMNState G} {height : ℤ}

lemma pubKeyOperator_updateService {proTx : CProUpServTx} :
    (st.updateService height proTx).pubKeyOperator = st.pubKeyOperator := by
  unfold CDeterministicMNState.updateService
  dsimp only
  split_ifs <;> rfl

lemma pubKeyOperator_punishedState {list : CDeterministicMNList G} {penalty : ℤ} :
    (list.punishedState st penalty).pubKeyOperator = st.pubKeyOperator := by
  unfold punishedState CDeterministicMNState.banIfNotBanned
  dsimp only
  split_ifs <;> rfl

variable [DecidableEq G]

lemma pubKeyOperator_updateRegistrar {proTx : CProUpRegTx G} (h : st.pubKeyOperator.eq proTx.pubKeyOperator) :
    (st.updateRegistrar height proTx).pubKeyOperator = st.pubKeyOperator := by
  unfold CDeterministicMNState.updateRegistrar
  rw [if_pos h]

/-- The operator key of a masternode stays as it is in a step that does not replace the operator. -/
lemma MnStep.pubKeyOperator {before : Option (CDeterministicMN G)} {dmn : CDeterministicMN G}
    (h : MnStep rules pindexPrev txs x before (some dmn))
    (hbefore : ∀ dmn, before = some dmn → dmn.pdmnState.pubKeyOperator = key)
    (hkeeps : ∀ tx ∈ txs, ¬ReplacesOperator rules tx x key) (hfresh : ∀ tx ∈ txs, tx.hash ≠ x) :
    dmn.pdmnState.pubKeyOperator = key := by
  cases h with
  | confirmed a h | decreased a h => exact hbefore a rfl
  | registered id htx h hlite => exact absurd h.hash (hfresh _ htx)
  | service a htx h => exact pubKeyOperator_updateService.trans (hbefore a rfl)
  | @registrar tx proTx a htx h =>
    have hkey := hbefore a rfl
    have heq : a.pdmnState.pubKeyOperator.eq proTx.pubKeyOperator := by
      by_contra hne
      rw [Bool.not_eq_true, hkey] at hne
      exact hkeeps tx htx (.inl ⟨proTx, h, hne⟩)
    exact (pubKeyOperator_updateRegistrar heq).trans hkey
  | revoked a htx h => exact absurd (.inr ⟨_, h⟩) (hkeeps _ htx)
  | punished a htx h hheight hpenalty => exact pubKeyOperator_punishedState.trans (hbefore a rfl)

/-- When a block has built its list, every transaction was applied to a list that the ones before it had led to. -/
lemma exists_applyFirst {new : CDeterministicMNList G} {pre post : List CTransaction}
    (hrun : (buildNewListFromBlock rules pindexPrev view block).run old = .ok () new)
    (hsplit : block.vtx.drop 1 = pre ++ tx :: post) :
    ∃ before after, (applyFirst rules pindexPrev view pre).run old = .ok () before ∧
      (applySpecialTx rules pindexPrev view tx).run before = .ok () after := by
  obtain ⟨a, s₀, h₀, hrun⟩ := run_bind_eq_ok.mp hrun
  obtain ⟨_, s₁, h₁, hrun⟩ := run_bind_eq_ok.mp hrun
  obtain ⟨_, s₂, h₂, hrun⟩ := run_bind_eq_ok.mp hrun
  obtain ⟨_, s₃, h₃, hrun⟩ := run_bind_eq_ok.mp hrun
  obtain ⟨_, s₄, h₄, -⟩ := run_bind_eq_ok.mp hrun
  rw [hsplit, show (pre ++ tx :: post).forM (applySpecialTx rules pindexPrev view) = _ from List.forM_append] at h₄
  obtain ⟨_, before, hpre, h₄⟩ := run_bind_eq_ok.mp h₄
  obtain ⟨_, after, hafter, -⟩ := run_bind_eq_ok.mp h₄
  refine ⟨before, after, ?_, hafter⟩
  exact run_bind_eq_ok.mpr ⟨_, _, h₀, run_bind_eq_ok.mpr ⟨_, _, h₁, run_bind_eq_ok.mpr ⟨_, _, h₂,
    run_bind_eq_ok.mpr ⟨_, _, h₃, hpre⟩⟩⟩⟩

/-- An action that is applied is about a masternode that is listed. -/
lemma OperatorActs.listed (hacts : OperatorActs rules tx x) {before after : CDeterministicMNList G}
    (happly : (applySpecialTx rules pindexPrev view tx).run before = .ok () after) :
    ∃ dmn, before.mnMap[x]? = some dmn := by
  cases hx : before.mnMap[x]? with
  | some dmn => exact ⟨dmn, rfl⟩
  | none =>
    exfalso
    suffices h : wlp (applySpecialTx rules pindexPrev view tx) (fun _ _ => False) before from h.ok happly
    unfold applySpecialTx
    obtain ⟨proTx, hserv⟩ | ⟨proTx, hrev⟩ := hacts
    · rw [if_neg (not_not.mpr hserv.nVersion), hserv.nType]
      unfold updateServiceMN
      rw [hserv.payload]
      refine wp_ite_throw fun _ => ?_
      refine wp_ite_throw fun _ => ?_
      refine wp_matchMN (fun _ => trivial) fun dmn hdmn => ?_
      rw [hserv.hash, hx] at hdmn
      cases hdmn
    · rw [if_neg (not_not.mpr hrev.nVersion), hrev.nType]
      unfold revokeMN
      rw [hrev.payload]
      refine wp_matchMN (fun _ => trivial) fun dmn hdmn => ?_
      rw [hrev.hash, hx] at hdmn
      cases hdmn

/-- In every block that passes the checks with those of signatures and builds a list, an action of an operator is signed
with the key that the masternode had in the list of the previous block. It has the same key when the action is applied,
unless an earlier transaction of the block has replaced the operator. No transaction of the block is the registration of
a masternode that is listed already, because the inputs of that one are spent. -/
theorem operatorAction_signed {admits : CBlockIndex → CDeterministicMNList G → CCoinsView → CBlock → Prop}
    (hold : ChainList rules admits pindexPrev old) {new : CDeterministicMNList G} {pre post : List CTransaction}
    {tx : CTransaction} (hchecked : ∀ tx ∈ block.vtx, checkSpecialTx rules pindexPrev old view true tx = .ok ())
    (hfresh : ∀ tx ∈ block.vtx, old.mnMap[tx.hash]? = none)
    (hrun : (buildNewListFromBlock rules pindexPrev view block).run old = .ok () new)
    (hsplit : block.vtx.drop 1 = pre ++ tx :: post) (hacts : OperatorActs rules tx x) :
    ∃ before dmn dmn', (applyFirst rules pindexPrev view pre).run old = .ok () before ∧
      old.mnMap[x]? = some dmn ∧ before.mnMap[x]? = some dmn' ∧
      SignedBy rules tx x dmn.pdmnState.pubKeyOperator ∧
      ((∀ t ∈ pre, ¬ReplacesOperator rules t x dmn.pdmnState.pubKeyOperator) →
        SignedBy rules tx x dmn'.pdmnState.pubKeyOperator) := by
  have hmem : ∀ t ∈ pre ++ tx :: post, t ∈ block.vtx := fun t ht => List.mem_of_mem_drop (hsplit ▸ ht)
  obtain ⟨before, after, hfirst, happly⟩ := exists_applyFirst hrun hsplit
  obtain ⟨dmn, hdmn, hsigned⟩ := hacts.signed (hchecked tx (hmem tx (by simp)))
  obtain ⟨dmn', hdmn'⟩ := hacts.listed happly
  refine ⟨before, dmn, dmn', hfirst, hdmn, hdmn', hsigned, fun hkeeps => ?_⟩
  have hsteps := (stepped_applyFirst hold.listHeightsWf.mapWf view pre).ok hfirst
  have hother : ∀ t ∈ pre, t.hash ≠ x := by
    intro t ht heq
    have hnone := hfresh t (hmem t (by simp [ht]))
    rw [heq, hdmn] at hnone
    cases hnone
  have hkey : dmn'.pdmnState.pubKeyOperator = dmn.pdmnState.pubKeyOperator := by
    refine MnSteps.forall_entry (hsteps.steps x) ?_ (fun hstep hmid => hstep.pubKeyOperator hmid hkeeps hother)
      dmn' hdmn'
    intro d hd
    rw [hdmn] at hd
    cases hd
    rfl
  rw [hkey]
  exact hsigned

end

/-! ### An operator that was replaced -/

/-- A signature that names its key. -/
def toySigned (sig : BitVec 768) : CBLSLazyPublicKey (Fin 4) → Bool
  | .null => false
  | .set k _ => sig.toNat = k.val + 1

/-- The toy rules with such signatures. -/
def operatorRules : EvoRules (Fin 4) :=
  { tierRules with
    checkServSig := fun proTx => toySigned proTx.sig
    checkRevSig := fun proTx => toySigned proTx.sig }

/-- The service update of masternode 7, signed by an operator. -/
def toyUpdateService (hash : Uint256) (signer : Fin 4) : CTransaction where
  hash := hash
  nVersion := 3
  nType := .providerUpdateService
  vin := []
  vout := []
  vExtraPayload := put 1#16 ++ put 7#256 ++ CService.serialize ⟨0x01020304#128 <<< 96 ||| 0xffff#128 <<< 80, 1#16⟩ ++
    putBytes [] ++ put 0#256 ++ put (BitVec.ofNat 768 (signer.val + 1))

/-- The registrar update of masternode 7 to a new operator. -/
def toyUpdateRegistrar (hash : Uint256) (operator : Fin 4) : CTransaction where
  hash := hash
  nVersion := 3
  nType := .providerUpdateRegistrar
  vin := []
  vout := []
  vExtraPayload := put 1#16 ++ put 7#256 ++ put 0#16 ++ put (toyBls.serialize true operator) ++ put 5#160 ++
    putBytes (toyScript 6) ++ put 0#256 ++ putBytes []

/-- The collateral of masternode 7 is unspent. -/
def operatorView : CCoinsView := fun o => if o = ⟨7, 0⟩ then some ⟨100000 * COIN, toyScript 6⟩ else none

def operatorList : CDeterministicMNList (Fin 4) :=
  { finalState (buildNewListFromBlock operatorRules (toyIndex 1) (fun _ => none)
      (toyBlock 2 [tierRegistration 7 .standardMasternode 5 2])) toyInitial with blockHash := 2 }

lemma chainList_operatorList : ChainList operatorRules (BlockChecked operatorRules) (toyIndex 2) operatorList :=
  .build 2 _ (.initial 1 (by decide)) rfl ⟨true, by decide +kernel⟩ (run_of_returns (by decide +kernel))

/-- A block with one transaction, and then a service update that operator 2 has signed. -/
def lateBlock (first : CTransaction) : CBlock := toyBlock 3 [first, toyUpdateService 21 2]

/-- The list to which the service update is applied. -/
def lateList (first : CTransaction) : CDeterministicMNList (Fin 4) :=
  finalState (applyFirst operatorRules (toyIndex 2) operatorView [first]) operatorList

def lateNew (first : CTransaction) : CDeterministicMNList (Fin 4) :=
  finalState (buildNewListFromBlock operatorRules (toyIndex 2) operatorView (lateBlock first)) operatorList

lemma not_signedBy_of_service (htype : tx.nType = .providerUpdateService)
    (h : (getProUpServTx rules tx).all fun proTx => !rules.checkServSig proTx key) : ¬SignedBy rules tx x key := by
  rintro (⟨proTx, hserv, hsig⟩ | ⟨proTx, hrev, -⟩)
  · rw [hserv.payload, Option.all_some, hsig] at h
    cases h
  · have hne := hrev.nType
    rw [htype] at hne
    cases hne

lemma operatorActs_toyUpdateService : OperatorActs operatorRules (toyUpdateService 21 2) 7 := by
  have hpayload : (getProUpServTx operatorRules (toyUpdateService 21 2)).any fun proTx => proTx.proTxHash = 7 := by
    decide +kernel
  obtain ⟨proTx, hproTx, hhash⟩ := (Option.any_eq_true _ _).mp hpayload
  exact .inl ⟨proTx, rfl, rfl, hproTx, of_decide_eq_true hhash⟩

/-- The block is accepted with the checks of signatures, and the service update has its effect, although it is not
signed with the key that the masternode has when it is applied. -/
structure LateAction (first : CTransaction) : Prop where
  checked : ∀ tx ∈ (lateBlock first).vtx,
    checkSpecialTx operatorRules (toyIndex 2) operatorList operatorView true tx = .ok ()
  fresh : ∀ tx ∈ (lateBlock first).vtx, operatorList.mnMap[tx.hash]? = none
  built : (buildNewListFromBlock operatorRules (toyIndex 2) operatorView (lateBlock first)).run operatorList =
    .ok () (lateNew first)
  before : (applyFirst operatorRules (toyIndex 2) operatorView [first]).run operatorList = .ok () (lateList first)
  notSigned : ∃ dmn, (lateList first).mnMap[(7 : Uint256)]? = some dmn ∧
    ¬SignedBy operatorRules (toyUpdateService 21 2) 7 dmn.pdmnState.pubKeyOperator
  address : (lateNew first).mnMap[(7 : Uint256)]?.map (·.pdmnState.addr) =
    some ⟨0x01020304#128 <<< 96 ||| 0xffff#128 <<< 80, 1#16⟩

lemma notSigned_of_evaluated {list : CDeterministicMNList (Fin 4)} (h : list.mnMap[(7 : Uint256)]?.any fun dmn =>
    (getProUpServTx operatorRules (toyUpdateService 21 2)).all fun proTx =>
      !toySigned proTx.sig dmn.pdmnState.pubKeyOperator) : ∃ dmn, list.mnMap[(7 : Uint256)]? = some dmn ∧
    ¬SignedBy operatorRules (toyUpdateService 21 2) 7 dmn.pdmnState.pubKeyOperator := by
  obtain ⟨dmn, hdmn, hsigned⟩ := (Option.any_eq_true _ _).mp h
  exact ⟨dmn, hdmn, not_signedBy_of_service rfl hsigned⟩

/-- An operator that was replaced, or that has revoked its key, earlier in the block still changes the address, and the
one that was replaced revives the masternode. -/
theorem replaced_operator_acts :
    ChainList operatorRules (BlockChecked operatorRules) (toyIndex 2) operatorList ∧
    OperatorActs operatorRules (toyUpdateService 21 2) 7 ∧
    LateAction (toyUpdateRegistrar 20 3) ∧
    (lateList (toyUpdateRegistrar 20 3)).mnMap[(7 : Uint256)]?.map (·.pdmnState.isBanned) = some true ∧
    (lateNew (toyUpdateRegistrar 20 3)).mnMap[(7 : Uint256)]?.map (·.pdmnState.isBanned) = some false ∧
    LateAction (toyRevoke 20 7 2) := by
  refine ⟨chainList_operatorList, operatorActs_toyUpdateService, ?_, by decide +kernel, by decide +kernel, ?_⟩
  · exact ⟨by decide +kernel, by decide +kernel, run_of_returns (by decide +kernel), run_of_returns (by decide +kernel),
      notSigned_of_evaluated (by decide +kernel), by decide +kernel⟩
  · exact ⟨by decide +kernel, by decide +kernel, run_of_returns (by decide +kernel), run_of_returns (by decide +kernel),
      notSigned_of_evaluated (by decide +kernel), by decide +kernel⟩

lemma not_replacesOperator_of_registrar [DecidableEq G] (htype : tx.nType = .providerUpdateRegistrar)
    (h : (getProUpRegTx rules tx).all fun proTx => key.eq proTx.pubKeyOperator) : ¬ReplacesOperator rules tx x key := by
  rintro (⟨proTx, hreg, hkey⟩ | ⟨proTx, hrev⟩)
  · rw [hreg.payload, Option.all_some, hkey] at h
    cases h
  · have hne := hrev.nType
    rw [htype] at hne
    cases hne

/-- A service update after a registrar update that leaves the operator is signed with the current key. -/
theorem operatorAction_signed_toyUpdateRegistrar :
    ∃ before dmn dmn',
      (applyFirst operatorRules (toyIndex 2) operatorView [toyUpdateRegistrar 20 2]).run operatorList = .ok () before ∧
      operatorList.mnMap[(7 : Uint256)]? = some dmn ∧ before.mnMap[(7 : Uint256)]? = some dmn' ∧
      SignedBy operatorRules (toyUpdateService 21 2) 7 dmn.pdmnState.pubKeyOperator ∧
      SignedBy operatorRules (toyUpdateService 21 2) 7 dmn'.pdmnState.pubKeyOperator := by
  have hrun : returns (buildNewListFromBlock operatorRules (toyIndex 2) operatorView
      (lateBlock (toyUpdateRegistrar 20 2))) operatorList := by decide +kernel
  obtain ⟨before, dmn, dmn', hbefore, hdmn, hdmn', hsigned, hcurrent⟩ :=
    operatorAction_signed chainList_operatorList (by decide +kernel) (by decide +kernel) (run_of_returns hrun)
      (show (lateBlock (toyUpdateRegistrar 20 2)).vtx.drop 1 = [toyUpdateRegistrar 20 2] ++ toyUpdateService 21 2 :: []
        from rfl) operatorActs_toyUpdateService
  have hkey : operatorList.mnMap[(7 : Uint256)]?.map (·.pdmnState.pubKeyOperator) = some (.set 2 true) := by
    decide +kernel
  rw [hdmn, Option.map_some] at hkey
  refine ⟨before, dmn, dmn', hbefore, hdmn, hdmn', hsigned, hcurrent (List.forall_mem_singleton.mpr ?_)⟩
  rw [Option.some.inj hkey]
  exact not_replacesOperator_of_registrar rfl (by decide +kernel)

end Blocx
