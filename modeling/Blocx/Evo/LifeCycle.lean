import Blocx.Evo.OperatorActions

/-!
# The life cycle of a masternode

A masternode is valid or banned. It starts valid if it is registered with an address. Afterwards the ban and what the
operator has set change together: a change or a revocation of the operator key takes the address away and bans, too many
penalties ban and leave the rest, and only a service update, which brings an address, can revive, and only a masternode
that has all its keys. So along a chain of checked blocks a valid masternode can always be reached and has an operator,
and one block can turn it from one into the other only in these ways.
-/

namespace Blocx

open CDeterministicMNList Wire CDeterministicMNState

variable {G : Type} {st : CDeterministicMNState G} {height : ℤ} {proTx : CProUpRegTx G}

/-- The state of a masternode: the keys of the owner are set, the penalty is not negative, and unless it is banned it
has an address and an operator. -/
structure LifeWf (st : CDeterministicMNState G) : Prop where
  keyIDOwner : st.keyIDOwner ≠ 0
  keyIDVoting : st.keyIDVoting ≠ 0
  nPoSePenalty : 0 ≤ st.nPoSePenalty
  addr : st.isBanned = false → st.addr ≠ {}
  pubKeyOperator : st.isBanned = false → st.pubKeyOperator.isValid

/-! ### The states that a block makes -/

lemma LifeWf.of_banned (howner : st.keyIDOwner ≠ 0) (hvoting : st.keyIDVoting ≠ 0) (hpenalty : 0 ≤ st.nPoSePenalty)
    (hban : st.isBanned) : LifeWf st := by
  refine ⟨howner, hvoting, hpenalty, fun hvalid => ?_, fun hvalid => ?_⟩
  · exact absurd hban (Bool.eq_false_iff.mp hvalid)
  · exact absurd hban (Bool.eq_false_iff.mp hvalid)

lemma LifeWf.register (hheight : height ≠ -1) {proTx : CProRegTx G} (howner : proTx.keyIDOwner ≠ 0)
    (hvoting : proTx.keyIDVoting ≠ 0) (hoper : proTx.pubKeyOperator.isValid) :
    LifeWf (register height proTx) := by
  unfold CDeterministicMNState.register
  split_ifs with haddr
  · exact .of_banned howner hvoting le_rfl (isBanned_banIfNotBanned _ hheight)
  · exact ⟨howner, hvoting, le_rfl, fun _ => haddr, fun _ => hoper⟩

section

variable (h : LifeWf st)

include h

lemma LifeWf.resetOperator (hheight : height ≠ -1) : LifeWf (st.resetOperatorFields.banIfNotBanned height) := by
  refine .of_banned ?_ ?_ ?_ (isBanned_banIfNotBanned _ hheight) <;> unfold banIfNotBanned
  · split_ifs <;> exact h.keyIDOwner
  · split_ifs <;> exact h.keyIDVoting
  · split_ifs <;> exact h.nPoSePenalty

lemma LifeWf.updateService {proTx : CProUpServTx} (haddr : proTx.addr ≠ {}) :
    LifeWf (st.updateService height proTx) := by
  unfold CDeterministicMNState.updateService
  dsimp only
  split_ifs with hrevive
  · exact ⟨h.keyIDOwner, h.keyIDVoting, le_rfl, fun _ => haddr, fun _ => hrevive.2.1⟩
  · exact ⟨h.keyIDOwner, h.keyIDVoting, h.nPoSePenalty, fun _ => haddr, h.pubKeyOperator⟩

lemma LifeWf.updateRegistrar [DecidableEq G] (hheight : height ≠ -1) (hvoting : proTx.keyIDVoting ≠ 0) :
    LifeWf (st.updateRegistrar height proTx) := by
  unfold CDeterministicMNState.updateRegistrar
  split_ifs
  · exact ⟨h.keyIDOwner, hvoting, h.nPoSePenalty, h.addr, h.pubKeyOperator⟩
  · have hreset := h.resetOperator hheight
    exact .of_banned hreset.keyIDOwner hvoting hreset.nPoSePenalty (isBanned_banIfNotBanned _ hheight)

lemma LifeWf.revoke (hheight : height ≠ -1) (proTx : CProUpRevTx) : LifeWf (st.revoke height proTx) := by
  have hreset := h.resetOperator hheight
  exact .of_banned hreset.keyIDOwner hreset.keyIDVoting hreset.nPoSePenalty (isBanned_banIfNotBanned _ hheight)

lemma LifeWf.punished (list : CDeterministicMNList G) (hheight : list.nHeight ≠ -1) {penalty : ℤ}
    (hpenalty : 0 < penalty) : LifeWf (list.punishedState st penalty) := by
  obtain ⟨hmax, -⟩ := calcMaxPoSePenalty_mem list
  have hpos := h.nPoSePenalty
  have hnew : 0 ≤ min list.calcMaxPoSePenalty (st.nPoSePenalty + penalty) := by omega
  unfold punishedState
  dsimp only
  split_ifs with hban
  · unfold banIfNotBanned
    rw [if_neg (by simpa using hban.2)]
    exact .of_banned h.keyIDOwner h.keyIDVoting hnew (decide_eq_true hheight)
  · exact ⟨h.keyIDOwner, h.keyIDVoting, hnew, h.addr, h.pubKeyOperator⟩

end

/-! ### Along a chain -/

section

variable [DecidableEq G] {rules : EvoRules G} {pindexPrev : CBlockIndex} {old new : CDeterministicMNList G}
  {view : CCoinsView} {block : CBlock} {x : Uint256} {d : CDeterministicMN G}
  {before after : Option (CDeterministicMN G)} {txs : List CTransaction}

lemma MnStep.lifeWf (hchecked : BlockChecked rules pindexPrev old view block)
    (h : MnStep rules pindexPrev (block.vtx.drop 1) x before (some d))
    (hbefore : ∀ a, before = some a → LifeWf a.pdmnState) : LifeWf d.pdmnState := by
  have hne := pindexPrev.nHeight_succ_ne
  obtain ⟨checkSigs, hchecked⟩ := hchecked
  replace hchecked := fun tx (htx : tx ∈ block.vtx.drop 1) => hchecked tx (List.mem_of_mem_drop htx)
  cases h with
  | confirmed a h =>
    obtain ⟨howner, hvoting, hpenalty, haddr, hoper⟩ := hbefore a rfl
    exact ⟨howner, hvoting, hpenalty, haddr, hoper⟩
  | decreased a h =>
    obtain ⟨howner, hvoting, -, haddr, hoper⟩ := hbefore a rfl
    exact ⟨howner, hvoting, Int.sub_nonneg_of_le h, haddr, hoper⟩
  | registered id htx h hlite =>
    have hreg := h.checked (hchecked _ htx)
    exact .register hne hreg.keyIDOwner hreg.keyIDVoting hreg.pubKeyOperator
  | service a htx h => exact (hbefore a rfl).updateService (h.checked (hchecked _ htx)).service
  | registrar a htx h => exact (hbefore a rfl).updateRegistrar hne (h.checked (hchecked _ htx)).keyIDVoting
  | revoked a htx h => exact (hbefore a rfl).revoke hne _
  | punished a htx h hheight hpenalty => exact (hbefore a rfl).punished _ (hheight ▸ hne) hpenalty

lemma ChainList.lifeWf {b : CBlockIndex} {list : CDeterministicMNList G}
    (h : ChainList rules (BlockChecked rules) b list) (hd : list.mnMap[x]? = some d) : LifeWf d.pdmnState := by
  refine ChainList.forall_entry (P := fun d => LifeWf d.pdmnState) (fun hchecked hstep => hstep.lifeWf hchecked) ?_ h hd
  rintro height d ⟨howner, hvoting, hpenalty, haddr, hoper⟩
  exact ⟨howner, hvoting, hpenalty, haddr, hoper⟩

/-- Without a service update a banned masternode stays banned. -/
lemma MnSteps.isBanned (h : MnSteps rules pindexPrev txs x before after)
    (hbefore : ∀ a, before = some a → a.pdmnState.isBanned)
    (hserv : ∀ tx ∈ txs, ∀ proTx, ¬UpdatesService rules tx x proTx) (hfresh : ∀ tx ∈ txs, tx.hash ≠ x) :
    ∀ d, after = some d → d.pdmnState.isBanned := by
  have hne := pindexPrev.nHeight_succ_ne
  refine MnSteps.forall_entry h hbefore fun hstep ih => ?_
  cases hstep with
  | confirmed a h | decreased a h => exact ih a rfl
  | registered id htx h hlite => exact absurd h.hash (hfresh _ htx)
  | service a htx h => exact absurd h (hserv _ htx _)
  | @registrar tx proTx a htx h =>
    by_contra hvalid
    have hvalid' := (updateRegistrar_heights hne proTx a.pdmnState).2 (Bool.eq_false_iff.mpr hvalid)
    exact absurd (ih a rfl) (Bool.eq_false_iff.mp hvalid')
  | @revoked tx proTx a htx h => exact (revoke_heights a.pdmnState hne proTx).2
  | @punished tx qc list penalty a htx h hheight hpenalty =>
    by_contra hvalid
    have hvalid' := (punishedState_heights a.pdmnState list penalty).2 (Bool.eq_false_iff.mpr hvalid)
    exact absurd (ih a rfl) (Bool.eq_false_iff.mp hvalid')

omit [DecidableEq G] in
lemma isBanned_updateService {proTx : CProUpServTx} (h : st.isBanned = false) :
    (st.updateService height proTx).isBanned = false := by
  unfold updateService
  dsimp only
  split_ifs
  · rfl
  · exact h

lemma isBanned_updateRegistrar (hkey : st.pubKeyOperator.eq proTx.pubKeyOperator) :
    (st.updateRegistrar height proTx).isBanned = st.isBanned := by
  unfold updateRegistrar
  rw [if_pos hkey]
  rfl

/-- The transaction can ban a masternode whose operator has the key. -/
def CanBan (rules : EvoRules G) (tx : CTransaction) (x : Uint256) (key : CBLSLazyPublicKey G) : Prop :=
  (∃ proTx, Revokes rules tx x proTx) ∨
    (∃ proTx, UpdatesRegistrar rules tx x proTx ∧ key.eq proTx.pubKeyOperator = false) ∨
    ∃ qc, Punishes rules tx x qc

/-- Without a transaction that can ban it a valid masternode stays valid. -/
lemma MnSteps.isValid {key : CBLSLazyPublicKey G} (h : MnSteps rules pindexPrev txs x before after)
    (hbefore : ∀ a, before = some a → a.pdmnState.isBanned = false ∧ a.pdmnState.pubKeyOperator = key)
    (hban : ∀ tx ∈ txs, ¬CanBan rules tx x key) (hfresh : ∀ tx ∈ txs, tx.hash ≠ x) :
    ∀ d, after = some d → d.pdmnState.isBanned = false ∧ d.pdmnState.pubKeyOperator = key := by
  refine MnSteps.forall_entry h hbefore fun {mid d} hstep ih => ⟨?_, ?_⟩
  · cases hstep with
    | confirmed a h | decreased a h => exact (ih a rfl).1
    | registered id htx h hlite => exact absurd h.hash (hfresh _ htx)
    | service a htx h => exact isBanned_updateService (ih a rfl).1
    | @registrar tx proTx a htx h =>
      -- the key is still the same, so that the update is about it
      have hkey : a.pdmnState.pubKeyOperator.eq proTx.pubKeyOperator := by
        by_contra hne
        rw [Bool.not_eq_true, (ih a rfl).2] at hne
        exact hban tx htx (.inr (.inl ⟨proTx, h, hne⟩))
      exact (isBanned_updateRegistrar hkey).trans (ih a rfl).1
    | revoked a htx h => exact absurd (.inl ⟨_, h⟩) (hban _ htx)
    | punished a htx h hheight hpenalty => exact absurd (.inr (.inr ⟨_, h⟩)) (hban _ htx)
  · refine hstep.pubKeyOperator (fun a ha => (ih a ha).2) (fun tx htx hrepl => hban tx htx ?_) hfresh
    exact hrepl.elim (fun h => .inr (.inl h)) .inl

/-- In every list along a chain of checked blocks the masternodes that are not banned have an address, a valid operator
key, and keys of the owner and for voting, and no penalty is negative. Across a further checked block a masternode is
revived only by a service update, and banned only by a revocation, by a registrar update with another operator key, or
by a quorum commitment. No transaction of that block is the registration of a masternode that is listed already, because
the inputs of that one are spent. -/
theorem masternode_life_cycle (hchain : ChainList rules (BlockChecked rules) pindexPrev old) :
    (∀ (x : Uint256) (d : CDeterministicMN G), old.mnMap[x]? = some d → 0 ≤ d.pdmnState.nPoSePenalty ∧
      (d.pdmnState.isBanned = false → d.pdmnState.addr ≠ {} ∧ d.pdmnState.pubKeyOperator.isValid ∧
        d.pdmnState.keyIDOwner ≠ 0 ∧ d.pdmnState.keyIDVoting ≠ 0)) ∧
    ∀ (view : CCoinsView) (block : CBlock) (new : CDeterministicMNList G),
      BlockChecked rules pindexPrev old view block → (∀ tx ∈ block.vtx, old.mnMap[tx.hash]? = none) →
      (buildNewListFromBlock rules pindexPrev view block).run old = .ok () new →
      ∀ (x : Uint256) (a d : CDeterministicMN G), old.mnMap[x]? = some a → new.mnMap[x]? = some d →
      (a.pdmnState.isBanned → d.pdmnState.isBanned = false →
        ∃ tx ∈ block.vtx, ∃ proTx, UpdatesService rules tx x proTx) ∧
      (a.pdmnState.isBanned = false → d.pdmnState.isBanned →
        ∃ tx ∈ block.vtx, CanBan rules tx x a.pdmnState.pubKeyOperator) := by
  refine ⟨fun x d hd => ?_, fun view block new _ hfresh hrun x a d ha hd => ?_⟩
  · have hlife := hchain.lifeWf hd
    exact ⟨hlife.nPoSePenalty, fun hvalid =>
      ⟨hlife.addr hvalid, hlife.pubKeyOperator hvalid, hlife.keyIDOwner, hlife.keyIDVoting⟩⟩
  · obtain ⟨mid, hmid, hmarked⟩ := buildNewListFromBlock_steps hchain.listHeightsWf.mapWf hrun
    -- a payment changes nothing that matters here
    obtain ⟨m, hm, hbanned⟩ : ∃ m, mid.mnMap[x]? = some m ∧ m.pdmnState.isBanned = d.pdmnState.isBanned := by
      by_cases hpayee : IsPayee rules pindexPrev old x
      · rw [hmarked.paid x hpayee] at hd
        obtain ⟨m, hm, rfl⟩ := Option.map_eq_some_iff.mp hd
        exact ⟨m, hm, rfl⟩
      · rw [hmarked.unpaid x hpayee] at hd
        exact ⟨d, hd, rfl⟩
    have hfresh' : ∀ tx ∈ block.vtx.drop 1, tx.hash ≠ x := by
      rintro tx htx rfl
      rw [hfresh tx (List.mem_of_mem_drop htx)] at ha
      cases ha
    refine ⟨fun hban hvalid => ?_, fun hvalid hban => ?_⟩
    · by_contra hnone
      have hstill := MnSteps.isBanned (hmid.steps x) (fun b hb => by rw [ha] at hb; cases hb; exact hban)
        (fun tx htx proTx hserv => hnone ⟨tx, List.mem_of_mem_drop htx, proTx, hserv⟩) hfresh' m hm
      rw [hbanned, hvalid] at hstill
      cases hstill
    · by_contra hnone
      obtain ⟨hstill, -⟩ := MnSteps.isValid (hmid.steps x) (fun b hb => by rw [ha] at hb; cases hb; exact ⟨hvalid, rfl⟩)
        (fun tx htx hcan => hnone ⟨tx, List.mem_of_mem_drop htx, hcan⟩) hfresh' m hm
      rw [hbanned, hban] at hstill
      cases hstill

end

/-- A masternode whose operator revokes its key. -/
theorem masternode_life_cycle_toyRevoke :
    let new :=
      finalState (buildNewListFromBlock operatorRules (toyIndex 2) operatorView (toyBlock 3 [toyRevoke 20 7 2]))
      operatorList
    ∃ a d, operatorList.mnMap[(7 : Uint256)]? = some a ∧ new.mnMap[(7 : Uint256)]? = some d ∧
      a.pdmnState.isBanned = false ∧ d.pdmnState.isBanned ∧ a.pdmnState.addr ≠ {} ∧
      ∃ tx ∈ (toyBlock 3 [toyRevoke 20 7 2]).vtx, CanBan operatorRules tx 7 a.pdmnState.pubKeyOperator := by
  intro new
  obtain ⟨hwf, hblock⟩ := masternode_life_cycle chainList_operatorList
  have hchecked : BlockChecked operatorRules (toyIndex 2) operatorList operatorView (toyBlock 3 [toyRevoke 20 7 2]) :=
    ⟨true, by decide +kernel⟩
  have hrun : returns (buildNewListFromBlock operatorRules (toyIndex 2) operatorView (toyBlock 3 [toyRevoke 20 7 2]))
      operatorList := by decide +kernel
  have hold : operatorList.mnMap[(7 : Uint256)]?.any fun a => !a.pdmnState.isBanned := by decide +kernel
  have hnew : new.mnMap[(7 : Uint256)]?.any fun d => d.pdmnState.isBanned := by decide +kernel
  obtain ⟨a, ha, hvalid⟩ := (Option.any_eq_true _ _).mp hold
  obtain ⟨d, hd, hban⟩ := (Option.any_eq_true _ _).mp hnew
  rw [Bool.not_eq_true'] at hvalid
  have hcan := (hblock _ _ _ hchecked (by decide +kernel) (run_of_returns hrun) 7 a d ha hd).2 hvalid hban
  exact ⟨a, d, ha, hd, hvalid, hban, ((hwf 7 a ha).2 hvalid).1, hcan⟩

end Blocx
