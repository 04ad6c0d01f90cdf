import Blocx.Llmq.InputLocks
import Blocx.Llmq.NonLockedTxsTracked

/-!
# Votes for input locks

Runs of `ProcessTx` calls with recovered signatures coming and going. A vote is never taken back, and a request is
handed over only with a vote. `TrySignInputLocks` looks for votes of both types of quorum on all inputs before it asks
for a signature on any of them, and the votes of the two types on an input agree (`Votes`), so that looking at one of
them is enough. Hence after a request for an input has been handed over, none is handed over for any input of another
transaction that spends it.

This does not say that two transactions with a common input are never both voted for. There is no vote on an input whose
quorum the node is not a member of, nor on one whose signature has been recovered already; then another transaction that
spends this input may get votes, on this input or on its others.
-/

namespace Blocx

open List Option

open SigningState

open Function

open Consensus

variable {Sig PubKey : Type} {s : SigningState Sig} {id msgHash : Uint256} {llmqType : LLMQType} {allowReSign : Bool}

/-! ### Runs -/

/-- A step of a run. -/
inductive SignStep (Sig PubKey : Type) where
  | processTx (env : SignEnv PubKey) (tx : CTransaction) (fRetroactive : Bool)
  /-- `TrySignInstantSendLock`, which a recovered signature may lead to. -/
  | trySignInstantSendLock (env : SignEnv PubKey) (tx : CTransaction)
  /-- The lock of an id is finished, or given up. -/
  | eraseCreating (id : Uint256)
  | writeRecoveredSig (recSig : CRecoveredSig Sig) (hash : Uint256)
  | truncateRecoveredSig (llmqType : LLMQType) (id : Uint256)

def SigningState.step (ids : RequestIds) (s : SigningState Sig) : SignStep Sig PubKey → SigningState Sig
  | .processTx env tx fRetroactive => s.processTx env ids tx fRetroactive
  | .trySignInstantSendLock env tx => s.trySignInstantSendLock env ids tx
  | .eraseCreating id =>
    { s with creatingInstantSendLocks := update s.creatingInstantSendLocks id none }
  | .writeRecoveredSig recSig hash => { s with db := s.db.writeRecoveredSig recSig hash }
  | .truncateRecoveredSig llmqType id => { s with db := s.db.truncateRecoveredSig llmqType id }

/-- The state after a run. -/
def signedAfter (ids : RequestIds) (steps : List (SignStep Sig PubKey)) : SigningState Sig :=
  steps.foldl (step ids) {}

/-- The transaction of a step. -/
def SignStep.tx : SignStep Sig PubKey → Option CTransaction
  | .processTx _ tx _ => some tx
  | .trySignInstantSendLock _ tx => some tx
  | _ => none

/-- The transactions of a run. -/
def signedTxs (steps : List (SignStep Sig PubKey)) : List CTransaction := steps.filterMap SignStep.tx

/-- A request to sign. -/
structure SignRequest where
  llmqType : LLMQType
  id : Uint256
  msgHash : Uint256
  deriving DecidableEq

/-- The request that a call hands over. -/
def ShareCall.request : ShareCall → Option SignRequest
  | .asyncSign llmqType id msgHash => some ⟨llmqType, id, msgHash⟩
  | .forceReAnnouncement .. => none

/-- The requests that have been handed over to `AsyncSign`, the last one at the end. -/
def SigningState.requests (s : SigningState Sig) : List SignRequest := s.calls.filterMap ShareCall.request

/-- The request is for the lock of an input of a transaction. -/
def SignRequest.IsInputLock (ids : RequestIds) (r : SignRequest) (tx : CTransaction) (o : COutPoint) : Prop :=
  tx.Spends o ∧ r.id = ids.hashPrevout o ∧ r.msgHash = tx.hash

/-- The hashes of a run do not collide: a hash belongs to one transaction, and no id of a lock is one of an input. -/
structure NoCollisions (ids : RequestIds) (txs : List CTransaction) : Prop where
  tx : ∀ tx ∈ txs, ∀ tx' ∈ txs, tx.hash = tx'.hash → tx = tx'
  id : ∀ tx ∈ txs, ∀ tx' ∈ txs, ∀ o, tx'.Spends o → ids.hashInputs (tx.vin.map (·.prevout)) ≠ ids.hashPrevout o

/-! ### The signing manager -/

section

variable {env : SignEnv PubKey}

/-- A request is handed over only if there is no vote for something else. -/
lemma asyncSignIfMember_cases (s : SigningState Sig) (llmqType : LLMQType)
    (id msgHash : Uint256) (allowReSign : Bool) :
    (s.asyncSignIfMember env llmqType id msgHash allowReSign).2 = s ∨
      (∀ m, s.db.votes (llmqType, id) = some m → m = msgHash) ∧
      (s.asyncSignIfMember env llmqType id msgHash allowReSign).2 = s.handOver llmqType id msgHash allowReSign := by
  unfold asyncSignIfMember
  split
  · exact .inl rfl
  · split
    · exact .inl rfl
    · split
      · exact .inl rfl
      · split
        · next prevMsgHash hvote =>
          split_ifs with hother
          · exact .inl rfl
          · exact .inl rfl
          · exact .inl rfl
          · refine .inr ⟨fun m hm => ?_, rfl⟩
            exact (some.inj (hvote.symm.trans hm)).symm.trans (not_not.mp hother).symm
        · next hvote =>
          split_ifs
          · exact .inl rfl
          · refine .inr ⟨fun m hm => ?_, rfl⟩
            cases hvote.symm.trans hm

lemma votes_handOver (hvote : ∀ m, s.db.votes (llmqType, id) = some m → m = msgHash) :
    (s.handOver llmqType id msgHash allowReSign).db.votes = update s.db.votes (llmqType, id) (some msgHash) := by
  unfold handOver CRecoveredSigsDb.hasVotedOnId
  dsimp only
  split_ifs with hvoted
  · obtain ⟨m, hm⟩ := isSome_iff_exists.mp hvoted
    rw [Function.eq_update_self_iff, hm, hvote m hm]
  · rfl

lemma requests_handOver :
    (s.handOver llmqType id msgHash allowReSign).requests = s.requests ++ [⟨llmqType, id, msgHash⟩] := by
  unfold handOver requests
  rw [filterMap_append, filterMap_append, append_assoc]
  cases allowReSign
  · rfl
  · rfl

end

/-! ### Invariants -/

section

variable {ids : RequestIds} {txs : List CTransaction} {tx : CTransaction}

/-- The two types of quorum that sign for InstantSend. -/
def RequestIds.IsInstantSendType (ids : RequestIds) (llmqType : LLMQType) : Prop :=
  llmqType = ids.llmqTypeDIP0024InstantSend ∨ llmqType = ids.llmqTypeInstantSend

lemma isInstantSendType_getInstantSendLLMQType (dip0024 : Bool) :
    ids.IsInstantSendType (ids.getInstantSendLLMQType dip0024) := by
  cases dip0024
  · exact .inr rfl
  · exact .inl rfl

/-- After a request for an input of a transaction, none for any input of another one that spends it. -/
def Excludes (ids : RequestIds) (txs : List CTransaction) (r r' : SignRequest) : Prop :=
  ∀ tx ∈ txs, ∀ tx' ∈ txs, ∀ o o', r.IsInputLock ids tx o → tx'.Spends o → r'.IsInputLock ids tx' o' → tx = tx'

/-- The votes and the requests that have been handed over. -/
structure Votes (ids : RequestIds) (txs : List CTransaction) (s : SigningState Sig) : Prop where
  /-- What is handed over is voted for. -/
  voted : ∀ r ∈ s.requests, s.db.votes (r.llmqType, r.id) = some r.msgHash
  type : ∀ r ∈ s.requests, ids.IsInstantSendType r.llmqType
  /-- The votes of the two types on an input agree. -/
  agree : ∀ tx ∈ txs, ∀ o, tx.Spends o → ∀ m m',
    s.db.votes (ids.llmqTypeDIP0024InstantSend, ids.hashPrevout o) = some m →
    s.db.votes (ids.llmqTypeInstantSend, ids.hashPrevout o) = some m' → m = m'
  excludes : s.requests.Pairwise (Excludes ids txs)

lemma votes_nil : Votes ids txs ({} : SigningState Sig) where
  voted _ h := by cases h
  type _ h := by cases h
  agree _ _ _ _ _ _ h := by cases h
  excludes := List.Pairwise.nil

lemma Votes.congr {s' : SigningState Sig} (h : Votes ids txs s) (hvotes : s'.db.votes = s.db.votes)
    (hcalls : s'.calls = s.calls) : Votes ids txs s' := by
  have hrequests : s'.requests = s.requests := by rw [requests, hcalls, requests]
  refine ⟨?_, ?_, ?_, ?_⟩
  · rw [hrequests, hvotes]
    exact h.voted
  · rw [hrequests]
    exact h.type
  · rw [hvotes]
    exact h.agree
  · rw [hrequests]
    exact h.excludes

/-- There is no vote for another transaction on the inputs of a transaction. -/
def VotesFor (ids : RequestIds) (s : SigningState Sig) (tx : CTransaction) : Prop :=
  ∀ o, tx.Spends o → ∀ llmqType, ids.IsInstantSendType llmqType →
    ∀ m, s.db.votes (llmqType, ids.hashPrevout o) = some m → m = tx.hash

section

variable (h : Votes ids txs s)

include h

/-- The check of all inputs finds every vote for another transaction. -/
lemma Votes.votesFor (htx : tx ∈ txs) {count : ℕ}
    (hcount : countVotes ids s.db tx.hash tx.vin = some count) : VotesFor ids s tx := by
  have hinputs : ∀ vin count, countVotes ids s.db tx.hash vin = some count →
      ∀ txin ∈ vin, ∀ m, ((s.db.votes (ids.llmqTypeDIP0024InstantSend, ids.hashPrevout txin.prevout)).or
        (s.db.votes (ids.llmqTypeInstantSend, ids.hashPrevout txin.prevout))) = some m → m = tx.hash := by
    intro vin
    induction vin with
    | nil => exact nofun
    | cons txin vin ih =>
      intro count hcount
      unfold countVotes at hcount
      dsimp only at hcount
      split at hcount
      · cases hcount
      · next hother =>
        split at hcount
        · cases hcount
        · obtain ⟨count', hcount', -⟩ := map_eq_some_iff.mp hcount
          refine forall_mem_cons.mpr ⟨fun m hm => ?_, ih count' hcount'⟩
          by_contra hne
          refine hother ?_
          unfold CRecoveredSigsDb.getVoteForId
          rw [hm]
          exact decide_eq_true hne
  rintro o ⟨txin, hmem, rfl⟩ llmqType htype m hm
  have hor := hinputs tx.vin count hcount txin hmem
  cases hvote : s.db.votes (ids.llmqTypeDIP0024InstantSend, ids.hashPrevout txin.prevout) with
  | none =>
    obtain rfl | rfl := htype
    · rw [hvote] at hm
      cases hm
    · rw [hvote, none_or] at hor
      exact hor m hm
  | some m' =>
    have hm' : m' = tx.hash := hor m' (by rw [hvote, some_or])
    obtain rfl | rfl := htype
    · rw [hvote] at hm
      exact (some.inj hm).symm.trans hm'
    · exact (h.agree tx htx _ ⟨txin, hmem, rfl⟩ m' m hvote hm).symm.trans hm'

/-- A request is handed over. On an input there is no vote for another transaction, and if it is one for an input, there
is none on any input of the transaction. -/
lemma Votes.handOver (htype : ids.IsInstantSendType llmqType)
    (hvote : ∀ m, s.db.votes (llmqType, id) = some m → m = msgHash)
    (hinput : ∀ tx ∈ txs, ∀ o, tx.Spends o → id = ids.hashPrevout o →
      ∀ llmqType', ids.IsInstantSendType llmqType' → ∀ m, s.db.votes (llmqType', id) = some m → m = msgHash)
    (hfor : ∀ tx ∈ txs, ∀ o, SignRequest.IsInputLock ids ⟨llmqType, id, msgHash⟩ tx o → VotesFor ids s tx)
    (hsame : ∀ tx ∈ txs, ∀ tx' ∈ txs, tx.hash = tx'.hash → tx = tx') :
    Votes ids txs (s.handOver llmqType id msgHash allowReSign) := by
  have hold : ∀ llmqType' id' m, s.db.votes (llmqType', id') = some m →
      update s.db.votes (llmqType, id) (some msgHash) (llmqType', id') = some m := by
    intro llmqType' id' m hm
    by_cases heq : (llmqType', id') = (llmqType, id)
    · rw [heq] at hm ⊢
      rw [update_self, hvote m hm]
    · rw [update_of_ne heq, hm]
  refine ⟨?_, ?_, fun tx htx o hspends m m' hm hm' => ?_, ?_⟩
  · rw [requests_handOver, votes_handOver hvote, forall_mem_append, forall_mem_singleton]
    exact ⟨fun r hr => hold _ _ _ (h.voted r hr), update_self ..⟩
  · rw [requests_handOver, forall_mem_append, forall_mem_singleton]
    exact ⟨h.type, htype⟩
  · rw [votes_handOver hvote] at hm hm'
    by_cases heq : id = ids.hashPrevout o
    · -- all votes on this input are for the message
      have hall : ∀ llmqType', ids.IsInstantSendType llmqType' → ∀ m,
          update s.db.votes (llmqType, id) (some msgHash) (llmqType', ids.hashPrevout o) = some m →
          m = msgHash := by
        intro llmqType' htype' m hm
        rw [← heq] at hm
        by_cases hkey : (llmqType', id) = (llmqType, id)
        · rw [hkey, update_self] at hm
          exact (some.inj hm).symm
        · rw [update_of_ne hkey] at hm
          exact hinput tx htx o hspends heq llmqType' htype' m hm
      exact (hall _ (.inl rfl) m hm).trans (hall _ (.inr rfl) m' hm').symm
    · have hkey : ∀ llmqType', (llmqType', ids.hashPrevout o) ≠ (llmqType, id) :=
        fun _ hkey => heq (congrArg Prod.snd hkey).symm
      rw [update_of_ne (hkey _)] at hm hm'
      exact h.agree tx htx o hspends m m' hm hm'
  · rw [requests_handOver, pairwise_append]
    refine ⟨h.excludes, pairwise_singleton .., fun r hr r' hr' tx htx tx' htx' o o' hlock hspends hlock' => ?_⟩
    obtain rfl := mem_singleton.mp hr'
    obtain ⟨-, hid, hmsg⟩ := hlock
    have hvoted := h.voted r hr
    rw [hid] at hvoted
    exact hsame tx htx tx' htx' (hmsg.symm.trans (hfor tx' htx' o' hlock' o hspends _ (h.type r hr) _ hvoted))

section

variable (hcollisions : NoCollisions ids txs)

include hcollisions

section

variable (htx : tx ∈ txs)

include htx

/-- A turn of the loop that signs the inputs of a transaction. -/
lemma Votes.signInput (hfor : VotesFor ids s tx) (env : SignEnv PubKey)
    (htype : ids.IsInstantSendType llmqType) (fRetroactive : Bool) {txin : CTxIn} (hmem : txin ∈ tx.vin) :
    Votes ids txs (SigningState.signInput env ids llmqType tx.hash fRetroactive s txin) ∧
      VotesFor ids (SigningState.signInput env ids llmqType tx.hash fRetroactive s txin) tx := by
  have h' : Votes ids txs { s with inputRequestIds := insert (ids.hashPrevout txin.prevout) s.inputRequestIds } :=
    h.congr rfl rfl
  unfold SigningState.signInput
  obtain heq | ⟨hvote, heq⟩ := asyncSignIfMember_cases
    { s with inputRequestIds := insert (ids.hashPrevout txin.prevout) s.inputRequestIds } llmqType
    (ids.hashPrevout txin.prevout) tx.hash fRetroactive
  · rw [heq]
    exact ⟨h', hfor⟩
  · rw [heq]
    refine ⟨h'.handOver htype hvote (fun _ _ _ _ _ => hfor _ ⟨txin, hmem, rfl⟩) (fun tx' htx' o hlock => ?_)
      hcollisions.tx, fun o hspends llmqType' htype' m hm => ?_⟩
    · obtain rfl := hcollisions.tx tx' htx' tx htx hlock.2.2.symm
      exact hfor
    · rw [votes_handOver hvote] at hm
      by_cases hkey : (llmqType', ids.hashPrevout o) = (llmqType, ids.hashPrevout txin.prevout)
      · rw [hkey, update_self] at hm
        exact (some.inj hm).symm
      · rw [update_of_ne hkey] at hm
        exact hfor o hspends llmqType' htype' m hm

lemma Votes.trySignInputLocks (env : SignEnv PubKey) (htype : ids.IsInstantSendType llmqType) (fRetroactive : Bool) :
    Votes ids txs (s.trySignInputLocks env ids tx fRetroactive llmqType).2 := by
  unfold SigningState.trySignInputLocks
  split
  · exact h
  · next count hcount =>
    split_ifs
    · exact h
    · refine (foldlRecOn (motive := fun s => Votes ids txs s ∧ VotesFor ids s tx) tx.vin _
        ⟨h, h.votesFor htx hcount⟩ fun s hs txin hmem => ?_).1
      exact hs.1.signInput hcollisions htx hs.2 env htype fRetroactive hmem

lemma Votes.trySignInstantSendLock (env : SignEnv PubKey) : Votes ids txs (s.trySignInstantSendLock env ids tx) := by
  unfold SigningState.trySignInstantSendLock
  dsimp only
  split
  · exact h
  · split
    · exact h
    · split
      · exact h
      · -- the id of a lock is not one of an input
        generalize hs : ({ s with
          creatingInstantSendLocks := _
          txToCreatingInstantSendLocks := _ } : SigningState Sig) = s'
        have h' : Votes ids txs s' := by
          subst hs
          exact h.congr rfl rfl
        obtain heq | ⟨hvote, heq⟩ := asyncSignIfMember_cases s'
          (ids.getInstantSendLLMQType env.dip0024Lock) (ids.hashInputs (tx.vin.map (·.prevout))) tx.hash false
        · rw [heq]
          exact h'
        · rw [heq]
          refine h'.handOver (isInstantSendType_getInstantSendLLMQType _) hvote ?_ ?_ hcollisions.tx
          · exact fun tx' htx' o hspends hid => absurd hid (hcollisions.id tx htx tx' htx' o hspends)
          · exact fun tx' htx' o hlock => absurd hlock.2.1 (hcollisions.id tx htx tx' htx' o hlock.1)

lemma Votes.processTx
    (env : SignEnv PubKey) (fRetroactive : Bool) : Votes ids txs (s.processTx env ids tx fRetroactive) := by
  have hinputs := h.trySignInputLocks hcollisions htx env (isInstantSendType_getInstantSendLLMQType env.dip0024)
    fRetroactive
  unfold SigningState.processTx
  split_ifs
  · exact h
  · exact h
  · exact h
  · exact h
  · exact h
  · split
    · next s' heq =>
      rw [heq] at hinputs
      exact hinputs
    · next s' heq =>
      rw [heq] at hinputs
      exact hinputs.trySignInstantSendLock hcollisions htx env

end

lemma Votes.step {step : SignStep Sig PubKey} (htx : ∀ tx ∈ step.tx, tx ∈ txs) : Votes ids txs (s.step ids step) := by
  cases step with
  | processTx env tx fRetroactive => exact h.processTx hcollisions (htx tx rfl) env fRetroactive
  | trySignInstantSendLock env tx => exact h.trySignInstantSendLock hcollisions (htx tx rfl) env
  | eraseCreating id | writeRecoveredSig recSig hash => exact h.congr rfl rfl
  | truncateRecoveredSig llmqType id =>
    refine h.congr ?_ rfl
    unfold SigningState.step CRecoveredSigsDb.truncateRecoveredSig
    dsimp only
    split
    · rfl
    · rfl

end

end

lemma votes_signedAfter {steps : List (SignStep Sig PubKey)} (hcollisions : NoCollisions ids (signedTxs steps)) :
    Votes ids (signedTxs steps) (signedAfter ids steps) := by
  refine foldlRecOn (motive := Votes ids (signedTxs steps)) steps _ votes_nil fun s h step hmem => ?_
  exact h.step hcollisions fun tx htx => mem_filterMap.mpr ⟨step, hmem, htx⟩

/-- After a request for an input of a transaction has been handed over, none is handed over for any input of another
transaction that spends this input. So requests for an input are handed over for one transaction only. And for one id
and type there are requests for one message only. -/
theorem inputLocks_exclusive {steps : List (SignStep Sig PubKey)} (hcollisions : NoCollisions ids (signedTxs steps)) :
    (signedAfter ids steps).requests.Pairwise (Excludes ids (signedTxs steps)) ∧
    (∀ r ∈ (signedAfter ids steps).requests, ∀ r' ∈ (signedAfter ids steps).requests,
      ∀ tx ∈ signedTxs steps, ∀ tx' ∈ signedTxs steps, ∀ o, r.IsInputLock ids tx o → r'.IsInputLock ids tx' o →
        tx = tx') ∧
    ∀ r ∈ (signedAfter ids steps).requests, ∀ r' ∈ (signedAfter ids steps).requests,
      r.llmqType = r'.llmqType → r.id = r'.id → r.msgHash = r'.msgHash := by
  have h := votes_signedAfter hcollisions
  refine ⟨h.excludes, fun r hr r' hr' => List.Pairwise.forall_of_forall_of_flip
    (R := fun r r' => ∀ tx ∈ signedTxs steps, ∀ tx' ∈ signedTxs steps, ∀ o, r.IsInputLock ids tx o →
      r'.IsInputLock ids tx' o → tx = tx') ?_ (h.excludes.imp ?_) (h.excludes.imp ?_) hr hr',
    fun r hr r' hr' htype hid => ?_⟩
  · intro r _ tx htx tx' htx' o hlock hlock'
    exact hcollisions.tx tx htx tx' htx' (hlock.2.2.symm.trans hlock'.2.2)
  · exact fun hex tx htx tx' htx' o hlock hlock' => hex tx htx tx' htx' o o hlock hlock'.1 hlock'
  · exact fun hex tx htx tx' htx' o hlock hlock' => (hex tx' htx' tx htx o o hlock' hlock.1 hlock).symm
  · have hvote := h.voted r hr
    rw [htype, hid, h.voted r' hr'] at hvote
    exact (some.inj hvote).symm

end

def toySignEnv (member : Uint256 → Bool) (dip0024 : Bool) : SignEnv ℤ where
  fMasternodeMode := true
  proTxHash := 1
  isInstantSendEnabled := true
  isBlockchainSynced := true
  isInstantSendMempoolSigningEnabled := true
  checkCanLock _ _ := true
  getInstantSendLockByInput _ := none
  dip0024 := dip0024
  dip0024Lock := dip0024
  selectQuorumForSigning _ id := if member id then some ⟨1, 1⟩ else none
  isValidMember _ _ := true
  cycleHash := 0

/-- An output gives the id of its transaction, and a lock the id 0. -/
def toyRequestIds : RequestIds where
  llmqTypeInstantSend := .llmq50_60
  llmqTypeDIP0024InstantSend := .llmq60_75
  hashPrevout o := o.hash
  hashInputs _ := 0

/-- A transaction that spends 5 and 6 is signed for with the old type of quorum, and one that spends 6 and 7 is refused
with the new type. -/
def toySignSteps : List (SignStep ℤ ℤ) :=
  [.processTx (toySignEnv (fun _ => true) false) (toySpender 1 [5, 6]) false,
    .processTx (toySignEnv (fun _ => true) true) (toySpender 2 [6, 7]) true]

theorem inputLocks_exclusive_toySignSteps :
    (signedAfter toyRequestIds toySignSteps).requests = [⟨.llmq50_60, 5, 1⟩, ⟨.llmq50_60, 6, 1⟩] ∧
    (signedAfter toyRequestIds toySignSteps).requests.Pairwise (Excludes toyRequestIds (signedTxs toySignSteps)) := by
  refine ⟨by decide, (inputLocks_exclusive ⟨by decide, fun tx htx tx' htx' => ?_⟩).1⟩
  rintro o ⟨txin, hmem, rfl⟩
  have hids : ∀ tx' ∈ signedTxs toySignSteps, ∀ txin ∈ tx'.vin, (0 : Uint256) ≠ txin.prevout.hash := by decide
  exact hids tx' htx' txin hmem

/-- Requests are handed over for two transactions with a common input, 6: first for a node that is not a member of the
quorum for this input, and then for one that has the recovered signature of this input when the first transaction comes,
and not any more when the second comes. -/
theorem conflicting_inputLocks :
    (signedAfter toyRequestIds ([
      .processTx (toySignEnv (· ≠ 6) false) (toySpender 1 [5, 6]) false,
      .processTx (toySignEnv (· ≠ 6) false) (toySpender 2 [6, 7]) false] : List (SignStep ℤ ℤ))).requests =
        [⟨.llmq50_60, 5, 1⟩, ⟨.llmq50_60, 7, 2⟩] ∧
    (signedAfter toyRequestIds ([
      .writeRecoveredSig ⟨.llmq50_60, 1, 6, 1, some 0⟩ 9,
      .processTx (toySignEnv (fun _ => true) false) (toySpender 1 [5, 6]) false,
      .truncateRecoveredSig .llmq50_60 6,
      .processTx (toySignEnv (fun _ => true) false) (toySpender 2 [6, 7]) false] : List (SignStep ℤ ℤ))).requests =
        [⟨.llmq50_60, 5, 1⟩, ⟨.llmq50_60, 6, 2⟩, ⟨.llmq50_60, 7, 2⟩] := by
  exact ⟨by decide, by decide⟩

end Blocx
