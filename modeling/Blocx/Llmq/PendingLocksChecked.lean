import Blocx.Bls.BatchVerdicts
import Blocx.Llmq.PendingLocks

/-!
# The verification of pending InstantSend locks

What a pass of `ProcessPendingInstantSendLocks` does with a lock. A lock is rightly accepted when its signature verifies
under the key of the quorum that is selected for it, in the current or the previous active set, or when the signing
manager has recovered the signature of its request (`PendingLock.Sound`). The verification loop leaves a lock out when
its peer is known to be bad, when its signature does not decode and when the block of its cycle is not known; such a
lock is not among the bad messages, and the last loop accepts it.

The state of the loop is followed from turn to turn (`Checked`). A pass accepts sound locks only if nothing unsound is
left out (`SafeBatch`): every lock can be checked or is recovered, and no unsound lock comes from a peer that may become
bad before its turn, which happens through another lock that does not decode, or through one that does not verify once
eight locks have come together. The batch verifier is assumed to be right about the messages of the locks
(`ExactLocks`).
-/

namespace Blocx

open List

open PendingLock

open Consensus CBLSBatchVerifier

variable {Sig PubKey : Type} {env : InstantSendEnv Sig PubKey} {llmqParams : LLMQParams} {signOffset : ℤ}
  {lock : PendingLock Sig} {msg : Message Uint256 Sig PubKey} {checks checks' : LockChecks Sig PubKey}

section Locks

variable (env llmqParams signOffset)

/-- The signing manager has a recovered signature for the id and the transaction of the lock. -/
def PendingLock.recovered (lock : PendingLock Sig) : Bool :=
  env.sigman.hasRecoveredSig llmqParams.type (lock.islock.getRequestId env) lock.islock.txid

/-- The message that is verified for a lock. -/
def PendingLock.message (lock : PendingLock Sig) : Option (Message Uint256 Sig PubKey) := do
  let sig ← lock.islock.sig
  let nSignHeight ← lock.islock.nSignHeight env llmqParams
  let id := lock.islock.getRequestId env
  let quorum ← env.selectQuorumForSigning llmqParams id nSignHeight signOffset
  let signHash := env.buildSignHash llmqParams.type quorum.quorumHash id lock.islock.txid
  return ⟨lock.hash, signHash, sig, quorum.quorumPublicKey⟩

/-- The lock carries a signature that verifies under the key of the quorum that is selected for its request id. -/
def PendingLock.verifies (lock : PendingLock Sig) : Bool :=
  (lock.message env llmqParams signOffset).any (·.verifies env.scheme)

/-- The signature decodes, and it is known at which height the quorum is selected. -/
def PendingLock.readable (lock : PendingLock Sig) : Bool :=
  lock.islock.sig.isSome && (lock.islock.nSignHeight env llmqParams).isSome

/-- The lock is one to be verified. -/
def PendingLock.checkable (lock : PendingLock Sig) : Bool :=
  !lock.recovered env llmqParams && lock.readable env llmqParams

/-- The lock is rightly accepted. -/
def PendingLock.Sound (lock : PendingLock Sig) : Prop :=
  lock.verifies env llmqParams 0 ∨ lock.verifies env llmqParams llmqParams.dkgInterval ∨ lock.recovered env llmqParams

variable {env llmqParams signOffset}

section

variable (h : lock.message env llmqParams signOffset = some msg)

include h

lemma PendingLock.msgId_message : msg.msgId = lock.hash := by
  unfold message at h
  simp only [Option.bind_eq_bind, Option.bind_eq_some_iff, Option.pure_def, Option.some.injEq] at h
  obtain ⟨sig, -, nSignHeight, -, quorum, -, rfl⟩ := h
  rfl

lemma PendingLock.readable_of_message : lock.readable env llmqParams := by
  unfold message at h
  simp only [Option.bind_eq_bind, Option.bind_eq_some_iff] at h
  obtain ⟨sig, hsig, nSignHeight, hheight, -⟩ := h
  unfold readable
  rw [hsig, hheight]
  rfl

lemma PendingLock.verifies_of_message : lock.verifies env llmqParams signOffset = msg.verifies env.scheme := by
  unfold verifies
  rw [h]
  rfl

end

lemma PendingLock.not_sound (hrecovered : lock.recovered env llmqParams = false)
    (hreadable : lock.readable env llmqParams = false) : ¬lock.Sound env llmqParams := by
  have hverifies : ∀ signOffset, lock.verifies env llmqParams signOffset = false := by
    intro signOffset
    unfold verifies
    cases hmessage : lock.message env llmqParams signOffset with
    | none => rfl
    | some msg =>
      rw [readable_of_message hmessage] at hreadable
      cases hreadable
  unfold PendingLock.Sound
  rw [hverifies, hverifies, hrecovered]
  simp

end Locks

/-! ### A turn of the verification loop -/

/-- What a turn does with a lock. -/
inductive LockTurn (env : InstantSendEnv Sig PubKey) (llmqParams : LLMQParams) (signOffset : ℤ)
    (checks : LockChecks Sig PubKey) (lock : PendingLock Sig) (checks' : LockChecks Sig PubKey) : Prop where
  /-- The peer is bad already. -/
  | skipped (hbad : lock.nodeId ∈ checks.batchVerifier.badSources) (hchecks : checks' = checks)
  /-- The signature does not decode or the cycle is not known. -/
  | unreadable (hreadable : lock.readable env llmqParams = false)
    (hrecovered : lock.islock.sig = none ∨ lock.recovered env llmqParams = false)
    (hchecks : checks' = checks.addBadSource lock.nodeId)
  /-- The signature has been recovered. -/
  | recovered (hrecovered : lock.recovered env llmqParams) (hchecks : checks' = checks)
  /-- The lock is verified with the others. -/
  | pushed (msg : Message Uint256 Sig PubKey) (hcheckable : lock.checkable env llmqParams)
    (hmessage : lock.message env llmqParams signOffset = some msg)
    (hverifier : checks'.batchVerifier = checks.batchVerifier.pushMessage env.scheme (lock.nodeId, msg))

/-- A turn ends the function only if no quorum is found for a lock that can be checked. -/
lemma checkLock_spec : match checkLock env llmqParams signOffset checks lock with
    | some checks' => LockTurn env llmqParams signOffset checks lock checks'
    | none => lock.checkable env llmqParams ∧ lock.message env llmqParams signOffset = none := by
  unfold checkLock
  split_ifs with hbad
  · exact .skipped hbad rfl
  · cases hsig : lock.islock.sig with
    | none => exact .unreadable (by simp [readable, hsig]) (.inl hsig) rfl
    | some sig =>
      dsimp only
      by_cases hrecovered : env.sigman.hasRecoveredSig llmqParams.type (lock.islock.getRequestId env) lock.islock.txid
      · rw [if_pos hrecovered]
        exact .recovered hrecovered rfl
      · rw [if_neg hrecovered]
        rw [Bool.not_eq_true] at hrecovered
        cases hheight : lock.islock.nSignHeight env llmqParams with
        | none => exact .unreadable (by simp [readable, hheight]) (.inr hrecovered) rfl
        | some nSignHeight =>
          have hcheckable : lock.checkable env llmqParams := by
            rw [checkable, recovered, hrecovered, readable, hsig, hheight]
            rfl
          dsimp only
          cases hquorum : env.selectQuorumForSigning llmqParams (lock.islock.getRequestId env) nSignHeight
            signOffset with
          | none => exact ⟨hcheckable, by simp [message, hsig, hheight, hquorum]⟩
          | some quorum => exact .pushed _ hcheckable (by simp [message, hsig, hheight, hquorum]) rfl

lemma lockTurn_of_checkLock (h : checkLock env llmqParams signOffset checks lock = some checks') :
    LockTurn env llmqParams signOffset checks lock checks' := by
  have hspec := @checkLock_spec _ _ env llmqParams signOffset lock checks
  rw [h] at hspec
  exact hspec

/-- A lock that can be checked is pushed unless its peer is bad. -/
lemma LockTurn.exists_message (h : LockTurn env llmqParams signOffset checks lock checks')
    (hcheckable : lock.checkable env llmqParams) (hgood : lock.nodeId ∉ checks.batchVerifier.badSources) :
    ∃ msg, lock.message env llmqParams signOffset = some msg ∧
      checks'.batchVerifier = checks.batchVerifier.pushMessage env.scheme (lock.nodeId, msg) := by
  obtain ⟨hrecovered, hreadable⟩ := Bool.and_eq_true_iff.mp hcheckable
  rw [Bool.not_eq_true'] at hrecovered
  cases h with
  | skipped hbad => exact absurd hbad hgood
  | unreadable hunreadable =>
    rw [hreadable] at hunreadable
    cases hunreadable
  | recovered hrecovered' =>
    rw [hrecovered] at hrecovered'
    cases hrecovered'
  | pushed msg _ hmessage hverifier => exact ⟨msg, hmessage, hverifier⟩

/-! ### The loop -/

variable {done rest pend : List (PendingLock Sig)} {batch batch' : List (ℤ × Message Uint256 Sig PubKey)} {ban : Bool}
  {hash : Uint256}

/-- A lock makes its peer bad by itself. -/
def PendingLock.Refused (env : InstantSendEnv Sig PubKey) (llmqParams : LLMQParams) (lock : PendingLock Sig) : Prop :=
  lock.readable env llmqParams = false ∧ (lock.islock.sig = none ∨ lock.recovered env llmqParams = false)

/-- A lock is known to verify, known to be bad, or still to be verified. -/
def LockChecks.Holds (env : InstantSendEnv Sig PubKey) (llmqParams : LLMQParams) (signOffset : ℤ)
    (checks : LockChecks Sig PubKey) (batch : List (ℤ × Message Uint256 Sig PubKey)) (lock : PendingLock Sig) : Prop :=
  lock.verifies env llmqParams signOffset ∨ lock.hash ∈ checks.batchVerifier.badMessages ∨
    ∃ msg, lock.message env llmqParams signOffset = some msg ∧ (lock.nodeId, msg) ∈ batch

/-- The state of the loop after some locks, without any that were skipped: `batch` is still to be verified. -/
structure Checked (env : InstantSendEnv Sig PubKey) (llmqParams : LLMQParams) (signOffset : ℤ)
    (done : List (PendingLock Sig)) (checks : LockChecks Sig PubKey)
    (batch : List (ℤ × Message Uint256 Sig PubKey)) : Prop where
  secureVerification : checks.batchVerifier.secureVerification = false
  perMessageFallback : checks.batchVerifier.perMessageFallback
  subBatchSize : checks.batchVerifier.subBatchSize = 8
  collected : Collected checks.batchVerifier batch
  nodup : (batch.map (·.2.msgId)).Nodup
  pushed : ∀ push ∈ batch, ∃ lock ∈ done, lock.checkable env llmqParams ∧ lock.nodeId = push.1 ∧
    lock.message env llmqParams signOffset = some push.2
  badMessages : ∀ hash ∈ checks.batchVerifier.badMessages, ∃ lock ∈ done, lock.hash = hash ∧
    lock.checkable env llmqParams ∧ lock.verifies env llmqParams signOffset = false
  badSources : ∀ s ∈ checks.batchVerifier.badSources, ∃ lock ∈ done, lock.nodeId = s ∧
    (lock.Refused env llmqParams ∨ lock.checkable env llmqParams ∧
      lock.verifies env llmqParams signOffset = false ∧ 8 ≤ done.countP (·.checkable env llmqParams))

lemma checked_nil : Checked env llmqParams signOffset [] ({} : LockChecks Sig PubKey) [] where
  secureVerification := rfl
  perMessageFallback := rfl
  subBatchSize := rfl
  collected := ⟨rfl, rfl⟩
  nodup := nodup_nil
  pushed _ hmem := by cases hmem
  badMessages _ hmem := by cases hmem
  badSources _ hmem := by cases hmem

/-- The verifier is right about the messages of these locks. -/
def ExactLocks (env : InstantSendEnv Sig PubKey) (llmqParams : LLMQParams) (signOffset : ℤ)
    (locks : List (PendingLock Sig)) : Prop :=
  ExactBatches env.scheme false {msg | ∃ lock ∈ locks, lock.message env llmqParams signOffset = some msg}

lemma ExactLocks.of_subset {locks locks' : List (PendingLock Sig)} (h : ExactLocks env llmqParams signOffset locks)
    (hsub : locks' ⊆ locks) : ExactLocks env llmqParams signOffset locks' :=
  ExactBatches.mono h fun _ ⟨lock, hmem, hmessage⟩ => ⟨lock, hsub hmem, hmessage⟩

lemma notMem_done (h : ((done ++ [lock] ++ rest).map (·.hash)).Nodup) : lock.hash ∉ done.map (·.hash) := by
  rw [map_append, map_append, nodup_append', nodup_append'] at h
  exact disjoint_singleton.mp h.1.2.2

/-- Nothing unsound is left out. -/
structure SafeBatch (env : InstantSendEnv Sig PubKey) (llmqParams : LLMQParams) (signOffset : ℤ)
    (pend : List (PendingLock Sig)) : Prop where
  /-- Every lock can be checked, unless its signature has been recovered. -/
  readable : ∀ lock ∈ pend, lock.recovered env llmqParams = false → lock.readable env llmqParams
  /-- The peer of a lock that does not decode sends no unsound locks. -/
  undecodable : ∀ lock ∈ pend, lock.islock.sig = none → ∀ other ∈ pend, other.nodeId = lock.nodeId →
    other.Sound env llmqParams
  /-- If more locks are to be verified than are verified together, the peer of one that does not verify sends no other
  unsound ones. -/
  flushed : 8 < pend.countP (·.checkable env llmqParams) → ∀ lock ∈ pend, lock.checkable env llmqParams →
    lock.verifies env llmqParams signOffset = false → ∀ other ∈ pend, other.hash ≠ lock.hash →
    other.nodeId = lock.nodeId → other.Sound env llmqParams

lemma SafeBatch.of_subperm (h : SafeBatch env llmqParams signOffset pend) {pend' : List (PendingLock Sig)}
    (hsub : pend'.Subperm pend) : SafeBatch env llmqParams signOffset pend' where
  readable lock hmem := h.readable lock (hsub.subset hmem)
  undecodable lock hmem hsig other hother := h.undecodable lock (hsub.subset hmem) hsig other (hsub.subset hother)
  flushed hcount lock hmem hcheckable hfails other hother :=
    h.flushed (hcount.trans_le (hsub.countP_le _)) lock (hsub.subset hmem) hcheckable hfails other (hsub.subset hother)

lemma SafeBatch.checkable (h : SafeBatch env llmqParams signOffset pend) (hmem : lock ∈ pend)
    (hrecovered : lock.recovered env llmqParams = false) : lock.checkable env llmqParams := by
  rw [PendingLock.checkable, hrecovered, h.readable lock hmem hrecovered]
  rfl

section

variable (h : Checked env llmqParams signOffset done checks batch)

include h

/-- A push comes from one of the locks. -/
lemma Checked.exists_lock
    {push : ℤ × Message Uint256 Sig PubKey} (hmem : push ∈ batch) : ∃ lock ∈ done, lock.checkable env llmqParams ∧
      lock.nodeId = push.1 ∧ lock.hash = push.2.msgId ∧
      lock.verifies env llmqParams signOffset = push.2.verifies env.scheme := by
  obtain ⟨lock, hlock, hcheckable, hnode, hmessage⟩ := h.pushed push hmem
  exact ⟨lock, hlock, hcheckable, hnode, (msgId_message hmessage).symm, verifies_of_message hmessage⟩

lemma Checked.mono (lock : PendingLock Sig) : Checked env llmqParams signOffset (done ++ [lock]) checks batch where
  __ := h
  pushed push hmem := by
    obtain ⟨l, hl, hrest⟩ := h.pushed push hmem
    exact ⟨l, mem_append_left _ hl, hrest⟩
  badMessages hash hmem := by
    obtain ⟨l, hl, hrest⟩ := h.badMessages hash hmem
    exact ⟨l, mem_append_left _ hl, hrest⟩
  badSources s hmem := by
    obtain ⟨l, hl, hnode, hrest⟩ := h.badSources s hmem
    refine ⟨l, mem_append_left _ hl, hnode, hrest.imp_right fun hfails => ⟨hfails.1, hfails.2.1, ?_⟩⟩
    rw [countP_append]
    exact hfails.2.2.trans (Nat.le_add_right _ _)

lemma Checked.addBadSource (hmem : lock ∈ done) (hrefused : lock.Refused env llmqParams) :
    Checked env llmqParams signOffset done (checks.addBadSource lock.nodeId) batch where
  __ := h
  collected := ⟨h.collected.messages, h.collected.messagesBySource⟩
  badSources s hs := by
    obtain rfl | hs := Finset.mem_insert.mp hs
    · exact ⟨lock, hmem, rfl, .inl hrefused⟩
    · exact h.badSources s hs

lemma Checked.length_le : batch.length ≤ done.countP (·.checkable env llmqParams) := by
  have hsub : batch.map (·.2.msgId) ⊆ (done.filter (·.checkable env llmqParams)).map (·.hash) := by
    intro hash hmem
    obtain ⟨push, hpush, rfl⟩ := mem_map.mp hmem
    obtain ⟨lock, hlock, hcheckable, -, hhash, -⟩ := h.exists_lock hpush
    exact mem_map.mpr ⟨lock, mem_filter.mpr ⟨hlock, hcheckable⟩, hhash⟩
  have hle := (subperm_of_subset h.nodup hsub).length_le
  rwa [length_map, length_map, ← countP_eq_length_filter] at hle

lemma Checked.exactBatches {locks : List (PendingLock Sig)} (hexact : ExactLocks env llmqParams signOffset locks) :
    ExactBatches env.scheme checks.batchVerifier.secureVerification
      {msg | ∃ lock ∈ locks, lock.message env llmqParams signOffset = some msg} := by
  rw [h.secureVerification]
  exact hexact

section

variable (hexact : ExactLocks env llmqParams signOffset done)

include hexact

lemma Checked.mem_badMessages_verify :
    hash ∈ (checks.batchVerifier.verify env.scheme).badMessages ↔ hash ∈ checks.batchVerifier.badMessages ∨
      ∃ push ∈ batch, push.2.msgId = hash ∧ push.2.verifies env.scheme = false := by
  refine (h.collected.verify_exact h.perMessageFallback (h.exactBatches hexact) ?_ h.nodup).2 hash
  intro push hpush
  obtain ⟨l, hl, -, -, hmsg⟩ := h.pushed push hpush
  exact ⟨l, hl, hmsg⟩

/-- What is found bad could be checked and does not verify. -/
lemma Checked.exists_bad (hbad : hash ∈ (checks.batchVerifier.verify env.scheme).badMessages) :
    ∃ lock ∈ done, lock.hash = hash ∧ lock.checkable env llmqParams ∧
      lock.verifies env llmqParams signOffset = false := by
  obtain hbad | ⟨push, hmem, rfl, hfails⟩ := (h.mem_badMessages_verify hexact).mp hbad
  · exact h.badMessages hash hbad
  · obtain ⟨lock, hlock, hcheckable, -, hhash, hverifies⟩ := h.exists_lock hmem
    exact ⟨lock, hlock, hhash, hcheckable, hverifies.trans hfails⟩

end

section

variable (hexact : ExactLocks env llmqParams signOffset (done ++ [lock])) (hnew : lock.hash ∉ done.map (·.hash))

include hexact hnew

lemma Checked.push (hcheckable : lock.checkable env llmqParams)
    (hmessage : lock.message env llmqParams signOffset = some msg)
    (hverifier : checks'.batchVerifier = checks.batchVerifier.pushMessage env.scheme (lock.nodeId, msg)) :
    if batch.length + 1 ≥ 8 then
      Checked env llmqParams signOffset (done ++ [lock]) checks' [] ∧
      (∀ s, s ∈ checks'.batchVerifier.badSources ↔ s ∈ checks.batchVerifier.badSources ∨
        ∃ push ∈ batch ++ [(lock.nodeId, msg)], push.1 = s ∧ push.2.verifies env.scheme = false) ∧
      ∀ hash, hash ∈ checks'.batchVerifier.badMessages ↔ hash ∈ checks.batchVerifier.badMessages ∨
        ∃ push ∈ batch ++ [(lock.nodeId, msg)], push.2.msgId = hash ∧ push.2.verifies env.scheme = false
    else Checked env llmqParams signOffset (done ++ [lock]) checks' (batch ++ [(lock.nodeId, msg)]) ∧
      checks'.batchVerifier.badSources = checks.batchVerifier.badSources ∧
      checks'.batchVerifier.badMessages = checks.batchVerifier.badMessages := by
  have hmono := h.mono lock
  have hpushed : ∀ push ∈ batch ++ [(lock.nodeId, msg)], ∃ l ∈ done ++ [lock], l.checkable env llmqParams ∧
      l.nodeId = push.1 ∧ l.message env llmqParams signOffset = some push.2 := by
    rw [forall_mem_append, forall_mem_singleton]
    exact ⟨hmono.pushed, lock, mem_append_right _ (mem_singleton_self lock), hcheckable, rfl, hmessage⟩
  have hknown : ∀ push ∈ batch ++ [(lock.nodeId, msg)], push.2 ∈
      {msg | ∃ l ∈ done ++ [lock], l.message env llmqParams signOffset = some msg} := by
    intro push hpush
    obtain ⟨l, hl, -, -, hmsg⟩ := hpushed push hpush
    exact ⟨l, hl, hmsg⟩
  have hnodup : ((batch ++ [(lock.nodeId, msg)]).map (·.2.msgId)).Nodup := by
    rw [map_append, map_singleton, msgId_message hmessage, nodup_append']
    refine ⟨h.nodup, nodup_singleton _, disjoint_singleton.mpr fun hmem => hnew ?_⟩
    obtain ⟨push, hpush, heq⟩ := mem_map.mp hmem
    obtain ⟨l, hl, -, -, hhash, -⟩ := h.exists_lock hpush
    exact mem_map.mpr ⟨l, hl, hhash.trans heq⟩
  obtain ⟨hsecure, hfallback, hsize, hverified, hkept⟩ := h.collected.pushMessage_exact h.perMessageFallback
    (h.exactBatches hexact) hknown hnodup
  rw [← hverifier] at hsecure hfallback hsize hverified hkept
  simp only [h.subBatchSize, ne_eq, OfNat.ofNat_ne_zero, not_false_eq_true, true_and] at hverified hkept
  split_ifs with hfull
  · obtain ⟨hcollected, hsources, hmessages⟩ := hverified hfull
    refine ⟨⟨hsecure.trans h.secureVerification, hfallback.trans h.perMessageFallback, hsize.trans h.subBatchSize,
      hcollected, nodup_nil, fun _ hmem => absurd hmem not_mem_nil, fun hash hhash => ?_, fun s hs => ?_⟩,
      hsources, hmessages⟩
    · obtain hhash | ⟨push, hpush, rfl, hfails⟩ := (hmessages hash).mp hhash
      · exact hmono.badMessages hash hhash
      · obtain ⟨l, hl, hl', -, hmsg⟩ := hpushed push hpush
        exact ⟨l, hl, (msgId_message hmsg).symm, hl', (verifies_of_message hmsg).trans hfails⟩
    · obtain hs | ⟨push, hpush, rfl, hfails⟩ := (hsources s).mp hs
      · exact hmono.badSources s hs
      · obtain ⟨l, hl, hl', hnode, hmsg⟩ := hpushed push hpush
        refine ⟨l, hl, hnode, .inr ⟨hl', (verifies_of_message hmsg).trans hfails, ?_⟩⟩
        -- the eight locks have been looked at
        rw [countP_append, countP_singleton, if_pos hcheckable]
        exact hfull.le.trans (Nat.add_le_add_right h.length_le 1)
  · obtain ⟨hcollected, hsources, hmessages⟩ := hkept hfull
    refine ⟨⟨hsecure.trans h.secureVerification, hfallback.trans h.perMessageFallback, hsize.trans h.subBatchSize,
      hcollected, hnodup, hpushed, ?_, ?_⟩, hsources, hmessages⟩
    · rw [hmessages]
      exact hmono.badMessages
    · rw [hsources]
      exact hmono.badSources

/-- A turn of the loop. A lock that is not held was left out. -/
lemma Checked.turn (hturn : LockTurn env llmqParams signOffset checks lock checks') :
    ∃ batch', Checked env llmqParams signOffset (done ++ [lock]) checks' batch' ∧
      (∀ l, checks.Holds env llmqParams signOffset batch l → checks'.Holds env llmqParams signOffset batch' l) ∧
      (checks'.Holds env llmqParams signOffset batch' lock ∨ lock.recovered env llmqParams ∨
        lock.Refused env llmqParams ∨ lock.nodeId ∈ checks.batchVerifier.badSources) := by
  cases hturn with
  | skipped hbad hchecks =>
    subst hchecks
    exact ⟨batch, h.mono lock, fun _ => id, .inr (.inr (.inr hbad))⟩
  | unreadable hreadable hrecovered hchecks =>
    subst hchecks
    have hrefused : lock.Refused env llmqParams := ⟨hreadable, hrecovered⟩
    exact ⟨batch, (h.mono lock).addBadSource (mem_append_right _ (mem_singleton_self lock)) hrefused,
      fun _ => id, .inr (.inr (.inl hrefused))⟩
  | recovered hrecovered hchecks =>
    subst hchecks
    exact ⟨batch, h.mono lock, fun _ => id, .inr (.inl hrecovered)⟩
  | pushed msg hcheckable hmessage hverifier =>
    have hpush := h.push hexact hnew hcheckable hmessage hverifier
    split_ifs at hpush with hfull
    · obtain ⟨hchecked, -, hmessages⟩ := hpush
      have hholds : ∀ l : PendingLock Sig, ∀ m, l.message env llmqParams signOffset = some m →
          (l.nodeId, m) ∈ batch ++ [(lock.nodeId, msg)] → checks'.Holds env llmqParams signOffset [] l := by
        intro l m hm hmem
        cases hverifies : m.verifies env.scheme with
        | true => exact .inl ((verifies_of_message hm).trans hverifies)
        | false =>
          exact .inr (.inl ((hmessages _).mpr (.inr ⟨_, hmem, msgId_message hm, hverifies⟩)))
      refine ⟨[], hchecked, ?_, .inl (hholds lock msg hmessage (mem_append_right _ (mem_singleton_self _)))⟩
      rintro l (hverifies | hbad | ⟨m, hm, hmem⟩)
      · exact .inl hverifies
      · exact .inr (.inl ((hmessages _).mpr (.inl hbad)))
      · exact hholds l m hm (mem_append_left _ hmem)
    · obtain ⟨hchecked, -, hmessages⟩ := hpush
      refine ⟨_, hchecked, ?_, .inl (.inr (.inr ⟨msg, hmessage, mem_append_right _ (mem_singleton_self _)⟩))⟩
      rintro l (hverifies | hbad | ⟨m, hm, hmem⟩)
      · exact .inl hverifies
      · exact .inr (.inl (hmessages ▸ hbad))
      · exact .inr (.inr ⟨m, hm, mem_append_left _ hmem⟩)

end

lemma Checked.sound_of_skipped (hsafe : SafeBatch env llmqParams signOffset (done ++ lock :: rest))
    (hnew : lock.hash ∉ done.map (·.hash))
    (hbad : lock.nodeId ∈ checks.batchVerifier.badSources) : lock.Sound env llmqParams := by
  obtain ⟨l, hl, hnode, ⟨hreadable, hsig | hrecovered⟩ | ⟨hcheckable, hfails, hcount⟩⟩ :=
    h.badSources _ hbad
  · exact hsafe.undecodable l (mem_append_left _ hl) hsig lock (mem_append_cons_self ..) hnode.symm
  · rw [hsafe.readable l (mem_append_left _ hl) hrecovered] at hreadable
    cases hreadable
  · cases hrecovered : lock.recovered env llmqParams with
    | true => exact .inr (.inr hrecovered)
    | false =>
      have hlock := hsafe.checkable (mem_append_cons_self ..) hrecovered
      refine hsafe.flushed ?_ l (mem_append_left _ hl) hcheckable hfails lock (mem_append_cons_self ..)
        (fun heq => hnew (mem_map.mpr ⟨l, hl, heq.symm⟩)) hnode.symm
      rw [countP_append, countP_cons, if_pos hlock]
      omega

/-- The whole loop. Over a safe batch, what is not held is sound. -/
lemma Checked.run
    (hexact : ExactLocks env llmqParams signOffset (done ++ rest)) (hnodup : ((done ++ rest).map (·.hash)).Nodup)
    (hrun : rest.foldlM (checkLock env llmqParams signOffset) checks = some checks') :
    ∃ batch', Checked env llmqParams signOffset (done ++ rest) checks' batch' ∧
      (SafeBatch env llmqParams signOffset (done ++ rest) →
        (∀ l ∈ done, l.Sound env llmqParams ∨ checks.Holds env llmqParams signOffset batch l) →
        ∀ l ∈ done ++ rest, l.Sound env llmqParams ∨ checks'.Holds env llmqParams signOffset batch' l) := by
  induction rest generalizing done checks batch with
  | nil =>
    obtain rfl : checks = checks' := Option.some.inj hrun
    rw [append_nil]
    exact ⟨batch, h, fun _ => id⟩
  | cons lock rest ih =>
    rw [foldlM_cons, Option.bind_eq_bind, Option.bind_eq_some_iff] at hrun
    obtain ⟨checks₁, hturn, hrun⟩ := hrun
    rw [append_cons] at hexact hnodup
    have hnew : lock.hash ∉ done.map (·.hash) := notMem_done hnodup
    obtain ⟨batch₁, h₁, hholds, hlock⟩ :=
      h.turn (hexact.of_subset (subset_append_left ..)) hnew (lockTurn_of_checkLock hturn)
    obtain ⟨batch', h', hall⟩ := ih h₁ hexact hnodup hrun
    rw [← append_cons] at h' hall
    refine ⟨batch', h', fun hsafe hdone => hall hsafe ?_⟩
    rw [forall_mem_append, forall_mem_singleton]
    refine ⟨fun l hl => (hdone l hl).imp_right (hholds l), ?_⟩
    obtain hheld | hrecovered | ⟨hreadable, hsig | hrecovered⟩ | hbad := hlock
    · exact .inr hheld
    · exact .inl (.inr (.inr hrecovered))
    · exact .inl (hsafe.undecodable lock (mem_append_cons_self ..) hsig lock (mem_append_cons_self ..) rfl)
    · rw [hsafe.readable lock (mem_append_cons_self ..) hrecovered] at hreadable
      cases hreadable
    · exact .inl (h.sound_of_skipped hsafe hnew hbad)

end

/-! ### A pass -/

/-- The locks that a pass accepts. -/
lemma mem_calls_verify :
    .processInstantSendLock lock ∈ (verifyPendingInstantSendLocks env llmqParams signOffset pend ban).1 ↔
      lock ∈ pend ∧ ∃ checks, pend.foldlM (checkLock env llmqParams signOffset) {} = some checks ∧
        lock.hash ∉ (checks.batchVerifier.verify env.scheme).badMessages := by
  unfold verifyPendingInstantSendLocks
  cases hrun : pend.foldlM (checkLock env llmqParams signOffset) ({} : LockChecks Sig PubKey) with
  | none => simp
  | some checks =>
    have hbanned : ∀ nodeIds : List ℤ, LockCall.processInstantSendLock lock ∉
        nodeIds.map fun nodeId => LockCall.misbehaving nodeId 20 := by
      intro nodeIds hmem
      obtain ⟨nodeId, -, heq⟩ := mem_map.mp hmem
      cases heq
    have haccept : ∀ l : PendingLock Sig, LockCall.processInstantSendLock lock ∈
        acceptLock env llmqParams checks.recSigs l ↔ lock = l := by
      intro l
      unfold acceptLock
      split
      · simp
      · split_ifs <;> simp
    rw [mem_append, or_iff_right (by split_ifs <;> simp [hbanned]), mem_flatMap]
    simp only [haccept, exists_eq_right', mem_filter, decide_eq_true_eq, Option.some.injEq, exists_eq_left']

/-- The locks that a pass finds bad. -/
lemma mem_bad_verify : hash ∈ (verifyPendingInstantSendLocks env llmqParams signOffset pend ban).2 ↔
      ∃ lock ∈ pend, lock.hash = hash ∧ ∃ checks, pend.foldlM (checkLock env llmqParams signOffset) {} = some checks ∧
        hash ∈ (checks.batchVerifier.verify env.scheme).badMessages := by
  unfold verifyPendingInstantSendLocks
  cases hrun : pend.foldlM (checkLock env llmqParams signOffset) ({} : LockChecks Sig PubKey) with
  | none => simp
  | some checks =>
    simp only [mem_map, mem_filter, decide_eq_true_eq, Option.some.injEq, exists_eq_left']
    constructor
    · rintro ⟨lock, ⟨hmem, hbad⟩, rfl⟩
      exact ⟨lock, hmem, rfl, hbad⟩
    · rintro ⟨lock, hmem, rfl, hbad⟩
      exact ⟨lock, ⟨hmem, hbad⟩, rfl⟩

variable (hexact : ExactLocks env llmqParams signOffset pend) (hnodup : (pend.map (·.hash)).Nodup)
  (h : SafeBatch env llmqParams signOffset pend)

include hexact hnodup

lemma fails_of_mem_bad
    (hbad : lock.hash ∈ (verifyPendingInstantSendLocks env llmqParams signOffset pend ban).2) (hmem : lock ∈ pend) :
    lock.checkable env llmqParams ∧ lock.verifies env llmqParams signOffset = false := by
  obtain ⟨-, -, -, checks, hrun, hbad⟩ := mem_bad_verify.mp hbad
  obtain ⟨batch, h, -⟩ := checked_nil.run hexact hnodup hrun
  obtain ⟨l, hl, hhash, hfails⟩ := h.exists_bad hexact hbad
  obtain rfl : l = lock := inj_on_of_nodup_map hnodup hl hmem hhash
  exact hfails

include h

/-- A pass over a safe batch accepts sound locks only. -/
lemma SafeBatch.sound
    (hoffset : ∀ lock : PendingLock Sig, lock.verifies env llmqParams signOffset → lock.Sound env llmqParams)
    (hcall : .processInstantSendLock lock ∈ (verifyPendingInstantSendLocks env llmqParams signOffset pend ban).1) :
    lock ∈ pend ∧ lock.Sound env llmqParams := by
  obtain ⟨hmem, checks, hrun, hgood⟩ := mem_calls_verify.mp hcall
  obtain ⟨batch, hchecked, hall⟩ := checked_nil.run hexact hnodup hrun
  refine ⟨hmem, (hall h nofun lock hmem).elim id ?_⟩
  rintro (hverifies | hbad | ⟨msg, hmessage, hpush⟩)
  · exact hoffset lock hverifies
  · exact absurd ((hchecked.mem_badMessages_verify hexact).mpr (.inl hbad)) hgood
  · cases hverifies : msg.verifies env.scheme with
    | true => exact hoffset lock ((verifies_of_message hmessage).trans hverifies)
    | false =>
      exact absurd ((hchecked.mem_badMessages_verify hexact).mpr
        (.inr ⟨_, hpush, msgId_message hmessage, hverifies⟩)) hgood

lemma SafeBatch.filter_bad {offset : ℤ} : SafeBatch env llmqParams offset (pend.filter fun lock =>
      lock.hash ∈ (verifyPendingInstantSendLocks env llmqParams signOffset pend ban).2) := by
  obtain ⟨hreadable, hundecodable, hflushed⟩ := h.of_subperm filter_sublist.subperm
  refine ⟨hreadable, hundecodable, fun hcount l hl hcheckable _ => hflushed hcount l hl hcheckable ?_⟩
  obtain ⟨hmem, hbad⟩ := mem_filter.mp hl
  exact (fails_of_mem_bad hexact hnodup (of_decide_eq_true hbad) hmem).2

end Blocx
