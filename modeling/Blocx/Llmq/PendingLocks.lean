import Blocx.Bls.BatchVerifier
import Blocx.Llmq.RecoveredSigs
import Blocx.Primitives.Transaction
import Mathlib.Data.Finset.Sort

/-!
# Pending InstantSend locks

`CInstantSendManager::ProcessPendingInstantSendLocks` (`llmq/instantsend.cpp`). At most 32 of the locks that peers have
sent are taken at a time. They are verified together against the quorums of the current active set; those that are found
bad are verified once more against the previous active set, and now the peers that sent bad ones are punished. Every
lock that is not found bad is processed.

What the function reads of the rest of the node (the chain, the quorums, the signing manager) does not change while it
runs and is given by `InstantSendEnv`. Its effects on the rest are the calls it makes, in their order.
-/

namespace Blocx

open Consensus

variable {Sig PubKey : Type}

structure CInstantSendLock (Sig : Type) where
  /-- 0 for a lock of the old format, 1 for a deterministic one. -/
  nVersion : BitVec 8
  inputs : List COutPoint
  /-- The transaction that may spend them. -/
  txid : Uint256
  /-- Block that the cycle of the quorums begins with, of a deterministic lock. -/
  cycleHash : Uint256
  /-- The signature, `none` when its bytes do not decode. -/
  sig : Option Sig
  deriving DecidableEq

def CInstantSendLock.isDeterministic (islock : CInstantSendLock Sig) : Bool := islock.nVersion ≠ 0

/-- An entry of `pendingInstantSendLocks`. -/
structure PendingLock (Sig : Type) where
  hash : Uint256
  nodeId : ℤ
  islock : CInstantSendLock Sig
  deriving DecidableEq

/-- `CQuorum`, with the part of its commitment that is used to verify. -/
structure CQuorum (PubKey : Type) where
  quorumHash : Uint256
  quorumPublicKey : PubKey

/-- The rest of the node, as `CInstantSendManager` reads it. -/
structure InstantSendEnv (Sig PubKey : Type) where
  isInstantSendEnabled : Bool
  /-- `GetLLMQParams(utils::GetInstantSendLLMQType(deterministic))`. -/
  getLLMQParams : Bool → LLMQParams
  /-- `LookupBlockIndex`, the height of a block that is known. -/
  lookupBlockIndex : Uint256 → Option ℤ
  height : ℤ
  /-- `CSigningManager::SelectQuorumForSigning`, by request id, height and offset. -/
  selectQuorumForSigning : LLMQParams → Uint256 → ℤ → ℤ → Option (CQuorum PubKey)
  /-- The hash that `CInstantSendLock::GetRequestId` takes of the inputs. -/
  hashInputs : List COutPoint → Uint256
  buildSignHash : LLMQType → Uint256 → Uint256 → Uint256 → Uint256
  /-- The store of the signing manager. -/
  sigman : CRecoveredSigsDb Sig
  scheme : BlsScheme Sig PubKey

/-- What is called for a batch of locks. -/
inductive LockCall (Sig : Type) where
  | misbehaving (nodeId howmuch : ℤ)
  | processInstantSendLock (lock : PendingLock Sig)
  | pushReconstructedRecoveredSig (recSig : CRecoveredSig Sig)
  deriving DecidableEq

variable (env : InstantSendEnv Sig PubKey)

def CInstantSendLock.getRequestId (islock : CInstantSendLock Sig) : Uint256 := env.hashInputs islock.inputs

variable (llmqParams : LLMQParams) (signOffset : ℤ)

/-! ### Verification -/

def CInstantSendLock.nSignHeight (islock : CInstantSendLock Sig) : Option ℤ :=
  if islock.isDeterministic then
    match env.lookupBlockIndex islock.cycleHash with
    | none => none
    | some nHeight =>
      if nHeight + llmqParams.dkgInterval < env.height then some (nHeight + llmqParams.dkgInterval - 1)
      else some (-1)
  else some (-1)

/-- What the first loop has collected. -/
structure LockChecks (Sig PubKey : Type) where
  /-- `batchVerifier`, which verifies the locks eight by eight. -/
  batchVerifier : CBLSBatchVerifier ℤ Uint256 Sig PubKey :=
    { secureVerification := false, perMessageFallback := true, subBatchSize := 8 }
  /-- `recSigs`, by the hash of the lock. -/
  recSigs : List (Uint256 × CRecoveredSig Sig) := []

def LockChecks.addBadSource (checks : LockChecks Sig PubKey) (nodeId : ℤ) : LockChecks Sig PubKey :=
  { checks with
    batchVerifier := { checks.batchVerifier with badSources := insert nodeId checks.batchVerifier.badSources } }

/-- A turn of the first loop. It is `none` when the function returns because no quorum is found. -/
def checkLock (checks : LockChecks Sig PubKey) (lock : PendingLock Sig) : Option (LockChecks Sig PubKey) :=
  if lock.nodeId ∈ checks.batchVerifier.badSources then some checks
  else
    match lock.islock.sig with
    | none => some (checks.addBadSource lock.nodeId)
    | some sig =>
      let id := lock.islock.getRequestId env
      if env.sigman.hasRecoveredSig llmqParams.type id lock.islock.txid then some checks
      else
        match lock.islock.nSignHeight env llmqParams with
        | none => some (checks.addBadSource lock.nodeId)
        | some nSignHeight =>
          match env.selectQuorumForSigning llmqParams id nSignHeight signOffset with
          | none => none
          | some quorum =>
            let signHash := env.buildSignHash llmqParams.type quorum.quorumHash id lock.islock.txid
            some {
              batchVerifier := checks.batchVerifier.pushMessage env.scheme
                (lock.nodeId, ⟨lock.hash, signHash, sig, quorum.quorumPublicKey⟩)
              recSigs :=
                if env.sigman.hasRecoveredSigForId llmqParams.type id then checks.recSigs
                else checks.recSigs ++
                  [(lock.hash, ⟨llmqParams.type, quorum.quorumHash, id, lock.islock.txid, lock.islock.sig⟩)] }

/-- A turn of the last loop, for a lock that is not bad. -/
def acceptLock (recSigs : List (Uint256 × CRecoveredSig Sig)) (lock : PendingLock Sig) : List (LockCall Sig) :=
  .processInstantSendLock lock ::
    match recSigs.lookup lock.hash with
    | none => []
    | some recSig =>
      if env.sigman.hasRecoveredSigForId llmqParams.type recSig.id then []
      else [.pushReconstructedRecoveredSig recSig]

/-- The overload of `ProcessPendingInstantSendLocks` that verifies the locks of `pend`, in the order in which it
iterates over them: the calls it makes, and `badISLocks`. -/
def verifyPendingInstantSendLocks (pend : List (PendingLock Sig)) (ban : Bool) : List (LockCall Sig) × List Uint256 :=
  match pend.foldlM (checkLock env llmqParams signOffset) ({} : LockChecks Sig PubKey) with
  | none => ([], [])
  | some checks =>
    let batchVerifier := checks.batchVerifier.verify env.scheme
    let banned : List (LockCall Sig) :=
      if ban then (batchVerifier.badSources.sort (· ≤ ·)).map fun nodeId => .misbehaving nodeId 20 else []
    let good := pend.filter fun lock => lock.hash ∉ batchVerifier.badMessages
    (banned ++ good.flatMap (acceptLock env llmqParams checks.recSigs),
      (pend.filter fun lock => lock.hash ∈ batchVerifier.badMessages).map (·.hash))

/-! ### Selection -/

/-- Locks that are processed at a time. -/
def maxCount : ℕ := 32

/-- The loop that fills `pend` with the locks of a kind, and whether it left before the end. -/
def selectPending (deterministic : Bool) (pend : List (PendingLock Sig)) :
    List (PendingLock Sig) → List (PendingLock Sig) × Bool
  | [] => (pend, false)
  | lock :: pending =>
    if pend.length ≥ maxCount then (pend, true)
    else if lock.islock.isDeterministic ≠ deterministic then selectPending deterministic pend pending
    else selectPending deterministic (pend ++ [lock]) pending

/-- What `ProcessPendingInstantSendLocks` leaves. -/
structure PendingResult (Sig : Type) where
  calls : List (LockCall Sig)
  pending : List (PendingLock Sig)
  fMoreWork : Bool

/-- `ProcessPendingInstantSendLocks`, for the locks of a kind. The pending locks are in the order in which the map is
iterated over, and `order` is the order of the new map that is filled with some of them. -/
def processPendingInstantSendLocks (order : List (PendingLock Sig) → List (PendingLock Sig)) (deterministic : Bool)
    (pending : List (PendingLock Sig)) : PendingResult Sig :=
  if !env.isInstantSendEnabled then ⟨[], pending, false⟩
  else
    let (pend, fMoreWork) := selectPending deterministic [] pending
    let pending := pending.filter fun lock => lock.hash ∉ pend.map (·.hash)
    if pend.isEmpty then ⟨[], pending, false⟩
    else
      let llmqParams := env.getLLMQParams deterministic
      let pend := order pend
      -- first against the current active set, without a ban
      let (calls, badISLocks) := verifyPendingInstantSendLocks env llmqParams 0 pend false
      if badISLocks.isEmpty then ⟨calls, pending, fMoreWork⟩
      else
        let pend := pend.filter fun lock => lock.hash ∈ badISLocks
        let (calls', _) := verifyPendingInstantSendLocks env llmqParams llmqParams.dkgInterval pend true
        ⟨calls ++ calls', pending, fMoreWork⟩

end Blocx
