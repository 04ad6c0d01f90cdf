import Blocx.Llmq.PendingLocks

/-!
# Signing input locks

How a masternode comes to sign for InstantSend. `ProcessTx` (`llmq/instantsend.cpp`) asks the quorums to sign an input
lock for each input of a transaction, and the lock of the transaction once all input locks are there. A request goes
through `CSigningManager::AsyncSignIfMember` (`llmq/signing.cpp`), which records a vote and hands the request to
`CSigSharesManager::AsyncSign`; there is one vote for each id and type of quorum.

What the functions read of the rest of the node differs from call to call and is given by `SignEnv`. The ids of requests
are hashes and are given by `RequestIds`.
-/

namespace Blocx

open Consensus

variable {Sig PubKey : Type}

/-- The consensus parameters for InstantSend and the hashes that make ids of requests. -/
structure RequestIds where
  llmqTypeInstantSend : LLMQType
  llmqTypeDIP0024InstantSend : LLMQType
  /-- `SerializeHash(std::make_pair(INPUTLOCK_REQUESTID_PREFIX, prevout))`. -/
  hashPrevout : COutPoint → Uint256
  /-- The hash that `CInstantSendLock::GetRequestId` takes of the inputs. -/
  hashInputs : List COutPoint → Uint256

/-- The rest of the node, as it is during a call. -/
structure SignEnv (PubKey : Type) where
  fMasternodeMode : Bool
  /-- `activeMasternodeInfo.proTxHash`. -/
  proTxHash : Uint256
  isInstantSendEnabled : Bool
  isBlockchainSynced : Bool
  isInstantSendMempoolSigningEnabled : Bool
  /-- `CheckCanLock`, of an output that a transaction spends. -/
  checkCanLock : COutPoint → Uint256 → Bool
  getInstantSendLockByInput : COutPoint → Option Uint256
  /-- Whether the quorums of the new type are in use, when input locks are signed. -/
  dip0024 : Bool
  /-- The same, when the lock of the transaction is signed. -/
  dip0024Lock : Bool
  selectQuorumForSigning : LLMQType → Uint256 → Option (CQuorum PubKey)
  isValidMember : CQuorum PubKey → Uint256 → Bool
  /-- Hash of the block that the current cycle begins with. -/
  cycleHash : Uint256

/-- What is called of `CSigSharesManager`. -/
inductive ShareCall where
  | forceReAnnouncement (llmqType : LLMQType) (id msgHash : Uint256)
  /-- `AsyncSign`: a request is handed over. -/
  | asyncSign (llmqType : LLMQType) (id msgHash : Uint256)
  deriving DecidableEq

/-- The part of the signing manager and the InstantSend manager that signing is about. -/
structure SigningState (Sig : Type) where
  db : CRecoveredSigsDb Sig := {}
  inputRequestIds : Finset Uint256 := ∅
  creatingInstantSendLocks : Uint256 → Option (CInstantSendLock Sig) := fun _ => none
  /-- The id of the lock that is being made for a transaction. -/
  txToCreatingInstantSendLocks : Uint256 → Option Uint256 := fun _ => none
  /-- The calls that were made, the last one at the end. -/
  calls : List ShareCall := []

def RequestIds.getInstantSendLLMQType (ids : RequestIds) (dip0024 : Bool) : LLMQType :=
  if dip0024 then ids.llmqTypeDIP0024InstantSend else ids.llmqTypeInstantSend

/-! ### The signing manager -/

def CRecoveredSigsDb.isConflicting (db : CRecoveredSigsDb Sig) (llmqType : LLMQType) (id msgHash : Uint256) : Bool :=
  db.hasRecoveredSigForId llmqType id && !db.hasRecoveredSig llmqType id msgHash

namespace SigningState

variable (env : SignEnv PubKey) (ids : RequestIds)

/-- The end of `AsyncSignIfMember`: the vote is recorded and the request handed over. -/
def handOver (s : SigningState Sig) (llmqType : LLMQType) (id msgHash : Uint256) (allowReSign : Bool) :
    SigningState Sig :=
  { s with
    db := if s.db.hasVotedOnId llmqType id then s.db else s.db.writeVoteForId llmqType id msgHash
    calls := s.calls ++ (if allowReSign then [.forceReAnnouncement llmqType id msgHash] else []) ++
      [.asyncSign llmqType id msgHash] }

def asyncSignIfMember (s : SigningState Sig) (llmqType : LLMQType) (id msgHash : Uint256) (allowReSign : Bool) :
    Bool × SigningState Sig :=
  if !env.fMasternodeMode || env.proTxHash = 0 then (false, s)
  else
    match env.selectQuorumForSigning llmqType id with
    | none => (false, s)
    | some quorum =>
      if !env.isValidMember quorum env.proTxHash then (false, s)
      else
        match s.db.getVoteForId llmqType id with
        | some prevMsgHash =>
          if msgHash ≠ prevMsgHash then (false, s)
          else if !allowReSign then (false, s)
          else if s.db.hasRecoveredSigForId llmqType id then (true, s)
          else (true, s.handOver llmqType id msgHash allowReSign)
        | none =>
          if s.db.hasRecoveredSigForId llmqType id then (true, s)
          else (true, s.handOver llmqType id msgHash allowReSign)

/-! ### The InstantSend manager -/

/-- The first loop of `TrySignInputLocks`: the number of inputs with a vote, or `none` when it returns because an input
is voted for or recovered for another transaction. -/
def countVotes (db : CRecoveredSigsDb Sig) (txHash : Uint256) : List CTxIn → Option ℕ
  | [] => some 0
  | txin :: vin =>
    let id := ids.hashPrevout txin.prevout
    let vote := (db.getVoteForId ids.llmqTypeDIP0024InstantSend id).or (db.getVoteForId ids.llmqTypeInstantSend id)
    if vote.any fun otherTxHash => otherTxHash ≠ txHash then none
    else if db.isConflicting ids.llmqTypeDIP0024InstantSend id txHash ||
        db.isConflicting ids.llmqTypeInstantSend id txHash then none
    else (countVotes db txHash vin).map fun count => if vote.isSome then count + 1 else count

/-- A turn of the second loop of `TrySignInputLocks`. -/
def signInput (llmqType : LLMQType) (txHash : Uint256) (fRetroactive : Bool) (s : SigningState Sig) (txin : CTxIn) :
    SigningState Sig :=
  let id := ids.hashPrevout txin.prevout
  let s := { s with inputRequestIds := insert id s.inputRequestIds }
  (s.asyncSignIfMember env llmqType id txHash fRetroactive).2

def trySignInputLocks (s : SigningState Sig) (tx : CTransaction) (fRetroactive : Bool) (llmqType : LLMQType) :
    Bool × SigningState Sig :=
  match countVotes ids s.db tx.hash tx.vin with
  | none => (false, s)
  | some alreadyVotedCount =>
    if !fRetroactive && alreadyVotedCount = tx.vin.length then (true, s)
    else (true, tx.vin.foldl (signInput env ids llmqType tx.hash fRetroactive) s)

def trySignInstantSendLock (s : SigningState Sig) (tx : CTransaction) : SigningState Sig :=
  let llmqType := ids.getInstantSendLLMQType env.dip0024Lock
  if !tx.vin.all fun txin => s.db.hasRecoveredSig llmqType (ids.hashPrevout txin.prevout) tx.hash then s
  else
    let nVersion := if llmqType = ids.llmqTypeDIP0024InstantSend then 1 else 0
    let islock : CInstantSendLock Sig := {
      nVersion := nVersion
      inputs := tx.vin.map (·.prevout)
      txid := tx.hash
      cycleHash := if nVersion ≠ 0 then env.cycleHash else 0
      sig := none }
    let id := ids.hashInputs islock.inputs
    if s.db.hasRecoveredSigForId llmqType id then s
    else
      match s.creatingInstantSendLocks id with
      | some _ => s
      | none =>
        let s := { s with
          creatingInstantSendLocks := Function.update s.creatingInstantSendLocks id (some islock)
          txToCreatingInstantSendLocks :=
            match s.txToCreatingInstantSendLocks tx.hash with
            | some _ => s.txToCreatingInstantSendLocks
            | none => Function.update s.txToCreatingInstantSendLocks tx.hash (some id) }
        (s.asyncSignIfMember env llmqType id tx.hash false).2

def processTx (s : SigningState Sig) (tx : CTransaction) (fRetroactive : Bool) : SigningState Sig :=
  if !env.fMasternodeMode || !env.isInstantSendEnabled || !env.isBlockchainSynced then s
  else if ids.llmqTypeInstantSend = .none || ids.llmqTypeDIP0024InstantSend = .none then s
  else if tx.vin.isEmpty || !tx.vin.all fun txin => env.checkCanLock txin.prevout tx.hash then s
  else if tx.vin.any fun txin => (env.getInstantSendLockByInput txin.prevout).any fun txid => txid ≠ tx.hash then s
  else if !env.isInstantSendMempoolSigningEnabled && !fRetroactive then s
  else
    match s.trySignInputLocks env ids tx fRetroactive (ids.getInstantSendLLMQType env.dip0024) with
    | (false, s) => s
    | (true, s) => s.trySignInstantSendLock env ids tx

end SigningState

end Blocx
