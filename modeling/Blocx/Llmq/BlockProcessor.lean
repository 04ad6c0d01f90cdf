import Blocx.Lib.LruCache
import Blocx.Llmq.QuorumRules

/-!
# The quorum block processor

`CQuorumBlockProcessor` (`llmq/blockprocessor.cpp`): the commitments that blocks carry are checked and recorded when a
block is connected and taken out when it is disconnected, and the ones that come with messages are kept until they are
mined.

A mined commitment has a record under type and base block of the quorum, and a record of the height of the base block
under type and height of the block that carries it, with the index of the quorum for rotated types. The records are in
the evo database, in front of which there is a cache of whether a quorum has a record.

A block is its header and its quorum commitment transactions, each with what `GetTxPayload` reads. The functions return
the processor also when they fail. `QuorumError.invalid` is a block that is rejected, `QuorumError.aborted` a failed
assertion, an exception or a null pointer. The active chain is its tip, `none` while blocks are replayed after a crash.
-/

namespace Blocx

open Function

open Consensus

/-- Why a block is not processed. -/
inductive QuorumError where
  | invalid (reason : String)
  /-- The function returns false and gives no reason. -/
  | failed
  /-- The node stops. -/
  | aborted
  deriving DecidableEq

/-- What the processor reads of a block. -/
structure CommitmentBlock where
  header : CBlockHeader
  /-- Payloads of the quorum commitment transactions, `none` where one cannot be read. -/
  payloads : List (Option CFinalCommitment)
  /-- A commitment that was read has an index only in an indexed version. -/
  read : ∀ qc, some qc ∈ payloads → qc.IndexRead

/-- The commitments that can be read. -/
def CommitmentBlock.commitments (block : CommitmentBlock) : List CFinalCommitment := block.payloads.reduceOption

/-- The records of mined commitments. -/
structure MinedTables where
  /-- Commitment and block by type and base block, `q_mc`. -/
  commitments : LLMQType × Uint256 → Option (CFinalCommitment × Uint256) := fun _ => none
  /-- Height of the base block by type and inversed height, `q_mcih`. -/
  byHeight : LLMQType × ℕ → Option ℤ := fun _ => none
  /-- The same for rotated quorums, with the index, `q_mcihi`. -/
  byHeightIndexed : LLMQType × ℤ × ℕ → Option ℤ := fun _ => none

/-- The height in the keys of `BuildInversedHeightKey` and `BuildInversedHeightKeyIndexed`. -/
def inversedHeight (nMinedHeight : ℤ) : ℕ := ((2 ^ 32 - 1 - nMinedHeight) % 2 ^ 32).toNat

namespace MinedTables

variable (t : MinedTables)

/-- The records with those of a commitment that is mined. -/
def store (rotationEnabled : Bool) (nHeight : ℤ) (blockHash : Uint256) (qc : CFinalCommitment) (baseHeight : ℤ) :
    MinedTables where
  commitments := update t.commitments qc.quorumKey (some (qc, blockHash))
  byHeight :=
    if rotationEnabled then t.byHeight
    else update t.byHeight (qc.llmqType, inversedHeight nHeight) (some baseHeight)
  byHeightIndexed :=
    if rotationEnabled then
      update t.byHeightIndexed (qc.llmqType, qc.quorumIndex.toInt, inversedHeight nHeight) (some baseHeight)
    else t.byHeightIndexed

/-- The records without those of a commitment. -/
def unstore (rotationEnabled : Bool) (nHeight : ℤ) (qc : CFinalCommitment) : MinedTables where
  commitments := update t.commitments qc.quorumKey none
  byHeight :=
    if rotationEnabled then t.byHeight else update t.byHeight (qc.llmqType, inversedHeight nHeight) none
  byHeightIndexed :=
    if rotationEnabled then
      update t.byHeightIndexed (qc.llmqType, qc.quorumIndex.toInt, inversedHeight nHeight) none
    else t.byHeightIndexed

end MinedTables

/-- `CQuorumBlockProcessor`, with the records it keeps in the evo database. -/
structure CQuorumBlockProcessor where
  tables : MinedTables := {}
  bestBlock : Option Uint256 := none
  /-- Hash of the commitment of a quorum that is to be mined. -/
  minableCommitmentsByQuorum : LLMQType × Uint256 → Option Uint256 := fun _ => none
  minableCommitments : Uint256 → Option CFinalCommitment := fun _ => none
  /-- Whether there is a record, a cache for each type. -/
  mapHasMinedCommitmentCache : LLMQType → LruCache Uint256 Bool

/-! ### Heights and base blocks -/

/-- `IsMiningPhase`; `none` where it asserts. -/
def isMiningPhase (active : Option CBlockIndex) (params : QuorumParams) (nHeight : ℤ) : Option Bool :=
  if nHeight ≤ active.elim (-1) (·.nHeight) + 1 then
    some (decide (params.cycleStart nHeight + params.dkgMiningWindowStart ≤ nHeight ∧
      nHeight ≤ params.cycleStart nHeight + params.dkgMiningWindowEnd))
  else none

def QuorumRules.getQuorumBlockHash (rules : QuorumRules) (active : Option CBlockIndex) (params : QuorumParams)
    (nHeight quorumIndex : ℤ) : Uint256 :=
  let nBlockHeight := params.cycleStart nHeight + quorumIndex
  match active with
  | none => 0
  | some tip =>
    match tip.getAncestor (if nBlockHeight = -1 then tip.nHeight else nBlockHeight) with
    | some pindex => rules.getBlockHash pindex.header
    | none => 0

/-- Order of the multimap of commitments: by type, in a type as they came. -/
def emplaceCommitment (ret : List CFinalCommitment) (qc : CFinalCommitment) : List CFinalCommitment :=
  ret.takeWhile (·.llmqType.number ≤ qc.llmqType.number) ++ qc :: ret.dropWhile (·.llmqType.number ≤ qc.llmqType.number)

/-- A turn of the loop of `GetCommitmentsFromBlock`. -/
def QuorumRules.addCommitment (rules : QuorumRules) (pindex : CBlockIndex) (ret : List CFinalCommitment)
    (payload : Option CFinalCommitment) : Except QuorumError (List CFinalCommitment) :=
  match payload with
  | none => .error (.invalid "bad-qc-payload")
  | some qc =>
    match rules.getLLMQParams qc.llmqType with
    | none => .error (.invalid "bad-qc-commitment-type")
    | some params =>
      if !rules.isQuorumRotationEnabled params pindex ∧ ret.any (·.llmqType = qc.llmqType) then
        .error (.invalid "bad-qc-dup")
      else .ok (emplaceCommitment ret qc)

def QuorumRules.getCommitmentsFromBlock (rules : QuorumRules) (block : CommitmentBlock) (pindex : CBlockIndex) :
    Except QuorumError (List CFinalCommitment) := do
  let ret ← block.payloads.foldlM (rules.addCommitment pindex) []
  if pindex.nHeight < rules.DIP0003Height ∧ ret ≠ [] then throw (.invalid "bad-qc-premature")
  return ret

namespace CQuorumBlockProcessor

variable (rules : QuorumRules) (active : Option CBlockIndex) (p : CQuorumBlockProcessor)

/-! ### Mined commitments -/

/-- Whether there is a record of a quorum. -/
def isMined (llmqType : LLMQType) (quorumHash : Uint256) : Bool := (p.tables.commitments (llmqType, quorumHash)).isSome

/-- `HasMinedCommitment`, in one go. -/
def hasMinedCommitment (llmqType : LLMQType) (quorumHash : Uint256) : Bool × CQuorumBlockProcessor :=
  let (fExists, cache) := (p.mapHasMinedCommitmentCache llmqType).getThrough (p.isMined llmqType) quorumHash
  (fExists, { p with
    mapHasMinedCommitmentCache := update p.mapHasMinedCommitmentCache llmqType cache })

/-- A turn of the loop of `GetNumCommitmentsRequired`. -/
def countRequired (params : QuorumParams) (nHeight : ℤ) (s : ℕ × CQuorumBlockProcessor) (quorumIndex : ℕ) :
    ℕ × CQuorumBlockProcessor :=
  let quorumHash := rules.getQuorumBlockHash active params nHeight quorumIndex
  if quorumHash = 0 then s
  else
    let (mined, p) := s.2.hasMinedCommitment params.type quorumHash
    (if mined then s.1 else s.1 + 1, p)

/-- The block by which `GetNumCommitmentsRequired` and `GetMineableCommitments` decide on rotation. -/
def rotationBlock (nHeight : ℤ) : Option CBlockIndex :=
  active.bind fun tip => if tip.nHeight < nHeight then some tip else tip.getAncestor nHeight

/-- Number of quorums of a cycle. -/
def quorumsNum (params : QuorumParams) (pindex : CBlockIndex) : ℕ :=
  if rules.isQuorumRotationEnabled params pindex then params.signingActiveQuorumCount else 1

/-- `GetNumCommitmentsRequired`; `none` where it asserts. -/
def getNumCommitmentsRequired (params : QuorumParams) (nHeight : ℤ) : Option ℕ × CQuorumBlockProcessor :=
  match isMiningPhase active params nHeight, rotationBlock active nHeight with
  | some false, _ => (some 0, p)
  | some true, some pindex =>
    let (ret, p) := (List.range (quorumsNum rules params pindex)).foldl
      (countRequired rules active params nHeight) (0, p)
    (some ret, p)
  | _, _ => (none, p)

/-! ### Commitments to be mined -/

def addMineableCommitment (fqc : CFinalCommitment) : Option CQuorumBlockProcessor :=
  let commitmentHash := rules.serializeHash fqc
  let emplace (m : Uint256 → Option CFinalCommitment) :=
    if (m commitmentHash).isSome then m else update m commitmentHash (some fqc)
  match p.minableCommitmentsByQuorum fqc.quorumKey with
  | none =>
    some { p with
      minableCommitmentsByQuorum := update p.minableCommitmentsByQuorum fqc.quorumKey (some commitmentHash)
      minableCommitments := emplace p.minableCommitments }
  | some oldHash => do
    let oldFqc ← p.minableCommitments oldHash
    if oldFqc.countSigners < fqc.countSigners then
      -- the hash was replaced before the entry is erased, so the entry of the old commitment stays
      return { p with
        minableCommitmentsByQuorum := update p.minableCommitmentsByQuorum fqc.quorumKey (some commitmentHash)
        minableCommitments := emplace (update p.minableCommitments commitmentHash none) }
    else return p

/-! ### Connecting a block -/

/-- The end of `ProcessCommitment`: the records are written and the commitment is not to be mined any more. -/
def storeCommitment (params : QuorumParams) (nHeight : ℤ) (blockHash : Uint256) (qc : CFinalCommitment)
    (pQuorumBaseBlockIndex : CBlockIndex) : CQuorumBlockProcessor where
  tables := p.tables.store (rules.isQuorumRotationEnabled params pQuorumBaseBlockIndex) nHeight blockHash qc
    pQuorumBaseBlockIndex.nHeight
  bestBlock := p.bestBlock
  minableCommitmentsByQuorum := update p.minableCommitmentsByQuorum qc.quorumKey none
  minableCommitments := update p.minableCommitments (rules.serializeHash qc) none
  mapHasMinedCommitmentCache := update p.mapHasMinedCommitmentCache qc.llmqType
    ((p.mapHasMinedCommitmentCache qc.llmqType).erase qc.quorumHash)

def processCommitment (nHeight : ℤ) (blockHash : Uint256) (fJustCheck fBLSChecks : Bool) (qc : CFinalCommitment) :
    Except QuorumError Unit × CQuorumBlockProcessor :=
  match rules.getLLMQParams qc.llmqType with
  | none => (.error .failed, p)
  | some params =>
    let quorumHash :=
      if active.isNone then qc.quorumHash else rules.getQuorumBlockHash active params nHeight qc.quorumIndex.toInt
    if quorumHash = 0 then (.error (.invalid "bad-qc-block"), p)
    else if quorumHash ≠ qc.quorumHash then (.error (.invalid "bad-qc-block"), p)
    else if qc.isNull then
      if !qc.verifyNull rules then (.error (.invalid "bad-qc-invalid-null"), p) else (.ok (), p)
    else
      let (mined, p) := p.hasMinedCommitment params.type quorumHash
      if mined then (.error (.invalid "bad-qc-dup"), p)
      else
        match isMiningPhase active params nHeight with
        | none => (.error .aborted, p)
        | some false => (.error (.invalid "bad-qc-height"), p)
        | some true =>
          match rules.lookupBlockIndex qc.quorumHash with
          | none => (.error .aborted, p)
          | some pQuorumBaseBlockIndex =>
            if !qc.verify rules pQuorumBaseBlockIndex fBLSChecks then (.error (.invalid "bad-qc-invalid"), p)
            else if fJustCheck then (.ok (), p)
            else (.ok (), p.storeCommitment rules params nHeight blockHash qc pQuorumBaseBlockIndex)

/-- The loop of `ProcessBlock` over the commitments. -/
def processCommitments (nHeight : ℤ) (blockHash : Uint256) (fJustCheck fBLSChecks : Bool)
    (p : CQuorumBlockProcessor) : List CFinalCommitment → Except QuorumError Unit × CQuorumBlockProcessor
  | [] => (.ok (), p)
  | qc :: qcs =>
    match p.processCommitment rules active nHeight blockHash fJustCheck fBLSChecks qc with
    | (.ok (), p) => processCommitments nHeight blockHash fJustCheck fBLSChecks p qcs
    | (.error e, p) => (.error e, p)

/-- The loop of `ProcessBlock` over the enabled types. -/
def checkCounts (nHeight : ℤ) (qcs : List CFinalCommitment) (p : CQuorumBlockProcessor) :
    List QuorumParams → Except QuorumError Unit × CQuorumBlockProcessor
  | [] => (.ok (), p)
  | params :: rest =>
    match p.getNumCommitmentsRequired rules active params nHeight with
    | (none, p) => (.error .aborted, p)
    | (some numCommitmentsRequired, p) =>
      let numCommitmentsInNewBlock := qcs.countP (·.llmqType = params.type)
      if numCommitmentsRequired < numCommitmentsInNewBlock then (.error (.invalid "bad-qc-not-allowed"), p)
      else if numCommitmentsInNewBlock < numCommitmentsRequired then (.error (.invalid "bad-qc-missing"), p)
      else checkCounts nHeight qcs p rest

def processBlock (block : CommitmentBlock) (pindex : CBlockIndex) (fJustCheck fBLSChecks : Bool) :
    Except QuorumError Unit × CQuorumBlockProcessor :=
  let blockHash := rules.getBlockHash block.header
  if pindex.nHeight < rules.DIP0003Height then (.ok (), { p with bestBlock := some blockHash })
  else
    match rules.getCommitmentsFromBlock block pindex with
    | .error e => (.error e, p)
    | .ok qcs =>
      -- the counts are not checked while blocks are replayed
      let enabled := if active.isNone then [] else pindex.pprev.elim [] rules.getEnabledQuorumParams
      match p.checkCounts rules active pindex.nHeight qcs enabled with
      | (.error e, p) => (.error e, p)
      | (.ok (), p) =>
        match p.processCommitments rules active pindex.nHeight blockHash fJustCheck fBLSChecks qcs with
        | (.error e, p) => (.error e, p)
        | (.ok (), p) => (.ok (), { p with bestBlock := some blockHash })

/-! ### Disconnecting a block -/

/-- The turn of the loop of `UndoBlock` for a commitment; `none` where it throws or asserts. -/
def undoCommitment (pindex : CBlockIndex) (qc : CFinalCommitment) : Option CQuorumBlockProcessor :=
  if qc.isNull then some p
  else do
    let params ← rules.getLLMQParams qc.llmqType
    let p := { p with
      tables := p.tables.unstore (rules.isQuorumRotationEnabled params pindex) pindex.nHeight qc
      mapHasMinedCommitmentCache := update p.mapHasMinedCommitmentCache qc.llmqType
        ((p.mapHasMinedCommitmentCache qc.llmqType).erase qc.quorumHash) }
    p.addMineableCommitment rules qc

def undoBlock (block : CommitmentBlock) (pindex : CBlockIndex) : Except QuorumError CQuorumBlockProcessor :=
  match rules.getCommitmentsFromBlock block pindex with
  | .error _ => .error .failed
  | .ok qcs =>
    match qcs.foldlM (undoCommitment rules · pindex ·) p with
    | none => .error .aborted
    | some p => .ok { p with bestBlock := pindex.pprev.map fun prev => rules.getBlockHash prev.header }

/-! ### Messages and mining -/

/-- `ProcessMessage` for a commitment that was read. -/
def processMessage (qc : CFinalCommitment) : Option CQuorumBlockProcessor :=
  if qc.isNull then some p
  else
    match rules.getLLMQParams qc.llmqType, rules.lookupBlockIndex qc.quorumHash, active with
    | some params, some pQuorumBaseBlockIndex, some tip =>
      if tip.getAncestor pQuorumBaseBlockIndex.nHeight ≠ some pQuorumBaseBlockIndex then some p
      else if params.cycleStart pQuorumBaseBlockIndex.nHeight + qc.quorumIndex.toInt ≠
        pQuorumBaseBlockIndex.nHeight then
        some p
      else if pQuorumBaseBlockIndex.nHeight < tip.nHeight - params.dkgInterval then some p
      else
        let (mined, p) := p.hasMinedCommitment qc.llmqType qc.quorumHash
        if mined then some p
        else
          let known := (p.minableCommitmentsByQuorum qc.quorumKey).bind p.minableCommitments
          if known.any fun better => better.countSigners ≤ qc.countSigners then some p
          else if !qc.verify rules pQuorumBaseBlockIndex true then some p
          else p.addMineableCommitment rules qc
    | _, _, _ => some p

def nullCommitment (params : QuorumParams) (quorumHash : Uint256) (quorumIndex : ℕ) (nVersion : BitVec 16) :
    CFinalCommitment where
  nVersion := nVersion
  llmqType := params.type
  quorumHash := quorumHash
  quorumIndex := BitVec.ofNat 16 quorumIndex
  signers := List.replicate params.size false
  validMembers := List.replicate params.size false

/-- The loop of `GetMineableCommitments`; `none` where it throws. -/
def collectMineable (params : QuorumParams) (nHeight : ℤ) (nVersion : BitVec 16) (p : CQuorumBlockProcessor) :
    List ℕ → Option (List CFinalCommitment × CQuorumBlockProcessor)
  | [] => some ([], p)
  | quorumIndex :: rest =>
    let quorumHash := rules.getQuorumBlockHash active params nHeight quorumIndex
    if quorumHash = 0 then some ([], p)
    else
      let (mined, p) := p.hasMinedCommitment params.type quorumHash
      if mined then collectMineable params nHeight nVersion p rest
      else do
        let cf ← match p.minableCommitmentsByQuorum (params.type, quorumHash) with
          | none => some (nullCommitment params quorumHash quorumIndex nVersion)
          | some hash => p.minableCommitments hash
        let (ret, p) ← collectMineable params nHeight nVersion p rest
        return (cf :: ret, p)

/-- `GetMineableCommitments`: the commitments for the next block, none where no commitment is required. The outer `none`
is an assertion or an exception. -/
def getMineableCommitments (params : QuorumParams) (nHeight : ℤ) :
    Option (Option (List CFinalCommitment) × CQuorumBlockProcessor) :=
  match p.getNumCommitmentsRequired rules active params nHeight with
  | (none, _) => none
  | (some 0, p) => some (none, p)
  | (some _, p) => do
    let pindex ← rotationBlock active nHeight
    let nVersion :=
      CFinalCommitment.getVersion (rules.isQuorumRotationEnabled params pindex) (rules.isV19Active pindex)
    let (ret, p) ← collectMineable rules active params nHeight nVersion p (List.range (quorumsNum rules params pindex))
    return (if ret.isEmpty then none else some ret, p)

end CQuorumBlockProcessor

end Blocx
