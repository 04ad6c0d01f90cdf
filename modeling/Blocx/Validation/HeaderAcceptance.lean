import Blocx.Chain.VersionBits
import Blocx.Pow.CheckProofOfWork
import Blocx.Pow.NextWork

/-!
# Accepting block headers

The path a new header takes through `validation.cpp`: `CheckBlockHeader` for its work, `ContextualCheckBlockHeader`
against the chain it builds on, and `BlockManager::AcceptBlockHeader`, which looks both up in the block map, refuses
descendants of failed blocks and of blocks that conflict with a chain lock, and enters the header.

`acceptBlockHeader_ok` says once what acceptance of a new header implies. The algorithm that checked the work is chosen
by the header's own version, and nothing on the path ties that version to the height (`acceptBlockHeader_algorithm`);
only the miner consults the schedule of `ComputeBlockVersion`.
-/

namespace Blocx

open List

open Consensus CBlockHeader

/-! ### Parameters and node state -/

/-- The part of `CChainParams` that header acceptance reads. -/
structure CChainParams where
  consensus : Params
  isMain : Bool
  hashGenesisBlock : Uint256
  /-- Hash of the genesis block of a devnet; null elsewhere. -/
  hashDevnetGenesisBlock : Uint256
  /-- Checkpoints, by ascending height. -/
  mapCheckpoints : List (ℤ × Uint256)

/-- `CMainParams`. -/
def mainChainParams : CChainParams where
  consensus := mainParams
  isMain := true
  hashGenesisBlock := 0x000000fd77883d82808c84b94839f98aaf7f8abae61afb8d5b771f982f19fe74
  hashDevnetGenesisBlock := 0
  mapCheckpoints := [
   (0, 0x000000fd77883d82808c84b94839f98aaf7f8abae61afb8d5b771f982f19fe74),
   (1259, 0x0000000000001a2503b3554b600e9662ea49d84525b26ed43bb870aafb6a6802),
   (4475, 0x00000000000000fb0561802ea9acc46b70fe78e405024d8f08b013f37b177799),
   (10825, 0x00000000000000196faa0cdf00e25c9c7220bfcdc9e2873367526ed8476d7a88),
   (14426, 0x000000000000000b05cb80e138a7c9c3fc2faa640e9c67c3ae1a4e31e394cf09),
   (16154, 0x000000000000016fb125e52e9e667f05a3f9a61a21b49e5b65ef084fc3be1bab),
   (17077, 0x000000000000000793dc563cd63596c5f067d736f5ee39df4aa5f76cd895bba4),
   (25654, 0x00000000000000742ef0fd1bff12241390219ae9cacb091556d1c7202874fc00),
   (38412, 0x00000000000000175230dfb2e5a5e5745f5b680781fd5ad39050ebd051286944),
   (51482, 0x0000000000000013a9360cb82a8c060b2aafd9040139220092a7109e38626c60),
   (62541, 0x0000000000000050fd89facd5f17a48b70d188d899483eb0ab5b14cc6e67ece5),
   (74985, 0x000000000000004cfec6a72a8770d741a06b02532851c46a9e8a587433406f06),
   (85330, 0x000000000000002e87c0b53d5ce7ea2d27b794330076d2a03555d46cfc46d973),
   (90281, 0x000000000000001ce9851e375bc022afb673ad82882a2fb1caa1479e1b7c92fd),
   (95194, 0x000000000000002518c37c688a48aaddcdb6db52ab3a19c9efdf7bb70ee82ae8),
   (105982, 0x00000000000000346ab712877f448237b46f267640d8a1236424d7e0f259dbe4),
   (116245, 0x00000000000000ca4d36e028c595592cb123d517f00b8151cd1c6ea41bdd8914),
   (125469, 0x0000000000000055930a30f28b37e4ac702d1594a198d04cf2e362adf5bb990c),
   (134962, 0x0000000000000077dc834c1e9cd3a77df65cb6e0c8501a9aca969913d9bea351),
   (140865, 0x00000000000000219d7778c35f4feb67bda8b0024f54fb004078c3ebe90d16f7),
   (145107, 0x000000000000002ea096d79ed3680e8d94a97a050a6c7c5294c0d8efa5b9b5f3),
   (146200, 0x000000000000001e05ffd1d6d25b683e0bc9fb81af258ec4e0ec049c42b0892c)]

/-- `BlockStatus`, without the flags for stored data. -/
structure BlockStatus where
  /-- The validity level, `nStatus & BLOCK_VALID_MASK`. -/
  valid : ℕ := 0
  failedValid : Bool := false
  failedChild : Bool := false
  conflictChainlock : Bool := false
  deriving DecidableEq

/-- `nStatus & BLOCK_FAILED_MASK`. -/
def BlockStatus.failed (s : BlockStatus) : Bool := s.failedValid || s.failedChild

def blockValidTree : ℕ := 2

def blockValidScripts : ℕ := 5

def BlockStatus.isValid (s : BlockStatus) (nUpTo : ℕ) : Bool := !s.failed && nUpTo ≤ s.valid

/-- An entry of the block map. -/
structure BlockMapEntry where
  pindex : CBlockIndex
  nStatus : BlockStatus
  deriving DecidableEq

structure BlockManager where
  /-- `m_block_index`, by block hash. -/
  blockIndex : Uint256 → Option BlockMapEntry
  /-- `m_failed_blocks`, as block hashes. -/
  failedBlocks : List Uint256

/-- What header acceptance reads of the rest of the node. -/
structure NodeContext where
  adjustedTime : ℤ
  fCheckpointsEnabled : Bool
  hasConflictingChainLock : ℤ → Uint256 → Bool

/-! ### Checks -/

def checkBlockHeader (hash : HashFunctions) (block : CBlockHeader) (chainparams : CChainParams) : Except String Unit :=
  if !checkProofOfWork hash chainparams.consensus block (block.getHash hash) block.nBits then .error "high-hash"
  else if chainparams.hashDevnetGenesisBlock ≠ 0 ∧ block.hashPrevBlock = chainparams.hashGenesisBlock ∧
      block.getHash hash ≠ chainparams.hashDevnetGenesisBlock then .error "devnet-genesis"
  else .ok ()

/-- `ConvertBitsToDouble`, without the rounding of the source's doubles. A target without a mantissa does not pass the
proof-of-work check. -/
def convertBitsToDouble (nBits : BitVec 32) : ℚ :=
  let nShift : ℤ := (nBits >>> 24).toNat
  (0x0000ffff : ℚ) / ((nBits &&& 0x00ffffff).toNat : ℚ) * (256 : ℚ) ^ (29 - nShift)

def getLastCheckpoint (mgr : BlockManager) (checkpoints : List (ℤ × Uint256)) : Option CBlockIndex :=
  checkpoints.reverse.findSome? fun checkpoint => (mgr.blockIndex checkpoint.2).map BlockMapEntry.pindex

def maxFutureBlockTime : ℤ := 2 * 60 * 60

/-- The target a header states agrees with the required one: on the early main network up to half of its difficulty. -/
def diffBitsOk (chainparams : CChainParams) (pindexPrev : CBlockIndex) (block : CBlockHeader) : Bool :=
  let nBitsNext := getNextWorkRequired pindexPrev block chainparams.consensus
  if chainparams.isMain ∧ pindexPrev.nHeight + 1 ≤ 68589 then
    let n1 := convertBitsToDouble block.nBits
    let n2 := convertBitsToDouble nBitsNext
    ¬|n1 - n2| > n1 * (1 / 2)
  else block.nBits = nBitsNext

def contextualCheckBlockHeader (mgr : BlockManager) (block : CBlockHeader) (chainparams : CChainParams)
    (ctx : NodeContext) (pindexPrev : CBlockIndex) : Except String Unit :=
  let nHeight := pindexPrev.nHeight + 1
  let pcheckpoint := getLastCheckpoint mgr chainparams.mapCheckpoints
  if !diffBitsOk chainparams pindexPrev block then .error "bad-diffbits"
  else if ctx.fCheckpointsEnabled ∧ pcheckpoint.any (fun p => nHeight < p.nHeight) then
    .error "bad-fork-prior-to-checkpoint"
  else if (block.nTime.toNat : ℤ) ≤ pindexPrev.getMedianTimePast then .error "time-too-old"
  else if (block.nTime.toNat : ℤ) > ctx.adjustedTime + maxFutureBlockTime then .error "time-too-new"
  else if (block.nVersion.toInt < 2 ∧ nHeight ≥ chainparams.consensus.BIP34Height) ∨
      (block.nVersion.toInt < 3 ∧ nHeight ≥ chainparams.consensus.BIP66Height) ∨
      (block.nVersion.toInt < 4 ∧ nHeight ≥ chainparams.consensus.BIP65Height) then
    .error ("bad-version(0x" ++ String.ofList (Hex.hexStr (Wire.put block.nVersion).reverse) ++ ")")
  else .ok ()

/-! ### Acceptance -/

namespace BlockManager

/-- `AddToBlockIndex`: a known header is left alone, a new one builds on its parent. -/
def addToBlockIndex (hash : HashFunctions) (mgr : BlockManager) (block : CBlockHeader) (conflictChainlock : Bool) :
    BlockManager :=
  let h := block.getHash hash
  match mgr.blockIndex h with
  | some _ => mgr
  | none =>
    let pindex := match mgr.blockIndex block.hashPrevBlock with
      | some prev => prev.pindex.child block
      | none => ⟨block, []⟩
    let nStatus : BlockStatus := { valid := blockValidTree, conflictChainlock }
    { mgr with blockIndex := Function.update mgr.blockIndex h (some ⟨pindex, nStatus⟩) }

/-- The failed block that a header would descend from, looked for unless its parent is known to be fully valid. -/
def failedAncestor (hash : HashFunctions) (mgr : BlockManager) (prev : BlockMapEntry) : Option Uint256 :=
  if prev.nStatus.isValid blockValidScripts then none
  else mgr.failedBlocks.find? fun failed => (mgr.blockIndex failed).any fun entry =>
    (prev.pindex.getAncestor entry.pindex.nHeight).any fun p => p.header.getHash hash = failed

/-- The walk that marks the blocks between a parent and its failed ancestor. -/
def markFailedChildren (hash : HashFunctions) (mgr : BlockManager) (pindexPrev : CBlockIndex) (failed : Uint256) :
    BlockManager :=
  let walk := (pindexPrev.chain.map fun h => h.getHash hash).takeWhile (· ≠ failed)
  { mgr with blockIndex := fun h => (mgr.blockIndex h).map fun entry =>
      if h ∈ walk then { entry with nStatus := { entry.nStatus with failedChild := true } } else entry }

end BlockManager

variable {block : CBlockHeader} {pindexPrev : CBlockIndex}

section Accept

variable (hash : HashFunctions) (chainparams : CChainParams) (ctx : NodeContext)

/-- `AcceptBlockHeader`, for a header that is not known, once its parent has been found. -/
def acceptOnto (mgr : BlockManager) (block : CBlockHeader) (prev : BlockMapEntry) : Except String Unit × BlockManager :=
  if prev.nStatus.failed then (.error "bad-prevblk", mgr)
  else if prev.nStatus.conflictChainlock then (.error "bad-prevblk-chainlock", mgr)
  else match contextualCheckBlockHeader mgr block chainparams ctx prev.pindex with
    | .error reason => (.error reason, mgr)
    | .ok () =>
      match mgr.failedAncestor hash prev with
      | some failed => (.error "bad-prevblk", mgr.markFailedChildren hash prev.pindex failed)
      | none =>
        if ctx.hasConflictingChainLock (prev.pindex.nHeight + 1) (block.getHash hash) then
          (.error "bad-chainlock", mgr.addToBlockIndex hash block true)
        else (.ok (), mgr.addToBlockIndex hash block false)

/-- `BlockManager::AcceptBlockHeader`: the verdict and the block map it leaves. -/
def acceptBlockHeader (mgr : BlockManager) (block : CBlockHeader) : Except String Unit × BlockManager :=
  let h := block.getHash hash
  if h ≠ chainparams.hashGenesisBlock then
    match mgr.blockIndex h with
    | some entry =>
      if entry.nStatus.failed ∨ entry.nStatus.conflictChainlock then (.error "duplicate", mgr) else (.ok (), mgr)
    | none =>
      match checkBlockHeader hash block chainparams with
      | .error reason => (.error reason, mgr)
      | .ok () =>
        match mgr.blockIndex block.hashPrevBlock with
        | none => (.error "prev-blk-not-found", mgr)
        | some prev => acceptOnto hash chainparams ctx mgr block prev
  else (.ok (), mgr.addToBlockIndex hash block false)

variable {hash : HashFunctions} {chainparams : CChainParams} {ctx : NodeContext} {mgr mgr' : BlockManager}
  {prev : BlockMapEntry}

/-- What acceptance of a new header means. -/
structure AcceptedOnto (hash : HashFunctions) (chainparams : CChainParams) (ctx : NodeContext) (mgr : BlockManager)
    (block : CBlockHeader) (prev : BlockMapEntry) : Prop where
  parent : mgr.blockIndex block.hashPrevBlock = some prev
  /-- The header passed the check of its work. -/
  header : checkBlockHeader hash block chainparams = .ok ()
  /-- The header passed the checks against its chain. -/
  contextual : contextualCheckBlockHeader mgr block chainparams ctx prev.pindex = .ok ()
  notFailed : prev.nStatus.failed = false
  noConflict : prev.nStatus.conflictChainlock = false
  noFailedAncestor : mgr.failedAncestor hash prev = none
  noChainLock : ctx.hasConflictingChainLock (prev.pindex.nHeight + 1) (block.getHash hash) = false

lemma acceptOnto_ok (hprev : mgr.blockIndex block.hashPrevBlock = some prev)
    (hheader : checkBlockHeader hash block chainparams = .ok ())
    (h : acceptOnto hash chainparams ctx mgr block prev = (.ok (), mgr')) :
    AcceptedOnto hash chainparams ctx mgr block prev ∧ mgr' = mgr.addToBlockIndex hash block false := by
  unfold acceptOnto at h
  rcases Bool.eq_false_or_eq_true prev.nStatus.failed with hfailed | hfailed
  · simp [hfailed] at h
  rcases Bool.eq_false_or_eq_true prev.nStatus.conflictChainlock with hconflict | hconflict
  · simp [hfailed, hconflict] at h
  cases hctx : contextualCheckBlockHeader mgr block chainparams ctx prev.pindex with
  | error reason => simp [hfailed, hconflict, hctx] at h
  | ok _ =>
    cases hanc : mgr.failedAncestor hash prev with
    | some failed => simp [hfailed, hconflict, hctx, hanc] at h
    | none =>
      rcases Bool.eq_false_or_eq_true (ctx.hasConflictingChainLock (prev.pindex.nHeight + 1) (block.getHash hash))
        with hlock | hlock
      · simp [hfailed, hconflict, hctx, hanc, hlock] at h
      · simp only [hfailed, hconflict, hctx, hanc, hlock, Bool.false_eq_true, if_false] at h
        exact ⟨⟨hprev, hheader, hctx, hfailed, hconflict, hanc, hlock⟩, (Prod.mk.inj h).2.symm⟩

/-- **Acceptance of a new header**: every check was made and passed, and the header is entered below its parent. -/
lemma acceptBlockHeader_ok (hgenesis : block.getHash hash ≠ chainparams.hashGenesisBlock)
    (hnew : mgr.blockIndex (block.getHash hash) = none)
    (h : acceptBlockHeader hash chainparams ctx mgr block = (.ok (), mgr')) :
    ∃ prev, AcceptedOnto hash chainparams ctx mgr block prev ∧ mgr' = mgr.addToBlockIndex hash block false := by
  simp only [acceptBlockHeader, if_pos hgenesis, hnew] at h
  cases hheader : checkBlockHeader hash block chainparams with
  | error reason => simp [hheader] at h
  | ok _ =>
    cases hprev : mgr.blockIndex block.hashPrevBlock with
    | none => simp [hheader, hprev] at h
    | some prev =>
      simp only [hheader, hprev] at h
      exact ⟨prev, acceptOnto_ok hprev hheader h⟩

/-- The checks, made and passed, are also enough. -/
lemma AcceptedOnto.acceptBlockHeader_eq (h : AcceptedOnto hash chainparams ctx mgr block prev)
    (hgenesis : block.getHash hash ≠ chainparams.hashGenesisBlock) (hnew : mgr.blockIndex (block.getHash hash) = none) :
    acceptBlockHeader hash chainparams ctx mgr block = (.ok (), mgr.addToBlockIndex hash block false) := by
  simp only [acceptBlockHeader, acceptOnto, if_pos hgenesis, hnew, h.header, h.parent, h.notFailed, h.noConflict,
    h.contextual, h.noFailedAncestor, h.noChainLock, Bool.false_eq_true, if_false]

/-- A header that passed `CheckBlockHeader` passed `CheckProofOfWork` on its own hash and target. -/
lemma checkProofOfWork_of_checkBlockHeader (h : checkBlockHeader hash block chainparams = .ok ()) :
    checkProofOfWork hash chainparams.consensus block (block.getHash hash) block.nBits = true := by
  unfold checkBlockHeader at h
  split_ifs at h with hpow
  simpa using hpow

/-- What `ContextualCheckBlockHeader` guarantees. -/
structure ContextualHeader (mgr : BlockManager) (block : CBlockHeader) (chainparams : CChainParams)
    (ctx : NodeContext) (pindexPrev : CBlockIndex) : Prop where
  diffBits : diffBitsOk chainparams pindexPrev block = true
  /-- The header does not fork off before the last known checkpoint. -/
  checkpoint : ctx.fCheckpointsEnabled = true →
    ∀ p ∈ getLastCheckpoint mgr chainparams.mapCheckpoints, p.nHeight ≤ pindexPrev.nHeight + 1
  notTooOld : pindexPrev.getMedianTimePast < block.nTime.toNat
  notTooNew : (block.nTime.toNat : ℤ) ≤ ctx.adjustedTime + maxFutureBlockTime
  /-- Outdated versions are refused. -/
  version : chainparams.consensus.BIP65Height ≤ pindexPrev.nHeight + 1 → 4 ≤ block.nVersion.toInt

lemma contextualHeader_of_ok (h : contextualCheckBlockHeader mgr block chainparams ctx pindexPrev = .ok ()) :
    ContextualHeader mgr block chainparams ctx pindexPrev := by
  unfold contextualCheckBlockHeader at h
  dsimp only at h
  split_ifs at h with hbits hcheck hold hfuture hversion
  refine ⟨by simpa using hbits, ?_, not_le.mp hold, not_lt.mp hfuture, ?_⟩
  · intro hen p hp
    by_contra hlt
    refine hcheck ⟨hen, ?_⟩
    rw [Option.mem_def.mp hp, Option.any_some]
    exact decide_eq_true (not_le.mp hlt)
  · intro hheight
    by_contra hlt
    exact hversion (Or.inr (Or.inr ⟨not_le.mp hlt, hheight⟩))

end Accept

/-! ### Runs of header acceptance -/

section

variable (hash : HashFunctions) (chainparams : CChainParams) {ctx : NodeContext} {mgr : BlockManager}

/-- A chain of headers from the genesis block, each of which names its parent by its hash and passed both checks. -/
inductive HeaderChain : CBlockIndex → Prop where
  | genesis {block : CBlockHeader} (hblock : block.getHash hash = chainparams.hashGenesisBlock) :
    HeaderChain ⟨block, []⟩
  | child {mgr : BlockManager} {ctx : NodeContext} {block : CBlockHeader} {p : CBlockIndex} (h : HeaderChain p)
    (hprev : p.header.getHash hash = block.hashPrevBlock) (hwork : checkBlockHeader hash block chainparams = .ok ())
    (hcontext : contextualCheckBlockHeader mgr block chainparams ctx p = .ok ()) : HeaderChain (p.child block)

/-- The entries of the block map stand under their hashes and end such chains. The genesis block comes first. -/
structure HeadersOk (mgr : BlockManager) : Prop where
  entry : ∀ h e, mgr.blockIndex h = some e → e.pindex.header.getHash hash = h ∧ HeaderChain hash chainparams e.pindex
  root : mgr.blockIndex chainparams.hashGenesisBlock = none → ∀ h, mgr.blockIndex h = none

/-- A call of `AcceptBlockHeader`, with what the node is like at the time. -/
structure HeaderCall where
  /-- Clock, checkpoints and chain locks. -/
  ctx : NodeContext
  failedBlocks : List Uint256
  block : CBlockHeader

/-- The block map after a call. -/
def HeaderCall.run (mgr : BlockManager) (call : HeaderCall) : BlockManager :=
  (acceptBlockHeader hash chainparams call.ctx { mgr with failedBlocks := call.failedBlocks } call.block).2

variable {hash chainparams} (h : HeadersOk hash chainparams mgr)

include h

/-- A header is entered on top of a chain, or for the genesis block. -/
lemma HeadersOk.addToBlockIndex (hparent : block.getHash hash = chainparams.hashGenesisBlock ∨ ∃ prev,
      mgr.blockIndex block.hashPrevBlock = some prev ∧ HeaderChain hash chainparams (prev.pindex.child block))
    (conflictChainlock : Bool) : HeadersOk hash chainparams (mgr.addToBlockIndex hash block conflictChainlock) := by
  unfold BlockManager.addToBlockIndex
  dsimp only
  split
  · exact h
  next hnew =>
    constructor
    · intro h' e he
      simp only [Function.update_apply] at he
      split_ifs at he with hself
      · obtain rfl := Option.some.inj he
        rcases hparent with hgenesis | ⟨prev, hprev, hchain⟩
        · rw [h.root (hgenesis ▸ hnew)]
          exact ⟨hself.symm, .genesis hgenesis⟩
        · rw [hprev]
          exact ⟨hself.symm, hchain⟩
      · exact h.entry h' e he
    · intro hnone
      simp only [Function.update_apply] at hnone
      split_ifs at hnone with hself
      obtain ⟨prev, hprev, -⟩ := hparent.resolve_left fun hgenesis => hself hgenesis.symm
      cases (h.root hnone _).symm.trans hprev

/-- A call keeps the chains. -/
lemma HeadersOk.acceptBlockHeader : HeadersOk hash chainparams
    (acceptBlockHeader hash chainparams ctx mgr block).2 := by
  unfold Blocx.acceptBlockHeader
  dsimp only
  split_ifs with hgenesis
  · split
    · split_ifs <;> exact h
    split
    · exact h
    next hwork =>
      split
      · exact h
      next prev hprev =>
        unfold acceptOnto
        split
        · exact h
        split
        · exact h
        split
        · exact h
        next hcontext =>
          obtain ⟨hhash, hchain⟩ := h.entry _ _ hprev
          have hadd := h.addToBlockIndex (.inr ⟨prev, hprev, hchain.child hhash hwork hcontext⟩)
          split
          · -- the marks leave the chains as they are
            constructor
            · intro h' e he
              obtain ⟨e', he', rfl⟩ := Option.map_eq_some_iff.mp he
              split_ifs <;> exact h.entry h' e' he'
            · intro hnone h'
              exact Option.map_eq_none_iff.mpr (h.root (Option.map_eq_none_iff.mp hnone) h')
          · split_ifs <;> exact hadd _
  · exact h.addToBlockIndex (.inl (not_not.mp hgenesis)) _

omit h in
/-- Whatever headers come, and whatever the clock, the checkpoints, the chain locks and the failed blocks are at the
time of each call, the block map has only chains of headers from the genesis block. -/
theorem blockIndex_chains (hash : HashFunctions) (chainparams : CChainParams) (calls : List HeaderCall) :
    HeadersOk hash chainparams (calls.foldl (HeaderCall.run hash chainparams)
      { blockIndex := fun _ => none, failedBlocks := [] }) := by
  refine foldlRecOn calls _ ⟨fun _ _ he => ?_, fun _ _ => rfl⟩ fun mgr h call _ => ?_
  · cases he
  · -- the failed blocks have no part in the chains
    have hcall : HeadersOk hash chainparams { mgr with failedBlocks := call.failedBlocks } := ⟨h.entry, h.root⟩
    exact hcall.acceptBlockHeader

end

/-! ### The algorithm and the schedule -/

def versionBitsTopBits : BitVec 32 := 0x20000000

/-- `ComputeBlockVersion`, the loop: a deployment that is signalling or agreed upon sets its bit. -/
def signalDeployment (nVersion : BitVec 32) (deployment : ThresholdState × ℕ) : BitVec 32 :=
  if deployment.1 = .lockedIn ∨ deployment.1 = .started then nVersion ||| (1 <<< deployment.2) else nVersion

def computeBlockVersion (params : Params) (pindexPrev : Option CBlockIndex)
    (deployments : List (ThresholdState × ℕ)) : BitVec 32 :=
  if pindexPrev.all fun p => p.nHeight < params.AutolykosForkHeight then
    deployments.foldl signalDeployment versionBitsTopBits
  else BitVec.ofInt 32 params.AutolykosForkSwitchVersion

lemma topBit_foldl (deployments : List (ThresholdState × ℕ)) {v : BitVec 32} (hv : v.getLsbD 29 = true) :
    (deployments.foldl signalDeployment v).getLsbD 29 = true := by
  induction deployments generalizing v with
  | nil => exact hv
  | cons d ds ih =>
    apply ih
    unfold signalDeployment
    split_ifs
    · rw [BitVec.getLsbD_or, hv, Bool.true_or]
    · exact hv

/-- The miner's schedule: Autolykos exactly on top of the fork height and above. -/
lemma computeBlockVersion_eq_iff {deployments : List (ThresholdState × ℕ)} :
    computeBlockVersion mainParams (some pindexPrev) deployments = autolykosVersion ↔
      mainParams.AutolykosForkHeight ≤ pindexPrev.nHeight := by
  have htop : versionBitsTopBits.getLsbD 29 = true := by decide
  have hfive : autolykosVersion.getLsbD 29 = false := by decide
  unfold computeBlockVersion
  rw [Option.all_some]
  by_cases hh : pindexPrev.nHeight < mainParams.AutolykosForkHeight
  · rw [if_pos (decide_eq_true hh)]
    constructor
    · intro heq
      have hbit := topBit_foldl deployments htop
      rw [heq, hfive] at hbit
      cases hbit
    · intro hle
      exact absurd hh (Int.not_lt.mpr hle)
  · rw [if_neg (by simpa using hh)]
    exact ⟨fun _ => Int.not_lt.mp hh, fun _ => rfl⟩

/-- **The algorithm follows the version.** On the main network a new header that is accepted has at least version 4;
one of version `0x05` had its Autolykos solution validated, any other its X11 hash compared with a target in range. The
height of the parent plays no part. -/
theorem acceptBlockHeader_algorithm (hash : HashFunctions) (ctx : NodeContext) (mgr mgr' : BlockManager)
    (block : CBlockHeader) (hgenesis : block.getHash hash ≠ mainChainParams.hashGenesisBlock)
    (hnew : mgr.blockIndex (block.getHash hash) = none)
    (h : acceptBlockHeader hash mainChainParams ctx mgr block = (.ok (), mgr')) :
    (∃ prev, mgr.blockIndex block.hashPrevBlock = some prev) ∧ 4 ≤ block.nVersion.toInt ∧
      (block.nVersion = autolykosVersion →
        AutolykosPowScheme.validate hash (block.autolykosHeader 0x05 block.nBits) = true) ∧
      (block.nVersion ≠ autolykosVersion →
        TargetInRange mainParams block.nBits ∧ (Uint256.setCompact block.nBits).value ≠ 0 ∧
          hash.hashX11 block.serialize ≤ (Uint256.setCompact block.nBits).value) := by
  obtain ⟨prev, hacc, -⟩ := acceptBlockHeader_ok hgenesis hnew h
  have hpow : checkProofOfWork hash mainParams block (block.getHash hash) block.nBits = true :=
    checkProofOfWork_of_checkBlockHeader hacc.header
  have hversion := toInt_nVersion_iff (show mainParams.AutolykosForkSwitchVersion = 5 from rfl) block
  refine ⟨⟨prev, hacc.parent⟩, ?_, ?_, ?_⟩
  · apply (contextualHeader_of_ok hacc.contextual).version
    have hheight := prev.pindex.nHeight_nonneg
    have hbip : mainChainParams.consensus.BIP65Height = 1 := rfl
    omega
  · intro h5
    rw [checkProofOfWork, if_neg (not_not_intro (hversion.mpr h5))] at hpow
    exact hpow
  · intro h5
    rw [← getHash_of_ne hash h5]
    exact (checkProofOfWork_x11 (fun hc => h5 (hversion.mp hc)) _).mp hpow

/-! ### A chain up to the fork -/

/-- Hash functions for a long chain: the X11 hash of a header is its `nNonce`, and every hit is zero. -/
def chainHash : HashFunctions where
  hashX11 := toyHash.hashX11
  blake2b256 := zeroHash.blake2b256

def chainHeader (height : ℕ) : CBlockHeader where
  nVersion := 4
  hashPrevBlock := BitVec.ofNat 256 height
  nTime := 1000
  nBits := 0x1d093ab9
  nNonce := BitVec.ofNat 32 (height + 1)

/-- The index entry at a height of the chain. -/
def chainIndex (height : ℕ) : CBlockIndex := ⟨chainHeader height, (List.range height).reverse.map chainHeader⟩

/-- The block map of the chain up to the fork height. -/
def chainManager : BlockManager where
  blockIndex := fun h =>
    if 1 ≤ h.toNat ∧ h.toNat ≤ 283001 then some ⟨chainIndex (h.toNat - 1), { valid := blockValidScripts }⟩ else none
  failedBlocks := []

/-- A node without chain locks. -/
def chainContext : NodeContext where
  adjustedTime := 3000
  fCheckpointsEnabled := true
  hasConflictingChainLock := fun _ _ => false

variable {h : CBlockHeader}

lemma drop_serialize (hv : h.nVersion ≠ autolykosVersion) : h.serialize.drop 76 = Wire.put h.nNonce := by
  have hser : h.serialize = (Wire.put h.nVersion ++ Wire.put h.hashPrevBlock ++ Wire.put h.hashMerkleRoot ++
      Wire.put h.nTime ++ Wire.put h.nBits) ++ Wire.put h.nNonce := by
    simp only [serialize, hv, decide_false, Wire.putIf, Bool.false_eq_true, if_false, append_nil,
      append_assoc]
  rw [hser]
  exact drop_left' (by simp only [length_append, Wire.length_put])

lemma getHash_chainHash (hv : h.nVersion ≠ autolykosVersion) : h.getHash chainHash = h.nNonce.setWidth 256 := by
  rw [getHash_of_ne _ hv]
  change BitVec.ofNat 256 (Wire.leValue (h.serialize.drop 76)) = _
  rw [drop_serialize hv, Wire.put, Wire.leValue_leBytes]
  apply BitVec.eq_of_toNat_eq
  rw [BitVec.toNat_ofNat, BitVec.toNat_setWidth]
  omega

lemma nHeight_chainIndex (height : ℕ) : (chainIndex height).nHeight = height := by
  simp [chainIndex, CBlockIndex.nHeight]

lemma getMedianTimePast_chainIndex {height : ℕ} : (chainIndex height).getMedianTimePast = 1000 := by
  refine CBlockIndex.getMedianTimePast_of_const (t := 1000) ?_
  intro g hg
  rcases mem_cons.mp hg with rfl | hg
  · rfl
  · obtain ⟨i, -, rfl⟩ := mem_map.mp hg
    rfl

lemma getLastCheckpoint_chainManager : getLastCheckpoint chainManager mainChainParams.mapCheckpoints = none := by
  decide

/-- The entry of the block at the fork height. -/
def forkEntry : BlockMapEntry := ⟨chainIndex 283000, { valid := blockValidScripts }⟩

/-- A header on top of the fork height with the fixed target passes every check but that of its work. -/
lemma contextualCheckBlockHeader_fork (hbits : block.nBits = 0x1d093ab9) (htime : block.nTime = 2000)
    (hversion : 4 ≤ block.nVersion.toInt) :
    contextualCheckBlockHeader chainManager block mainChainParams chainContext (chainIndex 283000) = .ok () := by
  have hheight : (chainIndex 283000).nHeight = 283000 := nHeight_chainIndex 283000
  have hdiff : diffBitsOk mainChainParams (chainIndex 283000) block = true := by
    unfold diffBitsOk
    have hnext : getNextWorkRequired (chainIndex 283000) block mainParams = 0x1d093ab9 :=
      getNextWorkRequired_fork block hheight
    rw [if_neg (by rw [hheight]; decide)]
    simp only [hbits]
    exact decide_eq_true hnext.symm
  have ht : (block.nTime.toNat : ℤ) = 2000 := by rw [htime]; rfl
  have hadj : chainContext.adjustedTime + maxFutureBlockTime = 10200 := rfl
  unfold contextualCheckBlockHeader
  simp only [hdiff, getLastCheckpoint_chainManager, getMedianTimePast_chainIndex, ht, hadj]
  rw [if_neg (by decide), if_neg (by decide), if_neg (by decide), if_neg (by decide), if_neg (by omega)]

/-- A header on top of the fork height is accepted when its work is. -/
lemma acceptedOnto_fork (hprev : block.hashPrevBlock = 283001) (hbits : block.nBits = 0x1d093ab9)
    (htime : block.nTime = 2000) (hversion : 4 ≤ block.nVersion.toInt)
    (hpow : checkProofOfWork chainHash mainParams block (block.getHash chainHash) block.nBits = true) :
    AcceptedOnto chainHash mainChainParams chainContext chainManager block forkEntry where
  parent := by
    rw [hprev]
    rfl
  header := by
    have hpow' : checkProofOfWork chainHash mainChainParams.consensus block (block.getHash chainHash) block.nBits =
      true := hpow
    rw [checkBlockHeader, hpow', if_neg (by decide), if_neg (fun h => h.1 rfl)]
  contextual := contextualCheckBlockHeader_fork hbits htime hversion
  notFailed := rfl
  noConflict := rfl
  noFailedAncestor := rfl
  noChainLock := rfl

/-- An X11 header on top of the fork height. -/
def x11AfterFork : CBlockHeader where
  nVersion := 4
  hashPrevBlock := 283001
  nTime := 2000
  nBits := 0x1d093ab9
  nNonce := 283002

lemma targetInRange_fork : TargetInRange mainParams 0x1d093ab9 := ⟨by decide, by decide, by decide⟩

lemma acceptedOnto_x11AfterFork :
    AcceptedOnto chainHash mainChainParams chainContext chainManager x11AfterFork forkEntry := by
  refine acceptedOnto_fork rfl rfl rfl (by decide) ?_
  rw [checkProofOfWork_x11 (by decide), getHash_chainHash (by decide)]
  exact ⟨targetInRange_fork, by decide, by decide⟩

lemma x11AfterFork_new : x11AfterFork.getHash chainHash ≠ mainChainParams.hashGenesisBlock ∧
    chainManager.blockIndex (x11AfterFork.getHash chainHash) = none := by
  exact ⟨by decide, rfl⟩

/-- The accepted X11 header, as an instance. -/
theorem acceptBlockHeader_algorithm_x11AfterFork :
    TargetInRange mainParams x11AfterFork.nBits ∧ (Uint256.setCompact x11AfterFork.nBits).value ≠ 0 ∧
      chainHash.hashX11 x11AfterFork.serialize ≤ (Uint256.setCompact x11AfterFork.nBits).value :=
  (acceptBlockHeader_algorithm chainHash chainContext chainManager _ x11AfterFork x11AfterFork_new.1
    x11AfterFork_new.2 (acceptedOnto_x11AfterFork.acceptBlockHeader_eq x11AfterFork_new.1 x11AfterFork_new.2)).2.2.2
    (by decide)

/-- On top of the fork height, where the schedule prescribes version `0x05` whatever the deployments are, a header of
version 4 is accepted. -/
theorem acceptBlockHeader_x11_after_fork :
    (acceptBlockHeader chainHash mainChainParams chainContext chainManager x11AfterFork).1 = .ok () ∧
      x11AfterFork.getHash chainHash ≠ mainChainParams.hashGenesisBlock ∧
      chainManager.blockIndex (x11AfterFork.getHash chainHash) = none ∧
      chainManager.blockIndex x11AfterFork.hashPrevBlock = some forkEntry ∧
      mainParams.AutolykosForkHeight ≤ forkEntry.pindex.nHeight ∧
      x11AfterFork.nVersion ≠ autolykosVersion ∧
      ∀ deployments, computeBlockVersion mainParams (some forkEntry.pindex) deployments ≠ x11AfterFork.nVersion := by
  have hheight : mainParams.AutolykosForkHeight ≤ forkEntry.pindex.nHeight := (nHeight_chainIndex 283000).ge
  refine ⟨?_, x11AfterFork_new.1, x11AfterFork_new.2, acceptedOnto_x11AfterFork.parent, hheight, by decide, ?_⟩
  · rw [acceptedOnto_x11AfterFork.acceptBlockHeader_eq x11AfterFork_new.1 x11AfterFork_new.2]
  · intro deployments
    rw [(computeBlockVersion_eq_iff).mpr hheight]
    decide

end Blocx
