import Blocx.Lib.Runs
import Blocx.Primitives.Uint256

/-!
# The ChainLocks handler

`CChainLocksHandler` (`llmq/chainlocks.cpp`) as a system of concurrent calls. The handler keeps the best ChainLock and
the best one whose block is known. Every section under its lock `cs` is one step, and what a call does outside of it,
the verification of a signature and the lookup of a block, is a step of its own. A call of `ProcessNewChainLock` thus
goes through several steps, and other calls may come in between:

* it is made, by a message or for a recovered signature of this node (`HandleNewRecoveredSig`);
* it notes the lock as seen, and goes on only if its height is above the best one (`seeChainLock`);
* it verifies the signature (`verifyRecoveredSig`), and looks up the block;
* it sets the best lock, and the one with a known block if the block was found (`setBestChainLock`).

The two sections of `EnforceBestChainLock`, the last one of `TrySignChainTip`, `AcceptedBlockHeader`, `CheckActiveState`
and the part of `Cleanup` that forgets seen locks are steps too. Of a block index only hash and height are read. What
`EnforceBestChainLock` does to the chain, the transactions that `TrySignChainTip` looks at, and relaying are left out:
they do not touch the fields of the handler.
-/

namespace Blocx

open Function

variable {Sig : Type}

structure CChainLockSig (Sig : Type) where
  nHeight : ℤ := -1
  blockHash : Uint256 := 0
  /-- The signature, `none` for an invalid one. -/
  sig : Option Sig := none
  deriving DecidableEq

def CChainLockSig.isNull (clsig : CChainLockSig Sig) : Bool := clsig.nHeight = -1 ∧ clsig.blockHash = 0

/-- What the handler reads of a `CBlockIndex`. -/
structure BlockPos where
  blockHash : Uint256
  nHeight : ℤ
  deriving DecidableEq

/-- The block index: every entry is under its own hash. -/
structure BlockMap where
  lookupBlockIndex : Uint256 → Option BlockPos := fun _ => none
  hash_eq : ∀ hash pindex, lookupBlockIndex hash = some pindex → pindex.blockHash = hash := by
    exact fun _ _ h => nomatch h

/-- Add an entry. -/
def BlockMap.add (blocks : BlockMap) (pindex : BlockPos) : BlockMap where
  lookupBlockIndex := update blocks.lookupBlockIndex pindex.blockHash (some pindex)
  hash_eq := by
    intro hash pindex' h
    by_cases hhash : hash = pindex.blockHash
    · subst hhash
      rw [update_self] at h
      exact congrArg BlockPos.blockHash (Option.some.inj h).symm
    · rw [update_of_ne hhash] at h
      exact blocks.hash_eq hash pindex' h

/-! ### The handler -/

structure CChainLocksHandler (Sig : Type) where
  isEnabled : Bool := false
  isEnforced : Bool := false
  bestChainLockHash : Uint256 := 0
  bestChainLock : CChainLockSig Sig := {}
  bestChainLockWithKnownBlock : CChainLockSig Sig := {}
  bestChainLockBlockIndex : Option BlockPos := none
  /-- The block that listeners were told of last. -/
  lastNotifyChainLockBlockIndex : Option BlockPos := none
  lastSignedHeight : ℤ := -1
  lastSignedRequestId : Uint256 := 0
  lastSignedMsgHash : Uint256 := 0
  /-- The locks seen, with the times. -/
  seenChainLocks : Uint256 → Option ℤ := fun _ => none

namespace CChainLocksHandler

variable (handler : CChainLocksHandler Sig)

/-- Age from which a seen lock is forgotten, in milliseconds. -/
def CLEANUP_SEEN_TIMEOUT : ℤ := 24 * 60 * 60 * 1000

/-- First section of `ProcessNewChainLock`: whether the call goes on. -/
def seeChainLock (now : ℤ) (clsig : CChainLockSig Sig) (hash : Uint256) : Bool × CChainLocksHandler Sig :=
  match handler.seenChainLocks hash with
  | some _ => (false, handler)
  | none =>
    let handler := { handler with seenChainLocks := update handler.seenChainLocks hash (some now) }
    (handler.bestChainLock.isNull || handler.bestChainLock.nHeight < clsig.nHeight, handler)

/-- Last section of `ProcessNewChainLock`, with the block as it was found. -/
def setBestChainLock (clsig : CChainLockSig Sig) (hash : Uint256) (pindex : Option BlockPos) : CChainLocksHandler Sig :=
  let handler := { handler with bestChainLockHash := hash, bestChainLock := clsig }
  match pindex with
  | none => handler
  | some pindex =>
    if pindex.nHeight ≠ clsig.nHeight then handler
    else { handler with bestChainLockWithKnownBlock := handler.bestChainLock, bestChainLockBlockIndex := some pindex }

def acceptedBlockHeader (pindexNew : BlockPos) : CChainLocksHandler Sig :=
  if pindexNew.blockHash = handler.bestChainLock.blockHash then
    if handler.bestChainLock.nHeight ≠ pindexNew.nHeight then handler
    else { handler with
      bestChainLockWithKnownBlock := handler.bestChainLock
      bestChainLockBlockIndex := some pindexNew }
  else handler

/-- Whether `CheckActiveState` resets the locks. -/
def resets (fDIP0008Active enabled : Bool) : Bool := !handler.isEnforced && (fDIP0008Active && enabled)

def checkActiveState (fDIP0008Active enabled : Bool) : CChainLocksHandler Sig :=
  let checked := { handler with isEnabled := enabled, isEnforced := fDIP0008Active && enabled }
  if handler.resets fDIP0008Active enabled then
    { checked with
      bestChainLockHash := 0
      bestChainLock := {}
      bestChainLockWithKnownBlock := {}
      bestChainLockBlockIndex := none
      lastNotifyChainLockBlockIndex := none }
  else checked

/-- Last section of `TrySignChainTip`. -/
def noteSigning (pindex : BlockPos) (requestId : Uint256) : CChainLocksHandler Sig :=
  if handler.bestChainLock.nHeight ≥ pindex.nHeight then handler
  else
    { handler with
      lastSignedHeight := pindex.nHeight, lastSignedRequestId := requestId, lastSignedMsgHash := pindex.blockHash }

/-- `HandleNewRecoveredSig` up to its call of `ProcessNewChainLock`: the lock that it makes. -/
def handleNewRecoveredSig (id msgHash : Uint256) (sig : Option Sig) : Option (CChainLockSig Sig) :=
  if !handler.isEnabled then none
  else if id ≠ handler.lastSignedRequestId ∨ msgHash ≠ handler.lastSignedMsgHash then none
  else if handler.bestChainLock.nHeight ≥ handler.lastSignedHeight then none
  else some ⟨handler.lastSignedHeight, handler.lastSignedMsgHash, sig⟩

/-- First section of `EnforceBestChainLock`: the block that is enforced. -/
def toEnforce : Option BlockPos := if !handler.isEnforced then none else handler.bestChainLockBlockIndex

/-- Last section of `EnforceBestChainLock`. -/
def noteNotified (pindex : BlockPos) : CChainLocksHandler Sig :=
  if handler.lastNotifyChainLockBlockIndex = some pindex then handler
  else { handler with lastNotifyChainLockBlockIndex := some pindex }

def forgetSeen (now : ℤ) : CChainLocksHandler Sig :=
  { handler with seenChainLocks := fun hash => (handler.seenChainLocks hash).filter (now - · < CLEANUP_SEEN_TIMEOUT) }

end CChainLocksHandler

/-! ### Verification -/

def SIGN_HEIGHT_OFFSET : ℤ := 8

/-- The chain and the quorums at the time of a verification. -/
structure SigningContext (Sig : Type) where
  /-- Height of the active chain. -/
  height : ℤ
  /-- Whether a quorum is selected at this height for the request, and the signature is its signature of the message. -/
  verifyInsecure : (startBlockHeight : ℤ) → (id msgHash : Uint256) → Option Sig → Bool

/-- `CSigningManager::VerifyRecoveredSig`, with the heights of `SelectQuorumForSigning`. -/
def SigningContext.verifyRecoveredSig (context : SigningContext Sig) (signedAtHeight : ℤ) (id msgHash : Uint256)
    (sig : Option Sig) : Bool :=
  let signHeight := if signedAtHeight = -1 then context.height else signedAtHeight
  let startBlockHeight := signHeight - SIGN_HEIGHT_OFFSET
  if startBlockHeight > context.height ∨ startBlockHeight < 0 then false
  else context.verifyInsecure startBlockHeight id msgHash sig

/-- A lock with a signature that verifies has no height below the null one. -/
lemma SigningContext.le_of_verifyRecoveredSig {context : SigningContext Sig} {signedAtHeight : ℤ}
    {id msgHash : Uint256} {sig : Option Sig} (h : context.verifyRecoveredSig signedAtHeight id msgHash sig) :
    -1 ≤ signedAtHeight := by
  unfold verifyRecoveredSig SIGN_HEIGHT_OFFSET at h
  dsimp only at h
  split_ifs at h with hnull hrange hrange
  · omega
  · omega

/-! ### The system -/

/-- How far a call of `ProcessNewChainLock` has come. -/
inductive ChainLockPhase where
  | made
  /-- It has noted the lock and found it above the best one. -/
  | seen
  | verified
  | lookedUp (pindex : Option BlockPos)
  deriving DecidableEq

/-- A call of `ProcessNewChainLock`. -/
structure ChainLockCall (Sig : Type) where
  clsig : CChainLockSig Sig
  phase : ChainLockPhase

/-- The handler, the block index and the calls in progress. -/
structure ChainLockSystem (Sig : Type) where
  handler : CChainLocksHandler Sig := {}
  blocks : BlockMap := {}
  /-- The calls of `ProcessNewChainLock`. -/
  calls : ℕ → Option (ChainLockCall Sig) := fun _ => none
  /-- The calls of `EnforceBestChainLock`, with their blocks. -/
  enforcing : ℕ → Option BlockPos := fun _ => none

/-- The hashes of locks and requests. -/
structure ChainLockHashes (Sig : Type) where
  /-- `SerializeHash` of a lock. -/
  getHash : CChainLockSig Sig → Uint256
  requestId : ℤ → Uint256

/-- A step of a call, of the environment or of the scheduler. -/
inductive ChainLockStep (Sig : Type) where
  /-- A `CLSIG` message comes in. -/
  | receive (i : ℕ) (clsig : CChainLockSig Sig)
  | recovered (i : ℕ) (id msgHash : Uint256) (sig : Option Sig)
  /-- First section of `ProcessNewChainLock`. -/
  | see (i : ℕ) (now : ℤ)
  | verify (i : ℕ) (context : SigningContext Sig)
  | lookup (i : ℕ)
  /-- Last section of `ProcessNewChainLock`. -/
  | setBest (i : ℕ)
  | addBlock (pindex : BlockPos)
  | acceptedHeader (pindex : BlockPos)
  | checkActive (fDIP0008Active enabled : Bool)
  /-- Last section of `TrySignChainTip`. -/
  | trySign (pindex : BlockPos)
  /-- First section of `EnforceBestChainLock`. -/
  | enforce (i : ℕ)
  /-- Last section of `EnforceBestChainLock`. -/
  | notify (i : ℕ)
  /-- The part of `Cleanup` that forgets seen locks. -/
  | forgetSeen (now : ℤ)

namespace ChainLockSystem

variable (hashes : ChainLockHashes Sig) (s : ChainLockSystem Sig)

/-- Give a call a place. A place that is in use stays as it is. -/
def start (i : ℕ) (clsig : CChainLockSig Sig) : ChainLockSystem Sig :=
  match s.calls i with
  | some _ => s
  | none => { s with calls := update s.calls i (some ⟨clsig, .made⟩) }

/-- Take a step. A call that is not at this point does nothing. -/
def step : ChainLockStep Sig → ChainLockSystem Sig
  | .receive i clsig => s.start i clsig
  | .recovered i id msgHash sig =>
    match s.handler.handleNewRecoveredSig id msgHash sig with
    | some clsig => s.start i clsig
    | none => s
  | .see i now =>
    match s.calls i with
    | some ⟨clsig, .made⟩ =>
      let (goesOn, handler) := s.handler.seeChainLock now clsig (hashes.getHash clsig)
      { s with handler, calls := update s.calls i (if goesOn then some ⟨clsig, .seen⟩ else none) }
    | _ => s
  | .verify i context =>
    match s.calls i with
    | some ⟨clsig, .seen⟩ =>
      let verified := context.verifyRecoveredSig clsig.nHeight (hashes.requestId clsig.nHeight) clsig.blockHash
        clsig.sig
      { s with calls := update s.calls i (if verified then some ⟨clsig, .verified⟩ else none) }
    | _ => s
  | .lookup i =>
    match s.calls i with
    | some ⟨clsig, .verified⟩ =>
      let pindex := s.blocks.lookupBlockIndex clsig.blockHash
      { s with calls := update s.calls i (some ⟨clsig, .lookedUp pindex⟩) }
    | _ => s
  | .setBest i =>
    match s.calls i with
    | some ⟨clsig, .lookedUp pindex⟩ =>
      { s with
        handler := s.handler.setBestChainLock clsig (hashes.getHash clsig) pindex
        calls := update s.calls i none }
    | _ => s
  | .addBlock pindex => { s with blocks := s.blocks.add pindex }
  | .acceptedHeader pindex => { s with handler := s.handler.acceptedBlockHeader pindex }
  | .checkActive fDIP0008Active enabled => { s with handler := s.handler.checkActiveState fDIP0008Active enabled }
  | .trySign pindex => { s with handler := s.handler.noteSigning pindex (hashes.requestId pindex.nHeight) }
  | .enforce i => { s with enforcing := update s.enforcing i s.handler.toEnforce }
  | .notify i =>
    match s.enforcing i with
    | some pindex =>
      { s with handler := s.handler.noteNotified pindex, enforcing := update s.enforcing i none }
    | none => s
  | .forgetSeen now => { s with handler := s.handler.forgetSeen now }

end ChainLockSystem

end Blocx
