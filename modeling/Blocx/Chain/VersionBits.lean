import Blocx.Chain.MedianTime

/-!
# Version bits

The states of a deployment (`versionbits.cpp`). A deployment is in one state for each period of blocks. The state of a
period is found from the last block of the period before: the code walks back, a period at a time, to a block whose
state is in the cache, and forward again. The number of signalling blocks that a deployment needs falls with each period
in which it was started and did not get enough; so the code also has to find out when it was started, and walks back
through the cache for it.

`nullptr` is `none`. A function gives `none` where the code would fail an assertion or use a null pointer. Loops have
fuel: the number of periods is enough.
-/

namespace Blocx

open Function

/-- `ThresholdState` of a deployment. -/
inductive ThresholdState where
  | defined
  | started
  | lockedIn
  | active
  | failed
  deriving DecidableEq

/-- `ThresholdConditionCache`, indexed by the last block before the period. -/
abbrev ThresholdConditionCache : Type := Option CBlockIndex → Option ThresholdState

structure BIP9Stats where
  period : ℤ
  threshold : ℤ
  /-- Number of blocks since the beginning of the period. -/
  elapsed : ℤ := 0
  /-- Number of signalling blocks since the beginning of the period. -/
  count : ℤ := 0
  /-- There are enough blocks left. -/
  possible : Bool := false
  deriving DecidableEq

/-- `AbstractThresholdConditionChecker`: a deployment. -/
structure ThresholdConditionChecker where
  condition : CBlockIndex → Bool
  beginTime : ℤ
  endTime : ℤ
  period : ℕ
  threshold : ℤ → ℤ
  period_pos : 0 < period

/-- The greatest `int`. -/
def intMax : ℤ := 2 ^ 31 - 1

namespace ThresholdConditionChecker

variable (checker : ThresholdConditionChecker)

/-- The last block of the period before. -/
def periodParent (pindexPrev : CBlockIndex) : Option CBlockIndex :=
  pindexPrev.getAncestor (pindexPrev.nHeight - (pindexPrev.nHeight + 1) % checker.period)

/-- One period back. -/
def previousPeriodParent (pindexPrev : CBlockIndex) : Option CBlockIndex :=
  pindexPrev.getAncestor (pindexPrev.nHeight - checker.period)

/-- Fuel for a walk from a block. -/
def periods (pindexPrev : Option CBlockIndex) : ℕ :=
  match pindexPrev with
  | none => 0
  | some pindex => ((pindex.nHeight + 1) / checker.period).toNat

/-- The loop of `GetStateFor` that walks back to a known state. The last of `vToCompute` is the first here. -/
def walkBack : ℕ → ThresholdConditionCache → Option CBlockIndex → List CBlockIndex →
    Option (ThresholdConditionCache × Option CBlockIndex × List CBlockIndex)
  | 0, _, _, _ => none
  | fuel + 1, cache, pindexPrev, vToCompute =>
    if (cache pindexPrev).isSome then some (cache, pindexPrev, vToCompute)
    else match pindexPrev with
      | none => some (update cache none (some .defined), none, vToCompute)
      | some pindex =>
        if pindex.getMedianTimePast < checker.beginTime then
          some (update cache (some pindex) (some .defined), some pindex, vToCompute)
        else walkBack fuel cache (checker.previousPeriodParent pindex) (pindex :: vToCompute)

/-- The loop of `GetStateFor` that walks back to where the deployment was started. Reading the cache puts an entry where
there was none. -/
def searchStart : ℕ → ThresholdConditionCache → Option CBlockIndex → ThresholdState → ℤ →
    Option (ThresholdConditionCache × ℤ)
  | 0, _, _, _, _ => none
  | fuel + 1, cache, pindexSearch, stateSearch, nStartHeight =>
    match stateSearch with
    | .started =>
      match pindexSearch with
      | none => none
      | some pindex =>
        let nStartHeight := min nStartHeight (pindex.nHeight + 1)
        let pindexSearch := checker.previousPeriodParent pindex
        let stateSearch := (cache pindexSearch).getD .defined
        searchStart fuel (update cache pindexSearch (some stateSearch)) pindexSearch stateSearch nStartHeight
    | _ => some (cache, nStartHeight)

/-- The loop that counts the blocks of a period for which the condition holds: the count, and where the loop ends. -/
def countPeriod : ℕ → Option CBlockIndex → ℤ → Option (ℤ × Option CBlockIndex)
  | 0, pindexCount, count => some (count, pindexCount)
  | _ + 1, none, _ => none
  | n + 1, some pindex, count => countPeriod n pindex.pprev (if checker.condition pindex then count + 1 else count)

/-- One round of the loop of `GetStateFor` that walks forward: the state of the next period, and `nStartHeight`. -/
def stateNext (pindexPrev : CBlockIndex) (state : ThresholdState) (nStartHeight : ℤ) : Option (ThresholdState × ℤ) :=
  match state with
  | .defined =>
    if pindexPrev.getMedianTimePast ≥ checker.endTime then some (.failed, nStartHeight)
    else if pindexPrev.getMedianTimePast ≥ checker.beginTime then some (.started, pindexPrev.nHeight + 1)
    else some (.defined, nStartHeight)
  | .started =>
    if pindexPrev.getMedianTimePast ≥ checker.endTime then some (.failed, nStartHeight)
    else do
      let (count, pindexCount) ← checker.countPeriod checker.period (some pindexPrev) 0
      if nStartHeight > 0 ∧ nStartHeight < intMax then
        let pindexCount ← pindexCount
        let nAttempt := (pindexCount.nHeight + 1 - nStartHeight).tdiv checker.period
        some (if count ≥ checker.threshold nAttempt then .lockedIn else .started, nStartHeight)
      else none
  | .lockedIn => some (.active, nStartHeight)
  | .failed => some (.failed, nStartHeight)
  | .active => some (.active, nStartHeight)

/-- The loop of `GetStateFor` that walks forward. -/
def walkForward : List CBlockIndex → ThresholdConditionCache → ThresholdState → ℤ →
    Option (ThresholdConditionCache × ThresholdState)
  | [], cache, state, _ => some (cache, state)
  | pindexPrev :: vToCompute, cache, state, nStartHeight => do
    let (state, nStartHeight) ← checker.stateNext pindexPrev state nStartHeight
    walkForward vToCompute (update cache (some pindexPrev) (some state)) state nStartHeight

/-- `GetStateFor`, with the cache after it. -/
def getStateFor (cache : ThresholdConditionCache) (pindexPrev : Option CBlockIndex) :
    Option (ThresholdConditionCache × ThresholdState) := do
  let pindexPrev := pindexPrev.bind checker.periodParent
  let fuel := checker.periods pindexPrev + 1
  let (cache, pindexPrev, vToCompute) ← checker.walkBack fuel cache pindexPrev []
  let state ← cache pindexPrev
  let (cache, nStartHeight) ← checker.searchStart fuel cache pindexPrev state intMax
  checker.walkForward vToCompute cache state nStartHeight

def sinceHeightLoop (initialState : ThresholdState) : ℕ → ThresholdConditionCache → CBlockIndex →
    Option (ThresholdConditionCache × ℤ)
  | 0, _, _ => none
  | fuel + 1, cache, pindexPrev =>
    match checker.previousPeriodParent pindexPrev with
    | none => some (cache, pindexPrev.nHeight + 1)
    | some parent => do
      let (cache, state) ← checker.getStateFor cache (some parent)
      if state = initialState then sinceHeightLoop initialState fuel cache parent
      else some (cache, pindexPrev.nHeight + 1)

def getStateSinceHeightFor (cache : ThresholdConditionCache) (pindexPrev : Option CBlockIndex) :
    Option (ThresholdConditionCache × ℤ) := do
  let (cache, initialState) ← checker.getStateFor cache pindexPrev
  if initialState = .defined then some (cache, 0)
  else do
    let pindexPrev ← pindexPrev
    let pindexPrev ← checker.periodParent pindexPrev
    checker.sinceHeightLoop initialState (checker.periods (some pindexPrev)) cache pindexPrev

/-- The loop of `GetStateStatisticsFor` that counts from the block to the beginning of the period. -/
def countElapsed (endHeight : ℤ) : ℕ → CBlockIndex → ℤ → Option ℤ
  | 0, _, _ => none
  | fuel + 1, currentIndex, count =>
    if endHeight = currentIndex.nHeight then some count
    else do
      let pprev ← currentIndex.pprev
      countElapsed endHeight fuel pprev (if checker.condition currentIndex then count + 1 else count)

def getStateStatisticsFor (cache : ThresholdConditionCache) (pindex : Option CBlockIndex) :
    Option (ThresholdConditionCache × BIP9Stats) :=
  match pindex with
  | none => some (cache, { period := checker.period, threshold := checker.threshold 0 })
  | some pindex => do
    let pindexEndOfPrevPeriod ← checker.periodParent pindex
    let elapsed := pindex.nHeight - pindexEndOfPrevPeriod.nHeight
    let (cache, state) ← checker.getStateFor cache (some pindexEndOfPrevPeriod)
    let (cache, nAttempt) ←
      if state = .started then do
        let (cache, nStartHeight) ← checker.getStateSinceHeightFor cache (some pindexEndOfPrevPeriod)
        some (cache, (pindexEndOfPrevPeriod.nHeight + 1 - nStartHeight).tdiv checker.period)
      else some (cache, 0)
    let threshold := checker.threshold nAttempt
    let count ← checker.countElapsed pindexEndOfPrevPeriod.nHeight (elapsed.toNat + 1) pindex 0
    some (cache, { period := checker.period, threshold, elapsed, count,
                   possible := decide (checker.period - threshold ≥ elapsed - count) })

end ThresholdConditionChecker

/-! ### The deployments -/

structure BIP9Deployment where
  bit : ℕ
  nStartTime : ℤ
  nTimeout : ℤ
  /-- Number of blocks in a period; zero for the default. -/
  nWindowSize : ℕ := 0
  /-- Number of signalling blocks that is required at first; zero for the default. -/
  nThresholdStart : ℤ := 0
  /-- Least number of signalling blocks that is required. -/
  nThresholdMin : ℤ := 0
  /-- How fast the number falls. -/
  nFalloffCoeff : ℤ := 0

/-- The defaults in `Consensus::Params`, and a deployment whose period has blocks. -/
structure DeploymentParams extends BIP9Deployment where
  /-- Number of signalling blocks, by default. -/
  nRuleChangeActivationThreshold : ℤ
  /-- Number of blocks in a period, by default. -/
  nMinerConfirmationWindow : ℕ
  window_pos : 0 < nWindowSize ∨ 0 < nMinerConfirmationWindow

namespace DeploymentParams

variable (params : DeploymentParams)

def period : ℕ := if params.nWindowSize ≠ 0 then params.nWindowSize else params.nMinerConfirmationWindow

/-- `VersionBitsConditionChecker::Threshold`. The product is an `int`. -/
def threshold (nAttempt : ℤ) : ℤ :=
  if params.nThresholdStart = 0 then params.nRuleChangeActivationThreshold
  else if params.nThresholdMin = 0 ∨ params.nFalloffCoeff = 0 then params.nThresholdStart
  else
    let product := Int.bmod (nAttempt * nAttempt * params.period) (2 ^ 32)
    max params.nThresholdMin (params.nThresholdStart - (product.tdiv 100).tdiv params.nFalloffCoeff)

def mask : BitVec 32 := 1 <<< params.bit

def condition (pindex : CBlockIndex) : Bool :=
  (pindex.header.nVersion &&& 0xE0000000) = 0x20000000 ∧ (pindex.header.nVersion &&& params.mask) ≠ 0

def versionBitsConditionChecker : ThresholdConditionChecker where
  condition := params.condition
  beginTime := params.nStartTime
  endTime := params.nTimeout
  period := params.period
  threshold := params.threshold
  period_pos := by
    have := params.window_pos
    unfold period
    split <;> omega

end DeploymentParams

end Blocx
