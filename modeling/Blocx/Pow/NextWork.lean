import Blocx.Chain.BlockIndex
import Blocx.Consensus.Params

/-!
# The next target

`GetNextWorkRequired` (`pow.cpp`): the compact target a header must state, from the chain it builds on. The main
network uses Dark Gravity Wave over the last 24 blocks, except that the successor of the block at the fork height
starts from a fixed target. The 256-bit arithmetic is that of `arith_uint256` and wraps; a product with a timespan takes
its low 32 bits only.
-/

namespace Blocx

open Consensus Uint256

def calculateNextWorkRequired (pindexLast : CBlockIndex) (nFirstBlockTime : ℤ) (params : Params) : BitVec 32 :=
  if params.fPowNoRetargeting then pindexLast.header.nBits
  else
    let nActualTimespan := pindexLast.getBlockTime - nFirstBlockTime
    let nActualTimespan :=
      if nActualTimespan < params.nPowTargetTimespan.tdiv 4 then params.nPowTargetTimespan.tdiv 4
      else nActualTimespan
    let nActualTimespan :=
      if nActualTimespan > params.nPowTargetTimespan * 4 then params.nPowTargetTimespan * 4 else nActualTimespan
    let bnNew := (setCompact pindexLast.header.nBits).value * (BitVec.ofInt 32 nActualTimespan).setWidth 256 /
      BitVec.ofInt 256 params.nPowTargetTimespan
    getCompact (if bnNew > params.powLimit then params.powLimit else bnNew)

/-- `GetNextWorkRequiredBTC`, the last block that was not mined under the special rule of the test networks: from the
newest header back, stop at the genesis block, at a retargeting height or at a real target. -/
def lastRealBits (params : Params) : List CBlockHeader → BitVec 32
  | [] => 0
  | [h] => h.nBits
  | h :: h' :: hs =>
    if ((hs.length : ℤ) + 1).tmod params.difficultyAdjustmentInterval ≠ 0 ∧
        h.nBits = getCompact params.powLimit then lastRealBits params (h' :: hs)
    else h.nBits

/-- `GetNextWorkRequiredBTC`. The ancestor exists, since `nHeightFirst` is asserted not to be negative. -/
def getNextWorkRequiredBTC (pindexLast : CBlockIndex) (pblock : CBlockHeader) (params : Params) : BitVec 32 :=
  let nProofOfWorkLimit := getCompact params.powLimit
  if (pindexLast.nHeight + 1).tmod params.difficultyAdjustmentInterval ≠ 0 then
    if params.fPowAllowMinDifficultyBlocks then
      if (pblock.nTime.toNat : ℤ) > pindexLast.getBlockTime + params.nPowTargetSpacing * 2 then nProofOfWorkLimit
      else lastRealBits params pindexLast.chain
    else pindexLast.header.nBits
  else
    let nHeightFirst := pindexLast.nHeight - (params.difficultyAdjustmentInterval - 1)
    match pindexLast.getAncestor nHeightFirst with
    | some pindexFirst => calculateNextWorkRequired pindexLast pindexFirst.getBlockTime params
    | none => nProofOfWorkLimit

/-- Number of blocks Dark Gravity Wave looks at. -/
def nPastBlocks : ℕ := 24

/-- `DarkGravityWave`, the loop: the running average of the targets, which "is not an average really". -/
def pastTargetAvg : ℕ → Uint256 → List CBlockHeader → Uint256
  | _, bnPastTargetAvg, [] => bnPastTargetAvg
  | nCountBlocks, bnPastTargetAvg, h :: hs =>
    pastTargetAvg (nCountBlocks + 1)
      ((bnPastTargetAvg * BitVec.ofNat 256 nCountBlocks + (setCompact h.nBits).value) /
        BitVec.ofNat 256 (nCountBlocks + 1)) hs

def darkGravityWave (pindexLast : CBlockIndex) (params : Params) : BitVec 32 :=
  if pindexLast.nHeight = params.AutolykosForkHeight then 0x1d093ab9
  else if pindexLast.nHeight < nPastBlocks then getCompact params.powLimit
  else
    let past := pindexLast.chain.take nPastBlocks
    let bnNew := pastTargetAvg 2 (setCompact pindexLast.header.nBits).value past.tail
    let first := past.getLast?.getD pindexLast.header
    let nActualTimespan := pindexLast.getBlockTime - (first.nTime.toNat : ℤ)
    let blockTime := params.getCurrentPowTargetSpacing (pindexLast.nHeight + 1)
    let nTargetTimespan := (nPastBlocks : ℤ) * blockTime
    let nActualTimespan :=
      if nActualTimespan < nTargetTimespan.tdiv 3 then nTargetTimespan.tdiv 3 else nActualTimespan
    let nActualTimespan := if nActualTimespan > nTargetTimespan * 3 then nTargetTimespan * 3 else nActualTimespan
    let bnNew := bnNew * (BitVec.ofInt 32 nActualTimespan).setWidth 256 / BitVec.ofInt 256 nTargetTimespan
    getCompact (if bnNew > params.powLimit then params.powLimit else bnNew)

def getNextWorkRequired (pindexLast : CBlockIndex) (pblock : CBlockHeader) (params : Params) : BitVec 32 :=
  if pindexLast.nHeight < params.nMinimumDifficultyBlocks then getCompact params.powLimit
  else if pindexLast.nHeight + 1 < params.nPowKGWHeight then getNextWorkRequiredBTC pindexLast pblock params
  else if params.fPowNoRetargeting then getCompact params.powLimit
  else if params.fPowAllowMinDifficultyBlocks ∧
      (pblock.nTime.toNat : ℤ) > pindexLast.getBlockTime + 2 * 60 * 60 then getCompact params.powLimit
  else if params.fPowAllowMinDifficultyBlocks ∧ (pblock.nTime.toNat : ℤ) > pindexLast.getBlockTime +
      params.getCurrentPowTargetSpacing (pindexLast.nHeight + 1) * 4 then
    let bnNew := (setCompact pindexLast.header.nBits).value * 10
    getCompact (if bnNew > params.powLimit then params.powLimit else bnNew)
  else darkGravityWave pindexLast params

lemma getNextWorkRequired_fork {pindexLast : CBlockIndex} (pblock : CBlockHeader)
    (h : pindexLast.nHeight = mainParams.AutolykosForkHeight) :
    getNextWorkRequired pindexLast pblock mainParams = 0x1d093ab9 := by
  have hfork : mainParams.AutolykosForkHeight = 283000 := rfl
  have hmin : mainParams.nMinimumDifficultyBlocks = 0 := rfl
  have hkgw : mainParams.nPowKGWHeight = 1 := rfl
  have hflags : mainParams.fPowNoRetargeting = false ∧ mainParams.fPowAllowMinDifficultyBlocks = false := ⟨rfl, rfl⟩
  simp only [getNextWorkRequired, hmin, hkgw, hflags, Bool.false_eq_true, false_and, if_false]
  rw [if_neg (by omega), if_neg (by omega), darkGravityWave, if_pos (h.trans hfork.symm)]

end Blocx
