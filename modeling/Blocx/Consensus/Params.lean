import Blocx.Primitives.Uint256

/-!
# Consensus parameters

The part of `Consensus::Params` that the modelled functions read, with the values
`CMainParams` gives it (`chainparams.cpp`). Heights are the `int` of the source and
amounts its `CAmount`, both kept as integers; a 256-bit target is a bit vector.
-/

namespace Blocx

/-- One coin, in the smallest unit of an amount. -/
def COIN : ℤ := 100000000

namespace Consensus

/-- `LLMQType`; the other 8-bit values have no name. -/
inductive LLMQType where
  | none | llmq50_60 | llmq400_60 | llmq400_85 | llmq100_67 | llmq60_75 | llmq25_67
  | test | devnet | testV17 | testDip0024 | testInstantSend | devnetDip0024 | testPlatform | devnetPlatform
  | other (v : BitVec 8)
  deriving DecidableEq

instance : LawfulBEq (LLMQType × Uint256) := inferInstance

/-- The type with a number. -/
def LLMQType.ofBits (v : BitVec 8) : LLMQType :=
  match v.toNat with
  | 0xff => .none
  | 1 => .llmq50_60
  | 2 => .llmq400_60
  | 3 => .llmq400_85
  | 4 => .llmq100_67
  | 5 => .llmq60_75
  | 6 => .llmq25_67
  | 100 => .test
  | 101 => .devnet
  | 102 => .testV17
  | 103 => .testDip0024
  | 104 => .testInstantSend
  | 105 => .devnetDip0024
  | 106 => .testPlatform
  | 107 => .devnetPlatform
  | _ => .other v

/-- Number of a type of quorum. -/
def LLMQType.number : LLMQType → ℕ
  | .none => 0xff
  | .llmq50_60 => 1
  | .llmq400_60 => 2
  | .llmq400_85 => 3
  | .llmq100_67 => 4
  | .llmq60_75 => 5
  | .llmq25_67 => 6
  | .test => 100
  | .devnet => 101
  | .testV17 => 102
  | .testDip0024 => 103
  | .testInstantSend => 104
  | .devnetDip0024 => 105
  | .testPlatform => 106
  | .devnetPlatform => 107
  | .other v => v.toNat

/-- Whether the type has a name. -/
def LLMQType.isNamed : LLMQType → Bool
  | .other _ => false
  | _ => true

lemma LLMQType.number_inj {a b : LLMQType} (hnumber : a.number = b.number)
    (hnamed : a.isNamed = b.isNamed) : a = b := by
  cases a <;> cases b <;> simp_all [number, isNamed, BitVec.toNat_inj]

structure LLMQParams where
  type : LLMQType
  /-- Blocks between two key generations. -/
  dkgInterval : ℤ
  /-- Quorums to which connections are kept. -/
  keepOldConnections : ℤ
  deriving DecidableEq

/-- The consensus parameters of a network. -/
structure Params where
  nBudgetPaymentsStartBlock : ℤ
  nBudgetPaymentsCycleBlocks : ℤ
  nBudgetPaymentsWindowBlocks : ℤ
  nSuperblockStartBlock : ℤ
  nSuperblockCycle : ℤ
  nNewSuperBlockCycle : ℤ
  nNewSuperBlockStartHeight : ℤ
  nAutolykosSuperBlockCycle : ℤ
  nAutolykosSuperBlockStartHeight : ℤ
  /-- Height from which blocks need version 2. -/
  BIP34Height : ℤ
  /-- Height from which blocks need version 4. -/
  BIP65Height : ℤ
  /-- Height from which blocks need version 3. -/
  BIP66Height : ℤ
  /-- First height of the larger blocks. -/
  DIP0001Height : ℤ
  DIP0003Height : ℤ
  /-- Height from which deterministic masternode lists are enforced. -/
  DIP0003EnforcementHeight : ℤ
  /-- Hash of the block at that height, null for any. -/
  DIP0003EnforcementHash : BitVec 256
  /-- Height of the predecessor from which the miner switches to Autolykos. -/
  AutolykosForkHeight : ℤ
  /-- Block version that selects Autolykos. -/
  AutolykosForkSwitchVersion : ℤ
  powLimit : BitVec 256
  fPowAllowMinDifficultyBlocks : Bool
  fPowNoRetargeting : Bool
  nPowTargetSpacing : ℤ
  nPowTargetTimespan : ℤ
  nNewPowTargetSpacing : ℤ
  /-- Last height of the first block spacing. -/
  nNewPowTargetSpacingForkHeight : ℤ
  nAutolykosPowTargetSpacing : ℤ
  /-- Height from which the first difficulty algorithm is no longer used. -/
  nPowKGWHeight : ℤ
  nMasternodeMinimumConfirmations : ℤ
  MNTierForkHeight : ℤ
  /-- Height at which the block reward reallocation becomes active. -/
  BRRHeight : ℤ
  /-- Last height of the raised superblock share. -/
  V3ForkHeight : ℤ
  /-- Last height without a development payout. -/
  DevRewardStartHeight : ℤ
  DevelopementFundShare : ℤ
  /-- Heights below this one have the minimum difficulty (devnets). -/
  nMinimumDifficultyBlocks : ℤ
  /-- Heights below this one have the raised subsidy (devnets). -/
  nHighSubsidyBlocks : ℤ
  nHighSubsidyFactor : ℤ
  llmqs : List LLMQParams

/-- `CMainParams`. -/
def mainParams : Params where
  nBudgetPaymentsStartBlock := 1
  nBudgetPaymentsCycleBlocks := 14600
  nBudgetPaymentsWindowBlocks := 100
  nSuperblockStartBlock := 1
  nSuperblockCycle := 14600
  nNewSuperBlockCycle := 29200
  nNewSuperBlockStartHeight := 87601
  nAutolykosSuperBlockCycle := 43200
  nAutolykosSuperBlockStartHeight := 292001
  BIP34Height := 1
  BIP65Height := 1
  BIP66Height := 1
  DIP0001Height := 2
  DIP0003Height := 2
  DIP0003EnforcementHeight := 2
  DIP0003EnforcementHash := 0
  AutolykosForkHeight := 283000
  AutolykosForkSwitchVersion := 0x05
  powLimit := 0x00000fffffffffffffffffffffffffffffffffffffffffffffffffffffffffff
  fPowAllowMinDifficultyBlocks := false
  fPowNoRetargeting := false
  nPowTargetSpacing := 3 * 60
  nPowTargetTimespan := 9 * 60
  nNewPowTargetSpacing := 90
  nNewPowTargetSpacingForkHeight := 87600
  nAutolykosPowTargetSpacing := 60
  nPowKGWHeight := 1
  nMasternodeMinimumConfirmations := 6
  MNTierForkHeight := 87500
  BRRHeight := 12096
  V3ForkHeight := 87500
  DevRewardStartHeight := 16700
  DevelopementFundShare := 3
  nMinimumDifficultyBlocks := 0
  nHighSubsidyBlocks := 0
  nHighSubsidyFactor := 1
  llmqs := [⟨.llmq50_60, 24, 25⟩, ⟨.llmq400_60, 288, 5⟩, ⟨.llmq400_85, 576, 5⟩, ⟨.llmq100_67, 24, 25⟩]

def Params.getCurrentPowTargetSpacing (params : Params) (nHeight : ℤ) : ℤ :=
  if nHeight > params.AutolykosForkHeight then params.nAutolykosPowTargetSpacing
  else if nHeight > params.nNewPowTargetSpacingForkHeight ∧ nHeight ≤ params.AutolykosForkHeight then
    params.nNewPowTargetSpacing
  else params.nPowTargetSpacing

def Params.getLLMQ (params : Params) (llmqType : LLMQType) : Option LLMQParams :=
  params.llmqs.find? fun llmqParam => llmqParam.type = llmqType

def Params.difficultyAdjustmentInterval (params : Params) : ℤ :=
  params.nPowTargetTimespan.tdiv params.nPowTargetSpacing

end Consensus

end Blocx
