import Blocx.Consensus.Subsidy
import Blocx.Primitives.Transaction
import Blocx.Validation.HeaderAcceptance

/-!
# Contextual block checks

`ContextualCheckBlock` and `ContextualCheckTransaction` (`validation.cpp`), the checks a block passes after its header:
sizes, final transactions, signature operations, the development and extra payouts, and the form of the coinbase. The
size and signature-operation count of a transaction and the state of the CSV deployment are parameters.

Of the header these checks read the time and the length, not the height stated for the proof of work. Together with
header acceptance this leaves `aHeight` to the miner: `aHeight_unchecked`.
-/

namespace Blocx

open Consensus AutolykosPowScheme

structure CBlock extends CBlockHeader where
  vtx : List CTransaction
  deriving DecidableEq

/-- What the block checks take from outside the model. -/
structure BlockRules where
  txSize : CTransaction → ℕ
  legacySigOpCount : CTransaction → ℕ
  /-- The CSV deployment is active on top of a block. -/
  csvActive : CBlockIndex → Bool
  /-- Script of `DevelopmentFundAddress`. -/
  devPayoutScript : List UInt8
  /-- Script of `ExtraPayoutAddress`. -/
  additionalPayoutScript : List UInt8

def maxBlockSize (fDIP0001Active : Bool) : ℕ := if fDIP0001Active then 2000000 else 1000000

def maxBlockSigOps (fDIP0001Active : Bool) : ℕ := maxBlockSize fDIP0001Active / 50

def maxStandardTxSize : ℕ := 100000

/-- Length of a `WriteCompactSize`. -/
def compactSizeLength (n : ℕ) : ℕ := if n < 253 then 1 else if n ≤ 0xffff then 3 else if n ≤ 0xffffffff then 5 else 9

/-- `GetSerializeSize` of a block. -/
def blockSize (rules : BlockRules) (block : CBlock) : ℕ :=
  block.toCBlockHeader.serialize.length + compactSizeLength block.vtx.length + (block.vtx.map rules.txSize).sum

def contextualCheckTransaction (rules : BlockRules) (params : Params) (nHeight : ℤ) (tx : CTransaction) :
    Option String :=
  let known := match tx.nType with
    | .other _ => false
    | _ => true
  if nHeight ≥ params.DIP0003Height ∧ tx.nVersion ≥ 3 ∧ !known then some "bad-txns-type"
  else if nHeight ≥ params.DIP0003Height ∧ tx.nVersion ≥ 3 ∧ tx.isCoinBase ∧ tx.nType ≠ .coinbase then
    some "bad-txns-cb-type"
  else if nHeight ≥ params.DIP0003Height ∧ tx.nVersion < 3 ∧ tx.nType ≠ .normal then some "bad-txns-type"
  else if nHeight ≥ params.DIP0001Height ∧ rules.txSize tx > maxStandardTxSize then some "bad-txns-oversize"
  else none

/-- The first complaint about a transaction. -/
def checkTransactions (rules : BlockRules) (params : Params) (nHeight nLockTimeCutoff : ℤ) :
    List CTransaction → Option String
  | [] => none
  | tx :: vtx =>
    if !isFinalTx tx nHeight nLockTimeCutoff then some "bad-txns-nonfinal"
    else match contextualCheckTransaction rules params nHeight tx with
      | some reason => some reason
      | none => checkTransactions rules params nHeight nLockTimeCutoff vtx

/-- `devPayoutValue`. The factor `300.0 / 95.0` is an exact rational and the result is truncated. -/
def devPayoutValue (params : Params) (nHeight : ℤ) : ℤ :=
  if nHeight > 18000 ∧ nHeight ≤ 24000 then (getBlockSubsidy params nHeight false * 18).tdiv 100
  else if nHeight = 24001 then 1674000000
  else if nHeight < params.V3ForkHeight then
    (getBlockSubsidy params (nHeight + 1) false * params.DevelopementFundShare).tdiv 100
  else if nHeight = 87500 then 837000000
  else if nHeight < params.AutolykosForkHeight - 1 then
    (getBlockSubsidy params (nHeight + 1) false * 300).tdiv (95 * 100)
  else (getBlockSubsidy params nHeight false * 300).tdiv (95 * 100)

/-- `CScriptNum::serialize`. -/
def scriptNum (value : ℤ) : List UInt8 :=
  let digits := (Nat.digits 256 value.natAbs).map UInt8.ofNat
  match digits.getLast? with
  | none => []
  | some last =>
    if last ≥ 0x80 then digits ++ [if value < 0 then 0x80 else 0]
    else if value < 0 then digits.dropLast ++ [last + 0x80]
    else digits

/-- `CScript() << n`. -/
def scriptPushInt (n : ℤ) : List UInt8 :=
  if n = -1 ∨ (1 ≤ n ∧ n ≤ 16) then [UInt8.ofNat (n + 80).toNat]
  else if n = 0 then [0]
  else UInt8.ofNat (scriptNum n).length :: scriptNum n

def CBlock.coinbase (block : CBlock) : Option CTransaction := block.vtx.head?

/-- An output of the coinbase pays exactly this. -/
def paysExactly (block : CBlock) (value : ℤ) (script : List UInt8) : Bool :=
  block.coinbase.any fun tx => tx.vout.any fun txout => txout.scriptPubKey = script && txout.nValue = value

/-- `ContextualCheckBlock`: the value returned and the reason the validation state is marked invalid with, if it is.
Up to height 153989 a missing development payout marks the state but returns true: the text of the complaint is passed
in the place of the return value. -/
def contextualCheckBlock (rules : BlockRules) (chainparams : CChainParams) (block : CBlock) (pindexPrev : CBlockIndex) :
    Bool × Option String :=
  let params := chainparams.consensus
  let nHeight := pindexPrev.nHeight + 1
  let nLockTimeCutoff :=
    if rules.csvActive pindexPrev then pindexPrev.getMedianTimePast else (block.nTime.toNat : ℤ)
  let fDIP0001Active := decide (nHeight ≥ params.DIP0001Height)
  let fDIP0003Active := decide (nHeight ≥ params.DIP0003Height)
  let nMaxBlockSize := maxBlockSize fDIP0001Active
  if block.vtx.isEmpty ∨ block.vtx.length > nMaxBlockSize ∨ blockSize rules block > nMaxBlockSize then
    (false, some "bad-blk-length")
  else match checkTransactions rules params nHeight nLockTimeCutoff block.vtx with
    | some reason => (false, some reason)
    | none =>
      if nHeight > params.DevRewardStartHeight ∧
          !paysExactly block (devPayoutValue params nHeight) rules.devPayoutScript then
        if nHeight < 153990 then (true, some "") else (false, some "bad-cb-tx")
      else if chainparams.isMain ∧ isExtraFundAllocationHeight nHeight ∧
          !paysExactly block (getExtraPayOutAmount nHeight) rules.additionalPayoutScript then (false, some "bad-cb-tx")
      else if (block.vtx.map rules.legacySigOpCount).sum > maxBlockSigOps fDIP0001Active then
        (false, some "bad-blk-sigops")
      else if nHeight ≥ params.BIP34Height ∧ !fDIP0003Active ∧ !block.coinbase.any (fun tx => tx.vin.head?.any
          fun txin => (scriptPushInt nHeight).isPrefixOf txin.scriptSig) then (false, some "bad-cb-height")
      else if fDIP0003Active ∧ !block.coinbase.any (fun tx => tx.nType = .coinbase) then (false, some "bad-cb-type")
      else (true, none)

/-! ### The stated height -/

variable {aHeight : BitVec 32}

lemma length_serialize_aHeight (h : CBlockHeader) :
    ({ h with aHeight } : CBlockHeader).serialize.length = h.serialize.length := by
  simp only [CBlockHeader.serialize, Wire.putIf, CBlockHeader.autolykosFields, List.length_append, Wire.length_put]
  split_ifs <;> simp only [List.length_append, Wire.length_put]

/-- No contextual check of the block reads the stated height. -/
lemma contextualCheckBlock_aHeight {rules : BlockRules} {chainparams : CChainParams} {block : CBlock}
    {pindexPrev : CBlockIndex} : contextualCheckBlock rules chainparams { block with aHeight } pindexPrev =
      contextualCheckBlock rules chainparams block pindexPrev := by
  have hsize : blockSize rules { block with aHeight } = blockSize rules block := by
    unfold blockSize
    rw [length_serialize_aHeight]
  unfold contextualCheckBlock
  rw [hsize]
  rfl

/-- **The stated height is the miner's.** A new header of version `0x05` that is accepted had its hit computed over the
table of the height it states itself, and the contextual checks of header and block give the same verdict for every
other stated height. -/
theorem aHeight_unchecked (hash : HashFunctions) (ctx : NodeContext) (mgr mgr' : BlockManager) (rules : BlockRules)
    (block : CBlock) (hv : block.nVersion = CBlockHeader.autolykosVersion)
    (hgenesis : block.toCBlockHeader.getHash hash ≠ mainChainParams.hashGenesisBlock)
    (hnew : mgr.blockIndex (block.toCBlockHeader.getHash hash) = none)
    (h : acceptBlockHeader hash mainChainParams ctx mgr block.toCBlockHeader = (.ok (), mgr')) :
    ∃ prev, mgr.blockIndex block.hashPrevBlock = some prev ∧
      hitWithTable hash (block.autolykosHeader 0x05 block.nBits)
          (calcN 0x05 block.aHeight.toInt) < (Uint256.setCompact block.nBits).value.toNat ∧
      ∀ aHeight, contextualCheckBlockHeader mgr { block.toCBlockHeader with aHeight } mainChainParams ctx prev.pindex =
          .ok () ∧
        contextualCheckBlock rules mainChainParams { block with aHeight } prev.pindex =
          contextualCheckBlock rules mainChainParams block prev.pindex := by
  obtain ⟨prev, hacc, -⟩ := acceptBlockHeader_ok hgenesis hnew h
  have hversion := toInt_nVersion_iff (show mainParams.AutolykosForkSwitchVersion = 5 from rfl) block.toCBlockHeader
  have hpow : checkProofOfWork hash mainParams block.toCBlockHeader (block.getHash hash) block.nBits = true :=
    checkProofOfWork_of_checkBlockHeader hacc.header
  refine ⟨prev, hacc.parent, (checkProofOfWork_autolykos (hversion.mpr hv) _).mp hpow, ?_⟩
  intro aHeight
  exact ⟨hacc.contextual, contextualCheckBlock_aHeight⟩

/-- Rules under which small blocks pass. -/
def plainRules : BlockRules where
  txSize := fun _ => 100
  legacySigOpCount := fun _ => 0
  csvActive := fun _ => false
  devPayoutScript := [0x51]
  additionalPayoutScript := [0x52]

/-- A block on top of the fork height that states the height 614400, where the table has grown. -/
def heightBlock : CBlock where
  nVersion := 5
  hashPrevBlock := 283001
  nTime := 2000
  nBits := 0x1d093ab9
  aHeight := 614400
  vtx := [{ hash := 1, nVersion := 3, nType := .coinbase, vin := [⟨⟨0, 0xffffffff⟩, [], 0xffffffff⟩],
            vout := [⟨240000000, [0x51]⟩] }]

lemma getHash_heightBlock : heightBlock.toCBlockHeader.getHash chainHash = 0 := by
  apply BitVec.eq_of_toNat_eq
  rw [CBlockHeader.getHash_of_eq _ (by decide), CBlockHeader.toNat_autolykosHash]
  change toBigInt (List.replicate 32 0) = 0
  decide

lemma heightBlock_new : heightBlock.toCBlockHeader.getHash chainHash ≠ mainChainParams.hashGenesisBlock ∧
      chainManager.blockIndex (heightBlock.toCBlockHeader.getHash chainHash) = none := by
  rw [getHash_heightBlock]
  exact ⟨by decide, rfl⟩

lemma acceptedOnto_heightBlock :
    AcceptedOnto chainHash mainChainParams chainContext chainManager heightBlock.toCBlockHeader forkEntry := by
  refine acceptedOnto_fork rfl rfl rfl (by decide) ?_
  rw [checkProofOfWork_autolykos (by decide)]
  change toBigInt (List.replicate 32 0) < _
  decide

/-- The accepted block, as an instance. -/
theorem aHeight_unchecked_heightBlock :
    ∃ prev, chainManager.blockIndex heightBlock.hashPrevBlock = some prev ∧
      hitWithTable chainHash (heightBlock.autolykosHeader 0x05 heightBlock.nBits)
        (calcN 0x05 614400) < (Uint256.setCompact heightBlock.nBits).value.toNat := by
  obtain ⟨prev, hprev, hhit, -⟩ := aHeight_unchecked chainHash chainContext chainManager _ plainRules heightBlock rfl
    heightBlock_new.1 heightBlock_new.2
    (acceptedOnto_heightBlock.acceptBlockHeader_eq heightBlock_new.1 heightBlock_new.2)
  exact ⟨prev, hprev, hhit⟩

lemma contextualCheckBlock_heightBlock :
    contextualCheckBlock plainRules mainChainParams heightBlock forkEntry.pindex = (true, none) := by
  have hheight : forkEntry.pindex.nHeight = 283000 := nHeight_chainIndex 283000
  have hcsv : plainRules.csvActive forkEntry.pindex = false := rfl
  unfold contextualCheckBlock
  rw [hheight, hcsv]
  decide

/-- A block at height 283001 that states another height, and with it another table size, passes header acceptance and
every contextual check. -/
theorem heightBlock_accepted :
    (acceptBlockHeader chainHash mainChainParams chainContext chainManager heightBlock.toCBlockHeader).1 = .ok () ∧
      heightBlock.nVersion = CBlockHeader.autolykosVersion ∧
      chainManager.blockIndex (heightBlock.toCBlockHeader.getHash chainHash) = none ∧
      chainManager.blockIndex heightBlock.hashPrevBlock = some forkEntry ∧
      contextualCheckBlock plainRules mainChainParams heightBlock forkEntry.pindex = (true, none) ∧
      (heightBlock.aHeight.toNat : ℤ) ≠ forkEntry.pindex.nHeight + 1 ∧
      calcN 0x05 heightBlock.aHeight.toInt ≠
        calcN 0x05 (forkEntry.pindex.nHeight + 1) := by
  have hheight : forkEntry.pindex.nHeight = 283000 := nHeight_chainIndex 283000
  refine ⟨?_, rfl, heightBlock_new.2, acceptedOnto_heightBlock.parent, contextualCheckBlock_heightBlock, ?_, ?_⟩
  · rw [acceptedOnto_heightBlock.acceptBlockHeader_eq heightBlock_new.1 heightBlock_new.2]
  · rw [hheight]
    decide
  · rw [hheight]
    decide

end Blocx
