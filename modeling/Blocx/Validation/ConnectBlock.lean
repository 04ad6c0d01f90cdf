import Blocx.Validation.AddressIndex
import Blocx.Validation.ContextualCheckBlock

/-!
# Connecting and disconnecting a block

`ConnectBlock` and `DisconnectBlock` (`validation.cpp`) on a cache of coins, with `CheckBlock`, `CheckTransaction` and
`CheckTxInputs`. Connecting checks the block, spends the inputs and adds the outputs of its transactions one after the
other, and returns what is stored about it: the coins that were spent, and the records for the address indexes.
Disconnecting goes backwards through the transactions, takes the outputs away and puts the inputs back.

Scripts, signature operations, locks and payments are judged by parameters, from the coins that the cache shows. The
functions for special transactions come from their own model. Writing to disk succeeds. The indexes of spent outputs and
of times are off, and a block is not marked as checked before.
-/

namespace Blocx

open CCoinsViewCache Consensus

/-! ### Checks of a block by itself -/

/-- What connecting a block takes from outside the model. -/
structure ConnectRules where
  params : Params
  hashGenesisBlock : Uint256
  BIP34Hash : Uint256
  /-- `nSuperblockStartHash`, null for any. -/
  nSuperblockStartHash : Uint256
  hash160 : List UInt8 → BitVec 160
  getBlockHash : CBlockHeader → Uint256
  checkBlockHeader : CBlockHeader → Except String Unit
  /-- `BlockMerkleRoot`, and whether the tree is mutated. -/
  blockMerkleRoot : List CTransaction → Uint256 × Bool
  getLegacySigOpCount : CTransaction → ℕ
  hasConflictingChainLock : ℤ → Uint256 → Bool
  processSpecialTxsInBlock : CBlock → CBlockIndex → (COutPoint → Option Coin) → Except String Unit
  undoSpecialTxsInBlock : CBlock → CBlockIndex → Bool
  /-- `SequenceLocks`, with the heights of the inputs. -/
  sequenceLocks : CTransaction → List ℤ → CBlockIndex → Bool
  getTransactionSigOpCount : CTransaction → (COutPoint → Option Coin) → ℕ
  checkInputs : CTransaction → (COutPoint → Option Coin) → Except String Unit
  /-- No transaction conflicts with an InstantSend lock. -/
  checkConflictingLocks : CBlock → CBlockIndex → Except String Unit
  /-- `IsBlockValueValid` and `IsBlockPayeeValid`, with the fees. -/
  checkPayments : CBlock → CBlockIndex → ℤ → Except String Unit
  fAddressIndex : Bool

def maxLegacyBlockSize : ℕ := 1000000

def maxTxExtraPayload : ℕ := 10000

def moneyRange (nValue : ℤ) : Bool := 0 ≤ nValue && nValue ≤ maxMoney

/-- `GetSerializeSize` of bytes with their length. -/
def bytesSize (bytes : List UInt8) : ℕ := compactSizeLength bytes.length + bytes.length

/-- `GetSerializeSize` of a transaction. -/
def CTransaction.serializeSize (tx : CTransaction) : ℕ :=
  4 + (compactSizeLength tx.vin.length + (tx.vin.map fun txin => 36 + bytesSize txin.scriptSig + 4).sum) +
    (compactSizeLength tx.vout.length + (tx.vout.map fun out => 8 + bytesSize out.scriptPubKey).sum) + 4 +
    if tx.nVersion = 3 ∧ tx.nType ≠ .normal then bytesSize tx.vExtraPayload else 0

/-- The loop over the amounts of the outputs, with their sum so far. -/
def checkOutputValues (nValueOut : ℤ) : List CTxOut → Except String Unit
  | [] => .ok ()
  | txout :: vout => do
    require (0 ≤ txout.nValue) "bad-txns-vout-negative"
    require (txout.nValue ≤ maxMoney) "bad-txns-vout-toolarge"
    require (moneyRange (nValueOut + txout.nValue)) "bad-txns-txouttotal-toolarge"
    checkOutputValues (nValueOut + txout.nValue) vout

def checkTransaction (tx : CTransaction) : Except String Unit := do
  let allowEmptyTxInOut := tx.nType = .quorumCommitment
  require (allowEmptyTxInOut || !tx.vin.isEmpty) "bad-txns-vin-empty"
  require (allowEmptyTxInOut || !tx.vout.isEmpty) "bad-txns-vout-empty"
  require (tx.serializeSize ≤ maxLegacyBlockSize) "bad-txns-oversize"
  require (tx.vExtraPayload.length ≤ maxTxExtraPayload) "bad-txns-payload-oversize"
  checkOutputValues 0 tx.vout
  require (decide (tx.vin.map (·.prevout)).Nodup) "bad-txns-inputs-duplicate"
  if tx.isCoinBase then
    let minCbSize := if tx.nType = .coinbase then 1 else 2
    require (tx.vin.all fun txin => minCbSize ≤ txin.scriptSig.length && txin.scriptSig.length ≤ 100) "bad-cb-length"
  else require (tx.vin.all fun txin => !txin.prevout.isNull) "bad-txns-prevout-null"

/-- The transactions pass `CheckTransaction`. -/
def checkAllTransactions : List CTransaction → Except String Unit
  | [] => .ok ()
  | tx :: vtx => do
    checkTransaction tx
    checkAllTransactions vtx

/-- `CheckBlock`, with the checks of proof of work and merkle root. -/
def checkBlock (rules : ConnectRules) (block : CBlock) : Except String Unit := do
  rules.checkBlockHeader block.toCBlockHeader
  require (block.hashMerkleRoot = (rules.blockMerkleRoot block.vtx).1) "bad-txnmrklroot"
  require (!(rules.blockMerkleRoot block.vtx).2) "bad-txns-duplicate"
  let size := block.toCBlockHeader.serialize.length + compactSizeLength block.vtx.length +
    (block.vtx.map CTransaction.serializeSize).sum
  require (!(block.vtx.isEmpty || block.vtx.length > maxBlockSize true || size > maxBlockSize true)) "bad-blk-length"
  require (block.vtx.head?.any (·.isCoinBase)) "bad-cb-missing"
  require ((block.vtx.drop 1).all (!·.isCoinBase)) "bad-cb-multiple"
  checkAllTransactions block.vtx
  require ((block.vtx.map rules.getLegacySigOpCount).sum ≤ maxBlockSigOps true) "bad-blk-sigops"

/-! ### Checks of the inputs -/

/-- A check that marks the block invalid. -/
def checkOrInvalid (check : Except String Unit) : CoinsM Unit :=
  match check with
  | .ok _ => return ()
  | .error reason => throw (.invalid reason)

def haveInputs : List CTxIn → CoinsM Bool
  | [] => return true
  | txin :: vin => do
    if ← haveCoin txin.prevout then haveInputs vin else return false

def getCurrentCoinBaseMaturity (nHeight : ℤ) : ℤ := if nHeight ≤ 283000 then 4 else 15

/-- The loop of `CheckTxInputs` over the inputs, with their sum so far. -/
def checkInputValues (nSpendHeight nValueIn : ℤ) : List CTxIn → CoinsM ℤ
  | [] => return nValueIn
  | txin :: vin => do
    let coin ← accessCoin txin.prevout
    if coin.isSpent then throw .assertion
    else if coin.fCoinBase ∧ nSpendHeight - coin.nHeight < getCurrentCoinBaseMaturity coin.nHeight then
      throw (.invalid "bad-txns-premature-spend-of-coinbase")
    else if !moneyRange coin.out.nValue ∨ !moneyRange (nValueIn + coin.out.nValue) then
      throw (.invalid "bad-txns-inputvalues-outofrange")
    else checkInputValues nSpendHeight (nValueIn + coin.out.nValue) vin

def getValueOut (nValueOut : ℤ) : List CTxOut → CoinsM ℤ
  | [] => return nValueOut
  | txout :: vout =>
    if !moneyRange txout.nValue ∨ !moneyRange (nValueOut + txout.nValue) then throw .assertion
    else getValueOut (nValueOut + txout.nValue) vout

/-- `CheckTxInputs`: the fee of a transaction that is not a coinbase. -/
def checkTxInputs (tx : CTransaction) (nSpendHeight : ℤ) : CoinsM ℤ := do
  if !(← haveInputs tx.vin) then throw (.invalid "bad-txns-inputs-missingorspent")
  else do
    let nValueIn ← checkInputValues nSpendHeight 0 tx.vin
    let valueOut ← getValueOut 0 tx.vout
    if nValueIn < valueOut then throw (.invalid "bad-txns-in-belowout")
    else if !moneyRange (nValueIn - valueOut) then throw (.invalid "bad-txns-fee-outofrange")
    else return nValueIn - valueOut

/-- The heights of the coins that are spent. -/
def prevHeights : List CTxIn → CoinsM (List ℤ)
  | [] => return []
  | txin :: vin => do
    let coin ← accessCoin txin.prevout
    let heights ← prevHeights vin
    return coin.nHeight :: heights

/-! ### Connecting -/

/-- What is stored about a transaction. -/
structure TxUpdate where
  /-- `CTxUndo`: the coins that were spent. -/
  vprevout : List Coin
  records : List IndexRecord

/-- What is stored about a block. -/
structure BlockUpdate where
  /-- `CBlockUndo`: the coins that were spent, for all but the coinbase. -/
  vtxundo : List (List Coin)
  records : List IndexRecord

/-- The loop of `UpdateCoins` over the inputs. -/
def spendInputs : List CTxIn → CoinsM (List Coin)
  | [] => return []
  | txin :: vin => do
    match ← spendCoin txin.prevout with
    | none => throw .assertion
    | some coin => do
      let coins ← spendInputs vin
      return coin :: coins

/-- Mark the inputs spent, unless the transaction is a coinbase. -/
def spendTxInputs (tx : CTransaction) : CoinsM (List Coin) :=
  if tx.isCoinBase then return [] else spendInputs tx.vin

/-- `UpdateCoins`: the coins that were spent. -/
def updateCoins (tx : CTransaction) (nHeight : ℤ) : CoinsM (List Coin) := do
  let vprevout ← spendTxInputs tx
  addCoins tx nHeight
  return vprevout

section Connect

variable (rules : ConnectRules) (pindex : CBlockIndex)

def recordInputs (i : ℕ) (txhash : Uint256) (j : ℕ) : List CTxIn → CoinsM (List IndexRecord)
  | [] => return []
  | txin :: vin => do
    let coin ← accessCoin txin.prevout
    let records ← recordInputs i txhash (j + 1) vin
    return (recordInput rules.hash160 pindex.nHeight i txhash j txin coin.out).toList ++ records

/-- The records of the inputs of a transaction, if the index is on. -/
def recordTxInputs (i : ℕ) (tx : CTransaction) : CoinsM (List IndexRecord) :=
  if tx.isCoinBase ∨ !rules.fAddressIndex then return [] else recordInputs rules pindex i tx.hash 0 tx.vin

def recordOutputs (i : ℕ) (tx : CTransaction) : List IndexRecord :=
  tx.vout.zipIdx.filterMap fun (out, k) => recordOutput rules.hash160 pindex.nHeight i tx.hash k out

/-- The checks of the inputs of a transaction that is not a coinbase: the sum of the fees. -/
def connectInputs (nFees : ℤ) (tx : CTransaction) : CoinsM ℤ :=
  if tx.isCoinBase then return nFees
  else do
    let txfee ← checkTxInputs tx pindex.nHeight
    if !moneyRange (nFees + txfee) then throw (.invalid "bad-txns-accumulated-fee-outofrange")
    else do
      let prevheights ← prevHeights tx.vin
      if !rules.sequenceLocks tx prevheights pindex then throw (.invalid "bad-txns-nonfinal")
      else return nFees + txfee

/-- A turn of the loop of `ConnectBlock`, with the fees and the signature operations so far. -/
def connectTx (i : ℕ) (nFees : ℤ) (nSigOps : ℕ) (tx : CTransaction) : CoinsM (TxUpdate × ℤ × ℕ) := do
  let nFees ← connectInputs rules pindex nFees tx
  let inputs ← recordTxInputs rules pindex i tx
  let view ← get
  let nSigOps := nSigOps + rules.getTransactionSigOpCount tx view.lookup
  if nSigOps > maxBlockSigOps (pindex.nHeight ≥ rules.params.DIP0001Height) then throw (.invalid "bad-blk-sigops")
  else do
    checkOrInvalid (if tx.isCoinBase then .ok () else rules.checkInputs tx view.lookup)
    let outputs := if rules.fAddressIndex then recordOutputs rules pindex i tx else []
    let vprevout ← updateCoins tx pindex.nHeight
    return ({ vprevout := vprevout, records := inputs ++ outputs }, nFees, nSigOps)

/-- The loop of `ConnectBlock` from an index on. -/
def connectTxs (i : ℕ) (nFees : ℤ) (nSigOps : ℕ) : List CTransaction → CoinsM (List TxUpdate × ℤ)
  | [] => return ([], nFees)
  | tx :: vtx => do
    let (update, nFees, nSigOps) ← connectTx rules pindex i nFees nSigOps tx
    let (updates, nFees) ← connectTxs (i + 1) nFees nSigOps vtx
    return (update :: updates, nFees)

/-- Outputs of transactions overwrite no coin, unless the block is one of two known ones or the chain is the known one
since BIP34. -/
def fEnforceBIP30 (pprev : CBlockIndex) : Bool :=
  let hash := rules.getBlockHash pindex.header
  !(pindex.nHeight = 91842 && hash = 0x00000000000a4d0a398161ffc163c503763b1f4360639393e0e4c8e300e0caec ||
    pindex.nHeight = 91880 && hash = 0x00000000000743f190a18c5577a3c2d2a1f610ae9601ac046a38084ccb7cd721) &&
  !(pprev.getAncestor rules.params.BIP34Height).any fun p => rules.getBlockHash p.header = rules.BIP34Hash

/-- The outpoints of a transaction from an index on. -/
def outpointsFrom (hash : Uint256) (i : ℕ) : List CTxOut → List COutPoint
  | [] => []
  | _ :: vout => ⟨hash, BitVec.ofNat 32 i⟩ :: outpointsFrom hash (i + 1) vout

def checkBIP30 : List COutPoint → CoinsM Unit
  | [] => return ()
  | o :: os => do
    if ← haveCoin o then throw (.invalid "bad-txns-BIP30") else checkBIP30 os

/-- `ConnectBlock`, with the best block of the evo database. The genesis block is not connected. -/
def connectBlock (block : CBlock) (evoBestBlock : Option Uint256) : CoinsM (Option BlockUpdate) := do
  let blockHash := rules.getBlockHash block.toCBlockHeader
  if rules.getBlockHash pindex.header ≠ blockHash then throw .assertion
  else do
    checkOrInvalid (checkBlock rules block)
    if pindex.pprev.isSome ∧ rules.hasConflictingChainLock pindex.nHeight blockHash then
      throw (.invalid "bad-chainlock")
    else do
      let view ← get
      let hashPrevBlock := pindex.pprev.elim 0 fun p => rules.getBlockHash p.header
      if hashPrevBlock ≠ view.getBestBlock then throw .assertion
      else if pindex.pprev.isSome ∧ pindex.nHeight ≥ rules.params.DIP0003Height ∧ evoBestBlock ≠ some hashPrevBlock then
        throw .failed
      else if blockHash = rules.hashGenesisBlock then do
        modify fun view => { view with hashBlock := blockHash }
        return none
      else match pindex.pprev with
        | none => throw .assertion
        | some pprev => do
          checkBIP30 (if fEnforceBIP30 rules pindex pprev then
            block.vtx.flatMap fun tx => outpointsFrom tx.hash 0 tx.vout else [])
          if pindex.nHeight = rules.params.nSuperblockStartBlock ∧ rules.nSuperblockStartHash ≠ 0 ∧
              blockHash ≠ rules.nSuperblockStartHash then throw (.invalid "bad-sb-start")
          else do
            let view ← get
            checkOrInvalid (rules.processSpecialTxsInBlock block pindex view.lookup)
            let (updates, nFees) ← connectTxs rules pindex 0 0 0 block.vtx
            checkOrInvalid (rules.checkConflictingLocks block pindex)
            checkOrInvalid (rules.checkPayments block pindex nFees)
            modify fun view => { view with hashBlock := blockHash }
            return some {
              vtxundo := (updates.drop 1).map (·.vprevout)
              records := updates.flatMap (·.records) }

end Connect

/-! ### Disconnecting -/

inductive DisconnectResult where
  | ok
  | unclean
  | failed
  deriving DecidableEq

/-- `ApplyTxInUndo`. Height 0 stands for metadata that old versions did not write. -/
def applyTxInUndo (undo : Coin) (out : COutPoint) : CoinsM DisconnectResult := do
  let fClean := !(← haveCoin out)
  if undo.nHeight = 0 then do
    let alternate ← accessByTxid out.hash
    if alternate.isSpent then return .failed
    else do
      addCoin out { undo with nHeight := alternate.nHeight, fCoinBase := alternate.fCoinBase } !fClean
      return if fClean then .ok else .unclean
  else do
    addCoin out undo !fClean
    return if fClean then .ok else .unclean

/-- Take an output away, unless it cannot be spent: whether it was there as the transaction has it. -/
def spendOutput (hash : Uint256) (isCoinbase : Bool) (nHeight : ℤ) (o : ℕ) (out : CTxOut) : CoinsM Bool :=
  if isUnspendable out.scriptPubKey then return true
  else do
    let coin ← spendCoin ⟨hash, BitVec.ofNat 32 o⟩
    return coin.any fun coin => out = coin.out && nHeight = coin.nHeight && isCoinbase = coin.fCoinBase

/-- The loop over the outputs from an index on: whether all of them were there. -/
def spendOutputs (hash : Uint256) (isCoinbase : Bool) (nHeight : ℤ) (o : ℕ) : List CTxOut → CoinsM Bool
  | [] => return true
  | out :: vout => do
    let clean ← spendOutput hash isCoinbase nHeight o out
    let rest ← spendOutputs hash isCoinbase nHeight (o + 1) vout
    return clean && rest

variable (rules : ConnectRules) (pindex : CBlockIndex)

/-- The record of an input that was put back, if the index is on. -/
def undoTxInput (i : ℕ) (txhash : Uint256) (j : ℕ) (txin : CTxIn) (undoHeight : ℤ) : CoinsM (List IndexRecord) :=
  if !rules.fAddressIndex then return []
  else do
    let coin ← accessCoin txin.prevout
    return (undoInput rules.hash160 pindex.nHeight i txhash j txin coin.out undoHeight).toList

/-- The loop over the inputs: whether none of them was there, and the records. -/
def restoreInputs (i : ℕ) (txhash : Uint256) : List ((CTxIn × Coin) × ℕ) → CoinsM (Bool × List IndexRecord)
  | [] => return (true, [])
  | ((txin, undo), j) :: inputs => do
    let res ← applyTxInUndo undo txin.prevout
    if res = .failed then throw .failed
    else do
      let records ← undoTxInput rules pindex i txhash j txin undo.nHeight
      let (clean, more) ← restoreInputs i txhash inputs
      return (res ≠ .unclean && clean, records ++ more)

/-- The records of the outputs, the last one first. -/
def undoOutputs (i : ℕ) (tx : CTransaction) : List IndexRecord :=
  tx.vout.zipIdx.reverse.filterMap fun (out, k) => undoOutput rules.hash160 pindex.nHeight i tx.hash k out

/-- A turn of the loop of `DisconnectBlock`. -/
def disconnectTx (i : ℕ) (tx : CTransaction) (vprevout : List Coin) : CoinsM (Bool × List IndexRecord) := do
  let outputs := if rules.fAddressIndex then undoOutputs rules pindex i tx else []
  let fClean ← spendOutputs tx.hash tx.isCoinBase pindex.nHeight 0 tx.vout
  if i = 0 then return (fClean, outputs)
  else if vprevout.length ≠ tx.vin.length then throw .failed
  else do
    let (clean, inputs) ← restoreInputs rules pindex i tx.hash (tx.vin.zip vprevout).zipIdx.reverse
    return (fClean && clean, outputs ++ inputs)

/-- The loop of `DisconnectBlock`. -/
def disconnectTxs : List ((CTransaction × List Coin) × ℕ) → CoinsM (Bool × List IndexRecord)
  | [] => return (true, [])
  | ((tx, vprevout), i) :: txs => do
    let (clean, records) ← disconnectTx rules pindex i tx vprevout
    let (rest, more) ← disconnectTxs txs
    return (clean && rest, records ++ more)

/-- `DisconnectBlock` up to its failures. -/
def disconnectBlockOrFail (block : CBlock) (evoBestBlock : Option Uint256) (vtxundo : List (List Coin)) :
    CoinsM (DisconnectResult × List IndexRecord) := do
  if pindex.nHeight ≥ rules.params.DIP0003Height ∧ evoBestBlock ≠ some (rules.getBlockHash pindex.header) then
    throw .failed
  else if vtxundo.length + 1 ≠ block.vtx.length then throw .failed
  else if !rules.undoSpecialTxsInBlock block pindex then throw .failed
  else do
    let (fClean, records) ← disconnectTxs rules pindex (block.vtx.zip ([] :: vtxundo)).zipIdx.reverse
    match pindex.pprev with
    | none => throw .assertion
    | some pprev => do
      modify fun view => { view with hashBlock := rules.getBlockHash pprev.header }
      return (if fClean then .ok else .unclean, records)

/-- `DisconnectBlock`, with the coins that were stored as spent: the result, and the records that are taken out of the
address indexes. -/
def disconnectBlock (block : CBlock) (evoBestBlock : Option Uint256) (vtxundo : List (List Coin)) :
    CoinsM (DisconnectResult × List IndexRecord) :=
  tryCatch (disconnectBlockOrFail rules pindex block evoBestBlock vtxundo) fun e =>
    match e with
    | .failed => return (.failed, [])
    | e => throw e

end Blocx
