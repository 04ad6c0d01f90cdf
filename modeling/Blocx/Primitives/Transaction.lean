import Blocx.Primitives.Uint256

/-!
# Transactions

`CTransaction` with the fields that block and masternode rules read. The hash of a transaction is a function of its
serialisation and is carried as a field; scripts and extra payloads are byte strings.
-/

namespace Blocx

structure COutPoint where
  hash : Uint256
  /-- Index of the output. -/
  n : BitVec 32
  deriving DecidableEq

structure CTxIn where
  prevout : COutPoint
  scriptSig : List UInt8 := []
  nSequence : BitVec 32 := 0xffffffff
  deriving DecidableEq

structure CTxOut where
  nValue : ℤ
  scriptPubKey : List UInt8
  deriving DecidableEq

/-- Transaction types, `nType`; the other 16-bit values have no name. -/
inductive TxType where
  | normal
  | providerRegister
  | providerUpdateService
  | providerUpdateRegistrar
  | providerUpdateRevoke
  | coinbase
  | quorumCommitment
  | mnhfSignal
  | other (nType : BitVec 16)
  deriving DecidableEq

structure CTransaction where
  hash : Uint256
  /-- Version, `int16_t`. -/
  nVersion : ℤ
  nType : TxType
  vin : List CTxIn
  vout : List CTxOut
  nLockTime : BitVec 32 := 0
  /-- Payload of a special transaction. -/
  vExtraPayload : List UInt8 := []
  deriving DecidableEq

def COutPoint.isNull (o : COutPoint) : Bool := o.hash = 0 && o.n = 0xffffffff

def CTransaction.isCoinBase (tx : CTransaction) : Bool :=
  match tx.vin with
  | [txin] => txin.prevout.isNull
  | _ => false

def locktimeThreshold : ℤ := 500000000

def isFinalTx (tx : CTransaction) (nBlockHeight nBlockTime : ℤ) : Bool :=
  if tx.nLockTime = 0 then true
  else if (tx.nLockTime.toNat : ℤ) <
      (if (tx.nLockTime.toNat : ℤ) < locktimeThreshold then nBlockHeight else nBlockTime) then true
  else tx.vin.all fun txin => txin.nSequence = 0xffffffff

end Blocx
