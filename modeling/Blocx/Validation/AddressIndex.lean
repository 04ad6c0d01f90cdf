import Blocx.Coins.Cache
import Blocx.Evo.ProviderTx

/-!
# The address index

The optional indexes by address: what each address received and spent (`CAddressIndexKey`) and what it has unspent
(`CAddressUnspentKey`), with the records that `ConnectBlock` and `DisconnectBlock` (`validation.cpp`) make for the
inputs and outputs of a transaction, and the three batch writes of `CBlockTreeDB` (`txdb.cpp`).

A script that pays to a script hash, to the hash of a public key or to a public key belongs to an address; the last two
kinds share a type. The records that are made for such a script are the same for all kinds but one:
`DisconnectBlock` has a branch of its own for inputs that spend a script that pays to a public key.
-/

namespace Blocx

open Wire

/-! ### Addresses -/

def isPayToPublicKey (script : CScript) : Bool :=
  if script.length = 35 then (script[1]? = some 0x02 || script[1]? = some 0x03) && script[34]? = some 0xac
  else if script.length = 67 then script[1]? = some 0x04 && script[66]? = some 0xac
  else false

/-- The kinds of scripts that belong to an address. -/
inductive AddressKind where
  | scriptHash
  | pubKeyHash
  | pubKey
  deriving DecidableEq

/-- The kind of a script, in the order in which the source asks. -/
def addressKind (script : CScript) : Option AddressKind :=
  if isPayToScriptHash script then some .scriptHash
  else if isPayToPublicKeyHash script then some .pubKeyHash
  else if isPayToPublicKey script then some .pubKey
  else none

def AddressKind.type : AddressKind → ℕ
  | scriptHash => 2
  | pubKeyHash => 1
  | pubKey => 1

def AddressKind.hashBytes (hash160 : List UInt8 → BitVec 160) (script : CScript) : AddressKind → BitVec 160
  | scriptHash => BitVec.ofNat 160 (leValue ((script.drop 2).take 20))
  | pubKeyHash => BitVec.ofNat 160 (leValue ((script.drop 3).take 20))
  | pubKey => hash160 (script.drop 1).dropLast

/-! ### Keys and values -/

structure CAddressIndexKey where
  type : ℕ
  hashBytes : BitVec 160
  blockHeight : ℤ
  /-- Position of the transaction in the block. -/
  txindex : ℕ
  txhash : Uint256
  /-- Position of the input or output. -/
  index : ℕ
  /-- Whether it is an input. -/
  spending : Bool
  deriving DecidableEq

structure CAddressUnspentKey where
  type : ℕ
  hashBytes : BitVec 160
  txhash : Uint256
  index : ℕ
  deriving DecidableEq

structure CAddressUnspentValue where
  /-- Amount, -1 in the null value. -/
  satoshis : ℤ := -1
  script : CScript := []
  blockHeight : ℤ := 0
  deriving DecidableEq

def CAddressUnspentValue.isNull (value : CAddressUnspentValue) : Bool := value.satoshis = -1

/-- What is recorded of an input or an output: an entry for each of the two indexes. -/
structure IndexRecord where
  address : CAddressIndexKey × ℤ
  unspent : CAddressUnspentKey × CAddressUnspentValue

/-! ### Records -/

section

variable (hash160 : List UInt8 → BitVec 160) (nHeight : ℤ) (i : ℕ) (txhash : Uint256)

def indexKey (script : CScript) (kind : AddressKind) (index : ℕ) (spending : Bool) : CAddressIndexKey where
  type := kind.type
  hashBytes := kind.hashBytes hash160 script
  blockHeight := nHeight
  txindex := i
  txhash := txhash
  index := index
  spending := spending

def unspentKey (script : CScript) (kind : AddressKind) (hash : Uint256) (index : ℕ) : CAddressUnspentKey where
  type := kind.type
  hashBytes := kind.hashBytes hash160 script
  txhash := hash
  index := index

/-- `ConnectBlock`: an output is received. -/
def recordOutput (k : ℕ) (out : CTxOut) : Option IndexRecord :=
  (addressKind out.scriptPubKey).map fun kind => {
    address := (indexKey hash160 nHeight i txhash out.scriptPubKey kind k false, out.nValue)
    unspent := (unspentKey hash160 out.scriptPubKey kind txhash k, ⟨out.nValue, out.scriptPubKey, nHeight⟩) }

/-- `DisconnectBlock`: receiving is undone. -/
def undoOutput (k : ℕ) (out : CTxOut) : Option IndexRecord :=
  (addressKind out.scriptPubKey).map fun kind => {
    address := (indexKey hash160 nHeight i txhash out.scriptPubKey kind k false, out.nValue)
    unspent := (unspentKey hash160 out.scriptPubKey kind txhash k, {}) }

/-- `ConnectBlock`: an output is spent. -/
def recordInput (j : ℕ) (input : CTxIn) (prevout : CTxOut) : Option IndexRecord :=
  (addressKind prevout.scriptPubKey).map fun kind => {
    address := (indexKey hash160 nHeight i txhash prevout.scriptPubKey kind j true, prevout.nValue * -1)
    unspent := (unspentKey hash160 prevout.scriptPubKey kind input.prevout.hash input.prevout.n.toNat, {}) }

/-- `DisconnectBlock`: spending is undone. The branch for scripts that pay to a public key is written as for an output
that is received. -/
def undoInput (j : ℕ) (input : CTxIn) (prevout : CTxOut) (undoHeight : ℤ) : Option IndexRecord :=
  match addressKind prevout.scriptPubKey with
  | some .pubKey => some {
      address := (indexKey hash160 nHeight i txhash prevout.scriptPubKey .pubKey j false, prevout.nValue)
      unspent := (unspentKey hash160 prevout.scriptPubKey .pubKey txhash j, {}) }
  | some kind => some {
      address := (indexKey hash160 nHeight i txhash prevout.scriptPubKey kind j true, prevout.nValue * -1)
      unspent := (unspentKey hash160 prevout.scriptPubKey kind input.prevout.hash input.prevout.n.toNat,
        ⟨prevout.nValue, prevout.scriptPubKey, undoHeight⟩) }
  | none => none

end

/-! ### The database -/

/-- The two indexes in the database. -/
structure AddressDb where
  addressIndex : CAddressIndexKey → Option ℤ
  unspentIndex : CAddressUnspentKey → Option CAddressUnspentValue

def AddressDb.writeAddressIndex (vect : List (CAddressIndexKey × ℤ)) (db : AddressDb) : AddressDb :=
  { db with addressIndex := applyBatch (vect.map fun entry => (entry.1, some entry.2)) db.addressIndex }

def AddressDb.eraseAddressIndex (vect : List (CAddressIndexKey × ℤ)) (db : AddressDb) : AddressDb :=
  { db with addressIndex := applyBatch (vect.map fun entry => (entry.1, none)) db.addressIndex }

def AddressDb.updateAddressUnspentIndex (vect : List (CAddressUnspentKey × CAddressUnspentValue)) (db : AddressDb) :
    AddressDb :=
  { db with
    unspentIndex := applyBatch (vect.map fun entry => (entry.1, if entry.2.isNull then none else some entry.2))
      db.unspentIndex }

/-- What `ConnectBlock` writes to the indexes. -/
def AddressDb.connect (records : List IndexRecord) (db : AddressDb) : AddressDb :=
  (db.writeAddressIndex (records.map (·.address))).updateAddressUnspentIndex (records.map (·.unspent))

/-- What `DisconnectBlock` writes to the indexes. -/
def AddressDb.disconnect (records : List IndexRecord) (db : AddressDb) : AddressDb :=
  (db.eraseAddressIndex (records.map (·.address))).updateAddressUnspentIndex (records.map (·.unspent))

end Blocx
