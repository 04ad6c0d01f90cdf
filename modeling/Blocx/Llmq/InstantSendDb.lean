import Blocx.Lib.LruCache
import Blocx.Lib.OrderedStore
import Blocx.Llmq.PendingLocks

/-!
# The InstantSend database

`CInstantSendDb` (`llmq/instantsend.cpp`). A lock is stored under its hash, and its hash under its transaction and under
each of its inputs. When its transaction is mined, a record by height is added; when the block is confirmed, the lock is
removed and its hash goes to the archive, and later the archive is pruned. Three caches stand in front of the tables.
Removals are collected in a batch, so that the lookups of one call all read the tables as they were before it.

The records by height are kept under the difference of the height from the greatest 32-bit number, big-endian, so that
an iterator gives the greatest heights first; `InversedKey` has this order. Among records of one height, and of one
parent, the order of hashes and indexes is taken to be numerical, where the store compares the bytes; nothing depends on
it.
-/

namespace Blocx

open Function

variable {Sig : Type}

/-! ### Serialisation -/

/-- `CLIENT_VERSION`, of version 4.0.3 (`configure.ac`). The streams of a database have it. -/
def clientVersion : ℕ := 10000 * 4 + 100 * 0 + 3

/-- `PROTOCOL_VERSION`, the version of streams that are hashed. -/
def protocolVersion : ℕ := 70228

def isdlockProtoVersion : ℕ := 70221

/-- The fields of a lock in a stream. -/
structure SerializedLock (Sig : Type) where
  /-- The version, if it is written. -/
  nVersion : Option (BitVec 8)
  inputs : List COutPoint
  txid : Uint256
  /-- Block of the cycle, if it is written. -/
  cycleHash : Option Uint256
  sig : Option Sig
  deriving DecidableEq

/-- Write a lock to a stream of a version. -/
def CInstantSendLock.serialize (version : ℕ) (islock : CInstantSendLock Sig) : SerializedLock Sig where
  nVersion := if isdlockProtoVersion ≤ version ∧ islock.isDeterministic then some islock.nVersion else none
  inputs := islock.inputs
  txid := islock.txid
  cycleHash := if isdlockProtoVersion ≤ version ∧ islock.isDeterministic then some islock.cycleHash else none
  sig := islock.sig

/-- Read a lock that was made for a version. What is not in the stream stays as it was made. -/
def SerializedLock.unserialize (desiredVersion : BitVec 8) (r : SerializedLock Sig) : CInstantSendLock Sig where
  nVersion := r.nVersion.getD desiredVersion
  inputs := r.inputs
  txid := r.txid
  cycleHash := r.cycleHash.getD 0
  sig := r.sig

def CInstantSendLock.serializeHash (hashLock : SerializedLock Sig → Uint256) (islock : CInstantSendLock Sig) :
    Uint256 :=
  hashLock (islock.serialize protocolVersion)

/-! ### Tables -/

/-- Key of a record by height. -/
structure InversedKey where
  nHeight : ℕ
  islockHash : Uint256
  deriving DecidableEq

instance : LinearOrder InversedKey :=
  LinearOrder.lift' (fun k => (toLex (OrderDual.toDual k.nHeight, k.islockHash.toNat) : ℕᵒᵈ ×ₗ ℕ)) fun k k' h => by
    obtain ⟨hheight, hhash⟩ := Prod.mk.inj (toLex_inj.mp h)
    cases k
    cases k'
    simp_all [BitVec.toNat_inj]

instance : LinearOrder COutPoint :=
  LinearOrder.lift' (fun o => (toLex (o.hash.toNat, o.n.toNat) : ℕ ×ₗ ℕ)) fun o o' h => by
    obtain ⟨hhash, hn⟩ := Prod.mk.inj (toLex_inj.mp h)
    cases o
    cases o'
    simp_all [BitVec.toNat_inj]

def buildInversedISLockKey (nHeight : ℕ) (islockHash : Uint256) : InversedKey := ⟨nHeight, islockHash⟩

/-- The tables of the database. -/
structure IsTables (Sig : Type) where
  /-- The locks, `is_i`. -/
  islockByHash : Uint256 → Option (SerializedLock Sig) := fun _ => none
  /-- Hash of the lock of a transaction, `is_tx`. -/
  hashByTxid : Uint256 → Option Uint256 := fun _ => none
  /-- Hash of the lock of an input, `is_in`. -/
  hashByOutpoint : OrderedStore COutPoint Uint256 := {}
  /-- Records of locks whose transaction is mined, `is_m`. -/
  minedByHeightAndHash : OrderedStore InversedKey Unit := {}
  /-- Records of archived locks, `is_a1`. -/
  archivedByHeightAndHash : OrderedStore InversedKey Unit := {}
  /-- Hashes of archived locks, `is_a2`. -/
  archivedByHash : Uint256 → Bool := fun _ => false

/-- A change in a batch. -/
inductive IsChange (Sig : Type) where
  | writeIslock (hash : Uint256) (islock : SerializedLock Sig)
  | eraseIslock (hash : Uint256)
  | writeTxid (txid hash : Uint256)
  | eraseTxid (txid : Uint256)
  | writeOutpoint (outpoint : COutPoint) (hash : Uint256)
  | eraseOutpoint (outpoint : COutPoint)
  | writeMined (key : InversedKey)
  | eraseMined (key : InversedKey)
  | writeArchived (key : InversedKey)
  | eraseArchived (key : InversedKey)
  | writeArchivedHash (hash : Uint256)
  | eraseArchivedHash (hash : Uint256)

namespace IsTables

/-- Make a change. -/
def apply (t : IsTables Sig) : IsChange Sig → IsTables Sig
  | .writeIslock hash islock => { t with islockByHash := update t.islockByHash hash (some islock) }
  | .eraseIslock hash => { t with islockByHash := update t.islockByHash hash none }
  | .writeTxid txid hash => { t with hashByTxid := update t.hashByTxid txid (some hash) }
  | .eraseTxid txid => { t with hashByTxid := update t.hashByTxid txid none }
  | .writeOutpoint outpoint hash => { t with hashByOutpoint := t.hashByOutpoint.write outpoint hash }
  | .eraseOutpoint outpoint => { t with hashByOutpoint := t.hashByOutpoint.erase outpoint }
  | .writeMined key => { t with minedByHeightAndHash := t.minedByHeightAndHash.write key () }
  | .eraseMined key => { t with minedByHeightAndHash := t.minedByHeightAndHash.erase key }
  | .writeArchived key => { t with archivedByHeightAndHash := t.archivedByHeightAndHash.write key () }
  | .eraseArchived key => { t with archivedByHeightAndHash := t.archivedByHeightAndHash.erase key }
  | .writeArchivedHash hash => { t with archivedByHash := update t.archivedByHash hash true }
  | .eraseArchivedHash hash => { t with archivedByHash := update t.archivedByHash hash false }

def writeBatch (t : IsTables Sig) (batch : List (IsChange Sig)) : IsTables Sig := batch.foldl apply t

/-- Read a lock. It may be of either version; the one with the right hash is taken. -/
def readLock (hashLock : SerializedLock Sig → Uint256) (t : IsTables Sig) (hash : Uint256) :
    Option (CInstantSendLock Sig) :=
  match t.islockByHash hash with
  | none => none
  | some r =>
    if (r.unserialize 1).serializeHash hashLock = hash then some (r.unserialize 1)
    else if (r.unserialize 0).serializeHash hashLock = hash then some (r.unserialize 0)
    else none

def getInstantSendLocksByParent (t : IsTables Sig) (parent : Uint256) : List Uint256 :=
  ((t.hashByOutpoint.seek ⟨parent, 0⟩).takeWhile (·.1.hash = parent)).map (·.2)

end IsTables

/-- The changes of `WriteNewInstantSendLock`. -/
def writeLockChanges (hash : Uint256) (islock : CInstantSendLock Sig) : List (IsChange Sig) :=
  [.writeIslock hash (islock.serialize clientVersion), .writeTxid islock.txid hash] ++
    islock.inputs.map (.writeOutpoint · hash)

/-- The changes of `RemoveInstantSendLock`. -/
def eraseLockChanges (hash : Uint256) (islock : CInstantSendLock Sig) : List (IsChange Sig) :=
  [.eraseIslock hash, .eraseTxid islock.txid] ++ islock.inputs.map .eraseOutpoint

/-- The changes of `WriteInstantSendLockArchived`. -/
def archiveChanges (hash : Uint256) (nHeight : ℕ) : List (IsChange Sig) :=
  [.writeArchived (buildInversedISLockKey nHeight hash), .writeArchivedHash hash]

/-! ### Lookups -/

structure CInstantSendDb (Sig : Type) where
  /-- The greatest height up to which locks were removed as confirmed. -/
  bestConfirmedHeight : ℤ := 0
  tables : IsTables Sig := {}
  /-- Locks by hash; it also remembers that there is none. -/
  islockCache : LruCache Uint256 (Option (CInstantSendLock Sig))
  txidCache : LruCache Uint256 Uint256
  outpointCache : LruCache COutPoint Uint256

namespace CInstantSendDb

variable (hashLock : SerializedLock Sig → Uint256) (db : CInstantSendDb Sig)

def getInstantSendLockByHashInternal (hash : Uint256) (useCache : Bool) :
    Option (CInstantSendLock Sig) × CInstantSendDb Sig :=
  if hash = 0 then (none, db)
  else
    match if useCache then db.islockCache.get hash else (none, db.islockCache) with
    | (some ret, cache) => (ret, { db with islockCache := cache })
    | (none, cache) =>
      let ret := db.tables.readLock hashLock hash
      (ret, { db with islockCache := cache.insert hash ret })

def getInstantSendLockHashByTxidInternal (txid : Uint256) : Uint256 × CInstantSendDb Sig :=
  match db.txidCache.get txid with
  | (some islockHash, cache) => (islockHash, { db with txidCache := cache })
  | (none, cache) =>
    match db.tables.hashByTxid txid with
    | none => (0, { db with txidCache := cache })
    | some islockHash => (islockHash, { db with txidCache := cache.insert txid islockHash })

def getInstantSendLockByTxid (txid : Uint256) : Option (CInstantSendLock Sig) × CInstantSendDb Sig :=
  let (islockHash, db) := db.getInstantSendLockHashByTxidInternal txid
  db.getInstantSendLockByHashInternal hashLock islockHash true

def getInstantSendLockByInput (outpoint : COutPoint) : Option (CInstantSendLock Sig) × CInstantSendDb Sig :=
  match db.outpointCache.get outpoint with
  | (some islockHash, cache) =>
    ({ db with outpointCache := cache } : CInstantSendDb Sig).getInstantSendLockByHashInternal hashLock islockHash true
  | (none, cache) =>
    match db.tables.hashByOutpoint.get outpoint with
    | none => (none, { db with outpointCache := cache })
    | some islockHash =>
      ({ db with outpointCache := cache.insert outpoint islockHash } :
        CInstantSendDb Sig).getInstantSendLockByHashInternal
        hashLock islockHash true

def knownInstantSendLock (islockHash : Uint256) : Bool × CInstantSendDb Sig :=
  let (islock, db) := db.getInstantSendLockByHashInternal hashLock islockHash true
  (islock.isSome || db.tables.archivedByHash islockHash, db)

/-! ### Writes and removals -/

def writeNewInstantSendLock (hash : Uint256) (islock : CInstantSendLock Sig) : CInstantSendDb Sig :=
  { db with
    tables := db.tables.writeBatch (writeLockChanges hash islock)
    islockCache := db.islockCache.insert hash (some islock)
    txidCache := db.txidCache.insert islock.txid hash
    outpointCache := islock.inputs.foldl (fun cache o => cache.insert o hash) db.outpointCache }

/-- What `RemoveInstantSendLock` takes out of the caches. -/
def forgetLock (hash : Uint256) (islock : CInstantSendLock Sig) : CInstantSendDb Sig :=
  { db with
    islockCache := db.islockCache.erase hash
    txidCache := db.txidCache.erase islock.txid
    outpointCache := islock.inputs.foldl LruCache.erase db.outpointCache }

/-- `RemoveInstantSendLock`. It reads the lock if it is not given one. -/
def removeInstantSendLock (batch : List (IsChange Sig)) (hash : Uint256) (islock : Option (CInstantSendLock Sig))
    (keepCache : Bool) : List (IsChange Sig) × CInstantSendDb Sig :=
  let (islock, db) := match islock with
    | some islock => (some islock, db)
    | none => db.getInstantSendLockByHashInternal hashLock hash false
  match islock with
  | none => (batch, db)
  | some islock => (batch ++ eraseLockChanges hash islock, if keepCache then db else db.forgetLock hash islock)

def writeInstantSendLockMined (hash : Uint256) (nHeight : ℕ) : CInstantSendDb Sig :=
  { db with tables := db.tables.writeBatch [.writeMined (buildInversedISLockKey nHeight hash)] }

/-- The loop of `WriteBlockInstantSendLocks` and `RemoveBlockInstantSendLocks`: a change for every lock of a transaction
of the block. -/
def blockChanges (change : Uint256 → IsChange Sig) (vtx : List CTransaction) :
    CInstantSendDb Sig × List (IsChange Sig) :=
  vtx.foldl (fun (db, batch) tx =>
    if tx.isCoinBase || tx.vin.isEmpty then (db, batch)
    else
      let (islockHash, db) := db.getInstantSendLockHashByTxidInternal tx.hash
      (db, if islockHash ≠ 0 then batch ++ [change islockHash] else batch)) (db, [])

def writeBlockInstantSendLocks (vtx : List CTransaction) (nHeight : ℕ) : CInstantSendDb Sig :=
  let (db, batch) := db.blockChanges (fun hash => .writeMined (buildInversedISLockKey nHeight hash)) vtx
  { db with tables := db.tables.writeBatch batch }

def removeBlockInstantSendLocks (vtx : List CTransaction) (nHeight : ℕ) : CInstantSendDb Sig :=
  let (db, batch) := db.blockChanges (fun hash => .eraseMined (buildInversedISLockKey nHeight hash)) vtx
  { db with tables := db.tables.writeBatch batch }

/-- State of the loop of `RemoveConfirmedInstantSendLocks`. -/
structure ConfirmLoop (Sig : Type) where
  db : CInstantSendDb Sig
  batch : List (IsChange Sig) := []
  /-- The locks that are removed. -/
  ret : Uint256 → Option (CInstantSendLock Sig) := fun _ => none

def confirmTurn (s : ConfirmLoop Sig) (curKey : InversedKey) : ConfirmLoop Sig :=
  let (islock, db) := s.db.getInstantSendLockByHashInternal hashLock curKey.islockHash false
  let s := match islock with
    | none => { s with db := db }
    | some islock =>
      let (batch, db) := db.removeInstantSendLock hashLock s.batch curKey.islockHash (some islock) true
      { db := db
        batch := batch
        ret := if (s.ret curKey.islockHash).isSome then s.ret
          else update s.ret curKey.islockHash (some islock) }
  { s with batch := s.batch ++ archiveChanges curKey.islockHash curKey.nHeight ++ [.eraseMined curKey] }

def removeConfirmedInstantSendLocks (nUntilHeight : ℤ) :
    (Uint256 → Option (CInstantSendLock Sig)) × CInstantSendDb Sig :=
  if nUntilHeight ≤ db.bestConfirmedHeight then (fun _ => none, db)
  else
    let firstKey := buildInversedISLockKey nUntilHeight.toNat 0
    let keys := (db.tables.minedByHeightAndHash.seek firstKey).takeWhile (·.1.nHeight ≤ nUntilHeight.toNat)
    let s := (keys.map (·.1)).foldl (confirmTurn hashLock) { db := { db with bestConfirmedHeight := nUntilHeight } }
    (s.ret, { s.db with tables := s.db.tables.writeBatch s.batch })

def removeArchivedInstantSendLocks (nUntilHeight : ℤ) : CInstantSendDb Sig :=
  if nUntilHeight ≤ 0 then db
  else
    let firstKey := buildInversedISLockKey nUntilHeight.toNat 0
    let keys := (db.tables.archivedByHeightAndHash.seek firstKey).takeWhile (·.1.nHeight ≤ nUntilHeight.toNat)
    let batch := keys.flatMap fun e => [.eraseArchivedHash e.1.islockHash, .eraseArchived e.1]
    { db with tables := db.tables.writeBatch batch }

/-- State of the loops of `RemoveChainedInstantSendLocks`. -/
structure ChainLoop (Sig : Type) where
  db : CInstantSendDb Sig
  batch : List (IsChange Sig) := []
  /-- The locks that are removed. -/
  result : List Uint256 := []
  /-- Transactions whose children are to be looked for, the last one first. -/
  stack : List Uint256
  /-- Transactions that have been put on the stack. -/
  added : Finset Uint256 := ∅

/-- A turn of the inner loop of `RemoveChainedInstantSendLocks`. -/
def chainChild (nHeight : ℕ) (s : ChainLoop Sig) (childIslockHash : Uint256) : ChainLoop Sig :=
  let (childIsLock, db) := s.db.getInstantSendLockByHashInternal hashLock childIslockHash false
  match childIsLock with
  | none => { s with db := db }
  | some childIsLock =>
    let (batch, db) := db.removeInstantSendLock hashLock s.batch childIslockHash (some childIsLock) false
    { db := db
      batch := batch ++ archiveChanges childIslockHash nHeight
      result := s.result ++ [childIslockHash]
      stack := if childIsLock.txid ∈ s.added then s.stack else childIsLock.txid :: s.stack
      added := insert childIsLock.txid s.added }

/-- The outer loop of `RemoveChainedInstantSendLocks`, for a number of turns at most. -/
def chainLoop (nHeight : ℕ) : ℕ → ChainLoop Sig → ChainLoop Sig
  | 0, s => s
  | turns + 1, s =>
    match s.stack with
    | [] => s
    | txid :: stack =>
      let children := s.db.tables.getInstantSendLocksByParent txid
      chainLoop nHeight turns (children.foldl (chainChild hashLock nHeight) { s with stack := stack })

/-- `RemoveChainedInstantSendLocks`. The loop makes no more than one turn for each entry of an input and one for the
transaction itself. -/
def removeChainedInstantSendLocks (islockHash txid : Uint256) (nHeight : ℕ) : List Uint256 × CInstantSendDb Sig :=
  let s := chainLoop hashLock nHeight (db.tables.hashByOutpoint.entries.length + 1) { db := db, stack := [txid] }
  let (batch, db) := s.db.removeInstantSendLock hashLock s.batch islockHash none false
  (s.result ++ [islockHash], { db with tables := db.tables.writeBatch (batch ++ archiveChanges islockHash nHeight) })

def removeAndArchiveInstantSendLock (islock : CInstantSendLock Sig) (nHeight : ℕ) : CInstantSendDb Sig :=
  let hash := islock.serializeHash hashLock
  let (batch, db) := db.removeInstantSendLock hashLock [] hash (some islock) false
  { db with tables := db.tables.writeBatch (batch ++ archiveChanges hash nHeight) }

end CInstantSendDb

end Blocx
