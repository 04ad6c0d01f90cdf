import Blocx.Lib.LruCache
import Blocx.Lib.OrderedStore
import Blocx.Llmq.RecoveredSigs

/-!
# The database of recovered signatures

`CRecoveredSigsDb` (`llmq/signing.cpp`) with all its keys and caches; `RecoveredSigs` has the part of it that signing
reads. A signature is stored under the type of its quorum and its id, and has four further keys: one with its message,
which holds the time of the write, one by its hash, one by the hash that was signed (the session), and one by time, type
and id. Truncation erases a signature and leaves the keys by hash and by time. The cleanup goes through the keys by time
up to some time, and removes the signatures that it finds under their types and ids.

Times are seconds, as `GetAdjustedTime` gives them; they are stored as 32-bit numbers. The type of a quorum is compared
by its number. A batch is written before its end when it is too large, for which a predicate stands.
-/

namespace Blocx

open Function

open Consensus

variable {Sig : Type}

/-! ### Keys -/

/-- A type of quorum and an id: what a signature is stored under. -/
abbrev RecSigId : Type := LLMQType × Uint256

/-- Key by time, `rs_t`. -/
structure RecSigTimeKey where
  time : ℕ
  id : RecSigId
  deriving DecidableEq

/-- A key by time as a tuple of numbers. -/
def RecSigTimeKey.numbers (k : RecSigTimeKey) : ℕ ×ₗ ℕ ×ₗ ℕ ×ₗ ℕ :=
  toLex (k.time, toLex (k.id.1.number, toLex (k.id.1.isNamed.toNat, k.id.2.toNat)))

instance : LinearOrder RecSigTimeKey :=
  LinearOrder.lift' RecSigTimeKey.numbers fun k k' h => by
    obtain ⟨htime, h⟩ := Prod.mk.inj (toLex_inj.mp h)
    obtain ⟨hnumber, h⟩ := Prod.mk.inj (toLex_inj.mp h)
    obtain ⟨hnamed, hid⟩ := Prod.mk.inj (toLex_inj.mp h)
    have hnamed : k.id.1.isNamed = k'.id.1.isNamed := by
      revert hnamed
      cases k.id.1.isNamed <;> cases k'.id.1.isNamed <;> simp
    obtain ⟨time, type, id⟩ := k
    obtain ⟨time', type', id'⟩ := k'
    obtain rfl : type = type' := LLMQType.number_inj hnumber hnamed
    obtain rfl : id = id' := BitVec.toNat_inj.mp hid
    exact congrArg (RecSigTimeKey.mk · _) htime

/-- The hashes of signatures. -/
structure RecSigHashes (Sig : Type) where
  getHash : CRecoveredSig Sig → Uint256
  buildSignHash : CRecoveredSig Sig → Uint256

/-- Type and id of a signature. -/
def CRecoveredSig.recSigId (recSig : CRecoveredSig Sig) : RecSigId := (recSig.llmqType, recSig.id)

/-! ### Tables -/

/-- The tables of the database. -/
structure RecSigTables (Sig : Type) where
  /-- The signatures, `rs_r`. -/
  recSigs : RecSigId → Option (CRecoveredSig Sig) := fun _ => none
  /-- The times of their writes, `rs_r` with the message. -/
  writeTimes : RecSigId × Uint256 → Option ℕ := fun _ => none
  /-- Types and ids by hash, `rs_h`. -/
  byHash : Uint256 → Option RecSigId := fun _ => none
  /-- The sessions, `rs_s`. -/
  sessions : Uint256 → Bool := fun _ => false
  /-- The keys by time, `rs_t`. -/
  times : OrderedStore RecSigTimeKey Unit := {}

/-- A change in a batch. -/
inductive RecSigChange (Sig : Type) where
  | writeSig (id : RecSigId) (recSig : CRecoveredSig Sig)
  | eraseSig (id : RecSigId)
  | writeWriteTime (id : RecSigId) (msgHash : Uint256) (time : ℕ)
  | eraseWriteTime (id : RecSigId) (msgHash : Uint256)
  | writeHash (hash : Uint256) (id : RecSigId)
  | eraseHash (hash : Uint256)
  | writeSession (signHash : Uint256)
  | eraseSession (signHash : Uint256)
  | writeTime (key : RecSigTimeKey)
  | eraseTime (key : RecSigTimeKey)

namespace RecSigTables

/-- Make a change. -/
def apply (t : RecSigTables Sig) : RecSigChange Sig → RecSigTables Sig
  | .writeSig id recSig => { t with recSigs := update t.recSigs id (some recSig) }
  | .eraseSig id => { t with recSigs := update t.recSigs id none }
  | .writeWriteTime id msgHash time => { t with writeTimes := update t.writeTimes (id, msgHash) (some time) }
  | .eraseWriteTime id msgHash => { t with writeTimes := update t.writeTimes (id, msgHash) none }
  | .writeHash hash id => { t with byHash := update t.byHash hash (some id) }
  | .eraseHash hash => { t with byHash := update t.byHash hash none }
  | .writeSession signHash => { t with sessions := update t.sessions signHash true }
  | .eraseSession signHash => { t with sessions := update t.sessions signHash false }
  | .writeTime key => { t with times := t.times.write key () }
  | .eraseTime key => { t with times := t.times.erase key }

def writeBatch (t : RecSigTables Sig) (batch : List (RecSigChange Sig)) : RecSigTables Sig := batch.foldl apply t

end RecSigTables

/-! ### The database -/

/-- `CRecoveredSigsDb`, with its caches. -/
structure RecSigDb (Sig : Type) where
  tables : RecSigTables Sig := {}
  hasSigForIdCache : LruCache RecSigId Bool
  hasSigForSessionCache : LruCache Uint256 Bool
  hasSigForHashCache : LruCache Uint256 Bool

/-- A time as it is stored, `uint32_t`. -/
def storedTime (now : ℤ) : ℕ := (now % 2 ^ 32).toNat

namespace RecSigDb

variable (hashes : RecSigHashes Sig) (db : RecSigDb Sig)

def hasRecoveredSigForId (id : RecSigId) : Bool × RecSigDb Sig :=
  let (ret, cache) := db.hasSigForIdCache.getThrough (fun id => (db.tables.recSigs id).isSome) id
  (ret, { db with hasSigForIdCache := cache })

def hasRecoveredSigForSession (signHash : Uint256) : Bool × RecSigDb Sig :=
  let (ret, cache) := db.hasSigForSessionCache.getThrough db.tables.sessions signHash
  (ret, { db with hasSigForSessionCache := cache })

def hasRecoveredSigForHash (hash : Uint256) : Bool × RecSigDb Sig :=
  let (ret, cache) := db.hasSigForHashCache.getThrough (fun hash => (db.tables.byHash hash).isSome) hash
  (ret, { db with hasSigForHashCache := cache })

def getRecoveredSigById (id : RecSigId) : Option (CRecoveredSig Sig) := db.tables.recSigs id

def getRecoveredSigByHash (hash : Uint256) : Option (CRecoveredSig Sig) :=
  (db.tables.byHash hash).bind db.tables.recSigs

def writeRecoveredSig (now : ℤ) (recSig : CRecoveredSig Sig) : RecSigDb Sig where
  tables := db.tables.writeBatch
    [.writeSig recSig.recSigId recSig, .writeWriteTime recSig.recSigId recSig.msgHash (storedTime now),
      .writeHash (hashes.getHash recSig) recSig.recSigId, .writeSession (hashes.buildSignHash recSig),
      .writeTime ⟨storedTime now, recSig.recSigId⟩]
  hasSigForIdCache := db.hasSigForIdCache.insert recSig.recSigId true
  hasSigForSessionCache := db.hasSigForSessionCache.insert (hashes.buildSignHash recSig) true
  hasSigForHashCache := db.hasSigForHashCache.insert (hashes.getHash recSig) true

/-- `RemoveRecoveredSig`. It reads the signature from the database, whatever the batch says. -/
def removeRecoveredSig (batch : List (RecSigChange Sig)) (id : RecSigId) (deleteHashKey deleteTimeKey : Bool) :
    List (RecSigChange Sig) × RecSigDb Sig :=
  match db.tables.recSigs id with
  | none => (batch, db)
  | some recSig =>
    let signHash := hashes.buildSignHash recSig
    (batch ++ [.eraseSig recSig.recSigId, .eraseWriteTime recSig.recSigId recSig.msgHash] ++
        (if deleteHashKey then [.eraseHash (hashes.getHash recSig)] else []) ++ [.eraseSession signHash] ++
        (if deleteTimeKey then
          match db.tables.writeTimes (recSig.recSigId, recSig.msgHash) with
          | some writeTime => [.eraseTime ⟨writeTime, recSig.recSigId⟩]
          | none => []
        else []),
      { db with
        hasSigForIdCache := db.hasSigForIdCache.erase recSig.recSigId
        hasSigForSessionCache := db.hasSigForSessionCache.erase signHash
        hasSigForHashCache :=
          if deleteHashKey then db.hasSigForHashCache.erase (hashes.getHash recSig) else db.hasSigForHashCache })

def truncateRecoveredSig (id : RecSigId) : RecSigDb Sig :=
  let (batch, db) := db.removeRecoveredSig hashes [] id false false
  { db with tables := db.tables.writeBatch batch }

/-- A turn of the loop of `CleanupOldRecoveredSigs` that removes signatures. `full` says that a batch is too large. -/
def cleanupTurn (full : List (RecSigChange Sig) → Bool) (s : List (RecSigChange Sig) × RecSigDb Sig) (id : RecSigId) :
    List (RecSigChange Sig) × RecSigDb Sig :=
  let (batch, db) := s.2.removeRecoveredSig hashes s.1 id true false
  if full batch then ([], { db with tables := db.tables.writeBatch batch }) else (batch, db)

def cleanupOldRecoveredSigs (full : List (RecSigChange Sig) → Bool) (now maxAge : ℤ) : RecSigDb Sig :=
  let endTime := storedTime (now - maxAge)
  let toDelete := ((db.tables.times.seek ⟨0, .other 0, 0⟩).takeWhile (·.1.time < endTime)).map (·.1)
  if toDelete.isEmpty then db
  else
    let (batch, db) := (toDelete.map (·.id)).foldl (cleanupTurn hashes full) ([], db)
    { db with tables := db.tables.writeBatch (batch ++ toDelete.map .eraseTime) }

end RecSigDb

end Blocx
