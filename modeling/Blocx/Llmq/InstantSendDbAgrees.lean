import Blocx.Lib.Overlay
import Blocx.Lib.SecondaryIndex
import Blocx.Llmq.InstantSendDb

/-!
# Agreement of the InstantSend database

When the live locks are given, the tables are to hold them and nothing else (`TablesAgree`). The caches hold more: a
lock that is removed as confirmed stays in them on purpose. So a cached entry is only known to be right for keys that a
live lock has, and a lock that has been archived otherwise is in no cache (`CachesAgree`). Then every lookup of a live
lock finds it.

A stream of the database has the version of the client, which is lower than the version since which the version and the
cycle of a lock are written. So a deterministic lock comes back without its cycle and does not have its hash any more;
only locks without a cycle are read back (`CInstantSendLock.Storable`).
-/

namespace Blocx

open List Option

open LruCache

open Function CInstantSendLock

variable {Sig : Type} {islock : CInstantSendLock Sig} {hash : Uint256} {t : IsTables Sig}
  {live : Uint256 → Option (CInstantSendLock Sig)} {batch : List (IsChange Sig)}
  {hashLock : SerializedLock Sig → Uint256} {locks : List (CInstantSendLock Sig)} {useCache : Bool} {o : COutPoint}

/-! ### Locks -/

/-- The lock is read back as it was written: it has no cycle. -/
structure CInstantSendLock.Storable (islock : CInstantSendLock Sig) : Prop where
  nVersion : islock.nVersion = 0 ∨ islock.nVersion = 1
  cycleHash : islock.cycleHash = 0

/-- The transaction of a lock, as a key. -/
def CInstantSendLock.txids (islock : CInstantSendLock Sig) : List Uint256 := [islock.txid]

/-- Two locks have a transaction or an input in common. -/
def CInstantSendLock.SharesKey (islock islock' : CInstantSendLock Sig) : Prop :=
  (∃ txid ∈ islock.txids, txid ∈ islock'.txids) ∨ ∃ o ∈ islock.inputs, o ∈ islock'.inputs

instance (islock islock' : CInstantSendLock Sig) : Decidable (islock.SharesKey islock') :=
  @instDecidableOr _ _ (decidableBEx _ _) (decidableBEx _ _)

/-- The hashes of some locks do not collide, with each other and with what is read back for the newer version. -/
structure NoLockCollisions (hashLock : SerializedLock Sig → Uint256) (locks : List (CInstantSendLock Sig)) : Prop where
  lock : ∀ islock ∈ locks, ∀ islock' ∈ locks,
    islock.serializeHash hashLock = islock'.serializeHash hashLock → islock = islock'
  readBack : ∀ islock ∈ locks,
    ((islock.serialize clientVersion).unserialize 1).serializeHash hashLock = islock.serializeHash hashLock →
      (islock.serialize clientVersion).unserialize 1 = islock

/-! ### Tables -/

/-- The tables hold the live locks. -/
structure TablesAgree (t : IsTables Sig) (live : Uint256 → Option (CInstantSendLock Sig)) : Prop where
  islock : ∀ hash, t.islockByHash hash = (live hash).map (·.serialize clientVersion)
  txid : Indexes txids live t.hashByTxid
  outpoint : Indexes inputs live t.hashByOutpoint.get

namespace IsTables

variable {batch batch' : List (IsChange Sig)}

@[simp]
lemma writeBatch_append : t.writeBatch (batch ++ batch') = (t.writeBatch batch).writeBatch batch' :=
  foldl_append

lemma writeBatch_eraseOutpoints (inputs : List COutPoint) : t.writeBatch (inputs.map .eraseOutpoint) =
    { t with hashByOutpoint := inputs.foldl OrderedStore.erase t.hashByOutpoint } := by
  induction inputs generalizing t with
  | nil => rfl
  | cons o inputs ih => exact ih

lemma writeBatch_eraseLockChanges : t.writeBatch (eraseLockChanges hash islock) = { t with
      islockByHash := update t.islockByHash hash none
      hashByTxid := update t.hashByTxid islock.txid none
      hashByOutpoint := islock.inputs.foldl OrderedStore.erase t.hashByOutpoint } := by
  unfold eraseLockChanges
  rw [writeBatch_append, writeBatch_eraseOutpoints]
  rfl

lemma writeBatch_writeLockChanges : t.writeBatch (writeLockChanges hash islock) = { t with
      islockByHash := update t.islockByHash hash (some (islock.serialize clientVersion))
      hashByTxid := update t.hashByTxid islock.txid (some hash)
      hashByOutpoint := islock.inputs.foldl (fun store o => store.write o hash) t.hashByOutpoint } := by
  have hinputs : ∀ (inputs : List COutPoint) (t : IsTables Sig), t.writeBatch (inputs.map (.writeOutpoint · hash)) =
      { t with hashByOutpoint := inputs.foldl (fun store o => store.write o hash) t.hashByOutpoint } := by
    intro inputs
    induction inputs with
    | nil => exact fun _ => rfl
    | cons o inputs ih => exact fun t => ih (t.apply (.writeOutpoint o hash))
  unfold writeLockChanges
  rw [writeBatch_append, hinputs]
  rfl

end IsTables

/-- The change is about records by height and the archive. -/
def IsChange.isRecord : IsChange Sig → Bool
  | .writeMined _ | .eraseMined _ | .writeArchived _ | .eraseArchived _ | .writeArchivedHash _ | .eraseArchivedHash _ =>
    true
  | _ => false

namespace TablesAgree

variable (h : TablesAgree t live)

include h

lemma writeBatch (hbatch : ∀ c ∈ batch, c.isRecord) : TablesAgree (t.writeBatch batch) live := by
  induction batch generalizing t with
  | nil => exact h
  | cons c batch ih =>
    obtain ⟨hc, hbatch⟩ := forall_mem_cons.mp hbatch
    refine ih (t := t.apply c) ?_ hbatch
    cases c with
    | writeMined | eraseMined | writeArchived | eraseArchived | writeArchivedHash | eraseArchivedHash =>
      exact ⟨h.islock, h.txid, h.outpoint⟩
    | writeIslock | eraseIslock | writeTxid | eraseTxid | writeOutpoint | eraseOutpoint => cases hc

lemma islock_update (r : Option (CInstantSendLock Sig)) (hash' : Uint256) :
    update t.islockByHash hash (r.map (·.serialize clientVersion)) hash' =
      (update live hash r hash').map (·.serialize clientVersion) := by
  by_cases hne : hash' = hash
  · rw [hne, update_self, update_self]
  · rw [update_of_ne hne, update_of_ne hne]
    exact h.islock hash'

lemma eraseLock (hsame : ∀ islock', live hash = some islock' → islock' = islock)
    (hshares : ∀ hash' islock', live hash' = some islock' → islock'.SharesKey islock → hash' = hash) :
    TablesAgree (t.writeBatch (eraseLockChanges hash islock)) (update live hash none) := by
  rw [IsTables.writeBatch_eraseLockChanges]
  refine ⟨h.islock_update none, ?_, ?_⟩
  · refine h.txid.erase hsame (fun hash' islock' hlive txid hmem hmem' => ?_) fun txid => ?_
    · exact hshares hash' islock' hlive (.inl ⟨txid, hmem, hmem'⟩)
    · simp [txids, update_apply]
  · refine h.outpoint.erase hsame (fun hash' islock' hlive o hmem hmem' => ?_) fun o => ?_
    · exact hshares hash' islock' hlive (.inr ⟨o, hmem, hmem'⟩)
    · convert OrderedStore.get_foldl_erase

lemma writeLock (hhash : live hash = none)
    (hshares : ∀ hash' islock', live hash' = some islock' → ¬islock'.SharesKey islock) :
    TablesAgree (t.writeBatch (writeLockChanges hash islock)) (update live hash (some islock)) := by
  rw [IsTables.writeBatch_writeLockChanges]
  refine ⟨h.islock_update (some islock), ?_, ?_⟩
  · refine h.txid.write hhash (fun hash' islock' hlive txid hmem hmem' => ?_) fun txid => ?_
    · exact hshares hash' islock' hlive (.inl ⟨txid, hmem, hmem'⟩)
    · simp [txids, update_apply]
  · refine h.outpoint.write hhash (fun hash' islock' hlive o hmem hmem' => ?_) fun o => ?_
    · exact hshares hash' islock' hlive (.inr ⟨o, hmem, hmem'⟩)
    · convert OrderedStore.get_foldl_write

end TablesAgree

/-! ### Reading a lock -/

lemma unserialize_serialize (islock : CInstantSendLock Sig) (desiredVersion : BitVec 8) :
    (islock.serialize clientVersion).unserialize desiredVersion =
      { islock with nVersion := desiredVersion, cycleHash := 0 } := rfl

/-- A lock of some locks, with its hash, that can be read back. -/
structure StoredUnder (hashLock : SerializedLock Sig → Uint256) (locks : List (CInstantSendLock Sig)) (hash : Uint256)
    (islock : CInstantSendLock Sig) : Prop where
  mem : islock ∈ locks
  hashed : islock.serializeHash hashLock = hash
  ne_zero : hash ≠ 0
  storable : islock.Storable

lemma StoredUnder.unique {islock' : CInstantSendLock Sig} (h : StoredUnder hashLock locks hash islock)
    (hcollisions : NoLockCollisions hashLock locks) (hmem : islock' ∈ locks)
    (hhash : islock'.serializeHash hashLock = hash) : islock = islock' :=
  hcollisions.lock islock h.mem islock' hmem (h.hashed.trans hhash.symm)

/-- A live lock is read as it was written, and no other lock is read. -/
lemma TablesAgree.readLock (h : TablesAgree t live) (hcollisions : NoLockCollisions hashLock locks)
    (hlive : ∀ hash islock, live hash = some islock → StoredUnder hashLock locks hash islock) (hash : Uint256) :
    t.readLock hashLock hash = live hash := by
  unfold IsTables.readLock
  rw [h.islock hash]
  cases hhash : live hash with
  | none => rfl
  | some islock =>
    have hstored := hlive hash islock hhash
    show (if _ then _ else if _ then _ else none) = some islock
    split_ifs with hnew hold
    · exact congrArg some (hcollisions.readBack islock hstored.mem (hnew.trans hstored.hashed.symm))
    · -- the lock is not of the new version, or it would have been found
      obtain hversion | hversion := hstored.storable.nVersion
      · rw [unserialize_serialize, ← hversion, ← hstored.storable.cycleHash]
      · rw [unserialize_serialize, ← hversion, ← hstored.storable.cycleHash] at hnew
        exact absurd hstored.hashed hnew
    · exfalso
      obtain hversion | hversion := hstored.storable.nVersion
      · rw [unserialize_serialize, ← hversion, ← hstored.storable.cycleHash] at hold
        exact hold hstored.hashed
      · rw [unserialize_serialize, ← hversion, ← hstored.storable.cycleHash] at hnew
        exact hnew hstored.hashed

/-! ### Caches -/

/-- The caches are right about live locks, and hold no archived one. -/
structure CachesAgree (hashLock : SerializedLock Sig → Uint256) (db : CInstantSendDb Sig)
    (live : Uint256 → Option (CInstantSendLock Sig)) (gone : Finset Uint256) : Prop where
  served : ∀ hash v, db.islockCache.lookup hash = some v → ∀ islock, live hash = some islock → v = some islock
  hashed : ∀ hash islock, db.islockCache.lookup hash = some (some islock) → islock.serializeHash hashLock = hash
  archived : ∀ hash ∈ gone, hash ≠ 0 → ∀ v, db.islockCache.lookup hash = some v → v = none
  txid : Serves txids live db.txidCache.lookup
  outpoint : Serves inputs live db.outpointCache.lookup

namespace CInstantSendDb

variable {db db' db'' : CInstantSendDb Sig}

/-- The tables are the same, and the caches hold what they held or what the tables say. -/
structure Looked (hashLock : SerializedLock Sig → Uint256) (db db' : CInstantSendDb Sig) : Prop where
  tables : db'.tables = db.tables
  islock : ∀ hash v, db'.islockCache.lookup hash = some v →
    db.islockCache.lookup hash = some v ∨ v = db.tables.readLock hashLock hash
  txid : ∀ txid hash, db'.txidCache.lookup txid = some hash →
    db.txidCache.lookup txid = some hash ∨ db.tables.hashByTxid txid = some hash
  outpoint : ∀ o hash, db'.outpointCache.lookup o = some hash →
    db.outpointCache.lookup o = some hash ∨ db.tables.hashByOutpoint.get o = some hash

lemma Looked.trans (h : Looked hashLock db db') (h' : Looked hashLock db' db'') : Looked hashLock db db'' where
  tables := h'.tables.trans h.tables
  islock hash v hv := (h'.islock hash v hv).elim (h.islock hash v) fun hv => .inr (h.tables ▸ hv)
  txid txid hash hhash := (h'.txid txid hash hhash).elim (h.txid txid hash) fun hhash => .inr (h.tables ▸ hhash)
  outpoint o hash hhash := (h'.outpoint o hash hhash).elim (h.outpoint o hash) fun hhash => .inr (h.tables ▸ hhash)

lemma getInstantSendLockByInput_eq : ∃ db', Looked hashLock db db' ∧ db.getInstantSendLockByInput hashLock o =
      match (db.outpointCache.lookup o).or (db.tables.hashByOutpoint.get o) with
      | none => (none, db')
      | some islockHash => db'.getInstantSendLockByHashInternal hashLock islockHash true := by
  unfold getInstantSendLockByInput
  have hfst : (db.outpointCache.get o).1 = db.outpointCache.lookup o := fst_get
  cases hget : db.outpointCache.get o with
  | mk ret cache =>
    obtain rfl : (db.outpointCache.get o).2 = cache := congrArg Prod.snd hget
    rw [hget] at hfst
    rw [← hfst]
    have hkept : Looked hashLock db { db with outpointCache := (db.outpointCache.get o).2 } :=
      ⟨rfl, fun _ _ => .inl, fun _ _ => .inl, fun _ _ h => .inl (lookup_get.symm.trans h)⟩
    cases ret with
    | some islockHash => exact ⟨_, hkept, rfl⟩
    | none =>
      cases htable : db.tables.hashByOutpoint.get o with
      | none => exact ⟨_, hkept, rfl⟩
      | some islockHash =>
        refine ⟨{ db with outpointCache := (db.outpointCache.get o).2.insert o islockHash }, ?_, rfl⟩
        refine ⟨rfl, fun _ _ => .inl, fun _ _ => .inl, fun o' hash h => ?_⟩
        exact (lookup_get_insert h).imp_right fun ⟨heq, hv⟩ => heq ▸ hv ▸ htable

variable (db)

lemma Looked.refl : Looked hashLock db db :=
  ⟨rfl, fun _ _ => .inl, fun _ _ => .inl, fun _ _ => .inl⟩

lemma looked_getInstantSendLockByHashInternal (hash : Uint256) (useCache : Bool) :
    Looked hashLock db (db.getInstantSendLockByHashInternal hashLock hash useCache).2 := by
  unfold getInstantSendLockByHashInternal
  split_ifs
  · exact Looked.refl db
  · cases hget : db.islockCache.get hash with
    | mk ret cache =>
      obtain rfl : (db.islockCache.get hash).2 = cache := congrArg Prod.snd hget
      cases ret with
      | none =>
        refine ⟨rfl, fun hash' v h => ?_, fun _ _ => .inl, fun _ _ => .inl⟩
        exact (lookup_get_insert h).imp_right fun ⟨heq, hv⟩ => heq ▸ hv
      | some ret => exact ⟨rfl, fun _ _ h => .inl (lookup_get.symm.trans h), fun _ _ => .inl, fun _ _ => .inl⟩
  · refine ⟨rfl, fun hash' v h => ?_, fun _ _ => .inl, fun _ _ => .inl⟩
    obtain ⟨rfl, hv⟩ | ⟨-, h⟩ := lookup_insert h
    · exact .inr hv
    · exact .inl h

lemma looked_getInstantSendLockHashByTxidInternal (txid : Uint256) :
    Looked hashLock db (db.getInstantSendLockHashByTxidInternal txid).2 := by
  unfold getInstantSendLockHashByTxidInternal
  cases hget : db.txidCache.get txid with
  | mk ret cache =>
    obtain rfl : (db.txidCache.get txid).2 = cache := congrArg Prod.snd hget
    cases ret with
    | some islockHash => exact ⟨rfl, fun _ _ => .inl, fun _ _ h => .inl (lookup_get.symm.trans h), fun _ _ => .inl⟩
    | none =>
      cases htable : db.tables.hashByTxid txid with
      | none => exact ⟨rfl, fun _ _ => .inl, fun _ _ h => .inl (lookup_get.symm.trans h), fun _ _ => .inl⟩
      | some islockHash =>
        refine ⟨rfl, fun _ _ => .inl, fun txid' hash h => ?_, fun _ _ => .inl⟩
        exact (lookup_get_insert h).imp_right fun ⟨heq, hv⟩ => heq ▸ hv ▸ htable

lemma looked_getInstantSendLockByTxid (txid : Uint256) :
    Looked hashLock db (db.getInstantSendLockByTxid hashLock txid).2 :=
  (looked_getInstantSendLockHashByTxidInternal db txid).trans (looked_getInstantSendLockByHashInternal ..)

lemma looked_getInstantSendLockByInput (o : COutPoint) :
    Looked hashLock db (db.getInstantSendLockByInput hashLock o).2 := by
  obtain ⟨db', hlooked, heq⟩ := getInstantSendLockByInput_eq
  rw [heq]
  split
  · exact hlooked
  · exact hlooked.trans (looked_getInstantSendLockByHashInternal ..)

variable {db}

lemma getInstantSendLockByHashInternal_false (hhash : hash ≠ 0) :
    db.getInstantSendLockByHashInternal hashLock hash false =
      (db.tables.readLock hashLock hash,
        { db with islockCache := db.islockCache.insert hash (db.tables.readLock hashLock hash) }) := by
  unfold getInstantSendLockByHashInternal
  rw [if_neg hhash]
  rfl

lemma fst_getInstantSendLockByHashInternal : (db.getInstantSendLockByHashInternal hashLock hash useCache).1 =
      if hash = 0 then none
      else ((if useCache then db.islockCache.lookup hash else none)).getD (db.tables.readLock hashLock hash) := by
  unfold getInstantSendLockByHashInternal
  split_ifs
  · rfl
  · have hfst : (db.islockCache.get hash).1 = db.islockCache.lookup hash := fst_get
    cases hget : db.islockCache.get hash with
    | mk ret cache =>
      rw [hget] at hfst
      rw [← hfst]
      cases ret <;> rfl
  · rfl

lemma fst_knownInstantSendLock : (db.knownInstantSendLock hashLock hash).1 =
    ((db.getInstantSendLockByHashInternal hashLock hash true).1.isSome || db.tables.archivedByHash hash) := by
  have htables : (db.getInstantSendLockByHashInternal hashLock hash true).2.tables = db.tables :=
    (looked_getInstantSendLockByHashInternal db hash true).tables
  rw [← htables]
  rfl

lemma fst_getInstantSendLockHashByTxidInternal {txid : Uint256} : (db.getInstantSendLockHashByTxidInternal txid).1 =
      ((db.txidCache.lookup txid).or (db.tables.hashByTxid txid)).getD 0 := by
  unfold getInstantSendLockHashByTxidInternal
  have hfst : (db.txidCache.get txid).1 = db.txidCache.lookup txid := fst_get
  cases hget : db.txidCache.get txid with
  | mk ret cache =>
    rw [hget] at hfst
    rw [← hfst]
    cases ret with
    | some islockHash => rfl
    | none => cases db.tables.hashByTxid txid <;> rfl

end CInstantSendDb

/-! ### The whole database -/

/-- The database agrees with what is live and what is archived. -/
structure Agrees (hashLock : SerializedLock Sig → Uint256) (locks : List (CInstantSendLock Sig))
    (db : CInstantSendDb Sig)
    (live : Uint256 → Option (CInstantSendLock Sig)) (gone : Finset Uint256) : Prop where
  tables : TablesAgree db.tables live
  caches : CachesAgree hashLock db live gone
  stored : ∀ hash islock, live hash = some islock → StoredUnder hashLock locks hash islock
  gone : ∀ hash ∈ gone, live hash = none

namespace Agrees

open CInstantSendDb

variable {db db' : CInstantSendDb Sig} {gone : Finset Uint256} (h : Agrees hashLock locks db live gone)

include h

section

variable (hcollisions : NoLockCollisions hashLock locks)

include hcollisions

lemma readLock (hash : Uint256) : db.tables.readLock hashLock hash = live hash :=
  h.tables.readLock hcollisions h.stored hash

lemma looked (hlooked : Looked hashLock db db') : Agrees hashLock locks db' live gone where
  tables := hlooked.tables ▸ h.tables
  caches := by
    refine ⟨fun hash v hv islock hlive => ?_, fun hash islock hv => ?_, fun hash hgone hne v hv => ?_, ?_, ?_⟩
    · obtain hv | hv := hlooked.islock hash v hv
      · exact h.caches.served hash v hv islock hlive
      · rw [hv, h.readLock hcollisions, hlive]
    · obtain hv | hv := hlooked.islock hash _ hv
      · exact h.caches.hashed hash islock hv
      · rw [h.readLock hcollisions] at hv
        exact (h.stored hash islock hv.symm).hashed
    · obtain hv | hv := hlooked.islock hash v hv
      · exact h.caches.archived hash hgone hne v hv
      · rw [hv, h.readLock hcollisions, h.gone hash hgone]
    · exact h.caches.txid.insert h.tables.txid hlooked.txid
    · exact h.caches.outpoint.insert h.tables.outpoint hlooked.outpoint
  stored := h.stored
  gone := h.gone

lemma getByHash (hlive : live hash = some islock) :
    (db.getInstantSendLockByHashInternal hashLock hash useCache).1 = some islock := by
  rw [fst_getInstantSendLockByHashInternal, if_neg (h.stored hash islock hlive).ne_zero, h.readLock hcollisions, hlive]
  cases hv : (if useCache then db.islockCache.lookup hash else none) with
  | none => rfl
  | some v =>
    split_ifs at hv
    exact h.caches.served hash v hv islock hlive

lemma hash_of_getByHash (hget : (db.getInstantSendLockByHashInternal hashLock hash useCache).1 = some islock) :
    hash ≠ 0 ∧ islock.serializeHash hashLock = hash := by
  rw [fst_getInstantSendLockByHashInternal] at hget
  have hread : db.tables.readLock hashLock hash = some islock → islock.serializeHash hashLock = hash := fun hread =>
    (h.stored hash islock (h.readLock hcollisions hash ▸ hread)).hashed
  split_ifs at hget with hzero huse
  · refine ⟨hzero, ?_⟩
    cases hv : db.islockCache.lookup hash with
    | none => exact hread (by rwa [hv] at hget)
    | some v =>
      rw [hv, getD_some] at hget
      exact h.caches.hashed hash islock (hget ▸ hv)
  · exact ⟨hzero, hread hget⟩

lemma getByHash_gone
    (hgone : hash ∈ gone) : (db.getInstantSendLockByHashInternal hashLock hash useCache).1 = none := by
  rw [fst_getInstantSendLockByHashInternal]
  split_ifs with hzero huse
  · rfl
  · cases hv : db.islockCache.lookup hash with
    | none => rw [getD_none, h.readLock hcollisions, h.gone hash hgone]
    | some v => exact h.caches.archived hash hgone hzero v hv
  · rw [getD_none, h.readLock hcollisions, h.gone hash hgone]

/-- A lookup by transaction is one by a hash; for a live lock it is its hash. -/
lemma getByTxid_eq (txid : Uint256) : ∃ db' hash, Agrees hashLock locks db' live gone ∧
      (db.getInstantSendLockByTxid hashLock txid).1 = (db'.getInstantSendLockByHashInternal hashLock hash true).1 ∧
      ∀ hash' islock, live hash' = some islock → islock.txid = txid → hash' = hash := by
  refine ⟨_, (db.getInstantSendLockHashByTxidInternal txid).1,
    h.looked hcollisions (looked_getInstantSendLockHashByTxidInternal db txid), rfl, ?_⟩
  intro hash' islock hlive htxid
  have hmem : txid ∈ islock.txids := mem_singleton.mpr htxid.symm
  rw [fst_getInstantSendLockHashByTxidInternal]
  cases hcache : db.txidCache.lookup txid with
  | none => rw [none_or, (h.tables.txid txid hash').mpr ⟨islock, hlive, hmem⟩, getD_some]
  | some hash => exact h.caches.txid txid hash hcache hash' islock hlive hmem

/-- The same for a lookup by input. -/
lemma getByInput_eq (o : COutPoint) : ∃ db' hash, Agrees hashLock locks db' live gone ∧
      (db.getInstantSendLockByInput hashLock o).1 = (db'.getInstantSendLockByHashInternal hashLock hash true).1 ∧
      ∀ hash' islock, live hash' = some islock → o ∈ islock.inputs → hash' = hash := by
  obtain ⟨db', hlooked, heq⟩ := getInstantSendLockByInput_eq
  have hserves : ∀ hash, (db.outpointCache.lookup o).or (db.tables.hashByOutpoint.get o) = some hash →
      ∀ hash' islock, live hash' = some islock → o ∈ islock.inputs → hash' = hash := by
    intro hash hhash hash' islock hlive hmem
    cases hcache : db.outpointCache.lookup o with
    | none =>
      rw [hcache, none_or, (h.tables.outpoint o hash').mpr ⟨islock, hlive, hmem⟩] at hhash
      exact some.inj hhash
    | some hash₁ =>
      rw [hcache, some_or] at hhash
      exact h.caches.outpoint o hash (hhash ▸ hcache) hash' islock hlive hmem
  cases hhash : (db.outpointCache.lookup o).or (db.tables.hashByOutpoint.get o) with
  | some hash =>
    rw [hhash] at heq
    exact ⟨db', hash, h.looked hcollisions hlooked, congrArg Prod.fst heq, hserves hash hhash⟩
  | none =>
    rw [hhash] at heq
    refine ⟨db', 0, h.looked hcollisions hlooked, congrArg Prod.fst heq, fun hash' islock hlive hmem => ?_⟩
    rw [(h.tables.outpoint o hash').mpr ⟨islock, hlive, hmem⟩, or_some] at hhash
    cases hhash

end

/-! ### Writes and records -/

/-- A lock is written. -/
lemma writeNew (hstored : StoredUnder hashLock locks hash islock)
    (hhash : live hash = none) (hshares : ∀ hash' islock', live hash' = some islock' → ¬islock'.SharesKey islock) :
    Agrees hashLock locks (db.writeNewInstantSendLock hash islock) (update live hash (some islock))
      (gone.erase hash) where
  tables := h.tables.writeLock hhash hshares
  caches := by
    refine ⟨fun hash' v hv islock' hlive => ?_, fun hash' islock' hv => ?_, fun hash' hgone hne v hv => ?_, ?_, ?_⟩
    · obtain ⟨rfl, rfl⟩ | ⟨hne, hv⟩ := lookup_insert hv
      · rwa [update_self] at hlive
      · rw [update_of_ne hne] at hlive
        exact h.caches.served hash' v hv islock' hlive
    · obtain ⟨rfl, heq⟩ | ⟨hne, hv⟩ := lookup_insert hv
      · rw [some.inj heq, hstored.hashed]
      · exact h.caches.hashed hash' islock' hv
    · obtain ⟨hne', hgone⟩ := Finset.mem_erase.mp hgone
      obtain ⟨heq, -⟩ | ⟨-, hv⟩ := lookup_insert hv
      · exact absurd heq hne'
      · exact h.caches.archived hash' hgone hne v hv
    · refine h.caches.txid.write (fun hash' islock' hlive txid hmem hmem' => ?_) fun txid hash' hv => ?_
      · exact hshares hash' islock' hlive (.inl ⟨txid, hmem, hmem'⟩)
      · rw [txids, mem_singleton]
        exact lookup_insert hv
    · refine h.caches.outpoint.write (fun hash' islock' hlive o hmem hmem' => ?_) fun o hash' hv => ?_
      · exact hshares hash' islock' hlive (.inr ⟨o, hmem, hmem'⟩)
      · exact lookup_foldl_insert hv
  stored hash' islock' hlive := by
    obtain ⟨rfl, rfl⟩ | ⟨-, hlive⟩ := update_some_eq_some_iff.mp hlive
    · exact hstored
    · exact h.stored hash' islock' hlive
  gone hash' hgone := by
    obtain ⟨hne, hgone⟩ := Finset.mem_erase.mp hgone
    rw [update_of_ne hne]
    exact h.gone hash' hgone

lemma writeBatch (hbatch : ∀ c ∈ batch, c.isRecord) :
    Agrees hashLock locks { db with tables := db.tables.writeBatch batch } live gone where
  tables := h.tables.writeBatch hbatch
  caches := ⟨h.caches.served, h.caches.hashed, h.caches.archived, h.caches.txid, h.caches.outpoint⟩
  stored := h.stored
  gone := h.gone

end Agrees

variable (hashLock) in
/-- The loop over the transactions of a block only looks locks up. -/
lemma CInstantSendDb.looked_blockChanges (db : CInstantSendDb Sig)
    (change : Uint256 → IsChange Sig) (vtx : List CTransaction) :
    CInstantSendDb.Looked hashLock db (db.blockChanges change vtx).1 ∧
      ∀ c ∈ (db.blockChanges change vtx).2, ∃ hash, c = change hash := by
  unfold CInstantSendDb.blockChanges
  induction vtx using reverseRecOn with
  | nil => exact ⟨CInstantSendDb.Looked.refl db, nofun⟩
  | append_singleton vtx tx ih =>
    rw [foldl_append, foldl_cons, foldl_nil]
    obtain ⟨hlooked, hbatch⟩ := ih
    dsimp only
    split_ifs
    · exact ⟨hlooked, hbatch⟩
    · refine ⟨hlooked.trans (looked_getInstantSendLockHashByTxidInternal ..), fun c hc => ?_⟩
      obtain hc | hc := mem_append.mp hc
      · exact hbatch c hc
      · exact ⟨_, mem_singleton.mp hc⟩
    · exact ⟨hlooked.trans (looked_getInstantSendLockHashByTxidInternal ..), hbatch⟩

end Blocx
