import Blocx.Llmq.InstantSendDbIndexes

/-!
# Upgrade of the InstantSend database

`CInstantSendDb::Upgrade` goes through the locks and is to drop those of unknown transactions. It looks the transaction
up before it reads the record, in the object that the loop before has read: a lock is dropped if the transaction of the
lock before it is unknown, and the first one if the null hash is. The right locks are dropped only if the transactions
of all locks are known or unknown as the null hash is.
-/

namespace Blocx

open List

open Function

variable {Sig : Type} {known : Uint256 → Bool} {records dropped : List (Uint256 × SerializedLock Sig)}
  {t : IsTables Sig}
  {txid : Uint256} {record : Uint256 × SerializedLock Sig}

def CInstantSendDb.currentVersion : ℤ := 1

def dropChanges (record : Uint256 × SerializedLock Sig) : List (IsChange Sig) :=
  .eraseTxid record.2.txid :: record.2.inputs.map .eraseOutpoint ++ [.eraseIslock record.1]

/-- The loop of `Upgrade` over the records that the iterator yields, with the transaction of the lock object: the locks
that it drops. -/
def droppedLocks (known : Uint256 → Bool) :
    Uint256 → List (Uint256 × SerializedLock Sig) → List (Uint256 × SerializedLock Sig)
  | _, [] => []
  | txid, record :: records =>
    -- `islock` still has the lock that the loop read before this one
    if known txid then droppedLocks known record.2.txid records else record :: droppedLocks known record.2.txid records

/-- `CInstantSendDb::Upgrade`, with the version that is stored and the records of the locks in the order of their keys.
`known` says whether `GetTransaction` finds a transaction. -/
def IsTables.upgrade (known : Uint256 → Bool) (records : List (Uint256 × SerializedLock Sig)) (v : Option ℤ)
    (t : IsTables Sig) : Option ℤ × IsTables Sig :=
  if ∀ version ∈ v, version < CInstantSendDb.currentVersion then
    (some CInstantSendDb.currentVersion, t.writeBatch ((droppedLocks known 0 records).flatMap dropChanges))
  else (v, t)

/-- A lock that is stored and whose transaction is unknown. -/
def IsTables.Unknown (known : Uint256 → Bool) (t : IsTables Sig) (record : Uint256 × SerializedLock Sig) : Prop :=
  t.islockByHash record.1 = some record.2 ∧ known record.2.txid = false

/-- Of the locks exactly those for which `drop` holds are gone, and of the records by transaction and by outpoint
exactly those that one of them has. -/
structure IsTables.Drops (drop : Uint256 × SerializedLock Sig → Prop) (t t' : IsTables Sig) : Prop where
  islock : ∀ hash islock, t'.islockByHash hash = some islock ↔ t.islockByHash hash = some islock ∧ ¬drop (hash, islock)
  txid : ∀ txid hash, t'.hashByTxid txid = some hash ↔
    t.hashByTxid txid = some hash ∧ ∀ record, drop record → txid ≠ record.2.txid
  outpoint : ∀ o hash, t'.hashByOutpoint.get o = some hash ↔
    t.hashByOutpoint.get o = some hash ∧ ∀ record, drop record → o ∉ record.2.inputs

lemma IsTables.writeBatch_dropChanges : t.writeBatch (dropChanges record) = { t with
    islockByHash := update t.islockByHash record.1 none
    hashByTxid := update t.hashByTxid record.2.txid none
    hashByOutpoint := record.2.inputs.foldl OrderedStore.erase t.hashByOutpoint } := by
  unfold dropChanges
  rw [writeBatch_append, ← singleton_append, writeBatch_append, writeBatch_eraseOutpoints]
  rfl

/-- What is left under each key. -/
lemma IsTables.writeBatch_dropped {t' : IsTables Sig} (h : t.writeBatch (dropped.flatMap dropChanges) = t') :
    (∀ hash, t'.islockByHash hash = if hash ∈ dropped.map (·.1) then none else t.islockByHash hash) ∧
    (∀ txid, t'.hashByTxid txid = if txid ∈ dropped.map (·.2.txid) then none else t.hashByTxid txid) ∧
    ∀ o, t'.hashByOutpoint.get o = if o ∈ dropped.flatMap (·.2.inputs) then none else t.hashByOutpoint.get o := by
  induction dropped generalizing t with
  | nil => simp [← h, writeBatch]
  | cons record dropped ih =>
    rw [flatMap_cons, writeBatch_append, writeBatch_dropChanges] at h
    obtain ⟨hislock, htxid, houtpoint⟩ := ih h
    simp only [hislock, htxid, houtpoint, map_cons, flatMap_cons, mem_cons, mem_append, update_apply,
      OrderedStore.get_foldl_erase]
    grind

lemma drops_writeBatch (hstored : ∀ record ∈ dropped, t.islockByHash record.1 = some record.2) :
    t.Drops (· ∈ dropped) (t.writeBatch (dropped.flatMap dropChanges)) := by
  generalize h : t.writeBatch (dropped.flatMap dropChanges) = t'
  obtain ⟨hislock, htxid, houtpoint⟩ := IsTables.writeBatch_dropped h
  refine ⟨fun hash islock => ?_, fun txid hash => ?_, fun o hash => ?_⟩
  · grind
  · grind
  · grind

lemma droppedLocks_sublist : droppedLocks known txid records <+ records := by
  induction records generalizing txid with
  | nil => exact .slnil
  | cons record records ih =>
    rw [droppedLocks]
    split_ifs
    · exact ih.cons record
    · exact ih.cons_cons record

/-- The loop drops the unknown locks if and only if all are known or unknown as the one before the loop. -/
lemma droppedLocks_iff (hnodup : records.Nodup) :
    (∀ record ∈ records, record ∈ droppedLocks known txid records ↔ known record.2.txid = false) ↔
      ∀ record ∈ records, known record.2.txid = known txid := by
  induction records generalizing txid with
  | nil => simp
  | cons first records ih =>
    obtain ⟨hfirst, hnodup⟩ := nodup_cons.mp hnodup
    have hlater : first ∉ droppedLocks known first.2.txid records := fun h => hfirst (droppedLocks_sublist.subset h)
    have hrest : ∀ record ∈ records, (record ∈ droppedLocks known txid (first :: records) ↔
      known record.2.txid = false) ↔
        (record ∈ droppedLocks known first.2.txid records ↔ known record.2.txid = false) := by
      intro record hmem
      have hne : record ≠ first := fun h => hfirst (h ▸ hmem)
      rw [droppedLocks]
      split_ifs <;> simp [hne]
    have hdropped : (first ∈ droppedLocks known txid (first :: records) ↔ known first.2.txid = false) ↔
        known first.2.txid = known txid := by
      rw [droppedLocks]
      cases hknown : known txid <;> simp [hlater]
    rw [forall_mem_cons, forall_mem_cons, hdropped, forall₂_congr hrest, ih hnodup]
    refine and_congr_right fun h => ?_
    rw [h]

/-- The upgrade drops exactly the unknown locks if and only if the transactions of all locks are as known as the null
hash, which no transaction has. -/
theorem upgrade_drops_iff {v : Option ℤ} (hv : ∀ version ∈ v, version < CInstantSendDb.currentVersion)
    (hkeys : (records.map (·.1)).Nodup)
    (hrecords : ∀ hash islock, (hash, islock) ∈ records ↔ t.islockByHash hash = some islock) :
    t.Drops (t.Unknown known) (t.upgrade known records v).2 ↔
      ∀ hash islock, t.islockByHash hash = some islock → known islock.txid = known 0 := by
  have hsub : ∀ record ∈ droppedLocks known 0 records, t.islockByHash record.1 = some record.2 := fun record hmem =>
    (hrecords record.1 record.2).mp (droppedLocks_sublist.subset hmem)
  have hdrops := drops_writeBatch hsub
  have hiff := @droppedLocks_iff _ known records 0 (Nodup.of_map _ hkeys)
  simp only [Prod.forall, hrecords] at hiff
  unfold IsTables.upgrade
  rw [if_pos hv, ← hiff]
  constructor
  · intro h hash islock hislock
    have hleft := (hdrops.islock hash islock).symm.trans (h.islock hash islock)
    rw [← not_iff_not]
    simpa [IsTables.Unknown, hislock] using hleft
  · intro h
    have hdrop : t.Unknown known = (· ∈ droppedLocks known 0 records) := by
      funext record
      refine propext ⟨fun hmem => (h _ _ hmem.1).mpr hmem.2, fun hmem => ⟨hsub record hmem, ?_⟩⟩
      exact (h _ _ (hsub record hmem)).mp hmem
    rw [hdrop]
    exact hdrops

def toyUpgradeRecords : List (Uint256 × SerializedLock ℤ) :=
  [(10, (toyStoredLock 10 11).serialize clientVersion), (20, (toyStoredLock 20 21).serialize clientVersion)]

def toyUpgradeTables : IsTables ℤ :=
  { toyLockDb.tables with
    islockByHash := fun hash =>
      if hash = 10 ∨ hash = 20 then some ((toyStoredLock hash (hash + 1)).serialize clientVersion) else none
    hashByTxid := fun txid => if txid = 10 ∨ txid = 20 then some txid else none }

lemma mem_toyUpgradeRecords (hash : Uint256) (islock : SerializedLock ℤ) :
    (hash, islock) ∈ toyUpgradeRecords ↔ toyUpgradeTables.islockByHash hash = some islock := by
  simp only [toyUpgradeRecords, toyUpgradeTables, mem_cons, Prod.mk.injEq, not_mem_nil, or_false]
  grind

/-- Neither transaction is known. -/
theorem upgrade_drops_iff_toy : toyUpgradeTables.Drops (toyUpgradeTables.Unknown fun _ => false)
    (toyUpgradeTables.upgrade (fun _ => false) toyUpgradeRecords none).2 :=
  (upgrade_drops_iff (by decide) (by decide) mem_toyUpgradeRecords).mpr fun _ _ _ => rfl

/-- The first one is known, and its lock is dropped; the lock of the second one stays. -/
theorem upgrade_drops_known : let t := (toyUpgradeTables.upgrade (· = 10) toyUpgradeRecords none).2
    t.islockByHash 10 = none ∧ (t.islockByHash 20).isSome ∧
    ¬toyUpgradeTables.Drops (toyUpgradeTables.Unknown (· = 10)) t := by
  intro t
  have hdropped : t.islockByHash 10 = none := by decide
  refine ⟨hdropped, by decide, fun h => ?_⟩
  have hleft := (h.islock 10 ((toyStoredLock 10 11).serialize clientVersion)).mpr ⟨by decide, nofun⟩
  exact nomatch hdropped.symm.trans hleft

end Blocx
