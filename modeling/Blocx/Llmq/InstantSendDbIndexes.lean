import Blocx.Llmq.InstantSendDbRemovals

/-!
# The indexes of the InstantSend database agree

A lock is live from the call that writes it to the call that removes it. In a run in which no lock is written while a
live one has its transaction or one of its inputs, every live lock is found in all ways, a lock that was archived is
found in none, and a removal of confirmed locks removes the live locks that are mined.

Three things are left out of the runs. Locks with a cycle are not read back from the database. Archiving a lock that is
not live erases the keys of live locks that share them. And a removal of confirmed locks does nothing for a height that
is not above those it was called for before. A lock that is archived twice is forgotten with the lower of the two
heights.
-/

namespace Blocx

open List

open Function

variable {Sig : Type} {hashLock : SerializedLock Sig → Uint256}

/-! ### Runs -/

/-- A call. -/
inductive IsCall (Sig : Type) where
  | writeNew (hash : Uint256) (islock : CInstantSendLock Sig)
  | writeMined (hash : Uint256) (nHeight : ℕ)
  | writeBlock (vtx : List CTransaction) (nHeight : ℕ)
  | removeBlock (vtx : List CTransaction) (nHeight : ℕ)
  | removeConfirmed (nUntilHeight : ℤ)
  | removeArchived (nUntilHeight : ℤ)
  | removeChained (islockHash txid : Uint256) (nHeight : ℕ)
  | removeAndArchive (islock : CInstantSendLock Sig) (nHeight : ℕ)
  | getByHash (hash : Uint256) (useCache : Bool)
  | getHashByTxid (txid : Uint256)
  | getByTxid (txid : Uint256)
  | getByInput (outpoint : COutPoint)
  | known (islockHash : Uint256)

/-- What a call does to the database. -/
def CInstantSendDb.call (hashLock : SerializedLock Sig → Uint256) (db : CInstantSendDb Sig) :
    IsCall Sig → CInstantSendDb Sig
  | .writeNew hash islock => db.writeNewInstantSendLock hash islock
  | .writeMined hash nHeight => db.writeInstantSendLockMined hash nHeight
  | .writeBlock vtx nHeight => db.writeBlockInstantSendLocks vtx nHeight
  | .removeBlock vtx nHeight => db.removeBlockInstantSendLocks vtx nHeight
  | .removeConfirmed nUntilHeight => (db.removeConfirmedInstantSendLocks hashLock nUntilHeight).2
  | .removeArchived nUntilHeight => db.removeArchivedInstantSendLocks nUntilHeight
  | .removeChained islockHash txid nHeight => (db.removeChainedInstantSendLocks hashLock islockHash txid nHeight).2
  | .removeAndArchive islock nHeight => db.removeAndArchiveInstantSendLock hashLock islock nHeight
  | .getByHash hash useCache => (db.getInstantSendLockByHashInternal hashLock hash useCache).2
  | .getHashByTxid txid => (db.getInstantSendLockHashByTxidInternal txid).2
  | .getByTxid txid => (db.getInstantSendLockByTxid hashLock txid).2
  | .getByInput outpoint => (db.getInstantSendLockByInput hashLock outpoint).2
  | .known islockHash => (db.knownInstantSendLock hashLock islockHash).2

/-- The locks that a call removes and archives, confirmed ones apart. -/
def IsCall.archives (hashLock : SerializedLock Sig → Uint256) (db : CInstantSendDb Sig) : IsCall Sig → List Uint256
  | .removeChained islockHash txid nHeight => (db.removeChainedInstantSendLocks hashLock islockHash txid nHeight).1
  | .removeAndArchive islock _ => [islock.serializeHash hashLock]
  | _ => []

/-- State of a run: the database, the live locks, and the hashes that calls have archived and not written since. -/
structure IsRun (Sig : Type) where
  db : CInstantSendDb Sig
  live : Uint256 → Option (CInstantSendLock Sig) := fun _ => none
  /-- The archived ones. -/
  gone : Finset Uint256 := ∅

/-- What a call does to the state. -/
def IsRun.step (hashLock : SerializedLock Sig → Uint256) (r : IsRun Sig) (call : IsCall Sig) : IsRun Sig where
  db := r.db.call hashLock call
  live := match call with
    | .writeNew hash islock => update r.live hash (some islock)
    | .removeConfirmed nUntilHeight => fun hash =>
      if ((r.db.removeConfirmedInstantSendLocks hashLock nUntilHeight).1 hash).isSome then none else r.live hash
    | _ => without r.live (call.archives hashLock r.db)
  gone := match call with
    | .writeNew hash _ => r.gone.erase hash
    | _ => r.gone ∪ (call.archives hashLock r.db).toFinset

/-- The state after calls. -/
def IsRun.after (hashLock : SerializedLock Sig → Uint256) (r : IsRun Sig) (calls : List (IsCall Sig)) : IsRun Sig :=
  calls.foldl (IsRun.step hashLock) r

/-- A call that is admitted. A lock is written under its hash while no live lock has its transaction or one of its
inputs, and none is archived while another live lock has one. -/
def CallAdmitted (hashLock : SerializedLock Sig → Uint256) (r : IsRun Sig) : IsCall Sig → Prop
  | .writeNew hash islock => hash = islock.serializeHash hashLock ∧ hash ≠ 0 ∧ islock.Storable ∧
      ∀ hash' islock', r.live hash' = some islock' → ¬islock'.SharesKey islock
  | .removeAndArchive islock _ => ∀ hash' islock', r.live hash' = some islock' → islock'.SharesKey islock →
      islock' = islock
  | _ => True

def CallsAdmitted (hashLock : SerializedLock Sig → Uint256) : IsRun Sig → List (IsCall Sig) → Prop
  | _, [] => True
  | r, call :: calls => CallAdmitted hashLock r call ∧ CallsAdmitted hashLock (r.step hashLock call) calls

def IsCall.islock : IsCall Sig → Option (CInstantSendLock Sig)
  | .writeNew _ islock => some islock
  | .removeAndArchive islock _ => some islock
  | _ => none

/-- A database without entries, as it is made. -/
structure CInstantSendDb.IsNew (db : CInstantSendDb Sig) : Prop where
  tables : db.tables = {}
  islockCache : db.islockCache.entries = []
  txidCache : db.txidCache.entries = []
  outpointCache : db.outpointCache.entries = []

/-- In a run, an archived lock is not pruned: at every pruning its archive records are above the height. -/
def NotPruned (hashLock : SerializedLock Sig → Uint256) (hash : Uint256) : IsRun Sig → List (IsCall Sig) → Prop
  | _, [] => True
  | r, call :: calls =>
    (∀ n, call = .removeArchived n → 0 < n → ∀ m : ℕ,
      (r.db.tables.archivedByHeightAndHash.get (buildInversedISLockKey m hash)).isSome → n < m) ∧
    NotPruned hashLock hash (r.step hashLock call) calls

/-! ### Agreement over runs -/

variable {r : IsRun Sig}

section Runs

variable {locks : List (CInstantSendLock Sig)} {call : IsCall Sig} {calls calls' : List (IsCall Sig)} {hash : Uint256}
  {batch : List (IsChange Sig)} {t : IsTables Sig} {db' : CInstantSendDb Sig}

open CInstantSendDb

lemma agrees_of_isNew {db : CInstantSendDb Sig} (h : db.IsNew) : Agrees hashLock locks db (fun _ => none) ∅ := by
  refine ⟨?_, ⟨fun hash v hv => ?_, fun hash v hv => ?_, fun hash hgone => ?_, fun txid hash hv => ?_,
    fun o hash hv => ?_⟩, nofun, fun hash _ => rfl⟩
  · rw [h.tables]
    refine ⟨fun hash => rfl, fun txid hash => ?_, fun o hash => ?_⟩
    · exact ⟨nofun, fun ⟨_, hlive, _⟩ => (nomatch hlive)⟩
    · exact ⟨nofun, fun ⟨_, hlive, _⟩ => (nomatch hlive)⟩
  · exact absurd h.islockCache (LruCache.entries_ne_nil hv)
  · exact absurd h.islockCache (LruCache.entries_ne_nil hv)
  · exact absurd hgone (Finset.notMem_empty hash)
  · exact absurd h.txidCache (LruCache.entries_ne_nil hv)
  · exact absurd h.outpointCache (LruCache.entries_ne_nil hv)

/-! ### The archive -/

lemma archivedByHash_apply {c : IsChange Sig} (hc : c ≠ .eraseArchivedHash hash) (h : t.archivedByHash hash = true) :
    (t.apply c).archivedByHash hash = true := by
  cases c with
  | writeArchivedHash hash' =>
    show update t.archivedByHash hash' true hash = true
    by_cases heq : hash = hash'
    · rw [heq, update_self]
    · rw [update_of_ne heq, h]
  | eraseArchivedHash hash' =>
    show update t.archivedByHash hash' false hash = true
    rw [update_of_ne fun heq => hc (congrArg _ heq.symm), h]
  | _ => exact h

lemma archivedByHash_writeBatch (hkeeps : .eraseArchivedHash hash ∉ batch)
    (h : t.archivedByHash hash = true ∨ .writeArchivedHash hash ∈ batch) :
    (t.writeBatch batch).archivedByHash hash = true := by
  induction batch generalizing t with
  | nil => exact h.resolve_right not_mem_nil
  | cons c batch ih =>
    rw [mem_cons, not_or] at hkeeps
    refine ih (t := t.apply c) hkeeps.2 ?_
    obtain h | h := h
    · exact .inl (archivedByHash_apply (Ne.symm hkeeps.1) h)
    · obtain rfl | h := mem_cons.mp h
      · exact .inl (update_self ..)
      · exact .inr h

/-- A call writes a batch. It archives the locks that it removes, and takes a hash out of the archive only when it
prunes a record of it. -/
structure Archives (hashLock : SerializedLock Sig → Uint256) (r : IsRun Sig) (call : IsCall Sig)
    (batch : List (IsChange Sig)) : Prop where
  tables : (r.db.call hashLock call).tables = r.db.tables.writeBatch batch
  writes : ∀ hash ∈ call.archives hashLock r.db, .writeArchivedHash hash ∈ batch
  erases : ∀ hash, .eraseArchivedHash hash ∈ batch → ∃ n, call = .removeArchived n ∧ 0 < n ∧ ∃ m : ℕ, m ≤ n ∧
    (r.db.tables.archivedByHeightAndHash.get (buildInversedISLockKey m hash)).isSome

lemma archives_of_keeps (htables : (r.db.call hashLock call).tables = r.db.tables.writeBatch batch)
    (hwrites : ∀ hash ∈ call.archives hashLock r.db, .writeArchivedHash hash ∈ batch)
    (hkeeps : ∀ hash, .eraseArchivedHash hash ∉ batch) : Archives hashLock r call batch :=
  ⟨htables, hwrites, fun hash hmem => absurd hmem (hkeeps hash)⟩

variable (hashLock r locks call) in
/-- A call keeps the tables right, and writes a batch. -/
abbrev Steps : Prop :=
  Agrees hashLock locks (r.step hashLock call).db (r.step hashLock call).live (r.step hashLock call).gone ∧
    ∃ batch, Archives hashLock r call batch

lemma Removing.step (hremoving : Removing hashLock r.db r.live r.gone db' batch (call.archives hashLock r.db))
    (h : Agrees hashLock locks r.db r.live r.gone)
    (heq : r.db.call hashLock call = { db' with tables := db'.tables.writeBatch batch })
    (hlive : (r.step hashLock call).live = without r.live (call.archives hashLock r.db))
    (hgone : (r.step hashLock call).gone = r.gone ∪ (call.archives hashLock r.db).toFinset) :
    Steps hashLock r locks call := by
  refine ⟨?_, batch, archives_of_keeps ?_ hremoving.archives hremoving.keeps⟩
  · rw [hlive, hgone]
    show Agrees hashLock locks (r.db.call hashLock call) _ _
    rw [heq]
    exact hremoving.writeBatch h
  · exact (congrArg CInstantSendDb.tables heq).trans (congrArg (IsTables.writeBatch · _) hremoving.tables)

lemma archives_of_looked (hlooked : Looked hashLock r.db (r.db.call hashLock call))
    (hcall : call.archives hashLock r.db = []) : Archives hashLock r call [] :=
  archives_of_keeps hlooked.tables (fun _ hmem => absurd (hcall ▸ hmem) not_mem_nil) fun _ => not_mem_nil

/-! ### Calls -/

lemma callsAdmitted_append : CallsAdmitted hashLock r (calls ++ calls') ↔
    CallsAdmitted hashLock r calls ∧ CallsAdmitted hashLock (r.after hashLock calls) calls' := by
  induction calls generalizing r with
  | nil => exact (and_iff_right trivial).symm
  | cons call calls ih =>
    show CallAdmitted hashLock r call ∧ CallsAdmitted hashLock (r.step hashLock call) (calls ++ calls') ↔
      (CallAdmitted hashLock r call ∧ CallsAdmitted hashLock (r.step hashLock call) calls) ∧
        CallsAdmitted hashLock ((r.step hashLock call).after hashLock calls) calls'
    rw [ih, and_assoc]

lemma after_append :
    r.after hashLock (calls ++ calls') = (r.after hashLock calls).after hashLock calls' := foldl_append

section

variable (h : Agrees hashLock locks r.db r.live r.gone) (hcollisions : NoLockCollisions hashLock locks)

include h hcollisions

lemma Agrees.of_looked (hlooked : Looked hashLock r.db db') :
    Agrees hashLock locks db' (without r.live []) (r.gone ∪ [].toFinset) := by
  rw [toFinset_nil, Finset.union_empty]
  exact h.looked hcollisions hlooked

lemma Agrees.looks (hlooked : Looked hashLock r.db (r.db.call hashLock call)) (hcall : call.archives hashLock r.db = [])
    (hlive : (r.step hashLock call).live = without r.live [])
    (hgone : (r.step hashLock call).gone = r.gone ∪ [].toFinset) :
    Steps hashLock r locks call := by
  rw [Steps, hlive, hgone]
  exact ⟨h.of_looked hcollisions hlooked, [], archives_of_looked hlooked hcall⟩

lemma Agrees.step (hadmitted : CallAdmitted hashLock r call) (hlocks : ∀ islock ∈ call.islock, islock ∈ locks) :
    Steps hashLock r locks call := by
  have hsame := h.of_looked hcollisions (Looked.refl r.db)
  have hnone : ∀ {batch : List (IsChange Sig)}, ∀ hash ∈ ([] : List Uint256), .writeArchivedHash hash ∈ batch :=
    nofun
  cases call with
  | writeNew hash islock =>
    obtain ⟨hhash, hne, hstorable, hshares⟩ := hadmitted
    have hstored : StoredUnder hashLock locks hash islock := ⟨hlocks islock rfl, hhash.symm, hne, hstorable⟩
    refine ⟨h.writeNew hstored ?_ hshares, _, archives_of_keeps rfl hnone fun _ => by simp [writeLockChanges]⟩
    cases hlive : r.live hash with
    | none => rfl
    | some islock' =>
      have heq := (h.stored hash islock' hlive).unique hcollisions hstored.mem hhash.symm
      exact absurd (.inl ⟨islock.txid, heq ▸ mem_singleton_self _, mem_singleton_self _⟩) (hshares hash islock' hlive)
  | writeMined hash nHeight =>
    refine ⟨hsame.writeBatch fun c hc => mem_singleton.mp hc ▸ rfl, _, archives_of_keeps rfl hnone fun _ => ?_⟩
    simp
  | writeBlock vtx nHeight =>
    obtain ⟨hlooked, hbatch⟩ := looked_blockChanges hashLock r.db
      (fun hash => .writeMined (buildInversedISLockKey nHeight hash)) vtx
    refine ⟨(h.of_looked hcollisions hlooked).writeBatch fun c hc => (hbatch c hc).elim fun _ heq => heq ▸ rfl, _,
      archives_of_keeps (congrArg (IsTables.writeBatch · _) hlooked.tables) hnone fun hash' hmem => ?_⟩
    obtain ⟨hash, heq⟩ := hbatch _ hmem
    cases heq
  | removeBlock vtx nHeight =>
    obtain ⟨hlooked, hbatch⟩ := looked_blockChanges hashLock r.db
      (fun hash => .eraseMined (buildInversedISLockKey nHeight hash)) vtx
    refine ⟨(h.of_looked hcollisions hlooked).writeBatch fun c hc => (hbatch c hc).elim fun _ heq => heq ▸ rfl, _,
      archives_of_keeps (congrArg (IsTables.writeBatch · _) hlooked.tables) hnone fun hash' hmem => ?_⟩
    obtain ⟨hash, heq⟩ := hbatch _ hmem
    cases heq
  | removeConfirmed n =>
    obtain ⟨-, hconfirmed, batch, htables, hkeeps⟩ := h.removeConfirmed hcollisions n
    refine ⟨?_, batch, archives_of_keeps htables hnone hkeeps⟩
    show Agrees hashLock locks _ _ (r.gone ∪ [].toFinset)
    rw [toFinset_nil, Finset.union_empty]
    exact hconfirmed
  | removeArchived n =>
    show Agrees hashLock locks (r.db.removeArchivedInstantSendLocks n) (without r.live []) (r.gone ∪ [].toFinset) ∧ _
    by_cases hn : n ≤ 0
    · have heq : r.db.removeArchivedInstantSendLocks n = r.db := by
        rw [CInstantSendDb.removeArchivedInstantSendLocks, if_pos hn]
      rw [heq]
      exact ⟨hsame, [], archives_of_keeps (congrArg _ heq) hnone fun _ => not_mem_nil⟩
    · have heq := CInstantSendDb.removeArchivedInstantSendLocks.eq_1 r.db n
      rw [if_neg hn] at heq
      rw [heq]
      refine ⟨hsame.writeBatch fun c hc => ?_, _, congrArg _ heq, hnone, fun hash hmem => ⟨n, rfl, not_le.mp hn, ?_⟩⟩
      · obtain ⟨e, -, hc⟩ := mem_flatMap.mp hc
        obtain rfl | hc := mem_cons.mp hc
        · rfl
        · exact mem_singleton.mp hc ▸ rfl
      · obtain ⟨e, he, hmem⟩ := mem_flatMap.mp hmem
        obtain ⟨hget, hle⟩ := mem_keysUpTo.mp (mem_map_of_mem he)
        obtain heq | hmem := mem_cons.mp hmem
        · obtain rfl := IsChange.eraseArchivedHash.inj heq
          exact ⟨e.1.nHeight, by omega, hget⟩
        · cases mem_singleton.mp hmem
  | removeChained islockHash txid nHeight =>
    obtain ⟨db', batch, hremoving, heq⟩ := h.removing_removeChained hcollisions islockHash txid nHeight
    exact hremoving.step h heq rfl rfl
  | removeAndArchive islock nHeight =>
    obtain ⟨db', batch, hremoving, heq⟩ :=
      h.removing_removeAndArchive hcollisions (hlocks islock rfl) hadmitted nHeight
    exact hremoving.step h heq rfl rfl
  | getByHash hash useCache =>
    exact h.looks hcollisions (looked_getInstantSendLockByHashInternal r.db hash useCache) rfl rfl rfl
  | getHashByTxid txid => exact h.looks hcollisions (looked_getInstantSendLockHashByTxidInternal r.db txid) rfl rfl rfl
  | getByTxid txid => exact h.looks hcollisions (looked_getInstantSendLockByTxid r.db txid) rfl rfl rfl
  | getByInput o => exact h.looks hcollisions (looked_getInstantSendLockByInput r.db o) rfl rfl rfl
  | known hash => exact h.looks hcollisions (looked_getInstantSendLockByHashInternal r.db hash true) rfl rfl rfl

section

variable (hadmitted : CallsAdmitted hashLock r calls) (hlocks : ∀ call ∈ calls, ∀ islock ∈ call.islock, islock ∈ locks)

include hadmitted hlocks

lemma Agrees.after :
    Agrees hashLock locks (r.after hashLock calls).db (r.after hashLock calls).live (r.after hashLock calls).gone := by
  induction calls generalizing r with
  | nil => exact h
  | cons call calls ih =>
    obtain ⟨hcall, hcalls⟩ := forall_mem_cons.mp hlocks
    exact ih (h.step hcollisions hadmitted.1 hcall).1 hadmitted.2 hcalls

lemma Agrees.archivedByHash_after (hpruned : NotPruned hashLock hash r calls)
    (harchived : r.db.tables.archivedByHash hash = true) :
    (r.after hashLock calls).db.tables.archivedByHash hash = true := by
  induction calls generalizing r with
  | nil => exact harchived
  | cons call calls ih =>
    obtain ⟨hcall, hcalls⟩ := forall_mem_cons.mp hlocks
    obtain ⟨hprune, hpruned⟩ := hpruned
    obtain ⟨hnext, batch, hbatch⟩ := h.step hcollisions hadmitted.1 hcall
    refine ih hnext hadmitted.2 hcalls hpruned ?_
    show (r.db.call hashLock call).tables.archivedByHash hash = true
    rw [hbatch.tables]
    refine archivedByHash_writeBatch (fun hmem => ?_) (.inl harchived)
    obtain ⟨n, heq, hpos, m, hle, hrecord⟩ := hbatch.erases hash hmem
    exact absurd (hprune n heq hpos m hrecord) (not_lt.mpr hle)

end

/-! ### What lookups find -/

/-- Every live lock is found by its hash, by its transaction and by each of its inputs. -/
def IsRun.FindsLive (hashLock : SerializedLock Sig → Uint256) (r : IsRun Sig) : Prop :=
  ∀ hash islock, r.live hash = some islock →
    (∀ useCache, (r.db.getInstantSendLockByHashInternal hashLock hash useCache).1 = some islock) ∧
    (r.db.getInstantSendLockByTxid hashLock islock.txid).1 = some islock ∧
    ∀ o ∈ islock.inputs, (r.db.getInstantSendLockByInput hashLock o).1 = some islock

/-- No lookup returns a lock that was archived. -/
def IsRun.HidesArchived (hashLock : SerializedLock Sig → Uint256) (r : IsRun Sig) : Prop :=
  ∀ hash ∈ r.gone,
    (∀ useCache, (r.db.getInstantSendLockByHashInternal hashLock hash useCache).1 = none) ∧
    (∀ txid islock, (r.db.getInstantSendLockByTxid hashLock txid).1 = some islock →
      islock.serializeHash hashLock ≠ hash) ∧
    ∀ o islock, (r.db.getInstantSendLockByInput hashLock o).1 = some islock → islock.serializeHash hashLock ≠ hash

/-- A removal of confirmed locks returns the live locks with a mined record up to the height, and these are then not in
the database, where the others are. -/
def IsRun.RemovesConfirmed (hashLock : SerializedLock Sig → Uint256) (r : IsRun Sig) (n : ℕ) : Prop :=
  ∀ hash islock,
    ((r.db.removeConfirmedInstantSendLocks hashLock n).1 hash = some islock ↔
      r.live hash = some islock ∧ r.db.tables.MinedUpTo n hash) ∧
    (((r.db.removeConfirmedInstantSendLocks hashLock n).2.getInstantSendLockByHashInternal hashLock hash false).1 =
      some islock ↔ r.live hash = some islock ∧ ¬r.db.tables.MinedUpTo n hash)

lemma Agrees.findsLive : r.FindsLive hashLock := by
  refine fun hash islock hlive => ⟨fun _ => h.getByHash hcollisions hlive, ?_, fun o hmem => ?_⟩
  · obtain ⟨db', hash', hagrees, heq, hhash⟩ := h.getByTxid_eq hcollisions islock.txid
    rw [heq, ← hhash hash islock hlive rfl]
    exact hagrees.getByHash hcollisions hlive
  · obtain ⟨db', hash', hagrees, heq, hhash⟩ := h.getByInput_eq hcollisions o
    rw [heq, ← hhash hash islock hlive hmem]
    exact hagrees.getByHash hcollisions hlive

lemma Agrees.hidesArchived : r.HidesArchived hashLock := by
  -- a lock that a lookup returns is found by its own hash
  have hhidden : ∀ {db' hash' islock}, Agrees hashLock locks db' r.live r.gone →
      (db'.getInstantSendLockByHashInternal hashLock hash' true).1 = some islock →
      ∀ hash ∈ r.gone, islock.serializeHash hashLock ≠ hash := by
    rintro db' hash' islock hagrees hget hash hgone rfl
    obtain ⟨-, rfl⟩ := hagrees.hash_of_getByHash hcollisions hget
    cases (hagrees.getByHash_gone hcollisions hgone).symm.trans hget
  refine fun hash hgone => ⟨fun _ => h.getByHash_gone hcollisions hgone, fun txid islock hget => ?_,
    fun o islock hget => ?_⟩
  · obtain ⟨db', hash', hagrees, heq, -⟩ := h.getByTxid_eq hcollisions txid
    exact hhidden hagrees (heq ▸ hget) hash hgone
  · obtain ⟨db', hash', hagrees, heq, -⟩ := h.getByInput_eq hcollisions o
    exact hhidden hagrees (heq ▸ hget) hash hgone

lemma Agrees.removesConfirmed {n : ℕ} (hn : r.db.bestConfirmedHeight < n) : r.RemovesConfirmed hashLock n := by
  obtain ⟨hret, hagrees, -⟩ := h.removeConfirmed hcollisions n
  have hret := hret hn
  refine fun hash islock => ⟨hret hash islock, ?_⟩
  obtain ⟨cache, hget, -⟩ := hagrees.read_getByHash hcollisions rfl hash
  rw [hget]
  cases hlive : r.live hash with
  | none => simp
  | some islock' =>
    have hremoved := hret hash islock'
    rw [hlive] at hremoved
    by_cases hmined : r.db.tables.MinedUpTo n hash
    · rw [hremoved.mpr ⟨rfl, hmined⟩]
      simp [hmined]
    · have hnone : (r.db.removeConfirmedInstantSendLocks hashLock n).1 hash = none := by
        refine Option.eq_none_iff_forall_ne_some.mpr fun islock'' heq => hmined ((hret hash islock'').mp heq).2
      rw [hnone]
      simp [hmined]

end

/-- The database and its caches through a run of admitted calls. A lock that was archived is known as long as its
archive records are not pruned, and it is not found until it is written again. A removal of confirmed locks is one for a
height above those before it. -/
theorem indexes_agree {db : CInstantSendDb Sig} (hnew : db.IsNew)
    (hcollisions : NoLockCollisions hashLock (calls.filterMap IsCall.islock))
    (hadmitted : CallsAdmitted hashLock { db := db } calls) :
    (IsRun.after hashLock { db := db } calls).FindsLive hashLock ∧
    (IsRun.after hashLock { db := db } calls).HidesArchived hashLock ∧
    (∀ before call after, calls = before ++ call :: after →
      ∀ hash ∈ call.archives hashLock (IsRun.after hashLock { db := db } before).db,
        NotPruned hashLock hash (IsRun.after hashLock { db := db } (before ++ [call])) after →
        ((IsRun.after hashLock { db := db } calls).db.knownInstantSendLock hashLock hash).1 = true) ∧
    ∀ n : ℕ, (IsRun.after hashLock { db := db } calls).db.bestConfirmedHeight < n →
      (IsRun.after hashLock { db := db } calls).RemovesConfirmed hashLock n := by
  have hstart : Agrees hashLock (calls.filterMap IsCall.islock) db (fun _ => none) ∅ := agrees_of_isNew hnew
  have hlocks : ∀ call ∈ calls, ∀ islock ∈ call.islock, islock ∈ calls.filterMap IsCall.islock :=
    fun call hcall islock hislock => mem_filterMap.mpr ⟨call, hcall, hislock⟩
  have hend := Agrees.after (r := { db := db }) hstart hcollisions hadmitted hlocks
  refine ⟨hend.findsLive hcollisions, hend.hidesArchived hcollisions, ?_, fun n hn =>
    hend.removesConfirmed hcollisions hn⟩
  intro before call after hcalls hash hmem hpruned
  have hsplit := hadmitted
  rw [hcalls] at hsplit
  obtain ⟨hbefore, hcall, hafter⟩ := callsAdmitted_append.mp hsplit
  have hmem_calls : ∀ c, c ∈ before ∨ c = call ∨ c ∈ after → c ∈ calls := by
    intro c hc
    rw [hcalls, mem_append, mem_cons]
    exact hc
  have hagrees := Agrees.after (r := { db := db }) hstart hcollisions hbefore fun c hc =>
    hlocks c (hmem_calls c (.inl hc))
  have hlock := hlocks call (hmem_calls call (.inr (.inl rfl)))
  obtain ⟨hnext, batch, hbatch⟩ := hagrees.step hcollisions hcall hlock
  -- the call is not a pruning, as it archives the lock
  have harchived : ((IsRun.after hashLock { db := db } before).step hashLock call).db.tables.archivedByHash hash =
      true := by
    show ((IsRun.after hashLock { db := db } before).db.call hashLock call).tables.archivedByHash hash = true
    rw [hbatch.tables]
    refine archivedByHash_writeBatch (fun herased => ?_) (.inr (hbatch.writes hash hmem))
    obtain ⟨n, rfl, -⟩ := hbatch.erases hash herased
    exact absurd hmem not_mem_nil
  rw [after_append] at hpruned
  have hkept := hnext.archivedByHash_after hcollisions hafter
    (fun c hc => hlocks c (hmem_calls c (.inr (.inr hc)))) hpruned harchived
  have hrun : IsRun.after hashLock { db := db } calls =
      ((IsRun.after hashLock { db := db } before).step hashLock call).after hashLock after := by
    rw [hcalls, after_append]
    rfl
  rw [hrun, fst_knownInstantSendLock, hkept, Bool.or_true]

end Runs

/-! ### Runs -/

/-- A new database with small caches. -/
def toyLockDb : CInstantSendDb ℤ where
  islockCache := { maxSize := 1, truncateThreshold := 2 }
  txidCache := { maxSize := 1, truncateThreshold := 2 }
  outpointCache := { maxSize := 1, truncateThreshold := 2 }

/-- A hash that tells locks with different transactions, versions and cycles apart. -/
def toyLockHash (r : SerializedLock ℤ) : Uint256 :=
  if r.nVersion.isSome then r.txid + 1000 + r.cycleHash.getD 0 else r.txid

def toyStoredLock (txid parent : Uint256) : CInstantSendLock ℤ where
  nVersion := 0
  inputs := [⟨parent, 0⟩]
  txid := txid
  cycleHash := 0
  sig := none

def toyLockedTx (txid parent : Uint256) : CTransaction where
  hash := txid
  nVersion := 1
  nType := .normal
  vin := [{ prevout := ⟨parent, 0⟩ }]
  vout := []

lemma live_step_writeNew {hash hash' : Uint256} {islock islock' : CInstantSendLock Sig}
    (h : (r.step hashLock (.writeNew hash islock)).live hash' = some islock') :
    hash' = hash ∧ islock' = islock ∨ r.live hash' = some islock' := by
  obtain ⟨rfl, rfl⟩ | ⟨-, h⟩ := update_some_eq_some_iff.mp h
  · exact .inl ⟨rfl, rfl⟩
  · exact .inr h

/-- Lock 20 is chained to lock 10, and lock 30 is not. The first two are removed. -/
def toyLockCalls : List (IsCall ℤ) :=
  [.writeNew 10 (toyStoredLock 10 1), .writeNew 20 (toyStoredLock 20 10), .writeNew 30 (toyStoredLock 30 3),
    .writeBlock [toyLockedTx 30 3] 5, .removeChained 10 10 7]

lemma callsAdmitted_toyLockCalls : CallsAdmitted toyLockHash { db := toyLockDb } toyLockCalls := by
  refine ⟨⟨by decide, by decide, ⟨.inl rfl, rfl⟩, nofun⟩,
    ⟨by decide, by decide, ⟨.inl rfl, rfl⟩, fun hash islock h => ?_⟩,
    ⟨by decide, by decide, ⟨.inl rfl, rfl⟩, fun hash islock h => ?_⟩, trivial, trivial, trivial⟩
  · obtain ⟨-, rfl⟩ | h := live_step_writeNew h
    · decide
    · cases h
  · obtain ⟨-, rfl⟩ | h := live_step_writeNew h
    · decide
    · obtain ⟨-, rfl⟩ | h := live_step_writeNew h
      · decide
      · cases h

theorem indexes_agree_toyLockCalls :
    (IsRun.after toyLockHash { db := toyLockDb } toyLockCalls).FindsLive toyLockHash ∧
    (IsRun.after toyLockHash { db := toyLockDb } toyLockCalls).gone = {10, 20} ∧
    (IsRun.after toyLockHash { db := toyLockDb } toyLockCalls).live 30 = some (toyStoredLock 30 3) := by
  refine ⟨(indexes_agree ⟨rfl, rfl, rfl, rfl⟩ ⟨by decide, by decide⟩ callsAdmitted_toyLockCalls).1,
    by decide, by decide⟩

/-- Four runs in which the indexes do not agree. A lock is mined at height 5 after height 10 was confirmed, and is not
removed when height 10 is confirmed again. A deterministic lock is not found in the database. Lock 10 is archived, after
it was confirmed, while lock 20 is live and has the same input, and lock 20 is not found by it any more. A lock that was
mined at height 5 is archived at height 10, and is not known any more after the archive is pruned up to height 6. -/
theorem indexes_disagree :
    (let r := IsRun.after toyLockHash { db := toyLockDb }
      [.writeNew 10 (toyStoredLock 10 1), .removeConfirmed 10, .writeBlock [toyLockedTx 10 1] 5]
    r.live 10 = some (toyStoredLock 10 1) ∧ (r.db.tables.minedByHeightAndHash.get
      (buildInversedISLockKey 5 10)).isSome ∧
      (r.db.removeConfirmedInstantSendLocks toyLockHash 10).1 10 = none) ∧
    (let islock := { toyStoredLock 10 1 with nVersion := 1, cycleHash := 7 }
    let r := IsRun.after toyLockHash { db := toyLockDb } [.writeNew 1017 islock]
    r.live 1017 = some islock ∧ islock.serializeHash toyLockHash = 1017 ∧
      (r.db.getInstantSendLockByHashInternal toyLockHash 1017 false).1 = none) ∧
    (let r := IsRun.after toyLockHash { db := toyLockDb }
      [.writeNew 10 (toyStoredLock 10 1), .writeBlock [toyLockedTx 10 1] 5, .removeConfirmed 5,
        .writeNew 20 (toyStoredLock 20 1),
        .removeAndArchive (toyStoredLock 10 1) 6]
    r.live 10 = none ∧ r.live 20 = some (toyStoredLock 20 1) ∧
      (r.db.getInstantSendLockByInput toyLockHash ⟨1, 0⟩).1 = none) ∧
    (let r := IsRun.after toyLockHash { db := toyLockDb }
      [.writeNew 10 (toyStoredLock 10 1), .writeBlock [toyLockedTx 10 1] 5, .removeChained 10 10 10, .removeConfirmed 7,
        .removeArchived 6]
    r.gone = {10} ∧ (r.db.knownInstantSendLock toyLockHash 10).1 = false) := by
  refine ⟨by decide, by decide, by decide, by decide⟩

end Blocx
