import Blocx.Lib.Overlay
import Blocx.Llmq.RecoveredSigsDb

/-!
# Runs of the database of recovered signatures

A run is a list of calls: writes, truncations, cleanups and the lookups that fill the caches. Beside the database it
keeps what a reader of the calls knows: the writes so far, those that were not truncated since, the signatures that are
live (not truncated and not before the limit of a later cleanup), and the truncated ones that no cleanup has met yet,
which have their keys by hash and by time left.

`Describes` says that the tables of signatures, write times and sessions hold a family of live writes and nothing else;
erasing the keys of a signature takes it out of the family (`Describes.eraseSig`), which is what truncation and every
turn of the cleanup do. `Removes` is the invariant of the loop of the cleanup, whatever batches it flushes on its way.
-/

namespace Blocx

open Function Option List

open Consensus

variable {Sig : Type} {ids : List RecSigId} {t : RecSigTables Sig} {db : RecSigDb Sig} {recSig : CRecoveredSig Sig}
  {hashes : RecSigHashes Sig} {deleteHashKey : Bool}

/-! ### Runs -/

/-- A call of `WriteRecoveredSig`: the signature and the time. -/
structure RecSigWrite (Sig : Type) where
  recSig : CRecoveredSig Sig
  now : ℤ

/-- Type and id of the signature written. -/
def RecSigWrite.id (w : RecSigWrite Sig) : RecSigId := w.recSig.recSigId

def RecSigWrite.timeKey (w : RecSigWrite Sig) : RecSigTimeKey := ⟨storedTime w.now, w.id⟩

/-- A call. -/
inductive RecSigCall (Sig : Type) where
  | write (now : ℤ) (recSig : CRecoveredSig Sig)
  | truncate (id : RecSigId)
  | cleanup (now maxAge : ℤ)
  | hasForId (id : RecSigId)
  | hasForSession (signHash : Uint256)
  | hasForHash (hash : Uint256)

/-- The database and what the calls have done. -/
structure RecSigRun (Sig : Type) where
  db : RecSigDb Sig
  written : List (RecSigWrite Sig) := []
  /-- The writes whose type and id have not been truncated since. -/
  kept : List (RecSigWrite Sig) := []
  /-- The live write of a type and id: not truncated and not before the limit of a later cleanup. -/
  live : RecSigId → Option (RecSigWrite Sig) := fun _ => none
  /-- The truncated writes that no later cleanup had its limit after. -/
  truncated : List (RecSigWrite Sig) := []

namespace RecSigRun

variable (hashes : RecSigHashes Sig) (full : List (RecSigChange Sig) → Bool)

/-- Make a call. -/
def step (r : RecSigRun Sig) : RecSigCall Sig → RecSigRun Sig
  | .write now recSig =>
    { db := r.db.writeRecoveredSig hashes now recSig
      written := ⟨recSig, now⟩ :: r.written
      kept := ⟨recSig, now⟩ :: r.kept
      live := update r.live recSig.recSigId (some ⟨recSig, now⟩)
      truncated := r.truncated }
  | .truncate id =>
    { db := r.db.truncateRecoveredSig hashes id
      written := r.written
      kept := r.kept.filter (·.id ≠ id)
      live := update r.live id none
      truncated := (r.live id).toList ++ r.truncated }
  | .cleanup now maxAge =>
    { db := r.db.cleanupOldRecoveredSigs hashes full now maxAge
      written := r.written
      kept := r.kept
      live := fun id => (r.live id).filter (now - maxAge ≤ ·.now)
      truncated := r.truncated.filter (now - maxAge ≤ ·.now) }
  | .hasForId id => { r with db := (r.db.hasRecoveredSigForId id).2 }
  | .hasForSession signHash => { r with db := (r.db.hasRecoveredSigForSession signHash).2 }
  | .hasForHash hash => { r with db := (r.db.hasRecoveredSigForHash hash).2 }

/-- Make the calls, one after the other. -/
def run (r : RecSigRun Sig) (calls : List (RecSigCall Sig)) : RecSigRun Sig := calls.foldl (step hashes full) r

end RecSigRun

/-! ### Caches -/

/-- The caches say what is in the tables. -/
structure RecSigDb.CachesAgree (t : RecSigTables Sig) (db : RecSigDb Sig) : Prop where
  forId : ∀ id b, db.hasSigForIdCache.lookup id = some b → b = (t.recSigs id).isSome
  forSession : ∀ h b, db.hasSigForSessionCache.lookup h = some b → b = t.sessions h
  forHash : ∀ h b, db.hasSigForHashCache.lookup h = some b → b = (t.byHash h).isSome

namespace RecSigDb

variable (h : db.CachesAgree db.tables)

include h

lemma hasRecoveredSigForId_spec (id : RecSigId) : (db.hasRecoveredSigForId id).1 = (db.tables.recSigs id).isSome ∧
      (db.hasRecoveredSigForId id).2.tables = db.tables ∧
      (db.hasRecoveredSigForId id).2.CachesAgree db.tables := by
  obtain ⟨hret, hcache⟩ := LruCache.getThrough_spec (f := fun id => (db.tables.recSigs id).isSome) h.forId id
  exact ⟨hret, rfl, ⟨hcache, h.forSession, h.forHash⟩⟩

lemma hasRecoveredSigForSession_spec (signHash : Uint256) :
    (db.hasRecoveredSigForSession signHash).1 = db.tables.sessions signHash ∧
      (db.hasRecoveredSigForSession signHash).2.tables = db.tables ∧
      (db.hasRecoveredSigForSession signHash).2.CachesAgree db.tables := by
  obtain ⟨hret, hcache⟩ := LruCache.getThrough_spec (f := db.tables.sessions) h.forSession signHash
  exact ⟨hret, rfl, ⟨h.forId, hcache, h.forHash⟩⟩

lemma hasRecoveredSigForHash_spec (hash : Uint256) :
    (db.hasRecoveredSigForHash hash).1 = (db.tables.byHash hash).isSome ∧
      (db.hasRecoveredSigForHash hash).2.tables = db.tables ∧
      (db.hasRecoveredSigForHash hash).2.CachesAgree db.tables := by
  obtain ⟨hret, hcache⟩ := LruCache.getThrough_spec (f := fun hash => (db.tables.byHash hash).isSome) h.forHash hash
  exact ⟨hret, rfl, ⟨h.forId, h.forSession, hcache⟩⟩

end RecSigDb

/-! ### Erasing the keys of a signature -/

/-- The changes by which a signature is removed: the key by hash only when `deleteHashKey` says so, the key by time
never. -/
def removal (hashes : RecSigHashes Sig) (deleteHashKey : Bool) (recSig : CRecoveredSig Sig) : List (RecSigChange Sig) :=
  [.eraseSig recSig.recSigId, .eraseWriteTime recSig.recSigId recSig.msgHash] ++
    (if deleteHashKey then [.eraseHash (hashes.getHash recSig)] else []) ++
      [.eraseSession (hashes.buildSignHash recSig)]

namespace RecSigTables

lemma writeBatch_append (t : RecSigTables Sig) (batch batch' : List (RecSigChange Sig)) :
    t.writeBatch (batch ++ batch') = (t.writeBatch batch).writeBatch batch' := foldl_append

lemma writeBatch_removal : t.writeBatch (removal hashes deleteHashKey recSig) =
    { recSigs := update t.recSigs recSig.recSigId none
      writeTimes := update t.writeTimes (recSig.recSigId, recSig.msgHash) none
      byHash := if deleteHashKey then update t.byHash (hashes.getHash recSig) none else t.byHash
      sessions := update t.sessions (hashes.buildSignHash recSig) false
      times := t.times } := by
  cases deleteHashKey <;> rfl

lemma writeBatch_eraseTimes (keys : List RecSigTimeKey) :
    t.writeBatch (keys.map .eraseTime) = { t with times := keys.foldl OrderedStore.erase t.times } := by
  induction keys generalizing t with
  | nil => rfl
  | cons key keys ih => exact ih

end RecSigTables

/-- The hashes tell the signatures of a list of writes apart. -/
structure RecSigHashes.Distinct (hashes : RecSigHashes Sig) (written : List (RecSigWrite Sig)) : Prop where
  getHash : ∀ w ∈ written, ∀ w' ∈ written, hashes.getHash w.recSig = hashes.getHash w'.recSig → w.recSig = w'.recSig
  buildSignHash : ∀ w ∈ written, ∀ w' ∈ written,
    hashes.buildSignHash w.recSig = hashes.buildSignHash w'.recSig → w.id = w'.id

lemma RecSigHashes.Distinct.mono {written written' : List (RecSigWrite Sig)} (h : hashes.Distinct written')
    (hsub : written ⊆ written') : hashes.Distinct written where
  getHash w hw w' hw' := h.getHash w (hsub hw) w' (hsub hw')
  buildSignHash w hw w' hw' := h.buildSignHash w (hsub hw) w' (hsub hw')

/-- The tables of signatures, write times and sessions hold what `live` has, and nothing else. -/
structure Describes (hashes : RecSigHashes Sig) (t : RecSigTables Sig) (live : RecSigId → Option (RecSigWrite Sig)) :
    Prop where
  recSigs : ∀ id, t.recSigs id = (live id).map (·.recSig)
  writeTimes : ∀ id msgHash, (t.writeTimes (id, msgHash)).isSome ↔ ∃ w, live id = some w ∧ w.recSig.msgHash = msgHash
  sessions : ∀ h, t.sessions h ↔ ∃ id w, live id = some w ∧ hashes.buildSignHash w.recSig = h

/-- A family of live writes: each under its type and id, and all among the writes so far. -/
def IsLive (written : List (RecSigWrite Sig)) (live : RecSigId → Option (RecSigWrite Sig)) : Prop :=
  ∀ id w, live id = some w → w.id = id ∧ w ∈ written

/-- The family without some types and ids. -/
def withoutIds (live : RecSigId → Option (RecSigWrite Sig)) (ids : List RecSigId) (id : RecSigId) :
    Option (RecSigWrite Sig) :=
  if id ∈ ids then none else live id

variable {id : RecSigId} {live : RecSigId → Option (RecSigWrite Sig)} {written : List (RecSigWrite Sig)}
  {w : RecSigWrite Sig}
  {s : List (RecSigChange Sig) × RecSigDb Sig}

/-- A write is live from now on, or not any longer, and its keys are written or erased. -/
lemma Describes.set {o : Option (RecSigWrite Sig)} {t' : RecSigTables Sig} {time : Option ℕ}
    (h : Describes hashes t live) (hw : ∀ w', live w.id = some w' → w' = w) (ho : ∀ w', o = some w' → w' = w)
    (hsession : o = none → ∀ id w', live id = some w' →
      hashes.buildSignHash w'.recSig = hashes.buildSignHash w.recSig → id = w.id)
    (hrecSigs : t'.recSigs = update t.recSigs w.id (o.map (·.recSig)))
    (hwriteTimes : t'.writeTimes = update t.writeTimes (w.id, w.recSig.msgHash) time) (htime : time.isSome = o.isSome)
    (hsessions : t'.sessions = update t.sessions (hashes.buildSignHash w.recSig) o.isSome) :
    Describes hashes t' (update live w.id o) where
  recSigs id := by
    rw [hrecSigs, update_apply, update_apply]
    split_ifs
    · rfl
    · exact h.recSigs id
  writeTimes id msgHash := by
    rw [hwriteTimes, update_apply, update_apply]
    by_cases hid : id = w.id
    · subst hid
      rw [if_pos rfl]
      by_cases hmsg : msgHash = w.recSig.msgHash
      · subst hmsg
        rw [if_pos rfl, htime, isSome_iff_exists]
        exact exists_congr fun w' => ⟨fun heq => ⟨heq, by rw [ho w' heq]⟩, And.left⟩
      · -- no message of this type and id but that of the write has a time
        rw [if_neg (by simp [hmsg]), h.writeTimes]
        refine iff_of_false ?_ ?_
        · exact fun ⟨w', hw', heq⟩ => hmsg (by rw [← heq, hw w' hw'])
        · exact fun ⟨w', hw', heq⟩ => hmsg (by rw [← heq, ho w' hw'])
    · rw [if_neg (by simp [hid]), if_neg hid]
      exact h.writeTimes id msgHash
  sessions signHash := by
    rw [hsessions]
    by_cases hsign : signHash = hashes.buildSignHash w.recSig
    · subst hsign
      rw [update_self, isSome_iff_exists]
      constructor
      · exact fun ⟨w', hw'⟩ => ⟨w.id, w', by rw [update_self, hw'], by rw [ho w' hw']⟩
      · rintro ⟨id, w', hw', heq⟩
        rw [update_apply] at hw'
        split_ifs at hw' with hid
        · exact ⟨w', hw'⟩
        · exact ne_none_iff_exists'.mp fun hnone => hid (hsession hnone id w' hw' heq)
    · rw [update_of_ne hsign, h.sessions]
      refine exists_congr fun id => exists_congr fun w' => and_congr_left fun heq => ?_
      rw [update_apply]
      split_ifs with hid
      · subst hid
        refine iff_of_false ?_ ?_
        · exact fun hw' => hsign (by rw [← heq, hw w' hw'])
        · exact fun hw' => hsign (by rw [← heq, ho w' hw'])
      · rfl

/-- Removing a signature takes it out of the family, if it is not out already. -/
lemma Describes.removal (h : Describes hashes t live) (hlive : IsLive written live)
    (hdistinct : hashes.Distinct written) (hmem : w ∈ written) (hw : ∀ w', live w.id = some w' → w' = w) :
    Describes hashes (t.writeBatch (removal hashes deleteHashKey w.recSig)) (update live w.id none) := by
  rw [RecSigTables.writeBatch_removal]
  refine h.set hw nofun (fun _ id w' hw' hsign => ?_) rfl rfl rfl rfl
  obtain ⟨rfl, hmem'⟩ := hlive id w' hw'
  exact hdistinct.buildSignHash w' hmem' w hmem hsign

/-! ### The loop of the cleanup -/

namespace RecSigDb

variable {batch : List (RecSigChange Sig)}

/-- The caches without the entries of a signature. -/
def forget (hashes : RecSigHashes Sig) (deleteHashKey : Bool) (recSig : CRecoveredSig Sig) (db : RecSigDb Sig) :
    RecSigDb Sig where
  tables := db.tables
  hasSigForIdCache := db.hasSigForIdCache.erase recSig.recSigId
  hasSigForSessionCache := db.hasSigForSessionCache.erase (hashes.buildSignHash recSig)
  hasSigForHashCache :=
    if deleteHashKey then db.hasSigForHashCache.erase (hashes.getHash recSig) else db.hasSigForHashCache

lemma removeRecoveredSig_of_none {deleteTimeKey : Bool} (hread : db.tables.recSigs id = none) :
    db.removeRecoveredSig hashes batch id deleteHashKey deleteTimeKey = (batch, db) := by
  unfold removeRecoveredSig
  rw [hread]

lemma removeRecoveredSig_of_some (hread : db.tables.recSigs id = some recSig) :
    db.removeRecoveredSig hashes batch id deleteHashKey false =
      (batch ++ removal hashes deleteHashKey recSig, db.forget hashes deleteHashKey recSig) := by
  unfold removeRecoveredSig
  rw [hread]
  simp [removal, forget]

lemma CachesAgree.forget (h : db.CachesAgree t) :
    (db.forget hashes deleteHashKey recSig).CachesAgree (t.writeBatch (removal hashes deleteHashKey recSig)) := by
  rw [RecSigTables.writeBatch_removal]
  refine ⟨LruCache.right_erase (g := Option.isSome) h.forId, LruCache.right_erase (g := id) h.forSession, ?_⟩
  cases deleteHashKey with
  | false => exact h.forHash
  | true => exact LruCache.right_erase (g := Option.isSome) h.forHash

end RecSigDb

/-- The state of the loop after some types and ids: with the batch written, their live signatures are gone with their
keys by hash. What it reads is a live signature, or nothing where the signature is gone with a batch written before. -/
structure Removes (hashes : RecSigHashes Sig) (t : RecSigTables Sig) (live : RecSigId → Option (RecSigWrite Sig))
    (ids : List RecSigId) (s : List (RecSigChange Sig) × RecSigDb Sig) : Prop where
  reads : ∀ id, s.2.tables.recSigs id = (live id).map (·.recSig) ∨ s.2.tables.recSigs id = none ∧ id ∈ ids
  describes : Describes hashes (s.2.tables.writeBatch s.1) (withoutIds live ids)
  byHash : ∀ h id, (s.2.tables.writeBatch s.1).byHash h = some id ↔
    t.byHash h = some id ∧ ∀ id' ∈ ids, ∀ w, live id' = some w → hashes.getHash w.recSig ≠ h
  times : (s.2.tables.writeBatch s.1).times = t.times
  caches : s.2.CachesAgree (s.2.tables.writeBatch s.1)

lemma withoutIds_append : withoutIds live (ids ++ [id]) = update (withoutIds live ids) id none := by
  funext id'
  by_cases hid : id' = id
  · simp [withoutIds, hid]
  · simp [withoutIds, hid, update_of_ne]

lemma IsLive.withoutIds (h : IsLive written live) : IsLive written (withoutIds live ids) := by
  intro id w hw
  unfold Blocx.withoutIds at hw
  split at hw
  · cases hw
  · exact h id w hw

namespace Removes

variable (h : Removes hashes t live ids s)

include h

lemma skip (hid : id ∈ ids ∨ live id = none) : Removes hashes t live (ids ++ [id]) s where
  reads id' := (h.reads id').imp_right fun ⟨hread, hmem⟩ => ⟨hread, mem_append_left _ hmem⟩
  describes := by
    have hsame : withoutIds live (ids ++ [id]) = withoutIds live ids := by
      rw [withoutIds_append]
      refine update_eq_self_iff.mpr ?_
      obtain hmem | hnone := hid
      · simp [withoutIds, hmem]
      · simp [withoutIds, hnone]
    rw [hsame]
    exact h.describes
  byHash hash id' := by
    rw [h.byHash]
    simp only [forall_mem_append, forall_mem_singleton]
    refine and_congr_right fun _ => ⟨fun hall => ⟨hall, fun w hw => ?_⟩, And.left⟩
    obtain hmem | hnone := hid
    · exact hall id hmem w hw
    · rw [hnone] at hw
      cases hw
  times := h.times
  caches := h.caches

lemma remove (hlive : IsLive written live) (hdistinct : hashes.Distinct written) (hw : live w.id = some w) :
    Removes hashes t live (ids ++ [w.id]) (s.1 ++ removal hashes true w.recSig, s.2.forget hashes true w.recSig) := by
  have hbatch : (s.2.forget hashes true w.recSig).tables.writeBatch (s.1 ++ removal hashes true w.recSig) =
      (s.2.tables.writeBatch s.1).writeBatch (removal hashes true w.recSig) := RecSigTables.writeBatch_append ..
  have hw' : ∀ w', withoutIds live ids w.id = some w' → w' = w := by
    intro w' hw'
    unfold withoutIds at hw'
    split at hw'
    · cases hw'
    · exact some.inj (hw'.symm.trans hw)
  refine ⟨fun id' => (h.reads id').imp_right fun ⟨hread, hmem⟩ => ⟨hread, mem_append_left _ hmem⟩, ?_, ?_, ?_, ?_⟩
  · rw [hbatch, withoutIds_append]
    exact h.describes.removal hlive.withoutIds hdistinct (hlive _ w hw).2 hw'
  · intro hash id'
    rw [hbatch, RecSigTables.writeBatch_removal]
    rw [if_pos rfl, update_none_eq_some_iff, h.byHash, ne_comm]
    simp only [forall_mem_append, forall_mem_singleton, hw, some.injEq, forall_eq']
    tauto
  · rw [hbatch, RecSigTables.writeBatch_removal]
    exact h.times
  · rw [hbatch]
    exact h.caches.forget

lemma flush : Removes hashes t live ids ([], { s.2 with tables := s.2.tables.writeBatch s.1 }) where
  reads id' := by
    rw [h.describes.recSigs]
    by_cases hmem : id' ∈ ids
    · simp [withoutIds, hmem]
    · simp [withoutIds, hmem]
  describes := h.describes
  byHash := h.byHash
  times := h.times
  caches := ⟨h.caches.forId, h.caches.forSession, h.caches.forHash⟩

lemma cleanupTurn {full : List (RecSigChange Sig) → Bool}
    (hlive : IsLive written live) (hdistinct : hashes.Distinct written) :
    Removes hashes t live (ids ++ [id]) (RecSigDb.cleanupTurn hashes full s id) := by
  have hremove : Removes hashes t live (ids ++ [id]) (s.2.removeRecoveredSig hashes s.1 id true false) := by
    cases hread : s.2.tables.recSigs id with
    | none =>
      rw [RecSigDb.removeRecoveredSig_of_none hread]
      refine h.skip ?_
      obtain hlive' | ⟨-, hmem⟩ := h.reads id
      · exact .inr (map_eq_none_iff.mp (hlive'.symm.trans hread))
      · exact .inl hmem
    | some recSig =>
      rw [RecSigDb.removeRecoveredSig_of_some hread]
      obtain hlive' | ⟨hnone, -⟩ := h.reads id
      · obtain ⟨w, hw, rfl⟩ := map_eq_some_iff.mp (hlive'.symm.trans hread)
        obtain rfl := (hlive id w hw).1
        exact h.remove hlive hdistinct hw
      · rw [hread] at hnone
        cases hnone
  unfold RecSigDb.cleanupTurn
  dsimp only
  split_ifs
  · exact hremove.flush
  · exact hremove

end Removes

/-- The loop over a list of types and ids. -/
lemma Removes.foldl (h : Removes hashes t live ids s) (full : List (RecSigChange Sig) → Bool) (ids' : List RecSigId)
    (hlive : IsLive written live) (hdistinct : hashes.Distinct written) :
    Removes hashes t live (ids ++ ids') (ids'.foldl (RecSigDb.cleanupTurn hashes full) s) := by
  induction ids' generalizing ids s with
  | nil => simpa using h
  | cons id ids' ih => simpa using ih (h.cleanupTurn hlive hdistinct)

lemma Removes.start (h : Describes hashes db.tables live) (hcaches : db.CachesAgree db.tables) :
    Removes hashes db.tables live [] ([], db) where
  reads id := .inl (h.recSigs id)
  describes := by
    exact h
  byHash hash id := by simp [RecSigTables.writeBatch]
  times := rfl
  caches := hcaches

end Blocx
