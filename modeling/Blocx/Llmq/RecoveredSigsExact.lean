import Blocx.Lib.Runs
import Blocx.Llmq.RecoveredSigsRuns

/-!
# When old signatures are cleaned up exactly

Right after a cleanup every key in the database should belong to a signature that was written at or after the limit, the
time of the cleanup less the age, and every signature written at or after the limit and not truncated should be readable
by id, by hash and by session (`CleanedUp`).

The cleanup finds signatures through the keys by time, and these have the type and id only. A truncated signature has
its key by time left. When its time comes, the cleanup looks for a signature of its type and id. If there is none, the
key by hash stays for good: nothing leads to it any more. If there is one, that one is removed, whether it is old or
not. `CleanupOk` says that neither happens. In a run in which at most one signature is live for a type and id, in which
the times of the writes do not go back, and in which times and limits fit into 32 bits, the cleanups are exact if and
only if every one of them meets `CleanupOk`.

The proof keeps `Exact` along the run: the keys in the database are those of the live writes, and the keys by hash and
by time of the truncated ones.
-/

namespace Blocx

open Option hiding mem_map or_assoc

open List

open Function

open Consensus RecSigDb

variable {Sig : Type} {now : ℤ}

/-! ### What a cleanup should leave -/

/-- A key of the database. -/
inductive RecSigKey where
  | sig (id : RecSigId)
  | writeTime (id : RecSigId) (msgHash : Uint256)
  | hash (hash : Uint256)
  | session (signHash : Uint256)
  | time (key : RecSigTimeKey)
  deriving DecidableEq

def RecSigWrite.keys (hashes : RecSigHashes Sig) (w : RecSigWrite Sig) : List RecSigKey :=
  [.sig w.id, .writeTime w.id w.recSig.msgHash, .hash (hashes.getHash w.recSig),
    .session (hashes.buildSignHash w.recSig), .time w.timeKey]

/-- Whether a key is in the database. -/
def RecSigTables.has (t : RecSigTables Sig) : RecSigKey → Bool
  | .sig id => (t.recSigs id).isSome
  | .writeTime id msgHash => (t.writeTimes (id, msgHash)).isSome
  | .hash hash => (t.byHash hash).isSome
  | .session signHash => t.sessions signHash
  | .time key => (t.times.get key).isSome

/-- A signature is readable by id, by hash and by session. -/
structure RecSigDb.Readable (hashes : RecSigHashes Sig) (db : RecSigDb Sig) (recSig : CRecoveredSig Sig) : Prop where
  byId : db.getRecoveredSigById recSig.recSigId = some recSig
  hasId : (db.hasRecoveredSigForId recSig.recSigId).1
  byHash : db.getRecoveredSigByHash (hashes.getHash recSig) = some recSig
  hasHash : (db.hasRecoveredSigForHash (hashes.getHash recSig)).1
  hasSession : (db.hasRecoveredSigForSession (hashes.buildSignHash recSig)).1

/-- What holds right after a cleanup with this limit. -/
structure RecSigRun.CleanedUp (hashes : RecSigHashes Sig) (r : RecSigRun Sig) (limit : ℤ) : Prop where
  /-- Every key belongs to a write that is not before the limit. -/
  gone : ∀ key, r.db.tables.has key → ∃ w ∈ r.written, limit ≤ w.now ∧ key ∈ w.keys hashes
  /-- What was written at or after the limit and not truncated is readable. -/
  readable : ∀ w ∈ r.kept, limit ≤ w.now → r.db.Readable hashes w.recSig

/-- The condition on the state before a cleanup with this limit. -/
structure RecSigRun.CleanupOk (r : RecSigRun Sig) (limit : ℤ) : Prop where
  /-- A truncated signature before the limit does not lead to a live one that is not before it. -/
  spares : ∀ z ∈ r.truncated, z.now < limit → ∀ w, r.live z.id = some w → w.now < limit
  /-- A truncated signature before the limit is live again, or was truncated again and that write is not before it. -/
  finds : ∀ z ∈ r.truncated, z.now < limit →
    (∃ w, r.live z.id = some w ∧ w.recSig = z.recSig) ∨ ∃ z' ∈ r.truncated, z'.recSig = z.recSig ∧ limit ≤ z'.now
  /-- No earlier cleanup had its limit after a signature that is not before this one's. -/
  reached : ∀ w ∈ r.kept, limit ≤ w.now → ∃ w', r.live w.id = some w' ∧ w'.recSig = w.recSig

/-- A time that fits into 32 bits. -/
def FitsTime (now : ℤ) : Prop := 0 ≤ now ∧ now < 2 ^ 32

instance (now : ℤ) : Decidable (FitsTime now) := inferInstanceAs (Decidable (_ ∧ _))

/-- What the callers see to: one live signature for a type and id, times that do not go back, times of 32 bits. -/
def RecSigRun.CallFits (r : RecSigRun Sig) : RecSigCall Sig → Prop
  | .write now recSig => FitsTime now ∧ r.live recSig.recSigId = none ∧ ∀ w ∈ r.written, w.now ≤ now
  | .cleanup now maxAge => FitsTime (now - maxAge)
  | _ => True

lemma storedTime_eq (h : FitsTime now) : (storedTime now : ℤ) = now := by
  obtain ⟨h0, h1⟩ := h
  unfold storedTime
  omega

/-! ### The invariant -/

/-- A write that is live, or truncated and not yet met by a cleanup. -/
def RecSigRun.Present (r : RecSigRun Sig) (w : RecSigWrite Sig) : Prop := r.live w.id = some w ∨ w ∈ r.truncated

/-- The database has the keys of the live writes, and of the truncated ones the keys by hash and by time. -/
structure RecSigRun.Exact (hashes : RecSigHashes Sig) (r : RecSigRun Sig) : Prop where
  isLive : IsLive r.written r.live
  truncated_written : ∀ w ∈ r.truncated, w ∈ r.written
  live_kept : ∀ id w, r.live id = some w → w ∈ r.kept
  kept_written : ∀ w ∈ r.kept, w ∈ r.written
  fits : ∀ w ∈ r.written, FitsTime w.now
  /-- The live write of a type and id is the last one. -/
  latest : ∀ w ∈ r.written, ∀ w', r.live w.id = some w' → w.now ≤ w'.now
  /-- What is written after a write that is present is present. -/
  complete : ∀ w, r.Present w → ∀ w' ∈ r.written, w.now < w'.now → r.Present w'
  describes : Describes hashes r.db.tables r.live
  byHash : ∀ h id, r.db.tables.byHash h = some id ↔ ∃ w, r.Present w ∧ hashes.getHash w.recSig = h ∧ w.id = id
  times : ∀ key, r.db.tables.times.get key = some () ↔ ∃ w, r.Present w ∧ w.timeKey = key
  caches : r.db.CachesAgree r.db.tables

namespace RecSigRun

variable {hashes : RecSigHashes Sig} {full : List (RecSigChange Sig) → Bool} {r : RecSigRun Sig} {w : RecSigWrite Sig}
  {id : RecSigId} {db : RecSigDb Sig} {call : RecSigCall Sig} {calls : List (RecSigCall Sig)} (h : r.Exact hashes)
  (hdistinct : hashes.Distinct r.written)

include h in
lemma Exact.present_written (hw : r.Present w) : w ∈ r.written := by
  obtain hlive | hmem := hw
  · exact (h.isLive _ w hlive).2
  · exact h.truncated_written w hmem

/-! ### Writes -/

section

variable {recSig : CRecoveredSig Sig}

lemma live_write (hw : (r.step hashes full (.write now recSig)).live id = some w) :
    id = recSig.recSigId ∧ ⟨recSig, now⟩ = w ∨ id ≠ recSig.recSigId ∧ r.live id = some w :=
  update_some_eq_some_iff.mp hw

lemma present_write (hnone : r.live recSig.recSigId = none) :
    (r.step hashes full (.write now recSig)).Present w ↔ w = ⟨recSig, now⟩ ∨ r.Present w := by
  show update r.live recSig.recSigId (some ⟨recSig, now⟩) w.id = some w ∨ w ∈ r.truncated ↔ _
  unfold Present
  rw [← or_assoc, update_some_eq_some_iff]
  refine or_congr_left (or_congr ⟨fun h => h.2.symm, by rintro rfl; exact ⟨rfl, rfl⟩⟩
    ⟨And.right, fun h => ⟨fun hid => ?_, h⟩⟩)
  rw [hid, hnone] at h
  cases h

lemma Exact.step_write (h : r.Exact hashes) (hfits : r.CallFits (.write now recSig))
    (hdistinct : hashes.Distinct (⟨recSig, now⟩ :: r.written)) :
    (r.step hashes full (.write now recSig)).Exact hashes where
  isLive := by
    intro id w hw
    obtain ⟨rfl, rfl⟩ | ⟨-, hw⟩ := live_write hw
    · exact ⟨rfl, mem_cons_self⟩
    · obtain ⟨hwid, hmem⟩ := h.isLive id w hw
      exact ⟨hwid, mem_cons_of_mem _ hmem⟩
  truncated_written w hw := mem_cons_of_mem _ (h.truncated_written w hw)
  live_kept := by
    intro id w hw
    obtain ⟨rfl, rfl⟩ | ⟨-, hw⟩ := live_write hw
    · exact mem_cons_self
    · exact mem_cons_of_mem _ (h.live_kept id w hw)
  kept_written := forall_mem_cons.mpr ⟨mem_cons_self, fun w hw => mem_cons_of_mem _ (h.kept_written w hw)⟩
  fits := forall_mem_cons.mpr ⟨hfits.1, h.fits⟩
  latest w hw w' hw' := by
    obtain ⟨-, rfl⟩ | ⟨hid, hw'⟩ := live_write hw'
    · obtain rfl | hw := mem_cons.mp hw
      · exact le_rfl
      · exact hfits.2.2 w hw
    · obtain rfl | hw := mem_cons.mp hw
      · exact absurd rfl hid
      · exact h.latest w hw w' hw'
  complete w hw w' hmem hlt := by
    rw [present_write hfits.2.1] at hw ⊢
    obtain rfl | hmem := mem_cons.mp hmem
    · exact .inl rfl
    · obtain rfl | hw := hw
      · exact absurd (hfits.2.2 w' hmem) (not_le.mpr hlt)
      · exact .inr (h.complete w hw w' hmem hlt)
  describes := by
    refine h.describes.set (w := ⟨recSig, now⟩) (fun w' hw' => ?_) (fun w' heq => (some.inj heq).symm)
      nofun rfl rfl rfl rfl
    exact absurd (hfits.2.1.symm.trans hw') (by simp)
  byHash hash id := by
    show update r.db.tables.byHash (hashes.getHash recSig) (some recSig.recSigId) hash = some id ↔ _
    simp only [present_write hfits.2.1, or_and_right, exists_or, exists_eq_left]
    by_cases hhash : hash = hashes.getHash recSig
    · subst hhash
      rw [update_self]
      constructor
      · intro hid
        exact .inl ⟨rfl, some.inj hid⟩
      · rintro (⟨-, rfl⟩ | ⟨w, hw, hsame, rfl⟩)
        · rfl
        · have hsig := hdistinct.getHash w (mem_cons_of_mem _ (h.present_written hw)) ⟨recSig, now⟩ mem_cons_self hsame
          simp [RecSigWrite.id, hsig]
    · rw [update_of_ne hhash, h.byHash]
      simp [Ne.symm hhash]
  times key := by
    show (r.db.tables.times.write ⟨storedTime now, recSig.recSigId⟩ ()).get key = some () ↔ _
    simp only [present_write hfits.2.1, or_and_right, exists_or, exists_eq_left, ← h.times]
    by_cases hkey : key = ⟨storedTime now, recSig.recSigId⟩
    · simp [hkey, RecSigWrite.timeKey, RecSigWrite.id]
    · simp [hkey, RecSigWrite.timeKey, RecSigWrite.id, Ne.symm hkey]
  caches := ⟨LruCache.right_insert (g := Option.isSome) h.caches.forId rfl,
    LruCache.right_insert (g := id) h.caches.forSession rfl,
      LruCache.right_insert (g := Option.isSome) h.caches.forHash rfl⟩

end

/-! ### Truncations -/

lemma live_truncate {id' : RecSigId} (hw : (r.step hashes full (.truncate id)).live id' = some w) :
    id' ≠ id ∧ r.live id' = some w :=
  update_none_eq_some_iff.mp hw

lemma present_truncate (hlive : IsLive r.written r.live) :
    (r.step hashes full (.truncate id)).Present w ↔ r.Present w := by
  show update r.live id none w.id = some w ∨ w ∈ (r.live id).toList ++ r.truncated ↔ _
  unfold Present
  by_cases hid : w.id = id
  · subst hid
    simp
  · have hne : r.live id ≠ some w := fun hw => hid (hlive id w hw).1
    simp [update_of_ne hid, hne]

include h hdistinct in
lemma Exact.truncate_db (hdb : r.db.truncateRecoveredSig hashes id = db) :
    Describes hashes db.tables (update r.live id none) ∧ db.tables.byHash = r.db.tables.byHash ∧
      db.tables.times = r.db.tables.times ∧ db.CachesAgree db.tables := by
  subst hdb
  unfold truncateRecoveredSig
  cases hread : r.db.tables.recSigs id with
  | none =>
    have hnone : r.live id = none := by
      rw [h.describes.recSigs] at hread
      exact map_eq_none_iff.mp hread
    have hsame : update r.live id none = r.live := update_eq_self_iff.mpr hnone.symm
    rw [removeRecoveredSig_of_none hread, hsame]
    exact ⟨h.describes, rfl, rfl, ⟨h.caches.forId, h.caches.forSession, h.caches.forHash⟩⟩
  | some recSig =>
    obtain ⟨w, hw, rfl⟩ : ∃ w, r.live id = some w ∧ w.recSig = recSig := by
      rw [h.describes.recSigs] at hread
      exact map_eq_some_iff.mp hread
    obtain ⟨rfl, hmem⟩ := h.isLive id w hw
    rw [removeRecoveredSig_of_some hread]
    have hforget : (r.db.forget hashes false w.recSig).CachesAgree
      (r.db.tables.writeBatch (removal hashes false w.recSig)) := h.caches.forget
    exact ⟨h.describes.removal h.isLive hdistinct hmem fun w' hw' => some.inj (hw'.symm.trans hw), rfl, rfl,
      hforget.forId, hforget.forSession, hforget.forHash⟩

include h hdistinct in
lemma Exact.step_truncate : (r.step hashes full (.truncate id)).Exact hashes := by
  obtain ⟨hdescribes, hbyHash, htimes, hcaches⟩ := h.truncate_db hdistinct rfl
  refine ⟨fun id' w hw => h.isLive id' w (live_truncate hw).2, fun w hw => ?_, fun id' w hw => ?_, fun w hw => ?_,
    h.fits, fun w hw w' hw' => h.latest w hw w' (live_truncate hw').2, fun w hw w' hmem hlt => ?_, hdescribes,
    fun hash id' => ?_, fun key => ?_, hcaches⟩
  · obtain hw | hw := mem_append.mp hw
    · rw [mem_toList] at hw
      exact (h.isLive id w hw).2
    · exact h.truncated_written w hw
  · obtain ⟨hid, hw⟩ := live_truncate hw
    refine mem_filter.mpr ⟨h.live_kept id' w hw, ?_⟩
    rw [(h.isLive id' w hw).1]
    exact decide_eq_true hid
  · exact h.kept_written w (mem_filter.mp hw).1
  · rw [present_truncate h.isLive] at hw ⊢
    exact h.complete w hw w' hmem hlt
  · simp only [present_truncate h.isLive]
    exact (congrFun hbyHash hash) ▸ h.byHash hash id'
  · simp only [present_truncate h.isLive]
    rw [← h.times key, ← htimes]
    rfl

/-! ### Cleanups -/

/-- What a cleanup does to the database: it removes what it finds under the types and ids of the keys by time before the
limit. -/
structure Cleaned (hashes : RecSigHashes Sig) (r : RecSigRun Sig) (limit : ℤ) (ids : List RecSigId)
    (db : RecSigDb Sig) : Prop where
  mem_ids : ∀ id, id ∈ ids ↔ ∃ w, r.Present w ∧ w.now < limit ∧ w.id = id
  describes : Describes hashes db.tables (withoutIds r.live ids)
  byHash : ∀ h id, db.tables.byHash h = some id ↔
    r.db.tables.byHash h = some id ∧ ∀ id' ∈ ids, ∀ w, r.live id' = some w → hashes.getHash w.recSig ≠ h
  times : ∀ key, db.tables.times.get key = some () ↔ ∃ w, r.Present w ∧ limit ≤ w.now ∧ w.timeKey = key
  caches : db.CachesAgree db.tables

section Cleanup

variable {now maxAge : ℤ} {ids : List RecSigId}

lemma start_le {key : RecSigTimeKey} : (⟨0, .other 0, 0⟩ : RecSigTimeKey) ≤ key := by
  show RecSigTimeKey.numbers _ ≤ key.numbers
  exact bot_le

lemma time_le_of_lt {key key' : RecSigTimeKey} (h : key < key') : key.time ≤ key'.time := by
  have hnumbers : key.numbers < key'.numbers := h
  obtain hlt | ⟨heq, -⟩ := Prod.Lex.toLex_lt_toLex.mp hnumbers
  · exact hlt.le
  · exact heq.le

/-- The keys by time that a cleanup goes through. -/
lemma Exact.mem_toDelete (h : r.Exact hashes) (hlimit : FitsTime (now - maxAge)) {toDelete : List RecSigTimeKey}
    (hdelete : ((r.db.tables.times.seek ⟨0, .other 0, 0⟩).takeWhile
      (·.1.time < storedTime (now - maxAge))).map (·.1) = toDelete) (key : RecSigTimeKey) :
    key ∈ toDelete ↔ ∃ w, r.Present w ∧ w.now < now - maxAge ∧ w.timeKey = key := by
  have hcut : ∀ a b : RecSigTimeKey × Unit, (⟨0, .other 0, 0⟩ : RecSigTimeKey) ≤ a.1 → a.1 < b.1 →
      decide (b.1.time < storedTime (now - maxAge)) → decide (a.1.time < storedTime (now - maxAge)) := by
    intro a b _ hlt hb
    exact decide_eq_true ((time_le_of_lt hlt).trans_lt (of_decide_eq_true hb))
  have hentry : ∀ key, (key, ()) ∈ r.db.tables.times.entries ↔ ∃ w, r.Present w ∧ w.timeKey = key := by
    intro key
    rw [← h.times, OrderedStore.get_eq_some_iff]
  have htime : ∀ w, r.Present w → (w.timeKey.time < storedTime (now - maxAge) ↔ w.now < now - maxAge) := by
    intro w hw
    have hstored : (w.timeKey.time : ℤ) = w.now := storedTime_eq (h.fits w (h.present_written hw))
    have hend := storedTime_eq hlimit
    omega
  rw [← hdelete]
  simp only [mem_map, OrderedStore.mem_takeWhile_seek hcut, decide_eq_true_eq]
  constructor
  · rintro ⟨⟨key, u⟩, ⟨hmem, -, hlt⟩, rfl⟩
    obtain ⟨w, hw, rfl⟩ := (hentry key).mp hmem
    exact ⟨w, hw, (htime w hw).mp hlt, rfl⟩
  · rintro ⟨w, hw, hlt, rfl⟩
    exact ⟨(w.timeKey, ()), ⟨(hentry _).mpr ⟨w, hw, rfl⟩, start_le, (htime w hw).mpr hlt⟩, rfl⟩

variable (full) in
include h hdistinct in
lemma Exact.cleaned (hlimit : FitsTime (now - maxAge)) :
    ∃ ids, Cleaned hashes r (now - maxAge) ids (r.db.cleanupOldRecoveredSigs hashes full now maxAge) := by
  unfold cleanupOldRecoveredSigs
  dsimp only
  generalize hdelete : ((r.db.tables.times.seek ⟨0, .other 0, 0⟩).takeWhile
    (·.1.time < storedTime (now - maxAge))).map (·.1) = toDelete
  have hmem := h.mem_toDelete hlimit hdelete
  have hids : ∀ id, id ∈ toDelete.map (·.id) ↔ ∃ w, r.Present w ∧ w.now < now - maxAge ∧ w.id = id := by
    intro id
    simp only [mem_map, hmem]
    constructor
    · rintro ⟨_, ⟨w, hw, hlt, rfl⟩, rfl⟩
      exact ⟨w, hw, hlt, rfl⟩
    · rintro ⟨w, hw, hlt, rfl⟩
      exact ⟨w.timeKey, ⟨w, hw, hlt, rfl⟩, rfl⟩
  have htimes : ∀ key, (toDelete.foldl OrderedStore.erase r.db.tables.times).get key = some () ↔
      ∃ w, r.Present w ∧ now - maxAge ≤ w.now ∧ w.timeKey = key := by
    intro key
    rw [OrderedStore.get_foldl_erase]
    constructor
    · intro hget
      split_ifs at hget with hdel
      obtain ⟨w, hw, rfl⟩ := (h.times key).mp hget
      exact ⟨w, hw, not_lt.mp fun hlt => hdel ((hmem _).mpr ⟨w, hw, hlt, rfl⟩), rfl⟩
    · rintro ⟨w, hw, hle, rfl⟩
      have hkeep : w.timeKey ∉ toDelete := by
        intro hdel
        obtain ⟨w', hw', hlt, heq⟩ := (hmem _).mp hdel
        have htime : storedTime w'.now = storedTime w.now := congrArg RecSigTimeKey.time heq
        have hw'now := storedTime_eq (h.fits w' (h.present_written hw'))
        have hwnow := storedTime_eq (h.fits w (h.present_written hw))
        omega
      rw [if_neg hkeep]
      exact (h.times _).mpr ⟨w, hw, rfl⟩
  have hstart := Removes.start h.describes h.caches
  split_ifs with hempty
  · obtain rfl := isEmpty_iff.mp hempty
    refine ⟨[], hids, hstart.describes, hstart.byHash, htimes, h.caches⟩
  · have hloop := hstart.foldl full (toDelete.map (·.id)) h.isLive hdistinct
    generalize (toDelete.map (·.id)).foldl (cleanupTurn hashes full) ([], r.db) = s at hloop ⊢
    have hfinal : s.2.tables.writeBatch (s.1 ++ toDelete.map .eraseTime) =
        { s.2.tables.writeBatch s.1 with
          times := toDelete.foldl OrderedStore.erase (s.2.tables.writeBatch s.1).times } := by
      rw [RecSigTables.writeBatch_append, RecSigTables.writeBatch_eraseTimes]
    refine ⟨toDelete.map (·.id), hids, ?_, ?_, ?_, ?_⟩
    · rw [hfinal]
      exact ⟨hloop.describes.recSigs, hloop.describes.writeTimes, hloop.describes.sessions⟩
    · rw [hfinal]
      exact hloop.byHash
    · rw [hfinal]
      rw [hloop.times]
      exact htimes
    · rw [hfinal]
      exact ⟨hloop.caches.forId, hloop.caches.forSession, hloop.caches.forHash⟩

lemma live_cleanup :
    (r.step hashes full (.cleanup now maxAge)).live id = some w ↔ r.live id = some w ∧ now - maxAge ≤ w.now := by
  show (r.live id).filter (fun w => decide (now - maxAge ≤ w.now)) = some w ↔ _
  simp [filter_eq_some_iff]

lemma present_cleanup :
    (r.step hashes full (.cleanup now maxAge)).Present w ↔ r.Present w ∧ now - maxAge ≤ w.now := by
  have htruncated : w ∈ (r.step hashes full (.cleanup now maxAge)).truncated ↔
      w ∈ r.truncated ∧ now - maxAge ≤ w.now := by
    show w ∈ r.truncated.filter (fun w => decide (now - maxAge ≤ w.now)) ↔ _
    simp
  unfold Present
  rw [live_cleanup, htruncated, or_and_right]

/-- A live signature is met by a cleanup if and only if it is before the limit. -/
lemma CleanupOk.mem_ids_iff {limit : ℤ} (hok : r.CleanupOk limit) (hcleaned : Cleaned hashes r limit ids db)
    (hw : r.live w.id = some w) : w.id ∈ ids ↔ w.now < limit := by
  rw [hcleaned.mem_ids]
  constructor
  · rintro ⟨z, hlive | hmem, hlt, hid⟩
    · rw [hid, hw] at hlive
      obtain rfl := some.inj hlive
      exact hlt
    · exact hok.spares z hmem hlt w (hid ▸ hw)
  · intro hlt
    exact ⟨w, .inl hw, hlt, rfl⟩

variable (hcleaned : Cleaned hashes r (now - maxAge) ids (r.db.cleanupOldRecoveredSigs hashes full now maxAge))

include h

include hdistinct hcleaned in
lemma Exact.step_cleanup (hok : r.CleanupOk (now - maxAge)) :
    (r.step hashes full (.cleanup now maxAge)).Exact hashes where
  isLive id w hw := h.isLive id w (live_cleanup.mp hw).1
  truncated_written w hw := h.truncated_written w (mem_filter.mp hw).1
  live_kept id w hw := h.live_kept id w (live_cleanup.mp hw).1
  kept_written := h.kept_written
  fits := h.fits
  latest w hw w' hw' := h.latest w hw w' (live_cleanup.mp hw').1
  complete w hw w' hmem hlt := by
    rw [present_cleanup] at hw ⊢
    exact ⟨h.complete w hw.1 w' hmem hlt, hw.2.trans hlt.le⟩
  describes := by
    have hsame : (r.step hashes full (.cleanup now maxAge)).live = withoutIds r.live ids := by
      funext id
      refine Option.ext fun w => ?_
      rw [live_cleanup]
      unfold withoutIds
      constructor
      · rintro ⟨hw, hle⟩
        obtain rfl := (h.isLive id w hw).1
        rw [if_neg (fun hmem => absurd ((hok.mem_ids_iff hcleaned hw).mp hmem) (not_lt.mpr hle)), hw]
      · intro hw
        split_ifs at hw with hmem
        obtain rfl := (h.isLive id w hw).1
        exact ⟨hw, not_lt.mp fun hlt => hmem ((hok.mem_ids_iff hcleaned hw).mpr hlt)⟩
    rw [hsame]
    exact hcleaned.describes
  byHash hash id := by
    refine (hcleaned.byHash hash id).trans ?_
    simp only [present_cleanup, h.byHash]
    constructor
    · rintro ⟨⟨w, hw, rfl, rfl⟩, hall⟩
      by_cases hle : now - maxAge ≤ w.now
      · exact ⟨w, ⟨hw, hle⟩, rfl, rfl⟩
      · -- an old key by hash is erased with a live signature, unless it belongs to a later write as well
        have hids : w.id ∈ ids := (hcleaned.mem_ids _).mpr ⟨w, hw, not_le.mp hle, rfl⟩
        obtain hlive | hmem := hw
        · exact absurd rfl (hall w.id hids w hlive)
        · obtain ⟨w', hw', hsig⟩ | ⟨z, hz, hsig, hzle⟩ := hok.finds w hmem (not_le.mp hle)
          · exact absurd (by rw [hsig]) (hall w.id hids w' hw')
          · exact ⟨z, ⟨.inr hz, hzle⟩, by rw [hsig], by rw [RecSigWrite.id, hsig]; rfl⟩
    · rintro ⟨w, ⟨hw, hle⟩, rfl, rfl⟩
      refine ⟨⟨w, hw, rfl, rfl⟩, fun id' hid' w' hw' hhash => ?_⟩
      -- a live signature with this hash is the same one, written not before `w`
      obtain ⟨rfl, hmem'⟩ := h.isLive id' w' hw'
      have hsig : w'.recSig = w.recSig := hdistinct.getHash w' hmem' w (h.present_written hw) hhash
      have hid : w.id = w'.id := by rw [RecSigWrite.id, RecSigWrite.id, hsig]
      have hlt := (hok.mem_ids_iff hcleaned hw').mp hid'
      have hlatest := h.latest w (h.present_written hw) w' (hid ▸ hw')
      omega
  times key := by
    refine (hcleaned.times key).trans ?_
    simp only [present_cleanup, and_assoc]
  caches := hcleaned.caches

lemma Exact.readable (hw : r.live w.id = some w) : r.db.Readable hashes w.recSig := by
  have hsig : r.db.tables.recSigs w.id = some w.recSig := by rw [h.describes.recSigs, hw, map_some]
  have hhash : r.db.tables.byHash (hashes.getHash w.recSig) = some w.id := (h.byHash _ _).mpr ⟨w, .inl hw, rfl, rfl⟩
  refine ⟨hsig, ?_, ?_, ?_, ?_⟩
  · rw [(hasRecoveredSigForId_spec h.caches _).1]
    exact isSome_of_eq_some hsig
  · show (r.db.tables.byHash _).bind _ = _
    rw [hhash]
    exact hsig
  · rw [(hasRecoveredSigForHash_spec h.caches _).1, hhash]
    rfl
  · rw [(hasRecoveredSigForSession_spec h.caches _).1]
    exact (h.describes.sessions _).mpr ⟨w.id, w, hw, rfl⟩

lemma Exact.has {key : RecSigKey} (hkey : r.db.tables.has key) : ∃ w, r.Present w ∧ key ∈ w.keys hashes := by
  cases key with
  | sig id =>
    obtain ⟨recSig, hrecSig⟩ := isSome_iff_exists.mp hkey
    rw [h.describes.recSigs] at hrecSig
    obtain ⟨w, hw, -⟩ := map_eq_some_iff.mp hrecSig
    obtain rfl := (h.isLive id w hw).1
    exact ⟨w, .inl hw, by simp [RecSigWrite.keys]⟩
  | writeTime id msgHash =>
    obtain ⟨w, hw, rfl⟩ := (h.describes.writeTimes id msgHash).mp hkey
    obtain rfl := (h.isLive id w hw).1
    exact ⟨w, .inl hw, by simp [RecSigWrite.keys]⟩
  | hash hash =>
    obtain ⟨id, hid⟩ := isSome_iff_exists.mp hkey
    obtain ⟨w, hw, rfl, -⟩ := (h.byHash hash id).mp hid
    exact ⟨w, hw, by simp [RecSigWrite.keys]⟩
  | session signHash =>
    obtain ⟨id, w, hw, rfl⟩ := (h.describes.sessions signHash).mp hkey
    obtain rfl := (h.isLive id w hw).1
    exact ⟨w, .inl hw, by simp [RecSigWrite.keys]⟩
  | time key =>
    obtain ⟨u, hu⟩ := isSome_iff_exists.mp hkey
    obtain ⟨w, hw, rfl⟩ := (h.times key).mp hu
    exact ⟨w, hw, by simp [RecSigWrite.keys]⟩

/-- A cleanup that meets the condition is exact. -/
lemma Exact.cleanedUp (hok : r.CleanupOk (now - maxAge))
    (hexact : (r.step hashes full (.cleanup now maxAge)).Exact hashes) :
    (r.step hashes full (.cleanup now maxAge)).CleanedUp hashes (now - maxAge) where
  gone key hkey := by
    obtain ⟨w, hw, hmem⟩ := hexact.has hkey
    exact ⟨w, hexact.present_written hw, ((present_cleanup).mp hw).2, hmem⟩
  readable w hw hle := by
    -- the live signature is the last write of this type and id, so it is not before the limit either
    obtain ⟨w', hw', hsig⟩ := hok.reached w hw hle
    have hlatest := h.latest w (h.kept_written w hw) w' hw'
    obtain ⟨hid, -⟩ := h.isLive _ w' hw'
    have hlive : (r.step hashes full (.cleanup now maxAge)).live w'.id = some w' :=
      live_cleanup.mpr ⟨hid ▸ hw', hle.trans hlatest⟩
    rw [← hsig]
    exact hexact.readable hlive

include hdistinct hcleaned in
/-- A cleanup that is exact meets the condition. -/
lemma Exact.cleanupOk (hexact : (r.step hashes full (.cleanup now maxAge)).CleanedUp hashes (now - maxAge)) :
    r.CleanupOk (now - maxAge) := by
  have hread : ∀ w ∈ r.kept, now - maxAge ≤ w.now → (withoutIds r.live ids w.id).map (·.recSig) = some w.recSig := by
    intro w hw hle
    rw [← hcleaned.describes.recSigs]
    exact (hexact.readable w hw hle).byId
  refine ⟨fun z hz hlt w hw => ?_, fun z hz hlt => ?_, fun w hw hle => ?_⟩
  · by_contra hle
    have hid := (h.isLive _ w hw).1
    have hids : w.id ∈ ids := (hcleaned.mem_ids _).mpr ⟨z, .inr hz, hlt, hid.symm⟩
    have hkept := hread w (h.live_kept _ w hw) (not_lt.mp hle)
    simp [withoutIds, hids] at hkept
  · by_contra hlost
    obtain ⟨hnolive, hnotrunc⟩ := not_or.mp hlost
    -- no removed signature has the hash of `z`, so its key is still there
    have hkey : (r.db.cleanupOldRecoveredSigs hashes full now maxAge).tables.byHash (hashes.getHash z.recSig) =
        some z.id := by
      refine (hcleaned.byHash _ _).mpr ⟨(h.byHash _ _).mpr ⟨z, .inr hz, rfl, rfl⟩, fun id _ w hw hhash => ?_⟩
      obtain ⟨rfl, hmem⟩ := h.isLive id w hw
      have hsig := hdistinct.getHash w hmem z (h.truncated_written z hz) hhash
      refine hnolive ⟨w, ?_, hsig⟩
      rwa [RecSigWrite.id, ← hsig]
    obtain ⟨w, hw, hle, hmem⟩ := hexact.gone (.hash (hashes.getHash z.recSig)) (isSome_of_eq_some hkey)
    have hhash : hashes.getHash z.recSig = hashes.getHash w.recSig := by simpa [RecSigWrite.keys] using hmem
    have hsig : w.recSig = z.recSig := (hdistinct.getHash z (h.truncated_written z hz) w hw hhash).symm
    obtain hlive | htrunc := h.complete z (.inr hz) w hw (hlt.trans_le hle)
    · refine hnolive ⟨w, ?_, hsig⟩
      rwa [RecSigWrite.id, ← hsig]
    · exact hnotrunc ⟨w, htrunc, hsig, hle⟩
  · obtain ⟨w', hw', hsig⟩ := map_eq_some_iff.mp (hread w hw hle)
    unfold withoutIds at hw'
    split_ifs at hw'
    exact ⟨w', hw', hsig⟩

end Cleanup

/-! ### Runs -/

/-- The call, if it is a cleanup, meets the condition. -/
def CallOk (r : RecSigRun Sig) : RecSigCall Sig → Prop
  | .cleanup now maxAge => r.CleanupOk (now - maxAge)
  | _ => True

lemma Exact.query (h : r.Exact hashes) (hdb : db.tables = r.db.tables ∧ db.CachesAgree r.db.tables) :
    { r with db }.Exact hashes := by
  obtain ⟨htables, hcaches⟩ := hdb
  exact ⟨h.isLive, h.truncated_written, h.live_kept, h.kept_written, h.fits, h.latest, h.complete,
    htables ▸ h.describes,
    htables ▸ h.byHash, htables ▸ h.times, htables ▸ hcaches⟩

/-- Every call keeps the database exact, cleanups where they meet the condition. -/
lemma Exact.step (h : r.Exact hashes) (hfits : r.CallFits call)
    (hdistinct : hashes.Distinct (r.step hashes full call).written) (hok : r.CallOk call) :
    (r.step hashes full call).Exact hashes := by
  cases call with
  | write now recSig => exact h.step_write hfits hdistinct
  | truncate id => exact h.step_truncate hdistinct
  | cleanup now maxAge =>
    obtain ⟨ids, hcleaned⟩ := h.cleaned full hdistinct hfits
    exact h.step_cleanup hdistinct hcleaned hok
  | hasForId id => exact h.query (hasRecoveredSigForId_spec h.caches id).2
  | hasForSession signHash => exact h.query (hasRecoveredSigForSession_spec h.caches signHash).2
  | hasForHash hash => exact h.query (hasRecoveredSigForHash_spec h.caches hash).2

/-- The state before the first call: an empty database. -/
def start : RecSigRun Sig where
  db :=
    { hasSigForIdCache := { maxSize := 30000, truncateThreshold := 60000 }
      hasSigForSessionCache := { maxSize := 30000, truncateThreshold := 60000 }
      hasSigForHashCache := { maxSize := 30000, truncateThreshold := 60000 } }

lemma exact_start : (start : RecSigRun Sig).Exact hashes where
  isLive := nofun
  truncated_written := nofun
  live_kept := nofun
  kept_written := nofun
  fits := nofun
  latest := nofun
  complete := nofun
  describes := by
    refine ⟨fun _ => rfl, fun _ _ => ?_, fun _ => ?_⟩ <;> simp [start]
  byHash := by simp [start, Present]
  times := by simp [start, Present, OrderedStore.get]
  caches := ⟨nofun, nofun, nofun⟩

lemma written_subset_run : r.written ⊆ (r.run hashes full calls).written := by
  induction calls generalizing r with
  | nil => exact List.Subset.refl _
  | cons call calls ih =>
    refine List.Subset.trans ?_ ih
    cases call with
    | write now recSig => exact subset_cons_self ..
    | _ => exact List.Subset.refl _

variable (hashes full) in
/-- The call, if it is a cleanup, is exact. -/
def CleansUp (r : RecSigRun Sig) : RecSigCall Sig → Prop
  | .cleanup now maxAge => (r.step hashes full (.cleanup now maxAge)).CleanedUp hashes (now - maxAge)
  | _ => True

lemma Exact.cleansUp_iff (h : r.Exact hashes) (hfits : r.CallFits call)
    (hdistinct : hashes.Distinct (r.step hashes full call).written) : r.CleansUp hashes full call ↔ r.CallOk call := by
  cases call with
  | cleanup now maxAge =>
    obtain ⟨ids, hcleaned⟩ := h.cleaned full hdistinct hfits
    constructor
    · exact h.cleanupOk hdistinct hcleaned
    · intro hok
      exact h.cleanedUp hok (h.step_cleanup hdistinct hcleaned hok)
  | _ => exact Iff.rfl

/-- The hashes are distinct in every state of a run that ends with distinct ones. -/
lemma along_distinct (hdistinct : hashes.Distinct (r.run hashes full calls).written)
    (hfits : Along (step hashes full) CallFits r calls) :
    Along (step hashes full) (fun r call => r.CallFits call ∧ hashes.Distinct (r.step hashes full call).written)
      r calls := by
  induction calls generalizing r with
  | nil => trivial
  | cons call calls ih =>
    exact ⟨⟨hfits.1, hdistinct.mono (written_subset_run (r := r.step hashes full call))⟩, ih hdistinct hfits.2⟩

/-- **Exact cleanups.** In a run from the empty database, with one live signature for a type and id, times of writes
that do not go back and times of 32 bits, every cleanup is exact if and only if every cleanup meets the condition. -/
theorem cleanups_exact_iff (hashes : RecSigHashes Sig) (full : List (RecSigChange Sig) → Bool)
    (calls : List (RecSigCall Sig)) (hdistinct : hashes.Distinct (run hashes full start calls).written)
    (hfits : Along (step hashes full) CallFits start calls) :
    Along (step hashes full) (CleansUp hashes full) start calls ↔ Along (step hashes full) CallOk start calls :=
  along_congr (fun _ _ hexact h => hexact.cleansUp_iff h.1 h.2) (fun _ _ hexact h hok => hexact.step h.1 h.2 hok)
    exact_start (along_distinct hdistinct hfits)

end RecSigRun

instance (r : RecSigRun Sig) (call : RecSigCall Sig) : Decidable (r.CallFits call) :=
  match call with
  | .write _ recSig => inferInstanceAs (Decidable (_ ∧ r.live recSig.recSigId = none ∧ _))
  | .cleanup now maxAge => inferInstanceAs (Decidable (FitsTime (now - maxAge)))
  | .truncate _ | .hasForId _ | .hasForSession _ | .hasForHash _ => isTrue trivial

def toyRecSigHashes : RecSigHashes Unit where
  getHash recSig := recSig.id * 16 + recSig.quorumHash * 4 + recSig.msgHash
  buildSignHash recSig := recSig.id * 16 + recSig.quorumHash * 4 + recSig.msgHash

/-- A signature of the first quorum or another one, on the same id and message. -/
def toyRecSig (quorumHash : Uint256) : CRecoveredSig Unit := ⟨.llmq50_60, quorumHash, 1, 1, some ()⟩

/-- A signature is written, and cleaned up after it has become old; one more is written, looked up and kept. -/
def toyRecSigCalls : List (RecSigCall Unit) :=
  [.write 10 (toyRecSig 0), .cleanup 150 100, .write 160 (toyRecSig 1), .hasForSession 21, .cleanup 200 100]

namespace RecSigRun

theorem cleanups_exact_iff_toyRecSigCalls :
    toyRecSigHashes.Distinct (run toyRecSigHashes (fun _ => false) start toyRecSigCalls).written ∧
      Along (step toyRecSigHashes fun _ => false) CallFits start toyRecSigCalls ∧
      Along (step toyRecSigHashes fun _ => false) (CleansUp toyRecSigHashes fun _ => false) start toyRecSigCalls := by
  have hdistinct : toyRecSigHashes.Distinct (run toyRecSigHashes (fun _ => false) start toyRecSigCalls).written := by
    have hwritten : (run toyRecSigHashes (fun _ => false) start toyRecSigCalls).written =
        [⟨toyRecSig 1, 160⟩, ⟨toyRecSig 0, 10⟩] := rfl
    rw [hwritten]
    constructor
    · simp [toyRecSigHashes, toyRecSig]
    · simp [toyRecSig, RecSigWrite.id, CRecoveredSig.recSigId]
  have hfits : Along (step toyRecSigHashes fun _ => false) CallFits start toyRecSigCalls := by decide
  refine ⟨hdistinct, hfits, (cleanups_exact_iff _ _ _ hdistinct hfits).mpr ?_⟩
  refine ⟨trivial, ?_, trivial, trivial, ?_, trivial⟩
  · refine ⟨nofun, nofun, fun w hw hle => ?_⟩
    obtain rfl := mem_singleton.mp hw
    exact absurd hle (by decide)
  · refine ⟨nofun, nofun, fun w hw hle => ?_⟩
    obtain rfl | hw := mem_cons.mp hw
    · exact ⟨⟨toyRecSig 1, 160⟩, rfl, rfl⟩
    · obtain rfl := mem_singleton.mp hw
      exact absurd hle (by decide)

/-- A truncated signature keeps its key by hash for good; a truncated signature that has become old takes a new one of
its type and id with it; and an age that is more than the time removes what is not old. -/
theorem cleanup_not_exact :
    (let calls := [.write 10 (toyRecSig 0), .truncate (toyRecSig 0).recSigId, .cleanup 150 100]
     Along (step toyRecSigHashes fun _ => false) CallFits start calls ∧
       ¬ Along (step toyRecSigHashes fun _ => false) (CleansUp toyRecSigHashes fun _ => false) start calls) ∧
    (let calls := [.write 10 (toyRecSig 0), .truncate (toyRecSig 0).recSigId, .write 140 (toyRecSig 1),
      .cleanup 150 100]
     Along (step toyRecSigHashes fun _ => false) CallFits start calls ∧
       ¬ Along (step toyRecSigHashes fun _ => false) (CleansUp toyRecSigHashes fun _ => false) start calls) ∧
    ¬ Along (step toyRecSigHashes fun _ => false) (CleansUp toyRecSigHashes fun _ => false) start
      [.write 100 (toyRecSig 0), .cleanup 150 10000000000] := by
  refine ⟨⟨by decide, ?_⟩, ⟨by decide, ?_⟩, ?_⟩
  · rintro ⟨-, -, hclean, -⟩
    obtain ⟨w, hw, hle, -⟩ := hclean.gone (.hash (toyRecSigHashes.getHash (toyRecSig 0))) (by decide)
    obtain rfl := mem_singleton.mp hw
    exact absurd hle (by decide)
  · rintro ⟨-, -, -, hclean, -⟩
    have hread := (hclean.readable ⟨toyRecSig 1, 140⟩ mem_cons_self (by decide)).hasId
    exact absurd hread (by decide)
  · rintro ⟨-, hclean, -⟩
    have hread := (hclean.readable ⟨toyRecSig 0, 100⟩ mem_cons_self (by decide)).hasId
    exact absurd hread (by decide)

end RecSigRun

end Blocx
