import Blocx.Llmq.InstantSendDbAgrees

/-!
# Removals from the InstantSend database

The two loops that remove locks. Both collect a batch while they still read the tables as they were. The removal of
confirmed locks leaves the caches as they are; the removal of chained locks takes every lock it removes out of them, and
may read it again later, so that it is the end of a turn that matters (`Removing`). The number of turns of the second
loop is bounded by the number of inputs (`stack_removeChained`).
-/

namespace Blocx

open List

open CInstantSendDb

open Function

variable {Sig : Type} {db' : CInstantSendDb Sig} {live : Uint256 → Option (CInstantSendLock Sig)}
  {hashLock : SerializedLock Sig → Uint256} {locks : List (CInstantSendLock Sig)} {islock : CInstantSendLock Sig}
  {gone : Finset Uint256} {t : IsTables Sig} {hash : Uint256} {nHeight : ℕ}
    (hcollisions : NoLockCollisions hashLock locks)

/-! ### Confirmed locks -/

section

open CInstantSendDb

variable {db : CInstantSendDb Sig} {s : ConfirmLoop Sig} {key : InversedKey}

lemma TablesAgree.eq_of_sharesKey (h : TablesAgree t live) {hash' : Uint256} {islock' : CInstantSendLock Sig}
    (hlive : live hash = some islock) (hlive' : live hash' = some islock') (hshares : islock.SharesKey islock') :
    hash = hash' := by
  obtain ⟨txid, hmem, hmem'⟩ | ⟨o, hmem, hmem'⟩ := hshares
  · exact h.txid.unique hlive hlive' hmem hmem'
  · exact h.outpoint.unique hlive hlive' hmem hmem'

/-- The changes that a record leads to, besides the removal of its lock. -/
def recordChanges (key : InversedKey) : List (IsChange Sig) :=
  archiveChanges key.islockHash key.nHeight ++ [.eraseMined key]

lemma isRecord_of_mem_archiveChanges {c : IsChange Sig} (h : c ∈ archiveChanges hash nHeight) : c.isRecord := by
  obtain rfl | h := mem_cons.mp h
  · rfl
  · obtain rfl := mem_singleton.mp h
    rfl

lemma confirmTurn_of_none (h : s.db.getInstantSendLockByHashInternal hashLock key.islockHash false = (none, db')) :
    confirmTurn hashLock s key = ⟨db', s.batch ++ recordChanges key, s.ret⟩ := by
  unfold confirmTurn recordChanges
  rw [h, ← append_assoc]

lemma confirmTurn_of_some
    (h : s.db.getInstantSendLockByHashInternal hashLock key.islockHash false = (some islock, db')) :
    confirmTurn hashLock s key = ⟨db', s.batch ++ eraseLockChanges key.islockHash islock ++ recordChanges key,
      if (s.ret key.islockHash).isSome then s.ret else update s.ret key.islockHash (some islock)⟩ := by
  unfold confirmTurn recordChanges
  rw [h, ← append_assoc]
  rfl

lemma mem_keysUpTo {store : OrderedStore InversedKey Unit} {n : ℕ} :
    key ∈ ((store.seek (buildInversedISLockKey n 0)).takeWhile (·.1.nHeight ≤ n)).map (·.1) ↔
      (store.get key).isSome ∧ key.nHeight ≤ n := by
  have hfirst : ∀ key : InversedKey, buildInversedISLockKey n 0 ≤ key ↔ key.nHeight ≤ n := by
    intro key
    show (toLex (OrderDual.toDual n, 0) : ℕᵒᵈ ×ₗ ℕ) ≤ toLex (OrderDual.toDual key.nHeight, key.islockHash.toNat) ↔ _
    rw [Prod.Lex.toLex_le_toLex]
    simp only [OrderDual.toDual_lt_toDual, OrderDual.toDual_inj, Nat.zero_le, and_true]
    omega
  have hcut : ∀ a b : InversedKey × Unit, buildInversedISLockKey n 0 ≤ a.1 → a.1 < b.1 → decide (b.1.nHeight ≤ n) →
      decide (a.1.nHeight ≤ n) := fun a _ ha _ _ => decide_eq_true ((hfirst a.1).mp ha)
  simp only [mem_map, OrderedStore.mem_takeWhile_seek hcut, hfirst, Option.isSome_iff_exists,
    OrderedStore.get_eq_some_iff]
  constructor
  · rintro ⟨⟨key, u⟩, ⟨hmem, hle, -⟩, rfl⟩
    exact ⟨⟨u, hmem⟩, hle⟩
  · rintro ⟨⟨u, hmem⟩, hle⟩
    exact ⟨(key, u), ⟨hmem, hle, decide_eq_true hle⟩, rfl⟩

include hcollisions

/-- Without the cache, the live lock is read, and is all that is new in the cache. -/
lemma Agrees.read_getByHash {db₀ : CInstantSendDb Sig} (h : Agrees hashLock locks db₀ live gone)
    (htables : db.tables = db₀.tables) (hash : Uint256) :
    ∃ cache, db.getInstantSendLockByHashInternal hashLock hash false = (live hash, { db with islockCache := cache }) ∧
      ∀ hash' v, cache.lookup hash' = some v →
        hash' = hash ∧ v = live hash ∨ (hash' = hash → hash = 0) ∧ db.islockCache.lookup hash' = some v := by
  by_cases hzero : hash = 0
  · refine ⟨db.islockCache, ?_, fun hash' v hv => .inr ⟨fun _ => hzero, hv⟩⟩
    have hnone : live hash = none :=
      Option.eq_none_iff_forall_ne_some.mpr fun islock hlive => (h.stored hash islock hlive).ne_zero hzero
    rw [hnone, hzero]
    rfl
  · refine ⟨db.islockCache.insert hash (live hash), ?_, fun hash' v hv => ?_⟩
    · rw [getInstantSendLockByHashInternal_false hzero, htables, h.readLock hcollisions]
    · exact (LruCache.lookup_insert hv).imp_right fun ⟨hne, hv⟩ => ⟨fun heq => absurd heq hne, hv⟩

/-- The loop over records, after some of them: the live locks of these records are to be removed. -/
structure ConfirmAgrees (hashLock : SerializedLock Sig → Uint256) (db : CInstantSendDb Sig)
    (live : Uint256 → Option (CInstantSendLock Sig)) (keys : List InversedKey) (s : ConfirmLoop Sig) : Prop where
  looked : Looked hashLock db s.db
  ret : ∀ hash, s.ret hash = if ∃ key ∈ keys, key.islockHash = hash then live hash else none
  batch : TablesAgree (db.tables.writeBatch s.batch) fun hash => if (s.ret hash).isSome then none else live hash
  keeps : ∀ hash, .eraseArchivedHash hash ∉ s.batch

lemma ConfirmAgrees.turn (hagrees : Agrees hashLock locks db live gone) {keys : List InversedKey}
    (h : ConfirmAgrees hashLock db live keys s) (key : InversedKey) :
    ConfirmAgrees hashLock db live (keys ++ [key]) (confirmTurn hashLock s key) := by
  obtain ⟨cache, hget, -⟩ := hagrees.read_getByHash hcollisions h.looked.tables key.islockHash
  have hlooked := h.looked.trans (looked_getInstantSendLockByHashInternal s.db key.islockHash false)
  rw [hget] at hlooked
  have hmem : ∀ hash, (∃ k ∈ keys ++ [key], k.islockHash = hash) ↔
      (∃ k ∈ keys, k.islockHash = hash) ∨ key.islockHash = hash := by
    simp [or_and_right, exists_or]
  have hrecords : ∀ c : IsChange Sig, c ∈ recordChanges key → c.isRecord := by
    intro c hc
    obtain hc | hc := mem_append.mp hc
    · exact isRecord_of_mem_archiveChanges hc
    · exact mem_singleton.mp hc ▸ rfl
  cases hread : live key.islockHash with
  | none =>
    rw [confirmTurn_of_none (hread ▸ hget)]
    refine ⟨hlooked, fun hash => ?_, ?_, fun hash => ?_⟩
    · rw [h.ret hash]
      by_cases hkey : key.islockHash = hash
      · subst hkey
        simp [hread]
      · simp only [hmem, hkey, or_false]
    · rw [IsTables.writeBatch_append]
      exact h.batch.writeBatch hrecords
    · have hkeeps := h.keeps hash
      simp [recordChanges, archiveChanges, hkeeps]
  | some islock =>
    rw [confirmTurn_of_some (hread ▸ hget)]
    have hret : (if (s.ret key.islockHash).isSome then s.ret
        else update s.ret key.islockHash (some islock)) = update s.ret key.islockHash (some islock) := by
      split_ifs with hsome
      · rw [h.ret] at hsome
        have hdone : ∃ k ∈ keys, k.islockHash = key.islockHash := by
          by_contra hdone
          rw [if_neg hdone] at hsome
          cases hsome
        rw [Function.eq_update_self_iff, h.ret, if_pos hdone, hread]
      · rfl
    rw [hret]
    refine ⟨hlooked, fun hash => ?_, ?_, fun hash => ?_⟩
    · dsimp only
      by_cases hkey : hash = key.islockHash
      · subst hkey
        rw [update_self, if_pos ⟨key, by simp, rfl⟩, hread]
      · rw [update_of_ne hkey, h.ret hash]
        simp only [hmem, Ne.symm hkey, or_false]
    · rw [IsTables.writeBatch_append, IsTables.writeBatch_append]
      have hlive : (fun hash => if (update s.ret key.islockHash (some islock) hash).isSome then none
          else live hash) = update (fun hash => if (s.ret hash).isSome then none else live hash)
            key.islockHash none := by
        funext hash
        by_cases hkey : hash = key.islockHash
        · subst hkey
          simp
        · simp [hkey]
      rw [hlive]
      refine (h.batch.eraseLock ?_ ?_).writeBatch hrecords
      · intro islock' hlive'
        split_ifs at hlive'
        exact Option.some.inj (hlive'.symm.trans hread)
      · intro hash' islock' hlive' hshares
        split_ifs at hlive'
        exact hagrees.tables.eq_of_sharesKey hlive' hread hshares
    · have hkeeps := h.keeps hash
      simp [recordChanges, archiveChanges, eraseLockChanges, hkeeps]

lemma confirmAgrees_foldl (hagrees : Agrees hashLock locks db live gone) (n : ℤ) (keys : List InversedKey) :
    ConfirmAgrees hashLock db live keys
      (keys.foldl (confirmTurn hashLock) { db := { db with bestConfirmedHeight := n } }) := by
  induction keys using reverseRecOn with
  | nil =>
    refine ⟨⟨rfl, fun _ _ => .inl, fun _ _ => .inl, fun _ _ => .inl⟩, fun hash => ?_, ?_, fun hash => ?_⟩
    · simp
    · simpa [IsTables.writeBatch] using hagrees.tables
    · exact not_mem_nil
  | append_singleton keys key ih =>
    rw [foldl_append]
    exact ih.turn hcollisions hagrees key

/-- A lock has a record of a block up to a height. -/
def IsTables.MinedUpTo (t : IsTables Sig) (n : ℕ) (hash : Uint256) : Prop :=
  ∃ m ≤ n, (t.minedByHeightAndHash.get (buildInversedISLockKey m hash)).isSome

lemma Agrees.removeConfirmed (h : Agrees hashLock locks db live gone) (n : ℤ) :
    (db.bestConfirmedHeight < n → ∀ hash islock, (db.removeConfirmedInstantSendLocks hashLock n).1 hash = some islock ↔
      live hash = some islock ∧ db.tables.MinedUpTo n.toNat hash) ∧
    Agrees hashLock locks (db.removeConfirmedInstantSendLocks hashLock n).2
      (fun hash => if ((db.removeConfirmedInstantSendLocks hashLock n).1 hash).isSome then none else live hash) gone ∧
    ∃ batch, (db.removeConfirmedInstantSendLocks hashLock n).2.tables = db.tables.writeBatch batch ∧
      ∀ hash, .eraseArchivedHash hash ∉ batch := by
  unfold removeConfirmedInstantSendLocks
  split_ifs with hn
  · exact ⟨fun hn' => absurd hn hn'.not_ge, h, [], rfl, fun _ => not_mem_nil⟩
  · dsimp only
    set keys := ((db.tables.minedByHeightAndHash.seek (buildInversedISLockKey n.toNat 0)).takeWhile
      (·.1.nHeight ≤ n.toNat)).map (·.1) with hkeys
    have hloop := confirmAgrees_foldl hcollisions h n keys
    set s := keys.foldl (confirmTurn hashLock) { db := { db with bestConfirmedHeight := n } }
    have hmem : ∀ hash, (∃ key ∈ keys, key.islockHash = hash) ↔ db.tables.MinedUpTo n.toNat hash := by
      intro hash
      constructor
      · rintro ⟨key, hmem, rfl⟩
        obtain ⟨hget, hle⟩ := mem_keysUpTo.mp hmem
        exact ⟨key.nHeight, hle, hget⟩
      · rintro ⟨m, hle, hget⟩
        exact ⟨_, mem_keysUpTo.mpr ⟨hget, hle⟩, rfl⟩
    have hlooked := h.looked hcollisions hloop.looked
    have hsub : ∀ hash islock, (if (s.ret hash).isSome then none else live hash) = some islock →
        live hash = some islock := by
      intro hash islock hlive
      split_ifs at hlive
      exact hlive
    refine ⟨fun _ hash islock => ?_, ⟨?_, ?_, fun hash islock hlive =>
      h.stored hash islock (hsub hash islock hlive), ?_⟩,
      _, congrArg (IsTables.writeBatch · _) hloop.looked.tables, hloop.keeps⟩
    · rw [hloop.ret hash, ← hmem hash]
      split_ifs with hkey
      · exact (and_iff_left hkey).symm
      · exact ⟨nofun, fun hboth => absurd hboth.2 hkey⟩
    · rw [hloop.looked.tables]
      exact hloop.batch
    · exact ⟨fun hash v hv islock hlive => hlooked.caches.served hash v hv islock (hsub hash islock hlive),
        hlooked.caches.hashed, hlooked.caches.archived, hlooked.caches.txid.mono hsub,
          hlooked.caches.outpoint.mono hsub⟩
    · intro hash hgone
      rw [h.gone hash hgone, ite_self]

end

/-! ### Chained locks -/

open CInstantSendDb

variable {db db₀ : CInstantSendDb Sig} {batch : List (IsChange Sig)} {removed : List Uint256} {s : ChainLoop Sig}

/-- The locks without some of them. -/
def without (live : Uint256 → Option (CInstantSendLock Sig)) (removed : List Uint256) (hash : Uint256) :
    Option (CInstantSendLock Sig) :=
  if hash ∈ removed then none else live hash

lemma of_without (h : without live removed hash = some islock) : live hash = some islock := by
  unfold without at h
  split_ifs at h
  exact h

lemma without_append_singleton : without live (removed ++ [hash]) = update (without live removed) hash none := by
  funext hash'
  by_cases hne : hash' = hash
  · simp [without, hne]
  · simp [without, hne]

/-- A removal goes on: some locks are removed from the caches, and the batch removes them from the tables, which are
still those of the database before, and archives them. -/
structure Removing (hashLock : SerializedLock Sig → Uint256) (db₀ : CInstantSendDb Sig)
    (live : Uint256 → Option (CInstantSendLock Sig)) (gone : Finset Uint256) (db : CInstantSendDb Sig)
    (batch : List (IsChange Sig)) (removed : List Uint256) : Prop where
  tables : db.tables = db₀.tables
  after : TablesAgree (db₀.tables.writeBatch batch) (without live removed)
  caches : CachesAgree hashLock db (without live removed) (gone ∪ removed.toFinset)
  archives : ∀ hash ∈ removed, .writeArchivedHash hash ∈ batch
  keeps : ∀ hash, .eraseArchivedHash hash ∉ batch

lemma without_append_of_none (h : live hash = none) : without live (removed ++ [hash]) = without live removed := by
  rw [without_append_singleton, update_eq_self_iff]
  simp [without, h]

lemma union_toFinset_append : gone ∪ (removed ++ [hash]).toFinset = insert hash (gone ∪ removed.toFinset) := by
  ext hash'
  simp only [Finset.mem_union, Finset.mem_insert, mem_toFinset, mem_append, mem_singleton]
  tauto

variable (hislock : ∀ hash' v, db'.islockCache.lookup hash' = some v → hash' ≠ hash ∧
  db.islockCache.lookup hash' = some v)
  (htxid : ∀ txid hash', db'.txidCache.lookup txid = some hash' → db.txidCache.lookup txid = some hash')
  (houtpoint : ∀ o hash', db'.outpointCache.lookup o = some hash' → db.outpointCache.lookup o = some hash')

include hislock htxid houtpoint in
lemma CachesAgree.forget (h : CachesAgree hashLock db live gone) :
    CachesAgree hashLock db' (update live hash none) (insert hash gone) := by
  have hsub : ∀ hash' islock, update live hash none hash' = some islock → live hash' = some islock := by
    exact fun hash' islock hlive => (update_none_eq_some_iff.mp hlive).2
  refine ⟨fun hash' v hv islock hlive => ?_, fun hash' islock hv => ?_, fun hash' hgone hne v hv => ?_, ?_, ?_⟩
  · exact h.served hash' v (hislock hash' v hv).2 islock (hsub hash' islock hlive)
  · exact h.hashed hash' islock (hislock hash' _ hv).2
  · obtain ⟨hne', hv⟩ := hislock hash' v hv
    exact h.archived hash' (Finset.mem_of_mem_insert_of_ne hgone hne') hne v hv
  · exact fun txid hash' hv => h.txid.mono hsub txid hash' (htxid txid hash' hv)
  · exact fun o hash' hv => h.outpoint.mono hsub o hash' (houtpoint o hash' hv)

namespace Removing

section

variable (hagrees : Agrees hashLock locks db₀ live gone)

section

variable (h : Removing hashLock db₀ live gone db batch removed)

include h

include hislock htxid houtpoint in
/-- The next lock is erased and archived, and goes out of the caches. -/
lemma eraseLock (htables : db'.tables = db₀.tables) (hsame : ∀ islock', live hash = some islock' → islock' = islock)
    (hshares : ∀ hash' islock', live hash' = some islock' → islock'.SharesKey islock → hash' = hash) (nHeight : ℕ) :
    Removing hashLock db₀ live gone db' (batch ++ eraseLockChanges hash islock ++ archiveChanges hash nHeight)
      (removed ++ [hash]) := by
  refine ⟨htables, ?_, ?_, fun hash' hmem => ?_, fun hash' => ?_⟩
  · rw [IsTables.writeBatch_append, IsTables.writeBatch_append, without_append_singleton]
    refine (h.after.eraseLock ?_ ?_).writeBatch fun c => isRecord_of_mem_archiveChanges
    · exact fun islock' hlive => hsame islock' (of_without hlive)
    · exact fun hash' islock' hlive => hshares hash' islock' (of_without hlive)
  · rw [without_append_singleton, union_toFinset_append]
    exact h.caches.forget hislock htxid houtpoint
  · obtain hmem | hmem := mem_append.mp hmem
    · exact mem_append_left _ (mem_append_left _ (h.archives hash' hmem))
    · rw [mem_singleton.mp hmem]
      exact mem_append_right _ (mem_cons_of_mem _ mem_cons_self)
  · have hkeeps := h.keeps hash'
    simp [eraseLockChanges, archiveChanges, hkeeps]

variable {cache : LruCache Uint256 (Option (CInstantSendLock Sig))} (hcache : ∀ hash' v, cache.lookup hash' = some v →
  hash' = hash ∧ v = live hash ∨ (hash' = hash → hash = 0) ∧ db.islockCache.lookup hash' = some v)

include hcache

lemma removeLock (hagrees : Agrees hashLock locks db₀ live gone) (hlive : live hash = some islock) (nHeight : ℕ) :
    Removing hashLock db₀ live gone (forgetLock { db with islockCache := cache } hash islock)
      (batch ++ eraseLockChanges hash islock ++ archiveChanges hash nHeight) (removed ++ [hash]) := by
  refine h.eraseLock (fun hash' v hv => ?_) (fun txid hash' hv => (LruCache.lookup_erase.mp hv).2)
    (fun o hash' hv => (LruCache.lookup_foldl_erase.mp hv).2) (by exact h.tables)
    (fun islock'' hlive' => Option.some.inj (hlive'.symm.trans hlive))
    (fun hash' islock' hlive' => hagrees.tables.eq_of_sharesKey hlive' hlive) nHeight
  obtain ⟨hne', hv⟩ := LruCache.lookup_erase.mp hv
  obtain ⟨heq, -⟩ | ⟨-, hv⟩ := hcache hash' v hv
  · exact absurd heq hne'
  · exact ⟨hne', hv⟩

variable (hlive : live hash = none)

include hlive

lemma caches_lookFor :
    CachesAgree hashLock { db with islockCache := cache } (without live removed)
      (insert hash (gone ∪ removed.toFinset)) := by
  rw [hlive] at hcache
  refine ⟨fun hash' v hv islock' hlive' => ?_, fun hash' islock' hv => ?_, fun hash' hgone hne v hv => ?_,
    h.caches.txid, h.caches.outpoint⟩
  · obtain ⟨rfl, -⟩ | ⟨-, hv⟩ := hcache hash' v hv
    · cases hlive.symm.trans (of_without hlive')
    · exact h.caches.served hash' v hv islock' hlive'
  · obtain ⟨-, heq⟩ | ⟨-, hv⟩ := hcache hash' _ hv
    · cases heq
    · exact h.caches.hashed hash' islock' hv
  · obtain ⟨-, heq⟩ | ⟨hzero, hv⟩ := hcache hash' v hv
    · exact heq
    · refine h.caches.archived hash' (Finset.mem_of_mem_insert_of_ne hgone fun heq => hne ?_) hne v hv
      exact heq.trans (hzero heq)

lemma lookFor : Removing hashLock db₀ live gone { db with islockCache := cache } batch removed where
  tables := h.tables
  after := h.after
  caches := by
    obtain ⟨hserved, hhashed, harchived, htxid, houtpoint⟩ := h.caches_lookFor hcache hlive
    exact ⟨hserved, hhashed, fun hash' hgone => harchived hash' (Finset.mem_insert_of_mem hgone), htxid, houtpoint⟩
  archives := h.archives
  keeps := h.keeps

lemma archiveMissing (nHeight : ℕ) :
    Removing hashLock db₀ live gone { db with islockCache := cache } (batch ++ archiveChanges hash nHeight)
      (removed ++ [hash]) := by
  refine ⟨h.tables, ?_, ?_, fun hash' hmem => ?_, fun hash' => ?_⟩
  · rw [IsTables.writeBatch_append, without_append_of_none hlive]
    exact h.after.writeBatch fun c => isRecord_of_mem_archiveChanges
  · rw [without_append_of_none hlive, union_toFinset_append]
    exact h.caches_lookFor hcache hlive
  · obtain hmem | hmem := mem_append.mp hmem
    · exact mem_append_left _ (h.archives hash' hmem)
    · rw [mem_singleton.mp hmem]
      exact mem_append_right _ (mem_cons_of_mem _ mem_cons_self)
  · have hkeeps := h.keeps hash'
    simp [archiveChanges, hkeeps]

end

include hagrees hcollisions

/-- The inner loop. -/
lemma chainChild (h : Removing hashLock db₀ live gone s.db s.batch s.result) (nHeight : ℕ) (child : Uint256) :
    Removing hashLock db₀ live gone (chainChild hashLock nHeight s child).db (chainChild hashLock nHeight s child).batch
      (chainChild hashLock nHeight s child).result := by
  obtain ⟨cache, hget, hcache⟩ := hagrees.read_getByHash hcollisions h.tables child
  unfold CInstantSendDb.chainChild
  rw [hget]
  cases hlive : live child with
  | none => exact h.lookFor hcache hlive
  | some islock => exact h.removeLock hcache hagrees hlive nHeight

/-- The outer loop. -/
lemma chainLoop (nHeight turns : ℕ) (h : Removing hashLock db₀ live gone s.db s.batch s.result) :
    Removing hashLock db₀ live gone (chainLoop hashLock nHeight turns s).db (chainLoop hashLock nHeight turns s).batch
      (chainLoop hashLock nHeight turns s).result := by
  induction turns generalizing s with
  | zero => exact h
  | succ turns ih =>
    unfold CInstantSendDb.chainLoop
    split
    · exact h
    · refine ih (foldlRecOn
        (motive := fun s : ChainLoop Sig => Removing hashLock db₀ live gone s.db s.batch s.result) _ _ h ?_)
      exact fun s hs child _ => hs.chainChild hcollisions hagrees nHeight child

end

lemma writeBatch (h : Removing hashLock db₀ live gone db batch removed)
    (hagrees : Agrees hashLock locks db₀ live gone) :
    Agrees hashLock locks { db with tables := db.tables.writeBatch batch } (without live removed)
      (gone ∪ removed.toFinset) where
  tables := by
    rw [h.tables]
    exact h.after
  caches := ⟨h.caches.served, h.caches.hashed, h.caches.archived, h.caches.txid, h.caches.outpoint⟩
  stored hash islock hlive := hagrees.stored hash islock (of_without hlive)
  gone hash hgone := by
    unfold without
    split_ifs with hmem
    · rfl
    · obtain hgone | hgone := Finset.mem_union.mp hgone
      · exact hagrees.gone hash hgone
      · exact absurd (mem_toFinset.mp hgone) hmem

end Removing

section

variable (h : Agrees hashLock locks db live gone)

include h

lemma removing_nil : Removing hashLock db live gone db [] [] where
  tables := rfl
  after := h.tables
  caches := by
    rw [toFinset_nil, Finset.union_empty]
    exact h.caches
  archives _ hmem := absurd hmem not_mem_nil
  keeps _ := not_mem_nil

include hcollisions

lemma Agrees.removing_removeChained (islockHash txid : Uint256) (nHeight : ℕ) :
    ∃ db' batch, Removing hashLock db live gone db' batch
        (db.removeChainedInstantSendLocks hashLock islockHash txid nHeight).1 ∧
      (db.removeChainedInstantSendLocks hashLock islockHash txid nHeight).2 =
        { db' with tables := db'.tables.writeBatch batch } := by
  unfold removeChainedInstantSendLocks
  have hloop := Removing.chainLoop hcollisions h nHeight (db.tables.hashByOutpoint.entries.length + 1)
    (s := { db := db, stack := [txid] }) (removing_nil h)
  obtain ⟨cache, hget, hcache⟩ := h.read_getByHash hcollisions hloop.tables islockHash
  unfold removeInstantSendLock
  dsimp only
  rw [hget]
  cases hlive : live islockHash with
  | none => exact ⟨_, _, hloop.archiveMissing hcache hlive nHeight, rfl⟩
  | some islock => exact ⟨_, _, hloop.removeLock hcache h hlive nHeight, rfl⟩

/-- A given lock is removed. -/
lemma Agrees.removing_removeAndArchive (hmem : islock ∈ locks)
    (hshares : ∀ hash' islock', live hash' = some islock' → islock'.SharesKey islock → islock' = islock) (nHeight : ℕ) :
    ∃ db' batch, Removing hashLock db live gone db' batch [islock.serializeHash hashLock] ∧
      db.removeAndArchiveInstantSendLock hashLock islock nHeight =
        { db' with tables := db'.tables.writeBatch batch } := by
  refine ⟨db.forgetLock (islock.serializeHash hashLock) islock, _, (removing_nil h).eraseLock
    (fun hash' v hv => LruCache.lookup_erase.mp hv) (fun txid hash' hv => (LruCache.lookup_erase.mp hv).2)
    (fun o hash' hv => (LruCache.lookup_foldl_erase.mp hv).2) (by rfl) (fun islock' hlive => ?_)
    (fun hash' islock' hlive hkey => ?_) nHeight, rfl⟩
  · exact (h.stored _ islock' hlive).unique hcollisions hmem rfl
  · rw [← (h.stored hash' islock' hlive).hashed, hshares hash' islock' hlive hkey]

end

/-! ### The loop over chained locks ends -/

/-- The transactions of the locks that inputs lead to. -/
def targets (hashLock : SerializedLock Sig → Uint256) (t : IsTables Sig) : Finset Uint256 :=
  (t.hashByOutpoint.entries.filterMap fun e => (t.readLock hashLock e.2).map (·.txid)).toFinset

variable (hashLock t) in
lemma card_targets : (targets hashLock t).card ≤ t.hashByOutpoint.entries.length :=
  (toFinset_card_le _).trans (length_filterMap_le ..)

lemma exists_entry_of_byParent {parent child : Uint256}
    (h : child ∈ t.getInstantSendLocksByParent parent) : ∃ e ∈ t.hashByOutpoint.entries, e.2 = child := by
  obtain ⟨e, hmem, rfl⟩ := mem_map.mp h
  have hseek := (takeWhile_sublist _).subset hmem
  exact ⟨e, (dropWhile_sublist _).subset hseek, rfl⟩

/-- The loop is in order: it reads the tables it began with, and has put only transactions of their locks on the stack.
Those, and the one it began with, are on the stack or have been taken from it. -/
structure ChainOk (hashLock : SerializedLock Sig → Uint256) (t : IsTables Sig) (taken : ℕ) (s : ChainLoop Sig) :
    Prop where
  tables : s.db.tables = t
  added : s.added ⊆ targets hashLock t
  count : s.stack.length + taken = s.added.card + 1

section

variable {taken : ℕ} (h : ChainOk hashLock t taken s)

include h

lemma ChainOk.chainChild (nHeight : ℕ) {child : Uint256} (hchild : ∃ e ∈ t.hashByOutpoint.entries, e.2 = child) :
    ChainOk hashLock t taken (chainChild hashLock nHeight s child) := by
  have htables : (s.db.getInstantSendLockByHashInternal hashLock child false).2.tables = t :=
    (looked_getInstantSendLockByHashInternal s.db child false).tables.trans h.tables
  have hread : ∀ islock, (s.db.getInstantSendLockByHashInternal hashLock child false).1 = some islock →
      islock.txid ∈ targets hashLock t := by
    intro islock hfst
    by_cases hzero : child = 0
    · rw [hzero] at hfst
      cases hfst
    rw [getInstantSendLockByHashInternal_false hzero, h.tables] at hfst
    obtain ⟨e, hmem, rfl⟩ := hchild
    exact mem_toFinset.mpr (mem_filterMap.mpr ⟨e, hmem, Option.map_eq_some_iff.mpr ⟨islock, hfst, rfl⟩⟩)
  unfold CInstantSendDb.chainChild
  cases hget : s.db.getInstantSendLockByHashInternal hashLock child false with
  | mk islock db' =>
    rw [hget] at htables hread
    cases islock with
    | none => exact ⟨htables, h.added, h.count⟩
    | some islock =>
      refine ⟨htables, Finset.insert_subset (hread islock rfl) h.added, ?_⟩
      have hcount := h.count
      show (if islock.txid ∈ s.added then s.stack else islock.txid :: s.stack).length + taken =
        (insert islock.txid s.added).card + 1
      split_ifs with hmem
      · rw [Finset.insert_eq_of_mem hmem]
        exact hcount
      · rw [Finset.card_insert_of_notMem hmem, length_cons]
        omega

/-- The loop has ended when the number of turns is up: nothing is left on the stack. -/
lemma ChainOk.stack_chainLoop {turns : ℕ} (hturns : (targets hashLock t).card < turns + taken) :
    (CInstantSendDb.chainLoop hashLock nHeight turns s).stack = [] := by
  induction turns generalizing s taken with
  | zero =>
    have hcard := Finset.card_le_card h.added
    have hcount := h.count
    show s.stack = []
    exact length_eq_zero_iff.mp (by omega)
  | succ turns ih =>
    unfold CInstantSendDb.chainLoop
    split
    · assumption
    · next txid stack hstack =>
      have hcount := h.count
      rw [hstack, length_cons] at hcount
      have hpop : ChainOk hashLock t (taken + 1) { s with stack := stack } := ⟨h.tables, h.added, by dsimp only; omega⟩
      refine ih (foldlRecOn _ _ hpop fun s hs child hmem => hs.chainChild nHeight ?_) (by omega)
      rw [h.tables] at hmem
      exact exists_entry_of_byParent hmem

end

/-- The number of turns that `removeChainedInstantSendLocks` allows is enough. -/
theorem stack_removeChained (txid : Uint256) (nHeight : ℕ) :
    (chainLoop hashLock nHeight (db.tables.hashByOutpoint.entries.length + 1) { db := db, stack := [txid] }).stack =
      [] := by
  have hok : ChainOk hashLock db.tables 0 { db := db, stack := [txid] } := ⟨rfl, Finset.empty_subset _, rfl⟩
  have hcard := card_targets hashLock db.tables
  exact hok.stack_chainLoop (by omega)

end Blocx
