import Blocx.Lib.Overlay
import Blocx.Llmq.NonLockedTxs

/-!
# Tracked transactions

A transaction is tracked from `AddNonLockedTx` to `RemoveNonLockedTx`. The maps of the manager are consistent when every
tracked transaction has its entry, is a child of each of its parents and has each of its outputs mapped to a tracked
transaction that spends it (`MapsConsistent`).

Three calls break this. `AddNonLockedTx` of a transaction with tracked children finds the entry that was made for its
first child and leaves it without transaction, and without its inputs. `RemoveNonLockedTx` of a transaction with tracked
children removes the entry in which they are. And of two transactions that spend one output, the one that is removed
takes the output with it. A run keeps the maps consistent exactly if it has none of these calls (`CallOk`).

The maps are followed by what they are in a run without such calls (`Tracks`): an entry for each tracked transaction and
for each parent of one, with exactly the tracked children.
-/

namespace Blocx

open List Option

open NonLockedState

open Function NonLockedTxInfo

variable {Sig : Type} {calls : List TrackCall} {pindexMined : Option CBlockIndex} {vin : List CTxIn} {hash : Uint256}
  {retryChildren : Bool} {o : COutPoint}

/-- The transaction spends an output of another. -/
def CTransaction.SpendsFrom (tx : CTransaction) (hash : Uint256) : Prop := ∃ txin ∈ tx.vin, txin.prevout.hash = hash

/-- The transaction spends an output. -/
def CTransaction.Spends (tx : CTransaction) (o : COutPoint) : Prop := ∃ txin ∈ tx.vin, txin.prevout = o

/-- A call. -/
inductive TrackCall where
  | add (tx : CTransaction) (pindexMined : Option CBlockIndex)
  | remove (txid : Uint256) (retryChildren : Bool)

/-- What a call does to the manager. -/
def NonLockedState.call (s : NonLockedState Sig) : TrackCall → NonLockedState Sig
  | .add tx pindexMined => s.addNonLockedTx tx pindexMined
  | .remove txid retryChildren => s.removeNonLockedTx txid retryChildren

/-- What a call does to the transactions that are tracked, by their hashes. -/
def trackCall (tracked : Uint256 → Option CTransaction) : TrackCall → Uint256 → Option CTransaction
  | .add tx _ => update tracked tx.hash (some tx)
  | .remove txid _ => update tracked txid none

/-- The transactions that have been added and not removed since. -/
def trackedAfter (calls : List TrackCall) : Uint256 → Option CTransaction := calls.foldl trackCall fun _ => none

/-- Every tracked transaction is found in the maps. -/
structure MapsConsistent (s : NonLockedState Sig) (tracked : Uint256 → Option CTransaction) : Prop where
  entry : ∀ txid tx, tracked txid = some tx → ∃ info, s.nonLockedTxs txid = some info ∧ info.tx = some tx
  /-- It is a child of each transaction that it spends from. -/
  child : ∀ txid tx, tracked txid = some tx → ∀ txin ∈ tx.vin,
    ∃ info, s.nonLockedTxs txin.prevout.hash = some info ∧ txid ∈ info.children
  /-- Each output that it spends is mapped to a tracked transaction that spends it. -/
  outpoint : ∀ txid tx, tracked txid = some tx → ∀ txin ∈ tx.vin, ∃ spender tx',
    s.nonLockedTxsByOutpoints txin.prevout = some spender ∧ tracked spender = some tx' ∧ tx'.Spends txin.prevout

/-- The call keeps the maps consistent. -/
def CallOk (tracked : Uint256 → Option CTransaction) : TrackCall → Prop
  | .add tx _ => tracked tx.hash = none → ∀ txid tx', tracked txid = some tx' → ¬tx'.SpendsFrom tx.hash
  | .remove txid _ => ∀ txid' tx', txid' ≠ txid → tracked txid' = some tx' → ¬tx'.SpendsFrom txid ∧
      ∀ tx, tracked txid = some tx → ∀ o, tx.Spends o → ¬tx'.Spends o

/-! ### The maps in a run without trouble -/

/-- An entry is what it has to be for a hash. One that is missing counts as an empty one. -/
structure EntryTracks (tracked : Uint256 → Option CTransaction) (hash : Uint256) (entry : Option NonLockedTxInfo) :
    Prop where
  tx : (entry.getD {}).tx = tracked hash
  children : ∀ txid, txid ∈ (entry.getD {}).children ↔ ∃ tx, tracked txid = some tx ∧ tx.SpendsFrom hash
  nonempty : ∀ info, entry = some info → info.tx = none → info.children ≠ ∅

/-- The maps hold exactly what is tracked. -/
structure Tracks (s : NonLockedState Sig) (tracked : Uint256 → Option CTransaction) : Prop where
  entry : ∀ hash, EntryTracks tracked hash (s.nonLockedTxs hash)
  spender : ∀ o spender, s.nonLockedTxsByOutpoints o = some spender → ∃ tx, tracked spender = some tx ∧ tx.Spends o
  unspent : ∀ o, s.nonLockedTxsByOutpoints o = none → ∀ txid tx, tracked txid = some tx → ¬tx.Spends o

variable {s s' : NonLockedState Sig} {tracked : Uint256 → Option CTransaction} {txid : Uint256} {tx : CTransaction}

lemma tracks_nil : Tracks ({} : NonLockedState Sig) fun _ => none where
  entry _ := ⟨rfl, fun _ => by simp, nofun⟩
  spender _ _ h := by cases h
  unspent _ _ _ _ h := by cases h

section

variable (h : Tracks s tracked) {parent : Uint256}

include h

lemma Tracks.exists_entry (htx : tracked txid = some tx) :
    ∃ info, s.nonLockedTxs txid = some info ∧ info.tx = some tx := by
  have hentry := (h.entry txid).tx
  cases hinfo : s.nonLockedTxs txid with
  | none =>
    rw [hinfo, htx] at hentry
    cases hentry
  | some info =>
    rw [hinfo, htx] at hentry
    exact ⟨info, rfl, hentry⟩

lemma Tracks.exists_parent (htx : tracked txid = some tx) (hspends : tx.SpendsFrom parent) :
    ∃ info, s.nonLockedTxs parent = some info ∧ txid ∈ info.children := by
  have hchild := ((h.entry parent).children txid).mpr ⟨tx, htx, hspends⟩
  cases hinfo : s.nonLockedTxs parent with
  | none =>
    rw [hinfo] at hchild
    cases hchild
  | some info =>
    rw [hinfo] at hchild
    exact ⟨info, rfl, hchild⟩

lemma Tracks.eq_none (huntracked : tracked txid = none)
    (hchild : ∀ txid' tx', tracked txid' = some tx' → ¬tx'.SpendsFrom txid) : s.nonLockedTxs txid = none := by
  obtain ⟨htx, hchildren, hnonempty⟩ := h.entry txid
  refine Option.eq_none_iff_forall_ne_some.mpr fun info hinfo => ?_
  rw [hinfo] at htx hchildren
  refine hnonempty info hinfo (htx.trans huntracked) (Finset.eq_empty_iff_forall_notMem.mpr fun txid' hmem => ?_)
  obtain ⟨tx', htx', hspends⟩ := (hchildren txid').mp hmem
  exact hchild txid' tx' htx' hspends

lemma Tracks.consistent : MapsConsistent s tracked where
  entry _ _ htx := h.exists_entry htx
  child _ _ htx txin hmem := h.exists_parent htx ⟨txin, hmem, rfl⟩
  outpoint txid tx htx txin hmem := by
    cases hspender : s.nonLockedTxsByOutpoints txin.prevout with
    | none => exact absurd ⟨txin, hmem, rfl⟩ (h.unspent _ hspender txid tx htx)
    | some spender =>
      obtain ⟨tx', htx', hspends⟩ := h.spender _ spender hspender
      exact ⟨spender, tx', rfl, htx', hspends⟩

lemma Tracks.retries_children (htx : tracked txid = some tx) (hspends : tx.SpendsFrom parent) :
    txid ∈ (s.removeNonLockedTx parent true).pendingRetryTxs := by
  obtain ⟨info, hinfo, hchild⟩ := h.exists_parent htx hspends
  replace hchild : txid ∈ s.pendingRetryTxs ∪ info.children := Finset.mem_union_right _ hchild
  unfold removeNonLockedTx
  rw [hinfo]
  dsimp only
  cases info.tx with
  | none => exact hchild
  | some tx =>
    -- unregistering inputs keeps what is tried again
    exact foldlRecOn (motive := fun s : NonLockedState Sig => txid ∈ s.pendingRetryTxs) tx.vin _ hchild fun _ hs
      _ _ => hs

/-- When an output that is locked is spent by a tracked transaction, `ResolveBlockConflicts` comes to the transaction to
which the output is mapped. That one is tracked and spends the output, and is taken for a conflict if it is mined and is
not the locked one. -/
theorem Tracks.mem_blockConflicts {islock : CInstantSendLock Sig} (hmem : o ∈ islock.inputs)
    (htx : tracked txid = some tx) (hspends : tx.Spends o) :
    ∃ spender tx', s.nonLockedTxsByOutpoints o = some spender ∧ tracked spender = some tx' ∧ tx'.Spends o ∧
      ∃ info, s.nonLockedTxs spender = some info ∧ info.tx = some tx' ∧
        (spender ≠ islock.txid → ∀ pindexMined, info.pindexMined = some pindexMined →
          (pindexMined, spender, tx') ∈ s.blockConflicts islock) := by
  obtain ⟨txin, htxin, rfl⟩ := hspends
  obtain ⟨spender, tx', hspender, htx', hspends'⟩ := h.consistent.outpoint txid tx htx txin htxin
  obtain ⟨info, hinfo, hinfoTx⟩ := h.exists_entry htx'
  refine ⟨spender, tx', hspender, htx', hspends', info, hinfo, hinfoTx, fun hne pindexMined hmined => ?_⟩
  refine mem_filterMap.mpr ⟨_, hmem, ?_⟩
  rw [hspender]
  dsimp only
  rw [if_neg hne, hinfo]
  dsimp only
  rw [hmined, hinfoTx]

end

/-! ### The loops over the inputs -/

lemma spendsFrom_iff : tx.SpendsFrom hash ↔ hash ∈ tx.vin.map (·.prevout.hash) :=
  mem_map.symm

lemma spends_iff : tx.Spends o ↔ o ∈ tx.vin.map (·.prevout) := mem_map.symm

lemma nonLockedTxs_registerInputs : (vin.foldl (registerInput txid) s).nonLockedTxs hash =
      if hash ∈ vin.map (·.prevout.hash) then
        some { (s.nonLockedTxs hash).getD {} with children := insert txid ((s.nonLockedTxs hash).getD {}).children }
      else s.nonLockedTxs hash := by
  refine foldl_at_keys nonLockedTxs (fun txin : CTxIn => txin.prevout.hash)
    (fun info => some { info.getD {} with children := insert txid (info.getD {}).children }) (by simp) ?_ ..
  intro s txin hash
  simp only [registerInput]
  by_cases heq : hash = txin.prevout.hash
  · subst heq
    simp
  · simp [heq]

lemma byOutpoints_registerInputs : (vin.foldl (registerInput txid) s).nonLockedTxsByOutpoints o =
      if o ∈ vin.map (·.prevout) then some ((s.nonLockedTxsByOutpoints o).getD txid)
      else s.nonLockedTxsByOutpoints o := by
  refine foldl_at_keys nonLockedTxsByOutpoints CTxIn.prevout (fun spender => some (spender.getD txid)) (by simp) ?_ ..
  intro s txin o
  unfold registerInput
  by_cases heq : o = txin.prevout
  · subst heq
    rw [if_pos rfl]
    cases hspender : s.nonLockedTxsByOutpoints txin.prevout with
    | none => exact update_self ..
    | some spender => exact hspender
  · rw [if_neg heq]
    cases s.nonLockedTxsByOutpoints txin.prevout with
    | none => exact update_of_ne heq ..
    | some spender => rfl

/-- An entry without a child, if anything is left of it. -/
def NonLockedTxInfo.dropChild (txid : Uint256) (info : NonLockedTxInfo) : Option NonLockedTxInfo :=
  if info.tx.isNone ∧ info.children.erase txid = ∅ then none
  else some { info with children := info.children.erase txid }

lemma bind_dropChild (info : Option NonLockedTxInfo) :
    (info.bind (dropChild txid)).bind (dropChild txid) = info.bind (dropChild txid) := by
  cases info with
  | none => rfl
  | some info =>
    rw [bind_some]
    unfold dropChild
    split_ifs with hempty
    · rfl
    · rw [bind_some]
      rw [Finset.erase_idem, if_neg hempty]

lemma nonLockedTxs_unregisterInputs : (vin.foldl (unregisterInput txid) s).nonLockedTxs hash =
      if hash ∈ vin.map (·.prevout.hash) then (s.nonLockedTxs hash).bind (dropChild txid)
      else s.nonLockedTxs hash := by
  refine foldl_at_keys nonLockedTxs (fun txin : CTxIn => txin.prevout.hash)
    (·.bind (dropChild txid)) bind_dropChild ?_ ..
  intro s txin hash
  unfold unregisterInput
  by_cases heq : hash = txin.prevout.hash
  · subst heq
    rw [if_pos rfl]
    cases hinfo : s.nonLockedTxs txin.prevout.hash with
    | none => exact hinfo
    | some info =>
      rw [bind_some, dropChild]
      dsimp only
      split_ifs
      · exact update_self ..
      · exact update_self ..
  · rw [if_neg heq]
    cases s.nonLockedTxs txin.prevout.hash with
    | none => rfl
    | some info =>
      dsimp only
      split_ifs
      · exact update_of_ne heq ..
      · exact update_of_ne heq ..

lemma byOutpoints_unregisterInputs : (vin.foldl (unregisterInput txid) s).nonLockedTxsByOutpoints o =
      if o ∈ vin.map (·.prevout) then none else s.nonLockedTxsByOutpoints o := by
  refine foldl_at_keys nonLockedTxsByOutpoints CTxIn.prevout (fun _ => none) (fun _ => rfl) ?_ ..
  intro s txin o
  simp [unregisterInput, update_apply]

lemma getD_bind_dropChild {entry : Option NonLockedTxInfo} :
    ((entry.bind (dropChild txid)).getD {}).tx = (entry.getD {}).tx ∧
      ((entry.bind (dropChild txid)).getD {}).children = (entry.getD {}).children.erase txid := by
  cases entry with
  | none => exact ⟨rfl, rfl⟩
  | some info =>
    rw [bind_some]
    unfold dropChild
    split_ifs with hempty
    · exact ⟨(isNone_iff_eq_none.mp hempty.1).symm, hempty.2.symm⟩
    · exact ⟨rfl, rfl⟩

/-! ### Steps -/

lemma maps_restorePending (s : NonLockedState Sig) : (s.restorePending txid).nonLockedTxs = s.nonLockedTxs ∧
      (s.restorePending txid).nonLockedTxsByOutpoints = s.nonLockedTxsByOutpoints := by
  unfold restorePending
  split
  · exact ⟨rfl, rfl⟩
  · exact ⟨rfl, rfl⟩

lemma update_eq_some_iff (hnew : tracked tx.hash = none) {tx' : CTransaction} :
    update tracked tx.hash (some tx) txid = some tx' ↔ txid = tx.hash ∧ tx' = tx ∨ tracked txid = some tx' := by
  by_cases heq : txid = tx.hash
  · subst heq
    rw [update_self, hnew, some.injEq]
    simp [eq_comm]
  · simp [heq]

lemma exists_child_update_iff (hnew : tracked tx.hash = none) :
    (∃ tx', update tracked tx.hash (some tx) txid = some tx' ∧ tx'.SpendsFrom hash) ↔
      txid = tx.hash ∧ tx.SpendsFrom hash ∨ ∃ tx', tracked txid = some tx' ∧ tx'.SpendsFrom hash := by
  simp only [update_eq_some_iff hnew, or_and_right, exists_or]
  refine or_congr_left ⟨?_, fun ⟨heq, hspends⟩ => ⟨tx, ⟨heq, rfl⟩, hspends⟩⟩
  rintro ⟨_, ⟨heq, rfl⟩, hspends⟩
  exact ⟨heq, hspends⟩

/-- The maps after a tracked transaction is removed. -/
lemma maps_removeNonLockedTx {info : NonLockedTxInfo} (hinfo : s.nonLockedTxs txid = some info)
    (htx : info.tx = some tx) :
    (∀ hash, (s.removeNonLockedTx txid retryChildren).nonLockedTxs hash =
      if hash = txid then none
      else if hash ∈ tx.vin.map (·.prevout.hash) then (s.nonLockedTxs hash).bind (dropChild txid)
      else s.nonLockedTxs hash) ∧
    ∀ o, (s.removeNonLockedTx txid retryChildren).nonLockedTxsByOutpoints o =
      if o ∈ tx.vin.map (·.prevout) then none else s.nonLockedTxsByOutpoints o := by
  have hretry : ∀ s' : NonLockedState Sig, s' = (if retryChildren then
      { s with pendingRetryTxs := s.pendingRetryTxs ∪ info.children } else s) →
      s'.nonLockedTxs = s.nonLockedTxs ∧ s'.nonLockedTxsByOutpoints = s.nonLockedTxsByOutpoints := by
    rintro s' rfl
    split_ifs
    · exact ⟨rfl, rfl⟩
    · exact ⟨rfl, rfl⟩
  unfold removeNonLockedTx
  rw [hinfo]
  dsimp only
  rw [htx]
  refine ⟨fun hash => ?_, fun o => ?_⟩
  · by_cases heq : hash = txid
    · rw [heq, update_self, if_pos rfl]
    · rw [update_of_ne heq, if_neg heq, nonLockedTxs_unregisterInputs, (hretry _ rfl).1]
  · rw [byOutpoints_unregisterInputs, (hretry _ rfl).2]

section

variable (h : Tracks s tracked)

include h

lemma Tracks.restorePending : Tracks (s.restorePending txid) tracked := by
  obtain ⟨hentries, houtpoints⟩ := maps_restorePending s
  exact ⟨hentries ▸ h.entry, houtpoints ▸ h.spender, houtpoints ▸ h.unspent⟩

lemma Tracks.add_tracked (htx : tracked tx.hash = some tx) :
    Tracks (s.addNonLockedTx tx pindexMined) (trackCall tracked (.add tx pindexMined)) := by
  have htracked : trackCall tracked (.add tx pindexMined) = tracked :=
    update_eq_self_iff.mpr htx.symm
  obtain ⟨info, hinfo, -⟩ := h.exists_entry htx
  unfold addNonLockedTx
  rw [htracked, hinfo]
  refine Tracks.restorePending ⟨fun hash => ?_, h.spender, h.unspent⟩
  have hentry := h.entry hash
  dsimp only
  by_cases heq : hash = tx.hash
  · -- the same transaction and the same children
    subst heq
    rw [hinfo] at hentry
    rw [update_self]
    refine ⟨hentry.tx, hentry.children, fun info' hinfo' => ?_⟩
    obtain rfl := some.inj hinfo'
    exact hentry.nonempty info rfl
  · rwa [update_of_ne heq]

lemma Tracks.add_new (hnew : tracked tx.hash = none)
    (hchild : ∀ txid tx', tracked txid = some tx' → ¬tx'.SpendsFrom tx.hash) :
    Tracks (s.addNonLockedTx tx pindexMined) (trackCall tracked (.add tx pindexMined)) := by
  unfold addNonLockedTx trackCall
  rw [h.eq_none hnew hchild]
  refine Tracks.restorePending ⟨fun hash => ?_, fun o spender hspender => ?_, fun o hunspent txid tx' htx' => ?_⟩
  · rw [nonLockedTxs_registerInputs]
    obtain ⟨htx, hchildren, hnonempty⟩ := h.entry hash
    dsimp only
    -- the entry before the inputs are entered
    obtain ⟨entry, hentry⟩ : ∃ entry, entry = update s.nonLockedTxs tx.hash
        (some { pindexMined := pindexMined, tx := some tx }) hash := ⟨_, rfl⟩
    obtain ⟨htx', hchildren', hnonempty'⟩ : (entry.getD {}).tx = update tracked tx.hash (some tx) hash ∧
        (∀ txid, txid ∈ (entry.getD {}).children ↔ ∃ tx', tracked txid = some tx' ∧ tx'.SpendsFrom hash) ∧
        ∀ info, entry = some info → info.tx = none → info.children ≠ ∅ := by
      by_cases heq : hash = tx.hash
      · rw [heq, update_self] at hentry
        rw [hentry, heq, update_self]
        refine ⟨rfl, fun txid => iff_of_false (Finset.notMem_empty txid) ?_, ?_⟩
        · rintro ⟨tx', htx', hspends⟩
          exact hchild txid tx' htx' hspends
        · intro info hinfo hnone
          obtain rfl := some.inj hinfo
          cases hnone
      · rw [hentry, update_of_ne heq, update_of_ne heq]
        exact ⟨htx, hchildren, hnonempty⟩
    rw [← hentry]
    split_ifs with hspends <;> rw [← spendsFrom_iff] at hspends
    · refine ⟨htx', fun txid => ?_, fun info hinfo _ => ?_⟩
      · rw [exists_child_update_iff hnew, and_iff_left hspends, ← hchildren']
        exact Finset.mem_insert
      · obtain rfl := some.inj hinfo
        exact Finset.insert_ne_empty tx.hash _
    · refine ⟨htx', fun txid => ?_, hnonempty'⟩
      rw [exists_child_update_iff hnew, or_iff_right fun h => hspends h.2, hchildren']
  · rw [byOutpoints_registerInputs] at hspender
    simp only [update_eq_some_iff hnew]
    split_ifs at hspender with hspends <;> rw [← spends_iff] at hspends
    · cases hold : s.nonLockedTxsByOutpoints o with
      | none =>
        rw [hold] at hspender
        obtain rfl := some.inj hspender
        exact ⟨tx, .inl ⟨rfl, rfl⟩, hspends⟩
      | some spender' =>
        rw [hold] at hspender
        obtain rfl := some.inj hspender
        obtain ⟨tx', htx', hspends'⟩ := h.spender o _ hold
        exact ⟨tx', .inr htx', hspends'⟩
    · obtain ⟨tx', htx', hspends'⟩ := h.spender o spender hspender
      exact ⟨tx', .inr htx', hspends'⟩
  · rw [byOutpoints_registerInputs] at hunspent
    split_ifs at hunspent with hspends
    rw [← spends_iff] at hspends
    obtain ⟨-, rfl⟩ | htx' := (update_eq_some_iff hnew).mp htx'
    · exact hspends
    · exact h.unspent o hunspent txid tx' htx'

/-- A transaction goes, when no other tracked one spends from it or spends what it spends. -/
lemma Tracks.remove (hok : CallOk tracked (.remove txid retryChildren)) :
    Tracks (s.removeNonLockedTx txid retryChildren) (trackCall tracked (.remove txid retryChildren)) := by
  unfold trackCall
  dsimp only
  cases htx : tracked txid with
  | none =>
    have hchild : ∀ txid' tx', tracked txid' = some tx' → ¬tx'.SpendsFrom txid := fun txid' tx' htx' =>
      (hok txid' tx' (by rintro rfl; rw [htx] at htx'; cases htx') htx').1
    have hsame : update tracked txid none = tracked := update_eq_self_iff.mpr htx.symm
    unfold removeNonLockedTx
    rw [h.eq_none htx hchild, hsame]
    exact h
  | some tx =>
    obtain ⟨info, hinfo, hinfoTx⟩ := h.exists_entry htx
    obtain ⟨hentries, houtpoints⟩ := maps_removeNonLockedTx hinfo hinfoTx
    refine ⟨fun hash => ?_, fun o spender hspender => ?_, fun o hunspent txid' tx' htx' hspends => ?_⟩
    · rw [hentries]
      have hchild : ∀ txid', (∃ tx', update tracked txid none txid' = some tx' ∧ tx'.SpendsFrom hash) ↔
          txid' ≠ txid ∧ ∃ tx', tracked txid' = some tx' ∧ tx'.SpendsFrom hash := by
        intro txid'
        simp only [update_none_eq_some_iff, and_assoc, exists_and_left]
      obtain ⟨holdTx, hchildren, hnonempty⟩ := h.entry hash
      by_cases heq : hash = txid
      · -- no other transaction is a child of this one
        subst heq
        rw [if_pos rfl]
        refine ⟨by rw [update_self]; rfl, fun txid' => ?_, nofun⟩
        refine iff_of_false (Finset.notMem_empty _) fun hexists => ?_
        obtain ⟨hne, tx', htx', hspends⟩ := (hchild txid').mp hexists
        exact (hok txid' tx' hne htx').1 hspends
      · split_ifs with hparent
        · obtain ⟨hdropTx, hdropChildren⟩ := getD_bind_dropChild
          refine ⟨?_, fun txid' => ?_, fun info' hinfo' hnoTx => ?_⟩
          · rw [hdropTx, update_of_ne heq, holdTx]
          · rw [hdropChildren, Finset.mem_erase, hchild, hchildren]
          · obtain ⟨info₀, -, hdrop⟩ := bind_eq_some_iff.mp hinfo'
            unfold dropChild at hdrop
            split_ifs at hdrop with hempty
            obtain rfl := some.inj hdrop
            exact fun hnil => hempty ⟨isNone_iff_eq_none.mpr hnoTx, hnil⟩
        · rw [← spendsFrom_iff] at hparent
          refine ⟨?_, fun txid' => ?_, hnonempty⟩
          · rw [update_of_ne heq, holdTx]
          · rw [hchild, hchildren, iff_and_self]
            rintro ⟨tx', htx', hspends⟩ rfl
            rw [htx] at htx'
            obtain rfl := some.inj htx'
            exact hparent hspends
    · rw [houtpoints] at hspender
      split_ifs at hspender with hspends
      rw [← spends_iff] at hspends
      obtain ⟨tx', htx', hspends'⟩ := h.spender o spender hspender
      refine ⟨tx', update_none_eq_some_iff.mpr ⟨?_, htx'⟩, hspends'⟩
      rintro rfl
      rw [htx] at htx'
      obtain rfl := some.inj htx'
      exact hspends hspends'
    · rw [houtpoints] at hunspent
      obtain ⟨hne, htx'⟩ := update_none_eq_some_iff.mp htx'
      split_ifs at hunspent with hspends'
      · exact (hok txid' tx' hne htx').2 tx htx o (spends_iff.mpr hspends') hspends
      · exact h.unspent o hunspent txid' tx' htx' hspends

/-! ### Calls that break the maps -/

/-- The entry of a transaction that is not tracked does not get the transaction. -/
lemma Tracks.not_consistent_add (hbad : ¬CallOk tracked (.add tx pindexMined)) :
    ¬MapsConsistent (s.addNonLockedTx tx pindexMined) (trackCall tracked (.add tx pindexMined)) := by
  intro hconsistent
  simp only [CallOk, not_forall, not_not] at hbad
  obtain ⟨hnew, txid, tx', htx', hspends⟩ := hbad
  obtain ⟨info, hinfo, -⟩ := h.exists_parent htx' hspends
  have hnoTx : info.tx = none := by
    have hentry := (h.entry tx.hash).tx
    rw [hinfo, hnew] at hentry
    exact hentry
  obtain ⟨info', hinfo', htx⟩ := hconsistent.entry tx.hash tx (update_self ..)
  unfold addNonLockedTx at hinfo'
  rw [(maps_restorePending ..).1, hinfo] at hinfo'
  dsimp only at hinfo'
  rw [update_self] at hinfo'
  obtain rfl := some.inj hinfo'
  rw [show _ = none from hnoTx] at htx
  cases htx

/-- The children of a transaction lose its entry, and other spenders of its outputs lose their place. -/
lemma Tracks.not_consistent_remove (hbad : ¬CallOk tracked (.remove txid retryChildren)) :
    ¬MapsConsistent (s.removeNonLockedTx txid retryChildren) (trackCall tracked (.remove txid retryChildren)) := by
  intro hconsistent
  simp only [CallOk, not_forall] at hbad
  obtain ⟨txid', tx', hne, htx', hbad⟩ := hbad
  have htracked : trackCall tracked (.remove txid retryChildren) txid' = some tx' :=
    update_none_eq_some_iff.mpr ⟨hne, htx'⟩
  by_cases hspends : tx'.SpendsFrom txid
  · obtain ⟨info, hinfo, -⟩ := h.exists_parent htx' hspends
    obtain ⟨txin, hmem, rfl⟩ := hspends
    obtain ⟨info', hinfo', -⟩ := hconsistent.child txid' tx' htracked txin hmem
    unfold removeNonLockedTx at hinfo'
    rw [hinfo] at hinfo'
    dsimp only at hinfo'
    rw [update_self] at hinfo'
    cases hinfo'
  · simp only [hspends, not_false_eq_true, true_and, not_forall, not_not] at hbad
    obtain ⟨tx, htx, o, hspendsTx, txin, hmem, rfl⟩ := hbad
    obtain ⟨info, hinfo, hinfoTx⟩ := h.exists_entry htx
    obtain ⟨spender, -, hspender, -⟩ := hconsistent.outpoint txid' tx' htracked txin hmem
    rw [(maps_removeNonLockedTx hinfo hinfoTx).2, if_pos (spends_iff.mp hspendsTx)] at hspender
    cases hspender

end

/-! ### Runs -/

/-- The manager after calls, from the start. -/
def managerAfter (Sig : Type) (calls : List TrackCall) : NonLockedState Sig := calls.foldl call {}

lemma managerAfter_append {call : TrackCall} :
    managerAfter Sig (calls ++ [call]) = (managerAfter Sig calls).call call := foldl_concat ..

lemma trackedAfter_append {call : TrackCall} :
    trackedAfter (calls ++ [call]) = trackCall (trackedAfter calls) call := foldl_concat ..

lemma exists_add_of_tracked (h : trackedAfter calls txid = some tx) :
    tx.hash = txid ∧ ∃ pindexMined, .add tx pindexMined ∈ calls := by
  induction calls using reverseRecOn generalizing txid tx with
  | nil => cases h
  | append_singleton calls call ih =>
    rw [trackedAfter_append] at h
    have hold : trackedAfter calls txid = some tx → tx.hash = txid ∧
        ∃ pindexMined, .add tx pindexMined ∈ calls ++ [call] := by
      intro h
      obtain ⟨hhash, pindexMined, hmem⟩ := ih h
      exact ⟨hhash, pindexMined, mem_append_left _ hmem⟩
    cases call with
    | add tx' pindexMined =>
      obtain ⟨rfl, rfl⟩ | ⟨-, h⟩ := update_some_eq_some_iff.mp h
      · exact ⟨rfl, pindexMined, mem_append_right _ (mem_singleton_self _)⟩
      · exact hold h
    | remove txid' retryChildren => exact hold (update_none_eq_some_iff.mp h).2

/-- A hash belongs to one transaction. -/
def SameTxs (calls : List TrackCall) : Prop :=
  ∀ tx pindexMined tx' pindexMined', .add tx pindexMined ∈ calls → .add tx' pindexMined' ∈ calls →
    tx.hash = tx'.hash → tx = tx'

lemma SameTxs.of_prefix {calls' : List TrackCall} (h : SameTxs calls) (hinit : calls' <+: calls) :
    SameTxs calls' := fun tx pindexMined tx' pindexMined' hmem hmem' =>
  h tx pindexMined tx' pindexMined' (hinit.subset hmem) (hinit.subset hmem')

lemma Tracks.call {call : TrackCall} (h : Tracks s (trackedAfter calls))
    (hsame : SameTxs (calls ++ [call])) (hok : CallOk (trackedAfter calls) call) :
    Tracks (s.call call) (trackCall (trackedAfter calls) call) := by
  cases call with
  | add tx pindexMined =>
    cases htracked : trackedAfter calls tx.hash with
    | none => exact h.add_new htracked (hok htracked)
    | some tx' =>
      obtain ⟨hhash, pindexMined', hmem⟩ := exists_add_of_tracked htracked
      obtain rfl := hsame tx' pindexMined' tx pindexMined (mem_append_left _ hmem)
        (mem_append_right _ (mem_singleton_self _)) hhash
      exact h.add_tracked htracked
  | remove txid retryChildren => exact h.remove hok

lemma Tracks.not_consistent (h : Tracks s tracked) {call : TrackCall} (hbad : ¬CallOk tracked call) :
    ¬MapsConsistent (s.call call) (trackCall tracked call) := by
  cases call with
  | add tx pindexMined => exact h.not_consistent_add hbad
  | remove txid retryChildren => exact h.not_consistent_remove hbad

/-- All calls of a run keep the maps consistent. -/
def CallsOk (calls : List TrackCall) : Prop :=
  ∀ before call, before ++ [call] <+: calls → CallOk (trackedAfter before) call

lemma callsOk_nil : CallsOk [] := fun before call hinit =>
  absurd (prefix_nil.mp hinit) (append_ne_nil_of_right_ne_nil before (cons_ne_nil call []))

lemma callsOk_append (calls : List TrackCall) (call : TrackCall) :
    CallsOk (calls ++ [call]) ↔ CallsOk calls ∧ CallOk (trackedAfter calls) call := by
  constructor
  · intro hok
    exact ⟨fun before call h => hok before call (h.trans (prefix_append ..)), hok calls call prefix_rfl⟩
  · rintro ⟨hok, hlast⟩ before call' hinit
    obtain heq | hinit := prefix_concat_iff.mp hinit
    · obtain ⟨rfl, hcall⟩ := append_inj' heq rfl
      obtain rfl := head_eq_of_cons_eq hcall
      exact hlast
    · exact hok before call' hinit

/-- In a run without trouble the maps hold exactly what is tracked. -/
lemma tracks_managerAfter (hsame : SameTxs calls) (hok : CallsOk calls) :
    Tracks (managerAfter Sig calls) (trackedAfter calls) := by
  induction calls using reverseRecOn with
  | nil => exact tracks_nil
  | append_singleton calls call ih =>
    rw [managerAfter_append, trackedAfter_append]
    obtain ⟨hbefore, hlast⟩ := (callsOk_append calls call).mp hok
    exact (ih (hsame.of_prefix (prefix_append ..)) hbefore).call hsame hlast

/-- The maps are consistent at every point of a run exactly if all its calls keep them so. -/
theorem consistent_iff_callsOk {calls : List TrackCall} (hsame : SameTxs calls) :
    (∀ before, before <+: calls → MapsConsistent (managerAfter Sig before) (trackedAfter before)) ↔ CallsOk calls := by
  constructor
  · intro hconsistent
    induction calls using reverseRecOn with
    | nil => exact callsOk_nil
    | append_singleton calls call ih =>
      have hinit : calls <+: calls ++ [call] := prefix_append ..
      have hok : CallsOk calls := ih (hsame.of_prefix hinit) fun before h => hconsistent before (h.trans hinit)
      refine (callsOk_append calls call).mpr ⟨hok, not_not.mp fun hbad => ?_⟩
      have htracks : Tracks (managerAfter Sig calls) (trackedAfter calls) :=
        tracks_managerAfter (hsame.of_prefix hinit) hok
      refine htracks.not_consistent hbad ?_
      rw [← managerAfter_append, ← trackedAfter_append]
      exact hconsistent _ prefix_rfl
  · intro hok before hinit
    exact (tracks_managerAfter (hsame.of_prefix hinit) fun b call h => hok b call (h.trans hinit)).consistent

/-- In a run without trouble, when a transaction is locked, all its tracked children are tried again. -/
theorem retries_children_managerAfter {calls : List TrackCall} {parent : Uint256} (hsame : SameTxs calls)
    (hok : CallsOk calls) (htx : trackedAfter calls txid = some tx) (hspends : tx.SpendsFrom parent) :
    txid ∈ ((managerAfter Sig calls).removeNonLockedTx parent true).pendingRetryTxs :=
  (tracks_managerAfter hsame hok).retries_children htx hspends

def toySpender (hash : Uint256) (parents : List Uint256) : CTransaction where
  hash := hash
  nVersion := 1
  nType := .normal
  vin := parents.map fun parent => { prevout := ⟨parent, 0⟩ }
  vout := []

/-- A parent comes, then a child in a block. -/
def toyChild : List TrackCall := [.add (toySpender 1 [9]) none, .add (toySpender 2 [1]) (some ⟨{}, []⟩)]

def toyCalls : List TrackCall := toyChild ++ [.remove 2 false]

lemma mem_toyCalls (h : .add tx pindexMined ∈ toyCalls) : tx = toySpender 1 [9] ∨ tx = toySpender 2 [1] := by
  obtain _ | ⟨_, _ | ⟨_, _ | ⟨_, h⟩⟩⟩ := h
  · exact .inl rfl
  · exact .inr rfl
  · cases h

lemma callsOk_toyCalls : CallsOk toyCalls := by
  have htracked : ∀ calls, calls <+: toyCalls → ∀ txid tx, trackedAfter calls txid = some tx →
      tx.hash = txid ∧ (tx = toySpender 1 [9] ∨ tx = toySpender 2 [1]) := by
    intro calls hinit txid tx htx
    obtain ⟨hhash, pindexMined, hmem⟩ := exists_add_of_tracked htx
    exact ⟨hhash, mem_toyCalls (hinit.subset hmem)⟩
  have hspends : ¬(toySpender 1 [9]).SpendsFrom 2 ∧ ¬(toySpender 2 [1]).SpendsFrom 2 := by
    unfold CTransaction.SpendsFrom
    decide
  refine (callsOk_append [_, _] _).mpr ⟨(callsOk_append [_] _).mpr ⟨(callsOk_append [] _).mpr ⟨callsOk_nil, ?_⟩,
    ?_⟩, ?_⟩
  · intro _ txid tx htx
    cases htx
  · intro _ txid tx htx
    obtain ⟨-, rfl | rfl⟩ := htracked [_] ⟨[_, _], rfl⟩ txid tx htx
    · exact hspends.1
    · exact hspends.2
  · intro txid tx hne htx
    obtain ⟨hhash, rfl | rfl⟩ := htracked _ ⟨_, rfl⟩ txid tx htx
    · refine ⟨hspends.1, fun tx htx o hspends hspends' => ?_⟩
      obtain rfl := some.inj htx
      obtain ⟨txin, hmem, rfl⟩ := hspends
      obtain ⟨txin', hmem', heq⟩ := hspends'
      obtain rfl := mem_singleton.mp hmem
      obtain rfl := mem_singleton.mp hmem'
      exact absurd heq (by decide)
    · exact absurd hhash.symm hne

lemma sameTxs_toyCalls : SameTxs toyCalls := by
  intro tx _ tx' _ h h' hhash
  obtain rfl | rfl := mem_toyCalls h
  · obtain rfl | rfl := mem_toyCalls h'
    · rfl
    · exact absurd hhash (by decide)
  · obtain rfl | rfl := mem_toyCalls h'
    · exact absurd hhash (by decide)
    · rfl

theorem consistent_iff_callsOk_toyCalls :
    CallsOk toyCalls ∧ MapsConsistent (managerAfter ℤ toyCalls) (trackedAfter toyCalls) :=
  ⟨callsOk_toyCalls, (consistent_iff_callsOk sameTxs_toyCalls).mpr callsOk_toyCalls _ prefix_rfl⟩

lemma sameTxs_toyChild : SameTxs toyChild := sameTxs_toyCalls.of_prefix (prefix_append ..)

lemma callsOk_toyChild : CallsOk toyChild := ((callsOk_append _ _).mp callsOk_toyCalls).1

theorem retries_children_toyChild : 2 ∈ ((managerAfter ℤ toyChild).removeNonLockedTx 1 true).pendingRetryTxs :=
  retries_children_managerAfter sameTxs_toyChild callsOk_toyChild
    (show trackedAfter toyChild 2 = some (toySpender 2 [1]) from rfl) ⟨_, mem_cons_self, rfl⟩

/-- The child in a block is a conflict with the lock of another transaction. -/
theorem mem_blockConflicts_toyChild : (⟨{}, []⟩, 2, toySpender 2 [1]) ∈
    (managerAfter ℤ toyChild).blockConflicts (⟨1, [⟨1, 0⟩], 7, 0, none⟩ : CInstantSendLock ℤ) := by
  have htracks : Tracks (managerAfter ℤ toyChild) (trackedAfter toyChild) :=
    tracks_managerAfter sameTxs_toyChild callsOk_toyChild
  obtain ⟨spender, tx, hspender, htx, -, info, hinfo, -, hconflict⟩ :=
    htracks.mem_blockConflicts
      (show ⟨1, 0⟩ ∈ (⟨1, [⟨1, 0⟩], 7, 0, none⟩ : CInstantSendLock ℤ).inputs from mem_cons_self)
      (show trackedAfter toyChild 2 = some (toySpender 2 [1]) from rfl) ⟨_, mem_cons_self, rfl⟩
  obtain rfl : 2 = spender := some.inj hspender
  obtain rfl : toySpender 2 [1] = tx := some.inj htx
  have hmined : ((managerAfter ℤ toyChild).nonLockedTxs 2).bind (·.pindexMined) = some ⟨{}, []⟩ := by decide
  rw [hinfo] at hmined
  exact hconflict (by decide) _ hmined

/-- A parent that comes after its child, a parent that goes before its child, and one of two transactions that spend one
output. -/
theorem not_consistent_toySpender :
    ¬MapsConsistent (managerAfter ℤ [.add (toySpender 2 [1]) none, .add (toySpender 1 [9]) none])
      (trackedAfter [.add (toySpender 2 [1]) none, .add (toySpender 1 [9]) none]) ∧
    ¬MapsConsistent (managerAfter ℤ [.add (toySpender 1 [9]) none, .add (toySpender 2 [1]) none, .remove 1 true])
      (trackedAfter [.add (toySpender 1 [9]) none, .add (toySpender 2 [1]) none, .remove 1 true]) ∧
    ¬MapsConsistent (managerAfter ℤ [.add (toySpender 1 [9]) none, .add (toySpender 2 [9]) none, .remove 1 false])
      (trackedAfter [.add (toySpender 1 [9]) none, .add (toySpender 2 [9]) none, .remove 1 false]) := by
  refine ⟨fun h => ?_, fun h => ?_, fun h => ?_⟩
  · obtain ⟨info, hinfo, htx⟩ := h.entry 1 (toySpender 1 [9]) (by decide)
    have hentry : ((managerAfter ℤ [.add (toySpender 2 [1]) none, .add (toySpender 1 [9]) none]).nonLockedTxs 1).bind
        (·.tx) = none := by decide
    rw [hinfo, bind_some, htx] at hentry
    cases hentry
  · obtain ⟨info, hinfo, -⟩ := h.child 2 (toySpender 2 [1]) (by decide) _ mem_cons_self
    cases hinfo
  · obtain ⟨spender, -, hspender, -⟩ := h.outpoint 2 (toySpender 2 [9]) (by decide) _ mem_cons_self
    cases hspender

end Blocx
