import Blocx.Evo.DmnListInvariant
import Blocx.Evo.DmnWire

/-!
# Differences of lists

`CDeterministicMNListDiff` with its serialisation, `BuildDiff` and `ApplyDiff` (`evo/deterministicmns.h`,
`evo/deterministicmns.cpp`). A difference is the masternodes that were added, the differences of states of those that
were updated and the internal ids of those that were removed. The updates are in an unordered map, so the order in which
they are written or applied is not determined: it is an argument here, any permutation of the entries.

`Follows` is the relation between two lists under which the difference from one to the other can be applied. A
difference is applied in the order removals, additions, updates, and in the middle of that the list mixes masternodes of
both lists. No property is held twice in such a mixture exactly because no masternode of the new list has a property
that another one, still listed, had in the old list.
-/

namespace Blocx

open Option hiding map_map mem_map

open List

open Wire CDeterministicMNList CDeterministicMNStateDiff

variable {G : Type} {n : ℕ} {x : Uint256} {crypto : Crypto G}

@[ext]
structure CDeterministicMNListDiff (G : Type) where
  /-- Height, in memory only. -/
  nHeight : ℤ := -1
  addedMNs : List (CDeterministicMN G) := []
  /-- The changes of those that were updated, by internal id. -/
  updatedMNs : Std.ExtTreeMap ℕ (CDeterministicMNStateDiff G) := ∅
  /-- The internal ids of those that were removed. -/
  removedMns : Std.ExtTreeSet ℕ := ∅

/-- The order of an iteration over the updates. -/
abbrev UpdateOrder (G : Type) : Type := List (ℕ × CDeterministicMNStateDiff G)

lemma length_le_of_nodup {l : List ℕ} (h : l.Nodup) (hlt : ∀ x ∈ l, x < n) : l.length ≤ n := by
  have hsub : l ⊆ range n := fun x hx => mem_range.mpr (hlt x hx)
  have hle := h.length_le_of_subset hsub
  rwa [length_range] at hle

namespace CDeterministicMNListDiff

/-! ### Serialisation -/

/-- A difference as it is written, with the updates in some order. -/
def serialize (bls : Bls G) (diff : CDeterministicMNListDiff G) (order : UpdateOrder G) : List UInt8 :=
  putList (CDeterministicMN.serialize bls) diff.addedMNs ++
    (putList (fun p => putVarInt 64 p.1 ++ p.2.serialize bls) order ++ putList (putVarInt 64) diff.removedMns.toList)

/-- Read an update. -/
def unserializeUpdate (bls : Bls G) : Reader (ℕ × CDeterministicMNStateDiff G) := do
  let id ← Reader.getVarInt 64
  let diff ← unserialize bls
  return (id, diff)

/-- Read a difference. -/
def unserialize (bls : Bls G) : Reader (CDeterministicMNListDiff G) := do
  let addedMNs ← Reader.getList maxSize (CDeterministicMN.unserialize bls)
  let updated ← Reader.getList maxSize (unserializeUpdate bls)
  let removed ← Reader.getList maxSize (Reader.getVarInt 64)
  return { addedMNs, updatedMNs := insertAllIfNew updated ∅, removedMns := Std.ExtTreeSet.ofList removed }

def hasChanges (diff : CDeterministicMNListDiff G) : Bool :=
  !diff.addedMNs.isEmpty || !diff.updatedMNs.isEmpty || !diff.removedMns.isEmpty

end CDeterministicMNListDiff

/-- A difference that can be written and read back. -/
structure ListDiffWf (diff : CDeterministicMNListDiff G) : Prop where
  addedMNs : ∀ dmn ∈ diff.addedMNs, dmn.internalId < 2 ^ 64 ∧ dmn.nType.isValid ∧ StateWf dmn.pdmnState
  updatedMNs : ∀ (id : ℕ) (d : CDeterministicMNStateDiff G), diff.updatedMNs[id]? = some d → id < 2 ^ 64 ∧ StateDiffWf d
  removedMns : ∀ id ∈ diff.removedMns, id < 2 ^ 64
  addedCount : diff.addedMNs.length ≤ maxSize
  updatedCount : diff.updatedMNs.size ≤ maxSize
  removedCount : diff.removedMns.size ≤ maxSize

variable {order : UpdateOrder G}

/-- A well-formed difference, written in any order, is read back, but for its height. -/
lemma CDeterministicMNListDiff.reads_serialize (bls : Bls G) {diff : CDeterministicMNListDiff G} (h : ListDiffWf diff)
    (horder : order.Perm diff.updatedMNs.toList) :
    Reads (unserialize bls) (diff.serialize bls order) { diff with nHeight := -1 } := by
  have hmax : maxSize < 2 ^ 64 := by decide
  have hadded := Reads.getList h.addedCount hmax fun dmn hdmn =>
    have ⟨hid, htype, hstate⟩ := h.addedMNs dmn hdmn
    dmn.reads_serialize bls hid htype hstate
  have hupdated : Reads (Reader.getList maxSize (unserializeUpdate bls))
      (putList (fun p => putVarInt 64 p.1 ++ p.2.serialize bls) order) order := by
    refine Reads.getList ?_ hmax fun p hp => ?_
    · rw [horder.length_eq, Std.ExtTreeMap.length_toList]
      exact h.updatedCount
    · have hget := Std.ExtTreeMap.mem_toList_iff_getElem?_eq_some.mp (horder.mem_iff.mp hp)
      obtain ⟨hid, hdiff⟩ := h.updatedMNs p.1 p.2 hget
      exact (Reads.getVarInt hid).bind ((CDeterministicMNStateDiff.reads_serialize bls hdiff).bind_pure (Reads.pure p))
  have hremoved : Reads (Reader.getList maxSize (Reader.getVarInt 64)) (putList (putVarInt 64) diff.removedMns.toList)
      diff.removedMns.toList := by
    refine Reads.getList ?_ hmax fun id hid => Reads.getVarInt (h.removedMns id (Std.ExtTreeSet.mem_toList.mp hid))
    rw [Std.ExtTreeSet.length_toList]
    exact h.removedCount
  have hset : Std.ExtTreeSet.ofList diff.removedMns.toList = diff.removedMns := by
    apply Std.ExtTreeSet.ext_mem
    intro id
    rw [Std.ExtTreeSet.mem_ofList, contains_iff_mem, Std.ExtTreeSet.mem_toList]
  refine hadded.bind (hupdated.bind (hremoved.bind_pure ?_))
  rw [insertAllIfNew_of_perm horder, hset]
  exact Reads.pure _

/-! ### Building and applying a difference -/

namespace CDeterministicMNList

variable [DecidableEq G]

/-- The masternodes of one list that another one does not have. -/
def notIn (list other : CDeterministicMNList G) : List (CDeterministicMN G) :=
  (mns list.mnMap).filter fun dmn => (other.getMN dmn.proTxHash).isNone

/-- The update that leads to a masternode, if it was listed and its state changed. -/
def updateTo (list : CDeterministicMNList G) (toPtr : CDeterministicMN G) : Option (ℕ × CDeterministicMNStateDiff G) :=
  (list.getMN toPtr.proTxHash).bind fun fromPtr =>
    let stateDiff := ofStates fromPtr.pdmnState toPtr.pdmnState
    if stateDiff.fields ≠ 0 then some (toPtr.internalId, stateDiff) else none

def buildDiff (old new : CDeterministicMNList G) : CDeterministicMNListDiff G :=
  { addedMNs := (new.notIn old).insertionSort (·.internalId ≤ ·.internalId)
    updatedMNs := insertAllIfNew ((mns new.mnMap).filterMap old.updateTo) ∅
    removedMns := Std.ExtTreeSet.ofList ((old.notIn new).map (·.internalId)) }

variable (crypto : Crypto G)

/-- Remove the masternode with an internal id. -/
def removeById (id : ℕ) : ListM G Unit := do
  let list ← get
  match list.getMNByInternalId id with
  | none => throw (.removedNotFound id)
  | some dmn => removeMN crypto dmn.proTxHash

/-- Update the masternode with an internal id. The pointer is not checked. -/
def updateById (update : ℕ × CDeterministicMNStateDiff G) : ListM G Unit := do
  let list ← get
  match list.getMNByInternalId update.1 with
  | none => throw .nullPointer
  | some dmn => updateMNByDiff crypto dmn update.2

/-- `ApplyDiff`, started in a copy of the old list, for the block with a hash and a height. -/
def applyDiff (blockHash : Uint256) (nHeight : ℤ) (diff : CDeterministicMNListDiff G) (order : UpdateOrder G) :
    ListM G Unit := do
  modify fun list => { list with blockHash, nHeight }
  diff.removedMns.toList.forM (removeById crypto)
  diff.addedMNs.forM (addMN crypto · true)
  order.forM (updateById crypto)

end CDeterministicMNList

/-- What the second list may be after the first for the difference between them to be applied. -/
structure Follows (crypto : Crypto G) (old new : CDeterministicMNList G) : Prop where
  repOld : Rep crypto old
  repNew : Rep crypto new
  /-- A masternode that is in both lists keeps everything but its state. -/
  kept : ∀ (x : Uint256) (a b : CDeterministicMN G), old.mnMap[x]? = some a → new.mnMap[x]? = some b →
    b = { a with pdmnState := b.pdmnState }
  /-- Who had a property that another masternode has now is no longer listed. -/
  noTakeover : ∀ (x y : Uint256) (a b : CDeterministicMN G) (k : Uint256), old.mnMap[x]? = some a →
    k ∈ a.hashes crypto → new.mnMap[y]? = some b → k ∈ b.hashes crypto → x ≠ y → new.mnMap[x]? = none

/-- No masternode has its operator key in another encoding than before. -/
def SameEncodings [DecidableEq G] (old new : CDeterministicMNList G) : Prop :=
  ∀ (x : Uint256) (a b : CDeterministicMN G), old.mnMap[x]? = some a → new.mnMap[x]? = some b →
    a.pdmnState.pubKeyOperator.eq b.pdmnState.pubKeyOperator → a.pdmnState.pubKeyOperator = b.pdmnState.pubKeyOperator

instance [DecidableEq G] (old new : CDeterministicMNList G) : Decidable (SameEncodings old new) :=
  decidable_of_iff (∀ e ∈ old.mnMap.toList, ∀ b ∈ new.mnMap[e.1]?,
      e.2.pdmnState.pubKeyOperator.eq b.pdmnState.pubKeyOperator →
        e.2.pdmnState.pubKeyOperator = b.pdmnState.pubKeyOperator)
    ⟨fun h x a b ha => h (x, a) (Std.ExtTreeMap.mem_toList_iff_getElem?_eq_some.mpr ha) b,
      fun h e he b => h e.1 e.2 b (Std.ExtTreeMap.mem_toList_iff_getElem?_eq_some.mp he)⟩

/-! ### What a difference lists -/

section

variable {old new list : CDeterministicMNList G} {dmn : CDeterministicMN G} {id : ℕ}

section

variable (h : Rep crypto list)

include h

lemma Rep.mem_notIn {other : CDeterministicMNList G} :
    dmn ∈ list.notIn other ↔ list.mnMap[dmn.proTxHash]? = some dmn ∧ other.mnMap[dmn.proTxHash]? = none := by
  unfold notIn getMN
  rw [mem_filter, h.mem_mns_iff, Option.isNone_iff_eq_none]

lemma Rep.nodup_internalId : ((mns list.mnMap).map (·.internalId)).Nodup := by
  unfold mns
  rw [map_map, List.Nodup, pairwise_map]
  refine (pairwise_map.mp (nodup_keys_toList list.mnMap)).imp_of_mem fun {p q} hp hq hpq hid => hpq ?_
  exact h.eq_of_internalId (Std.ExtTreeMap.mem_toList_iff_getElem?_eq_some.mp hp)
    (Std.ExtTreeMap.mem_toList_iff_getElem?_eq_some.mp hq) hid

lemma Rep.getMNByInternalId (hx : list.mnMap[x]? = some dmn) : list.getMNByInternalId dmn.internalId = some dmn := by
  unfold CDeterministicMNList.getMNByInternalId
  rw [(h.internalId dmn.internalId x).mpr ⟨dmn, hx, rfl⟩]
  exact hx

lemma Rep.of_getMNByInternalId (hid : list.getMNByInternalId id = some dmn) :
    list.mnMap[dmn.proTxHash]? = some dmn ∧ dmn.internalId = id := by
  obtain ⟨x, hx, hdmn⟩ := bind_eq_some_iff.mp hid
  obtain ⟨dmn', hdmn', rfl⟩ := (h.internalId id x).mp hx
  obtain rfl : dmn' = dmn := some.inj (hdmn'.symm.trans hdmn)
  rw [h.proTxHash x dmn' hdmn']
  exact ⟨hdmn', rfl⟩

end

variable [DecidableEq G]

lemma Follows.mem_addedMNs (h : Follows crypto old new) :
    dmn ∈ (old.buildDiff new).addedMNs ↔ new.mnMap[dmn.proTxHash]? = some dmn ∧ old.mnMap[dmn.proTxHash]? = none := by
  unfold buildDiff
  rw [(perm_insertionSort _ _).mem_iff, h.repNew.mem_notIn]

lemma Follows.nodup_addedMNs (h : Follows crypto old new) :
    ((old.buildDiff new).addedMNs.map (·.internalId)).Nodup := by
  unfold buildDiff notIn
  rw [((perm_insertionSort _ _).map _).nodup_iff]
  exact h.repNew.nodup_internalId.sublist ((filter_sublist).map _)

lemma Rep.mem_removedMns (h : Rep crypto old) : id ∈ (old.buildDiff new).removedMns ↔
    ∃ (x : Uint256) (a : CDeterministicMN G), old.mnMap[x]? = some a ∧ new.mnMap[x]? = none ∧ a.internalId = id := by
  unfold buildDiff
  rw [Std.ExtTreeSet.mem_ofList, contains_iff_mem, mem_map]
  constructor
  · rintro ⟨a, ha, hid⟩
    obtain ⟨hold, hnew⟩ := h.mem_notIn.mp ha
    exact ⟨a.proTxHash, a, hold, hnew, hid⟩
  · rintro ⟨x, a, hold, hnew, hid⟩
    obtain rfl := h.proTxHash x a hold
    exact ⟨a, h.mem_notIn.mpr ⟨hold, hnew⟩, hid⟩

lemma Rep.getElem?_updatedMNs (h : Rep crypto new) {d : CDeterministicMNStateDiff G} :
    (old.buildDiff new).updatedMNs[id]? = some d ↔ ∃ (x : Uint256) (a b : CDeterministicMN G),
      old.mnMap[x]? = some a ∧ new.mnMap[x]? = some b ∧ b.internalId = id ∧
      d = ofStates a.pdmnState b.pdmnState ∧ d.fields ≠ 0 := by
  have hmem : ∀ p : ℕ × CDeterministicMNStateDiff G, p ∈ (mns new.mnMap).filterMap old.updateTo ↔
      ∃ (x : Uint256) (a b : CDeterministicMN G), old.mnMap[x]? = some a ∧ new.mnMap[x]? = some b ∧ b.internalId = p.1 ∧
        p.2 = ofStates a.pdmnState b.pdmnState ∧ p.2.fields ≠ 0 := by
    intro p
    rw [mem_filterMap]
    constructor
    · rintro ⟨b, hb, hup⟩
      obtain ⟨a, ha, hup⟩ := bind_eq_some_iff.mp hup
      dsimp only at hup
      split_ifs at hup with hf
      cases hup
      exact ⟨b.proTxHash, a, b, ha, h.mem_mns_iff.mp hb, rfl, rfl, hf⟩
    · rintro ⟨x, a, b, ha, hb, hid, hd, hf⟩
      obtain rfl := h.proTxHash x b hb
      refine ⟨b, h.mem_mns_iff.mpr hb, bind_eq_some_iff.mpr ⟨a, ha, ?_⟩⟩
      rw [hd] at hf
      rw [if_pos hf, ← hd, hid]
  have hnodup : (((mns new.mnMap).filterMap old.updateTo).map Prod.fst).Nodup := by
    have hfst : ∀ l : List (CDeterministicMN G),
        ((l.filterMap old.updateTo).map Prod.fst).Sublist (l.map (·.internalId)) := by
      intro l
      induction l with
      | nil => exact List.Sublist.refl _
      | cons b l ih =>
        cases hb : old.updateTo b with
        | none =>
          rw [filterMap_cons_none hb]
          exact ih.cons _
        | some p =>
          rw [filterMap_cons_some hb]
          have hp : p.1 = b.internalId := by
            obtain ⟨a, -, hup⟩ := bind_eq_some_iff.mp hb
            dsimp only at hup
            split_ifs at hup
            cases hup
            rfl
          rw [map_cons, map_cons, hp]
          exact ih.cons_cons _
    exact h.nodup_internalId.sublist (hfst _)
  unfold buildDiff
  rw [getElem?_insertAllIfNew hnodup, hmem]
  simp

end

/-! ### Applying a difference -/

variable {old new list : CDeterministicMNList G} {blockHash : Uint256} {nHeight : ℤ} {e : CDeterministicMN G}

/-- A list of a block with given masternodes. -/
structure Holding (crypto : Crypto G) (blockHash : Uint256) (nHeight : ℤ) (m : Uint256 → Option (CDeterministicMN G))
    (list : CDeterministicMNList G) : Prop where
  rep : Rep crypto list
  mnMap : ∀ x : Uint256, list.mnMap[x]? = m x
  blockHash : list.blockHash = blockHash
  nHeight : list.nHeight = nHeight

lemma Becomes.holding {m m' : Uint256 → Option (CDeterministicMN G)} {map : MnMap G} {list' : CDeterministicMNList G}
    (h : Becomes crypto list map n list') (hl : Holding crypto blockHash nHeight m list)
    (hmap : ∀ x : Uint256, map[x]? = m' x) : Holding crypto blockHash nHeight m' list' :=
  ⟨h.rep, fun x => by rw [h.mnMap, hmap], h.blockHash.trans hl.blockHash, h.nHeight.trans hl.nHeight⟩

/-- The other maps follow from the masternodes. -/
lemma Holding.eq {m : Uint256 → Option (CDeterministicMN G)} (hl : Holding crypto blockHash nHeight m list)
    (h : Rep crypto new) (hm : ∀ x : Uint256, m x = new.mnMap[x]?) (htotal : list.nTotalRegisteredCount = n) :
    list = { new with blockHash, nHeight, nTotalRegisteredCount := n } := by
  have hmap : list.mnMap = new.mnMap := Std.ExtTreeMap.ext_getElem? fun {x} => (hl.mnMap x).trans (hm x)
  obtain ⟨htierOne, htierTwo, hids, hprops⟩ := hl.rep.ext_maps h hmap
  cases list
  simp only [CDeterministicMNList.mk.injEq]
  exact ⟨hl.blockHash, hl.nHeight, htotal, hmap, htierOne, htierTwo, hids, hprops⟩

/-- The masternodes while some ids are still to be removed. -/
def removing (old new : CDeterministicMNList G) (ids : List ℕ) (x : Uint256) : Option (CDeterministicMN G) :=
  old.mnMap[x]?.filter fun a => new.mnMap[x]?.isSome || decide (a.internalId ∈ ids)

/-- The masternodes while some are still to be added. -/
def adding [DecidableEq G] (old new : CDeterministicMNList G) (dmns : List (CDeterministicMN G)) (x : Uint256) :
    Option (CDeterministicMN G) :=
  new.mnMap[x]?.bind fun b => match old.mnMap[x]? with
    | some a => some a
    | none => if b ∈ dmns then none else some b

/-- The masternodes while those with some ids are still to be updated. -/
def updating (old new : CDeterministicMNList G) (ids : List ℕ) (x : Uint256) : Option (CDeterministicMN G) :=
  new.mnMap[x]?.map fun b => match old.mnMap[x]? with
    | some a => if b.internalId ∈ ids then a else b
    | none => b

/-- A masternode of the new list, or what it was in the old one. -/
def Mixed (old new : CDeterministicMNList G) (x : Uint256) (e : CDeterministicMN G) : Prop :=
  ∃ c : CDeterministicMN G, new.mnMap[x]? = some c ∧ (old.mnMap[x]? = some e ∨ e = c)

lemma mixed_of_updating {ids : List ℕ} (h : updating old new ids x = some e) : Mixed old new x e := by
  obtain ⟨c, hc, rfl⟩ := map_eq_some_iff.mp h
  refine ⟨c, hc, ?_⟩
  cases old.mnMap[x]? with
  | some a =>
    split_ifs
    · exact .inl rfl
    · exact .inr rfl
  | none => exact .inr rfl

lemma foldl_bumpTotalCount (dmns : List (CDeterministicMN G)) {N : ℕ} (hN : N < 2 ^ 32) (hn : n ≤ N)
    (hids : ∀ dmn ∈ dmns, dmn.internalId < N) : let r := dmns.foldl (fun n dmn => bumpTotalCount dmn.internalId n) n
    n ≤ r ∧ r ≤ N ∧ (∀ dmn ∈ dmns, dmn.internalId < r) ∧ (r = n ∨ ∃ dmn ∈ dmns, dmn.internalId + 1 = r) := by
  induction dmns generalizing n with
  | nil => exact ⟨le_refl n, hn, fun _ h => absurd h not_mem_nil, .inl rfl⟩
  | cons dmn dmns ih =>
    have hid := hids dmn mem_cons_self
    have hbump : bumpTotalCount dmn.internalId n = max (dmn.internalId + 1) n := by
      unfold bumpTotalCount
      rw [Nat.mod_eq_of_lt (by omega : dmn.internalId + 1 < 2 ^ 64), Nat.mod_eq_of_lt (by omega)]
    have hnext : bumpTotalCount dmn.internalId n ≤ N := by
      omega
    obtain ⟨hle, hN, hmem, hr⟩ := ih hnext fun d hd => hids d (mem_cons_of_mem _ hd)
    rw [foldl_cons]
    refine ⟨by omega, hN, fun d hd => ?_, ?_⟩
    · obtain rfl | hd := mem_cons.mp hd
      · omega
      · exact hmem d hd
    · obtain hr | ⟨d, hd, hr⟩ := hr
      · by_cases hmax : dmn.internalId + 1 ≤ n
        · exact .inl (by omega)
        · exact .inr ⟨dmn, mem_cons_self, by omega⟩
      · exact .inr ⟨d, mem_cons_of_mem _ hd, hr⟩

lemma mixed_of_adding [DecidableEq G] {dmns : List (CDeterministicMN G)} (h : adding old new dmns x = some e) :
    Mixed old new x e := by
  obtain ⟨c, hc, he⟩ := bind_eq_some_iff.mp h
  refine ⟨c, hc, ?_⟩
  cases ha : old.mnMap[x]? with
  | some a =>
    rw [ha] at he
    exact .inl he
  | none =>
    rw [ha] at he
    split_ifs at he
    exact .inr (some.inj he).symm

variable (h : Follows crypto old new)

include h

/-- In a mixture of both lists a masternode of the new list finds its properties free. -/
lemma Follows.free (hmixed : ∀ y e,
    list.mnMap[y]? = some e → Mixed old new y e) {b : CDeterministicMN G} (hb : new.mnMap[x]? = some b) :
    Free crypto list.mnMap x (b.hashes crypto) := by
  intro k hk y hy hky
  obtain ⟨e, he, hke⟩ := (mem_held crypto).mp hky
  obtain ⟨c, hc, hold | rfl⟩ := hmixed y e he
  · have hnone := h.noTakeover y x e b k hold hke hb hk hy
    rw [hc] at hnone
    cases hnone
  · exact hy (h.repNew.eq_of_mem_hashes hc hb hke hk)

lemma Follows.internalId_of_mixed {y : Uint256} {b e : CDeterministicMN G}
    (hmixed : Mixed old new y e) (hb : new.mnMap[x]? = some b) (hid : e.internalId = b.internalId) : y = x := by
  obtain ⟨c, hc, hold | rfl⟩ := hmixed
  · refine h.repNew.eq_of_internalId hc hb ?_
    rw [h.kept y e c hold hc]
    exact hid
  · exact h.repNew.eq_of_internalId hc hb hid

variable [DecidableEq G]

/-- The removals leave the masternodes that the new list still has. -/
lemma Follows.wp_removals (hl : Holding crypto blockHash nHeight (fun x => old.mnMap[x]?) list) :
    wp ((old.buildDiff new).removedMns.toList.forM (removeById crypto)) (fun _ l =>
      Holding crypto blockHash nHeight (removing old new []) l ∧ l.nTotalRegisteredCount = list.nTotalRegisteredCount)
      (fun _ _ => False) list := by
  have hstart : ∀ x, old.mnMap[x]? = removing old new (old.buildDiff new).removedMns.toList x := by
    intro x
    unfold removing
    cases ha : old.mnMap[x]? with
    | none => rfl
    | some a =>
      rw [filter_some_pos]
      cases hb : new.mnMap[x]? with
      | some b => rfl
      | none => simpa [Std.ExtTreeSet.mem_toList] using h.repOld.mem_removedMns.mpr ⟨x, a, ha, hb, rfl⟩
  have hnodup : (old.buildDiff new).removedMns.toList.Nodup :=
    Std.ExtTreeSet.distinct_toList.imp fun hne => by rwa [Std.compare_eq_iff_eq] at hne
  refine (wp_forM (I := fun ids l => (ids.Nodup ∧ ∀ id ∈ ids, id ∈ (old.buildDiff new).removedMns) ∧
    Holding crypto blockHash nHeight (removing old new ids) l ∧ l.nTotalRegisteredCount = list.nTotalRegisteredCount)
    (fun id ids l ⟨⟨hids, hmem⟩, hl, htotal⟩ => ?_)
    ⟨⟨hnodup, fun id => Std.ExtTreeSet.mem_toList.mp⟩,
      { hl with mnMap := fun x => (hl.mnMap x).trans (hstart x) }, rfl⟩).imp
    fun _ l hl => hl.2
  obtain ⟨x, a, ha, hnew, rfl⟩ := h.repOld.mem_removedMns.mp (hmem id mem_cons_self)
  obtain ⟨hid, hids⟩ := nodup_cons.mp hids
  have hx : l.mnMap[x]? = some a := by
    rw [hl.mnMap, removing, ha, filter_some_pos (by simp)]
  obtain rfl := hl.rep.proTxHash x a hx
  unfold removeById
  rw [wp_bind, wp_get, hl.rep.getMNByInternalId hx]
  refine wp_mono (wp_removeMN hl.rep a.proTxHash) (fun _ l' ⟨_, hl'⟩ => ?_) (fun _ l' hnone => ?_)
  · refine ⟨⟨hids, fun id hid => hmem id (mem_cons_of_mem _ hid)⟩, hl'.holding hl fun y => ?_,
      hl'.nTotalRegisteredCount.trans htotal⟩
    rw [getElem?_erase_ite, hl.mnMap]
    unfold removing
    by_cases hy : y = a.proTxHash
    · rw [if_pos hy, hy, ha, hnew, filter_some_neg (by simpa using hid)]
    · rw [if_neg hy]
      cases hb : old.mnMap[y]? with
      | none => rfl
      | some b =>
        have hne : b.internalId ≠ a.internalId := fun hid => hy (h.repOld.eq_of_internalId hb ha hid)
        simp [filter_some, hne]
  · rw [hx] at hnone
    cases hnone

/-- The additions, in any order, complete the masternodes of the new list. -/
lemma Follows.wp_additions (fBump : Bool) {order : List (CDeterministicMN G)}
    (horder : order.Perm (old.buildDiff new).addedMNs)
    (hl : Holding crypto blockHash nHeight (removing old new []) list) :
    wp (order.forM (addMN crypto · fBump)) (fun _ l =>
      Holding crypto blockHash nHeight (adding old new []) l ∧ l.nTotalRegisteredCount = order.foldl
        (fun n dmn => if fBump then bumpTotalCount dmn.internalId n else n) list.nTotalRegisteredCount)
      (fun _ _ => False) list := by
  generalize htotal : order.foldl (fun n dmn => if fBump then bumpTotalCount dmn.internalId n else n)
    list.nTotalRegisteredCount = total
  have hadded : ∀ {dmn : CDeterministicMN G}, dmn ∈ order ↔
      new.mnMap[dmn.proTxHash]? = some dmn ∧ old.mnMap[dmn.proTxHash]? = none :=
    fun {dmn} => horder.mem_iff.trans h.mem_addedMNs
  have hstart : ∀ x, removing old new [] x = adding old new order x := by
    intro x
    unfold removing adding
    cases hb : new.mnMap[x]? with
    | none => cases old.mnMap[x]? <;> simp
    | some b =>
      cases ha : old.mnMap[x]? with
      | some a => simp
      | none =>
        obtain rfl := h.repNew.proTxHash x b hb
        simp [hadded.mpr ⟨hb, ha⟩]
  refine (wp_forM (I := fun dmns l => ((dmns.map (·.internalId)).Nodup ∧ ∀ dmn ∈ dmns, dmn ∈ order) ∧
    Holding crypto blockHash nHeight (adding old new dmns) l ∧
    dmns.foldl (fun n dmn => if fBump then bumpTotalCount dmn.internalId n else n) l.nTotalRegisteredCount = total)
    (fun b dmns l ⟨⟨hids, hmem⟩, hl, htotal⟩ => ?_) ⟨⟨(horder.map _).nodup_iff.mpr h.nodup_addedMNs, fun _ => id⟩,
      { hl with mnMap := fun x => (hl.mnMap x).trans (hstart x) }, htotal⟩).imp fun _ l hl => hl.2
  obtain ⟨hnew, hold⟩ := hadded.mp (hmem b mem_cons_self)
  obtain ⟨hid, hids⟩ := nodup_cons.mp hids
  have hb : b ∉ dmns := fun hb => hid (mem_map.mpr ⟨b, hb, rfl⟩)
  have hmixed : ∀ y e, l.mnMap[y]? = some e → Mixed old new y e := fun y e he =>
    mixed_of_adding (by rwa [hl.mnMap] at he)
  have hnone : l.mnMap[b.proTxHash]? = none := by
    rw [hl.mnMap, adding, hnew, hold]
    simp
  refine wp_mono (wp_addMN hl.rep b fBump) (fun _ l' ⟨_, hl'⟩ => ?_) (fun _ l' hnot => hnot ?_)
  · refine ⟨⟨hids, fun d hd => hmem d (mem_cons_of_mem _ hd)⟩, hl'.holding hl fun y => ?_, ?_⟩
    · rw [getElem?_insert_ite, hl.mnMap]
      unfold adding
      by_cases hy : y = b.proTxHash
      · rw [if_pos hy, hy, hnew, hold]
        simp [hb]
      · rw [if_neg hy]
        cases hc : new.mnMap[y]? with
        | none => rfl
        | some c =>
          have hne : c ≠ b := fun hcb => hy (by rw [← h.repNew.proTxHash y c hc, hcb])
          simp [hne]
    · rw [← htotal, hl'.nTotalRegisteredCount]
      rfl
  · refine ⟨hnone, ?_, h.repNew.collateral _ b hnew, h.repNew.keyIDOwner _ b hnew, h.free hmixed hnew⟩
    rw [eq_none_iff_forall_ne_some]
    intro y hy
    obtain ⟨e, he, heid⟩ := (hl.rep.internalId _ y).mp hy
    rw [h.internalId_of_mixed (hmixed y e he) hnew heid, hnone] at he
    cases he

/-- The updates, in any order, complete their states. -/
lemma Follows.wp_updates (henc : SameEncodings old new) (horder : order.Perm (old.buildDiff new).updatedMNs.toList)
    (hl : Holding crypto blockHash nHeight (adding old new []) list) : wp (order.forM (updateById crypto)) (fun _ l =>
      Holding crypto blockHash nHeight (updating old new []) l ∧ l.nTotalRegisteredCount = list.nTotalRegisteredCount)
      (fun _ _ => False) list := by
  have hmem : ∀ p : ℕ × CDeterministicMNStateDiff G, p ∈ order ↔ (old.buildDiff new).updatedMNs[p.1]? = some p.2 :=
    fun p => horder.mem_iff.trans Std.ExtTreeMap.mem_toList_iff_getElem?_eq_some
  have happly : ∀ {x : Uint256} {a b : CDeterministicMN G}, old.mnMap[x]? = some a → new.mnMap[x]? = some b →
      (ofStates a.pdmnState b.pdmnState).applyToState a.pdmnState = b.pdmnState := by
    intro x a b ha hb
    exact applyToState_ofStates (henc x a b ha hb)
  have hstart : ∀ x, adding old new [] x = updating old new (order.map Prod.fst) x := by
    intro x
    unfold adding updating
    cases hb : new.mnMap[x]? with
    | none => rfl
    | some b =>
      cases ha : old.mnMap[x]? with
      | none => simp
      | some a =>
        by_cases hid : b.internalId ∈ order.map Prod.fst
        · simp [hid]
        · have hfields : (ofStates a.pdmnState b.pdmnState).fields = 0 := by
            by_contra hf
            exact hid (mem_map.mpr ⟨(b.internalId, _), (hmem _).mpr
              (h.repNew.getElem?_updatedMNs.mpr ⟨x, a, b, ha, hb, rfl, rfl, hf⟩), rfl⟩)
          have hstate := happly ha hb
          rw [applyToState_of_fields_eq_zero hfields] at hstate
          have hab : b = a := by rw [h.kept x a b ha hb, ← hstate]
          simp [hab]
  have hnodup : (order.map Prod.fst).Nodup := (horder.map Prod.fst).nodup_iff.mpr (nodup_keys_toList _)
  refine (wp_forM (I := fun rest l => ((rest.map Prod.fst).Nodup ∧ ∀ p ∈ rest, p ∈ order) ∧
    Holding crypto blockHash nHeight (updating old new (rest.map Prod.fst)) l ∧
    l.nTotalRegisteredCount = list.nTotalRegisteredCount) (fun p rest l ⟨⟨hids, hsub⟩, hl, htotal⟩ => ?_)
    ⟨⟨hnodup, fun _ => id⟩, { hl with mnMap := fun x => (hl.mnMap x).trans (hstart x) }, rfl⟩).imp fun _ l hl => hl.2
  obtain ⟨x, a, b, ha, hb, hid, hd, -⟩ := h.repNew.getElem?_updatedMNs.mp ((hmem p).mp (hsub p mem_cons_self))
  obtain ⟨hp, hids⟩ := nodup_cons.mp hids
  have hkept := h.kept x a b ha hb
  have hx : l.mnMap[x]? = some a := by
    rw [hl.mnMap, updating, ha, hb]
    simp [hid]
  obtain rfl := hl.rep.proTxHash x a hx
  have haid : a.internalId = p.1 := by
    rw [hkept] at hid
    exact hid
  unfold updateById
  rw [wp_bind, wp_get, ← haid, hl.rep.getMNByInternalId hx]
  dsimp only
  unfold updateMNByDiff
  rw [hd, happly ha hb]
  have hfree := h.free (fun y e he => mixed_of_updating (by rwa [hl.mnMap] at he)) hb
  rw [hkept] at hfree
  refine wp_mono (wp_updateMN hl.rep hx (h.repNew.keyIDOwner _ b hb) (henc _ a b ha hb))
    (fun _ l' ⟨_, hl'⟩ => ?_) (fun _ l' hnot => hnot hfree)
  rw [← hkept] at hl'
  refine ⟨⟨hids, fun q hq => hsub q (mem_cons_of_mem _ hq)⟩, hl'.holding hl fun y => ?_,
    hl'.nTotalRegisteredCount.trans htotal⟩
  rw [getElem?_insert_ite, hl.mnMap]
  unfold updating
  by_cases hy : y = a.proTxHash
  · rw [if_pos hy, hy, hb, ha, map_some]
    dsimp only
    rw [hid, if_neg hp]
  · rw [if_neg hy]
    cases hc : new.mnMap[y]? with
    | none => rfl
    | some c =>
      have hne : c.internalId ≠ p.1 := fun hcid => hy (h.repNew.eq_of_internalId hc hb (hcid.trans hid.symm))
      simp only [map_cons, map_some, mem_cons, hne, false_or]

/-- The number of registrations that a list with the difference applied counts. -/
def appliedCount (old new : CDeterministicMNList G) : ℕ :=
  (old.buildDiff new).addedMNs.foldl (fun n dmn => bumpTotalCount dmn.internalId n) old.nTotalRegisteredCount

/-- The difference to a list that may follow can be applied in any order, and gives that list, but for the number of
registrations. -/
lemma Follows.wp_applyDiff (henc : SameEncodings old new)
    (horder : order.Perm (old.buildDiff new).updatedMNs.toList) (blockHash : Uint256) (nHeight : ℤ) :
    wp (applyDiff crypto blockHash nHeight (old.buildDiff new) order) (fun _ l =>
      l = { new with blockHash, nHeight, nTotalRegisteredCount := appliedCount old new }) (fun _ _ => False) old := by
  unfold applyDiff
  rw [wp_bind, wp_modify, wp_bind]
  have hstart : Holding crypto blockHash nHeight (fun x => old.mnMap[x]?) { old with blockHash, nHeight } :=
    ⟨{ h.repOld with }, fun _ => rfl, rfl, rfl⟩
  refine (h.wp_removals hstart).imp fun _ l₁ ⟨hl₁, ht₁⟩ => ?_
  refine wp_seq (h.wp_additions true (.refl _) hl₁) fun _ l₂ ⟨hl₂, ht₂⟩ => ?_
  refine (h.wp_updates henc horder hl₂).imp fun _ l₃ ⟨hl₃, ht₃⟩ => ?_
  have htotal : l₃.nTotalRegisteredCount = appliedCount old new := by
    rw [ht₃, ht₂, ht₁]
    rfl
  refine hl₃.eq h.repNew (fun x => ?_) htotal
  rw [updating]
  cases new.mnMap[x]? with
  | none => rfl
  | some b => cases old.mnMap[x]? <;> simp

end Blocx
