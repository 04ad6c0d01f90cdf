import Blocx.Evo.DmnList
import Mathlib.Algebra.Order.Group.Multiset

/-!
# The representation invariant of the masternode list

`Rep` says that the redundant maps of a list agree with its main map: the tiers are the main map cut in two by the type,
the internal ids are the inverse of the internal id of a masternode, and the property map counts exactly the hashed
properties of the listed masternodes, so that each hash points to its one owner.

Each method has one specification that says when it throws and what the list is when it does not. A throwing method
leaves the list as it was, with no assumption at all, because the property map is put back. On a list with `Rep` the
methods throw exactly for the reasons their messages give, and keep `Rep`, provided that an update names an owner key
and does not replace the operator key by the same key in the other encoding.
-/

namespace Blocx

open Function CDeterministicMN Std.ExtTreeMap Option

variable {G : Type} {dmn : CDeterministicMN G} {x k : Uint256} {list list' : CDeterministicMNList G} {crypto : Crypto G}
  {E : DmnException → CDeterministicMNList G → Prop} {Q : Unit → CDeterministicMNList G → Prop} {e : DmnException}
  {saved : RefIndex Uint256 Uint256} {change : ListM G Bool} {same : Bool} {s : Multiset Uint256} {map : MnMap G}

open CDeterministicMNList RefIndex

/-! ### What a masternode holds -/

section

variable (crypto : Crypto G)

def hashOf (v : Option UniqueProperty) : Multiset Uint256 :=
  match v with
  | none => 0
  | some v => {crypto.serializeHash v}

/-- The hashes of the properties of a masternode. -/
def CDeterministicMN.hashes (dmn : CDeterministicMN G) : Multiset Uint256 :=
  hashOf crypto (operatorProperty crypto.bls dmn.pdmnState.pubKeyOperator) +
    (hashOf crypto (ownerProperty dmn.pdmnState.keyIDOwner) +
      (hashOf crypto (addrProperty dmn.pdmnState.addr) + hashOf crypto (collateralProperty dmn.collateralOutpoint)))

/-- What the masternodes of a map hold. -/
def held (map : MnMap G) (proTxHash : Uint256) : Multiset Uint256 :=
  match map[proTxHash]? with
  | none => 0
  | some dmn => dmn.hashes crypto

lemma held_of_getElem? (h : map[x]? = some dmn) : held crypto map x = dmn.hashes crypto := by
  unfold held
  rw [h]

lemma mem_held : k ∈ held crypto map x ↔ ∃ dmn : CDeterministicMN G, map[x]? = some dmn ∧ k ∈ dmn.hashes crypto := by
  unfold held
  cases map[x]? <;> simp

lemma held_insert : held crypto (map.insert x dmn) = update (held crypto map) x (dmn.hashes crypto) := by
  funext y
  unfold held
  rw [getElem?_insert_ite, update_apply]
  split_ifs <;> rfl

lemma held_erase : held crypto (map.erase x) = update (held crypto map) x 0 := by
  funext y
  unfold held
  rw [getElem?_erase_ite, update_apply]
  split_ifs <;> rfl

end

/-! ### The invariant -/

/-- The maps of a list agree with each other. -/
structure Rep (crypto : Crypto G) (list : CDeterministicMNList G) : Prop where
  /-- A masternode is listed under its own hash. -/
  proTxHash : ∀ (x : Uint256) (dmn : CDeterministicMN G), list.mnMap[x]? = some dmn → dmn.proTxHash = x
  tierOne : ∀ x : Uint256, list.tierOne[x]? =
    list.mnMap[x]?.filter fun dmn : CDeterministicMN G => dmn.nType = .standardMasternode
  tierTwo : ∀ x : Uint256, list.tierTwo[x]? =
    list.mnMap[x]?.filter fun dmn : CDeterministicMN G => dmn.nType ≠ .standardMasternode
  /-- The internal ids are inverse to the masternodes. -/
  internalId : ∀ (id : ℕ) (x : Uint256), list.mnInternalIdMap[id]? = some x ↔
    ∃ dmn : CDeterministicMN G, list.mnMap[x]? = some dmn ∧ dmn.internalId = id
  properties : list.mnUniquePropertyMap.Counts (held crypto list.mnMap)
  collateral : ∀ (x : Uint256) (dmn : CDeterministicMN G), list.mnMap[x]? = some dmn →
    dmn.collateralOutpoint.isNull = false
  keyIDOwner : ∀ (x : Uint256) (dmn : CDeterministicMN G), list.mnMap[x]? = some dmn → dmn.pdmnState.keyIDOwner ≠ 0

namespace Rep

variable {a b : CDeterministicMN G} {x y : Uint256}

lemma empty (blockHash : Uint256) (nHeight : ℤ) (nTotalRegisteredCount : ℕ) :
    Rep crypto { blockHash, nHeight, nTotalRegisteredCount } where
  proTxHash x dmn h := by simp at h
  tierOne x := by simp
  tierTwo x := by simp
  internalId id x := by simp
  properties := Counts.empty
  collateral x dmn h := by simp at h
  keyIDOwner x dmn h := by simp at h

variable (h : Rep crypto list) {v : UniqueProperty}

include h

lemma mem_mns_iff : dmn ∈ mns list.mnMap ↔ list.mnMap[dmn.proTxHash]? = some dmn := by
  unfold mns
  rw [List.mem_map]
  constructor
  · rintro ⟨⟨x, d⟩, hd, rfl⟩
    have hx := mem_toList_iff_getElem?_eq_some.mp hd
    rw [h.proTxHash x d hx]
    exact hx
  · exact fun hd => ⟨(dmn.proTxHash, dmn), mem_toList_iff_getElem?_eq_some.mpr hd, rfl⟩

section

variable (ha : list.mnMap[x]? = some a) (hb : list.mnMap[y]? = some b)

include ha hb

lemma eq_of_internalId (hab : a.internalId = b.internalId) : x = y := by
  have hx := (h.internalId a.internalId x).mpr ⟨a, ha, rfl⟩
  rw [(h.internalId a.internalId y).mpr ⟨b, hb, hab.symm⟩] at hx
  exact (some.inj hx).symm

lemma eq_of_mem_hashes (hka : k ∈ a.hashes crypto) (hkb : k ∈ b.hashes crypto) : x = y := by
  rw [← held_of_getElem? crypto ha] at hka
  rw [← held_of_getElem? crypto hb] at hkb
  exact h.properties.unique hka hkb

lemma eq_of_collateral (hab : a.collateralOutpoint = b.collateralOutpoint) : x = y := by
  have hmem : ∀ {z : Uint256} {d : CDeterministicMN G}, list.mnMap[z]? = some d →
      crypto.serializeHash (.collateral d.collateralOutpoint) ∈ d.hashes crypto := by
    intro z d hd
    simp [hashes, collateralProperty, h.collateral z d hd, hashOf]
  exact h.eq_of_mem_hashes ha hb (hmem ha) (hab ▸ hmem hb)

end

lemma hasUniqueProperty_iff : list.hasUniqueProperty crypto v = true ↔
    ∃ (x : Uint256) (dmn : CDeterministicMN G), list.mnMap[x]? = some dmn ∧
      crypto.serializeHash v ∈ dmn.hashes crypto := by
  rw [hasUniqueProperty, contains_eq_isSome_getElem?, isSome_iff_exists]
  simp only [← mem_held]
  constructor
  · rintro ⟨⟨x, c⟩, hk⟩
    exact ⟨x, h.properties.mem_of_getElem? hk⟩
  · rintro ⟨x, hk⟩
    exact ⟨_, h.properties.getElem?_eq_some hk⟩

lemma getUniquePropertyMN_iff : list.getUniquePropertyMN crypto v = some dmn ↔
      list.mnMap[dmn.proTxHash]? = some dmn ∧ crypto.serializeHash v ∈ dmn.hashes crypto := by
  unfold getUniquePropertyMN getMN
  constructor
  · intro hv
    obtain ⟨⟨x, c⟩, hk, hx⟩ := bind_eq_some_iff.mp hv
    obtain ⟨dmn', hx', hk'⟩ := (mem_held crypto).mp (h.properties.mem_of_getElem? hk)
    rw [hx] at hx'
    cases hx'
    rw [h.proTxHash x dmn hx]
    exact ⟨hx, hk'⟩
  · rintro ⟨hx, hk⟩
    rw [h.properties.getElem?_eq_some ((mem_held crypto).mpr ⟨dmn, hx, hk⟩)]
    exact hx

/-- The main map determines the tiers, the internal ids and the property map. -/
lemma ext_maps (h' : Rep crypto list') (hmap : list.mnMap = list'.mnMap) :
    list.tierOne = list'.tierOne ∧ list.tierTwo = list'.tierTwo ∧ list.mnInternalIdMap = list'.mnInternalIdMap ∧
      list.mnUniquePropertyMap = list'.mnUniquePropertyMap := by
  refine ⟨?_, ?_, ?_, ?_⟩
  · apply ext_getElem?
    intro x
    rw [h.tierOne, h'.tierOne, hmap]
  · apply ext_getElem?
    intro x
    rw [h.tierTwo, h'.tierTwo, hmap]
  · apply ext_getElem?
    intro id
    ext x
    rw [h.internalId, h'.internalId, hmap]
  · refine h.properties.ext ?_
    rw [hmap]
    exact h'.properties

end Rep

/-! ### The maps of masternodes -/

/-- The invariant of the maps of masternodes alone, which every method keeps without any condition. -/
structure MapWf (list : CDeterministicMNList G) : Prop where
  proTxHash : ∀ (x : Uint256) (dmn : CDeterministicMN G), list.mnMap[x]? = some dmn → dmn.proTxHash = x
  tierOne : ∀ x : Uint256, list.tierOne[x]? =
    list.mnMap[x]?.filter fun dmn : CDeterministicMN G => dmn.nType = .standardMasternode
  tierTwo : ∀ x : Uint256, list.tierTwo[x]? =
    list.mnMap[x]?.filter fun dmn : CDeterministicMN G => dmn.nType ≠ .standardMasternode

/-- A masternode was written to the main map and to its tier. -/
structure Writes (list : CDeterministicMNList G) (dmn : CDeterministicMN G) (list' : CDeterministicMNList G) :
    Prop where
  mnMap : list'.mnMap = list.mnMap.insert dmn.proTxHash dmn
  tierOne : list'.tierOne =
    if dmn.nType = .standardMasternode then list.tierOne.insert dmn.proTxHash dmn else list.tierOne
  tierTwo : list'.tierTwo =
    if dmn.nType ≠ .standardMasternode then list.tierTwo.insert dmn.proTxHash dmn else list.tierTwo
  nHeight : list'.nHeight = list.nHeight

/-- A masternode was erased from the main map and from its tier. -/
structure Erases (list : CDeterministicMNList G) (dmn : CDeterministicMN G) (x : Uint256)
    (list' : CDeterministicMNList G) : Prop where
  mnMap : list'.mnMap = list.mnMap.erase x
  tierOne : list'.tierOne = if dmn.nType = .standardMasternode then list.tierOne.erase x else list.tierOne
  tierTwo : list'.tierTwo = if dmn.nType ≠ .standardMasternode then list.tierTwo.erase x else list.tierTwo
  nHeight : list'.nHeight = list.nHeight

lemma Rep.mapWf (h : Rep crypto list) : MapWf list :=
  ⟨h.proTxHash, h.tierOne, h.tierTwo⟩

section Maps

variable {p : MnType → Prop} {tier map : MnMap G}

lemma setTier_eq : list.setTier dmn = { list with
      tierOne := if dmn.nType = .standardMasternode then list.tierOne.insert dmn.proTxHash dmn else list.tierOne
      tierTwo := if dmn.nType ≠ .standardMasternode then list.tierTwo.insert dmn.proTxHash dmn else list.tierTwo } := by
  unfold setTier
  by_cases h : dmn.nType = .standardMasternode
  · rw [if_pos h, if_pos h, if_neg (not_not.mpr h)]
  · rw [if_neg h, if_neg h, if_pos h]

lemma eraseTier_eq {nType : MnType} : list.eraseTier nType x = { list with
      tierOne := if nType = .standardMasternode then list.tierOne.erase x else list.tierOne
      tierTwo := if nType ≠ .standardMasternode then list.tierTwo.erase x else list.tierTwo } := by
  unfold eraseTier
  by_cases h : nType = .standardMasternode
  · rw [if_pos h, if_pos h, if_neg (not_not.mpr h)]
  · rw [if_neg h, if_neg h, if_pos h]

/-- A tier, that is, the part of the main map with some types, after a masternode was written. -/
lemma tier_insert [DecidablePred p]
    (h : ∀ x : Uint256, tier[x]? = map[x]?.filter fun d : CDeterministicMN G => p d.nType)
    (htype : ∀ old, map[dmn.proTxHash]? = some old → old.nType = dmn.nType) :
    (if p dmn.nType then tier.insert dmn.proTxHash dmn else tier)[x]? =
      (map.insert dmn.proTxHash dmn)[x]?.filter fun d => p d.nType := by
  rw [apply_ite (·[x]?), getElem?_insert_ite, getElem?_insert_ite, h]
  split_ifs with hp hx hx
  · rw [filter_some_pos (by simpa using hp)]
  · rfl
  · rw [filter_some_neg (by simpa using hp), hx]
    cases hold : map[dmn.proTxHash]? with
    | none => rfl
    | some old => rw [filter_some_neg (by simpa [htype old hold] using hp)]
  · rfl

/-- A tier after a masternode was erased. -/
lemma tier_erase [DecidablePred p]
    (h : ∀ x : Uint256, tier[x]? = map[x]?.filter fun d : CDeterministicMN G => p d.nType) (hx : map[x]? = some dmn)
    {y : Uint256} : (if p dmn.nType then tier.erase x else tier)[y]? = (map.erase x)[y]?.filter fun d => p d.nType := by
  rw [apply_ite (·[y]?), getElem?_erase_ite, getElem?_erase_ite, h]
  split_ifs with hp hy hy
  · rfl
  · rfl
  · rw [hy, hx, filter_some_neg (by simpa using hp)]
    rfl
  · rfl

lemma MapWf.write (h : MapWf list) (hw : Writes list dmn list')
    (htype : ∀ old, list.mnMap[dmn.proTxHash]? = some old → old.nType = dmn.nType) : MapWf list' where
  proTxHash := by
    rw [hw.mnMap]
    exact forall_getElem?_insert rfl h.proTxHash
  tierOne x := by
    rw [hw.tierOne, hw.mnMap]
    exact tier_insert (p := (· = .standardMasternode)) h.tierOne htype
  tierTwo x := by
    rw [hw.tierTwo, hw.mnMap]
    exact tier_insert (p := (· ≠ .standardMasternode)) h.tierTwo htype

lemma MapWf.erase (h : MapWf list) (hx : list.mnMap[x]? = some dmn) (he : Erases list dmn x list') : MapWf list' where
  proTxHash y d hd := by
    rw [he.mnMap, getElem?_erase_ite] at hd
    split_ifs at hd with hy
    exact h.proTxHash y d hd
  tierOne y := by
    rw [he.tierOne, he.mnMap]
    exact tier_erase (p := (· = .standardMasternode)) h.tierOne hx
  tierTwo y := by
    rw [he.tierTwo, he.mnMap]
    exact tier_erase (p := (· ≠ .standardMasternode)) h.tierTwo hx

end Maps

section Lookup

variable {α : Type} {Q : α → CDeterministicMNList G → Prop}

/-- A masternode was looked up in a list. -/
lemma wp_matchMN {f : ListM G α} {g : CDeterministicMN G → ListM G α} (hnone : list.mnMap[x]? = none → wp f Q E list')
    (hsome : ∀ dmn : CDeterministicMN G, list.mnMap[x]? = some dmn → wp (g dmn) Q E list') :
    wp (match list.getMN x with | none => f | some dmn => g dmn) Q E list' := by
  change wp (match list.mnMap[x]? with | none => _ | some dmn => _) _ _ _
  cases hx : list.mnMap[x]? with
  | none => exact hnone hx
  | some dmn => exact hsome dmn hx

/-- A masternode is looked up in the list. -/
lemma wp_getMN {f : CDeterministicMNList G → ListM G α} {g : CDeterministicMNList G → CDeterministicMN G → ListM G α}
    (hnone : list.mnMap[x]? = none → wp (f list) Q E list)
    (hsome : ∀ dmn : CDeterministicMN G, list.mnMap[x]? = some dmn → wp (g list dmn) Q E list) :
    wp (do let list ← get; match list.getMN x with | none => f list | some dmn => g list dmn) Q E list :=
  wp_matchMN hnone hsome

end Lookup

/-! ### What a call does to the maps, and that it leaves the list as it was when it throws -/

def SameButProperties (list list' : CDeterministicMNList G) : Prop :=
  ∃ m, list' = { list with mnUniquePropertyMap := m }

/-- A program that changes nothing but the property map and does not throw. -/
def OnProperties (change : ListM G Bool) : Prop :=
  ∀ list, wp change (fun _ list' => SameButProperties list list') (fun _ _ => False) list

section Throws

variable (crypto : Crypto G) (x : Uint256)

lemma SameButProperties.refl (list : CDeterministicMNList G) : SameButProperties list list :=
  ⟨list.mnUniquePropertyMap, rfl⟩

lemma SameButProperties.trans {list'' : CDeterministicMNList G} (h : SameButProperties list list')
    (h' : SameButProperties list' list'') : SameButProperties list list'' := by
  obtain ⟨m, rfl⟩ := h
  obtain ⟨m', rfl⟩ := h'
  exact ⟨m', rfl⟩

lemma onProperties_pure {b : Bool} : OnProperties (pure b : ListM G Bool) := fun list => SameButProperties.refl list

lemma onProperties_add (v : Option UniqueProperty) : OnProperties (addUniqueProperty crypto x v) := by
  intro list
  cases v with
  | none => exact SameButProperties.refl list
  | some v => exact ⟨_, rfl⟩

lemma onProperties_delete (v : Option UniqueProperty) : OnProperties (deleteUniqueProperty crypto x v) := by
  intro list
  cases v with
  | none => exact SameButProperties.refl list
  | some v => exact ⟨_, rfl⟩

lemma onProperties_onlyIf {cond : Bool} (h : OnProperties change) : OnProperties (onlyIf cond change) := by
  cases cond with
  | true => exact h
  | false => exact onProperties_pure

lemma onProperties_update {old new : Option UniqueProperty} :
    OnProperties (updateUniqueProperty crypto x same old new) := by
  intro list
  unfold updateUniqueProperty
  rw [wp_ite]
  refine ⟨fun _ => SameButProperties.refl list, fun _ => ?_⟩
  rw [wp_bind]
  refine wp_mono (onProperties_onlyIf (onProperties_delete crypto x old) list) (fun deleted l hl => ?_)
    nofun
  rw [wp_ite]
  refine ⟨fun _ => ?_, fun _ => hl⟩
  exact wp_mono (onProperties_onlyIf (onProperties_add crypto x new) l) (fun _ _ => hl.trans) nofun

@[simp]
lemma wp_orRestore : wp (orRestore saved e change) Q E list ↔ wp change (fun ok list =>
      if ok then Q () list else E e { list with mnUniquePropertyMap := saved }) E list := by
  unfold orRestore
  rw [wp_bind]
  constructor
  · intro h
    refine h.imp fun ok l hl => ?_
    cases ok <;> exact hl
  · intro h
    refine h.imp fun ok l hl => ?_
    cases ok <;> exact hl

lemma wp_orRestore_of_onProperties (hc : OnProperties change) (h : SameButProperties list list') :
    wp (orRestore list.mnUniquePropertyMap e change) (fun _ => SameButProperties list) (fun _ l => l = list) list' := by
  rw [wp_orRestore]
  refine wp_mono (hc list') (fun ok l hl => ?_) nofun
  obtain ⟨m, rfl⟩ := h.trans hl
  cases ok with
  | true => exact ⟨m, rfl⟩
  | false => exact rfl

lemma wp_addMN_maps (dmn : CDeterministicMN G) (fBump : Bool) :
    wp (addMN crypto dmn fBump) (fun _ l => list.mnMap[dmn.proTxHash]? = none ∧ Writes list dmn l)
      (fun _ l => l = list) list := by
  unfold addMN
  rw [wp_bind, wp_get, wp_ite]
  refine ⟨fun _ => rfl, fun hnew => ?_⟩
  rw [not_contains_iff] at hnew
  rw [wp_ite]
  refine ⟨fun _ => rfl, fun _ => ?_⟩
  refine wp_seq (wp_orRestore_of_onProperties (onProperties_add _ _ _) (SameButProperties.refl list)) fun _ l₁ h₁ => ?_
  refine wp_seq (wp_orRestore_of_onProperties (onProperties_onlyIf (onProperties_add _ _ _)) h₁) fun _ l₂ h₂ => ?_
  refine wp_seq (wp_orRestore_of_onProperties (onProperties_add _ _ _) h₂) fun _ l₃ h₃ => ?_
  refine wp_seq (wp_orRestore_of_onProperties (onProperties_onlyIf (onProperties_add _ _ _)) h₃) fun _ l₄ h₄ => ?_
  obtain ⟨m, rfl⟩ := h₄
  rw [wp_modify, insertMN, setTier_eq]
  exact ⟨hnew, rfl, rfl, rfl, rfl⟩

lemma wp_updateMN_maps [DecidableEq G] (oldDmn : CDeterministicMN G) (st : CDeterministicMNState G) :
    wp (updateMN crypto oldDmn st) (fun _ l => Writes list { oldDmn with pdmnState := st } l) (fun _ l => l = list)
      list := by
  unfold updateMN
  rw [wp_bind, wp_get]
  refine wp_seq (wp_orRestore_of_onProperties (onProperties_update _ _) (SameButProperties.refl list)) fun _ l₁ h₁ => ?_
  refine wp_seq (wp_orRestore_of_onProperties (onProperties_update _ _) h₁) fun _ l₂ h₂ => ?_
  refine wp_seq (wp_orRestore_of_onProperties (onProperties_update _ _) h₂) fun _ l₃ h₃ => ?_
  obtain ⟨m, rfl⟩ := h₃
  rw [wp_modify, setTier_eq]
  exact ⟨rfl, rfl, rfl, rfl⟩

lemma wp_updateMNByHash_maps [DecidableEq G] (st : CDeterministicMNState G) :
    wp (updateMNByHash crypto x st) (fun _ l => ∃ dmn, list.mnMap[x]? = some dmn ∧
      Writes list { dmn with pdmnState := st } l) (fun _ l => l = list) list := by
  refine wp_getMN (fun _ => rfl) fun oldDmn hx => ?_
  exact (wp_updateMN_maps crypto oldDmn st).imp fun _ l hl => ⟨oldDmn, hx, hl⟩

lemma wp_removeMN_maps : wp (removeMN crypto x)
    (fun _ l => ∃ dmn, list.mnMap[x]? = some dmn ∧ Erases list dmn x l) (fun _ l => l = list) list := by
  refine wp_getMN (fun _ => rfl) fun dmn hx => ?_
  refine wp_seq (wp_orRestore_of_onProperties (onProperties_delete _ _ _) (SameButProperties.refl list))
    fun _ l₁ h₁ => ?_
  refine wp_seq (wp_orRestore_of_onProperties (onProperties_onlyIf (onProperties_delete _ _ _)) h₁) fun _ l₂ h₂ => ?_
  refine wp_seq (wp_orRestore_of_onProperties (onProperties_delete _ _ _) h₂) fun _ l₃ h₃ => ?_
  refine wp_seq (wp_orRestore_of_onProperties (onProperties_onlyIf (onProperties_delete _ _ _)) h₃) fun _ l₄ h₄ => ?_
  obtain ⟨m, rfl⟩ := h₄
  rw [wp_modify, eraseTier_eq]
  exact ⟨dmn, hx, rfl, rfl, rfl, rfl⟩

lemma wp_poSePunish_throws [DecidableEq G] (penalty : ℤ) :
    wp (poSePunish crypto x penalty) (fun _ _ => True) (fun _ l => l = list) list := by
  unfold poSePunish
  rw [wp_bind, wp_get, wp_ite]
  refine ⟨fun _ => rfl, fun _ => wp_matchMN (fun _ => rfl) fun dmn _ => ?_⟩
  exact (wp_updateMNByHash_maps crypto x _).imp fun _ _ _ => trivial

lemma wp_poSeDecrease_throws [DecidableEq G] :
    wp (poSeDecrease crypto x) (fun _ _ => True) (fun _ l => l = list) list := by
  refine wp_getMN (fun _ => rfl) fun dmn _ => (wp_ite _ _).mpr ⟨fun _ => ?_, fun _ => rfl⟩
  exact (wp_updateMNByHash_maps crypto x _).imp fun _ _ _ => trivial

end Throws

/-! ### Changing the properties of one masternode -/

def Holds (crypto : Crypto G) (list : CDeterministicMNList G) (x : Uint256) (s : Multiset Uint256)
    (list' : CDeterministicMNList G) : Prop :=
  ∃ m, list' = { list with mnUniquePropertyMap := m } ∧ m.Counts (update (held crypto list.mnMap) x s)

/-- No other masternode has one of the hashes. -/
def Free (crypto : Crypto G) (map : MnMap G) (x : Uint256) (s : Multiset Uint256) : Prop :=
  ∀ k ∈ s, ∀ y ≠ x, k ∉ held crypto map y

@[simp]
lemma free_add {t : Multiset Uint256} : Free crypto map x (s + t) ↔ Free crypto map x s ∧ Free crypto map x t := by
  unfold Free
  simp only [Multiset.mem_add, or_imp, forall_and]

/-- A change returns exactly if `P` whether it was made, and then `x` holds `s`. -/
def Sets (crypto : Crypto G) (list : CDeterministicMNList G) (x : Uint256) (P : Prop) (s : Multiset Uint256)
    (change : ListM G Bool) (list' : CDeterministicMNList G) : Prop :=
  wp change (fun ok l => (ok = true ↔ P) ∧ (ok = true → Holds crypto list x s l)) (fun _ _ => False) list'

section Change

variable {v old new : Option UniqueProperty}

lemma Sets.orElse {P : Prop} {f : Unit → ListM G Unit} (h : Sets crypto list x P s change list')
    (hnot : ¬P → ∀ l, E e l) (hf : ∀ l, P → Holds crypto list x s l → wp (f ()) Q E l) :
    wp (orRestore saved e change >>= f) Q E list' := by
  rw [wp_bind, wp_orRestore]
  refine wp_mono h (fun ok l ⟨hok, hl⟩ => ?_) nofun
  cases ok with
  | true => exact hf l (hok.mp rfl) (hl rfl)
  | false => exact hnot (fun hP => Bool.false_ne_true (hok.mpr hP)) _

lemma addrProperty_isSome {a : CService} : (addrProperty a).isSome = decide (a ≠ {}) := by
  unfold addrProperty
  split_ifs with h <;> simpa using h

lemma collateralProperty_isSome {o : COutPoint} : (collateralProperty o).isSome = !o.isNull := by
  unfold collateralProperty
  split_ifs with h <;> simp [h]

lemma ownerProperty_isSome {k : CKeyID} : (ownerProperty k).isSome = decide (k ≠ 0) := by
  unfold ownerProperty
  split_ifs with h <;> simpa using h

lemma operatorProperty_isSome {bls : Bls G} {k : CBLSLazyPublicKey G} :
    (operatorProperty bls k).isSome = k.isValid := by
  cases k <;> rfl

/-- A property is added exactly when it is not null and no other masternode has it. -/
lemma sets_addUniqueProperty (h : Holds crypto list x s list') :
    Sets crypto list x (v.isSome ∧ Free crypto list.mnMap x (hashOf crypto v)) (hashOf crypto v + s)
      (addUniqueProperty crypto x v) list' := by
  obtain ⟨m, rfl, hm⟩ := h
  cases v with
  | none => exact ⟨by simp, fun h => absurd h (by simp)⟩
  | some v =>
    have hmem : ∀ y, y ≠ x → update (held crypto list.mnMap) x s y = held crypto list.mnMap y :=
      fun y hy => update_of_ne hy _ _
    unfold Sets addUniqueProperty
    rw [wp_modifyGet]
    by_cases hfree : Free crypto list.mnMap x (hashOf crypto (some v))
    · have hk : ∀ y, crypto.serializeHash v ∈ update (held crypto list.mnMap) x s y → y = x := by
        intro y hy
        by_contra hne
        rw [hmem y hne] at hy
        exact hfree _ (Multiset.mem_singleton_self _) y hne hy
      obtain ⟨hok, hcounts⟩ := hm.add hk
      refine ⟨by simp [hok, hfree], fun _ => ⟨_, rfl, ?_⟩⟩
      rwa [update_idem, update_self] at hcounts
    · obtain ⟨k, hk, y, hy, hky⟩ : ∃ k ∈ hashOf crypto (some v), ∃ y ≠ x, k ∈ held crypto list.mnMap y := by
        simpa [Free] using hfree
      obtain rfl := Multiset.mem_singleton.mp hk
      rw [← hmem y hy] at hky
      rw [hm.add_of_mem hky hy]
      exact ⟨by simp [hfree], fun h => absurd h (by simp)⟩

lemma sets_deleteUniqueProperty (hv : v.isSome) (h : Holds crypto list x (hashOf crypto v + s) list') :
    Sets crypto list x True s (deleteUniqueProperty crypto x v) list' := by
  obtain ⟨m, rfl, hm⟩ := h
  obtain ⟨v, rfl⟩ := isSome_iff_exists.mp hv
  have hk : crypto.serializeHash v ∈ update (held crypto list.mnMap) x (hashOf crypto (some v) + s) x := by
    rw [update_self]
    exact Multiset.mem_add.mpr (.inl (Multiset.mem_singleton_self _))
  obtain ⟨hok, hcounts⟩ := hm.delete hk
  refine ⟨by simp [hok], fun _ => ⟨_, rfl, ?_⟩⟩
  rwa [update_idem, update_self, hashOf, Multiset.singleton_add, Multiset.erase_cons_head] at hcounts

lemma sets_onlyIf_add (h : Holds crypto list x s list') :
    Sets crypto list x (Free crypto list.mnMap x (hashOf crypto v)) (hashOf crypto v + s)
      (onlyIf v.isSome (addUniqueProperty crypto x v)) list' := by
  cases v with
  | none => exact ⟨by simp [Free, hashOf], fun _ => by rwa [hashOf, zero_add]⟩
  | some v =>
    have hsets := sets_addUniqueProperty (v := some v) h
    rwa [isSome_some, eq_self, true_and] at hsets

lemma sets_onlyIf_delete (h : Holds crypto list x (hashOf crypto v + s) list') :
    Sets crypto list x True s (onlyIf v.isSome (deleteUniqueProperty crypto x v)) list' := by
  cases v with
  | none =>
    rw [hashOf, zero_add] at h
    exact ⟨by simp, fun _ => h⟩
  | some v => exact sets_deleteUniqueProperty rfl h

/-- A property is updated exactly when no other masternode has the new value. -/
lemma sets_updateUniqueProperty (hsame : same → old = new) (h : Holds crypto list x (hashOf crypto old + s) list') :
    Sets crypto list x (Free crypto list.mnMap x (hashOf crypto new)) (hashOf crypto new + s)
      (updateUniqueProperty crypto x same old new) list' := by
  unfold Sets updateUniqueProperty
  rw [wp_ite]
  constructor
  · intro hs
    obtain rfl := hsame hs
    refine ⟨⟨fun _ k hk y hy hky => hy ?_, fun _ => rfl⟩, fun _ => h⟩
    obtain ⟨m, -, hm⟩ := h
    have hx : k ∈ update (held crypto list.mnMap) x (hashOf crypto old + s) x := by
      rw [update_self]
      exact Multiset.mem_add.mpr (.inl hk)
    exact hm.unique (by rwa [update_of_ne hy]) hx
  · intro _
    rw [wp_bind]
    refine wp_mono (sets_onlyIf_delete h) (fun deleted l ⟨hdeleted, hl⟩ => ?_) nofun
    obtain rfl := hdeleted.mpr trivial
    exact sets_onlyIf_add (hl rfl)

end Change

/-! ### The methods -/

/-- A list with the invariant and with given masternodes, which determine its maps, and otherwise the data of `list`. -/
structure Becomes (crypto : Crypto G) (list : CDeterministicMNList G) (map : MnMap G) (nTotalRegisteredCount : ℕ)
    (list' : CDeterministicMNList G) : Prop where
  rep : Rep crypto list'
  mnMap : list'.mnMap = map
  nTotalRegisteredCount : list'.nTotalRegisteredCount = nTotalRegisteredCount
  blockHash : list'.blockHash = list.blockHash
  nHeight : list'.nHeight = list.nHeight

/-- `AddMN` does not throw. -/
structure Addable (crypto : Crypto G) (list : CDeterministicMNList G) (dmn : CDeterministicMN G) : Prop where
  proTxHash : list.mnMap[dmn.proTxHash]? = none
  internalId : list.mnInternalIdMap[dmn.internalId]? = none
  collateral : dmn.collateralOutpoint.isNull = false
  keyIDOwner : dmn.pdmnState.keyIDOwner ≠ 0
  /-- No listed masternode has one of its properties. -/
  free : Free crypto list.mnMap dmn.proTxHash (dmn.hashes crypto)

variable {list : CDeterministicMNList G} {st : CDeterministicMNState G}

/-- The new state keeps the properties of the old one. -/
structure SameProperties (st st' : CDeterministicMNState G) : Prop where
  addr : st'.addr = st.addr
  keyIDOwner : st'.keyIDOwner = st.keyIDOwner
  pubKeyOperator : st'.pubKeyOperator = st.pubKeyOperator

lemma SameProperties.hashes
    (h : SameProperties dmn.pdmnState st) : { dmn with pdmnState := st }.hashes crypto = dmn.hashes crypto := by
  unfold CDeterministicMN.hashes
  rw [h.addr, h.keyIDOwner, h.pubKeyOperator]

lemma sameProperties_punishedState (st : CDeterministicMNState G) (penalty : ℤ) :
    SameProperties st (list.punishedState st penalty) := by
  unfold punishedState CDeterministicMNState.banIfNotBanned
  dsimp only
  split_ifs <;> exact ⟨rfl, rfl, rfl⟩

variable (h : Rep crypto list)

include h

/-- A list in which a masternode was written to the main map and to its tier. -/
lemma Rep.write (hw : Writes list dmn list')
    (htype : ∀ old, list.mnMap[dmn.proTxHash]? = some old → old.nType = dmn.nType)
    (hids : ∀ id x, list'.mnInternalIdMap[id]? = some x ↔
      (x = dmn.proTxHash ∧ id = dmn.internalId) ∨ (x ≠ dmn.proTxHash ∧ list.mnInternalIdMap[id]? = some x))
    (hprops : list'.mnUniquePropertyMap.Counts (update (held crypto list.mnMap) dmn.proTxHash (dmn.hashes crypto)))
    (hcoll : dmn.collateralOutpoint.isNull = false) (howner : dmn.pdmnState.keyIDOwner ≠ 0) : Rep crypto list' := by
  have hiff : ∀ x d, list'.mnMap[x]? = some d ↔
      (x = dmn.proTxHash ∧ d = dmn) ∨ (x ≠ dmn.proTxHash ∧ list.mnMap[x]? = some d) := by
    intro x d
    rw [hw.mnMap, getElem?_insert_ite]
    split_ifs with hx <;> simp [hx, eq_comm]
  obtain ⟨hhash, htierOne, htierTwo⟩ := h.mapWf.write hw htype
  refine ⟨hhash, htierOne, htierTwo, fun id x => ?_, ?_, ?_, ?_⟩
  · simp only [hids, hiff, h.internalId, or_and_right, exists_or, and_assoc, exists_and_left, exists_eq_left,
      @eq_comm _ id]
  · rw [hw.mnMap, held_insert]
    exact hprops
  · rw [hw.mnMap]
    exact forall_getElem?_insert hcoll h.collateral
  · rw [hw.mnMap]
    exact forall_getElem?_insert howner h.keyIDOwner

lemma Rep.holds (hs : held crypto list.mnMap x = s) : Holds crypto list x s list := by
  refine ⟨list.mnUniquePropertyMap, rfl, ?_⟩
  rw [← hs, update_eq_self]
  exact h.properties

lemma Rep.free (hx : list.mnMap[x]? = some dmn) : Free crypto list.mnMap x (dmn.hashes crypto) := by
  intro k hk y hy hky
  rw [← held_of_getElem? crypto hx] at hk
  exact hy (h.properties.unique hky hk)

/-- `AddMN` throws exactly when the masternode cannot be added, and keeps the invariant when it does not throw. -/
lemma wp_addMN (dmn : CDeterministicMN G) (fBump : Bool) :
    wp (addMN crypto dmn fBump) (fun _ l => Addable crypto list dmn ∧
      Becomes crypto list (list.mnMap.insert dmn.proTxHash dmn)
        (if fBump then bumpTotalCount dmn.internalId list.nTotalRegisteredCount else list.nTotalRegisteredCount) l)
      (fun _ _ => ¬Addable crypto list dmn) list := by
  unfold addMN
  rw [wp_bind, wp_get, wp_ite]
  refine ⟨fun hc hadd => not_contains_iff.mpr hadd.proTxHash hc, fun hc => ?_⟩
  rw [wp_ite]
  refine ⟨fun hi hadd => not_contains_iff.mpr hadd.internalId hi, fun hi => ?_⟩
  rw [not_contains_iff] at hc hi
  -- the four properties, each of which can be refused
  have hfree : Addable crypto list dmn → Free _ _ _ _ ∧ Free _ _ _ _ ∧ Free _ _ _ _ ∧ Free _ _ _ _ := fun hadd => by
    simpa only [hashes, free_add] using hadd.free
  have hstart : held crypto list.mnMap dmn.proTxHash = 0 := by
    unfold held
    rw [hc]
  refine (sets_addUniqueProperty (h.holds hstart)).orElse (fun hnot _ hadd => hnot ⟨?_, (hfree hadd).2.2.2⟩)
    fun l₁ hf₁ h₁ => ?_
  · rw [collateralProperty_isSome, hadd.collateral]
    rfl
  rw [← addrProperty_isSome]
  refine (sets_onlyIf_add h₁).orElse (fun hnot _ hadd => hnot (hfree hadd).2.2.1) fun l₂ hf₂ h₂ => ?_
  refine (sets_addUniqueProperty h₂).orElse (fun hnot _ hadd => hnot ⟨?_, (hfree hadd).2.1⟩) fun l₃ hf₃ h₃ => ?_
  · rw [ownerProperty_isSome]
    exact decide_eq_true hadd.keyIDOwner
  rw [← operatorProperty_isSome]
  refine (sets_onlyIf_add h₃).orElse (fun hnot _ hadd => hnot (hfree hadd).1) fun l₄ hf₄ h₄ => ?_
  rw [wp_modify]
  rw [collateralProperty_isSome] at hf₁
  rw [ownerProperty_isSome] at hf₃
  obtain ⟨m, rfl, hm⟩ := h₄
  rw [add_zero] at hm
  have hadd : Addable crypto list dmn := {
    proTxHash := hc
    internalId := hi
    collateral := by simpa using hf₁.1
    keyIDOwner := of_decide_eq_true hf₃.1
    free := by simp [hashes, hf₁.2, hf₂, hf₃.2, hf₄] }
  unfold insertMN
  rw [setTier_eq]
  refine ⟨hadd, ?_, rfl, rfl, rfl, rfl⟩
  refine h.write ⟨rfl, rfl, rfl, rfl⟩ (fun old hold => ?_) (fun id x => ?_) hm hadd.collateral hadd.keyIDOwner
  · rw [hc] at hold
    cases hold
  · have hx : ∀ i, list.mnInternalIdMap[i]? ≠ some dmn.proTxHash := fun i h' => by
      obtain ⟨d, hd, -⟩ := (h.internalId i dmn.proTxHash).mp h'
      rw [hc] at hd
      cases hd
    split_ifs with hid <;> grind

/-- `UpdateMN` throws exactly when another masternode has one of the new properties. -/
lemma wp_updateMN [DecidableEq G] {old : CDeterministicMN G}
    (hold : list.mnMap[old.proTxHash]? = some old) (howner : st.keyIDOwner ≠ 0)
    (hkey : old.pdmnState.pubKeyOperator.eq st.pubKeyOperator → old.pdmnState.pubKeyOperator = st.pubKeyOperator) :
    wp (updateMN crypto old st) (fun _ l =>
      Free crypto list.mnMap old.proTxHash ({ old with pdmnState := st }.hashes crypto) ∧
      Becomes crypto list (list.mnMap.insert old.proTxHash { old with pdmnState := st }) list.nTotalRegisteredCount l)
      (fun _ _ => ¬Free crypto list.mnMap old.proTxHash ({ old with pdmnState := st }.hashes crypto)) list := by
  have hstart := h.holds (held_of_getElem? crypto hold)
  have hcoll := h.free hold
  -- each update finds the property it replaces in front
  simp only [hashes, free_add] at hstart hcoll ⊢
  rw [add_left_comm (hashOf crypto (ownerProperty _)), add_left_comm] at hstart
  refine (sets_updateUniqueProperty (fun he => by rw [of_decide_eq_true he]) hstart).orElse
    (fun hnot _ hfree => hnot hfree.2.2.1) fun l₁ hf₁ h₁ => ?_
  rw [add_left_comm (hashOf crypto (operatorProperty _ _)), add_left_comm] at h₁
  refine (sets_updateUniqueProperty (fun he => by rw [of_decide_eq_true he]) h₁).orElse
    (fun hnot _ hfree => hnot hfree.2.1) fun l₂ hf₂ h₂ => ?_
  rw [add_left_comm (hashOf crypto (addrProperty _)), add_left_comm] at h₂
  refine (sets_updateUniqueProperty (fun he => by rw [hkey he]) h₂).orElse
    (fun hnot _ hfree => hnot hfree.1) fun l₃ hf₃ h₃ => ?_
  rw [wp_modify]
  obtain ⟨m, rfl, hm⟩ := h₃
  refine ⟨⟨hf₃, hf₂, hf₁, hcoll.2.2.2⟩, ?_⟩
  rw [setTier_eq]
  refine ⟨?_, rfl, rfl, rfl, rfl⟩
  refine h.write ⟨rfl, rfl, rfl, rfl⟩ (fun old' hold' => ?_) (fun id x => ?_) hm (h.collateral _ old hold) howner
  · rw [hold] at hold'
    cases hold'
    rfl
  · by_cases hx : x = old.proTxHash
    · subst hx
      rw [h.internalId, hold]
      simp [eq_comm]
    · simp [hx]

/-- A list in which a masternode was erased from the main map, its tier and the internal ids. -/
lemma Rep.erase (hx : list.mnMap[x]? = some dmn) (he : Erases list dmn x list')
    (hids : list'.mnInternalIdMap = list.mnInternalIdMap.erase dmn.internalId)
    (hprops : list'.mnUniquePropertyMap.Counts (update (held crypto list.mnMap) x 0)) : Rep crypto list' := by
  have hiff : ∀ y d, list'.mnMap[y]? = some d ↔ y ≠ x ∧ list.mnMap[y]? = some d := by
    intro y d
    rw [he.mnMap, getElem?_erase_ite]
    split_ifs with hy <;> simp [hy]
  obtain ⟨hhash, htierOne, htierTwo⟩ := h.mapWf.erase hx he
  refine ⟨hhash, htierOne, htierTwo, fun id y => ?_, ?_, fun y d hd => h.collateral y d ((hiff y d).mp hd).2,
    fun y d hd => h.keyIDOwner y d ((hiff y d).mp hd).2⟩
  · simp only [hids, getElem?_erase_ite, hiff]
    by_cases hid : id = dmn.internalId
    · rw [if_pos hid]
      refine ⟨fun h' => (by cases h'), fun ⟨d, ⟨hy, hd⟩, hdid⟩ => absurd ?_ hy⟩
      exact h.eq_of_internalId hd hx (hdid.trans hid)
    · rw [if_neg hid, h.internalId]
      refine ⟨fun ⟨d, hd, hdid⟩ => ⟨d, ⟨?_, hd⟩, hdid⟩, fun ⟨d, ⟨_, hd⟩, hdid⟩ => ⟨d, hd, hdid⟩⟩
      rintro rfl
      rw [hx] at hd
      cases hd
      exact hid hdid.symm
  · rw [he.mnMap, held_erase]
    exact hprops

/-- `RemoveMN` throws exactly when the masternode is not listed. -/
lemma wp_removeMN (x : Uint256) : wp (removeMN crypto x) (fun _ l => list.mnMap[x]?.isSome ∧
      Becomes crypto list (list.mnMap.erase x) list.nTotalRegisteredCount l)
        (fun _ _ => list.mnMap[x]? = none) list := by
  refine wp_getMN (fun hnone => hnone) fun dmn hx => ?_
  obtain rfl := h.proTxHash x dmn hx
  have hstart := h.holds (held_of_getElem? crypto hx)
  -- the properties in the order of their deletion
  have hcomm : dmn.hashes crypto = hashOf crypto (collateralProperty dmn.collateralOutpoint) +
      (hashOf crypto (addrProperty dmn.pdmnState.addr) + (hashOf crypto (ownerProperty dmn.pdmnState.keyIDOwner) +
        (hashOf crypto (operatorProperty crypto.bls dmn.pdmnState.pubKeyOperator) + 0))) := by
    unfold hashes
    ac_rfl
  rw [hcomm] at hstart
  have hcoll : (collateralProperty dmn.collateralOutpoint).isSome := by
    rw [collateralProperty_isSome, h.collateral _ dmn hx]
    rfl
  have howner : (ownerProperty dmn.pdmnState.keyIDOwner).isSome := by
    rw [ownerProperty_isSome]
    exact decide_eq_true (h.keyIDOwner _ dmn hx)
  refine (sets_deleteUniqueProperty hcoll hstart).orElse (fun hnot => absurd trivial hnot) fun l₁ _ h₁ => ?_
  rw [← addrProperty_isSome]
  refine (sets_onlyIf_delete h₁).orElse (fun hnot => absurd trivial hnot) fun l₂ _ h₂ => ?_
  refine (sets_deleteUniqueProperty howner h₂).orElse (fun hnot => absurd trivial hnot) fun l₃ _ h₃ => ?_
  rw [← operatorProperty_isSome]
  refine (sets_onlyIf_delete h₃).orElse (fun hnot => absurd trivial hnot) fun l₄ _ h₄ => ?_
  rw [wp_modify]
  obtain ⟨m, rfl, hm⟩ := h₄
  rw [eraseTier_eq]
  exact ⟨by rw [hx]; rfl, h.erase hx ⟨rfl, rfl, rfl, rfl⟩ rfl hm, rfl, rfl, rfl, rfl⟩

variable [DecidableEq G]

lemma wp_updateMNByHash (hst : ∀ old : CDeterministicMN G, list.mnMap[x]? = some old → st.keyIDOwner ≠ 0 ∧
      (old.pdmnState.pubKeyOperator.eq st.pubKeyOperator → old.pdmnState.pubKeyOperator = st.pubKeyOperator)) :
    wp (updateMNByHash crypto x st) (fun _ l => ∃ old : CDeterministicMN G, list.mnMap[x]? = some old ∧
      Free crypto list.mnMap x ({ old with pdmnState := st }.hashes crypto) ∧
      Becomes crypto list (list.mnMap.insert x { old with pdmnState := st }) list.nTotalRegisteredCount l)
      (fun _ _ => ∀ old : CDeterministicMN G, list.mnMap[x]? = some old →
        ¬Free crypto list.mnMap x ({ old with pdmnState := st }.hashes crypto)) list := by
  refine wp_getMN (fun hnone old hold => ?_) fun old hx => ?_
  · rw [hnone] at hold
    cases hold
  · obtain rfl := h.proTxHash x old hx
    obtain ⟨howner, hkey⟩ := hst old hx
    refine wp_mono (wp_updateMN h hx howner hkey) (fun _ l hl => ⟨old, hx, hl⟩) (fun _ _ hl old' hold' => ?_)
    obtain rfl := some.inj (hx.symm.trans hold')
    exact hl

/-- An update that keeps the properties is not refused. -/
lemma wp_updateMNByHash_same (hx : list.mnMap[x]? = some dmn) (hst : SameProperties dmn.pdmnState st) :
    wp (updateMNByHash crypto x st) (fun _ => Becomes crypto list (list.mnMap.insert x { dmn with pdmnState := st })
      list.nTotalRegisteredCount) (fun _ _ => False) list := by
  refine wp_mono (wp_updateMNByHash h (fun old hold => ?_)) (fun _ l ⟨old, hold, _, hl⟩ => ?_) (fun _ _ hl => ?_)
  · rw [hx] at hold
    cases hold
    rw [hst.keyIDOwner, hst.pubKeyOperator]
    exact ⟨h.keyIDOwner x dmn hx, fun _ => rfl⟩
  · rw [hx] at hold
    cases hold
    exact hl
  · refine hl dmn hx ?_
    rw [hst.hashes]
    exact h.free hx

/-- `PoSePunish` of a listed masternode is not refused. -/
lemma wp_poSePunish (x : Uint256) (penalty : ℤ) :
    wp (poSePunish crypto x penalty) (fun _ l => ∃ dmn : CDeterministicMN G, list.mnMap[x]? = some dmn ∧ 0 < penalty ∧
      Becomes crypto list (list.mnMap.insert x { dmn with pdmnState := list.punishedState dmn.pdmnState penalty })
        list.nTotalRegisteredCount l)
      (fun _ _ => penalty ≤ 0 ∨ list.mnMap[x]? = none) list := by
  unfold poSePunish
  rw [wp_bind, wp_get, wp_ite]
  refine ⟨fun hp => .inl hp, fun hp => wp_matchMN .inr fun dmn hx => ?_⟩
  refine wp_mono (wp_updateMNByHash_same h hx (sameProperties_punishedState _ _)) (fun _ l hl => ?_)
    nofun
  exact ⟨dmn, hx, not_le.mp hp, hl⟩

/-- `PoSeDecrease` of a listed masternode that has a penalty and is not banned is not refused. -/
lemma wp_poSeDecrease (x : Uint256) :
    wp (poSeDecrease crypto x) (fun _ l => ∃ dmn : CDeterministicMN G, list.mnMap[x]? = some dmn ∧
      0 < dmn.pdmnState.nPoSePenalty ∧ Becomes crypto list (list.mnMap.insert x
        { dmn with pdmnState := { dmn.pdmnState with nPoSePenalty := dmn.pdmnState.nPoSePenalty - 1 } })
        list.nTotalRegisteredCount l)
      (fun _ _ => ∀ dmn : CDeterministicMN G, list.mnMap[x]? = some dmn →
        ¬(dmn.pdmnState.nPoSePenalty > 0 ∧ !dmn.pdmnState.isBanned)) list := by
  refine wp_getMN (fun hnone dmn hdmn => ?_) fun dmn hx => (wp_ite _ _).mpr ⟨fun hp => ?_, fun hp dmn' hdmn' => ?_⟩
  · rw [hnone] at hdmn
    cases hdmn
  · refine wp_mono (wp_updateMNByHash_same h hx ⟨rfl, rfl, rfl⟩) (fun _ l hl => ?_) nofun
    exact ⟨dmn, hx, hp.1, hl⟩
  · obtain rfl := some.inj (hx.symm.trans hdmn')
    exact hp

end Blocx
