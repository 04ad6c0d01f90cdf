import Blocx.Evo.BlockInvariant

/-!
# Internal ids do not matter

Two lists that differ only in the internal ids of their masternodes, and in the number of registrations the next id is
taken from, stay so under everything a block does. `Alike c c'` is that relation, for lists that count `c` and `c'`
registrations. It also says that the next ids are not in use, so that the registration of a masternode succeeds in both
lists or in none.

A list that was rebuilt from stored differences is alike the one that the blocks built, and not equal to it: the number
of registrations may have been lost.
-/

namespace Blocx

open List

open CDeterministicMN

open Parallel

open CDeterministicMNList

variable {G : Type} {a a' : CDeterministicMN G} {list list' : CDeterministicMNList G} {c c' : ℕ}

/-- A masternode without its internal id. -/
def CDeterministicMN.withoutId (dmn : CDeterministicMN G) : CDeterministicMN G := { dmn with internalId := 0 }

lemma CDeterministicMN.fields_of_withoutId (h : a.withoutId = a'.withoutId) :
    a.proTxHash = a'.proTxHash ∧ a.collateralOutpoint = a'.collateralOutpoint ∧ a.nType = a'.nType ∧
      a.pdmnState = a'.pdmnState := by
  simp only [withoutId, mk.injEq, true_and] at h
  exact ⟨h.1, h.2.1, h.2.2.2.1, h.2.2.2.2⟩

lemma CDeterministicMN.state_of_withoutId (h : a.withoutId = a'.withoutId) : a.pdmnState = a'.pdmnState :=
  (fields_of_withoutId h).2.2.2

/-- Maps with the same masternodes up to internal ids. -/
def MapAlike (m m' : MnMap G) : Prop :=
  ∀ x : Uint256, m[x]?.map withoutId = m'[x]?.map withoutId

/-- Lists that differ in internal ids only, and that count the given numbers of registrations. -/
structure Alike (c c' : ℕ) (list list' : CDeterministicMNList G) : Prop where
  blockHash : list.blockHash = list'.blockHash
  nHeight : list.nHeight = list'.nHeight
  mnMap : MapAlike list.mnMap list'.mnMap
  tierOne : MapAlike list.tierOne list'.tierOne
  tierTwo : MapAlike list.tierTwo list'.tierTwo
  properties : list.mnUniquePropertyMap = list'.mnUniquePropertyMap
  /-- The next internal id is not used. -/
  fresh : ∀ id : ℕ, c ≤ id → list.mnInternalIdMap[id]? = none
  fresh' : ∀ id : ℕ, c' ≤ id → list'.mnInternalIdMap[id]? = none
  total : list.nTotalRegisteredCount = c
  total' : list'.nTotalRegisteredCount = c'

/-! ### Maps -/

section

variable {m m' : MnMap G}

section

variable (h : MapAlike m m')

include h

lemma MapAlike.insert (x : Uint256) (ha : a.withoutId = a'.withoutId) : MapAlike (m.insert x a) (m'.insert x a') := by
  intro y
  rw [getElem?_insert_ite, getElem?_insert_ite]
  split_ifs
  · exact congrArg some ha
  · exact h y

lemma MapAlike.erase (x : Uint256) : MapAlike (m.erase x) (m'.erase x) := by
  intro y
  rw [getElem?_erase_ite, getElem?_erase_ite]
  split_ifs
  · rfl
  · exact h y

lemma MapAlike.map_eq : m.map (fun _ a => a.withoutId) = m'.map fun _ a => a.withoutId := by
  apply Std.ExtTreeMap.ext_getElem?
  intro x
  rw [Std.ExtTreeMap.getElem?_map, Std.ExtTreeMap.getElem?_map]
  exact h x

lemma MapAlike.size_eq : m.size = m'.size := by
  have hsize := congrArg Std.ExtTreeMap.size h.map_eq
  rwa [Std.ExtTreeMap.size_map, Std.ExtTreeMap.size_map] at hsize

lemma MapAlike.mns_eq : (mns m).map withoutId = (mns m').map withoutId := by
  have hlist := congrArg (fun m => m.toList.map Prod.snd) h.map_eq
  simp only [Std.ExtTreeMap.toList_map, map_map] at hlist
  unfold mns
  rw [map_map, map_map]
  exact hlist

lemma MapAlike.contains_eq (x : Uint256) : m.contains x = m'.contains x := by
  have hx := congrArg Option.isSome (h x)
  rwa [Option.isSome_map, Option.isSome_map, ← Std.ExtTreeMap.contains_eq_isSome_getElem?,
    ← Std.ExtTreeMap.contains_eq_isSome_getElem?] at hx

end

lemma cases_withoutId {o o' : Option (CDeterministicMN G)} (h : o.map withoutId = o'.map withoutId) :
    (o = none ∧ o' = none) ∨ ∃ a a', o = some a ∧ o' = some a' ∧ a.withoutId = a'.withoutId := by
  cases o with
  | none => exact .inl ⟨rfl, Option.map_eq_none_iff.mp h.symm⟩
  | some a =>
    obtain ⟨a', ha', haa⟩ := Option.map_eq_some_iff.mp h.symm
    exact .inr ⟨a, a', rfl, ha', haa.symm⟩

lemma forall₂_withoutId {l l' : List (CDeterministicMN G)} (h : l.map withoutId = l'.map withoutId) :
    List.Forall₂ (fun a a' => a.withoutId = a'.withoutId) l l' := by
  rw [← forall₂_eq_eq_eq, forall₂_map_left_iff, forall₂_map_right_iff] at h
  exact h

end

/-! ### Queries -/

section

variable {l : List (CDeterministicMN G)}

lemma filter_isMNValid_withoutId : (l.filter isMNValid).map withoutId = (l.map withoutId).filter isMNValid := by
  rw [filter_map]
  rfl

/-- The choice of a payee does not look at internal ids. -/
lemma best_withoutId : best (l.map withoutId) = (best l).map withoutId := by
  unfold best
  generalize hnone : (none : Option (CDeterministicMN G)) = b
  have hb : b = b.map withoutId := by rw [← hnone]; rfl
  nth_rewrite 1 [hb]
  clear hb hnone
  induction l generalizing b with
  | nil => rfl
  | cons a l ih =>
    rw [map_cons, foldl_cons, foldl_cons, ← ih]
    congr 1
    cases b with
    | none => rfl
    | some b =>
      change (if compareByLastPaid a b then _ else _) = Option.map _ (if compareByLastPaid a b then _ else _)
      split_ifs <;> rfl

variable (h : Alike c c' list list')

include h

lemma Alike.getMNPayee (isFullList : Bool) (type : MnType) :
    (list.getMNPayee isFullList type).map withoutId = (list'.getMNPayee isFullList type).map withoutId := by
  have hbest : ∀ {m m' : MnMap G}, MapAlike m m' → (best ((mns m).filter isMNValid)).map withoutId =
      (best ((mns m').filter isMNValid)).map withoutId := by
    intro m m' hm
    rw [← best_withoutId, ← best_withoutId, filter_isMNValid_withoutId, filter_isMNValid_withoutId, hm.mns_eq]
  unfold CDeterministicMNList.getMNPayee
  rw [h.mnMap.size_eq, h.tierOne.size_eq, h.tierTwo.size_eq]
  split_ifs
  · rfl
  · rfl
  · rfl
  · exact hbest h.mnMap
  · cases type with
    | standardMasternode => exact hbest h.tierOne
    | lite => exact hbest h.tierTwo
    | other v => exact hbest h.mnMap

lemma Alike.calcMaxPoSePenalty : list.calcMaxPoSePenalty = list'.calcMaxPoSePenalty := by
  unfold CDeterministicMNList.calcMaxPoSePenalty getAllMNsCount
  rw [h.mnMap.size_eq]

lemma Alike.punishedState (st : CDeterministicMNState G) (penalty : ℤ) :
    list.punishedState st penalty = list'.punishedState st penalty := by
  unfold CDeterministicMNList.punishedState
  rw [h.calcMaxPoSePenalty, h.nHeight]

lemma Alike.hasUniqueProperty (crypto : Crypto G) (v : UniqueProperty) :
    list.hasUniqueProperty crypto v = list'.hasUniqueProperty crypto v := by
  unfold CDeterministicMNList.hasUniqueProperty
  rw [h.properties]

lemma Alike.getUniquePropertyMN (crypto : Crypto G) (v : UniqueProperty) :
    (list.getUniquePropertyMN crypto v).map withoutId = (list'.getUniquePropertyMN crypto v).map withoutId := by
  unfold CDeterministicMNList.getUniquePropertyMN
  rw [h.properties]
  cases list'.mnUniquePropertyMap[crypto.serializeHash v]? with
  | none => rfl
  | some entry => exact h.mnMap entry.1

lemma Alike.takenByOther (rules : EvoRules G) (v : UniqueProperty)
    {own : CDeterministicMN G → Bool} (hown : ∀ a, own a.withoutId = own a) :
    list.takenByOther rules v own = list'.takenByOther rules v own := by
  have hany : ∀ o : Option (CDeterministicMN G), o.any own = (o.map withoutId).any own := by
    intro o
    cases o with
    | none => rfl
    | some a => exact (hown a).symm
  unfold CDeterministicMNList.takenByOther
  rw [h.hasUniqueProperty, hany, h.getUniquePropertyMN, ← hany]

end

/-! ### Methods -/

/-- A program keeps lists alike. -/
def KeepsAlike (c c' : ℕ) (x y : ListM G Unit) : Prop := Parallel (Alike c c') x y fun _ _ => Alike c c'

section Methods

variable {crypto : Crypto G} {x : Uint256} {v : Option UniqueProperty} {change : ListM G Bool}

/-- A change of properties returns the same and keeps lists alike. -/
def ChangesAlike (c c' : ℕ) (change : ListM G Bool) : Prop :=
  Parallel (Alike c c') change change fun b b' l l' => b = b' ∧ Alike c c' l l'

lemma changesAlike_pure {b : Bool} : ChangesAlike c c' (pure b : ListM G Bool) := pure fun _ _ h => ⟨rfl, h⟩

lemma changesAlike_add : ChangesAlike c c' (addUniqueProperty crypto x v) := by
  cases v with
  | none => exact changesAlike_pure
  | some v =>
    refine modifyGet fun l l' h => ?_
    rw [h.properties]
    exact ⟨rfl, { h with properties := rfl }⟩

lemma changesAlike_delete : ChangesAlike c c' (deleteUniqueProperty crypto x v) := by
  cases v with
  | none => exact changesAlike_pure
  | some v =>
    refine modifyGet fun l l' h => ?_
    rw [h.properties]
    exact ⟨rfl, { h with properties := rfl }⟩

lemma ChangesAlike.onlyIf (h : ChangesAlike c c' change) (cond : Bool) : ChangesAlike c c' (onlyIf cond change) := by
  cases cond with
  | true => exact h
  | false => exact changesAlike_pure

lemma changesAlike_update {same : Bool} {old new : Option UniqueProperty} :
    ChangesAlike c c' (updateUniqueProperty crypto x same old new) := by
  cases same with
  | true => exact changesAlike_pure
  | false =>
    refine bind_same (changesAlike_delete.onlyIf _) fun deleted => ?_
    cases deleted with
    | true => exact changesAlike_add.onlyIf _
    | false => exact changesAlike_pure

lemma ChangesAlike.orRestore (h : ChangesAlike c c' change) (saved : RefIndex Uint256 Uint256) (e : DmnException) :
    KeepsAlike c c' (orRestore saved e change) (orRestore saved e change) := by
  refine bind_same h fun ok => ?_
  cases ok with
  | true => exact pure fun _ _ => id
  | false =>
    exact bind (S := fun _ _ _ _ => True) (modify fun _ _ _ => trivial) fun _ _ => throw _ _

lemma Alike.setTier (h : Alike c c' list list') (ha : a.withoutId = a'.withoutId) :
    Alike c c' (list.setTier a) (list'.setTier a') := by
  obtain ⟨hhash, -, htype, -⟩ := fields_of_withoutId ha
  unfold CDeterministicMNList.setTier
  rw [htype, hhash]
  split_ifs
  · exact { h with tierOne := h.tierOne.insert _ ha }
  · exact { h with tierTwo := h.tierTwo.insert _ ha }

/-- `AddMN` under the next internal ids. -/
lemma parallel_addMN (ha : a.withoutId = a'.withoutId) (hid : a.internalId < 2 ^ 32 - 1)
    (hid' : a'.internalId < 2 ^ 32 - 1) :
    Parallel (Alike a.internalId a'.internalId) (addMN crypto a true) (addMN crypto a' true)
      fun _ _ => Alike (a.internalId + 1) (a'.internalId + 1) := by
  obtain ⟨hhash, hcoll, -, hstate⟩ := fields_of_withoutId ha
  have hbump : ∀ {id : ℕ}, id < 2 ^ 32 - 1 → bumpTotalCount id id = id + 1 := by
    intro id hlt
    unfold bumpTotalCount
    omega
  refine get fun l l' h => ?_
  rw [hhash, hcoll, hstate, h.mnMap.contains_eq, h.properties, Std.ExtTreeMap.contains_eq_isSome_getElem?
    (t := l.mnInternalIdMap),
    Std.ExtTreeMap.contains_eq_isSome_getElem? (t := l'.mnInternalIdMap), h.fresh _ (le_refl _), h.fresh' _ (le_refl _)]
  refine of_pinned fun _ => ?_
  split_ifs with hdup hused
  · exact throw _ _
  · cases hused
  · refine bind (changesAlike_add.orRestore _ _) fun _ _ => ?_
    refine bind ((changesAlike_add.onlyIf _).orRestore _ _) fun _ _ => ?_
    refine bind (changesAlike_add.orRestore _ _) fun _ _ => ?_
    refine bind ((changesAlike_add.onlyIf _).orRestore _ _) fun _ _ => ?_
    refine modify fun l l' h => ?_
    have htier := h.setTier ha
    constructor
    case blockHash => exact htier.blockHash
    case nHeight => exact htier.nHeight
    case mnMap =>
      rw [insertMN, insertMN, hhash]
      exact htier.mnMap.insert _ ha
    case tierOne => exact htier.tierOne
    case tierTwo => exact htier.tierTwo
    case properties => exact htier.properties
    case fresh =>
      intro id hle
      change ((l.setTier a).mnInternalIdMap.insert a.internalId a.proTxHash)[id]? = none
      rw [getElem?_insert_ite, if_neg (by omega)]
      exact htier.fresh id (by omega)
    case fresh' =>
      intro id hle
      change ((l'.setTier a').mnInternalIdMap.insert a'.internalId a'.proTxHash)[id]? = none
      rw [getElem?_insert_ite, if_neg (by omega)]
      exact htier.fresh' id (by omega)
    case total =>
      change bumpTotalCount a.internalId (l.setTier a).nTotalRegisteredCount = _
      rw [htier.total, hbump hid]
    case total' =>
      change bumpTotalCount a'.internalId (l'.setTier a').nTotalRegisteredCount = _
      rw [htier.total', hbump hid']

/-- A masternode is looked up in lists that are alike. -/
lemma Alike.matchMN {l l' : CDeterministicMNList G} (h : Alike c c' l l') {f f' : ListM G Unit}
    {g g' : CDeterministicMN G → ListM G Unit} (hf : KeepsAlike c c' f f')
    (hg : ∀ a a', a.withoutId = a'.withoutId → KeepsAlike c c' (g a) (g' a')) :
    KeepsAlike c c' (match l.getMN x with | none => f | some dmn => g dmn)
      (match l'.getMN x with | none => f' | some dmn => g' dmn) := by
  unfold getMN
  obtain ⟨ha, ha'⟩ | ⟨a, a', ha, ha', haa⟩ := cases_withoutId (h.mnMap x)
  · rw [ha, ha']
    exact hf
  · rw [ha, ha']
    exact hg a a' haa

lemma keepsAlike_removeMN : KeepsAlike c c' (removeMN crypto x) (removeMN crypto x) := by
  refine get fun l l' h => of_pinned fun _ => h.matchMN (throw _ _) fun a a' haa => ?_
  obtain ⟨hhash, hcoll, htype, hstate⟩ := fields_of_withoutId haa
  rw [hhash, hcoll, hstate, htype, h.properties]
  refine bind (changesAlike_delete.orRestore _ _) fun _ _ => ?_
  refine bind ((changesAlike_delete.onlyIf _).orRestore _ _) fun _ _ => ?_
  refine bind (changesAlike_delete.orRestore _ _) fun _ _ => ?_
  refine bind ((changesAlike_delete.onlyIf _).orRestore _ _) fun _ _ => ?_
  refine modify fun l l' h => ?_
  have hids : ∀ {map : Std.ExtTreeMap ℕ Uint256} {id : ℕ} (k : ℕ), map[id]? = none → (map.erase k)[id]? = none := by
    intro map id k hnone
    rw [getElem?_erase_ite, hnone, ite_self]
  have hfresh := fun id hle => hids a.internalId (h.fresh id hle)
  have hfresh' := fun id hle => hids a'.internalId (h.fresh' id hle)
  unfold eraseTier
  split_ifs
  · exact { h with tierOne := h.tierOne.erase x, mnMap := h.mnMap.erase x, fresh := hfresh, fresh' := hfresh' }
  · exact { h with tierTwo := h.tierTwo.erase x, mnMap := h.mnMap.erase x, fresh := hfresh, fresh' := hfresh' }

variable [DecidableEq G] {st : CDeterministicMNState G}

lemma keepsAlike_updateMN (ha : a.withoutId = a'.withoutId) :
    KeepsAlike c c' (updateMN crypto a st) (updateMN crypto a' st) := by
  obtain ⟨hhash, -, -, hstate⟩ := fields_of_withoutId ha
  have hnew : { a with pdmnState := st }.withoutId = { a' with pdmnState := st }.withoutId :=
    congrArg (fun d : CDeterministicMN G => { d with pdmnState := st }) ha
  refine get fun l l' h => ?_
  rw [hstate, h.properties, hhash]
  refine of_pinned fun _ => ?_
  refine bind (changesAlike_update.orRestore _ _) fun _ _ => ?_
  refine bind (changesAlike_update.orRestore _ _) fun _ _ => ?_
  refine bind (changesAlike_update.orRestore _ _) fun _ _ => ?_
  refine modify fun l l' h => ?_
  rw [hhash] at hnew
  have htier := h.setTier hnew
  exact { htier with mnMap := htier.mnMap.insert _ hnew }

lemma keepsAlike_updateMNByHash : KeepsAlike c c' (updateMNByHash crypto x st) (updateMNByHash crypto x st) :=
  get fun _ _ h => of_pinned fun _ => h.matchMN (throw _ _) fun _ _ haa => keepsAlike_updateMN haa

lemma keepsAlike_poSePunish {penalty : ℤ} :
    KeepsAlike c c' (poSePunish crypto x penalty) (poSePunish crypto x penalty) := by
  refine get fun l l' h => of_pinned fun _ => ?_
  split_ifs
  · exact throw _ _
  · refine h.matchMN (throw _ _) fun a a' haa => ?_
    rw [state_of_withoutId haa, h.punishedState]
    exact keepsAlike_updateMNByHash

lemma keepsAlike_poSeDecrease : KeepsAlike c c' (poSeDecrease crypto x) (poSeDecrease crypto x) := by
  refine get fun l l' h => of_pinned fun _ => h.matchMN (throw _ _) fun a a' haa => ?_
  rw [state_of_withoutId haa]
  split_ifs
  · exact keepsAlike_updateMNByHash
  · exact throw _ _

end Methods

/-! ### Blocks -/

/-- Lists that are alike, with room for `n` more registrations. -/
def AlikeWithin (n : ℕ) (list list' : CDeterministicMNList G) : Prop :=
  ∃ c c', Alike c c' list list' ∧ c + n ≤ maxSize ∧ c' + n ≤ maxSize

variable {rules : EvoRules G} {view : CCoinsView} {o : COutPoint} {n : ℕ} {pindexPrev : CBlockIndex} {tx : CTransaction}

lemma keepsAlike_pure : KeepsAlike c c' (pure () : ListM G Unit) (pure ()) := pure fun _ _ => id

lemma keepsAlike_invalidBlock {reason : String} :
    KeepsAlike c c' (invalidBlock reason : ListM G Unit) (invalidBlock reason) := throw _ _

/-- The owner of a property is looked up and changed. -/
lemma keepsAlike_withOwner {v : UniqueProperty} {f : CDeterministicMN G → ListM G Unit} {g : ListM G Unit}
    (hf : ∀ a a', a.withoutId = a'.withoutId → KeepsAlike c c' (f a) (f a')) (hg : KeepsAlike c c' g g) :
    KeepsAlike c c'
      (do let list ← get; match list.getUniquePropertyMN rules.crypto v with | some dmn => f dmn | none => g)
      (do let list ← get; match list.getUniquePropertyMN rules.crypto v with | some dmn => f dmn | none => g) := by
  refine get fun l l' h => of_pinned fun _ => ?_
  obtain ⟨ha, ha'⟩ | ⟨a, a', ha, ha', haa⟩ := cases_withoutId (h.getUniquePropertyMN rules.crypto v)
  · rw [ha, ha']
    exact hg
  · rw [ha, ha']
    exact hf a a' haa

lemma keepsAlike_removeReplaced : KeepsAlike c c' (removeReplaced rules o) (removeReplaced rules o) := by
  refine keepsAlike_withOwner (fun a a' haa => ?_) keepsAlike_pure
  obtain ⟨hhash, -⟩ := fields_of_withoutId haa
  rw [hhash]
  exact keepsAlike_removeMN

lemma keepsAlike_removeSpent : KeepsAlike c c' (removeSpent rules o) (removeSpent rules o) := by
  refine keepsAlike_withOwner (fun a a' haa => ?_) keepsAlike_pure
  obtain ⟨hhash, hcoll, -⟩ := fields_of_withoutId haa
  rw [hhash, hcoll]
  split_ifs
  · exact keepsAlike_removeMN
  · exact keepsAlike_pure

/-- A registration takes the next internal id of each list. -/
lemma parallel_registerMN :
    Parallel (AlikeWithin (n + 1)) (registerMN rules pindexPrev view tx) (registerMN rules pindexPrev view tx)
      fun _ _ => AlikeWithin n := by
  have hmax : maxSize < 2 ^ 32 - 1 := by decide
  unfold registerMN
  cases getProRegTx rules tx with
  | none => exact throw _ _
  | some proTx =>
    dsimp only
    split_ifs
    · exact throw _ _
    · exact throw _ _
    refine get fun l l' ⟨c, c', h, hc, hc'⟩ => ?_
    rw [h.total, h.total']
    generalize ha : registeredMN (pindexPrev.nHeight + 1) c tx proTx = a
    generalize ha' : registeredMN (pindexPrev.nHeight + 1) c' tx proTx = a'
    have haa : a.withoutId = a'.withoutId := by rw [← ha, ← ha']; rfl
    have hid : a.internalId = c := by rw [← ha]; rfl
    have hid' : a'.internalId = c' := by rw [← ha']; rfl
    obtain ⟨-, hcoll, -⟩ := fields_of_withoutId haa
    have hstart : ∀ s t, (s = l ∧ t = l' ∧ AlikeWithin (n + 1) l l') → Alike c c' s t := by
      rintro s t ⟨rfl, rfl, -⟩
      exact h
    refine weaken (R := Alike c c') (S := fun _ _ => Alike (c + 1) (c' + 1)) ?_ hstart
      (fun _ _ s t hst => ⟨c + 1, c' + 1, hst, by omega, by omega⟩)
    rw [hcoll]
    refine bind keepsAlike_removeReplaced fun _ _ => ?_
    refine get fun l l' h => of_pinned fun _ => ?_
    rw [h.hasUniqueProperty, h.hasUniqueProperty, h.hasUniqueProperty]
    split_ifs
    · exact throw _ _
    · exact throw _ _
    have hadd : Parallel _ (addMN rules.crypto a true) (addMN rules.crypto a' true) _ :=
      parallel_addMN haa (by omega) (by omega)
    rwa [hid, hid'] at hadd

lemma KeepsAlike.within {x y : ListM G Unit} (h : ∀ c c', KeepsAlike c c' x y) (n : ℕ) :
    Parallel (AlikeWithin n) x y fun _ _ => AlikeWithin n := by
  rintro l l' ⟨c, c', hl, hc, hc'⟩
  exact weaken (h c c') (fun _ _ => id) (fun _ _ s t hst => ⟨c, c', hst, hc, hc'⟩) l l' hl

variable [DecidableEq G]

lemma keepsAlike_confirmMNs {old old' : CDeterministicMNList G} (hold : MapAlike old.mnMap old'.mnMap) :
    KeepsAlike c c' (confirmMNs rules pindexPrev old) (confirmMNs rules pindexPrev old') := by
  refine forM (fun a a' haa => ?_) (forall₂_withoutId hold.mns_eq)
  obtain ⟨hhash, -, -, hstate⟩ := fields_of_withoutId haa
  rw [hhash, hstate]
  split_ifs
  · exact keepsAlike_updateMNByHash
  · exact keepsAlike_pure

lemma keepsAlike_decreasePoSePenalties :
    KeepsAlike c c' (decreasePoSePenalties rules) (decreasePoSePenalties rules) := by
  refine get fun l l' h => of_pinned fun _ => ?_
  have hlist : ((mns l.mnMap).filter fun dmn => isMNValid dmn && dmn.pdmnState.nPoSePenalty > 0).map (·.proTxHash) =
      ((mns l'.mnMap).filter fun dmn => isMNValid dmn && dmn.pdmnState.nPoSePenalty > 0).map (·.proTxHash) := by
    have heq := congrArg (fun ds : List (CDeterministicMN G) =>
      (ds.filter fun dmn => isMNValid dmn && dmn.pdmnState.nPoSePenalty > 0).map (·.proTxHash)) h.mnMap.mns_eq
    simp only [filter_map, map_map] at heq
    exact heq
  dsimp only
  rw [hlist]
  exact forM (P := Eq) (fun x x' hx => hx ▸ keepsAlike_poSeDecrease) (forall₂_same.mpr fun _ _ => rfl)

section

variable (pindexPrev tx)

include pindexPrev tx

lemma keepsAlike_updateServiceMN :
    KeepsAlike c c' (updateServiceMN rules pindexPrev tx) (updateServiceMN rules pindexPrev tx) := by
  unfold updateServiceMN
  cases getProUpServTx rules tx with
  | none => exact keepsAlike_invalidBlock
  | some proTx =>
    dsimp only
    split_ifs
    · exact keepsAlike_invalidBlock
    refine get fun l l' h => of_pinned fun _ => ?_
    rw [h.takenByOther rules (.addr proTx.addr) fun _ => rfl]
    split_ifs
    · exact keepsAlike_invalidBlock
    refine h.matchMN keepsAlike_invalidBlock fun a a' haa => ?_
    obtain ⟨-, -, htype, hstate⟩ := fields_of_withoutId haa
    rw [htype, hstate]
    split_ifs
    · exact keepsAlike_invalidBlock
    · exact keepsAlike_updateMNByHash

lemma keepsAlike_updateRegistrarMN :
    KeepsAlike c c' (updateRegistrarMN rules pindexPrev tx) (updateRegistrarMN rules pindexPrev tx) := by
  unfold updateRegistrarMN
  cases getProUpRegTx rules tx with
  | none => exact keepsAlike_invalidBlock
  | some proTx =>
    refine get fun l l' h => of_pinned fun _ => h.matchMN keepsAlike_invalidBlock fun a a' haa => ?_
    rw [state_of_withoutId haa]
    exact keepsAlike_updateMNByHash

lemma keepsAlike_revokeMN : KeepsAlike c c' (revokeMN rules pindexPrev tx) (revokeMN rules pindexPrev tx) := by
  unfold revokeMN
  cases getProUpRevTx rules tx with
  | none => exact keepsAlike_invalidBlock
  | some proTx =>
    refine get fun l l' h => of_pinned fun _ => h.matchMN keepsAlike_invalidBlock fun a a' haa => ?_
    rw [state_of_withoutId haa]
    exact keepsAlike_updateMNByHash

lemma keepsAlike_applyCommitment :
    KeepsAlike c c' (applyCommitment rules pindexPrev tx) (applyCommitment rules pindexPrev tx) := by
  unfold applyCommitment
  cases getTxPayload .quorumCommitment (CFinalCommitmentTxPayload.unserialize rules.crypto.bls) tx with
  | none => exact keepsAlike_invalidBlock
  | some qc =>
    dsimp only
    split_ifs
    · exact keepsAlike_pure
    cases rules.params.getLLMQ qc.commitment.llmqType with
    | none => exact keepsAlike_invalidBlock
    | some llmqParams =>
      dsimp only
      cases pindexPrev.getAncestor _ with
      | none => exact keepsAlike_invalidBlock
      | some base =>
        dsimp only
        split_ifs
        · exact keepsAlike_invalidBlock
        refine forM (P := Eq) (fun member member' hm => ?_) (forall₂_same.mpr fun _ _ => rfl)
        subst hm
        obtain ⟨proTxHash, i⟩ := member
        refine get fun l l' h => of_pinned fun _ => ?_
        have hhas : l.hasMN proTxHash = l'.hasMN proTxHash := by
          have hcontains := h.mnMap.contains_eq proTxHash
          rwa [Std.ExtTreeMap.contains_eq_isSome_getElem?, Std.ExtTreeMap.contains_eq_isSome_getElem?] at hcontains
        have hpenalty : l.calcPenalty 66 = l'.calcPenalty 66 := by
          unfold calcPenalty
          rw [h.calcMaxPoSePenalty]
        rw [hhas, hpenalty]
        split_ifs
        · cases qc.commitment.validMembers[i]? with
          | none => exact throw _ _
          | some valid =>
            cases valid with
            | true => exact keepsAlike_pure
            | false => exact keepsAlike_poSePunish
        · exact keepsAlike_pure

end

lemma parallel_applySpecialTx :
    Parallel (AlikeWithin ([tx].countP isRegistration + n)) (applySpecialTx rules pindexPrev view tx)
      (applySpecialTx rules pindexPrev view tx) fun _ _ => AlikeWithin n := by
  have hless : ∀ l l' : CDeterministicMNList G, AlikeWithin ([tx].countP isRegistration + n) l l' →
      AlikeWithin n l l' := by
    rintro l l' ⟨c, c', h, hc, hc'⟩
    exact ⟨c, c', h, by omega, by omega⟩
  have hkeeps : ∀ {x : ListM G Unit}, (∀ c c', KeepsAlike c c' x x) →
      Parallel (AlikeWithin ([tx].countP isRegistration + n)) x x fun _ _ => AlikeWithin n := fun hx =>
    (KeepsAlike.within hx n).weaken hless fun _ _ _ _ => id
  unfold applySpecialTx
  split_ifs with hversion
  · exact hkeeps fun _ _ => keepsAlike_pure
  split
  case h_1 htype =>
    have hone : [tx].countP isRegistration = 1 := by
      rw [countP_singleton, isRegistration, htype, not_not.mp hversion]
      rfl
    rw [hone, Nat.add_comm]
    exact parallel_registerMN
  case h_2 => exact hkeeps fun _ _ => keepsAlike_updateServiceMN pindexPrev tx
  case h_3 => exact hkeeps fun _ _ => keepsAlike_updateRegistrarMN pindexPrev tx
  case h_4 => exact hkeeps fun _ _ => keepsAlike_revokeMN pindexPrev tx
  case h_5 => exact hkeeps fun _ _ => keepsAlike_applyCommitment pindexPrev tx
  case h_6 => exact hkeeps fun _ _ => keepsAlike_pure

lemma parallel_applySpecialTxs {txs : List CTransaction} :
    Parallel (AlikeWithin (txs.countP isRegistration + n)) (txs.forM (applySpecialTx rules pindexPrev view))
      (txs.forM (applySpecialTx rules pindexPrev view)) fun _ _ => AlikeWithin n := by
  induction txs with
  | nil =>
    rw [countP_nil, Nat.zero_add]
    exact pure fun _ _ => id
  | cons tx txs ih =>
    rw [← singleton_append, countP_append, Nat.add_assoc]
    exact bind parallel_applySpecialTx fun _ _ => ih

lemma keepsAlike_markPaid {nHeight : ℤ} {payee payee' : Option (CDeterministicMN G)}
    (h : payee.map withoutId = payee'.map withoutId) :
    KeepsAlike c c' (markPaid rules nHeight payee) (markPaid rules nHeight payee') := by
  obtain ⟨rfl, rfl⟩ | ⟨p, p', rfl, rfl, hpp⟩ := cases_withoutId h
  · exact keepsAlike_pure
  · obtain ⟨hhash, -⟩ := fields_of_withoutId hpp
    unfold markPaid
    dsimp only
    rw [hhash]
    refine get fun l l' h => of_pinned fun _ => h.matchMN keepsAlike_pure fun a a' haa => ?_
    rw [state_of_withoutId haa]
    exact keepsAlike_updateMNByHash

lemma parallel_buildNewListFromBlock (pindexPrev : CBlockIndex) (view : CCoinsView) (block : CBlock) (n : ℕ) :
    Parallel (AlikeWithin (block.vtx.countP isRegistration + n)) (buildNewListFromBlock rules pindexPrev view block)
      (buildNewListFromBlock rules pindexPrev view block) fun _ _ => AlikeWithin n := by
  have hdrop : ∀ l l' : CDeterministicMNList G, AlikeWithin (block.vtx.countP isRegistration + n) l l' →
      AlikeWithin ((block.vtx.drop 1).countP isRegistration + n) l l' := by
    rintro l l' ⟨c, c', h, hc, hc'⟩
    have hle := (drop_sublist 1 block.vtx).countP_le (p := isRegistration)
    exact ⟨c, c', h, by omega, by omega⟩
  refine get fun old old' hold => of_pinned fun _ => ?_
  obtain ⟨d, d', hold, -⟩ := hold
  refine bind (S := fun _ _ => AlikeWithin ((block.vtx.drop 1).countP isRegistration + n)) ?_ fun _ _ => ?_
  · refine modify fun l l' hl => ?_
    obtain ⟨c, c', h, hc, hc'⟩ := hdrop l l' hl
    exact ⟨c, c', { h with blockHash := rfl, nHeight := rfl }, hc, hc'⟩
  refine bind (KeepsAlike.within (fun _ _ => keepsAlike_confirmMNs hold.mnMap) _) fun _ _ => ?_
  refine bind (KeepsAlike.within (fun _ _ => keepsAlike_decreasePoSePenalties) _) fun _ _ => ?_
  refine bind parallel_applySpecialTxs fun _ _ => ?_
  refine bind (S := fun _ _ => AlikeWithin n) ?_ fun _ _ => ?_
  · refine KeepsAlike.within (fun _ _ => ?_) n
    exact forM (P := Eq) (fun o o' ho => ho ▸ keepsAlike_removeSpent) (forall₂_same.mpr fun _ _ => rfl)
  refine bind (KeepsAlike.within (fun _ _ => keepsAlike_markPaid (hold.getMNPayee _ _)) n) fun _ _ => ?_
  refine KeepsAlike.within (fun _ _ => keepsAlike_markPaid ?_) n
  split_ifs
  · exact hold.getMNPayee _ _
  · rfl

end Blocx
