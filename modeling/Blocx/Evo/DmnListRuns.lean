import Blocx.Evo.DmnListInvariant

/-!
# Runs of calls on a masternode list

A list is reached from an empty one by any sequence of the calls that change it; a call that throws is caught and the
run goes on. `Consistent` says what the redundant maps of a list are, without their reference counts.

Every reachable list is consistent when the calls meet three conditions, which the code that makes them meets: an
update names an owner key, it does not replace an operator key by the same key in the other encoding, and an internal
id that is to be counted fits into the 32 bits of the counter. Without each of them a call succeeds and leaves a list
that is not consistent.
-/

namespace Blocx

open List

open CDeterministicMNList

variable {G : Type} {dmn : CDeterministicMN G} {crypto : Crypto G}

/-! ### Calls -/

/-- The calls that change a list. -/
inductive ListOp (G : Type) where
  | addMN (dmn : CDeterministicMN G) (fBumpTotalCount : Bool)
  | removeMN (proTxHash : Uint256)
  /-- `UpdateMN` of a masternode. -/
  | updateMN (oldDmn : CDeterministicMN G) (pdmnState : CDeterministicMNState G)
  /-- `UpdateMN` of the masternode with a hash. -/
  | updateMNByHash (proTxHash : Uint256) (pdmnState : CDeterministicMNState G)
  /-- `UpdateMN` of a masternode by a difference. -/
  | updateMNByDiff (oldDmn : CDeterministicMN G) (stateDiff : CDeterministicMNStateDiff G)
  | poSePunish (proTxHash : Uint256) (penalty : ℤ)
  | poSeDecrease (proTxHash : Uint256)

namespace ListOp

variable [DecidableEq G] (crypto : Crypto G)

/-- The call as a program. -/
def run : ListOp G → ListM G Unit
  | addMN dmn fBumpTotalCount => CDeterministicMNList.addMN crypto dmn fBumpTotalCount
  | removeMN proTxHash => CDeterministicMNList.removeMN crypto proTxHash
  | updateMN oldDmn pdmnState => CDeterministicMNList.updateMN crypto oldDmn pdmnState
  | updateMNByHash proTxHash pdmnState => CDeterministicMNList.updateMNByHash crypto proTxHash pdmnState
  | updateMNByDiff oldDmn stateDiff => CDeterministicMNList.updateMNByDiff crypto oldDmn stateDiff
  | poSePunish proTxHash penalty => CDeterministicMNList.poSePunish crypto proTxHash penalty
  | poSeDecrease proTxHash => CDeterministicMNList.poSeDecrease crypto proTxHash

/-- The list after the call, whether it returned or threw. -/
def after (op : ListOp G) (list : CDeterministicMNList G) : CDeterministicMNList G :=
  match (op.run crypto).run list with
  | .ok _ list' => list'
  | .error _ list' => list'

def counted (op : ListOp G) (list : CDeterministicMNList G) : List ℕ :=
  match op, (op.run crypto).run list with
  | addMN dmn true, .ok _ _ => [dmn.internalId]
  | _, _ => []

/-- The masternode that an update names is the listed one. -/
def Current (list : CDeterministicMNList G) : ListOp G → Prop
  | updateMN oldDmn _ => list.mnMap[oldDmn.proTxHash]? = some oldDmn
  | updateMNByDiff oldDmn _ => list.mnMap[oldDmn.proTxHash]? = some oldDmn
  | _ => True

/-- The new state has an owner key, and it does not have the old operator key in another encoding. -/
def KeepsKeys (st st' : CDeterministicMNState G) : Prop :=
  st'.keyIDOwner ≠ 0 ∧ (st.pubKeyOperator.eq st'.pubKeyOperator → st.pubKeyOperator = st'.pubKeyOperator)

/-- The conditions on a call. -/
def Admissible (list : CDeterministicMNList G) : ListOp G → Prop
  | addMN dmn fBumpTotalCount => fBumpTotalCount → dmn.internalId < 2 ^ 32 - 1
  | updateMN oldDmn pdmnState =>
    list.mnMap[oldDmn.proTxHash]? = some oldDmn ∧ KeepsKeys oldDmn.pdmnState pdmnState
  | updateMNByHash proTxHash pdmnState =>
    ∀ oldDmn : CDeterministicMN G, list.mnMap[proTxHash]? = some oldDmn → KeepsKeys oldDmn.pdmnState pdmnState
  | updateMNByDiff oldDmn stateDiff => list.mnMap[oldDmn.proTxHash]? = some oldDmn ∧
    KeepsKeys oldDmn.pdmnState (stateDiff.applyToState oldDmn.pdmnState)
  | _ => True

end ListOp

/-- The lists that calls with a condition reach from an empty list, with the counted internal ids. -/
inductive ReachableList [DecidableEq G] (crypto : Crypto G) (cond : CDeterministicMNList G → ListOp G → Prop) :
    CDeterministicMNList G → List ℕ → Prop
  | empty (blockHash : Uint256) (nHeight : ℤ) {nTotalRegisteredCount : ℕ} (h : nTotalRegisteredCount < 2 ^ 32) :
    ReachableList crypto cond { blockHash, nHeight, nTotalRegisteredCount } []
  | call {list : CDeterministicMNList G} {ids : List ℕ} (op : ListOp G) (h : ReachableList crypto cond list ids)
    (hop : cond list op) : ReachableList crypto cond (op.after crypto list) (op.counted crypto list ++ ids)

/-! ### What a consistent list is -/

/-- The collateral, the owner key, the address unless it is null and the operator key unless it is null. -/
def CDeterministicMN.uniqueProperties (bls : Bls G) (dmn : CDeterministicMN G) : List UniqueProperty :=
  [.collateral dmn.collateralOutpoint, .keyID dmn.pdmnState.keyIDOwner] ++
    (addrProperty dmn.pdmnState.addr).toList ++ (operatorProperty bls dmn.pdmnState.pubKeyOperator).toList

/-- The maps of a list agree with its masternodes. -/
structure Consistent (crypto : Crypto G) (list : CDeterministicMNList G) : Prop where
  /-- The first tier has the standard masternodes, with the same state. -/
  tierOne : ∀ (x : Uint256) (dmn : CDeterministicMN G), list.tierOne[x]? = some dmn ↔
    list.mnMap[x]? = some dmn ∧ dmn.nType = .standardMasternode
  /-- The second tier has the other masternodes, with the same state. -/
  tierTwo : ∀ (x : Uint256) (dmn : CDeterministicMN G), list.tierTwo[x]? = some dmn ↔
    list.mnMap[x]? = some dmn ∧ dmn.nType ≠ .standardMasternode
  /-- The internal ids are inverse to the masternodes. -/
  internalId : ∀ (id : ℕ) (x : Uint256), list.mnInternalIdMap[id]? = some x ↔
    ∃ dmn : CDeterministicMN G, list.mnMap[x]? = some dmn ∧ dmn.proTxHash = x ∧ dmn.internalId = id
  /-- A hash points to a masternode exactly when it is the hash of one of its properties. -/
  properties : ∀ k x : Uint256, (∃ c, list.mnUniquePropertyMap[k]? = some (x, c)) ↔
    ∃ dmn : CDeterministicMN G, list.mnMap[x]? = some dmn ∧
      ∃ v ∈ dmn.uniqueProperties crypto.bls, crypto.serializeHash v = k

section Consistent

variable {list : CDeterministicMNList G} {k : Uint256}

lemma mem_hashOf {v : Option UniqueProperty} : k ∈ hashOf crypto v ↔ ∃ w ∈ v.toList, crypto.serializeHash w = k := by
  cases v with
  | none => simp [hashOf]
  | some v => simp [hashOf, eq_comm]

lemma mem_hashes (hcoll : dmn.collateralOutpoint.isNull = false) (howner : dmn.pdmnState.keyIDOwner ≠ 0) :
    k ∈ dmn.hashes crypto ↔ ∃ v ∈ dmn.uniqueProperties crypto.bls, crypto.serializeHash v = k := by
  have hc : collateralProperty dmn.collateralOutpoint = some (.collateral dmn.collateralOutpoint) := by
    rw [collateralProperty, hcoll]
    rfl
  have ho : ownerProperty dmn.pdmnState.keyIDOwner = some (.keyID dmn.pdmnState.keyIDOwner) := by
    rw [ownerProperty, if_neg howner]
  unfold CDeterministicMN.hashes CDeterministicMN.uniqueProperties
  simp only [Multiset.mem_add, mem_hashOf, hc, ho, Option.toList_some, mem_append, or_and_right, exists_or,
    mem_cons, not_mem_nil, or_false]
  exact iff_of_eq (by ac_rfl)

lemma Rep.consistent (h : Rep crypto list) : Consistent crypto list where
  tierOne x dmn := by rw [h.tierOne, Option.filter_eq_some_iff, decide_eq_true_eq]
  tierTwo x dmn := by rw [h.tierTwo, Option.filter_eq_some_iff, decide_eq_true_eq]
  internalId id x := by
    rw [h.internalId]
    exact ⟨fun ⟨dmn, hx, hid⟩ => ⟨dmn, hx, h.proTxHash x dmn hx, hid⟩, fun ⟨dmn, hx, _, hid⟩ => ⟨dmn, hx, hid⟩⟩
  properties k x := by
    have hheld : (∃ c, list.mnUniquePropertyMap[k]? = some (x, c)) ↔ k ∈ held crypto list.mnMap x := by
      constructor
      · rintro ⟨c, hc⟩
        exact h.properties.mem_of_getElem? hc
      · intro hk
        exact ⟨_, h.properties.getElem?_eq_some hk⟩
    rw [hheld]
    unfold held
    cases hx : list.mnMap[x]? with
    | none => simp
    | some dmn => simp [mem_hashes (h.collateral x dmn hx) (h.keyIDOwner x dmn hx)]

end Consistent

/-! ### Runs -/

section

variable [DecidableEq G] {list list' : CDeterministicMNList G} {ids : List ℕ} {fBump : Bool} {op : ListOp G}

/-- A call that throws leaves the list as it was. -/
lemma ListOp.run_throw (op : ListOp G) : wp (op.run crypto) (fun _ _ => True) (fun _ l => l = list) list := by
  cases op with
  | addMN dmn fBumpTotalCount => exact (wp_addMN_maps crypto dmn fBumpTotalCount).imp fun _ _ _ => trivial
  | removeMN x => exact (wp_removeMN_maps crypto x).imp fun _ _ _ => trivial
  | updateMN oldDmn st => exact (wp_updateMN_maps crypto oldDmn st).imp fun _ _ _ => trivial
  | updateMNByHash x st => exact (wp_updateMNByHash_maps crypto x st).imp fun _ _ _ => trivial
  | updateMNByDiff oldDmn stateDiff => exact (wp_updateMN_maps crypto oldDmn _).imp fun _ _ _ => trivial
  | poSePunish x penalty => exact wp_poSePunish_throws crypto x penalty
  | poSeDecrease x => exact wp_poSeDecrease_throws crypto x

/-- What holds along a run: the representation invariant, and the counter is above the counted ids. -/
structure CountedRep (crypto : Crypto G) (list : CDeterministicMNList G) (ids : List ℕ) : Prop where
  rep : Rep crypto list
  count_lt : list.nTotalRegisteredCount < 2 ^ 32
  lt_count : ∀ id ∈ ids, id < list.nTotalRegisteredCount

omit [DecidableEq G] in
lemma Becomes.countedRep {map : MnMap G} (hl : Becomes crypto list map list.nTotalRegisteredCount list')
    (h : CountedRep crypto list ids) : CountedRep crypto list' ids where
  rep := hl.rep
  count_lt := by
    rw [hl.nTotalRegisteredCount]
    exact h.count_lt
  lt_count := by
    rw [hl.nTotalRegisteredCount]
    exact h.lt_count

omit [DecidableEq G] in
lemma countedRep_addMN (h : CountedRep crypto list ids) (hid : fBump → dmn.internalId < 2 ^ 32 - 1) :
    wlp (addMN crypto dmn fBump)
      (fun _ l => CountedRep crypto l ((if fBump then [dmn.internalId] else []) ++ ids)) list := by
  refine (wp_addMN h.rep dmn fBump).imp_true fun _ l ⟨_, hl⟩ => ?_
  cases fBump with
  | false => exact hl.countedRep h
  | true =>
    have hlt := hid rfl
    have hcount := hl.nTotalRegisteredCount
    rw [if_pos rfl, bumpTotalCount, Nat.mod_eq_of_lt (by omega : dmn.internalId + 1 < 2 ^ 64),
      Nat.mod_eq_of_lt (max_lt (by omega) h.count_lt)] at hcount
    refine ⟨hl.rep, ?_, fun id hmem => ?_⟩
    · rw [hcount]
      exact max_lt (by omega) h.count_lt
    · rw [hcount]
      obtain rfl | hmem := mem_cons.mp hmem
      · exact lt_max_of_lt_left (Nat.lt_succ_self _)
      · exact lt_max_of_lt_right (h.lt_count id hmem)

lemma ListOp.counted_of_error {e : DmnException} (h : (op.run crypto).run list = .error e list') :
    op.counted crypto list = [] := by
  unfold counted
  split <;> simp_all

lemma ListOp.counted_addMN_of_ok (h : ((ListOp.addMN dmn fBump).run crypto).run list = .ok () list') :
    (ListOp.addMN dmn fBump).counted crypto list = if fBump then [dmn.internalId] else [] := by
  unfold counted
  rw [h]
  cases fBump <;> rfl

lemma ListOp.after_countedRep (h : CountedRep crypto list ids) (hop : op.Admissible list) :
    CountedRep crypto (op.after crypto list) (op.counted crypto list ++ ids) := by
  unfold after
  cases hrun : (op.run crypto).run list with
  | error e l =>
    obtain rfl := op.run_throw.error hrun
    rw [counted_of_error hrun]
    exact h
  | ok u l =>
    cases op with
    | addMN dmn fBump =>
      rw [counted_addMN_of_ok hrun]
      exact (countedRep_addMN h hop).ok hrun
    | removeMN x => exact ((wp_removeMN h.rep x).ok hrun).2.countedRep h
    | updateMNByHash x st =>
      obtain ⟨old, _, _, hl⟩ := (wp_updateMNByHash h.rep hop).ok hrun
      exact hl.countedRep h
    | updateMN oldDmn st | updateMNByDiff oldDmn stateDiff =>
      exact ((wp_updateMN h.rep hop.1 hop.2.1 hop.2.2).ok hrun).2.countedRep h
    | poSePunish x penalty =>
      obtain ⟨dmn, _, _, hl⟩ := (wp_poSePunish h.rep x penalty).ok hrun
      exact hl.countedRep h
    | poSeDecrease x =>
      obtain ⟨dmn, _, _, hl⟩ := (wp_poSeDecrease h.rep x).ok hrun
      exact hl.countedRep h

lemma ReachableList.countedRep (h : ReachableList crypto ListOp.Admissible list ids) : CountedRep crypto list ids := by
  induction h with
  | empty blockHash nHeight hcount => exact ⟨Rep.empty _ _ _, hcount, nofun⟩
  | call op _ hop ih => exact ListOp.after_countedRep ih hop

/-- Every list that admissible calls reach is consistent, its counter is above the counted internal ids, and a call that
throws changes nothing. -/
theorem reachableList_consistent (h : ReachableList crypto ListOp.Admissible list ids) :
    Consistent crypto list ∧ (∀ id ∈ ids, id < list.nTotalRegisteredCount) ∧
      ∀ (op : ListOp G) (e : DmnException) (list' : CDeterministicMNList G),
        (op.run crypto).run list = .error e list' → list' = list :=
  ⟨h.countedRep.rep.consistent, h.countedRep.lt_count, fun op _ _ hrun => op.run_throw.error hrun⟩

end

/-! ### An instance, and runs that break the conditions -/

instance neZero_four : NeZero 4 := ⟨by decide⟩

/-- A scheme with four keys: key `k` is `2 k + 1` in the legacy encoding and `2 k + 2` in the basic one. -/
def toyBls : Bls (Fin 4) where
  serialize legacy k := BitVec.ofNat 384 (2 * k.val + if legacy then 1 else 2)
  fromBytes legacy b := [0, 1, 2, 3].find? fun k => b.toNat = 2 * k.val + if legacy then 1 else 2
  fromBytes_serialize := by decide +kernel
  serialize_ne_zero := by decide +kernel
  sigCanonical _ _ := true

/-- Hashes that tell small properties apart. -/
def toyCrypto : Crypto (Fin 4) where
  bls := toyBls
  serializeHash
    | .collateral o => o.hash <<< 8 ||| o.n.setWidth 256 <<< 2
    | .addr a => a.ip.setWidth 256 <<< 18 ||| a.port.setWidth 256 <<< 2 ||| 1
    | .keyID k => k.setWidth 256 <<< 2 ||| 2
    | .pubKey b => b.setWidth 256 <<< 2 ||| 3
  sha256 a b := a <<< 1 + b

/-- A masternode with owner key 5 and an operator key. -/
def toyMn : CDeterministicMN (Fin 4) where
  proTxHash := 7
  internalId := 0
  collateralOutpoint := ⟨7, 1⟩
  pdmnState := { keyIDOwner := 5, pubKeyOperator := .set 2 true }

/-- The list after one registration. -/
def toyList : CDeterministicMNList (Fin 4) := (ListOp.addMN toyMn true).after toyCrypto {}

lemma counted_toyMn : (ListOp.addMN toyMn true).counted toyCrypto {} = [0] := by decide

lemma reachableList_toyList {cond : CDeterministicMNList (Fin 4) → ListOp (Fin 4) → Prop}
    (h : cond {} (.addMN toyMn true)) : ReachableList toyCrypto cond toyList [0] := by
  have hempty : ReachableList toyCrypto cond {} [] := .empty 0 (-1) (Nat.two_pow_pos 32)
  have hcall := hempty.call _ h
  rwa [counted_toyMn] at hcall

def toyLite : CDeterministicMN (Fin 4) where
  proTxHash := 9
  internalId := 1
  collateralOutpoint := ⟨9, 1⟩
  nType := .lite
  pdmnState := { keyIDOwner := 6, pubKeyOperator := .set 3 true }

/-- The registration of a third masternode with the owner key of the first. -/
def sameOwnerOp : ListOp (Fin 4) := .addMN { toyLite with proTxHash := 11, pdmnState := toyMn.pdmnState } true

/-- An update to another owner key and another operator key. -/
def newKeysOp : ListOp (Fin 4) := .updateMNByHash 7 { keyIDOwner := 8, pubKeyOperator := .set 1 true }

/-- After `toyList` the second registration, the one that throws, the update and the removal of the second
masternode. -/
def toyChanged : CDeterministicMNList (Fin 4) :=
  [.addMN toyLite true, sameOwnerOp, newKeysOp, .removeMN 9].foldl (fun list op => op.after toyCrypto list) toyList

/-- A run with two registrations, one that throws, an update and a removal. -/
theorem reachableList_consistent_toyChanged :
    Consistent toyCrypto toyChanged ∧ (∀ id ∈ [1, 0], id < toyChanged.nTotalRegisteredCount) ∧
      ∀ (op : ListOp (Fin 4)) (e : DmnException) (list' : CDeterministicMNList (Fin 4)),
        (op.run toyCrypto).run toyChanged = .error e list' → list' = toyChanged := by
  have htoy : ReachableList toyCrypto ListOp.Admissible toyList [0] := reachableList_toyList fun _ => by decide
  have hadd := htoy.call (.addMN toyLite true) fun _ => by decide
  have hthrow := hadd.call sameOwnerOp fun _ => by decide
  have hupdate := hthrow.call newKeysOp fun old hold => by
    obtain rfl : toyMn = old := Option.some.inj (Eq.trans (by decide) hold)
    exact ⟨by decide, by decide⟩
  exact reachableList_consistent (hupdate.call (.removeMN 9) trivial)

def nullOwnerOp : ListOp (Fin 4) := .updateMNByHash 7 { toyMn.pdmnState with keyIDOwner := 0 }

/-- An update to the same operator key in the basic encoding. -/
def reencodeOp : ListOp (Fin 4) := .updateMNByHash 7 { toyMn.pdmnState with pubKeyOperator := .set 2 false }

/-- The registration of an internal id that is one too large for the counter. -/
def cutOp : ListOp (Fin 4) := .addMN { toyMn with internalId := 2 ^ 32 - 1 } true

/-- Calls that name the listed masternode are not enough: after an update to the null owner key the hash of the owner
key is missing, after an update to the other encoding of the operator key its hash is missing, and the counter is cut to
its 32 bits. The hashes of the properties that occur are different. -/
theorem reachableList_not_consistent :
    (∀ v ∈ [.collateral ⟨7, 1⟩, .keyID 5, .keyID 0, .pubKey 5, .pubKey 6],
      ∀ w ∈ [.collateral ⟨7, 1⟩, .keyID 5, .keyID 0, .pubKey 5, .pubKey 6],
        toyCrypto.serializeHash v = toyCrypto.serializeHash w → v = w) ∧
    (ReachableList toyCrypto ListOp.Current (nullOwnerOp.after toyCrypto toyList) [0] ∧
      ¬Consistent toyCrypto (nullOwnerOp.after toyCrypto toyList)) ∧
    (ReachableList toyCrypto ListOp.Current (reencodeOp.after toyCrypto toyList) [0] ∧
      ¬Consistent toyCrypto (reencodeOp.after toyCrypto toyList)) ∧
    (ReachableList toyCrypto ListOp.Current (cutOp.after toyCrypto {}) (cutOp.counted toyCrypto {} ++ []) ∧
      cutOp.counted toyCrypto {} = [2 ^ 32 - 1] ∧ (cutOp.after toyCrypto {}).nTotalRegisteredCount = 0) := by
  have htoy : ReachableList toyCrypto ListOp.Current toyList [0] := reachableList_toyList trivial
  refine ⟨by decide, ⟨.call nullOwnerOp htoy trivial, fun h => ?_⟩,
    ⟨.call reencodeOp htoy trivial, fun h => ?_⟩,
    .call cutOp (.empty 0 (-1) (Nat.two_pow_pos 32)) trivial, by decide, by decide⟩
  · obtain ⟨c, hc⟩ := (h.properties 2 7).mpr ⟨{ toyMn with pdmnState := { toyMn.pdmnState with keyIDOwner := 0 } },
      by decide, .keyID 0, by decide, by decide⟩
    cases hc
  · obtain ⟨c, hc⟩ := (h.properties 27 7).mpr
      ⟨{ toyMn with pdmnState := { toyMn.pdmnState with pubKeyOperator := .set 2 false } },
      by decide, .pubKey 6, by decide, by decide⟩
    cases hc

end Blocx
