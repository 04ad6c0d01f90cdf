import Blocx.Evo.DmnListDiff
import Blocx.Evo.DmnListRuns
import Mathlib.Data.Fintype.EquivFin

/-!
# Votes of masternodes whose keys changed

`CGovernanceManager::RemoveInvalidVotes` (`governance/governance.cpp`) compares the current masternode list with the one
of its last run, and has the votes of the masternodes checked whose keys changed or that are gone.

It finds the changed ones in the difference of the two lists. There an update stands under the internal id that the
masternode has in the current list, and this id is looked up in the last one. On one chain a masternode keeps its id.
After a reorganisation it may have another one, and then the wrong masternode is found, or none, and a null pointer is
read. The outpoints are right exactly if the ids of the changed masternodes are only exchanged among them, and none of
them has come to the keys of the one whose id it has (`IdsAgree`).
-/

namespace Blocx

open Option List

open CDeterministicMNStateDiff

open CDeterministicMNList CDeterministicMNState

variable {G : Type} [DecidableEq G]

/-! ### The loops -/

/-- A turn of a loop that may read a null pointer, and otherwise appends what it finds. -/
def appendFound {α β : Type} (find : α → Option (List β)) (found : List β) (a : α) : Option (List β) :=
  (find a).map (found ++ ·)

lemma foldlM_appendFound {α β : Type} {find : α → Option (List β)} {l : List α} {found out : List β} :
    l.foldlM (appendFound find) found = some out ↔
      (∀ a ∈ l, (find a).isSome) ∧ out = found ++ l.flatMap fun a => (find a).getD [] := by
  induction l generalizing found with
  | nil => simp [eq_comm (a := out)]
  | cons a l ih =>
    rw [foldlM_cons, appendFound]
    cases ha : find a with
    | none => simp [ha]
    | some xs => simp [ha, ih]

/-- What the first loop appends for an update. The old masternode is read only if a key changed. -/
def changedKeyMN (last : CDeterministicMNList G) (p : ℕ × CDeterministicMNStateDiff G) : Option (List COutPoint) :=
  match last.getMNByInternalId p.1 with
  | none => if p.2.has .keyIDVoting || p.2.has .pubKeyOperator then none else some []
  | some oldDmn =>
    if p.2.has .keyIDVoting && p.2.state.keyIDVoting ≠ oldDmn.pdmnState.keyIDVoting then some
      [oldDmn.collateralOutpoint]
    else if p.2.has .pubKeyOperator && !p.2.state.pubKeyOperator.eq oldDmn.pdmnState.pubKeyOperator then
      some [oldDmn.collateralOutpoint]
    else some []

/-- The outpoints for which `RemoveInvalidVotes` has the votes checked, in an order of the updates; `none` where a null
pointer is read. -/
def changedKeyMNs (last cur : CDeterministicMNList G) (order : UpdateOrder G) : Option (List COutPoint) := do
  let changed ← order.foldlM (appendFound (changedKeyMN last)) []
  (last.buildDiff cur).removedMns.toList.foldlM
    (appendFound fun id => (last.getMNByInternalId id).map fun oldDmn => [oldDmn.collateralOutpoint]) changed

/-! ### What is to be found -/

def KeysDiffer (a b : CDeterministicMNState G) : Prop :=
  a.keyIDVoting ≠ b.keyIDVoting ∨ a.pubKeyOperator.eq b.pubKeyOperator = false

/-- A key changed from `a` to `b`, and it is not the key of `c`. -/
def NewKey (a b c : CDeterministicMNState G) : Prop :=
  a.keyIDVoting ≠ b.keyIDVoting ∧ b.keyIDVoting ≠ c.keyIDVoting ∨
    a.pubKeyOperator.eq b.pubKeyOperator = false ∧ b.pubKeyOperator.eq c.pubKeyOperator = false

instance (a b : CDeterministicMNState G) : Decidable (KeysDiffer a b) := inferInstanceAs (Decidable (_ ∨ _))

instance (a b c : CDeterministicMNState G) : Decidable (NewKey a b c) := inferInstanceAs (Decidable (_ ∧ _ ∨ _ ∧ _))

/-- A masternode is in both lists, with other keys. -/
def KeyChanged (last cur : CDeterministicMNList G) (x : Uint256) : Prop :=
  ∃ a b : CDeterministicMN G, last.mnMap[x]? = some a ∧ cur.mnMap[x]? = some b ∧ KeysDiffer a.pdmnState b.pdmnState

/-- No null pointer is read, and the outpoints are the collaterals of the masternodes of the last list that are gone or
have other keys. -/
def KeysNoticed (last cur : CDeterministicMNList G) (order : UpdateOrder G) : Prop :=
  ∃ outpoints, changedKeyMNs last cur order = some outpoints ∧ ∀ o, o ∈ outpoints ↔
    ∃ (x : Uint256) (a : CDeterministicMN G), last.mnMap[x]? = some a ∧ a.collateralOutpoint = o ∧
      (cur.mnMap[x]? = none ∨ KeyChanged last cur x)

/-- A masternode `x` of both lists has a changed key which is not the key of `y`, the one of the last list with
its id. -/
def Notices (last cur : CDeterministicMNList G) (x y : Uint256) : Prop :=
  ∃ a b c : CDeterministicMN G, last.mnMap[x]? = some a ∧ cur.mnMap[x]? = some b ∧ last.mnMap[y]? = some c ∧
    c.internalId = b.internalId ∧ NewKey a.pdmnState b.pdmnState c.pdmnState

/-- Every masternode with changed keys has the id of one with changed keys, and not its keys. -/
def IdsAgree (last cur : CDeterministicMNList G) : Prop :=
  ∀ x, KeyChanged last cur x → ∃ y, KeyChanged last cur y ∧ Notices last cur x y

/-! ### The outpoints -/

lemma NewKey.keysDiffer {a b c : CDeterministicMNState G} (h : NewKey a b c) : KeysDiffer a b := h.imp And.left And.left

/-- An update of the difference of two lists. -/
lemma changedKeyMN_ofStates (last : CDeterministicMNList G) (id : ℕ) (a b : CDeterministicMNState G) :
    changedKeyMN last (id, .ofStates a b) = match last.getMNByInternalId id with
      | none => if KeysDiffer a b then none else some []
      | some c => some (if NewKey a b c.pdmnState then [c.collateralOutpoint] else []) := by
  have hvoting : (ofStates a b).has .keyIDVoting = decide (a.keyIDVoting ≠ b.keyIDVoting) := by
    simp [has_ofStates, Field.changed]
  have hoperator : (ofStates a b).has .pubKeyOperator = !a.pubKeyOperator.eq b.pubKeyOperator := by
    simp [has_ofStates, Field.changed]
  have hvoting' (h : a.keyIDVoting ≠ b.keyIDVoting) : (ofStates a b).state.keyIDVoting = b.keyIDVoting :=
    (get_state_ofStates a b .keyIDVoting).trans (if_pos (by simpa [hvoting] using h))
  have hoperator' (h : a.pubKeyOperator.eq b.pubKeyOperator = false) :
      (ofStates a b).state.pubKeyOperator = b.pubKeyOperator :=
    (get_state_ofStates a b .pubKeyOperator).trans (if_pos (by simpa [hoperator] using h))
  unfold changedKeyMN KeysDiffer NewKey
  cases last.getMNByInternalId id with
  | none =>
    simp only [hvoting, hoperator, Bool.or_eq_true, decide_eq_true_eq, Bool.not_eq_true']
    congr
  | some c =>
    by_cases hv : a.keyIDVoting = b.keyIDVoting <;> by_cases hc : b.keyIDVoting = c.pdmnState.keyIDVoting <;>
      by_cases ho : a.pubKeyOperator.eq b.pubKeyOperator = false <;>
      by_cases hp : b.pubKeyOperator.eq c.pdmnState.pubKeyOperator = false <;> simp_all

lemma fields_ne_zero_of_keysDiffer {a b : CDeterministicMNState G} (h : KeysDiffer a b) :
    (ofStates a b).fields ≠ 0 := by
  have hhas : ∃ f, (ofStates a b).has f = true := by
    obtain h | h := h
    · exact ⟨.keyIDVoting, by simp [has_ofStates, Field.changed, h]⟩
    · exact ⟨.pubKeyOperator, by simp [has_ofStates, Field.changed, h]⟩
  obtain ⟨f, hf⟩ := hhas
  intro hzero
  simp [has, hzero] at hf

section Outpoints

variable {crypto : Crypto G} {last cur : CDeterministicMNList G} {order : UpdateOrder G}
  (hlast : Rep crypto last) (hcur : Rep crypto cur) (horder : order.Perm (last.buildDiff cur).updatedMNs.toList)

include hlast hcur horder in
/-- The outpoints, when each changed masternode has an id of the last list. -/
lemma changedKeyMNs_spec : ((∀ x b, KeyChanged last cur x → cur.mnMap[x]? = some b →
      (last.getMNByInternalId b.internalId).isSome) → (changedKeyMNs last cur order).isSome) ∧
    ∀ outpoints, changedKeyMNs last cur order = some outpoints → ∀ o, o ∈ outpoints ↔
      ∃ y c, last.mnMap[y]? = some c ∧ c.collateralOutpoint = o ∧
        (cur.mnMap[y]? = none ∨ ∃ x, Notices last cur x y) := by
  have hmem : ∀ p : ℕ × CDeterministicMNStateDiff G, p ∈ order ↔ (last.buildDiff cur).updatedMNs[p.1]? = some p.2 :=
    fun p => by rw [horder.mem_iff, Std.ExtTreeMap.mem_toList_iff_getElem?_eq_some]
  have hremoved : ∀ id ∈ (last.buildDiff cur).removedMns.toList, ∃ c : CDeterministicMN G,
      last.getMNByInternalId id = some c ∧ last.mnMap[c.proTxHash]? = some c ∧ cur.mnMap[c.proTxHash]? = none := by
    intro id hid
    obtain ⟨y, c, hc, hnone, rfl⟩ := hlast.mem_removedMns.mp (Std.ExtTreeSet.mem_toList.mp hid)
    obtain rfl := hlast.proTxHash y c hc
    exact ⟨c, hlast.getMNByInternalId hc, hc, hnone⟩
  have hsome : ∀ out, changedKeyMNs last cur order = some out ↔ (∀ p ∈ order, (changedKeyMN last p).isSome) ∧
      out = order.flatMap (fun p => (changedKeyMN last p).getD []) ++
        (last.buildDiff cur).removedMns.toList.flatMap fun id =>
          ((last.getMNByInternalId id).map fun c => [c.collateralOutpoint]).getD [] := by
    intro out
    unfold changedKeyMNs
    simp only [bind_eq_bind, bind_eq_some_iff, foldlM_appendFound, nil_append]
    constructor
    · rintro ⟨_, ⟨hfound, rfl⟩, -, rfl⟩
      exact ⟨hfound, rfl⟩
    · rintro ⟨hfound, rfl⟩
      refine ⟨_, ⟨hfound, rfl⟩, fun id hid => ?_, rfl⟩
      obtain ⟨c, hc, -⟩ := hremoved id hid
      simp [hc]
  constructor
  · intro hids
    refine isSome_iff_exists.mpr ⟨_, (hsome _).mpr ⟨?_, rfl⟩⟩
    rintro ⟨id, d⟩ hp
    obtain ⟨x, a, b, ha, hb, rfl, rfl, -⟩ := hcur.getElem?_updatedMNs.mp ((hmem _).mp hp)
    rw [changedKeyMN_ofStates]
    cases hid : last.getMNByInternalId b.internalId with
    | some c => rfl
    | none =>
      have hsame : ¬KeysDiffer a.pdmnState b.pdmnState := fun hdiffer => by
        simpa [hid] using hids x b ⟨a, b, ha, hb, hdiffer⟩ hb
      simp [hsame]
  · intro outpoints hout o
    rw [((hsome outpoints).mp hout).2, mem_append, mem_flatMap, mem_flatMap]
    constructor
    · rintro (⟨⟨id, d⟩, hp, ho⟩ | ⟨id, hid, ho⟩)
      · obtain ⟨x, a, b, ha, hb, rfl, rfl, -⟩ := hcur.getElem?_updatedMNs.mp ((hmem _).mp hp)
        rw [changedKeyMN_ofStates] at ho
        cases hid : last.getMNByInternalId b.internalId with
        | none =>
          simp only [hid] at ho
          split_ifs at ho <;> cases ho
        | some c =>
          simp only [hid, getD_some] at ho
          split_ifs at ho with hnew
          · obtain ⟨hc, hcid⟩ := hlast.of_getMNByInternalId hid
            exact ⟨c.proTxHash, c, hc, (mem_singleton.mp ho).symm, .inr ⟨x, a, b, c, ha, hb, hc, hcid, hnew⟩⟩
          · cases ho
      · obtain ⟨c, hget, hc, hnone⟩ := hremoved id hid
        simp only [hget, map_some, getD_some, mem_singleton] at ho
        exact ⟨c.proTxHash, c, hc, ho.symm, .inl hnone⟩
    · rintro ⟨y, c, hc, rfl, hnone | ⟨x, a, b, c', ha, hb, hc', hcid, hnew⟩⟩
      · refine .inr ⟨c.internalId, ?_, by simp [hlast.getMNByInternalId hc]⟩
        exact Std.ExtTreeSet.mem_toList.mpr (hlast.mem_removedMns.mpr ⟨y, c, hc, hnone, rfl⟩)
      · obtain rfl : c' = c := some.inj (hc'.symm.trans hc)
        refine .inl ⟨(b.internalId, .ofStates a.pdmnState b.pdmnState), (hmem _).mpr (hcur.getElem?_updatedMNs.mpr
          ⟨x, a, b, ha, hb, rfl, rfl, fields_ne_zero_of_keysDiffer hnew.keysDiffer⟩), ?_⟩
        simp [changedKeyMN_ofStates, ← hcid, hlast.getMNByInternalId hc, hnew]

/-! ### When they are the right ones -/

/-- On a finite type a relation that leads from every point of a set into the set, and never from two points to one,
leads to every point of it. -/
lemma exists_rel_of_injective {α : Type} [Finite α] {K : α → Prop} {R : α → α → Prop}
    (hinj : ∀ {x x' y}, R x y → R x' y → x = x') (h : ∀ x, K x → ∃ y, K y ∧ R x y) :
    ∀ y, K y → ∃ x, K x ∧ R x y := by
  choose next hnext using fun x : { x // K x } => h x.1 x.2
  intro y hy
  have hinjective : Function.Injective fun x : { x // K x } => (⟨next x, (hnext x).1⟩ : { x // K x }) := by
    intro x x' heq
    have heq' : next x = next x' := congrArg Subtype.val heq
    exact Subtype.ext (hinj (hnext x).2 (heq' ▸ (hnext x').2))
  obtain ⟨x, hx⟩ := Finite.surjective_of_injective hinjective ⟨y, hy⟩
  obtain rfl : next x = y := congrArg Subtype.val hx
  exact ⟨x, x.2, (hnext x).2⟩

instance : Finite Uint256 := Finite.of_injective BitVec.toFin fun _ _ => BitVec.eq_of_toFin_eq

lemma Notices.keyChanged {x y : Uint256} : Notices last cur x y → KeyChanged last cur x
  | ⟨a, b, _, ha, hb, _, _, hnew⟩ => ⟨a, b, ha, hb, hnew.keysDiffer⟩

include hcur in
lemma Notices.eq_left {x x' y : Uint256} : Notices last cur x y → Notices last cur x' y → x = x'
  | ⟨_, _, _, _, hb, hc, hid, _⟩, ⟨_, _, _, _, hb', hc', hid', _⟩ => by
    obtain rfl := some.inj (hc.symm.trans hc')
    exact hcur.eq_of_internalId hb hb' (hid.symm.trans hid')

include hlast in
lemma Notices.eq_right {x y y' : Uint256} : Notices last cur x y → Notices last cur x y' → y = y'
  | ⟨_, _, _, _, hb, hc, hid, _⟩, ⟨_, _, _, _, hb', hc', hid', _⟩ => by
    obtain rfl := some.inj (hb.symm.trans hb')
    exact hlast.eq_of_internalId hc hc' (hid.trans hid'.symm)

include hlast hcur horder

/-- The right outpoints, masternode by masternode. -/
lemma keysNoticed_iff : KeysNoticed last cur order ↔ (changedKeyMNs last cur order).isSome ∧
    ∀ y a b, last.mnMap[y]? = some a → cur.mnMap[y]? = some b →
      ((∃ x, Notices last cur x y) ↔ KeyChanged last cur y) := by
  have hout := (changedKeyMNs_spec hlast hcur horder).2
  rw [isSome_iff_exists]
  constructor
  · rintro ⟨outpoints, heq, hright⟩
    refine ⟨⟨outpoints, heq⟩, fun y a b ha hb => ?_⟩
    have hboth := (hout outpoints heq a.collateralOutpoint).symm.trans (hright a.collateralOutpoint)
    constructor
    · intro hnotice
      obtain ⟨x, a', ha', hcoll, hx⟩ := hboth.mp ⟨y, a, ha, rfl, .inr hnotice⟩
      obtain rfl := hlast.eq_of_collateral ha' ha hcoll
      simpa [hb] using hx
    · intro hchanged
      obtain ⟨x, a', ha', hcoll, hx⟩ := hboth.mpr ⟨y, a, ha, rfl, .inr hchanged⟩
      obtain rfl := hlast.eq_of_collateral ha' ha hcoll
      simpa [hb] using hx
  · rintro ⟨⟨outpoints, heq⟩, hright⟩
    refine ⟨outpoints, heq, fun o => (hout outpoints heq o).trans ?_⟩
    refine exists_congr fun y => exists_congr fun a => and_congr_right fun ha => and_congr_right fun _ => ?_
    cases hb : cur.mnMap[y]? with
    | none => simp
    | some b => simpa using hright y a b ha hb

/-- `RemoveInvalidVotes` never reads a null pointer and has the votes of exactly the masternodes checked that are gone
or have other keys, if and only if the ids of the masternodes with other keys agree. -/
theorem changedKeyMNs_right_iff : KeysNoticed last cur order ↔ IdsAgree last cur := by
  rw [keysNoticed_iff hlast hcur horder]
  constructor
  · rintro ⟨-, hright⟩
    refine exists_rel_of_injective (R := fun y x => Notices last cur x y) (Notices.eq_right hlast) fun y hy => ?_
    obtain ⟨a, b, ha, hb, -⟩ := id hy
    obtain ⟨x, hx⟩ := (hright y a b ha hb).mpr hy
    exact ⟨x, hx.keyChanged, hx⟩
  · intro hagree
    constructor
    · refine (changedKeyMNs_spec hlast hcur horder).1 fun x b hx hb => ?_
      obtain ⟨y, -, a, b', c, -, hb', hc, hid, -⟩ := hagree x hx
      obtain rfl := some.inj (hb.symm.trans hb')
      simp [← hid, hlast.getMNByInternalId hc]
    · intro y a b ha hb
      constructor
      · rintro ⟨x, hx⟩
        obtain ⟨y', hy', hx'⟩ := hagree x hx.keyChanged
        exact hx.eq_right hlast hx' ▸ hy'
      · intro hy
        obtain ⟨x, -, hx⟩ := exists_rel_of_injective (R := Notices last cur) (Notices.eq_left hcur) hagree y hy
        exact ⟨x, hx⟩

end Outpoints

/-! ### Two branches -/

def toyMn' : CDeterministicMN (Fin 4) where
  proTxHash := 9
  internalId := 0
  collateralOutpoint := ⟨9, 1⟩
  pdmnState := { keyIDOwner := 6, pubKeyOperator := .set 3 true }

def toyBranch (first second : CDeterministicMN (Fin 4)) : CDeterministicMNList (Fin 4) :=
  (ListOp.addMN { second with internalId := 1 } true).after toyCrypto ((ListOp.addMN first true).after toyCrypto {})

def withVotingKey (list : CDeterministicMNList (Fin 4)) : CDeterministicMNList (Fin 4) :=
  (ListOp.updateMNByHash 7 { toyMn.pdmnState with keyIDVoting := 1 }).after toyCrypto list

lemma reachable_toyBranch (first second : CDeterministicMN (Fin 4)) (h : first.internalId = 0) :
    ∃ ids, ReachableList toyCrypto ListOp.Admissible (toyBranch first second) ids := by
  have hempty : ReachableList toyCrypto ListOp.Admissible {} [] := .empty 0 (-1) (Nat.two_pow_pos 32)
  exact ⟨_, (hempty.call (.addMN first true) fun _ => by simp [h]).call (.addMN { second with internalId := 1 } true)
    fun _ => by simp⟩

/-- The update keeps the other keys. -/
lemma rep_withVotingKey {list : CDeterministicMNList (Fin 4)} {ids : List ℕ}
    (h : ReachableList toyCrypto ListOp.Admissible list ids) {dmn : CDeterministicMN (Fin 4)}
    (hdmn : list.mnMap[(7 : Uint256)]? = some dmn) (hstate : dmn.pdmnState = toyMn.pdmnState) :
    Rep toyCrypto (withVotingKey list) := by
  refine (h.call (.updateMNByHash 7 { toyMn.pdmnState with keyIDVoting := 1 }) fun old hold => ?_).countedRep.rep
  obtain rfl := some.inj (hdmn.symm.trans hold)
  exact ⟨by decide, fun _ => by rw [hstate]⟩

/-- A new voting key on one chain. -/
theorem changedKeyMNs_right_toyList :
    Rep toyCrypto toyList ∧ Rep toyCrypto (withVotingKey toyList) ∧
      (KeysNoticed toyList (withVotingKey toyList) (toyList.buildDiff (withVotingKey toyList)).updatedMNs.toList ↔
        IdsAgree toyList (withVotingKey toyList)) := by
  have htoy : ReachableList toyCrypto ListOp.Admissible toyList [0] := reachableList_toyList fun _ => by decide
  have hcur : Rep toyCrypto (withVotingKey toyList) :=
    rep_withVotingKey htoy (show toyList.mnMap[(7 : Uint256)]? = some toyMn by decide) rfl
  exact ⟨htoy.countedRep.rep, hcur, changedKeyMNs_right_iff htoy.countedRep.rep hcur (.refl _)⟩

/-- On the new branch the masternodes were registered in the other order, and then the first one got a new voting key.
If the second one is not in the last list, a null pointer is read, and otherwise the votes of the second one are
checked. -/
theorem changedKeyMNs_reorg :
    let cur := withVotingKey (toyBranch toyMn' toyMn)
    Rep toyCrypto cur ∧
      (Rep toyCrypto toyList ∧ changedKeyMNs toyList cur (toyList.buildDiff cur).updatedMNs.toList = none ∧
        ¬KeysNoticed toyList cur (toyList.buildDiff cur).updatedMNs.toList) ∧
      let last := toyBranch toyMn toyMn'
      Rep toyCrypto last ∧ changedKeyMNs last cur (last.buildDiff cur).updatedMNs.toList = some [⟨9, 1⟩] ∧
        ¬KeysNoticed last cur (last.buildDiff cur).updatedMNs.toList := by
  intro cur
  have htoy : ReachableList toyCrypto ListOp.Admissible toyList [0] := reachableList_toyList fun _ => by decide
  obtain ⟨_, hbranch⟩ := reachable_toyBranch toyMn' toyMn rfl
  obtain ⟨_, hlast⟩ := reachable_toyBranch toyMn toyMn' rfl
  have hmn : (toyBranch toyMn' toyMn).mnMap[(7 : Uint256)]? = some { toyMn with internalId := 1 } := by decide
  have hnull : changedKeyMNs toyList cur (toyList.buildDiff cur).updatedMNs.toList = none := by decide
  have hother : changedKeyMNs (toyBranch toyMn toyMn') cur
      ((toyBranch toyMn toyMn').buildDiff cur).updatedMNs.toList = some [⟨9, 1⟩] := by decide
  refine ⟨rep_withVotingKey hbranch hmn rfl, ⟨htoy.countedRep.rep, hnull, ?_⟩, hlast.countedRep.rep, hother, ?_⟩
  · rintro ⟨outpoints, hsome, -⟩
    simp [hnull] at hsome
  · rintro ⟨outpoints, hsome, hright⟩
    obtain rfl := some.inj (hother.symm.trans hsome)
    have hchanged : KeyChanged (toyBranch toyMn toyMn') cur 7 :=
      ⟨toyMn, { toyMn with internalId := 1, pdmnState := { toyMn.pdmnState with keyIDVoting := 1 } },
        by decide, by decide, by decide⟩
    have hmem := (hright ⟨7, 1⟩).mpr ⟨7, toyMn, by decide, rfl, .inr hchanged⟩
    exact absurd hmem (by decide)

end Blocx
