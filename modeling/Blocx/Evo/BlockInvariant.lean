import Blocx.Evo.BlockSteps
import Blocx.Evo.DmnListRuns
import Blocx.Evo.DmnWire

/-!
# What a block does to a masternode list

The lists that blocks build satisfy more than the representation invariant. `MnWf` says what is true of every
masternode: its state can be written and read back, and it stands for a registration that took place. `Evolved` compares
the list of the previous block with the list while a block is applied to it: a masternode that is in both keeps
everything but its state, and a property that a masternode of the old list had is not taken over by another one while
the first is still listed. The second is what makes the order irrelevant in which changes are applied later.

The checks of special transactions are made against the old list, and they are what excludes such a takeover within a
block. They say nothing about collaterals; for those the hashes of the properties that occur must be different, because
one map holds the hashes of all properties.
-/

namespace Blocx

open List

open CDeterministicMNState

open CDeterministicMNList Wire CDeterministicMNState

variable {G : Type} {v : UniqueProperty} {dmn : CDeterministicMN G} {bls : Bls G} {key : CBLSLazyPublicKey G}
  {o : COutPoint} {st : CDeterministicMNState G} {height : ℤ} {x : Uint256} {txs : Set CTransaction}
  {rules : EvoRules G} {proTx : CProRegTx G}

/-! ### Properties -/

lemma mem_uniqueProperties :
    v ∈ dmn.uniqueProperties bls ↔ v = .collateral dmn.collateralOutpoint ∨ v = .keyID dmn.pdmnState.keyIDOwner ∨
      addrProperty dmn.pdmnState.addr = some v ∨ operatorProperty bls dmn.pdmnState.pubKeyOperator = some v := by
  unfold CDeterministicMN.uniqueProperties
  simp only [mem_append, mem_cons, not_mem_nil, or_false, Option.mem_toList, or_assoc]

lemma eq_of_addrProperty {a : CService} (h : addrProperty a = some v) : v = .addr a := by
  unfold addrProperty at h
  split_ifs at h
  exact (Option.some.inj h).symm

lemma eq_of_operatorProperty (h : operatorProperty bls key = some v) : v = keyProperty bls key := by
  cases key with
  | null => cases h
  | set k l => exact (Option.some.inj h).symm

lemma collateral_of_mem_uniqueProperties (h : .collateral o ∈ dmn.uniqueProperties bls) :
    dmn.collateralOutpoint = o := by
  obtain h | h | h | h := mem_uniqueProperties.mp h
  · exact (UniqueProperty.collateral.inj h).symm
  · cases h
  · cases eq_of_addrProperty h
  · cases eq_of_operatorProperty h

/-! ### What occurs on a chain -/

/-- The properties that a transaction names. -/
def namedProperties (rules : EvoRules G) (tx : CTransaction) : List UniqueProperty :=
  (match getProRegTx rules tx with
    | some ptx => [.collateral (ptx.collateral tx), .addr ptx.addr, .keyID ptx.keyIDOwner,
        keyProperty rules.crypto.bls ptx.pubKeyOperator]
    | none => []) ++
  (match getProUpServTx rules tx with
    | some ptx => [.addr ptx.addr]
    | none => []) ++
  (match getProUpRegTx rules tx with
    | some ptx => [keyProperty rules.crypto.bls ptx.pubKeyOperator]
    | none => [])

/-- A transaction of a set names the property. -/
def Occurs (rules : EvoRules G) (txs : Set CTransaction) (v : UniqueProperty) : Prop :=
  ∃ tx ∈ txs, v ∈ namedProperties rules tx

/-- The transactions of a set have different hashes, and so have the properties that they name. -/
structure DistinctHashes (rules : EvoRules G) (txs : Set CTransaction) : Prop where
  txHash : Set.InjOn CTransaction.hash txs
  property : Set.InjOn rules.crypto.serializeHash {v | Occurs rules txs v}

/-! ### Well-formed masternodes -/

/-- A masternode that a registration among the transactions made. -/
structure MnWf (rules : EvoRules G) (txs : Set CTransaction) (dmn : CDeterministicMN G) : Prop where
  nType : dmn.nType.isValid
  /-- Its registration, which has its owner key. -/
  registered : ∃ tx ∈ txs, tx.hash = dmn.proTxHash ∧
    ∃ ptx, getProRegTx rules tx = some ptx ∧ ptx.keyIDOwner = dmn.pdmnState.keyIDOwner
  /-- Its properties were named by transactions. -/
  occurs : ∀ v ∈ dmn.uniqueProperties rules.crypto.bls, Occurs rules txs v
  state : StateWf dmn.pdmnState

/-- A list that blocks have built. -/
structure ListWf (rules : EvoRules G) (txs : Set CTransaction) (list : CDeterministicMNList G) : Prop where
  rep : Rep rules.crypto list
  mn : ∀ (x : Uint256) (dmn : CDeterministicMN G), list.mnMap[x]? = some dmn → MnWf rules txs dmn
  internalId : ∀ (x : Uint256) (dmn : CDeterministicMN G), list.mnMap[x]? = some dmn →
    dmn.internalId < list.nTotalRegisteredCount
  total : list.nTotalRegisteredCount ≤ maxSize
  nHeight : IsInt32 list.nHeight

/-! ### Evolving from the list of the previous block -/

/-- A list on the way from the list of the previous block to the one of a block at a height. -/
structure Evolved (rules : EvoRules G) (txs : Set CTransaction) (old : CDeterministicMNList G) (height : ℤ)
    (list : CDeterministicMNList G) : Prop where
  rep : Rep rules.crypto list
  mn : ∀ (x : Uint256) (dmn : CDeterministicMN G), list.mnMap[x]? = some dmn → MnWf rules txs dmn
  internalId : ∀ (x : Uint256) (dmn : CDeterministicMN G), list.mnMap[x]? = some dmn →
    dmn.internalId < list.nTotalRegisteredCount
  /-- A masternode that is in both lists keeps everything but its state. -/
  kept : ∀ (x : Uint256) (a b : CDeterministicMN G), old.mnMap[x]? = some a → list.mnMap[x]? = some b →
    b = { a with pdmnState := b.pdmnState }
  /-- Who had a property that another masternode has now is no longer listed. -/
  noTakeover : ∀ (x y : Uint256) (a b : CDeterministicMN G) (k : Uint256), old.mnMap[x]? = some a →
    k ∈ a.hashes rules.crypto → list.mnMap[y]? = some b → k ∈ b.hashes rules.crypto → x ≠ y → list.mnMap[x]? = none
  total : old.nTotalRegisteredCount ≤ list.nTotalRegisteredCount
  blockHash : list.blockHash = 0
  nHeight : list.nHeight = height

/-- A state that a masternode may get. -/
structure NewState [DecidableEq G] (rules : EvoRules G) (txs : Set CTransaction) (old : CDeterministicMNList G)
    (x : Uint256) (dmn : CDeterministicMN G) (st : CDeterministicMNState G) : Prop where
  wf : StateWf st
  keyIDOwner : st.keyIDOwner = dmn.pdmnState.keyIDOwner
  /-- The operator key is in no other encoding. -/
  pubKeyOperator : dmn.pdmnState.pubKeyOperator.eq st.pubKeyOperator → dmn.pdmnState.pubKeyOperator = st.pubKeyOperator
  /-- A property that is new was named, and no other masternode of the old list had it. -/
  properties : ∀ v ∈ { dmn with pdmnState := st }.uniqueProperties rules.crypto.bls,
    v ∈ dmn.uniqueProperties rules.crypto.bls ∨ Occurs rules txs v ∧
      ∀ (y : Uint256) (a : CDeterministicMN G), old.mnMap[y]? = some a →
        rules.crypto.serializeHash v ∈ a.hashes rules.crypto → y = x

section Changes

variable {old list list' : CDeterministicMNList G}

/-- What `Evolved` asks of a masternode. -/
def EvolvedMn (rules : EvoRules G) (txs : Set CTransaction) (old : CDeterministicMNList G) (n : ℕ) (x : Uint256)
    (dmn : CDeterministicMN G) : Prop :=
  MnWf rules txs dmn ∧ dmn.internalId < n ∧
    ∀ a : CDeterministicMN G, old.mnMap[x]? = some a → dmn = { a with pdmnState := dmn.pdmnState }

variable (h : Evolved rules txs old height list) {n : ℕ}

include h

lemma Evolved.each (hn : list.nTotalRegisteredCount ≤ n) (y : Uint256) (d : CDeterministicMN G)
    (hd : list.mnMap[y]? = some d) : EvolvedMn rules txs old n y d :=
  ⟨h.mn y d hd, (h.internalId y d hd).trans_le hn, fun a ha => h.kept y a d ha hd⟩

/-- The list gets other masternodes. -/
lemma Evolved.becomes {m : MnMap G} (hl : Becomes rules.crypto list m n list') (hn : list.nTotalRegisteredCount ≤ n)
    (hmn : ∀ y d, m[y]? = some d → EvolvedMn rules txs old n y d)
    (hno : ∀ (y z : Uint256) a b (k : Uint256), old.mnMap[y]? = some a →
      k ∈ a.hashes rules.crypto → m[z]? = some b → k ∈ b.hashes rules.crypto → y ≠ z → m[y]? = none) :
    Evolved rules txs old height list' := by
  obtain rfl := hl.mnMap
  obtain rfl := hl.nTotalRegisteredCount
  exact ⟨hl.rep, fun y d hd => (hmn y d hd).1, fun y d hd => (hmn y d hd).2.1,
    fun y a b ha hb => (hmn y b hb).2.2 a ha, hno, h.total.trans hn, hl.blockHash.trans h.blockHash,
    hl.nHeight.trans h.nHeight⟩

lemma Evolved.update [DecidableEq G] (hx : list.mnMap[x]? = some dmn)
    (hl : Becomes rules.crypto list (list.mnMap.insert x { dmn with pdmnState := st }) list.nTotalRegisteredCount list')
    (hst : NewState rules txs old x dmn st) : Evolved rules txs old height list' := by
  have hmn := h.mn x dmn hx
  refine h.becomes hl le_rfl (forall_getElem?_insert ⟨⟨hmn.nType, ?_, fun v hv => ?_, hst.wf⟩, h.internalId x dmn hx,
    fun a ha => ?_⟩ (h.each le_rfl)) fun y z a b k ha hka hb hkb hyz => ?_
  · rw [hst.keyIDOwner]
    exact hmn.registered
  · exact (hst.properties v hv).elim (hmn.occurs v) And.left
  · rw [h.kept x a dmn ha hx]
  · rw [getElem?_insert_ite] at hb ⊢
    by_cases hz : z = x
    · subst hz
      rw [if_pos rfl] at hb
      cases hb
      rw [if_neg hyz]
      have howner' : ({ dmn with pdmnState := st } : CDeterministicMN G).pdmnState.keyIDOwner ≠ 0 := by
        rw [hst.keyIDOwner]
        exact h.rep.keyIDOwner z dmn hx
      obtain ⟨v, hv, rfl⟩ := (mem_hashes (by exact h.rep.collateral z dmn hx) howner').mp hkb
      obtain hv | ⟨-, hfree⟩ := hst.properties v hv
      · have hk := (mem_hashes (h.rep.collateral z dmn hx) (h.rep.keyIDOwner z dmn hx)).mpr ⟨v, hv, rfl⟩
        exact h.noTakeover y z a dmn _ ha hka hx hk hyz
      · exact absurd (hfree y a ha hka) hyz
    · -- the one that had the property is not the updated one, which is listed
      rw [if_neg hz] at hb
      have hnone := h.noTakeover y z a b k ha hka hb hkb hyz
      rw [if_neg, hnone]
      rintro rfl
      cases hnone.symm.trans hx

lemma Evolved.erase (hl : Becomes rules.crypto list (list.mnMap.erase x) list.nTotalRegisteredCount list') :
    Evolved rules txs old height list' := by
  have hsub : ∀ (y : Uint256) d, (list.mnMap.erase x)[y]? = some d → list.mnMap[y]? = some d := by
    intro y d hd
    rw [getElem?_erase_ite] at hd
    split_ifs at hd
    exact hd
  refine h.becomes hl le_rfl (fun y d hd => h.each le_rfl y d (hsub y d hd)) fun y z a b k ha hka hb hkb hyz => ?_
  rw [getElem?_erase_ite, h.noTakeover y z a b k ha hka (hsub z b hb) hkb hyz, ite_self]

/-- A masternode is registered under the next internal id. -/
lemma Evolved.add (hl : Becomes rules.crypto list (list.mnMap.insert dmn.proTxHash dmn)
      (bumpTotalCount dmn.internalId list.nTotalRegisteredCount) list')
    (hid : dmn.internalId = list.nTotalRegisteredCount) (hlt : list.nTotalRegisteredCount + 1 < 2 ^ 32)
    (hmn : MnWf rules txs dmn) (hnew : old.mnMap[dmn.proTxHash]? = none)
    (hfree : ∀ k ∈ dmn.hashes rules.crypto, ∀ (y : Uint256) a, old.mnMap[y]? = some a →
      k ∈ a.hashes rules.crypto → list.mnMap[y]? = none) :
    Evolved rules txs old height list' ∧ list'.nTotalRegisteredCount = list.nTotalRegisteredCount + 1 := by
  have hbump : bumpTotalCount dmn.internalId list.nTotalRegisteredCount = list.nTotalRegisteredCount + 1 := by
    rw [bumpTotalCount, hid, Nat.mod_eq_of_lt (by omega : _ < 2 ^ 64), Nat.max_eq_left (Nat.le_succ _),
      Nat.mod_eq_of_lt hlt]
  rw [hbump] at hl
  refine ⟨h.becomes hl (Nat.le_succ _) (forall_getElem?_insert ⟨hmn, by omega, fun a ha => ?_⟩ (h.each (Nat.le_succ _)))
    fun y z a b k ha hka hb hkb hyz => ?_, hl.nTotalRegisteredCount⟩
  · cases hnew.symm.trans ha
  · have hy : y ≠ dmn.proTxHash := by
      rintro rfl
      cases hnew.symm.trans ha
    rw [getElem?_insert_ite, if_neg hy]
    rw [getElem?_insert_ite] at hb
    split_ifs at hb with hz
    · cases hb
      exact hfree k hkb y a ha hka
    · exact h.noTakeover y z a b k ha hka hb hkb hyz

end Changes

/-! ### The states that a block makes -/

section

variable {nVersion : BitVec 16}

lemma isInt32_version : IsInt32 nVersion.toNat := by
  unfold IsInt32
  omega

lemma calcMaxPoSePenalty_mem (list : CDeterministicMNList G) :
    100 ≤ list.calcMaxPoSePenalty ∧ list.calcMaxPoSePenalty < 2 ^ 31 := by
  have hlt : toInt32 list.getAllMNsCount < 2 ^ 31 := by
    have h := Int.bmod_lt (x := list.getAllMNsCount) (m := 2 ^ 32) (by decide)
    unfold toInt32
    omega
  exact ⟨le_max_left _ _, max_lt (by decide) hlt⟩

/-- A key that was read in the encoding of a version is in the encoding of the state that takes over the version. -/
lemma setLegacy_of_isLegacy (h : key.isLegacy = isLegacyVersion nVersion) :
    key.setLegacy (decide ((nVersion.toNat : ℤ) = (legacyBlsVersion : ℕ))) = key := by
  have hv : decide ((nVersion.toNat : ℤ) = (legacyBlsVersion : ℕ)) = isLegacyVersion nVersion :=
    decide_eq_decide.mpr Int.natCast_inj
  rw [hv, ← h]
  cases key <;> rfl

variable (h : StateWf st) (hheight : IsInt32 height)

include h

lemma StateWf.resetOperatorFields : StateWf st.resetOperatorFields :=
  { h with
    nVersion := isInt32_one
    scriptOperatorPayout := Nat.zero_le _
    encoding := rfl }

lemma StateWf.updateConfirmedHash (sha256 : Uint256 → Uint256 → Uint256) (x y : Uint256) :
    StateWf (st.updateConfirmedHash sha256 x y) := { h with }

lemma StateWf.decreased (hp : 0 < st.nPoSePenalty) : StateWf { st with nPoSePenalty := st.nPoSePenalty - 1 } := by
  have hpen := h.nPoSePenalty
  unfold IsInt32 at hpen
  exact { h with nPoSePenalty := ⟨⟨by dsimp only; omega, by dsimp only; omega⟩, by dsimp only; omega⟩ }

include hheight

lemma StateWf.banIfNotBanned : StateWf (st.banIfNotBanned height) := by
  unfold CDeterministicMNState.banIfNotBanned
  split_ifs
  · exact h
  · exact { h with nPoSeBanHeight := hheight }

lemma StateWf.paid : StateWf { st with nLastPaidHeight := height } :=
  { h with nLastPaidHeight := hheight }

omit hheight in
lemma StateWf.punished (list : CDeterministicMNList G) (hheight : IsInt32 list.nHeight) {penalty : ℤ}
    (hp : 0 < penalty) : StateWf (list.punishedState st penalty) := by
  obtain ⟨hlow, hhigh⟩ := calcMaxPoSePenalty_mem list
  have hpen := h.nPoSePenalty
  have hmin : IsInt32 (min list.calcMaxPoSePenalty (st.nPoSePenalty + penalty)) ∧
      0 ≤ min list.calcMaxPoSePenalty (st.nPoSePenalty + penalty) := by
    unfold IsInt32
    omega
  have hnew : StateWf { st with nPoSePenalty := min list.calcMaxPoSePenalty (st.nPoSePenalty + penalty) } :=
    { h with nPoSePenalty := hmin }
  unfold punishedState
  dsimp only
  split_ifs
  · exact hnew.banIfNotBanned hheight
  · exact hnew

lemma StateWf.updateService {proTx : CProUpServTx}
    (hscript : proTx.scriptOperatorPayout.length ≤ 25) : StateWf (st.updateService height proTx) := by
  have hnew : StateWf { st with addr := proTx.addr, scriptOperatorPayout := proTx.scriptOperatorPayout } :=
    { h with scriptOperatorPayout := hscript.trans (by decide) }
  unfold CDeterministicMNState.updateService
  dsimp only
  split_ifs
  · exact { hnew with
      nPoSePenalty := ⟨isInt32_zero, le_refl 0⟩
      nPoSeRevivedHeight := hheight
      nPoSeBanHeight := isInt32_neg_one }
  · exact hnew

lemma StateWf.revoke (proTx : CProUpRevTx) : StateWf (st.revoke height proTx) :=
  { h.resetOperatorFields.banIfNotBanned hheight with }

lemma StateWf.updateRegistrar [DecidableEq G] {proTx : CProUpRegTx G}
    (hscript : proTx.scriptPayout.length ≤ 25) (henc : proTx.pubKeyOperator.isLegacy = isLegacyVersion proTx.nVersion) :
    StateWf (st.updateRegistrar height proTx) := by
  unfold CDeterministicMNState.updateRegistrar
  split_ifs
  · exact { h with scriptPayout := hscript.trans (by decide) }
  · exact { h.resetOperatorFields.banIfNotBanned hheight with
      nVersion := isInt32_version
      scriptPayout := hscript.trans (by decide)
      encoding := setLegacy_of_isLegacy henc }

omit h in
lemma StateWf.register (hscript : proTx.scriptPayout.length ≤ 25)
    (henc : proTx.pubKeyOperator.isLegacy = isLegacyVersion proTx.nVersion) : StateWf (register height proTx) := by
  have hnew : StateWf { ofProRegTx proTx with nRegisteredHeight := height } := {
    nVersion := isInt32_version
    nRegisteredHeight := hheight
    nLastPaidHeight := isInt32_zero
    nConsecutivePayments := isInt32_zero
    nPoSePenalty := ⟨isInt32_zero, le_refl 0⟩
    nPoSeRevivedHeight := isInt32_neg_one
    nPoSeBanHeight := isInt32_neg_one
    scriptPayout := hscript.trans (by decide)
    scriptOperatorPayout := Nat.zero_le _
    encoding := setLegacy_of_isLegacy henc }
  unfold CDeterministicMNState.register
  split_ifs
  · exact hnew.banIfNotBanned hheight
  · exact hnew

end

/-! ### The steps of a block -/

variable {old list : CDeterministicMNList G} {tx : CTransaction} {pindexPrev : CBlockIndex} {ptx : CProRegTx G} {id : ℕ}
  (hold : ListWf rules txs old) (hdist : DistinctHashes rules txs) (htx : tx ∈ txs)

/-- A property is not taken by another masternode. -/
lemma Rep.takenByOther_eq_false (h : Rep rules.crypto list) {own : CDeterministicMN G → Bool} :
    list.takenByOther rules v own = false ↔ ∀ (x : Uint256) dmn, list.mnMap[x]? = some dmn →
      rules.crypto.serializeHash v ∈ dmn.hashes rules.crypto → own dmn = true := by
  have hhas := h.hasUniqueProperty_iff (v := v)
  unfold takenByOther
  constructor
  · intro htaken x dmn hx hk
    rw [hhas.mpr ⟨x, dmn, hx, hk⟩, Bool.true_and, Bool.not_eq_false'] at htaken
    obtain rfl := h.proTxHash x dmn hx
    rwa [h.getUniquePropertyMN_iff.mpr ⟨hx, hk⟩] at htaken
  · intro hown
    rw [Bool.and_eq_false_imp, Bool.not_eq_false']
    intro hv
    obtain ⟨x, dmn, hx, hk⟩ := hhas.mp hv
    obtain rfl := h.proTxHash x dmn hx
    rw [h.getUniquePropertyMN_iff.mpr ⟨hx, hk⟩]
    exact hown _ dmn hx hk

lemma Rep.hasUniqueProperty_eq_false (h : Rep rules.crypto list) :
    list.hasUniqueProperty rules.crypto v = false ↔ ∀ (x : Uint256) dmn,
      list.mnMap[x]? = some dmn → rules.crypto.serializeHash v ∉ dmn.hashes rules.crypto := by
  rw [← Bool.not_eq_true, h.hasUniqueProperty_iff]
  push Not
  rfl

lemma evolved_removeReplaced (h : Evolved rules txs old height list) :
    wlp (removeReplaced rules o) (fun _ l => Evolved rules txs old height l ∧
      l.nTotalRegisteredCount = list.nTotalRegisteredCount ∧
      ∀ (x : Uint256) dmn, l.mnMap[x]? = some dmn →
        rules.crypto.serializeHash (.collateral o) ∉ dmn.hashes rules.crypto) list := by
  unfold removeReplaced
  rw [wlp, wp_bind, wp_get]
  cases hcoll : list.getMNByCollateral rules.crypto o with
  | none =>
    refine ⟨h, rfl, fun x dmn hx hk => ?_⟩
    obtain rfl := h.rep.proTxHash x dmn hx
    rw [getMNByCollateral, h.rep.getUniquePropertyMN_iff.mpr ⟨hx, hk⟩] at hcoll
    cases hcoll
  | some replaced =>
    refine (wp_removeMN h.rep replaced.proTxHash).imp_true fun _ l hl => ?_
    obtain ⟨-, hl⟩ := hl
    obtain ⟨hr, hkr⟩ := h.rep.getUniquePropertyMN_iff.mp hcoll
    refine ⟨h.erase hl, hl.nTotalRegisteredCount, fun x dmn hx hk => ?_⟩
    rw [hl.mnMap, getElem?_erase_ite] at hx
    split_ifs at hx with hxr
    exact hxr (h.rep.eq_of_mem_hashes hx hr hk hkr)

lemma sameProperties_register : SameProperties (ofProRegTx proTx) (register height proTx) := by
  unfold register banIfNotBanned
  split_ifs <;> exact ⟨rfl, rfl, rfl⟩

/-- The properties of a new masternode are those that its registration names. -/
lemma uniqueProperties_registeredMN (hv : v ∈ (registeredMN height id tx ptx).uniqueProperties rules.crypto.bls) :
    v = .collateral (ptx.collateral tx) ∨ v = .addr ptx.addr ∨ v = .keyID ptx.keyIDOwner ∨
      v = keyProperty rules.crypto.bls ptx.pubKeyOperator := by
  have hsame : SameProperties _ (registeredMN height id tx ptx).pdmnState := sameProperties_register
  rw [mem_uniqueProperties, hsame.addr, hsame.keyIDOwner, hsame.pubKeyOperator] at hv
  obtain hv | hv | hv | hv := hv
  · exact .inl hv
  · exact .inr (.inr (.inl hv))
  · exact .inr (.inl (eq_of_addrProperty hv))
  · exact .inr (.inr (.inr (eq_of_operatorProperty hv)))

lemma mnWf_registeredMN (hint : IsInt32 height) (htx : tx ∈ txs) (hchk : ProRegChecked rules old tx ptx) :
    MnWf rules txs (registeredMN height id tx ptx) where
  nType := hchk.nType
  registered := ⟨tx, htx, rfl, ptx, hchk.payload, sameProperties_register.keyIDOwner.symm⟩
  occurs v hv := by
    refine ⟨tx, htx, ?_⟩
    unfold namedProperties
    rw [hchk.payload]
    obtain rfl | rfl | rfl | rfl := uniqueProperties_registeredMN hv <;> simp
  state := StateWf.register hint hchk.scriptPayout hchk.encoding

lemma Rep.mem_hashes_iff (h : Rep rules.crypto list) {k : Uint256} (hx : list.mnMap[x]? = some dmn) :
    k ∈ dmn.hashes rules.crypto ↔ ∃ v ∈ dmn.uniqueProperties rules.crypto.bls, rules.crypto.serializeHash v = k :=
  mem_hashes (h.collateral x dmn hx) (h.keyIDOwner x dmn hx)

include hold hdist htx

/-- A checked registration has a hash that the old list does not have: its owner key would be in the list. -/
lemma getElem?_eq_none_of_checked (hchk : ProRegChecked rules old tx ptx) : old.mnMap[tx.hash]? = none := by
  cases hx : old.mnMap[tx.hash]? with
  | none => rfl
  | some a =>
    obtain ⟨tx', htx', hhash, ptx', hptx', howner⟩ := (hold.mn _ a hx).registered
    rw [hold.rep.proTxHash _ a hx] at hhash
    obtain rfl := hdist.txHash htx' htx hhash
    rw [hchk.payload] at hptx'
    cases hptx'
    refine absurd ((hold.rep.mem_hashes_iff hx).mpr ⟨.keyID a.pdmnState.keyIDOwner, ?_, rfl⟩) ?_
    · simp [CDeterministicMN.uniqueProperties]
    · rw [← howner]
      exact hold.rep.hasUniqueProperty_eq_false.mp hchk.ownerKey _ a hx

/-- Who had a property of a checked registration is not listed any more, once the masternode with the collateral of the
registration is removed. -/
lemma getElem?_eq_none_of_takeover (h : Evolved rules txs old height list) (hchk : ProRegChecked rules old tx ptx)
    (hcoll : ∀ (x : Uint256) dmn, list.mnMap[x]? = some dmn →
      rules.crypto.serializeHash (.collateral (ptx.collateral tx)) ∉ dmn.hashes rules.crypto)
    (hv : v = .collateral (ptx.collateral tx) ∨ v = .addr ptx.addr ∨ v = .keyID ptx.keyIDOwner ∨
      v = keyProperty rules.crypto.bls ptx.pubKeyOperator) {y : Uint256} {a : CDeterministicMN G}
    (ha : old.mnMap[y]? = some a) (hk : rules.crypto.serializeHash v ∈ a.hashes rules.crypto) :
    list.mnMap[y]? = none := by
  cases hb : list.mnMap[y]? with
  | none => rfl
  | some b =>
    -- the collateral of a masternode does not change, so the one in the old list is another one
    have hne : a.collateralOutpoint ≠ ptx.collateral tx := by
      intro heq
      refine hcoll y b hb ((h.rep.mem_hashes_iff hb).mpr ⟨_, ?_, rfl⟩)
      have hkept := congrArg CDeterministicMN.collateralOutpoint (h.kept y a b ha hb)
      rw [← heq, ← hkept]
      simp [CDeterministicMN.uniqueProperties]
    obtain rfl | rfl | rfl | rfl := hv
    · obtain ⟨w, hw, hwk⟩ := (hold.rep.mem_hashes_iff ha).mp hk
      have hocc : Occurs rules txs (.collateral (ptx.collateral tx)) := by
        refine ⟨tx, htx, ?_⟩
        unfold namedProperties
        rw [hchk.payload]
        simp
      obtain rfl := hdist.property ((hold.mn y a ha).occurs w hw) hocc hwk
      exact absurd (collateral_of_mem_uniqueProperties hw) hne
    · exact absurd (of_decide_eq_true (hold.rep.takenByOther_eq_false.mp hchk.addr y a ha hk)) hne
    · exact absurd hk (hold.rep.hasUniqueProperty_eq_false.mp hchk.ownerKey y a ha)
    · exact absurd hk (hold.rep.hasUniqueProperty_eq_false.mp hchk.operatorKey y a ha)

omit hold hdist htx

variable [DecidableEq G] {checkSigs : Bool} {view : CCoinsView}

/-! ### New states -/

lemma NewState.same (hwf : StateWf st) (hsame : SameProperties dmn.pdmnState st) :
    NewState rules txs old x dmn st where
  wf := hwf
  keyIDOwner := hsame.keyIDOwner
  pubKeyOperator _ := hsame.pubKeyOperator.symm
  properties v hv := by
    rw [mem_uniqueProperties] at hv ⊢
    rw [hsame.addr, hsame.keyIDOwner, hsame.pubKeyOperator] at hv
    exact .inl hv

section

include hold

omit [DecidableEq G] in
/-- A property that a transaction names and that the old list has no other masternode for. -/
lemma ListWf.newProperty (htx : tx ∈ txs) (hv : v ∈ namedProperties rules tx)
    (htaken : old.takenByOther rules v (·.proTxHash = x) = false) :
    Occurs rules txs v ∧ ∀ (y : Uint256) a, old.mnMap[y]? = some a →
      rules.crypto.serializeHash v ∈ a.hashes rules.crypto → y = x := by
  refine ⟨⟨tx, htx, hv⟩, fun y a ha hk => ?_⟩
  rw [← hold.rep.proTxHash y a ha]
  exact of_decide_eq_true (hold.rep.takenByOther_eq_false.mp htaken y a ha hk)

lemma newState_updateService (hwf : StateWf dmn.pdmnState) (hint : IsInt32 height)
    (htx : tx ∈ txs) {ptx : CProUpServTx} (hpayload : getProUpServTx rules tx = some ptx)
    (hchk : ProUpServChecked rules old checkSigs ptx) :
    NewState rules txs old ptx.proTxHash dmn (dmn.pdmnState.updateService height ptx) := by
  have hfields : (dmn.pdmnState.updateService height ptx).addr = ptx.addr ∧
      (dmn.pdmnState.updateService height ptx).keyIDOwner = dmn.pdmnState.keyIDOwner ∧
      (dmn.pdmnState.updateService height ptx).pubKeyOperator = dmn.pdmnState.pubKeyOperator := by
    unfold updateService revive
    dsimp only
    split_ifs <;> exact ⟨rfl, rfl, rfl⟩
  obtain ⟨haddr, howner, hkey⟩ := hfields
  refine ⟨hwf.updateService hint hchk.scriptOperatorPayout, howner, fun _ => hkey.symm, fun v hv => ?_⟩
  rw [mem_uniqueProperties, howner, haddr, hkey] at hv
  rw [mem_uniqueProperties]
  obtain hv | hv | hv | hv := hv
  · exact .inl (.inl hv)
  · exact .inl (.inr (.inl hv))
  · obtain rfl := eq_of_addrProperty hv
    exact .inr (hold.newProperty htx (by simp [namedProperties, hpayload]) hchk.addr)
  · exact .inl (.inr (.inr (.inr hv)))

lemma newState_updateRegistrar (hwf : StateWf dmn.pdmnState) (hint : IsInt32 height)
    (htx : tx ∈ txs) {ptx : CProUpRegTx G} (hpayload : getProUpRegTx rules tx = some ptx)
    (hchk : ProUpRegChecked rules old ptx) :
    NewState rules txs old ptx.proTxHash dmn (dmn.pdmnState.updateRegistrar height ptx) := by
  have hst := hwf.updateRegistrar hint hchk.scriptPayout hchk.encoding
  by_cases heq : dmn.pdmnState.pubKeyOperator.eq ptx.pubKeyOperator = true
  · -- the same key: nothing but the voting key and the payout script changes
    refine .same hst ?_
    unfold updateRegistrar
    rw [if_pos heq]
    exact ⟨rfl, rfl, rfl⟩
  · have hfields : (dmn.pdmnState.updateRegistrar height ptx).addr = {} ∧
        (dmn.pdmnState.updateRegistrar height ptx).keyIDOwner = dmn.pdmnState.keyIDOwner ∧
        (dmn.pdmnState.updateRegistrar height ptx).pubKeyOperator = ptx.pubKeyOperator := by
      unfold updateRegistrar banIfNotBanned
      split_ifs <;> exact ⟨rfl, rfl, rfl⟩
    obtain ⟨haddr, howner, hkey⟩ := hfields
    refine ⟨hst, howner, fun he => absurd (hkey ▸ he) heq, fun v hv => ?_⟩
    rw [mem_uniqueProperties, howner, haddr, hkey] at hv
    rw [mem_uniqueProperties]
    obtain hv | hv | hv | hv := hv
    · exact .inl (.inl hv)
    · exact .inl (.inr (.inl hv))
    · cases hv
    · obtain rfl := eq_of_operatorProperty hv
      exact .inr (hold.newProperty htx (by simp [namedProperties, hpayload]) hchk.operatorKey)

end

lemma newState_revoke (hwf : StateWf dmn.pdmnState) (hint : IsInt32 height) {ptx : CProUpRevTx} :
    NewState rules txs old x dmn (dmn.pdmnState.revoke height ptx) := by
  have hfields : (dmn.pdmnState.revoke height ptx).addr = {} ∧
      (dmn.pdmnState.revoke height ptx).keyIDOwner = dmn.pdmnState.keyIDOwner ∧
      (dmn.pdmnState.revoke height ptx).pubKeyOperator = .null := by
    unfold revoke banIfNotBanned
    split_ifs <;> exact ⟨rfl, rfl, rfl⟩
  obtain ⟨haddr, howner, hkey⟩ := hfields
  refine ⟨hwf.revoke hint ptx, howner, fun he => ?_, fun v hv => .inl ?_⟩
  · rw [hkey] at he ⊢
    cases hk : dmn.pdmnState.pubKeyOperator with
    | null => rfl
    | set k l =>
      rw [hk] at he
      cases he
  · rw [mem_uniqueProperties, howner, haddr, hkey] at hv
    rw [mem_uniqueProperties]
    obtain hv | hv | hv | hv := hv
    · exact .inl hv
    · exact .inr (.inl hv)
    · cases hv
    · cases hv

/-! ### The block -/

lemma evolved_updateMNByHash (h : Evolved rules txs old height list) (hx : list.mnMap[x]? = some dmn)
    (hst : NewState rules txs old x dmn st) :
    wlp (updateMNByHash rules.crypto x st) (fun _ l => Evolved rules txs old height l ∧
      l.nTotalRegisteredCount = list.nTotalRegisteredCount) list := by
  refine (wp_updateMNByHash h.rep fun d hd => ?_).imp_true fun _ l ⟨d, hd, _, hl⟩ => ?_
  · rw [hx] at hd
    cases hd
    rw [hst.keyIDOwner]
    exact ⟨h.rep.keyIDOwner x dmn hx, hst.pubKeyOperator⟩
  · rw [hx] at hd
    cases hd
    exact ⟨h.update hx hl hst, hl.nTotalRegisteredCount⟩

/-- The transaction registers a masternode. -/
def isRegistration (tx : CTransaction) : Bool := tx.nVersion = 3 && tx.nType = .providerRegister

include hold hdist in
/-- The steps of a block whose special transactions pass the checks evolve the list. The number of registrations still
to come bounds the counter. -/
lemma stepInvariant_evolved (hint : IsInt32 (pindexPrev.nHeight + 1)) {vtx : List CTransaction}
    (hsub : ∀ tx ∈ vtx, tx ∈ txs)
    (hchk : ∀ tx ∈ vtx, checkSpecialTx rules pindexPrev old view checkSigs tx = .ok ()) :
    StepInvariant rules pindexPrev vtx fun rest l => Evolved rules txs old (pindexPrev.nHeight + 1) l ∧
      l.nTotalRegisteredCount + rest.countP isRegistration ≤ maxSize where
  nHeight h := h.1.nHeight
  skip {tx rest list} h := ⟨h.1, (Nat.add_le_add_left (sublist_cons_self tx rest).countP_le _).trans h.2⟩
  remove h x := (wp_removeMN h.1.rep x).imp_true fun _ l ⟨_, hl⟩ => ⟨h.1.erase hl, hl.nTotalRegisteredCount ▸ h.2⟩
  update {rest list x dmn st} h hx hstep := by
    have hwf := (h.1.mn x dmn hx).state
    have hst : NewState rules txs old x dmn st := by
      obtain rfl | hstep := hstep
      · exact .same hwf ⟨rfl, rfl, rfl⟩
      · cases hstep with
        | confirmed => exact .same (hwf.updateConfirmedHash _ _ _) ⟨rfl, rfl, rfl⟩
        | decreased _ hpos => exact .same (hwf.decreased hpos) ⟨rfl, rfl, rfl⟩
        | service _ htx hupd =>
          obtain rfl := hupd.hash
          exact newState_updateService hold hwf hint (hsub _ htx) hupd.payload (hupd.checked (hchk _ htx))
        | registrar _ htx hupd =>
          obtain rfl := hupd.hash
          exact newState_updateRegistrar hold hwf hint (hsub _ htx) hupd.payload (hupd.checked (hchk _ htx))
        | revoked => exact newState_revoke hwf hint
        | punished _ _ _ hheight hpos =>
          exact .same (hwf.punished _ (hheight ▸ hint) hpos) (sameProperties_punishedState _ _)
    exact (evolved_updateMNByHash h.1 hx hst).imp fun _ l ⟨hl, htotal⟩ => ⟨hl, htotal ▸ h.2⟩
  register {tx rest list proTx} h htx hreg _ := by
    obtain ⟨h, hn⟩ := h
    have hptx := hreg.checked (hchk _ htx)
    have hone : (tx :: rest).countP isRegistration = rest.countP isRegistration + 1 := by
      rw [countP_cons, isRegistration, hreg.nType, hreg.nVersion]
      rfl
    have hmax : maxSize < 2 ^ 32 := by decide
    refine wp_seq (evolved_removeReplaced h) fun _ l ⟨h₁, htotal, hcoll⟩ => ?_
    unfold addRegistered
    rw [wp_bind, wp_get, wp_ite]
    refine ⟨fun _ => trivial, fun _ => ?_⟩
    rw [wp_ite]
    refine ⟨fun _ => trivial, fun _ => ?_⟩
    refine (wp_addMN h₁.rep _ true).imp_true fun _ l' ⟨hadd, hl'⟩ => ?_
    rw [← htotal] at hl' hadd hn
    obtain ⟨h₂, htotal₂⟩ := h₁.add hl' rfl (by omega) (mnWf_registeredMN hint (hsub _ htx) hptx)
      (getElem?_eq_none_of_checked hold hdist (hsub _ htx) hptx) fun k hk y a ha hka => by
        obtain ⟨v, hv, rfl⟩ := (mem_hashes hadd.collateral hadd.keyIDOwner).mp hk
        exact getElem?_eq_none_of_takeover hold hdist (hsub _ htx) h₁ hptx hcoll
          (uniqueProperties_registeredMN hv) ha hka
    exact ⟨h₂, by omega⟩

lemma evolved_markPaid (h : Evolved rules txs old height list) (hint : IsInt32 height)
    {payee : Option (CDeterministicMN G)} :
    wlp (markPaid rules height payee) (fun _ l => Evolved rules txs old height l ∧
      l.nTotalRegisteredCount = list.nTotalRegisteredCount) list := by
  cases payee with
  | none => exact ⟨h, rfl⟩
  | some payee =>
    exact wp_getMN (fun _ => ⟨h, rfl⟩) fun dmn hx =>
      evolved_updateMNByHash h hx (.same ((h.mn _ dmn hx).state.paid hint) ⟨rfl, rfl, rfl⟩)

include hold hdist in
/-- A block whose special transactions pass the checks evolves the list of the previous block. -/
lemma evolved_buildNewListFromBlock (hint : IsInt32 (pindexPrev.nHeight + 1)) {block : CBlock}
    (hsub : ∀ tx ∈ block.vtx, tx ∈ txs)
    (hchk : ∀ tx ∈ block.vtx, checkSpecialTx rules pindexPrev old view checkSigs tx = .ok ())
    (hcount : old.nTotalRegisteredCount + block.vtx.countP isRegistration ≤ maxSize) :
    wlp (buildNewListFromBlock rules pindexPrev view block) (fun _ l =>
      Evolved rules txs old (pindexPrev.nHeight + 1) l ∧ l.nTotalRegisteredCount ≤ maxSize) old := by
  have hstart : Evolved rules txs old (pindexPrev.nHeight + 1)
      { old with blockHash := 0, nHeight := pindexPrev.nHeight + 1 } := {
    rep := { hold.rep with }
    mn := hold.mn
    internalId := hold.internalId
    kept := fun x a b ha hb => by
      rw [ha] at hb
      cases hb
      rfl
    noTakeover := fun x y a b k ha hka hb hkb hxy => absurd (hold.rep.eq_of_mem_hashes ha hb hka hkb) hxy
    total := le_refl _
    blockHash := rfl
    nHeight := rfl }
  have hinv := stepInvariant_evolved hold hdist hint (fun tx htx => hsub tx (mem_of_mem_drop htx))
    fun tx htx => hchk tx (mem_of_mem_drop (i := 1) htx)
  refine hinv.wp_buildNewListFromBlock hold.rep.mapWf rfl
    ⟨hstart, (Nat.add_le_add_left (drop_sublist 1 block.vtx).countP_le _).trans hcount⟩ fun mid ⟨hmid, hn⟩ => ?_
  refine wp_seq (evolved_markPaid hmid hint) fun _ l₁ ⟨h₁, ht₁⟩ => ?_
  refine (evolved_markPaid h₁ hint).imp fun _ l₂ ⟨h₂, ht₂⟩ => ⟨h₂, ?_⟩
  rw [ht₂, ht₁]
  exact hn

end Blocx
