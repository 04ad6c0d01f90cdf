import Blocx.Evo.DmnList

/-!
# Masternodes on disk

How masternodes, their states and the differences of states are written to the database and read back
(`evo/dmnstate.h`, `evo/deterministicmns.h`). The encoding of an operator key follows from the version. In a state the
version comes first. In a difference it comes last, so that the bytes of the key are kept until the version is known;
that is why a difference whose key is set has its version set as well.

`StateWf` is what makes a state readable again: its numbers are the values of an `int`, its scripts are not too long,
and the buffer of its operator key is in the encoding that its version asks for.
-/

namespace Blocx

open Wire CDeterministicMNState Reads

variable {G : Type}

/-- A state that can be written and read back. -/
structure StateWf (st : CDeterministicMNState G) : Prop where
  nVersion : IsInt32 st.nVersion
  nRegisteredHeight : IsInt32 st.nRegisteredHeight
  nLastPaidHeight : IsInt32 st.nLastPaidHeight
  nConsecutivePayments : IsInt32 st.nConsecutivePayments
  nPoSePenalty : IsInt32 st.nPoSePenalty ∧ 0 ≤ st.nPoSePenalty
  nPoSeRevivedHeight : IsInt32 st.nPoSeRevivedHeight
  nPoSeBanHeight : IsInt32 st.nPoSeBanHeight
  scriptPayout : st.scriptPayout.length ≤ maxSize
  scriptOperatorPayout : st.scriptOperatorPayout.length ≤ maxSize
  /-- The buffer of the operator key is in the encoding of the version. -/
  encoding : st.pubKeyOperator.setLegacy st.isLegacy = st.pubKeyOperator

/-! ### States -/

namespace CDeterministicMNState

/-- A state as it is written. -/
def serialize (bls : Bls G) (st : CDeterministicMNState G) : List UInt8 :=
  putInt32 st.nVersion ++ (putInt32 st.nRegisteredHeight ++ (putInt32 st.nLastPaidHeight ++
    (putInt32 st.nConsecutivePayments ++ (putInt32 st.nPoSePenalty ++ (putInt32 st.nPoSeRevivedHeight ++
    (putInt32 st.nPoSeBanHeight ++ (put st.nRevocationReason ++ (put st.confirmedHash ++
    (put st.confirmedHashWithProRegTxHash ++ (put st.keyIDOwner ++ (put (st.pubKeyOperator.toBytes bls st.isLegacy) ++
    (put st.keyIDVoting ++ (st.addr.serialize ++ (putBytes st.scriptPayout ++ (putBytes st.scriptOperatorPayout ++
    (put st.platformNodeID ++ (put st.platformP2PPort ++ put st.platformHTTPPort)))))))))))))))))

/-- Read a state. -/
def unserialize (bls : Bls G) : Reader (CDeterministicMNState G) := do
  let nVersion ← Reader.getInt32
  let nRegisteredHeight ← Reader.getInt32
  let nLastPaidHeight ← Reader.getInt32
  let nConsecutivePayments ← Reader.getInt32
  let nPoSePenalty ← Reader.getInt32
  let nPoSeRevivedHeight ← Reader.getInt32
  let nPoSeBanHeight ← Reader.getInt32
  let nRevocationReason ← Reader.get 16
  let confirmedHash ← Reader.get 256
  let confirmedHashWithProRegTxHash ← Reader.get 256
  let keyIDOwner ← Reader.get 160
  let pubKeyOperator ← readLazyPublicKey bls (nVersion = legacyBlsVersion)
  let keyIDVoting ← Reader.get 160
  let addr ← CService.unserialize
  let scriptPayout ← Reader.getBytes maxSize
  let scriptOperatorPayout ← Reader.getBytes maxSize
  let platformNodeID ← Reader.get 160
  let platformP2PPort ← Reader.get 16
  let platformHTTPPort ← Reader.get 16
  return {
    nVersion, nRegisteredHeight, nLastPaidHeight, nConsecutivePayments, nPoSePenalty, nPoSeRevivedHeight,
    nPoSeBanHeight, nRevocationReason, confirmedHash, confirmedHashWithProRegTxHash, keyIDOwner, pubKeyOperator,
    keyIDVoting, addr, scriptPayout, scriptOperatorPayout, platformNodeID, platformP2PPort, platformHTTPPort }

lemma maxSize_lt : maxSize < 2 ^ 64 := by decide

lemma reads_serialize (bls : Bls G) {st : CDeterministicMNState G} (h : StateWf st) :
    Reads (unserialize bls) (st.serialize bls) st := by
  have hkey : Reads (readLazyPublicKey bls (st.nVersion = legacyBlsVersion))
      (put (st.pubKeyOperator.toBytes bls st.isLegacy)) st.pubKeyOperator := by
    refine (get (by decide) _).bind_pure ?_
    have hlegacy : decide (st.nVersion = legacyBlsVersion) = st.isLegacy := rfl
    rw [hlegacy, CBLSLazyPublicKey.ofBytes_toBytes, h.encoding]
    exact pure _
  refine (getInt32 h.nVersion).bind ?_
  refine (getInt32 h.nRegisteredHeight).bind ?_
  refine (getInt32 h.nLastPaidHeight).bind ?_
  refine (getInt32 h.nConsecutivePayments).bind ?_
  refine (getInt32 h.nPoSePenalty.1).bind ?_
  refine (getInt32 h.nPoSeRevivedHeight).bind ?_
  refine (getInt32 h.nPoSeBanHeight).bind ?_
  refine (get (by decide) st.nRevocationReason).bind ?_
  refine (get (by decide) st.confirmedHash).bind ?_
  refine (get (by decide) st.confirmedHashWithProRegTxHash).bind ?_
  refine (get (by decide) st.keyIDOwner).bind ?_
  refine hkey.bind ?_
  refine (get (by decide) st.keyIDVoting).bind ?_
  refine st.addr.reads_serialize.bind ?_
  refine (getBytes h.scriptPayout maxSize_lt).bind ?_
  refine (getBytes h.scriptOperatorPayout maxSize_lt).bind ?_
  refine (get (by decide) st.platformNodeID).bind ?_
  refine (get (by decide) st.platformP2PPort).bind ?_
  exact (get (by decide) st.platformHTTPPort).bind_pure (pure st)

/-! ### Fields -/

namespace Field

/-- A field as it is written. -/
def serialize (bls : Bls G) (st : CDeterministicMNState G) : Field → List UInt8
  | nRegisteredHeight => putInt32 st.nRegisteredHeight
  | nLastPaidHeight => putInt32 st.nLastPaidHeight
  | nPoSePenalty => putInt32 st.nPoSePenalty
  | nPoSeRevivedHeight => putInt32 st.nPoSeRevivedHeight
  | nPoSeBanHeight => putInt32 st.nPoSeBanHeight
  | nRevocationReason => put st.nRevocationReason
  | confirmedHash => put st.confirmedHash
  | confirmedHashWithProRegTxHash => put st.confirmedHashWithProRegTxHash
  | keyIDOwner => put st.keyIDOwner
  | pubKeyOperator => put (st.pubKeyOperator.toBytes bls st.isLegacy)
  | keyIDVoting => put st.keyIDVoting
  | addr => st.addr.serialize
  | scriptPayout => putBytes st.scriptPayout
  | scriptOperatorPayout => putBytes st.scriptOperatorPayout
  | nConsecutivePayments => putInt32 st.nConsecutivePayments
  | platformNodeID => put st.platformNodeID
  | platformP2PPort => put st.platformP2PPort
  | platformHTTPPort => put st.platformHTTPPort
  | nVersion => putInt32 st.nVersion

/-- Read a field into a state. The bytes of the operator key are kept beside the state. -/
def unserialize (acc : CDeterministicMNState G × BitVec 384) : Field → Reader (CDeterministicMNState G × BitVec 384)
  | nRegisteredHeight => do return ({ acc.1 with nRegisteredHeight := (← Reader.getInt32) }, acc.2)
  | nLastPaidHeight => do return ({ acc.1 with nLastPaidHeight := (← Reader.getInt32) }, acc.2)
  | nPoSePenalty => do return ({ acc.1 with nPoSePenalty := (← Reader.getInt32) }, acc.2)
  | nPoSeRevivedHeight => do return ({ acc.1 with nPoSeRevivedHeight := (← Reader.getInt32) }, acc.2)
  | nPoSeBanHeight => do return ({ acc.1 with nPoSeBanHeight := (← Reader.getInt32) }, acc.2)
  | nRevocationReason => do return ({ acc.1 with nRevocationReason := (← Reader.get 16) }, acc.2)
  | confirmedHash => do return ({ acc.1 with confirmedHash := (← Reader.get 256) }, acc.2)
  | confirmedHashWithProRegTxHash => do
    return ({ acc.1 with confirmedHashWithProRegTxHash := (← Reader.get 256) }, acc.2)
  | keyIDOwner => do return ({ acc.1 with keyIDOwner := (← Reader.get 160) }, acc.2)
  | pubKeyOperator => do return (acc.1, (← Reader.get 384))
  | keyIDVoting => do return ({ acc.1 with keyIDVoting := (← Reader.get 160) }, acc.2)
  | addr => do return ({ acc.1 with addr := (← CService.unserialize) }, acc.2)
  | scriptPayout => do return ({ acc.1 with scriptPayout := (← Reader.getBytes maxSize) }, acc.2)
  | scriptOperatorPayout => do return ({ acc.1 with scriptOperatorPayout := (← Reader.getBytes maxSize) }, acc.2)
  | nConsecutivePayments => do return ({ acc.1 with nConsecutivePayments := (← Reader.getInt32) }, acc.2)
  | platformNodeID => do return ({ acc.1 with platformNodeID := (← Reader.get 160) }, acc.2)
  | platformP2PPort => do return ({ acc.1 with platformP2PPort := (← Reader.get 16) }, acc.2)
  | platformHTTPPort => do return ({ acc.1 with platformHTTPPort := (← Reader.get 16) }, acc.2)
  | nVersion => do return ({ acc.1 with nVersion := (← Reader.getInt32) }, acc.2)

def copyRaw (bls : Bls G) (src : CDeterministicMNState G) (acc : CDeterministicMNState G × BitVec 384) (f : Field) :
    CDeterministicMNState G × BitVec 384 :=
  if f = pubKeyOperator then (acc.1, src.pubKeyOperator.toBytes bls src.isLegacy) else (copy src acc.1 f, acc.2)

lemma reads_serialize (bls : Bls G) {src : CDeterministicMNState G} (h : StateWf src)
    (acc : CDeterministicMNState G × BitVec 384) (f : Field) :
    Reads (unserialize acc f) (serialize bls src f) (copyRaw bls src acc f) := by
  cases f with
  | nRegisteredHeight => exact (getInt32 h.nRegisteredHeight).bind_pure (pure _)
  | nLastPaidHeight => exact (getInt32 h.nLastPaidHeight).bind_pure (pure _)
  | nPoSePenalty => exact (getInt32 h.nPoSePenalty.1).bind_pure (pure _)
  | nPoSeRevivedHeight => exact (getInt32 h.nPoSeRevivedHeight).bind_pure (pure _)
  | nPoSeBanHeight => exact (getInt32 h.nPoSeBanHeight).bind_pure (pure _)
  | nConsecutivePayments => exact (getInt32 h.nConsecutivePayments).bind_pure (pure _)
  | nVersion => exact (getInt32 h.nVersion).bind_pure (pure _)
  | addr => exact src.addr.reads_serialize.bind_pure (pure _)
  | scriptPayout => exact (getBytes h.scriptPayout maxSize_lt).bind_pure (pure _)
  | scriptOperatorPayout => exact (getBytes h.scriptOperatorPayout maxSize_lt).bind_pure (pure _)
  | _ => exact (Reads.get (by decide) _).bind_pure (Reads.pure _)

/-- Reading the fields of a list that pass a test. -/
lemma foldl_copyRaw (bls : Bls G) (src : CDeterministicMNState G) (p : Field → Bool) (fs : List Field)
    (acc : CDeterministicMNState G × BitVec 384) :
    fs.foldl (fun acc f => if p f then copyRaw bls src acc f else acc) acc =
      (fs.foldl (fun t f => if p f && f ≠ pubKeyOperator then copy src t f else t) acc.1,
        if pubKeyOperator ∈ fs ∧ p pubKeyOperator then src.pubKeyOperator.toBytes bls src.isLegacy else acc.2) := by
  induction fs generalizing acc with
  | nil => simp
  | cons f fs ih =>
    rw [List.foldl_cons, ih, List.foldl_cons]
    by_cases hp : p f
    · by_cases hf : f = pubKeyOperator
      · subst hf
        simp [hp, copyRaw]
      · simp [hp, hf, copyRaw, Ne.symm hf]
    · have hf : f = pubKeyOperator → ¬p pubKeyOperator := fun h => h ▸ hp
      simp only [hp, Bool.false_eq_true, if_false, Bool.false_and, List.mem_cons, Prod.mk.injEq, true_and]
      refine if_congr ?_ rfl rfl
      constructor
      · exact fun h => ⟨.inr h.1, h.2⟩
      · exact fun h => ⟨h.1.resolve_left fun h' => hf h'.symm h.2, h.2⟩

end Field

end CDeterministicMNState

/-! ### Differences of states -/

namespace CDeterministicMNStateDiff

/-- A difference as it is written: the mask, and the fields that are set. -/
def serialize (bls : Bls G) (diff : CDeterministicMNStateDiff G) : List UInt8 :=
  putVarInt 32 diff.fields.toNat ++ Field.all.flatMap fun f => putIf (diff.has f) (Field.serialize bls diff.state f)

/-- Read a difference. The operator key is decoded when the version is known, which counts as set then. -/
def unserialize (bls : Bls G) : Reader (CDeterministicMNStateDiff G) := do
  let fields ← Reader.getVarInt 32
  let diff : CDeterministicMNStateDiff G := { fields := BitVec.ofNat 32 fields }
  let acc ← Field.all.foldlM (fun acc f => if diff.has f then Field.unserialize acc f else pure acc) (({}, 0) : _ × _)
  if diff.has .pubKeyOperator then
    return {
      fields := diff.fields ||| 1#32 <<< Field.nVersion.bit
      state := { acc.1 with pubKeyOperator := CBLSLazyPublicKey.ofBytes bls acc.1.isLegacy acc.2 } }
  else return { diff with state := acc.1 }

end CDeterministicMNStateDiff

/-- A difference that can be written and read back. -/
structure StateDiffWf (diff : CDeterministicMNStateDiff G) : Prop where
  state : StateWf diff.state
  version : diff.has .pubKeyOperator → diff.has .nVersion
  /-- A field that is not set has its default. -/
  unset : ∀ f : Field, diff.has f = false → Field.get diff.state f = Field.get {} f

namespace CDeterministicMNStateDiff

variable {diff : CDeterministicMNStateDiff G}

lemma fields_or_bit {f : Field} (h : diff.has f) : diff.fields ||| 1#32 <<< f.bit = diff.fields := by
  apply BitVec.eq_of_getLsbD_eq
  intro i hi
  rw [BitVec.getLsbD_or, BitVec.getLsbD_shiftLeft, BitVec.getLsbD_one]
  by_cases hbit : i = f.bit
  · rw [hbit, show diff.fields.getLsbD f.bit = true from h, Bool.true_or]
  · have hne : decide (i < f.bit) = true ∨ decide (i - f.bit = 0) = false := by
      by_cases hlt : i < f.bit
      · exact .inl (decide_eq_true hlt)
      · exact .inr (decide_eq_false (by omega))
    obtain hlt | hne := hne
    · simp [hlt]
    · simp [hne]

/-- A well-formed difference is read back. -/
lemma reads_serialize (bls : Bls G) (h : StateDiffWf diff) : Reads (unserialize bls) (diff.serialize bls) diff := by
  refine (getVarInt diff.fields.isLt).bind ?_
  rw [BitVec.ofNat_toNat, BitVec.setWidth_eq]
  have hhas : ∀ f, ({ fields := diff.fields } : CDeterministicMNStateDiff G).has f = diff.has f := fun _ => rfl
  have hread : ∀ acc f,
      Reads (if diff.has f then Field.unserialize acc f else pure acc)
        (putIf (diff.has f) (Field.serialize bls diff.state f))
        (if diff.has f then Field.copyRaw bls diff.state acc f else acc) := by
    intro acc f
    cases diff.has f with
    | true => exact Field.reads_serialize bls h.state acc f
    | false => exact pure acc
  refine (foldlM hread _).bind_pure ?_
  rw [Field.foldl_copyRaw]
  -- the state that was read has the fields of the difference, except for the operator key
  generalize hst : Field.all.foldl (fun t f =>
    if diff.has f && f ≠ .pubKeyOperator then Field.copy diff.state t f else t)
    ({} : CDeterministicMNState G) = st
  have hget : ∀ f, f ≠ .pubKeyOperator → Field.get st f = Field.get diff.state f := by
    intro f hf
    rw [← hst, Field.get_foldl_copy]
    by_cases hd : diff.has f
    · rw [if_pos ⟨Field.mem_all f, by simp [hd, hf]⟩]
    · rw [if_neg fun hc => hd (Bool.and_eq_true_iff.mp hc.2).1, h.unset f (Bool.eq_false_iff.mpr hd)]
  have hlegacy : st.isLegacy = diff.state.isLegacy := by
    have hv : st.nVersion = diff.state.nVersion := hget .nVersion (by decide)
    unfold isLegacy
    rw [hv]
  have hkey : Field.get st .pubKeyOperator = Field.get {} .pubKeyOperator := by
    rw [← hst, Field.get_foldl_copy, if_neg fun hc => by simp at hc]
  rw [hhas]
  by_cases hd : diff.has .pubKeyOperator
  · have hfields := fields_or_bit (h.version hd)
    rw [if_pos hd, if_pos ⟨Field.mem_all _, hd⟩]
    generalize hk : CBLSLazyPublicKey.ofBytes bls st.isLegacy
      (diff.state.pubKeyOperator.toBytes bls diff.state.isLegacy) = key
    rw [hlegacy, CBLSLazyPublicKey.ofBytes_toBytes, h.state.encoding] at hk
    have hstate : { st with pubKeyOperator := key } = diff.state := by
      subst hk
      apply Field.ext_get
      intro f
      by_cases hf : f = .pubKeyOperator
      · subst hf
        rfl
      · rw [← hget f hf]
        exact Field.get_copy_of_ne diff.state st hf
    rw [hfields, hstate]
    exact pure diff
  · rw [if_neg hd]
    have hstate : st = diff.state := by
      apply Field.ext_get
      intro f
      by_cases hf : f = .pubKeyOperator
      · rw [hf, hkey, h.unset _ (Bool.eq_false_iff.mpr hd)]
      · exact hget f hf
    rw [hstate]
    exact pure diff

lemma wf_ofStates [DecidableEq G] (a : CDeterministicMNState G) {b : CDeterministicMNState G} (h : StateWf b) :
    StateDiffWf (ofStates a b) := by
  have hget := get_state_ofStates a b
  have hversion : (ofStates a b).has .pubKeyOperator → (ofStates a b).has .nVersion := by
    rw [has_ofStates, has_ofStates]
    intro hk
    have hchanged : Field.changed a b .pubKeyOperator := by simpa using hk
    simp [hchanged]
  -- a field is that of the second state, or the default
  have hfield : ∀ {f : Field} (P : f.Ty G → Prop), P (Field.get b f) → P (Field.get {} f) →
      P (Field.get (ofStates a b).state f) := by
    intro f P hb hd
    rw [hget]
    split_ifs
    · exact hb
    · exact hd
  refine ⟨?_, hversion, fun f hf => by rw [hget, hf]; rfl⟩
  constructor
  case nVersion => exact hfield (f := .nVersion) IsInt32 h.nVersion isInt32_one
  case nRegisteredHeight => exact hfield (f := .nRegisteredHeight) IsInt32 h.nRegisteredHeight isInt32_neg_one
  case nLastPaidHeight => exact hfield (f := .nLastPaidHeight) IsInt32 h.nLastPaidHeight isInt32_zero
  case nConsecutivePayments => exact hfield (f := .nConsecutivePayments) IsInt32 h.nConsecutivePayments isInt32_zero
  case nPoSePenalty =>
    exact hfield (f := .nPoSePenalty) (fun n : ℤ => IsInt32 n ∧ 0 ≤ n) h.nPoSePenalty ⟨isInt32_zero, le_refl _⟩
  case nPoSeRevivedHeight => exact hfield (f := .nPoSeRevivedHeight) IsInt32 h.nPoSeRevivedHeight isInt32_neg_one
  case nPoSeBanHeight => exact hfield (f := .nPoSeBanHeight) IsInt32 h.nPoSeBanHeight isInt32_neg_one
  case scriptPayout =>
    exact hfield (f := .scriptPayout) (fun s : CScript => s.length ≤ maxSize) h.scriptPayout (Nat.zero_le _)
  case scriptOperatorPayout =>
    exact hfield (f := .scriptOperatorPayout) (fun s : CScript => s.length ≤ maxSize) h.scriptOperatorPayout
      (Nat.zero_le _)
  case encoding =>
    have hkey := hget .pubKeyOperator
    by_cases hd : (ofStates a b).has .pubKeyOperator
    · have hv := hget .nVersion
      rw [if_pos (hversion hd)] at hv
      rw [if_pos hd] at hkey
      change (ofStates a b).state.nVersion = b.nVersion at hv
      change (ofStates a b).state.pubKeyOperator = b.pubKeyOperator at hkey
      rw [isLegacy, hv, hkey]
      exact h.encoding
    · rw [if_neg hd] at hkey
      change (ofStates a b).state.pubKeyOperator = .null at hkey
      rw [hkey]
      rfl

end CDeterministicMNStateDiff

/-! ### Masternodes -/

namespace CDeterministicMN

/-- A masternode as it is written. -/
def serialize (bls : Bls G) (dmn : CDeterministicMN G) : List UInt8 :=
  put dmn.proTxHash ++ (putVarInt 64 dmn.internalId ++ (dmn.collateralOutpoint.serialize ++
    (put dmn.nOperatorReward ++ (dmn.pdmnState.serialize bls ++ put dmn.nType.toBits))))

/-- Read a masternode. -/
def unserialize (bls : Bls G) : Reader (CDeterministicMN G) := do
  let proTxHash ← Reader.get 256
  let internalId ← Reader.getVarInt 64
  let collateralOutpoint ← COutPoint.unserialize
  let nOperatorReward ← Reader.get 16
  let pdmnState ← CDeterministicMNState.unserialize bls
  let nType ← Reader.get 16
  return { proTxHash, internalId, collateralOutpoint, nOperatorReward, nType := MnType.ofBits nType, pdmnState }

lemma reads_serialize (bls : Bls G) {dmn : CDeterministicMN G} (hid : dmn.internalId < 2 ^ 64)
    (htype : dmn.nType.isValid) (hstate : StateWf dmn.pdmnState) :
    Reads (unserialize bls) (dmn.serialize bls) dmn := by
  refine (get (by decide) dmn.proTxHash).bind ?_
  refine (getVarInt hid).bind ?_
  refine dmn.collateralOutpoint.reads_serialize.bind ?_
  refine (get (by decide) dmn.nOperatorReward).bind ?_
  refine (CDeterministicMNState.reads_serialize bls hstate).bind ?_
  refine (get (by decide) dmn.nType.toBits).bind_pure ?_
  rw [MnType.ofBits_toBits htype]
  exact pure dmn

end CDeterministicMN

end Blocx
