import Blocx.Evo.ProviderTx

/-!
# The state of a masternode

`CDeterministicMNState` and `CDeterministicMNStateDiff` (`evo/dmnstate.h`). The difference of two states is a bit mask
of the fields that changed and their new values. The nineteen fields are treated alike by the source's
`DMN_STATE_DIFF_LINE`, so they are an enumeration here, with one operation for each thing the source does with a field:
compare it, copy it, write it and read it.

`applyToState_diff` says what a difference is for: applied to the state it was taken from, it gives the other state.
The one field for which this takes an assumption is the operator key: keys are compared as keys, so a key that only
changed its encoding is not seen as changed, and is then not copied.
-/

namespace Blocx

open List

variable {G : Type}

@[ext]
structure CDeterministicMNState (G : Type) where
  /-- Version; decides the encoding of the operator key. -/
  nVersion : ℤ := legacyBlsVersion
  nRegisteredHeight : ℤ := -1
  nLastPaidHeight : ℤ := 0
  nConsecutivePayments : ℤ := 0
  nPoSePenalty : ℤ := 0
  /-- Height of the last revival, or -1. -/
  nPoSeRevivedHeight : ℤ := -1
  nPoSeBanHeight : ℤ := -1
  nRevocationReason : BitVec 16 := 0
  /-- Block hash some blocks after the registration. -/
  confirmedHash : Uint256 := 0
  confirmedHashWithProRegTxHash : Uint256 := 0
  keyIDOwner : CKeyID := 0
  pubKeyOperator : CBLSLazyPublicKey G := .null
  keyIDVoting : CKeyID := 0
  addr : CService := {}
  scriptPayout : CScript := []
  scriptOperatorPayout : CScript := []
  platformNodeID : BitVec 160 := 0
  platformP2PPort : BitVec 16 := 0
  platformHTTPPort : BitVec 16 := 0
  deriving DecidableEq

variable {a b : CDeterministicMNState G}

namespace CDeterministicMNState

/-- The state of a new registration. The platform fields of a payload are not read and have their defaults. -/
def ofProRegTx (proTx : CProRegTx G) : CDeterministicMNState G :=
  { nVersion := proTx.nVersion.toNat
    keyIDOwner := proTx.keyIDOwner
    pubKeyOperator := proTx.pubKeyOperator
    keyIDVoting := proTx.keyIDVoting
    addr := proTx.addr
    scriptPayout := proTx.scriptPayout }

def resetOperatorFields (st : CDeterministicMNState G) : CDeterministicMNState G :=
  { st with
    nVersion := legacyBlsVersion, pubKeyOperator := .null, addr := {}, scriptOperatorPayout := [],
    nRevocationReason := 0, platformNodeID := 0 }

def isBanned (st : CDeterministicMNState G) : Bool := st.nPoSeBanHeight ≠ -1

def banIfNotBanned (height : ℤ) (st : CDeterministicMNState G) : CDeterministicMNState G :=
  if st.isBanned then st else { st with nPoSeBanHeight := height }

def revive (nRevivedHeight : ℤ) (st : CDeterministicMNState G) : CDeterministicMNState G :=
  { st with nPoSePenalty := 0, nPoSeBanHeight := -1, nPoSeRevivedHeight := nRevivedHeight }

def updateConfirmedHash (sha256 : Uint256 → Uint256 → Uint256) (proTxHash confirmedHash : Uint256)
    (st : CDeterministicMNState G) : CDeterministicMNState G :=
  { st with confirmedHash := confirmedHash, confirmedHashWithProRegTxHash := sha256 proTxHash confirmedHash }

/-- The encoding that the version asks for is the legacy one. -/
def isLegacy (st : CDeterministicMNState G) : Bool := st.nVersion = legacyBlsVersion

/-! ### Fields -/

/-- `DMN_STATE_DIFF_ALL_FIELDS`. -/
inductive Field where
  | nRegisteredHeight | nLastPaidHeight | nPoSePenalty | nPoSeRevivedHeight | nPoSeBanHeight | nRevocationReason
  | confirmedHash | confirmedHashWithProRegTxHash | keyIDOwner | pubKeyOperator | keyIDVoting | addr | scriptPayout
  | scriptOperatorPayout | nConsecutivePayments | platformNodeID | platformP2PPort | platformHTTPPort | nVersion
  deriving DecidableEq

namespace Field

/-- The fields in the order in which they are compared and written. -/
def all : List Field :=
  [nRegisteredHeight, nLastPaidHeight, nPoSePenalty, nPoSeRevivedHeight, nPoSeBanHeight, nRevocationReason,
    confirmedHash, confirmedHashWithProRegTxHash, keyIDOwner, pubKeyOperator, keyIDVoting, addr, scriptPayout,
    scriptOperatorPayout, nConsecutivePayments, platformNodeID, platformP2PPort, platformHTTPPort, nVersion]

/-- The bit of a field in the mask `Field`. -/
def bit : Field → ℕ
  | nRegisteredHeight => 0
  | nLastPaidHeight => 1
  | nPoSePenalty => 2
  | nPoSeRevivedHeight => 3
  | nPoSeBanHeight => 4
  | nRevocationReason => 5
  | confirmedHash => 6
  | confirmedHashWithProRegTxHash => 7
  | keyIDOwner => 8
  | pubKeyOperator => 9
  | keyIDVoting => 10
  | addr => 11
  | scriptPayout => 12
  | scriptOperatorPayout => 13
  | nConsecutivePayments => 14
  | platformNodeID => 15
  | platformP2PPort => 16
  | platformHTTPPort => 17
  | nVersion => 18

/-- `a.f != b.f`. -/
def changed [DecidableEq G] (a b : CDeterministicMNState G) : Field → Bool
  | nRegisteredHeight => a.nRegisteredHeight ≠ b.nRegisteredHeight
  | nLastPaidHeight => a.nLastPaidHeight ≠ b.nLastPaidHeight
  | nPoSePenalty => a.nPoSePenalty ≠ b.nPoSePenalty
  | nPoSeRevivedHeight => a.nPoSeRevivedHeight ≠ b.nPoSeRevivedHeight
  | nPoSeBanHeight => a.nPoSeBanHeight ≠ b.nPoSeBanHeight
  | nRevocationReason => a.nRevocationReason ≠ b.nRevocationReason
  | confirmedHash => a.confirmedHash ≠ b.confirmedHash
  | confirmedHashWithProRegTxHash => a.confirmedHashWithProRegTxHash ≠ b.confirmedHashWithProRegTxHash
  | keyIDOwner => a.keyIDOwner ≠ b.keyIDOwner
  | pubKeyOperator => !a.pubKeyOperator.eq b.pubKeyOperator
  | keyIDVoting => a.keyIDVoting ≠ b.keyIDVoting
  | addr => a.addr ≠ b.addr
  | scriptPayout => a.scriptPayout ≠ b.scriptPayout
  | scriptOperatorPayout => a.scriptOperatorPayout ≠ b.scriptOperatorPayout
  | nConsecutivePayments => a.nConsecutivePayments ≠ b.nConsecutivePayments
  | platformNodeID => a.platformNodeID ≠ b.platformNodeID
  | platformP2PPort => a.platformP2PPort ≠ b.platformP2PPort
  | platformHTTPPort => a.platformHTTPPort ≠ b.platformHTTPPort
  | nVersion => a.nVersion ≠ b.nVersion

/-- `target.f = src.f`. -/
def copy (src target : CDeterministicMNState G) : Field → CDeterministicMNState G
  | nRegisteredHeight => { target with nRegisteredHeight := src.nRegisteredHeight }
  | nLastPaidHeight => { target with nLastPaidHeight := src.nLastPaidHeight }
  | nPoSePenalty => { target with nPoSePenalty := src.nPoSePenalty }
  | nPoSeRevivedHeight => { target with nPoSeRevivedHeight := src.nPoSeRevivedHeight }
  | nPoSeBanHeight => { target with nPoSeBanHeight := src.nPoSeBanHeight }
  | nRevocationReason => { target with nRevocationReason := src.nRevocationReason }
  | confirmedHash => { target with confirmedHash := src.confirmedHash }
  | confirmedHashWithProRegTxHash => { target with confirmedHashWithProRegTxHash := src.confirmedHashWithProRegTxHash }
  | keyIDOwner => { target with keyIDOwner := src.keyIDOwner }
  | pubKeyOperator => { target with pubKeyOperator := src.pubKeyOperator }
  | keyIDVoting => { target with keyIDVoting := src.keyIDVoting }
  | addr => { target with addr := src.addr }
  | scriptPayout => { target with scriptPayout := src.scriptPayout }
  | scriptOperatorPayout => { target with scriptOperatorPayout := src.scriptOperatorPayout }
  | nConsecutivePayments => { target with nConsecutivePayments := src.nConsecutivePayments }
  | platformNodeID => { target with platformNodeID := src.platformNodeID }
  | platformP2PPort => { target with platformP2PPort := src.platformP2PPort }
  | platformHTTPPort => { target with platformHTTPPort := src.platformHTTPPort }
  | nVersion => { target with nVersion := src.nVersion }

/-! The laws of fields: a state is its fields, and copying a field changes that field only. -/

def Ty (G : Type) : Field → Type
  | nRevocationReason | platformP2PPort | platformHTTPPort => BitVec 16
  | confirmedHash | confirmedHashWithProRegTxHash => Uint256
  | keyIDOwner | keyIDVoting | platformNodeID => BitVec 160
  | pubKeyOperator => CBLSLazyPublicKey G
  | addr => CService
  | scriptPayout | scriptOperatorPayout => CScript
  | _ => ℤ

/-- The value of a field. -/
def get (st : CDeterministicMNState G) : (f : Field) → f.Ty G
  | nRegisteredHeight => st.nRegisteredHeight
  | nLastPaidHeight => st.nLastPaidHeight
  | nPoSePenalty => st.nPoSePenalty
  | nPoSeRevivedHeight => st.nPoSeRevivedHeight
  | nPoSeBanHeight => st.nPoSeBanHeight
  | nRevocationReason => st.nRevocationReason
  | confirmedHash => st.confirmedHash
  | confirmedHashWithProRegTxHash => st.confirmedHashWithProRegTxHash
  | keyIDOwner => st.keyIDOwner
  | pubKeyOperator => st.pubKeyOperator
  | keyIDVoting => st.keyIDVoting
  | addr => st.addr
  | scriptPayout => st.scriptPayout
  | scriptOperatorPayout => st.scriptOperatorPayout
  | nConsecutivePayments => st.nConsecutivePayments
  | platformNodeID => st.platformNodeID
  | platformP2PPort => st.platformP2PPort
  | platformHTTPPort => st.platformHTTPPort
  | nVersion => st.nVersion

lemma mem_all (f : Field) : f ∈ all := by
  cases f <;> decide

lemma bit_lt (f : Field) : f.bit < 32 := by
  cases f <;> decide

lemma bit_inj {f g : Field} (h : f.bit = g.bit) : f = g := by
  have hall : ∀ f ∈ all, ∀ g ∈ all, f.bit = g.bit → f = g := by decide
  exact hall f (mem_all f) g (mem_all g) h

lemma ext_get (h : ∀ f : Field, get a f = get b f) : a = b :=
  CDeterministicMNState.ext (h nVersion) (h nRegisteredHeight) (h nLastPaidHeight) (h nConsecutivePayments)
    (h nPoSePenalty) (h nPoSeRevivedHeight) (h nPoSeBanHeight) (h nRevocationReason) (h confirmedHash)
    (h confirmedHashWithProRegTxHash) (h keyIDOwner) (h pubKeyOperator) (h keyIDVoting) (h addr) (h scriptPayout)
    (h scriptOperatorPayout) (h platformNodeID) (h platformP2PPort) (h platformHTTPPort)

lemma get_copy_self (src target : CDeterministicMNState G) (f : Field) : get (copy src target f) f = get src f := by
  cases f <;> rfl

lemma get_copy_of_ne (src target : CDeterministicMNState G) {f g : Field} (h : g ≠ f) :
    get (copy src target f) g = get target g := by
  cases f <;> cases g <;> first | rfl | exact absurd rfl h

lemma changed_eq_false [DecidableEq G] {f : Field} (hf : f ≠ pubKeyOperator) (h : changed a b f = false) :
    get a f = get b f := by
  cases f <;>
    first
    | exact absurd rfl hf
    | simp only [changed, ne_eq, decide_not, Bool.not_eq_false', decide_eq_true_eq] at h
      exact h

/-- Copying the fields of a list that pass a test. -/
lemma get_foldl_copy (src target : CDeterministicMNState G) (p : Field → Bool) (fs : List Field) (g : Field) :
    get (fs.foldl (fun t f => if p f then copy src t f else t) target) g =
      if g ∈ fs ∧ p g then get src g else get target g := by
  induction fs generalizing target with
  | nil => simp
  | cons f fs ih =>
    rw [foldl_cons, ih]
    by_cases hg : g ∈ fs ∧ p g
    · rw [if_pos hg, if_pos ⟨mem_cons_of_mem f hg.1, hg.2⟩]
    · rw [if_neg hg]
      by_cases hgf : g = f
      · subst hgf
        by_cases hp : p g
        · rw [if_pos hp, if_pos ⟨mem_cons_self, hp⟩, get_copy_self]
        · rw [if_neg hp, if_neg fun h => hp h.2]
      · rw [if_neg (fun h : g ∈ f :: fs ∧ p g => hg ⟨(mem_cons.mp h.1).resolve_left hgf, h.2⟩)]
        by_cases hp : p f
        · rw [if_pos hp, get_copy_of_ne src target hgf]
        · rw [if_neg hp]

end Field

end CDeterministicMNState

/-! ### Differences -/

open CDeterministicMNState

structure CDeterministicMNStateDiff (G : Type) where
  /-- The mask of the fields that are set. -/
  fields : BitVec 32 := 0
  /-- The values of the fields that are set. -/
  state : CDeterministicMNState G := {}
  deriving DecidableEq

namespace CDeterministicMNStateDiff

variable {diff : CDeterministicMNStateDiff G}

def has (diff : CDeterministicMNStateDiff G) (f : Field) : Bool := diff.fields.getLsbD f.bit

def record (b : CDeterministicMNState G) (diff : CDeterministicMNStateDiff G) (f : Field) :
    CDeterministicMNStateDiff G :=
  { fields := diff.fields ||| 1#32 <<< f.bit, state := Field.copy b diff.state f }

/-- The difference of two states: the changed fields, and the version whenever the operator key changed. -/
def ofStates [DecidableEq G] (a b : CDeterministicMNState G) : CDeterministicMNStateDiff G :=
  let diff := Field.all.foldl (fun (diff : CDeterministicMNStateDiff G) f =>
    if Field.changed a b f then diff.record b f else diff) {}
  if diff.has .pubKeyOperator then diff.record b .nVersion else diff

def applyToState (diff : CDeterministicMNStateDiff G) (target : CDeterministicMNState G) : CDeterministicMNState G :=
  Field.all.foldl (fun t f => if diff.has f then Field.copy diff.state t f else t) target

lemma has_record {f : Field} (g : Field) : (diff.record b f).has g = (diff.has g || decide (g = f)) := by
  have hbit : (1#32 <<< f.bit).getLsbD g.bit = decide (g = f) := by
    rw [BitVec.getLsbD_shiftLeft, BitVec.getLsbD_one]
    by_cases h : g = f
    · subst h
      simp [Field.bit_lt]
    · have hne : g.bit ≠ f.bit := fun hb => h (Field.bit_inj hb)
      rw [decide_eq_false h]
      by_cases hlt : g.bit < f.bit
      · simp [hlt]
      · simp only [hlt, decide_false, Bool.not_false, Bool.and_true, Bool.and_eq_false_imp]
        intros
        exact decide_eq_false (by omega)
  unfold has record
  rw [BitVec.getLsbD_or, hbit]

variable (diff) in
lemma foldl_record {p : Field → Bool} {fs : List Field} :
    let d := fs.foldl (fun diff f => if p f then diff.record b f else diff) diff
    (∀ g, d.has g = (diff.has g || (decide (g ∈ fs) && p g))) ∧
      d.state = fs.foldl (fun t f => if p f then Field.copy b t f else t) diff.state := by
  induction fs generalizing diff with
  | nil => exact ⟨fun g => by simp, rfl⟩
  | cons f fs ih =>
    obtain ⟨hhas, hstate⟩ := ih (if p f then diff.record b f else diff)
    refine ⟨fun g => ?_, ?_⟩
    · rw [foldl_cons, hhas]
      by_cases hp : p f
      · rw [if_pos hp, has_record]
        by_cases hgf : g = f
        · subst hgf
          simp [hp]
        · simp [hgf]
      · rw [if_neg hp]
        by_cases hgf : g = f
        · subst hgf
          simp [hp]
        · simp [hgf]
    · rw [foldl_cons, foldl_cons, hstate]
      split_ifs <;> rfl

lemma has_ofStates [DecidableEq G] (a b : CDeterministicMNState G) (g : Field) :
    (ofStates a b).has g = (Field.changed a b g || (decide (g = .nVersion) && Field.changed a b .pubKeyOperator)) := by
  obtain ⟨hhas, -⟩ := foldl_record {}
  have h0 : ∀ g, (({} : CDeterministicMNStateDiff G)).has g = false := fun g => by simp [has]
  have hall : ∀ g, (Field.all.foldl (fun diff f => if Field.changed a b f then diff.record b f else diff)
      ({} : CDeterministicMNStateDiff G)).has g = Field.changed a b g := by
    intro g
    rw [hhas, h0, decide_eq_true (Field.mem_all g), Bool.false_or, Bool.true_and]
  unfold ofStates
  dsimp only
  rw [hall]
  split_ifs with hkey
  · rw [has_record, hall, hkey, Bool.and_true]
  · rw [hall, Bool.not_eq_true] at *
    rw [hkey, Bool.and_false, Bool.or_false]

/-- The values of the difference of two states: those of the second state where a field is set, otherwise the
default. -/
lemma get_state_ofStates [DecidableEq G] (a b : CDeterministicMNState G) (g : Field) :
    Field.get (ofStates a b).state g = if (ofStates a b).has g then Field.get b g else Field.get {} g := by
  rw [has_ofStates]
  obtain ⟨hhas, hstate⟩ := foldl_record {}
  have hkey : (Field.all.foldl (fun diff f => if Field.changed a b f then diff.record b f else diff)
      ({} : CDeterministicMNStateDiff G)).has .pubKeyOperator = Field.changed a b .pubKeyOperator := by
    rw [hhas]
    simp [has, Field.mem_all]
  unfold ofStates
  dsimp only
  rw [hkey]
  split_ifs with h1 h2 h2
  · by_cases hg : g = .nVersion
    · subst hg
      rw [record, Field.get_copy_self]
    · have hp : Field.changed a b g := by simpa [hg] using h2
      rw [record, Field.get_copy_of_ne _ _ hg, hstate, Field.get_foldl_copy, if_pos ⟨Field.mem_all g, hp⟩]
  · simp only [Bool.or_eq_true, Bool.and_eq_true, decide_eq_true_eq, h1, and_true, not_or] at h2
    rw [record, Field.get_copy_of_ne _ _ h2.2, hstate, Field.get_foldl_copy, if_neg fun h => h2.1 h.2]
  · have hp : Field.changed a b g := by simpa [h1] using h2
    rw [hstate, Field.get_foldl_copy, if_pos ⟨Field.mem_all g, hp⟩]
  · rw [hstate, Field.get_foldl_copy, if_neg]
    rintro ⟨-, h⟩
    exact h2 (by rw [h, Bool.true_or])

lemma get_applyToState {target : CDeterministicMNState G} {g : Field} :
    Field.get (diff.applyToState target) g = if diff.has g then Field.get diff.state g else Field.get target g := by
  unfold applyToState
  rw [Field.get_foldl_copy]
  simp [Field.mem_all]

lemma applyToState_of_fields_eq_zero (h : diff.fields = 0)
    (target : CDeterministicMNState G) : diff.applyToState target = target := by
  apply Field.ext_get
  intro g
  rw [get_applyToState, if_neg (by simp [has, h])]

/-- Applied to the state it was taken from, a difference gives the other state, unless the operator key is the same key
in another encoding. -/
lemma applyToState_ofStates [DecidableEq G]
    (hkey : a.pubKeyOperator.eq b.pubKeyOperator → a.pubKeyOperator = b.pubKeyOperator) :
    (ofStates a b).applyToState a = b := by
  apply Field.ext_get
  intro g
  rw [get_applyToState, get_state_ofStates]
  split_ifs with h
  · rfl
  · rw [has_ofStates, Bool.or_eq_true, not_or, Bool.not_eq_true] at h
    by_cases hg : g = .pubKeyOperator
    · subst hg
      exact hkey (by simpa [Field.changed] using h.1)
    · exact Field.changed_eq_false hg h.1

end CDeterministicMNStateDiff

end Blocx
