import Blocx.Consensus.Params
import Blocx.Primitives.BlockHash

/-!
# The proof-of-work check

`CheckProofOfWork` (`pow.cpp`) has two branches. For an X11 header it decodes the target, refuses one that is negative,
zero, overflowing or above the network's limit, and compares the header's hash with it. For an Autolykos header it
leaves everything to `validate`, which decodes the same target without its flags and without the limit.
`checkProofOfWork_range` says exactly when this makes a difference.
-/

namespace Blocx

open AutolykosPowScheme Uint256 Consensus

def checkProofOfWork (hash : HashFunctions) (params : Consensus.Params) (b_h : CBlockHeader) (blockHash : Uint256)
    (nBits : BitVec 32) : Bool :=
  if b_h.nVersion.toInt ≠ params.AutolykosForkSwitchVersion then
    let bnTarget := setCompact nBits
    if bnTarget.fNegative ∨ bnTarget.value = 0 ∨ bnTarget.fOverflow ∨ bnTarget.value > params.powLimit then false
    else if blockHash > bnTarget.value then false
    else true
  else validate hash (b_h.autolykosHeader (BitVec.ofInt 8 params.AutolykosForkSwitchVersion) nBits)

/-- The compact target decodes to itself and is within the limit of the network. -/
structure TargetInRange (params : Consensus.Params) (nBits : BitVec 32) : Prop where
  nonneg : (setCompact nBits).fNegative = false
  fits : (setCompact nBits).fOverflow = false
  le_powLimit : (setCompact nBits).value ≤ params.powLimit

/-- What acceptance by `CheckProofOfWork` is to mean: the target is in range and not zero, and the hash of the header
does not exceed it. -/
def RangeChecked (hash : HashFunctions) (params : Consensus.Params) (b_h : CBlockHeader) (nBits : BitVec 32) : Prop :=
  checkProofOfWork hash params b_h (b_h.getHash hash) nBits = true →
    TargetInRange params nBits ∧ (setCompact nBits).value ≠ 0 ∧ b_h.getHash hash ≤ (setCompact nBits).value

variable {params : Consensus.Params} {nBits : BitVec 32}

section Branches

variable {hash : HashFunctions} {b_h : CBlockHeader}

/-- The X11 branch accepts exactly a hash within a target in range. -/
lemma checkProofOfWork_x11 (hv : b_h.nVersion.toInt ≠ params.AutolykosForkSwitchVersion) (blockHash : Uint256) :
    checkProofOfWork hash params b_h blockHash nBits = true ↔
      TargetInRange params nBits ∧ (setCompact nBits).value ≠ 0 ∧ blockHash ≤ (setCompact nBits).value := by
  rw [checkProofOfWork, if_pos hv]
  constructor
  · intro h
    dsimp only at h
    split_ifs at h with hr hh
    simp only [not_or, Bool.not_eq_true] at hr
    exact ⟨⟨hr.1, hr.2.2.1, BitVec.not_lt.mp hr.2.2.2⟩, hr.2.1, BitVec.not_lt.mp hh⟩
  · rintro ⟨⟨hneg, hover, hlim⟩, hzero, hle⟩
    have hr : ¬((setCompact nBits).fNegative = true ∨ (setCompact nBits).value = 0 ∨
        (setCompact nBits).fOverflow = true ∨ (setCompact nBits).value > params.powLimit) := by
      rw [hneg, hover]
      rintro (h | h | h | h)
      · cases h
      · exact hzero h
      · cases h
      · exact absurd hlim (BitVec.not_le.mpr h)
    simp only [hr, if_false, if_neg (BitVec.not_lt.mpr hle)]

/-- The Autolykos branch accepts exactly a hit below the target. -/
lemma checkProofOfWork_autolykos (hv : b_h.nVersion.toInt = params.AutolykosForkSwitchVersion) (blockHash : Uint256) :
    checkProofOfWork hash params b_h blockHash nBits = true ↔
      hit hash (b_h.autolykosHeader (BitVec.ofInt 8 params.AutolykosForkSwitchVersion) nBits) <
        (setCompact nBits).value.toNat := by
  rw [checkProofOfWork, if_neg (not_not_intro hv), validate_eq_true_iff]
  rfl

end Branches

lemma toInt_nVersion_iff (hv : params.AutolykosForkSwitchVersion = 5) (b_h : CBlockHeader) :
    b_h.nVersion.toInt = params.AutolykosForkSwitchVersion ↔ b_h.nVersion = CBlockHeader.autolykosVersion := by
  rw [hv, ← BitVec.toInt_inj]
  rfl

/-- **Targets are range checked** exactly on the inputs named here: headers of another version, refused headers, and
targets that are in range anyway (with the hash within them). A caller passes the header's own target, and then the
hash needs no separate mention. -/
theorem checkProofOfWork_range (hash : HashFunctions) (params : Consensus.Params)
    (hv : params.AutolykosForkSwitchVersion = 5) (b_h : CBlockHeader) (nBits : BitVec 32) :
    (RangeChecked hash params b_h nBits ↔ b_h.nVersion ≠ CBlockHeader.autolykosVersion ∨
      (setCompact nBits).value.toNat ≤ hit hash (b_h.autolykosHeader 0x05 nBits) ∨
      TargetInRange params nBits ∧ b_h.getHash hash ≤ (setCompact nBits).value) ∧
    (nBits = b_h.nBits → (RangeChecked hash params b_h nBits ↔ b_h.nVersion ≠ CBlockHeader.autolykosVersion ∨
      (setCompact nBits).value ≤ b_h.getHash hash ∨ TargetInRange params nBits)) := by
  have hversion := toInt_nVersion_iff hv b_h
  by_cases h5 : b_h.nVersion = CBlockHeader.autolykosVersion
  · have hcheck : checkProofOfWork hash params b_h (b_h.getHash hash) nBits = true ↔ _ :=
      checkProofOfWork_autolykos (hversion.mpr h5) _
    rw [hv, show BitVec.ofInt 8 5 = (0x05 : BitVec 8) from rfl] at hcheck
    have hne {n : ℕ} (hlt : n < (setCompact nBits).value.toNat) : (setCompact nBits).value ≠ 0 := by
      intro h0
      rw [h0] at hlt
      exact absurd hlt (Nat.not_lt_zero n)
    unfold RangeChecked
    rw [hcheck]
    constructor
    · constructor
      · intro h
        rcases Nat.lt_or_ge (hit hash (b_h.autolykosHeader 0x05 nBits)) (setCompact nBits).value.toNat with hlt | hge
        · exact Or.inr (Or.inr ⟨(h hlt).1, (h hlt).2.2⟩)
        · exact Or.inr (Or.inl hge)
      · rintro (h | h | h) hlt
        · exact absurd h5 h
        · exact absurd hlt (Nat.not_lt.mpr h)
        · exact ⟨h.1, hne hlt, h.2⟩
    · rintro rfl
      have hhash := b_h.toNat_autolykosHash hash
      rw [← CBlockHeader.getHash_of_eq hash h5] at hhash
      rw [← hhash]
      constructor
      · intro h
        rcases Nat.lt_or_ge (b_h.getHash hash).toNat (setCompact b_h.nBits).value.toNat with hlt | hge
        · exact Or.inr (Or.inr (h hlt).1)
        · exact Or.inr (Or.inl hge)
      · rintro (h | h | h) hlt
        · exact absurd h5 h
        · exact absurd hlt (Nat.not_lt.mpr h)
        · exact ⟨h, hne hlt, BitVec.le_of_lt hlt⟩
  · have hchecked : RangeChecked hash params b_h nBits := fun h =>
      (checkProofOfWork_x11 (fun hc => h5 (hversion.mp hc)) _).mp h
    exact ⟨⟨fun _ => Or.inl h5, fun _ => hchecked⟩, fun _ => ⟨fun _ => Or.inl h5, fun _ => hchecked⟩⟩

/-- Hash functions under which every hit is zero. -/
def zeroHash : HashFunctions where
  hashX11 := fun _ => 0
  blake2b256 := fun _ => ⟨List.replicate 32 0, rfl⟩

/-- An Autolykos header with a given target. -/
def targetHeader (nBits : BitVec 32) : CBlockHeader := { nVersion := 5, nBits }

lemma hit_zeroHash (header : Header) : hit zeroHash header = 0 := by
  change toBigInt (List.replicate 32 0) = 0
  decide

lemma checkProofOfWork_targetHeader (h : 0 < (setCompact nBits).value.toNat) :
    checkProofOfWork zeroHash mainParams (targetHeader nBits) ((targetHeader nBits).getHash zeroHash) nBits =
      true := by
  have hv : (targetHeader nBits).nVersion.toInt = mainParams.AutolykosForkSwitchVersion := rfl
  rwa [checkProofOfWork_autolykos hv, hit_zeroHash]

/-- On the main network: an X11 header, and an accepted Autolykos header whose target is in range. -/
theorem checkProofOfWork_range_main :
    RangeChecked toyHash mainParams { nVersion := 4 } 0x1d00ffff ∧
      checkProofOfWork zeroHash mainParams (targetHeader 0x1d00ffff)
        ((targetHeader 0x1d00ffff).getHash zeroHash) 0x1d00ffff = true ∧
      RangeChecked zeroHash mainParams (targetHeader 0x1d00ffff) 0x1d00ffff := by
  have hrange : TargetInRange mainParams 0x1d00ffff := ⟨by decide, by decide, by decide⟩
  exact ⟨(checkProofOfWork_range toyHash mainParams rfl { nVersion := 4 } 0x1d00ffff).1.mpr (Or.inl (by decide)),
    checkProofOfWork_targetHeader (by decide),
    ((checkProofOfWork_range zeroHash mainParams rfl (targetHeader 0x1d00ffff) 0x1d00ffff).2 rfl).mpr
      (Or.inr (Or.inr hrange))⟩

/-- On the main network a negative target, an overflowing one and one above the limit all pass. -/
theorem rangeChecked_fails :
    ((setCompact 0x20923456).fNegative = true ∧
      ¬RangeChecked zeroHash mainParams (targetHeader 0x20923456) 0x20923456) ∧
    ((setCompact 0x22123456).fOverflow = true ∧
      ¬RangeChecked zeroHash mainParams (targetHeader 0x22123456) 0x22123456) ∧
    (mainParams.powLimit < (setCompact 0x207fffff).value ∧
      ¬RangeChecked zeroHash mainParams (targetHeader 0x207fffff) 0x207fffff) := by
  have hneg : (setCompact 0x20923456).fNegative = true := by decide
  have hover : (setCompact 0x22123456).fOverflow = true := by decide
  have hlim : mainParams.powLimit < (setCompact 0x207fffff).value := by decide
  refine ⟨⟨hneg, fun h => ?_⟩, ⟨hover, fun h => ?_⟩, ⟨hlim, fun h => ?_⟩⟩
  · have hr := (h (checkProofOfWork_targetHeader (by decide))).1.nonneg
    cases hr
  · have hr := (h (checkProofOfWork_targetHeader (by decide))).1.fits
    cases hr
  · have hr := (h (checkProofOfWork_targetHeader (by decide))).1.le_powLimit
    exact absurd hr (BitVec.not_le.mpr hlim)

end Blocx
