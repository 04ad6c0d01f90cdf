import Blocx.Consensus.Params

/-!
# Superblock heights

`CSuperblock::IsValidBlockHeight` and `CSuperblock::GetNearestSuperblocksHeights`
(`governance/classes.cpp`). The first decides whether a block may be a superblock;
the second reports the last and the next superblock height around a block. Both
choose a cycle by era, and each writes its own modular formula; `%` and `/` are the
truncating operations of C++ (`Int.tmod`, `Int.tdiv`).

In the first two eras the two functions agree. In the Autolykos era the first one
computes `(offset % cycle) / cycle`, which is `0` for every offset, so that every
height of that era is a superblock height; the second one reports one height per
cycle, the last of it.
-/

namespace Blocx

open Consensus

namespace CSuperblock

variable {h : ℤ}

def isValidBlockHeight (params : Params) (nBlockHeight : ℤ) : Bool :=
  if nBlockHeight < params.nNewSuperBlockStartHeight then
    nBlockHeight ≥ params.nSuperblockStartBlock && nBlockHeight.tmod params.nSuperblockCycle == 0
  else if nBlockHeight < params.nAutolykosSuperBlockStartHeight then
    nBlockHeight ≥ params.nSuperblockStartBlock && nBlockHeight.tmod params.nNewSuperBlockCycle == 0
  else
    let offset := nBlockHeight - params.nAutolykosSuperBlockStartHeight
    (offset.tmod params.nAutolykosSuperBlockCycle).tdiv params.nAutolykosSuperBlockCycle == 0

/-- The cycle length and the start block `GetNearestSuperblocksHeights` uses at a height. -/
def nearestEra (params : Params) (nBlockHeight : ℤ) : ℤ × ℤ :=
  if nBlockHeight < params.nNewSuperBlockStartHeight then
    (params.nSuperblockCycle, params.nSuperblockStartBlock)
  else if nBlockHeight < params.nAutolykosSuperBlockStartHeight then
    (params.nNewSuperBlockCycle, params.nNewSuperBlockStartHeight)
  else
    (params.nAutolykosSuperBlockCycle, params.nAutolykosSuperBlockStartHeight)

def getNearestSuperblocksHeights (params : Params) (nBlockHeight : ℤ) : ℤ × ℤ :=
  let (nSuperblockCycle, nSuperblockStartBlock) := nearestEra params nBlockHeight
  if nBlockHeight < nSuperblockStartBlock then (0, nSuperblockStartBlock)
  else
    let nLastSuperblockRet := (nBlockHeight - (nBlockHeight - nSuperblockStartBlock).tmod nSuperblockCycle) - 1
    (nLastSuperblockRet, nLastSuperblockRet + nSuperblockCycle)

def nextSuperblock (params : Params) (nBlockHeight : ℤ) : ℤ :=
  (getNearestSuperblocksHeights params nBlockHeight).2

/-! ### What the two functions compute on the main network -/

/-- First era: one height in `14600`. -/
lemma isValidBlockHeight_old (h₁ : 1 ≤ h) (h₂ : h < 87601) :
    isValidBlockHeight mainParams h = true ↔ h % 14600 = 0 := by
  have hm : h.tmod 14600 = h % 14600 := Int.tmod_eq_emod_of_nonneg (by omega)
  simp [isValidBlockHeight, mainParams, h₁, h₂, hm]

/-- Second era: one height in `29200`. -/
lemma isValidBlockHeight_new (h₁ : 87601 ≤ h) (h₂ : h < 292001) :
    isValidBlockHeight mainParams h = true ↔ h % 29200 = 0 := by
  have hm : h.tmod 29200 = h % 29200 := Int.tmod_eq_emod_of_nonneg (by omega)
  have h₀ : ¬ h < 87601 := by omega
  have hs : (1 : ℤ) ≤ h := by omega
  simp [isValidBlockHeight, mainParams, h₀, h₂, hs, hm]

/-- Autolykos era: every height, since a remainder divided by its modulus is `0`. -/
lemma isValidBlockHeight_autolykos (h₁ : 292001 ≤ h) : isValidBlockHeight mainParams h = true := by
  have h₀ : ¬ h < 87601 := by omega
  have h₂ : ¬ h < 292001 := by omega
  have hm : (h - 292001).tmod 43200 = (h - 292001) % 43200 := Int.tmod_eq_emod_of_nonneg (by omega)
  have hd : ((h - 292001) % 43200).tdiv 43200 = 0 :=
    Int.tdiv_eq_zero_of_lt (Int.emod_nonneg _ (by decide)) (Int.emod_lt_of_pos _ (by decide))
  simp [isValidBlockHeight, mainParams, h₀, h₂, hm, hd]

/-- A block is its own next superblock exactly at the end of its cycle. -/
lemma eq_nextSuperblock_iff {cycle start : ℤ} (hera : nearestEra mainParams h = (cycle, start)) (hs : start ≤ h) :
    h = nextSuperblock mainParams h ↔ (h - start) % cycle = cycle - 1 := by
  have hm : (h - start).tmod cycle = (h - start) % cycle := Int.tmod_eq_emod_of_nonneg (by omega)
  have h₀ : ¬ h < start := by omega
  simp only [nextSuperblock, getNearestSuperblocksHeights, hera, h₀, if_false, hm]
  omega

lemma nearestEra_old (h₂ : h < 87601) : nearestEra mainParams h = (14600, 1) := by
  simp [nearestEra, mainParams, h₂]

lemma nearestEra_new (h₁ : 87601 ≤ h) (h₂ : h < 292001) : nearestEra mainParams h = (29200, 87601) := by
  have h₀ : ¬ h < 87601 := by omega
  simp [nearestEra, mainParams, h₀, h₂]

lemma nearestEra_autolykos (h₁ : 292001 ≤ h) : nearestEra mainParams h = (43200, 292001) := by
  have h₀ : ¬ h < 87601 := by omega
  have h₂ : ¬ h < 292001 := by omega
  simp [nearestEra, mainParams, h₀, h₂]

/-- The last height of an Autolykos superblock cycle. -/
def autolykosCycleEnd (h : ℤ) : Prop := (h - 292001) % 43200 = 43199

instance : DecidablePred autolykosCycleEnd := fun _ => inferInstanceAs (Decidable (_ = _))

def OncePerCycle (params : Params) (s : ℤ) : Prop :=
  ∀ a b, s ≤ a → a < s + params.nAutolykosSuperBlockCycle → s ≤ b →
    b < s + params.nAutolykosSuperBlockCycle →
    isValidBlockHeight params a = true → isValidBlockHeight params b = true → a = b

/-- The two functions agree at a height exactly when it lies before the Autolykos era
or ends a cycle of it, and no window of a cycle's length in that era has a single
superblock height. -/
theorem isValidBlockHeight_iff_nextSuperblock (h s : ℤ) (hstart : mainParams.nSuperblockStartBlock ≤ h)
    (hs : mainParams.nAutolykosSuperBlockStartHeight ≤ s) :
    ((isValidBlockHeight mainParams h = true ↔ h = nextSuperblock mainParams h) ↔
      (h < mainParams.nAutolykosSuperBlockStartHeight ∨ autolykosCycleEnd h)) ∧
    ¬ OncePerCycle mainParams s := by
  refine ⟨?_, fun honce => ?_⟩
  · have h₁ : 1 ≤ h := hstart
    show _ ↔ (h < 292001 ∨ autolykosCycleEnd h)
    rcases lt_or_ge h 87601 with hold | hnew
    · rw [isValidBlockHeight_old h₁ hold, eq_nextSuperblock_iff (nearestEra_old hold) h₁]
      omega
    rcases lt_or_ge h 292001 with hmid | haut
    · rw [isValidBlockHeight_new hnew hmid, eq_nextSuperblock_iff (nearestEra_new hnew hmid) hnew]
      omega
    · rw [isValidBlockHeight_autolykos haut, eq_nextSuperblock_iff (nearestEra_autolykos haut) haut]
      simp only [true_iff, autolykosCycleEnd]
      omega
  · have hs' : 292001 ≤ s := hs
    have := honce s (s + 1) le_rfl (by simp [mainParams]) (by omega) (by simp [mainParams])
      (isValidBlockHeight_autolykos hs') (isValidBlockHeight_autolykos (by omega))
    omega

/-- At the first superblock of the second era the functions agree. -/
theorem isValidBlockHeight_iff_nextSuperblock_116800 :
    isValidBlockHeight mainParams 116800 = true ↔ 116800 = nextSuperblock mainParams 116800 :=
  (isValidBlockHeight_iff_nextSuperblock 116800 292001 (by decide) (by decide)).1.mpr (Or.inl (by decide))

/-- The first height of the Autolykos era is a superblock height although the next
superblock is reported a cycle later. -/
theorem isValidBlockHeight_ne_nextSuperblock :
    ¬ ((∀ h : ℤ, mainParams.nSuperblockStartBlock ≤ h →
        (isValidBlockHeight mainParams h = true ↔ h = nextSuperblock mainParams h)) ∧
      ∀ s : ℤ, mainParams.nAutolykosSuperBlockStartHeight ≤ s → OncePerCycle mainParams s) := by
  intro hall
  have hbad := hall.1 292001 (by decide)
  exact absurd (hbad.mp (by decide)) (by decide)

end CSuperblock

end Blocx
