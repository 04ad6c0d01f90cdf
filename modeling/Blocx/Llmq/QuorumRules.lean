import Blocx.Chain.BlockIndex
import Blocx.Llmq.Commitment

/-!
# Quorum parameters and commitments

The parameters of the types of quorums (`llmq/params.h`), the cycles of key generation with their mining windows, quorum
rotation (`IsQuorumRotationEnabled`, `llmq/utils.cpp`), and the checks that a commitment goes through by itself
(`CFinalCommitment::Verify`, `llmq/commitment.cpp`).

What is computed elsewhere comes with `QuorumRules`: the block index, the deployments as functions of a block, which
types are enabled at a block, how many members a quorum has and whether the signatures of a commitment are theirs.
Heights are not negative, so `%` is the one of the source.
-/

namespace Blocx

variable {params : QuorumParams} {rules : QuorumRules} {qc : CFinalCommitment} {base : CBlockIndex} {checkSigs : Bool}

open Consensus

/-- The part of `LLMQParams` that the rules for commitments read. -/
structure QuorumParams extends LLMQParams where
  useRotation : Bool
  size : ℕ
  /-- Number of members that must be valid, and that must sign. -/
  minSize : ℕ
  /-- First block of the mining window, from the start of the cycle. -/
  dkgMiningWindowStart : ℤ
  dkgMiningWindowEnd : ℤ
  /-- Number of active quorums, of a cycle when rotated. -/
  signingActiveQuorumCount : ℕ
  deriving DecidableEq

def availableLlmqs : List QuorumParams := [
  ⟨⟨.test, 24, 3⟩, false, 3, 2, 10, 18, 2⟩,
  ⟨⟨.testInstantSend, 24, 3⟩, false, 3, 2, 10, 18, 2⟩,
  ⟨⟨.testV17, 24, 3⟩, false, 3, 2, 10, 18, 2⟩,
  ⟨⟨.testDip0024, 24, 4⟩, true, 4, 4, 12, 20, 2⟩,
  ⟨⟨.testPlatform, 24, 4⟩, false, 3, 2, 10, 18, 2⟩,
  ⟨⟨.devnet, 24, 5⟩, false, 12, 7, 10, 18, 4⟩,
  ⟨⟨.devnetDip0024, 48, 4⟩, true, 8, 6, 12, 20, 2⟩,
  ⟨⟨.devnetPlatform, 24, 5⟩, false, 12, 9, 10, 18, 4⟩,
  ⟨⟨.llmq50_60, 24, 25⟩, false, 50, 10, 10, 18, 24⟩,
  ⟨⟨.llmq60_75, 24 * 12, 64⟩, true, 60, 50, 42, 50, 32⟩,
  ⟨⟨.llmq400_60, 24 * 12, 5⟩, false, 400, 300, 20, 28, 4⟩,
  ⟨⟨.llmq400_85, 24 * 24, 5⟩, false, 400, 350, 20, 48, 4⟩,
  ⟨⟨.llmq100_67, 24, 25⟩, false, 100, 80, 10, 18, 24⟩,
  ⟨⟨.llmq25_67, 24, 25⟩, false, 25, 22, 10, 18, 24⟩]

namespace QuorumParams

variable (params : QuorumParams)

def cycleStart (nHeight : ℤ) : ℤ := nHeight - nHeight % params.dkgInterval

/-- What all parameters keep to: windows lie after the base blocks of the quorums of a cycle and inside the cycle. -/
structure Sane : Prop where
  interval_pos : 0 < params.dkgInterval
  start_pos : 0 < params.dkgMiningWindowStart
  end_lt : params.dkgMiningWindowEnd < params.dkgInterval
  /-- The quorums of a rotated cycle have their base blocks before the window. -/
  count_le : params.useRotation → (params.signingActiveQuorumCount : ℤ) ≤ params.dkgMiningWindowStart
  count_pos : 0 < params.signingActiveQuorumCount
  minSize_pos : 0 < params.minSize

instance : Decidable params.Sane :=
  decidable_of_iff (0 < params.dkgInterval ∧ 0 < params.dkgMiningWindowStart ∧
      params.dkgMiningWindowEnd < params.dkgInterval ∧
      (params.useRotation → (params.signingActiveQuorumCount : ℤ) ≤ params.dkgMiningWindowStart) ∧
      0 < params.signingActiveQuorumCount ∧ 0 < params.minSize)
    ⟨fun ⟨h₁, h₂, h₃, h₄, h₅, h₆⟩ => ⟨h₁, h₂, h₃, h₄, h₅, h₆⟩, fun h => ⟨h.1, h.2, h.3, h.4, h.5, h.6⟩⟩

lemma sane_of_mem_availableLlmqs : ∀ params ∈ availableLlmqs, params.Sane := by decide

end QuorumParams

/-! ### The environment -/

/-- What the rules for commitments take from other parts of the node. -/
structure QuorumRules where
  llmqs : List QuorumParams
  DIP0003Height : ℤ
  getBlockHash : CBlockHeader → Uint256
  lookupBlockIndex : Uint256 → Option CBlockIndex
  isDIP0024Active : CBlockIndex → Bool
  isV19Active : CBlockIndex → Bool
  isQuorumTypeEnabled : LLMQType → CBlockIndex → Bool
  computeQuorumMembersSize : LLMQType → CBlockIndex → ℕ
  /-- Whether the signatures of a commitment are those of the members and of the quorum. -/
  verifySigs : CFinalCommitment → CBlockIndex → Bool
  serializeHash : CFinalCommitment → Uint256

namespace QuorumRules

variable (rules : QuorumRules)

def getLLMQParams (llmqType : LLMQType) : Option QuorumParams := rules.llmqs.find? (·.type = llmqType)

/-- `IsQuorumRotationEnabled`: a deployment at the block before the cycle. -/
def isQuorumRotationEnabled (params : QuorumParams) (pindex : CBlockIndex) : Bool :=
  params.useRotation && decide (1 ≤ params.cycleStart pindex.nHeight) &&
    (pindex.getAncestor (params.cycleStart pindex.nHeight - 1)).any rules.isDIP0024Active

def getEnabledQuorumParams (pindex : CBlockIndex) : List QuorumParams :=
  rules.llmqs.filter fun params => rules.isQuorumTypeEnabled params.type pindex

def getAllQuorumMembersSize (params : QuorumParams) (pQuorumBaseBlockIndex : CBlockIndex) : ℕ :=
  if !pQuorumBaseBlockIndex.pprev.any (rules.isQuorumTypeEnabled params.type) then 0
  else if rules.isQuorumRotationEnabled params pQuorumBaseBlockIndex ∧
      (params.signingActiveQuorumCount : ℤ) ≤ pQuorumBaseBlockIndex.nHeight % params.dkgInterval then 0
  else rules.computeQuorumMembersSize params.type pQuorumBaseBlockIndex

end QuorumRules

/-! ### Commitments -/

namespace CFinalCommitment

variable (rules : QuorumRules) (qc : CFinalCommitment)

def countSigners : ℕ := qc.signers.count true

def countValidMembers : ℕ := qc.validMembers.count true

/-- Type and base block of the quorum. -/
def quorumKey : LLMQType × Uint256 := (qc.llmqType, qc.quorumHash)

def IndexRead : Prop := qc.nVersion ≠ 2 → qc.nVersion ≠ 4 → qc.quorumIndex = 0

instance : Decidable qc.IndexRead := inferInstanceAs (Decidable (_ → _ → _))

def getVersion (isRotationEnabled isBasicSchemeActive : Bool) : BitVec 16 :=
  if isRotationEnabled then if isBasicSchemeActive then 4 else 2
  else if isBasicSchemeActive then 3 else 1

def verifySizes (params : QuorumParams) : Bool :=
  qc.signers.length = params.size ∧ qc.validMembers.length = params.size

def verifyNull : Bool :=
  match rules.getLLMQParams qc.llmqType with
  | none => false
  | some params => qc.isNull && qc.verifySizes params

def verify (pQuorumBaseBlockIndex : CBlockIndex) (checkSigs : Bool) : Bool :=
  match rules.getLLMQParams qc.llmqType with
  | none => false
  | some params =>
    let members := rules.getAllQuorumMembersSize params pQuorumBaseBlockIndex
    decide (qc.nVersion = getVersion (rules.isQuorumRotationEnabled params pQuorumBaseBlockIndex)
        (rules.isV19Active pQuorumBaseBlockIndex)) &&
      decide (rules.getBlockHash pQuorumBaseBlockIndex.header = qc.quorumHash) &&
      decide (pQuorumBaseBlockIndex.nHeight % params.dkgInterval = qc.quorumIndex.toInt) &&
      qc.verifySizes params &&
      decide (params.minSize ≤ qc.countValidMembers) &&
      decide (params.minSize ≤ qc.countSigners) &&
      decide (qc.quorumPublicKey ≠ 0) && decide (qc.quorumVvecHash ≠ 0) &&
      decide (qc.membersSig ≠ 0) && decide (qc.quorumSig ≠ 0) &&
      !(qc.validMembers.drop members).any id && !(qc.signers.drop members).any id &&
      (!checkSigs || rules.verifySigs qc pQuorumBaseBlockIndex)

end CFinalCommitment

/-! ### Cycles -/

namespace QuorumParams

lemma cycleStart_le (h : 0 < params.dkgInterval) (nHeight : ℤ) : params.cycleStart nHeight ≤ nHeight := by
  have := Int.emod_nonneg nHeight h.ne'
  unfold cycleStart
  omega

lemma cycleStart_nonneg (h : 0 < params.dkgInterval) {nHeight : ℤ} (hheight : 0 ≤ nHeight) :
    0 ≤ params.cycleStart nHeight := by
  have hdiv := Int.mul_ediv_add_emod nHeight params.dkgInterval
  have hpos := Int.mul_nonneg h.le (Int.ediv_nonneg hheight h.le)
  unfold cycleStart
  omega

lemma cycleStart_of_mem {nHeight height : ℤ} (hle : params.cycleStart nHeight ≤ height)
    (hlt : height < params.cycleStart nHeight + params.dkgInterval) :
    params.cycleStart height = params.cycleStart nHeight := by
  have hdvd : params.dkgInterval ∣ params.cycleStart nHeight := Int.dvd_self_sub_emod
  obtain ⟨k, hk⟩ := hdvd
  have hmod : height % params.dkgInterval = height - params.cycleStart nHeight := by
    conv_lhs => rw [show height = height - params.cycleStart nHeight + params.dkgInterval * k by omega]
    rw [Int.add_mul_emod_self_left]
    exact Int.emod_eq_of_lt (by omega) (by omega)
  rw [cycleStart, hmod]
  omega

lemma cycleStart_of_emod_eq {nHeight height index : ℤ} (hheight : height = params.cycleStart nHeight + index)
    (hindex : height % params.dkgInterval = index) : params.cycleStart height = params.cycleStart nHeight := by
  unfold cycleStart at hheight ⊢
  omega

end QuorumParams

/-- Rotation is enabled for a whole cycle: two blocks of one chain whose heights have the same cycle agree. -/
lemma QuorumRules.isQuorumRotationEnabled_congr {p q : CBlockIndex}
    (hcycle : params.cycleStart p.nHeight = params.cycleStart q.nHeight)
    (hancestor : p.getAncestor (params.cycleStart p.nHeight - 1) = q.getAncestor (params.cycleStart p.nHeight - 1)) :
    rules.isQuorumRotationEnabled params p = rules.isQuorumRotationEnabled params q := by
  unfold isQuorumRotationEnabled
  rw [← hcycle, hancestor]

lemma CFinalCommitment.of_verify (hparams : rules.getLLMQParams qc.llmqType = some params)
    (h : qc.verify rules base checkSigs) :
    qc.nVersion = getVersion (rules.isQuorumRotationEnabled params base) (rules.isV19Active base) ∧
      rules.getBlockHash base.header = qc.quorumHash ∧
      base.nHeight % params.dkgInterval = qc.quorumIndex.toInt := by
  unfold verify at h
  rw [hparams] at h
  simp only [Bool.and_eq_true, decide_eq_true_eq] at h
  tauto

/-- In a rotated cycle only the first blocks have quorums: there are no members for the others. -/
lemma CFinalCommitment.index_lt_of_verify (hsane : params.Sane)
    (hparams : rules.getLLMQParams qc.llmqType = some params) (hrotation : rules.isQuorumRotationEnabled params base)
    (h : qc.verify rules base checkSigs) : base.nHeight % params.dkgInterval < params.signingActiveQuorumCount := by
  unfold verify at h
  rw [hparams] at h
  simp only [Bool.and_eq_true, decide_eq_true_eq, Bool.not_eq_true'] at h
  obtain ⟨⟨⟨⟨⟨⟨⟨⟨⟨-, hvalid⟩, -⟩, -⟩, -⟩, -⟩, -⟩, hmembers⟩, -⟩, -⟩ := h
  by_contra hle
  have hnone : rules.getAllQuorumMembersSize params base = 0 := by
    unfold QuorumRules.getAllQuorumMembersSize
    simp [hrotation, not_lt.mp hle]
  rw [hnone, List.drop_zero] at hmembers
  have hzero : qc.countValidMembers = 0 := by
    rw [countValidMembers, List.count_eq_zero]
    intro hmem
    rw [List.any_eq_true.mpr ⟨true, hmem, rfl⟩] at hmembers
    cases hmembers
  have := hsane.minSize_pos
  omega

/-- Without rotation there is one quorum in a cycle: the version is then one that has no index. -/
lemma CFinalCommitment.index_zero_of_verify (hread : qc.IndexRead)
    (hparams : rules.getLLMQParams qc.llmqType = some params)
    (hrotation : rules.isQuorumRotationEnabled params base = false) (h : qc.verify rules base checkSigs) :
    qc.quorumIndex = 0 := by
  obtain ⟨hversion, -, -⟩ := of_verify hparams h
  rw [hrotation] at hversion
  refine hread ?_ ?_
  · rw [hversion]
    cases rules.isV19Active base <;> decide
  · rw [hversion]
    cases rules.isV19Active base <;> decide

end Blocx
