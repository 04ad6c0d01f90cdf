import Blocx.Llmq.MinedCommitments

/-!
# Reads of the bit vectors of a commitment

Where `CheckLLMQCommitment` and `CFinalCommitment::Verify` (`llmq/commitment.cpp`) read `signers` and `validMembers` at
an index: the reads of a call, in their order. The vectors come from the network with lengths of their own.

`Verify` compares the lengths with the size of the quorum before it reads, and stays inside for every number of members.
`CheckLLMQCommitment` prints `validMembers` before that when the log category is on, also where the vector is too short.
-/

namespace Blocx

open List

namespace CFinalCommitment

/-- A vector and the index at which it is read. -/
abbrev BitRead := List Bool × ℕ

variable (rules : QuorumRules) (logging : Bool) (qc : CFinalCommitment)

/-- The checks of `Verify` before the members are looked up. -/
def verifyFields (params : QuorumParams) (base : CBlockIndex) : Bool :=
  decide (qc.nVersion = getVersion (rules.isQuorumRotationEnabled params base) (rules.isV19Active base)) &&
    decide (rules.getBlockHash base.header = qc.quorumHash) &&
    decide (base.nHeight % params.dkgInterval = qc.quorumIndex.toInt) && qc.verifySizes params &&
    decide (params.minSize ≤ qc.countValidMembers) && decide (params.minSize ≤ qc.countSigners) &&
    decide (qc.quorumPublicKey ≠ 0) && decide (qc.quorumVvecHash ≠ 0) && decide (qc.membersSig ≠ 0) &&
    decide (qc.quorumSig ≠ 0)

/-- The loop over the bits without a member, which ends at a bit that is set. -/
def clearReads : List ℕ → List BitRead
  | [] => []
  | i :: is =>
    (qc.validMembers, i) :: if qc.validMembers.getD i false then [] else
      (qc.signers, i) :: if qc.signers.getD i false then [] else clearReads is

def verifyReads (base : CBlockIndex) (checkSigs : Bool) : List BitRead :=
  match rules.getLLMQParams qc.llmqType with
  | none => []
  | some params =>
    if !qc.verifyFields rules params base then []
    else
      let members := rules.getAllQuorumMembersSize params base
      let log := if logging then (range params.size).flatMap fun i => [(qc.validMembers, i), (qc.signers, i)] else []
      -- `irange::range` throws when it would run backwards
      if params.size < members then log
      else
        let sigs := if checkSigs && qc.verify rules base false then (range members).map (qc.signers, ·) else []
        log ++ qc.clearReads (range' members (params.size - members)) ++ sigs

/-- The reads of `CheckLLMQCommitment`, once the payload is decoded. `VerifyNull` reads no single bit. -/
def checkLLMQCommitmentReads (qcTx : CFinalCommitmentTxPayload) (pindexPrev : CBlockIndex) : List BitRead :=
  let qc := qcTx.commitment
  match rules.getLLMQParams qc.llmqType with
  | none => []
  | some params =>
    let log := if logging then (range params.size).map (qc.validMembers, ·) else []
    if qcTx.nVersion = 0 ∨ 1 < qcTx.nVersion ∨ qcTx.nHeight ≠ BitVec.ofInt 32 (pindexPrev.nHeight + 1) then log
    else match rules.lookupBlockIndex qc.quorumHash with
      | none => log
      | some base =>
        if pindexPrev.getAncestor base.nHeight ≠ some base ∨ qc.isNull then log
        else log ++ qc.verifyReads rules logging base false

/-- No read is outside its vector. -/
def InBounds (reads : List BitRead) : Prop := ∀ read ∈ reads, read.2 < read.1.length

variable {rules logging qc}

lemma inBounds_clearReads {is : List ℕ} (h : ∀ i ∈ is, i < qc.validMembers.length ∧ i < qc.signers.length) :
    InBounds (qc.clearReads is) := by
  induction is with
  | nil => exact fun _ => nofun
  | cons i is ih =>
    rw [forall_mem_cons] at h
    unfold clearReads
    split_ifs <;> simp_all [InBounds]

/-- `Verify` stays inside the vectors. -/
lemma inBounds_verifyReads {base : CBlockIndex} {checkSigs : Bool} :
    InBounds (qc.verifyReads rules logging base checkSigs) := by
  unfold verifyReads
  cases rules.getLLMQParams qc.llmqType with
  | none => exact fun _ => nofun
  | some params =>
    dsimp only
    by_cases hfields : qc.verifyFields rules params base
    · rw [hfields, Bool.not_true, if_neg Bool.false_ne_true]
      simp only [verifyFields, verifySizes, Bool.and_eq_true, decide_eq_true_eq] at hfields
      obtain ⟨hsigners, hvalid⟩ : qc.signers.length = params.size ∧ qc.validMembers.length = params.size := by tauto
      generalize hlog : (if logging then _ else _) = log
      have hlogs : InBounds log := by
        rw [← hlog]
        split_ifs
        · rintro _ hread
          obtain ⟨i, hi, hread⟩ := mem_flatMap.mp hread
          simp only [mem_cons, not_mem_nil, or_false] at hread
          obtain rfl | rfl := hread
          · exact hvalid ▸ mem_range.mp hi
          · exact hsigners ▸ mem_range.mp hi
        · exact fun _ => nofun
      by_cases hmembers : params.size < rules.getAllQuorumMembersSize params base
      · rwa [if_pos hmembers]
      rw [if_neg hmembers]
      refine forall_mem_append.mpr ⟨forall_mem_append.mpr ⟨hlogs, inBounds_clearReads fun i hi => ?_⟩, ?_⟩
      · rw [mem_range'_1] at hi
        omega
      · split_ifs <;> simp
        omega
    · simp [hfields, InBounds]

end CFinalCommitment

open CFinalCommitment in
/-- `Verify` never reads outside, and `CheckLLMQCommitment` exactly when the log category is on and there are fewer
valid members than the quorum has. -/
theorem commitmentReads_inBounds_iff (rules : QuorumRules) (logging : Bool) (qcTx : CFinalCommitmentTxPayload)
    (pindexPrev : CBlockIndex) :
    (∀ base checkSigs, InBounds (qcTx.commitment.verifyReads rules logging base checkSigs)) ∧
      (InBounds (checkLLMQCommitmentReads rules logging qcTx pindexPrev) ↔
        (logging → ∀ params, rules.getLLMQParams qcTx.commitment.llmqType = some params →
          params.size ≤ qcTx.commitment.validMembers.length)) := by
  refine ⟨fun base checkSigs => inBounds_verifyReads, ?_⟩
  unfold checkLLMQCommitmentReads
  dsimp only
  cases rules.getLLMQParams qcTx.commitment.llmqType with
  | none => simp [InBounds]
  | some params =>
    dsimp only
    generalize hlog : (if logging then (range params.size).map (qcTx.commitment.validMembers, ·) else []) = log
    have hiff : InBounds log ↔ (logging → params.size ≤ qcTx.commitment.validMembers.length) := by
      rw [← hlog]
      cases logging <;> simp [InBounds, forall_lt_iff_le]
    simp only [Option.some.injEq, forall_eq', ← hiff]
    split_ifs
    · rfl
    cases rules.lookupBlockIndex qcTx.commitment.quorumHash with
    | none => rfl
    | some base =>
      dsimp only
      split_ifs
      · rfl
      · exact forall_mem_append.trans (and_iff_left inBounds_verifyReads)

open MinedRun CFinalCommitment in
/-- With the log category on, a commitment without bits is read outside. -/
theorem checkLLMQCommitmentReads_short :
    ¬InBounds (checkLLMQCommitmentReads toyMinedRules true { commitment := { llmqType := .testDip0024 } }
      (toyMinedChain 2)) := by
  intro h
  exact absurd (h ([], 0) (by decide)) (by decide)

end Blocx
