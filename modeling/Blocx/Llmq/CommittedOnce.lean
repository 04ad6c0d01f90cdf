import Blocx.Llmq.MineableCommitments
import Mathlib.Data.List.ReduceOption

/-!
# Every quorum is committed once

A chain of blocks that `ProcessBlock` accepts one after another (`AcceptedChain`), whatever else happens between two
blocks, as long as the caches are right. Along it the records are the commitments of the blocks
(`isSome_iff_committed`), so that no quorum has a second commitment that is not null, and every one lies in the mining
window of the cycle of its base block. The number of commitments of a type that was enabled before the block is that of
the quorums of the cycle that are not committed yet; outside a mining window there are none.

Commitments of a type that is not enabled are not counted. A null commitment of such a type is accepted at any height.
Which quorums the null commitments of a block stand for is not checked either.
-/

namespace Blocx

open List Option

open Function

open Consensus CBlockIndex

variable {fBLSChecks : Bool} {qcs : List CFinalCommitment} {rules : QuorumRules}

namespace CQuorumBlockProcessor

variable {active : Option CBlockIndex} {nHeight : ℤ} {blockHash : Uint256} {t t' : MinedTables}

/-! ### The commitments of a block -/

variable (h : ProcessesAll rules active nHeight blockHash fBLSChecks t qcs t')

include h

/-- Every commitment that is recorded went through the checks. -/
lemma ProcessesAll.storable :
    ∀ qc ∈ recorded qcs, ∃ u params base, Storable rules active nHeight fBLSChecks u qc params base := by
  induction h with
  | nil => exact fun _ hmem => (nomatch hmem)
  | null _ hnull _ ih =>
    intro qc hmem
    rw [recorded, filter_cons_of_neg (by simp [hnull])] at hmem
    exact ih qc hmem
  | stored hstorable _ ih =>
    intro qc hmem
    rw [recorded, filter_cons_of_pos (by simp [hstorable.notNull])] at hmem
    obtain rfl | hmem := mem_cons.mp hmem
    · exact ⟨_, _, _, hstorable⟩
    · exact ih qc hmem

lemma ProcessesAll.fresh : (∀ key ∈ quorumKeys qcs, t.commitments key = none) ∧ (quorumKeys qcs).Nodup := by
  induction h with
  | nil => exact ⟨nofun, nodup_nil⟩
  | null _ hnull _ ih =>
    rw [quorumKeys_cons_null hnull]
    exact ih
  | stored hstorable _ ih =>
    rename_i t t' qc qcs params base _
    obtain ⟨hnone, hnodup⟩ := ih
    have hself : qc.quorumKey ∉ quorumKeys qcs := by
      intro hmem
      have hnone := hnone _ hmem
      replace hnone : update t.commitments qc.quorumKey (some (qc, blockHash)) qc.quorumKey = none := hnone
      rw [update_self] at hnone
      cases hnone
    rw [quorumKeys_cons hstorable.notNull]
    refine ⟨?_, nodup_cons.mpr ⟨hself, hnodup⟩⟩
    intro key hmem
    obtain rfl | hmem := mem_cons.mp hmem
    · exact hstorable.notMined
    · have hne : key ≠ qc.quorumKey := by
        rintro rfl
        exact hself hmem
      rw [← hnone key hmem]
      exact (update_of_ne hne _ _).symm

lemma ProcessesAll.isSome_iff (key : LLMQType × Uint256) :
    (t'.commitments key).isSome ↔ key ∈ quorumKeys qcs ∨ (t.commitments key).isSome := by
  induction h with
  | nil => simp [quorumKeys, recorded]
  | null _ hnull _ ih =>
    rw [quorumKeys_cons_null hnull]
    exact ih
  | stored hstorable _ ih =>
    rename_i t t' qc qcs params base _
    rw [ih, quorumKeys_cons hstorable.notNull, mem_cons]
    show _ ∨ (update t.commitments qc.quorumKey (some (qc, blockHash)) key).isSome ↔ _
    by_cases heq : key = qc.quorumKey
    · simp [heq]
    · simp [heq]

end CQuorumBlockProcessor

open CQuorumBlockProcessor

/-! ### Chains -/

/-- A block of a chain. -/
structure ChainBlock where
  pindex : CBlockIndex
  block : CommitmentBlock

/-- A chain of accepted blocks, the last one first, with the records after them. -/
inductive AcceptedChain (rules : QuorumRules) : CBlockIndex → MinedTables → List ChainBlock → Prop where
  | start {tip : CBlockIndex} : AcceptedChain rules tip {} []
  /-- A block is accepted on the tip. The index has the blocks of the chain, none of which has a null hash. -/
  | connect {tip : CBlockIndex} {t : MinedTables} {blocks : List ChainBlock} {p : CQuorumBlockProcessor}
    {block : CommitmentBlock} {fBLSChecks : Bool} (hchain : AcceptedChain rules tip t blocks) (htables : p.tables = t)
    (hright : p.CachesRight t) (hknows : rules.Knows tip)
    (hnonzero : ∀ height pindex, tip.getAncestor height = some pindex → rules.getBlockHash pindex.header ≠ 0)
    (hlate : rules.DIP0003Height ≤ (tip.child block.header).nHeight)
    (hok : (p.processBlock rules (some tip) block (tip.child block.header) false fBLSChecks).1 = .ok ()) :
    AcceptedChain rules (tip.child block.header)
      (p.processBlock rules (some tip) block (tip.child block.header) false fBLSChecks).2.tables
      (⟨tip.child block.header, block⟩ :: blocks)

namespace AcceptedChain

variable {tip pindex : CBlockIndex} {t : MinedTables} {blocks : List ChainBlock}
  {r : Except QuorumError Unit × CQuorumBlockProcessor} {p : CQuorumBlockProcessor} {block : CommitmentBlock}

def committed (blocks : List ChainBlock) (key : LLMQType × Uint256) : Bool :=
  blocks.any fun b => key ∈ quorumKeys b.block.commitments

variable (rules) in
def uncommitted (params : QuorumParams) (pindex : CBlockIndex) (earlier : List ChainBlock) (quorumIndex : ℕ) : Bool :=
  (pindex.getAncestor (params.cycleStart pindex.nHeight + quorumIndex)).any fun base =>
    !committed earlier (params.type, rules.getBlockHash base.header)

def InWindow (params : QuorumParams) (nHeight : ℤ) : Prop :=
  params.cycleStart nHeight + params.dkgMiningWindowStart ≤ nHeight ∧
    nHeight ≤ params.cycleStart nHeight + params.dkgMiningWindowEnd

instance (params : QuorumParams) (nHeight : ℤ) : Decidable (InWindow params nHeight) :=
  inferInstanceAs (Decidable (_ ∧ _))

variable (rules) in
def MinedInWindow (pindex : CBlockIndex) (qc : CFinalCommitment) : Prop :=
  ∃ params base, rules.getLLMQParams qc.llmqType = some params ∧ pindex.getAncestor base.nHeight = some base ∧
    rules.getBlockHash base.header = qc.quorumHash ∧ InWindow params pindex.nHeight ∧
    params.cycleStart base.nHeight = params.cycleStart pindex.nHeight ∧
    (rules.isQuorumRotationEnabled params base = false → base.nHeight = params.cycleStart pindex.nHeight)

variable (rules) in
/-- Commitments of a type that was enabled before the block: in a mining window as many as quorums of the cycle are not
committed, and the ones that are not null are for such quorums; outside none. -/
structure CountsRight (earlier : List ChainBlock) (b : ChainBlock) (params : QuorumParams) : Prop where
  inside : InWindow params b.pindex.nHeight →
    b.block.commitments.countP (·.llmqType = params.type) =
        (range (quorumsNum rules params b.pindex)).countP (uncommitted rules params b.pindex earlier) ∧
      ∀ qc ∈ recorded b.block.commitments, qc.llmqType = params.type →
        ∃ j < quorumsNum rules params b.pindex, uncommitted rules params b.pindex earlier j ∧
          ∃ base, b.pindex.getAncestor (params.cycleStart b.pindex.nHeight + (j : ℕ)) = some base ∧
            rules.getBlockHash base.header = qc.quorumHash
  outside : ¬ InWindow params b.pindex.nHeight → b.block.commitments.countP (·.llmqType = params.type) = 0

/-! ### The last block -/

section

variable {t' : MinedTables} {header : CBlockHeader} {params : QuorumParams} {qc : CFinalCommitment}

/-- A block of the chain was accepted with the records before it. -/
lemma accepts_of_ok (htables : p.tables = t) (hright : p.CachesRight t)
    (hlate : rules.DIP0003Height ≤ (tip.child block.header).nHeight)
    (hr : p.processBlock rules (some tip) block (tip.child block.header) false fBLSChecks = r) (hok : r.1 = .ok ()) :
    ∃ qcs, Accepts rules (some tip) t block (tip.child block.header) fBLSChecks qcs r.2.tables := by
  subst htables
  obtain ⟨-, -, haccepts⟩ := processBlock_spec hright hr
  obtain ⟨hearly, -⟩ | haccepts := haccepts hok rfl
  · exact absurd hearly (not_lt.mpr hlate)
  · exact haccepts

section

variable (h : Accepts rules (some tip) t block pindex fBLSChecks qcs t')

include h

lemma perm_recorded : (recorded qcs).Perm (recorded block.commitments) :=
  (perm_getCommitmentsFromBlock h.read).filter _

lemma perm_quorumKeys : (quorumKeys qcs).Perm (quorumKeys block.commitments) :=
  (perm_recorded h).map _

end

lemma isMiningPhase_child (tip : CBlockIndex) (params : QuorumParams) (header : CBlockHeader) :
    isMiningPhase (some tip) params (tip.child header).nHeight = some true ↔
      InWindow params (tip.child header).nHeight := by
  unfold isMiningPhase
  simp [InWindow]

/-- The checks of a commitment that is not null, for the block that carries it. -/
lemma base_of_storable {u : MinedTables} {base : CBlockIndex} (hsane : rules.Sane) (hknows : rules.Knows tip)
    (hread : qc.IndexRead) (h : Storable rules (some tip) (tip.child header).nHeight fBLSChecks u qc params base) :
    (tip.child header).getAncestor base.nHeight = some base ∧ rules.getBlockHash base.header = qc.quorumHash ∧
      InWindow params (tip.child header).nHeight ∧
      params.cycleStart base.nHeight = params.cycleStart (tip.child header).nHeight ∧
      ∃ j < quorumsNum rules params (tip.child header),
        base.nHeight = params.cycleStart (tip.child header).nHeight + (j : ℕ) := by
  have hparams := hsane.of_getLLMQParams h.params_eq
  obtain ⟨hheight, hancestor, hcycle⟩ := h.base_mem hsane hknows (nHeight_nonneg _)
  obtain ⟨⟨-, hle⟩, -⟩ := getAncestor_eq_some_iff.mp hancestor
  obtain ⟨h0, hlt⟩ := index_lt_quorumsNum hparams hread h.params_eq h.verified
  obtain ⟨j, hj⟩ := Int.eq_ofNat_of_zero_le h0
  have hnum : quorumsNum rules params base = quorumsNum rules params (tip.child header) := by
    unfold quorumsNum
    rw [h.rotation_eq hsane hknows]
  refine ⟨?_, (CFinalCommitment.of_verify h.params_eq h.verified).2.1,
    (isMiningPhase_child tip params header).mp h.phase,
    hcycle, j, by omega, by omega⟩
  rw [getAncestor_child hle]
  exact hancestor

lemma indexRead_of_mem (h : qc ∈ block.commitments) : qc.IndexRead :=
  block.read qc (reduceOption_mem_iff.mp h)

lemma minedInWindow_last (hsane : rules.Sane) (hknows : rules.Knows tip)
    (h : Accepts rules (some tip) t block (tip.child block.header) fBLSChecks qcs t') :
    ∀ qc ∈ recorded block.commitments, MinedInWindow rules (tip.child block.header) qc := by
  intro qc hmem
  have hread := indexRead_of_mem (mem_of_mem_filter hmem)
  obtain ⟨u, params, base, hstorable⟩ := h.all.storable qc ((perm_recorded h).mem_iff.mpr hmem)
  obtain ⟨hancestor, hhash, hwindow, hcycle, -⟩ := base_of_storable hsane hknows hread hstorable
  refine ⟨params, base, hstorable.params_eq, hancestor, hhash, hwindow, hcycle, ?_⟩
  intro hrotation
  have hzero := CFinalCommitment.index_zero_of_verify hread hstorable.params_eq hrotation hstorable.verified
  obtain ⟨hheight, -, -⟩ := hstorable.base_mem hsane hknows (nHeight_nonneg _)
  rw [hheight, hzero]
  simp

lemma rotation_child (hsane : params.Sane) (hwindow : InWindow params (tip.child header).nHeight) :
    rules.isQuorumRotationEnabled params tip = rules.isQuorumRotationEnabled params (tip.child header) := by
  have hphase := (isMiningPhase_child tip params header).mpr hwindow
  obtain ⟨-, hcycle⟩ := cycleStart_of_phase hsane hphase
  refine QuorumRules.isQuorumRotationEnabled_congr hcycle ?_
  have hle := QuorumParams.cycleStart_le hsane.interval_pos tip.nHeight
  rw [getAncestor_child (by omega)]

variable (hnonzero : ∀ height pindex, tip.getAncestor height = some pindex → rules.getBlockHash pindex.header ≠ 0)
  (hrecords : ∀ key, (t.commitments key).isSome ↔ committed blocks key)

include hnonzero hrecords

/-- The quorums that `GetNumCommitmentsRequired` counts are those of the cycle that are not committed. -/
lemma required_eq_uncommitted (hsane : params.Sane)
    (hwindow : InWindow params (tip.child header).nHeight) {j : ℕ}
    (hj : j < quorumsNum rules params (tip.child header)) :
    required rules (some tip) t params (tip.child header).nHeight j =
      uncommitted rules params (tip.child header) blocks j := by
  have hle := quorumsNum_le hsane rules (tip.child header)
  have h0 := QuorumParams.cycleStart_nonneg hsane.interval_pos (nHeight_nonneg (tip.child header))
  have hheight := nHeight_child tip header
  obtain ⟨hstart, -⟩ := hwindow
  have hbelow : params.cycleStart (tip.child header).nHeight + (j : ℕ) ≤ tip.nHeight := by omega
  obtain ⟨base, hbase, -⟩ := getAncestor_of_le (by omega) hbelow
  rw [required, uncommitted, getAncestor_child hbelow, getQuorumBlockHash_eq hbase, hbase, any_some,
    decide_eq_true (hnonzero _ _ hbase), Bool.true_and, ← not_isSome]
  congr 1
  rw [Bool.eq_iff_iff]
  exact hrecords _

/-- The numbers of commitments of the last block. -/
lemma countsRight_last (hsane : rules.Sane) (htypes : (rules.llmqs.map (·.type)).Nodup) (hknows : rules.Knows tip)
    (h : Accepts rules (some tip) t block (tip.child block.header) fBLSChecks qcs t') :
    ∀ params ∈ rules.getEnabledQuorumParams tip, CountsRight rules blocks ⟨tip.child block.header, block⟩ params := by
  intro params hmem
  have hparams := hsane params (mem_of_mem_filter hmem)
  have hcount : block.commitments.countP (·.llmqType = params.type) = qcs.countP (·.llmqType = params.type) :=
    ((perm_getCommitmentsFromBlock h.read).countP_eq _).symm
  have hphase := isMiningPhase_child tip params block.header
  have hok := h.counts rfl params hmem
  constructor
  · intro hwindow
    have htrue := hphase.mpr hwindow
    have hnum : quorumsNum rules params tip = quorumsNum rules params (tip.child block.header) := by
      unfold quorumsNum
      rw [rotation_child hparams hwindow]
    constructor
    · obtain ⟨hfalse, -⟩ | ⟨-, pindex, hblock, hn⟩ := hok
      · rw [htrue] at hfalse
        cases hfalse
      · rw [nHeight_child, rotationBlock_tip] at hblock
        obtain rfl := some.inj hblock
        rw [hcount, hn, hnum]
        refine countP_congr fun j hj => ?_
        rw [required_eq_uncommitted hnonzero hrecords hparams hwindow (mem_range.mp hj)]
    · intro qc hqc htype
      have hread := indexRead_of_mem (mem_of_mem_filter hqc)
      obtain ⟨u, params', base, hstorable⟩ := h.all.storable qc ((perm_recorded h).mem_iff.mpr hqc)
      obtain rfl : params' = params := by
        refine inj_on_of_nodup_map htypes (mem_of_find?_eq_some hstorable.params_eq) (mem_of_mem_filter hmem) ?_
        exact (type_of_getLLMQParams hstorable.params_eq).trans htype
      obtain ⟨hancestor, hhash, -, -, j, hj, hheight⟩ := base_of_storable hsane hknows hread hstorable
      refine ⟨j, hj, ?_, base, hheight ▸ hancestor, hhash⟩
      have hkey : qc.quorumKey ∈ quorumKeys qcs := (perm_quorumKeys h).mem_iff.mpr (mem_map_of_mem hqc)
      have hfree : ¬ committed blocks qc.quorumKey := by
        rw [← hrecords, h.all.fresh.1 _ hkey]
        exact Bool.false_ne_true
      rw [uncommitted, ← hheight, hancestor, any_some, hhash, ← htype]
      show (!committed blocks qc.quorumKey) = true
      simpa using hfree
  · intro hnot
    obtain ⟨-, hzero⟩ | ⟨htrue, -⟩ := hok
    · exact hcount.trans hzero
    · exact absurd (hphase.mp htrue) hnot

end

/-! ### The whole chain -/

section

variable (h : AcceptedChain rules tip t blocks)

include h

/-- The records are the commitments of the blocks. -/
lemma isSome_iff_committed (key : LLMQType × Uint256) : (t.commitments key).isSome ↔ committed blocks key := by
  induction h with
  | start => simp [committed]
  | connect hchain htables hright hknows hnonzero hlate hok ih =>
    obtain ⟨qcs, haccepts⟩ := accepts_of_ok htables hright hlate rfl hok
    rw [haccepts.all.isSome_iff, ih]
    simp only [committed, any_cons, Bool.or_eq_true, decide_eq_true_eq]
    exact or_congr_left (perm_quorumKeys haccepts).mem_iff

/-- The quorums of the commitments of a chain that are not null. -/
def chainKeys (blocks : List ChainBlock) : List (LLMQType × Uint256) :=
  blocks.flatMap fun b => quorumKeys b.block.commitments

omit h in
lemma mem_chainKeys {key : LLMQType × Uint256} : key ∈ chainKeys blocks ↔ committed blocks key := by
  simp [chainKeys, committed]

lemma nodup_chainKeys : (chainKeys blocks).Nodup := by
  induction h with
  | start => exact nodup_nil
  | connect hchain htables hright hknows hnonzero hlate hok ih =>
    obtain ⟨qcs, haccepts⟩ := accepts_of_ok htables hright hlate rfl hok
    obtain ⟨hnone, hnodup⟩ := haccepts.all.fresh
    have hperm := perm_quorumKeys haccepts
    refine nodup_append.mpr ⟨hperm.nodup_iff.mp hnodup, ih, ?_⟩
    rintro key hmem _ hmem' rfl
    have hsome := (hchain.isSome_iff_committed key).mpr (mem_chainKeys.mp hmem')
    rw [hnone key (hperm.mem_iff.mpr hmem)] at hsome
    cases hsome

/-- What holds of every block of a chain, with the blocks before it. -/
lemma forall_blocks (hsane : rules.Sane)
    (htypes : (rules.llmqs.map (·.type)).Nodup) {later earlier : List ChainBlock} {b : ChainBlock}
    (hblocks : blocks = later ++ b :: earlier) :
    (∀ qc ∈ recorded b.block.commitments, MinedInWindow rules b.pindex qc) ∧
      ∀ params ∈ b.pindex.pprev.elim [] rules.getEnabledQuorumParams, CountsRight rules earlier b params := by
  induction h generalizing later with
  | start => simp at hblocks
  | connect hchain htables hright hknows hnonzero hlate hok ih =>
    cases later with
    | cons _ later => exact ih (cons.inj hblocks).2
    | nil =>
      obtain ⟨rfl, rfl⟩ := cons.inj hblocks
      obtain ⟨qcs, haccepts⟩ := accepts_of_ok htables hright hlate rfl hok
      exact ⟨minedInWindow_last hsane hknows haccepts,
        countsRight_last hnonzero hchain.isSome_iff_committed hsane htypes hknows haccepts⟩

end

/-- On every chain of accepted blocks a quorum has at most one commitment that is not null; it is in the mining window
of the cycle of the base block; and of a type that was enabled before a block, the block has as many commitments as
quorums of the cycle are not committed, the ones that are not null being for such quorums, and none outside the mining
window. -/
theorem committed_once (rules : QuorumRules) (hsane : rules.Sane) (htypes : (rules.llmqs.map (·.type)).Nodup)
    (tip : CBlockIndex) (t : MinedTables) (blocks : List ChainBlock) (h : AcceptedChain rules tip t blocks) :
    (chainKeys blocks).Nodup ∧
      (∀ b ∈ blocks, ∀ qc ∈ recorded b.block.commitments, MinedInWindow rules b.pindex qc) ∧
      ∀ later b earlier, blocks = later ++ b :: earlier →
        ∀ params ∈ b.pindex.pprev.elim [] rules.getEnabledQuorumParams, CountsRight rules earlier b params := by
  refine ⟨nodup_chainKeys h, ?_, ?_⟩
  · intro b hmem
    obtain ⟨later, earlier, hblocks⟩ := append_of_mem hmem
    exact (h.forall_blocks hsane htypes hblocks).1
  · intro later b earlier hblocks
    exact (h.forall_blocks hsane htypes hblocks).2

/-! ### Two blocks of a window, and a type that is not enabled -/

open MinedRun

lemma hash_toyMinedChain {n : ℕ} (h : n < 100) {height : ℤ}
    (hancestor : (toyMinedChain n).getAncestor height = some pindex) :
    toyMinedRules.getBlockHash pindex.header ≠ 0 := by
  obtain ⟨k, hk, rfl⟩ := exists_toyMinedChain hancestor
  have hhashes : ∀ k < 100, toyMinedRules.getBlockHash (toyMinedChain k).header ≠ 0 := by decide
  exact hhashes k (by omega)

def toyNoRecords : CQuorumBlockProcessor := toyMinedInitial.processor

def toyFirst : CommitmentBlock := toyMinedBlock 36 [(0, 1), (1, 0)]

def toySecond : CommitmentBlock := toyMinedBlock 37 [(1, 3)]

/-- The chain with the first block. -/
abbrev toyFirstTip : CBlockIndex := (toyMinedChain 35).child toyFirst.header

lemma connect_next (h : AcceptedChain rules tip p.tables blocks ∧ p.CachesRight p.tables) (hknows : rules.Knows tip)
    (hnonzero : ∀ height pindex, tip.getAncestor height = some pindex → rules.getBlockHash pindex.header ≠ 0)
    (hlate : rules.DIP0003Height ≤ (tip.child block.header).nHeight)
    (hr : p.processBlock rules (some tip) block (tip.child block.header) false fBLSChecks = r) (hok : r.1 = .ok ()) :
    AcceptedChain rules (tip.child block.header) r.2.tables (⟨tip.child block.header, block⟩ :: blocks) ∧
      r.2.CachesRight r.2.tables := by
  subst hr
  exact ⟨.connect h.1 rfl h.2 hknows hnonzero hlate hok, (processBlock_spec h.2 rfl).1⟩

lemma toyChain_accepted : ∃ t, AcceptedChain toyMinedRules (toyFirstTip.child toySecond.header) t
    [⟨toyFirstTip.child toySecond.header, toySecond⟩, ⟨toyFirstTip, toyFirst⟩] := by
  have hstart : AcceptedChain toyMinedRules (toyMinedChain 35) toyNoRecords.tables [] ∧
      toyNoRecords.CachesRight toyNoRecords.tables := ⟨.start, nofun⟩
  have hok : (toyNoRecords.processBlock toyMinedRules (some (toyMinedChain 35)) toyFirst toyFirstTip false
    true).1 = .ok () ∧
      ((toyNoRecords.processBlock toyMinedRules (some (toyMinedChain 35)) toyFirst toyFirstTip false
        true).2.processBlock
        toyMinedRules (some toyFirstTip) toySecond (toyFirstTip.child toySecond.header) false true).1 = .ok () := by
    decide +kernel
  have htip : (toyMinedChain 35).child toyFirst.header = toyMinedChain 36 := rfl
  have hfirst := connect_next hstart (knows_toyMinedChain (by decide)) (fun _ _ => hash_toyMinedChain (by decide))
    (show toyMinedRules.DIP0003Height ≤ toyFirstTip.nHeight by decide) rfl hok.1
  have hsecond := connect_next hfirst (htip ▸ knows_toyMinedChain (by decide))
    (htip ▸ fun _ _ => hash_toyMinedChain (by decide)) (by decide) rfl hok.2
  exact ⟨_, hsecond.1⟩

theorem committed_once_toyChain : ∃ t, AcceptedChain toyMinedRules (toyFirstTip.child toySecond.header) t
      [⟨toyFirstTip.child toySecond.header, toySecond⟩, ⟨toyFirstTip, toyFirst⟩] ∧
    (chainKeys [⟨toyFirstTip.child toySecond.header, toySecond⟩, ⟨toyFirstTip, toyFirst⟩]).Nodup ∧
      chainKeys [⟨toyFirstTip.child toySecond.header, toySecond⟩, ⟨toyFirstTip, toyFirst⟩] =
        [(.testDip0024, 26), (.testDip0024, 25)] := by
  obtain ⟨t, h⟩ := toyChain_accepted
  exact ⟨t, h, (committed_once toyMinedRules (by decide +kernel) (by decide +kernel) _ _ _ h).1, by decide +kernel⟩

/-- The toy chain with quorums of two types for tests. As `IsQuorumTypeEnabled` has it for `BRRHeight`, here 30, the
second type is not enabled up to that height. -/
def toyDisabledRules : QuorumRules :=
  { PoolRun.toyPoolRules with
    llmqs := availableLlmqs.filter fun params => params.type = .test ∨ params.type = .testV17
    isQuorumTypeEnabled := fun llmqType pindex => llmqType ≠ .testV17 ∨ 30 < pindex.nHeight
    DIP0003Height := 1 }

def toyNullBlock : CommitmentBlock where
  header := toyMinedHeader 25
  payloads := [some (nullCommitment ⟨⟨.testV17, 24, 3⟩, false, 3, 2, 10, 18, 2⟩ 25 0 1)]
  read := by
    intro qc hmem
    obtain rfl : qc = nullCommitment ⟨⟨.testV17, 24, 3⟩, false, 3, 2, 10, 18, 2⟩ 25 0 1 := by simpa using hmem
    decide

/-- The second block of a cycle, before the mining window, carries a null commitment of a type that is not enabled. -/
theorem committed_outside_window :
    AcceptedChain toyDisabledRules ((toyMinedChain 24).child toyNullBlock.header)
        (toyNoRecords.processBlock toyDisabledRules (some (toyMinedChain 24)) toyNullBlock
          ((toyMinedChain 24).child toyNullBlock.header) false true).2.tables
        [⟨(toyMinedChain 24).child toyNullBlock.header, toyNullBlock⟩] ∧
      toyNullBlock.commitments.countP (·.llmqType = .testV17) = 1 ∧
      ¬InWindow ⟨⟨.testV17, 24, 3⟩, false, 3, 2, 10, 18, 2⟩ ((toyMinedChain 24).child toyNullBlock.header).nHeight := by
  refine ⟨?_, by decide, by decide⟩
  exact .connect .start rfl nofun (knows_toyMinedChain (show 24 < 100 by decide))
    (fun _ _ => hash_toyMinedChain (show 24 < 100 by decide)) (by decide +kernel) (by decide +kernel)

end AcceptedChain

end Blocx
