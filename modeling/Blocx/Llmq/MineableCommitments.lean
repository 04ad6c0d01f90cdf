import Blocx.Llmq.MinedCommitments

/-!
# The commitment that is kept for a quorum

Commitments that come with messages are kept until one is mined: one commitment for a quorum (`kept`), which
`GetMineableCommitments` puts into a block of the mining window. `AddMineableCommitment` replaces it by one with more
signers. But `ProcessMessage` comes there only if the kept commitment has more signers than the new one: with at most as
many it returns before, the comparison being the wrong way round. So the first commitment that was received for a quorum
is the one that stays (`kept_run`), and it has the most signers only if no later one had more.
-/

namespace Blocx

open Option hiding filter_filter filter_map

open List

open Function

open Consensus MinedRun

variable {seen : List CFinalCommitment}

namespace CQuorumBlockProcessor

variable {rules : QuorumRules} {active : Option CBlockIndex} {p q : CQuorumBlockProcessor} {qc : CFinalCommitment}
  {key : LLMQType × Uint256} {tip base pindex : CBlockIndex} {params : QuorumParams} {nHeight : ℤ}

def kept (p : CQuorumBlockProcessor) (key : LLMQType × Uint256) : Option CFinalCommitment :=
  (p.minableCommitmentsByQuorum key).bind p.minableCommitments

variable (rules) in
/-- Commitments are found by their hashes, and a quorum has one of its own commitments. -/
structure Pool (seen : List CFinalCommitment) (p : CQuorumBlockProcessor) : Prop where
  keyed : ∀ hash qc, p.minableCommitments hash = some qc → qc ∈ seen ∧ hash = rules.serializeHash qc
  listed : ∀ key hash, p.minableCommitmentsByQuorum key = some hash →
    ∃ qc, p.minableCommitments hash = some qc ∧ qc.quorumKey = key

variable (rules) in
/-- Different commitments have different hashes. -/
def HashesApart (seen : List CFinalCommitment) : Prop :=
  ∀ qc ∈ seen, ∀ qc' ∈ seen, rules.serializeHash qc = rules.serializeHash qc' → qc = qc'

instance (rules : QuorumRules) (seen : List CFinalCommitment) : Decidable (HashesApart rules seen) :=
  inferInstanceAs (Decidable (∀ qc ∈ seen, ∀ qc' ∈ seen, _))

lemma quorumKey_of_kept (h : p.Pool rules seen) (hkept : p.kept key = some qc) : qc.quorumKey = key := by
  obtain ⟨hash, hhash, hqc⟩ := bind_eq_some_iff.mp hkept
  obtain ⟨qc', hqc', hkey⟩ := h.listed key hash hhash
  rw [hqc] at hqc'
  obtain rfl := some.inj hqc'
  exact hkey

lemma SameRecords.kept (h : p.SameRecords q) : q.kept = p.kept := by
  funext key
  unfold CQuorumBlockProcessor.kept
  rw [h.byQuorum, h.minable]

lemma Pool.same (h : p.Pool rules seen) (hsame : p.SameRecords q) : q.Pool rules seen := by
  constructor
  · rw [hsame.minable]
    exact h.keyed
  · rw [hsame.minable, hsame.byQuorum]
    exact h.listed

/-! ### Adding a commitment -/

def keep (rules : QuorumRules) (p : CQuorumBlockProcessor) (qc : CFinalCommitment) : CQuorumBlockProcessor :=
  { p with
    minableCommitmentsByQuorum :=
      update p.minableCommitmentsByQuorum qc.quorumKey (some (rules.serializeHash qc))
    minableCommitments := update p.minableCommitments (rules.serializeHash qc) (some qc) }

lemma emplace_eq {m : Uint256 → Option CFinalCommitment} {hash : Uint256} (h : ∀ qc', m hash = some qc' → qc' = qc) :
    (if (m hash).isSome then m else update m hash (some qc)) = update m hash (some qc) := by
  by_cases hsome : (m hash).isSome
  · rw [if_pos hsome]
    obtain ⟨qc', hqc'⟩ := isSome_iff_exists.mp hsome
    obtain rfl := h qc' hqc'
    exact (update_eq_self_iff.mpr hqc'.symm).symm
  · rw [if_neg hsome]

section

variable (hpool : p.Pool rules seen) (hapart : HashesApart rules seen) (hmem : qc ∈ seen)

include hpool hapart hmem

lemma pool_keep : (p.keep rules qc).Pool rules seen := by
  constructor
  · intro hash qc' hqc'
    obtain ⟨rfl, rfl⟩ | ⟨-, hqc'⟩ := update_some_eq_some_iff.mp hqc'
    · exact ⟨hmem, rfl⟩
    · exact hpool.keyed hash qc' hqc'
  · intro key hash hkey
    obtain ⟨rfl, rfl⟩ | ⟨hne, hkey⟩ := update_some_eq_some_iff.mp hkey
    · exact ⟨qc, update_self .., rfl⟩
    · obtain ⟨qc', hqc', rfl⟩ := hpool.listed key hash hkey
      obtain ⟨hmem', rfl⟩ := hpool.keyed hash qc' hqc'
      refine ⟨qc', update_some_eq_some_iff.mpr (.inr ⟨fun hhash => ?_, hqc'⟩), rfl⟩
      exact hne (congrArg _ (hapart qc' hmem' qc hmem hhash))

lemma kept_keep (key : LLMQType × Uint256) :
    (p.keep rules qc).kept key = if key = qc.quorumKey then some qc else p.kept key := by
  show (update p.minableCommitmentsByQuorum qc.quorumKey (some (rules.serializeHash qc)) key).bind
    (update p.minableCommitments (rules.serializeHash qc) (some qc)) = _
  by_cases heq : key = qc.quorumKey
  · rw [heq, update_self, if_pos rfl]
    exact update_self ..
  · rw [update_of_ne heq, if_neg heq]
    unfold kept
    cases hkey : p.minableCommitmentsByQuorum key with
    | none => rfl
    | some hash =>
      obtain ⟨qc', hqc', hkey'⟩ := hpool.listed key hash hkey
      obtain ⟨hmem', rfl⟩ := hpool.keyed hash qc' hqc'
      rw [bind_some, bind_some, update_of_ne]
      intro hhash
      obtain rfl := hapart qc' hmem' qc hmem hhash
      exact heq hkey'.symm

lemma addMineableCommitment_eq : p.addMineableCommitment rules qc =
      some (if (p.kept qc.quorumKey).all (·.countSigners < qc.countSigners) then p.keep rules qc else p) := by
  have hsame : ∀ qc', p.minableCommitments (rules.serializeHash qc) = some qc' → qc' = qc := by
    intro qc' hqc'
    obtain ⟨hmem', hhash⟩ := hpool.keyed _ qc' hqc'
    exact hapart qc' hmem' qc hmem hhash.symm
  unfold addMineableCommitment kept
  dsimp only
  cases hold : p.minableCommitmentsByQuorum qc.quorumKey with
  | none =>
    rw [emplace_eq hsame]
    rfl
  | some oldHash =>
    obtain ⟨oldFqc, holdFqc, -⟩ := hpool.listed _ _ hold
    simp only [holdFqc, bind_eq_bind, bind_some, all_some, decide_eq_true_eq]
    by_cases hmore : oldFqc.countSigners < qc.countSigners
    · rw [if_pos hmore, if_pos hmore, emplace_eq (by simp), update_idem]
      rfl
    · rw [if_neg hmore, if_neg hmore]
      rfl

/-! ### Messages -/

variable (rules) in
/-- A commitment that was read is verified for its base block, which is on the chain. -/
structure Placed (tip : CBlockIndex) (qc : CFinalCommitment) (params : QuorumParams) (base : CBlockIndex) : Prop where
  read : qc.IndexRead
  params_eq : rules.getLLMQParams qc.llmqType = some params
  base_eq : rules.lookupBlockIndex qc.quorumHash = some base
  onChain : tip.getAncestor base.nHeight = some base
  index_eq : params.cycleStart base.nHeight + qc.quorumIndex.toInt = base.nHeight
  verified : qc.verify rules base true

variable (rules) in
/-- It passes the checks of `ProcessMessage` and `Verify`. -/
structure Passes (tip : CBlockIndex) (qc : CFinalCommitment) (params : QuorumParams) (base : CBlockIndex) : Prop
    extends Placed rules tip qc params base where
  notNull : qc.isNull = false
  recent : tip.nHeight - params.dkgInterval ≤ base.nHeight

omit hpool hapart hmem in
lemma Placed.child (h : Placed rules tip qc params base) (block : CBlockHeader) :
    Placed rules (tip.child block) qc params base where
  read := h.read
  params_eq := h.params_eq
  base_eq := h.base_eq
  onChain := by
    obtain ⟨⟨-, hle⟩, -⟩ := CBlockIndex.getAncestor_eq_some_iff.mp h.onChain
    rw [CBlockIndex.getAncestor_child hle]
    exact h.onChain
  index_eq := h.index_eq
  verified := h.verified

variable (rules) in
/-- What a commitment of one quorum can change. -/
structure Receives (seen : List CFinalCommitment) (p : CQuorumBlockProcessor) (qc : CFinalCommitment)
    (q : CQuorumBlockProcessor) : Prop where
  pool : q.Pool rules seen
  tables : q.tables = p.tables
  caches : q.CachesRight p.tables
  others : ∀ key, key ≠ qc.quorumKey → q.kept key = p.kept key

omit hapart hmem in
lemma receives_of_reads (hreads : p.Reads q) : Receives rules seen p qc q where
  pool := hpool.same hreads.same
  tables := hreads.same.tables
  caches := hreads.right
  others key _ := congrFun hreads.same.kept key

lemma receives_addMineable (hreads : p.Reads q) :
    ∃ q', q.addMineableCommitment rules qc = some q' ∧ Receives rules seen p qc q' := by
  have hpool' := hpool.same hreads.same
  rw [addMineableCommitment_eq hpool' hapart hmem]
  refine ⟨_, rfl, ?_⟩
  split_ifs
  · refine ⟨pool_keep hpool' hapart hmem, hreads.same.tables, hreads.right, ?_⟩
    intro key hne
    rw [kept_keep hpool' hapart hmem, if_neg hne, hreads.same.kept]
  · exact receives_of_reads hpool hreads

/-- A message changes what is kept for the quorum of its commitment only. -/
lemma processMessage_receives (active : Option CBlockIndex) (h : p.CachesRight p.tables) :
    ∃ q, p.processMessage rules active qc = some q ∧ Receives rules seen p qc q := by
  have hnothing : Receives rules seen p qc p := receives_of_reads hpool (.refl h)
  unfold processMessage
  by_cases hnull : qc.isNull
  · rw [if_pos hnull]
    exact ⟨p, rfl, hnothing⟩
  rw [if_neg hnull]
  split
  next params base tip hparams hbase =>
    obtain ⟨q, hq, hreads⟩ := hasMinedCommitment_reads h qc.llmqType qc.quorumHash
    have hasked : Receives rules seen p qc q := receives_of_reads hpool hreads
    rw [hq]
    dsimp only
    split_ifs
    · exact ⟨p, rfl, hnothing⟩
    · exact ⟨p, rfl, hnothing⟩
    · exact ⟨p, rfl, hnothing⟩
    · exact ⟨q, rfl, hasked⟩
    · exact ⟨q, rfl, hasked⟩
    · exact ⟨q, rfl, hasked⟩
    · exact receives_addMineable hpool hapart hmem hreads
  next => exact ⟨p, rfl, hnothing⟩

/-- A commitment that passes the checks is kept if none was before, and otherwise changes nothing. -/
lemma processMessage_kept (h : p.CachesRight p.tables) (hpasses : Passes rules tip qc params base)
    (hnone : p.tables.commitments qc.quorumKey = none) (hq : p.processMessage rules (some tip) qc = some q) :
    q.kept qc.quorumKey = some ((p.kept qc.quorumKey).getD qc) := by
  obtain ⟨p', hp', hreads⟩ := hasMinedCommitment_reads h qc.llmqType qc.quorumHash
  have hpool' := hpool.same hreads.same
  have hmined : p.isMined qc.llmqType qc.quorumHash = false := by
    show (p.tables.commitments qc.quorumKey).isSome = false
    rw [hnone]
    rfl
  unfold processMessage at hq
  rw [if_neg (by simp [hpasses.notNull])] at hq
  simp only [hpasses.params_eq, hpasses.base_eq] at hq
  rw [if_neg (by simp [hpasses.onChain]), if_neg (by simp [hpasses.index_eq]), if_neg (not_lt.mpr hpasses.recent)] at hq
  rw [hp'] at hq
  rw [if_neg (by simp [hmined])] at hq
  rw [← hreads.same.kept]
  replace hq : (if (p'.kept qc.quorumKey).any fun better => better.countSigners ≤ qc.countSigners then some p'
    else if !qc.verify rules base true then some p' else p'.addMineableCommitment rules qc) = some q := hq
  rw [addMineableCommitment_eq hpool' hapart hmem, hpasses.verified] at hq
  cases hkept : p'.kept qc.quorumKey with
  | none =>
    simp only [hkept, any_none, all_none, Bool.not_true, Bool.false_eq_true, if_false, if_true] at hq
    obtain rfl := some.inj hq
    rw [kept_keep hpool' hapart hmem, if_pos rfl]
    rfl
  | some old =>
    -- with at most as many signers as the new one the old one is taken for better, with more it is not replaced
    have hstays : q = p' := by
      simp only [hkept, any_some, all_some, decide_eq_true_eq] at hq
      by_cases hle : old.countSigners ≤ qc.countSigners
      · rw [if_pos hle] at hq
        exact (some.inj hq).symm
      · rw [if_neg hle, if_neg (by simp), if_neg (by omega)] at hq
        exact (some.inj hq).symm
    rw [hstays, hkept]
    rfl

end

/-! ### Blocks -/

section

variable {blockHash : Uint256} {fBLSChecks : Bool} {qcs : List CFinalCommitment} {t t' : MinedTables}

lemma pool_drops (h : p.Pool rules seen) (hapart : HashesApart rules seen) (hdrops : p.Drops rules qcs q)
    (hseen : qcs ⊆ seen) : q.Pool rules seen ∧ ∀ key, key ∉ quorumKeys qcs → q.kept key = p.kept key := by
  obtain ⟨dropped, hmem, hkeys, hhashes⟩ := hdrops
  have hother : ∀ key hash, key ∉ dropped.map (·.quorumKey) → p.minableCommitmentsByQuorum key = some hash →
      hash ∉ dropped.map rules.serializeHash := by
    intro key hash hnot hkey hdropped
    obtain ⟨qc, hqc, rfl⟩ := mem_map.mp hdropped
    obtain ⟨qc', hqc', rfl⟩ := h.listed key _ hkey
    obtain ⟨hmem', hhash⟩ := h.keyed _ qc' hqc'
    obtain rfl := hapart qc (hseen (hmem qc hqc).1) qc' hmem' hhash
    exact hnot (mem_map_of_mem hqc)
  refine ⟨⟨?_, ?_⟩, ?_⟩
  · intro hash qc' hqc'
    rw [hhashes, withoutKeys_eq_some_iff] at hqc'
    exact h.keyed hash qc' hqc'.2
  · intro key hash hkey
    rw [hkeys, withoutKeys_eq_some_iff] at hkey
    rw [hhashes, withoutKeys_of_notMem (hother key hash hkey.1 hkey.2)]
    exact h.listed key hash hkey.2
  · intro key hnot
    have hnot' : key ∉ dropped.map (·.quorumKey) := by
      intro hdropped
      obtain ⟨qc, hqc, rfl⟩ := mem_map.mp hdropped
      exact hnot (mem_map_of_mem (by simpa [recorded] using hmem qc hqc))
    unfold kept
    rw [hkeys, hhashes, withoutKeys_of_notMem hnot']
    cases hkey : p.minableCommitmentsByQuorum key with
    | none => rfl
    | some hash => rw [bind_some, bind_some, withoutKeys_of_notMem (hother key hash hnot' hkey)]

lemma ProcessesAll.commitments_eq (h : ProcessesAll rules active nHeight blockHash fBLSChecks t qcs t')
    (hkey : key ∉ quorumKeys qcs) : t'.commitments key = t.commitments key := by
  induction h with
  | nil => rfl
  | null _ hnull _ ih =>
    rw [quorumKeys_cons_null hnull] at hkey
    exact ih hkey
  | stored hstorable _ ih =>
    rw [quorumKeys_cons hstorable.notNull, mem_cons, not_or] at hkey
    rw [ih hkey.2]
    exact update_of_ne hkey.1 _ _

/-- A block that is accepted does not touch what is kept and recorded for the quorums of no commitment of its own. -/
lemma pool_processBlock {block : CommitmentBlock} (h : p.CachesRight p.tables) (hpool : p.Pool rules seen)
    (hapart : HashesApart rules seen) (hseen : block.commitments ⊆ seen) (hkey : key ∉ quorumKeys block.commitments)
    (hok : p.processBlock rules active block pindex false fBLSChecks = (.ok (), q)) :
    q.Pool rules seen ∧ q.CachesRight q.tables ∧ q.kept key = p.kept key ∧
      q.tables.commitments key = p.tables.commitments key := by
  obtain ⟨hright, hdrops, haccepts⟩ := processBlock_spec h hok
  obtain ⟨hpool', hkept⟩ := pool_drops hpool hapart hdrops hseen
  refine ⟨hpool', hright, hkept key hkey, ?_⟩
  obtain ⟨-, heq⟩ | ⟨qcs, haccepts⟩ := haccepts rfl rfl
  · exact congrArg (·.commitments key) heq
  · refine haccepts.all.commitments_eq fun hmem => hkey ?_
    exact (((perm_getCommitmentsFromBlock haccepts.read).filter _).map _).subset hmem

end

/-! ### The commitments for the next block -/

variable {nVersion : BitVec 16}

variable (rules active) in
/-- The quorum of an index. -/
def quorumKeyAt (params : QuorumParams) (nHeight : ℤ) (j : ℕ) : LLMQType × Uint256 :=
  (params.type, rules.getQuorumBlockHash active params nHeight j)

variable (rules active) in
/-- The commitment that is put into a block for the quorum of an index: the one that is kept, or a null commitment. -/
def keptOrNull (params : QuorumParams) (nHeight : ℤ) (nVersion : BitVec 16) (p : CQuorumBlockProcessor) (j : ℕ) :
    CFinalCommitment :=
  (p.kept (quorumKeyAt rules active params nHeight j)).getD
    (nullCommitment params (rules.getQuorumBlockHash active params nHeight j) j nVersion)

lemma quorumKey_keptOrNull (hpool : p.Pool rules seen) (j : ℕ) :
    (keptOrNull rules active params nHeight nVersion p j).quorumKey = quorumKeyAt rules active params nHeight j := by
  unfold keptOrNull
  cases hkept : p.kept (quorumKeyAt rules active params nHeight j) with
  | none => rfl
  | some qc => exact quorumKey_of_kept hpool hkept

lemma SameRecords.keptOrNull (h : p.SameRecords q) :
    q.keptOrNull rules active params nHeight nVersion = p.keptOrNull rules active params nHeight nVersion := by
  unfold CQuorumBlockProcessor.keptOrNull
  rw [h.kept]

/-- The loop of `GetMineableCommitments`: every quorum without a record, with what is kept for it. -/
lemma collectMineable_spec (h : p.CachesRight p.tables) (hpool : p.Pool rules seen) {indexes : List ℕ}
    (hhash : ∀ j ∈ indexes, rules.getQuorumBlockHash active params nHeight (j : ℕ) ≠ 0) :
    ∃ q, collectMineable rules active params nHeight nVersion p indexes =
      some ((indexes.filter (required rules active p.tables params nHeight)).map
        (keptOrNull rules active params nHeight nVersion p), q) := by
  induction indexes generalizing p with
  | nil => exact ⟨p, rfl⟩
  | cons j indexes ih =>
    have hrest := fun j' hj' => hhash j' (mem_cons_of_mem j hj')
    have hne := hhash j mem_cons_self
    obtain ⟨p', hp', hreads⟩ := hasMinedCommitment_reads h params.type
      (rules.getQuorumBlockHash active params nHeight j)
    have hpool' := hpool.same hreads.same
    obtain ⟨q, hq⟩ := ih hreads.caches hpool' hrest
    rw [hreads.same.tables, hreads.same.keptOrNull] at hq
    have hrequired : required rules active p.tables params nHeight j =
        !p.isMined params.type (rules.getQuorumBlockHash active params nHeight j) := by
      rw [required, decide_eq_true hne, Bool.true_and, isMined, not_isSome]
    rw [collectMineable, if_neg hne, hp']
    dsimp only
    refine ⟨q, ?_⟩
    cases hmined : p.isMined params.type (rules.getQuorumBlockHash active params nHeight j) with
    | true =>
      rw [if_pos rfl, filter_cons_of_neg (by simp [hrequired, hmined])]
      exact hq
    | false =>
      rw [if_neg Bool.false_ne_true, filter_cons_of_pos (by simp [hrequired, hmined]), map_cons, hq,
        ← hreads.same.keptOrNull, keptOrNull, quorumKeyAt, kept]
      cases hkey : p'.minableCommitmentsByQuorum (params.type, rules.getQuorumBlockHash active params nHeight j) with
      | none => simp
      | some hash =>
        obtain ⟨qc, hqc, -⟩ := hpool'.listed _ hash hkey
        simp [hqc]

lemma getMineableCommitments_spec (h : p.CachesRight p.tables) (hpool : p.Pool rules seen)
    (hphase : isMiningPhase active params nHeight = some true) (hblock : rotationBlock active nHeight = some pindex)
    (hhash : ∀ j < quorumsNum rules params pindex, rules.getQuorumBlockHash active params nHeight (j : ℕ) ≠ 0) {i : ℕ}
    (hi : i < quorumsNum rules params pindex) (hrequired : required rules active p.tables params nHeight i) :
    ∃ nVersion q, p.getMineableCommitments rules active params nHeight =
      some (some (((List.range (quorumsNum rules params pindex)).filter
        (required rules active p.tables params nHeight)).map
          (keptOrNull rules active params nHeight nVersion p)), q) := by
  have hmem : i ∈ (List.range (quorumsNum rules params pindex)).filter
      (required rules active p.tables params nHeight) :=
    mem_filter.mpr ⟨mem_range.mpr hi, hrequired⟩
  obtain ⟨p', hp', hreads⟩ := foldl_countRequired h 0 (List.range (quorumsNum rules params pindex))
  have hpos : (List.range (quorumsNum rules params pindex)).countP
      (required rules active p.tables params nHeight) ≠ 0 := by
    rw [countP_eq_length_filter]
    exact (length_pos_of_mem hmem).ne'
  unfold getMineableCommitments getNumCommitmentsRequired
  rw [hphase, hblock]
  dsimp only
  rw [hp', Nat.zero_add]
  generalize (List.range (quorumsNum rules params pindex)).countP (required rules active p.tables params nHeight) = n
    at hpos ⊢
  cases n with
  | zero => exact absurd rfl hpos
  | succ n =>
    simp only [bind_eq_bind, bind_some]
    generalize CFinalCommitment.getVersion _ _ = nVersion
    obtain ⟨q, hq⟩ := collectMineable_spec hreads.caches (hpool.same hreads.same)
      fun j hj => hhash j (mem_range.mp hj)
    rw [hreads.same.tables, hreads.same.keptOrNull] at hq
    refine ⟨nVersion, q, ?_⟩
    rw [hq, bind_some]
    rw [if_neg]
    · rfl
    · rw [List.isEmpty_iff, List.map_eq_nil_iff]
      exact ne_nil_of_mem hmem

/-- The block that the window's quorums are counted by is in their cycle. -/
lemma cycleStart_of_phase (hsane : params.Sane)
    (hphase : isMiningPhase (some tip) params (tip.nHeight + 1) = some true) :
    params.cycleStart (tip.nHeight + 1) + params.dkgMiningWindowStart ≤ tip.nHeight + 1 ∧
      params.cycleStart tip.nHeight = params.cycleStart (tip.nHeight + 1) := by
  have hstart := hsane.start_pos
  have hend := hsane.end_lt
  have hwindow : params.cycleStart (tip.nHeight + 1) + params.dkgMiningWindowStart ≤ tip.nHeight + 1 ∧
      tip.nHeight + 1 ≤ params.cycleStart (tip.nHeight + 1) + params.dkgMiningWindowEnd := by
    unfold isMiningPhase at hphase
    split_ifs at hphase
    simpa using hphase
  exact ⟨hwindow.1, QuorumParams.cycleStart_of_mem (by omega) (by omega)⟩

lemma index_lt_quorumsNum {checkSigs : Bool} (hsane : params.Sane) (hread : qc.IndexRead)
    (hparams : rules.getLLMQParams qc.llmqType = some params) (h : qc.verify rules base checkSigs) :
    0 ≤ qc.quorumIndex.toInt ∧ qc.quorumIndex.toInt < quorumsNum rules params base := by
  obtain ⟨-, -, hindex⟩ := CFinalCommitment.of_verify hparams h
  have h0 := Int.emod_nonneg base.nHeight hsane.interval_pos.ne'
  refine ⟨by omega, ?_⟩
  unfold quorumsNum
  cases hrotation : rules.isQuorumRotationEnabled params base with
  | true =>
    have hlt := CFinalCommitment.index_lt_of_verify hsane hparams hrotation h
    rw [if_pos rfl]
    omega
  | false =>
    rw [CFinalCommitment.index_zero_of_verify hread hparams hrotation h]
    simp

lemma rotationBlock_tip (tip : CBlockIndex) : rotationBlock (some tip) (tip.nHeight + 1) = some tip := by
  simp [rotationBlock]

lemma quorumsNum_le (hsane : params.Sane) (rules : QuorumRules) (pindex : CBlockIndex) :
    (quorumsNum rules params pindex : ℤ) ≤ params.dkgMiningWindowStart := by
  have hstart := hsane.start_pos
  unfold quorumsNum
  cases hrotation : rules.isQuorumRotationEnabled params pindex with
  | true =>
    unfold QuorumRules.isQuorumRotationEnabled at hrotation
    simp only [Bool.and_eq_true] at hrotation
    exact hsane.count_le hrotation.1.1
  | false =>
    rw [if_neg Bool.false_ne_true]
    omega

lemma filter_range_eq {n i : ℕ} (hi : i < n) {P : ℕ → Bool} (h : ∀ j < n, P j = true ↔ j = i) :
    (range n).filter P = [i] := by
  have hcongr : ∀ j ∈ range n, P j = decide (j = i) := by
    intro j hj
    rw [Bool.eq_iff_iff, h j (mem_range.mp hj), decide_eq_true_eq]
  rw [filter_congr hcongr, filter_eq, count_eq_one_of_mem nodup_range (mem_range.mpr hi)]
  rfl

lemma nextBlock_of_placed (hsane : rules.Sane) (hknows : rules.Knows tip)
    (hnonzero : ∀ height pindex, tip.getAncestor height = some pindex → rules.getBlockHash pindex.header ≠ 0)
    (h : p.CachesRight p.tables) (hpool : p.Pool rules seen) (hplaced : Placed rules tip qc params base)
    (hkept : p.kept qc.quorumKey = some qc) (hnone : p.tables.commitments qc.quorumKey = none)
    (hphase : isMiningPhase (some tip) params (tip.nHeight + 1) = some true)
    (hcycle : params.cycleStart base.nHeight = params.cycleStart (tip.nHeight + 1)) :
    ∃ ret q, p.getMineableCommitments rules (some tip) params (tip.nHeight + 1) = some (some ret, q) ∧
      ret.filter (·.quorumKey = qc.quorumKey) = [qc] := by
  have hparams := hsane.of_getLLMQParams hplaced.params_eq
  have hinterval := hparams.interval_pos
  obtain ⟨hstart, htip⟩ := cycleStart_of_phase hparams hphase
  have h0 := QuorumParams.cycleStart_nonneg hinterval (show 0 ≤ tip.nHeight + 1 by
    have := CBlockIndex.nHeight_nonneg tip
    omega)
  -- rotation at the base block and at the tip
  have hrotation : rules.isQuorumRotationEnabled params tip = rules.isQuorumRotationEnabled params base := by
    have hle := QuorumParams.cycleStart_le hinterval base.nHeight
    refine QuorumRules.isQuorumRotationEnabled_congr (htip.trans hcycle.symm) ?_
    rw [CBlockIndex.getAncestor_getAncestor hplaced.onChain (by omega)]
  obtain ⟨hindex0, hindexlt⟩ := index_lt_quorumsNum hparams hplaced.read hplaced.params_eq hplaced.verified
  obtain ⟨i, hi⟩ := Int.eq_ofNat_of_zero_le hindex0
  have hnum : quorumsNum rules params tip = quorumsNum rules params base := by
    unfold quorumsNum
    rw [hrotation]
  -- the base blocks of the quorums of the cycle
  have hancestor : ∀ j < quorumsNum rules params tip, ∃ pindex,
      tip.getAncestor (params.cycleStart (tip.nHeight + 1) + (j : ℕ)) = some pindex ∧
        pindex.nHeight = params.cycleStart (tip.nHeight + 1) + (j : ℕ) := by
    intro j hj
    have := quorumsNum_le hparams rules tip
    exact CBlockIndex.getAncestor_of_le (by omega) (by omega)
  have hhash : ∀ j < quorumsNum rules params tip,
      rules.getQuorumBlockHash (some tip) params (tip.nHeight + 1) (j : ℕ) ≠ 0 := by
    intro j hj
    obtain ⟨pindex, hpindex, -⟩ := hancestor j hj
    rw [getQuorumBlockHash_eq hpindex]
    exact hnonzero _ _ hpindex
  have hi' : i < quorumsNum rules params tip := by omega
  -- the index of the commitment is the only one with its base block
  have hheight : base.nHeight = params.cycleStart (tip.nHeight + 1) + (i : ℕ) := by
    have := hplaced.index_eq
    omega
  have hbase : rules.getQuorumBlockHash (some tip) params (tip.nHeight + 1) (i : ℕ) = qc.quorumHash := by
    rw [getQuorumBlockHash_eq (hheight ▸ hplaced.onChain)]
    exact (CFinalCommitment.of_verify hplaced.params_eq hplaced.verified).2.1
  have htype := type_of_getLLMQParams hplaced.params_eq
  have hkey : ∀ j < quorumsNum rules params tip,
      quorumKeyAt rules (some tip) params (tip.nHeight + 1) j = qc.quorumKey ↔ j = i := by
    intro j hj
    constructor
    · intro heq
      obtain ⟨pindex, hpindex, hpheight⟩ := hancestor j hj
      have hlookup := hknows _ _ hpindex
      rw [← getQuorumBlockHash_eq hpindex, (Prod.mk.inj heq).2, hplaced.base_eq] at hlookup
      obtain rfl := some.inj hlookup
      omega
    · rintro rfl
      rw [quorumKeyAt, htype, hbase]
      rfl
  have hrequired : required rules (some tip) p.tables params (tip.nHeight + 1) i := by
    rw [required, decide_eq_true (hhash i hi'), ← quorumKeyAt, (hkey i hi').mpr rfl, hnone]
    rfl
  obtain ⟨nVersion, q, hq⟩ := getMineableCommitments_spec h hpool hphase (rotationBlock_tip tip) hhash hi' hrequired
  refine ⟨_, q, hq, ?_⟩
  rw [filter_map, filter_filter, filter_range_eq hi', map_singleton]
  · rw [keptOrNull, (hkey i hi').mpr rfl, hkept]
    rfl
  · intro j hj
    rw [Bool.and_eq_true, Function.comp_apply, decide_eq_true_eq, quorumKey_keptOrNull hpool, hkey j hj]
    constructor
    · exact fun hand => hand.1
    · rintro rfl
      exact ⟨rfl, hrequired⟩

end CQuorumBlockProcessor

open CQuorumBlockProcessor

/-! ### Runs -/

/-- The processor and the chain. -/
structure PoolRun where
  processor : CQuorumBlockProcessor
  tip : CBlockIndex

/-- What happens in a run. -/
inductive PoolEvent where
  | message (qc : CFinalCommitment)
  | connect (block : CommitmentBlock) (fBLSChecks : Bool)

/-- The commitments that come with an event. -/
def PoolEvent.commitments : PoolEvent → List CFinalCommitment
  | .message qc => [qc]
  | .connect block _ => block.commitments

namespace PoolRun

variable (rules : QuorumRules) (key : LLMQType × Uint256) (s : PoolRun)

/-- An event; a message at which an exception is thrown and a block that is refused change nothing. -/
def step : PoolEvent → PoolRun
  | .message qc =>
    match s.processor.processMessage rules (some s.tip) qc with
    | some p => { s with processor := p }
    | none => s
  | .connect block fBLSChecks =>
    match s.processor.processBlock rules (some s.tip) block (s.tip.child block.header) false fBLSChecks with
    | (.ok (), p) => { processor := p, tip := s.tip.child block.header }
    | (.error _, _) => s

/-- The commitments for a quorum that come with messages. -/
def received (events : List PoolEvent) : List CFinalCommitment :=
  events.filterMap fun
    | .message qc => if qc.quorumKey = key then some qc else none
    | .connect _ _ => none

/-- The commitments for the quorum pass all checks, and blocks are accepted and mine none of them. -/
def Fine : PoolEvent → Prop
  | .message qc => qc.quorumKey = key → ∃ params base, Passes rules s.tip qc params base
  | .connect block fBLSChecks =>
    (s.processor.processBlock rules (some s.tip) block (s.tip.child block.header) false fBLSChecks).1 = .ok () ∧
      key ∉ quorumKeys block.commitments

/-- If the next block is in the mining window of the quorum's cycle, the commitment is the one that
`GetMineableCommitments` has for the quorum. -/
def InNextBlock (best : CFinalCommitment) : Prop :=
  ∀ params base, rules.getLLMQParams key.1 = some params → rules.lookupBlockIndex key.2 = some base →
    isMiningPhase (some s.tip) params (s.tip.nHeight + 1) = some true →
    params.cycleStart base.nHeight = params.cycleStart (s.tip.nHeight + 1) →
    ∃ ret q, s.processor.getMineableCommitments rules (some s.tip) params (s.tip.nHeight + 1) = some (some ret, q) ∧
      ret.filter (·.quorumKey = key) = [best]

variable {rules key s} {all : Bool}

/-- What holds as long as nothing is mined for the quorum. -/
structure Ready (rules : QuorumRules) (seen : List CFinalCommitment) (key : LLMQType × Uint256) (s : PoolRun) :
    Prop where
  caches : s.processor.CachesRight s.processor.tables
  pool : s.processor.Pool rules seen
  unmined : s.processor.tables.commitments key = none
  placed : ∀ qc, s.processor.kept key = some qc → ∃ params base, Placed rules s.tip qc params base

/-- An event keeps what is kept for the quorum, or keeps the first commitment for it. -/
lemma ready_step (hapart : HashesApart rules seen) (h : Ready rules seen key s) {e : PoolEvent}
    (he : s.Fine rules key e) (hseen : e.commitments ⊆ seen) :
    Ready rules seen key (s.step rules e) ∧
      (s.step rules e).processor.kept key = (s.processor.kept key).or (received key [e]).head? := by
  cases e with
  | message qc =>
    have hmem : qc ∈ seen := hseen mem_cons_self
    obtain ⟨q, hq, hreceives⟩ := processMessage_receives h.pool hapart hmem (some s.tip) h.caches
    simp only [step, hq]
    by_cases hkey : qc.quorumKey = key
    · obtain ⟨params, base, hpasses⟩ := he hkey
      subst hkey
      have hkept := processMessage_kept h.pool hapart hmem h.caches hpasses h.unmined hq
      refine ⟨⟨hreceives.tables ▸ hreceives.caches, hreceives.pool, hreceives.tables ▸ h.unmined, ?_⟩, ?_⟩
      · intro qc' hqc'
        rw [hkept] at hqc'
        cases hold : s.processor.kept qc.quorumKey with
        | none =>
          rw [hold] at hqc'
          obtain rfl := some.inj hqc'
          exact ⟨params, base, hpasses.toPlaced⟩
        | some old =>
          rw [hold] at hqc'
          obtain rfl := some.inj hqc'
          exact h.placed old hold
      · rw [hkept]
        cases s.processor.kept qc.quorumKey with
        | none => simp [received]
        | some old => simp
    · have hkept := hreceives.others key (Ne.symm hkey)
      refine ⟨⟨hreceives.tables ▸ hreceives.caches, hreceives.pool, hreceives.tables ▸ h.unmined, ?_⟩, ?_⟩
      · rw [hkept]
        exact h.placed
      · simp [received, hkey, hkept]
  | connect block fBLSChecks =>
    obtain ⟨hok, hnot⟩ := he
    obtain ⟨q, hq⟩ : ∃ q, s.processor.processBlock rules (some s.tip) block
      (s.tip.child block.header) false fBLSChecks =
      (.ok (), q) := ⟨_, Prod.ext hok rfl⟩
    obtain ⟨hpool, hright, hkept, htables⟩ := pool_processBlock h.caches h.pool hapart hseen hnot hq
    simp only [step, hq]
    refine ⟨⟨hright, hpool, htables.trans h.unmined, ?_⟩, by simp [received, hkept]⟩
    intro qc hqc
    rw [hkept] at hqc
    obtain ⟨params, base, hplaced⟩ := h.placed qc hqc
    exact ⟨params, base, hplaced.child block.header⟩

/-- The first commitment that was received for the quorum is the one that is kept. -/
lemma kept_run (hapart : HashesApart rules seen) {events : List PoolEvent} (h : Ready rules seen key s)
    (hfine : Along (step rules) (Fine rules key) s events) (hseen : events.flatMap PoolEvent.commitments ⊆ seen) :
    Ready rules seen key (events.foldl (step rules) s) ∧
      (events.foldl (step rules) s).processor.kept key = (s.processor.kept key).or (received key events).head? := by
  induction events generalizing s with
  | nil => exact ⟨h, by simp [received]⟩
  | cons e events ih =>
    rw [flatMap_cons, append_subset] at hseen
    obtain ⟨hready, hkept⟩ := ready_step hapart h hfine.1 hseen.1
    obtain ⟨hready', hkept'⟩ := ih hready hfine.2 hseen.2
    refine ⟨hready', hkept'.trans ?_⟩
    have happend : received key (e :: events) = received key [e] ++ received key events :=
      filterMap_append (l := [e])
    rw [hkept, happend, head?_append, Option.or_assoc]

/-- For every run in which all commitments that are received for a quorum pass the checks and none is mined: the one
that is kept has the most signers, and is the one for the next block, exactly if the first one that came has the
most. -/
theorem mostSigned_kept_iff (rules : QuorumRules) (hsane : rules.Sane) (seen : List CFinalCommitment)
    (hapart : HashesApart rules seen) (key : LLMQType × Uint256) (s : PoolRun)
    (hcaches : s.processor.CachesRight s.processor.tables) (hpool : s.processor.Pool rules seen)
    (hnone : s.processor.kept key = none) (hunmined : s.processor.tables.commitments key = none)
    (events : List PoolEvent) (hseen : events.flatMap PoolEvent.commitments ⊆ seen)
    (hfine : Along (step rules) (Fine rules key) s events) (hknows : rules.Knows (events.foldl (step rules) s).tip)
    (hnonzero : ∀ height pindex, (events.foldl (step rules) s).tip.getAncestor height = some pindex →
      rules.getBlockHash pindex.header ≠ 0)
    (first : CFinalCommitment) (rest : List CFinalCommitment) (hreceived : received key events = first :: rest) :
    (∃ best, (events.foldl (step rules) s).processor.kept key = some best ∧ best ∈ received key events ∧
        (∀ qc ∈ received key events, qc.countSigners ≤ best.countSigners) ∧
        (events.foldl (step rules) s).InNextBlock rules key best) ↔
      ∀ qc ∈ rest, qc.countSigners ≤ first.countSigners := by
  have hstart : Ready rules seen key s := ⟨hcaches, hpool, hunmined, fun qc hqc => by rw [hnone] at hqc; cases hqc⟩
  obtain ⟨hready, hkept⟩ := kept_run hapart hstart hfine hseen
  rw [hnone, hreceived, none_or, head?_cons] at hkept
  rw [hreceived]
  constructor
  · rintro ⟨best, hbest, -, hmost, -⟩ qc hqc
    rw [hkept] at hbest
    obtain rfl := some.inj hbest
    exact hmost qc (mem_cons_of_mem _ hqc)
  · intro hmost
    refine ⟨first, hkept, mem_cons_self, ?_, ?_⟩
    · intro qc hqc
      obtain rfl | hqc := mem_cons.mp hqc
      · exact le_rfl
      · exact hmost qc hqc
    · intro params base hparams hbase hphase hcycle
      obtain ⟨params', base', hplaced⟩ := hready.placed first hkept
      obtain rfl := quorumKey_of_kept hready.pool hkept
      obtain rfl := some.inj (hplaced.params_eq.symm.trans hparams)
      obtain rfl := some.inj (hplaced.base_eq.symm.trans hbase)
      exact nextBlock_of_placed hsane hknows hnonzero hready.caches hready.pool hplaced hkept hready.unmined
        hphase hcycle

/-! ### The second commitment has more signers -/

/-- The toy chain with quorums of the type for tests, which need two of three signers. -/
def toyPoolRules : QuorumRules :=
  { toyMinedRules with
    llmqs := availableLlmqs.filter (·.type = .test)
    computeQuorumMembersSize := fun _ _ => 3
    serializeHash := fun qc => BitVec.ofNat 256 qc.countSigners }

/-- A commitment for the quorum whose base block has height 24, signed by all members or by two. -/
def toySigned (all : Bool) : CFinalCommitment where
  llmqType := .test
  quorumHash := 25
  signers := [true, true, all]
  validMembers := [true, true, true]
  quorumPublicKey := 1
  quorumVvecHash := 1
  quorumSig := 1
  membersSig := 1

def toySignedKey : LLMQType × Uint256 := (.test, 25)

def toyPoolStart : PoolRun := ⟨(initial (toyMinedHeader 0) fun _ => (5, 10)).processor, toyMinedChain 33⟩

def toyMessages (all : Bool) : List PoolEvent := [.message (toySigned all), .message (toySigned (!all))]

lemma passes_toySigned : Passes toyPoolRules toyPoolStart.tip (toySigned all)
    ⟨⟨.test, 24, 3⟩, false, 3, 2, 10, 18, 2⟩ (toyMinedChain 24) := by
  cases all
  · exact ⟨⟨by decide, by decide +kernel, by decide +kernel, by decide +kernel, by decide +kernel, by decide +kernel⟩,
      by decide, by decide⟩
  · exact ⟨⟨by decide, by decide +kernel, by decide +kernel, by decide +kernel, by decide +kernel, by decide +kernel⟩,
      by decide, by decide⟩

lemma fine_toyMessages :
    Along (step toyPoolRules) (Fine toyPoolRules toySignedKey) toyPoolStart (toyMessages all) := by
  refine ⟨fun _ => ⟨_, _, passes_toySigned⟩, fun _ => ?_, trivial⟩
  have htip : (toyPoolStart.step toyPoolRules (.message (toySigned all))).tip = toyPoolStart.tip := by
    dsimp only [step]
    split <;> rfl
  rw [htip]
  exact ⟨_, _, passes_toySigned⟩

/-- The commitment with two signers comes first and stays, the one with three is dropped. -/
theorem mostSigned_not_kept :
    Along (step toyPoolRules) (Fine toyPoolRules toySignedKey) toyPoolStart (toyMessages false) ∧
      received toySignedKey (toyMessages false) = [toySigned false, toySigned true] ∧
      ((toyMessages false).foldl (step toyPoolRules) toyPoolStart).processor.kept toySignedKey =
        some (toySigned false) ∧
      (toySigned false).countSigners < (toySigned true).countSigners :=
  ⟨fine_toyMessages, by decide +kernel, by decide +kernel, by decide⟩

theorem mostSigned_kept_iff_toyMessages :
    (∀ qc ∈ [toySigned false], qc.countSigners ≤ (toySigned true).countSigners) ∧
      ∃ best, ((toyMessages true).foldl (step toyPoolRules) toyPoolStart).processor.kept toySignedKey = some best ∧
        best ∈ received toySignedKey (toyMessages true) ∧
        (∀ qc ∈ received toySignedKey (toyMessages true), qc.countSigners ≤ best.countSigners) ∧
        ((toyMessages true).foldl (step toyPoolRules) toyPoolStart).InNextBlock toyPoolRules toySignedKey best := by
  have hmost : ∀ qc ∈ [toySigned false], qc.countSigners ≤ (toySigned true).countSigners := by decide
  have htip : ((toyMessages true).foldl (step toyPoolRules) toyPoolStart).tip = toyMinedChain 33 := by
    decide +kernel
  refine ⟨hmost, (mostSigned_kept_iff toyPoolRules (by decide +kernel) [toySigned true, toySigned false]
    (by decide +kernel)
    toySignedKey toyPoolStart nofun ⟨fun _ _ hqc => (nomatch hqc), nofun⟩ rfl
    rfl (toyMessages true) (by decide +kernel) (fine_toyMessages) ?_ ?_ (toySigned true) [toySigned false]
    (by decide +kernel)).mpr hmost⟩
  · rw [htip]
    exact knows_toyMinedChain (show 33 < 100 by decide)
  · rw [htip]
    intro height pindex hancestor
    obtain ⟨k, hk, rfl⟩ := exists_toyMinedChain hancestor
    have hhashes : ∀ k ≤ 33, toyPoolRules.getBlockHash (toyMinedChain k).header ≠ 0 := by decide
    exact hhashes k hk

end PoolRun

end Blocx
