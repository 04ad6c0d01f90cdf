import Blocx.Llmq.ProcessedBlocks

/-!
# Taking back what a block recorded

`ProcessCommitment` decides by the base block of a quorum under which height a commitment is recorded, `UndoBlock` by
the block that carries it. The base block is in the cycle of that block, so rotation is the same for both
(`Storable.rotation_eq`), and the keys that `UndoBlock` empties are those that were written (`undo_recorded`). They had
no entries before: the quorum had no record, and there are no entries for heights above the tip (`HeightsBelow`).
-/

namespace Blocx

open List Option

open Function

open Consensus CBlockIndex

/-- The block index has every block of the chain under its hash. -/
def QuorumRules.Knows (rules : QuorumRules) (tip : CBlockIndex) : Prop :=
  ∀ height pindex, tip.getAncestor height = some pindex →
    rules.lookupBlockIndex (rules.getBlockHash pindex.header) = some pindex

/-- The parameters of all types keep to the rules. -/
def QuorumRules.Sane (rules : QuorumRules) : Prop := ∀ params ∈ rules.llmqs, params.Sane

instance (rules : QuorumRules) : Decidable rules.Sane := inferInstanceAs (Decidable (∀ params ∈ rules.llmqs, _))

variable {params : QuorumParams} {rules : QuorumRules}

lemma QuorumRules.Sane.of_getLLMQParams (h : rules.Sane) {llmqType : LLMQType}
    (hparams : rules.getLLMQParams llmqType = some params) : params.Sane :=
  h params (mem_of_find?_eq_some hparams)

namespace CQuorumBlockProcessor

variable {tip base pindex : CBlockIndex} {p q : CQuorumBlockProcessor} {t t' : MinedTables}
  {nHeight quorumIndex height height' : ℤ} {blockHash : Uint256} {fBLSChecks : Bool} {qc fqc : CFinalCommitment}
  {qcs seen : List CFinalCommitment} {block : CommitmentBlock} {header : CBlockHeader}

/-! ### The base block -/

lemma getQuorumBlockHash_eq (h : tip.getAncestor (params.cycleStart nHeight + quorumIndex) = some pindex) :
    rules.getQuorumBlockHash (some tip) params nHeight quorumIndex = rules.getBlockHash pindex.header := by
  obtain ⟨⟨h0, -⟩, -⟩ := getAncestor_eq_some_iff.mp h
  unfold QuorumRules.getQuorumBlockHash
  dsimp only
  rw [if_neg (show ¬ params.cycleStart nHeight + quorumIndex = -1 by omega), h]

lemma ancestor_of_getQuorumBlockHash (h0 : 0 ≤ params.cycleStart nHeight + quorumIndex)
    (hne : rules.getQuorumBlockHash (some tip) params nHeight quorumIndex ≠ 0) :
    ∃ pindex, tip.getAncestor (params.cycleStart nHeight + quorumIndex) = some pindex := by
  unfold QuorumRules.getQuorumBlockHash at hne
  dsimp only at hne
  rw [if_neg (show ¬ params.cycleStart nHeight + quorumIndex = -1 by omega)] at hne
  cases hancestor : tip.getAncestor (params.cycleStart nHeight + quorumIndex) with
  | none => simp [hancestor] at hne
  | some pindex => exact ⟨pindex, rfl⟩

/-- The base block of a quorum that is accepted is on the chain, at the height of the index in the cycle. -/
lemma Storable.base_mem (h : Storable rules (some tip) nHeight fBLSChecks t qc params base) (hsane : rules.Sane)
    (hknows : rules.Knows tip) (hheight : 0 ≤ nHeight) :
    base.nHeight = params.cycleStart nHeight + qc.quorumIndex.toInt ∧ tip.getAncestor base.nHeight = some base ∧
      params.cycleStart base.nHeight = params.cycleStart nHeight := by
  have hinterval := (hsane.of_getLLMQParams h.params_eq).interval_pos
  obtain ⟨-, -, hindex⟩ := CFinalCommitment.of_verify h.params_eq h.verified
  have hhash := h.hash_eq rfl
  have hmod := Int.emod_nonneg base.nHeight hinterval.ne'
  have hcycle := QuorumParams.cycleStart_nonneg hinterval hheight
  have h0 : 0 ≤ params.cycleStart nHeight + qc.quorumIndex.toInt := by omega
  obtain ⟨pindex, hancestor⟩ := ancestor_of_getQuorumBlockHash h0 (hhash ▸ h.hash_ne)
  have hlookup := hknows _ _ hancestor
  rw [← getQuorumBlockHash_eq hancestor, hhash, h.base_eq] at hlookup
  obtain rfl := some.inj hlookup
  have hbase := nHeight_of_getAncestor hancestor
  exact ⟨hbase, hbase ▸ hancestor, QuorumParams.cycleStart_of_emod_eq hbase hindex⟩

/-- Rotation is the same for the base block and the block that carries the commitment. -/
lemma Storable.rotation_eq (h : Storable rules (some tip) (tip.child header).nHeight fBLSChecks t qc params base)
    (hsane : rules.Sane) (hknows : rules.Knows tip) :
    rules.isQuorumRotationEnabled params base = rules.isQuorumRotationEnabled params (tip.child header) := by
  have hinterval := (hsane.of_getLLMQParams h.params_eq).interval_pos
  obtain ⟨-, hancestor, hcycle⟩ := h.base_mem hsane hknows (nHeight_nonneg _)
  refine QuorumRules.isQuorumRotationEnabled_congr hcycle ?_
  have hle := QuorumParams.cycleStart_le hinterval base.nHeight
  have hle' := QuorumParams.cycleStart_le hinterval (tip.child header).nHeight
  rw [nHeight_child] at hle' hcycle
  rw [getAncestor_getAncestor hancestor (by omega), getAncestor_child (by omega)]

/-! ### Keys -/

def recorded (qcs : List CFinalCommitment) : List CFinalCommitment := qcs.filter fun qc => !qc.isNull

variable (rules) in
/-- Rotation as `UndoBlock` decides it. -/
def rotated (pindex : CBlockIndex) (qc : CFinalCommitment) : Bool :=
  (rules.getLLMQParams qc.llmqType).any (rules.isQuorumRotationEnabled · pindex)

def quorumKeys (qcs : List CFinalCommitment) : List (LLMQType × Uint256) := (recorded qcs).map (·.quorumKey)

variable (rules) in
/-- The keys of commitments in the table by height. -/
def heightKeys (pindex : CBlockIndex) (qcs : List CFinalCommitment) : List (LLMQType × ℕ) :=
  ((recorded qcs).filter fun qc => !rotated rules pindex qc).map fun qc => (qc.llmqType, inversedHeight pindex.nHeight)

variable (rules) in
/-- The keys of commitments in the table by height and index. -/
def indexedKeys (pindex : CBlockIndex) (qcs : List CFinalCommitment) : List (LLMQType × ℤ × ℕ) :=
  ((recorded qcs).filter (rotated rules pindex)).map fun qc =>
    (qc.llmqType, qc.quorumIndex.toInt, inversedHeight pindex.nHeight)

variable (rules) in
/-- The records without those that a block made. -/
def withoutBlock (t : MinedTables) (pindex : CBlockIndex) (qcs : List CFinalCommitment) : MinedTables where
  commitments := withoutKeys t.commitments (quorumKeys qcs)
  byHeight := withoutKeys t.byHeight (heightKeys rules pindex qcs)
  byHeightIndexed := withoutKeys t.byHeightIndexed (indexedKeys rules pindex qcs)

lemma quorumKeys_cons_null (h : qc.isNull) : quorumKeys (qc :: qcs) = quorumKeys qcs := by
  simp [quorumKeys, recorded, h]

lemma quorumKeys_cons (h : qc.isNull = false) : quorumKeys (qc :: qcs) = qc.quorumKey :: quorumKeys qcs := by
  simp [quorumKeys, recorded, h]

lemma withoutBlock_nil : withoutBlock rules t pindex [] = t := by
  simp [withoutBlock, quorumKeys, heightKeys, indexedKeys, recorded]

lemma withoutBlock_cons_null (h : qc.isNull) :
    withoutBlock rules t pindex (qc :: qcs) = withoutBlock rules t pindex qcs := by
  simp [withoutBlock, quorumKeys, heightKeys, indexedKeys, recorded, h]

lemma withoutBlock_unstore (h : qc.isNull = false) (hparams : rules.getLLMQParams qc.llmqType = some params) :
    withoutBlock rules (t.unstore (rules.isQuorumRotationEnabled params pindex) pindex.nHeight qc) pindex qcs =
      withoutBlock rules t pindex (qc :: qcs) := by
  have hrotated : rotated rules pindex qc = rules.isQuorumRotationEnabled params pindex := by
    simp [rotated, hparams]
  unfold withoutBlock
  rw [quorumKeys_cons h]
  cases hrotation : rules.isQuorumRotationEnabled params pindex <;>
    simp [MinedTables.unstore, heightKeys, indexedKeys, recorded, h, hrotated, hrotation, withoutKeys_update]

/-! ### What a block records -/

/-- No entries are there for heights above this one. -/
def HeightsBelow (t : MinedTables) (tipHeight : ℤ) : Prop :=
  ∀ height, tipHeight < height → height < 2 ^ 32 → ∀ llmqType,
    t.byHeight (llmqType, inversedHeight height) = none ∧
      ∀ quorumIndex, t.byHeightIndexed (llmqType, quorumIndex, inversedHeight height) = none

variable (rules) in
/-- What the commitments of a block do to the records: entries are made under their keys only, and the quorums had
none. -/
structure Records (pindex : CBlockIndex) (t : MinedTables) (qcs : List CFinalCommitment) (t' : MinedTables) : Prop where
  fresh : ∀ key ∈ quorumKeys qcs, t.commitments key = none
  commitments : ∀ key, key ∉ quorumKeys qcs → t'.commitments key = t.commitments key
  byHeight : ∀ key, key ∉ heightKeys rules pindex qcs → t'.byHeight key = t.byHeight key
  byHeightIndexed : ∀ key, key ∉ indexedKeys rules pindex qcs → t'.byHeightIndexed key = t.byHeightIndexed key

lemma Records.store {baseHeight : ℤ} (hnull : qc.isNull = false) (hnone : t.commitments qc.quorumKey = none)
    (h : Records rules pindex (t.store (rotated rules pindex qc) pindex.nHeight blockHash qc baseHeight) qcs t') :
    Records rules pindex t (qc :: qcs) t' := by
  have hkeys : quorumKeys (qc :: qcs) = qc.quorumKey :: quorumKeys qcs := quorumKeys_cons hnull
  constructor
  · intro key hmem
    rw [hkeys] at hmem
    by_cases hkey : key = qc.quorumKey
    · rw [hkey, hnone]
    · have hfresh := h.fresh key ((mem_cons.mp hmem).resolve_left hkey)
      rw [← hfresh]
      exact (update_of_ne hkey _ _).symm
  · intro key hmem
    rw [hkeys, mem_cons, not_or] at hmem
    rw [h.commitments key hmem.2]
    exact update_of_ne hmem.1 _ _
  · intro key hmem
    cases hrotated : rotated rules pindex qc with
    | true =>
      rw [hrotated] at h
      exact h.byHeight key (by simpa [heightKeys, recorded, hnull, hrotated] using hmem)
    | false =>
      rw [hrotated] at h
      simp only [heightKeys, recorded, hnull, hrotated, filter_cons, Bool.not_false, if_true, map_cons,
        mem_cons, not_or] at hmem
      rw [h.byHeight key hmem.2]
      exact update_of_ne hmem.1 _ _
  · intro key hmem
    cases hrotated : rotated rules pindex qc with
    | false =>
      rw [hrotated] at h
      exact h.byHeightIndexed key (by simpa [indexedKeys, recorded, hnull, hrotated] using hmem)
    | true =>
      rw [hrotated] at h
      simp only [indexedKeys, recorded, hnull, hrotated, filter_cons, Bool.not_false, if_true, map_cons,
        mem_cons, not_or] at hmem
      rw [h.byHeightIndexed key hmem.2]
      exact update_of_ne hmem.1 _ _

lemma Records.null (hnull : qc.isNull) (h : Records rules pindex t qcs t') :
    Records rules pindex t (qc :: qcs) t' := by
  have hrecorded : recorded (qc :: qcs) = recorded qcs := by simp [recorded, hnull]
  refine ⟨?_, ?_, ?_, ?_⟩
  · rw [quorumKeys_cons_null hnull]
    exact h.fresh
  · rw [quorumKeys_cons_null hnull]
    exact h.commitments
  · rw [heightKeys, hrecorded]
    exact h.byHeight
  · rw [indexedKeys, hrecorded]
    exact h.byHeightIndexed

lemma ProcessesAll.records (hsane : rules.Sane) (hknows : rules.Knows tip)
    (h : ProcessesAll rules (some tip) (tip.child header).nHeight blockHash fBLSChecks t qcs t') :
    Records rules (tip.child header) t qcs t' := by
  induction h with
  | nil => exact ⟨nofun, fun _ _ => rfl, fun _ _ => rfl, fun _ _ => rfl⟩
  | null hbase hnull rest ih => exact ih.null hnull
  | stored hstorable rest ih =>
    rename_i t t' qc qcs params base
    have hrotated : rotated rules (tip.child header) qc = rules.isQuorumRotationEnabled params base := by
      rw [hstorable.rotation_eq hsane hknows]
      simp [rotated, hstorable.params_eq]
    rw [← hrotated] at ih
    exact ih.store hstorable.notNull hstorable.notMined

lemma inversedHeight_inj (h0 : 0 ≤ height) (h : height < 2 ^ 32) (h0' : 0 ≤ height') (h' : height' < 2 ^ 32)
    (heq : inversedHeight height = inversedHeight height') : height = height' := by
  unfold inversedHeight at heq
  omega

lemma HeightsBelow.mono (h : HeightsBelow t height) (hle : height ≤ height') :
    HeightsBelow t height' := fun height'' hlt => h height'' (hle.trans_lt hlt)

lemma Records.heightsBelow (h : Records rules pindex t qcs t')
    (hbelow : HeightsBelow t pindex.nHeight) : HeightsBelow t' pindex.nHeight := by
  intro height hlt hfits llmqType
  have hne : inversedHeight height ≠ inversedHeight pindex.nHeight := by
    have h0 := nHeight_nonneg pindex
    intro heq
    have := inversedHeight_inj (by omega) hfits h0 (by omega) heq
    omega
  obtain ⟨hnone, hindexed⟩ := hbelow height hlt hfits llmqType
  constructor
  · rw [h.byHeight, hnone]
    simp [heightKeys, Ne.symm hne]
  · intro quorumIndex
    rw [h.byHeightIndexed, hindexed]
    simp [indexedKeys, Ne.symm hne]

lemma Records.withoutBlock_eq (h : Records rules pindex t qcs t')
    (hbelow : HeightsBelow t (pindex.nHeight - 1)) (hfits : pindex.nHeight < 2 ^ 32) :
    withoutBlock rules t' pindex qcs = t := by
  have hnone := hbelow pindex.nHeight (by omega) hfits
  unfold withoutBlock
  rw [withoutKeys_eq h.fresh h.commitments, withoutKeys_eq ?_ h.byHeight, withoutKeys_eq ?_ h.byHeightIndexed]
  · intro key hmem
    obtain ⟨qc, -, rfl⟩ := mem_map.mp hmem
    exact (hnone qc.llmqType).2 _
  · intro key hmem
    obtain ⟨qc, -, rfl⟩ := mem_map.mp hmem
    exact (hnone qc.llmqType).1

/-! ### Undoing -/

lemma isSome_emplace {m : Uint256 → Option CFinalCommitment} {commitmentHash hash : Uint256}
    (h : hash = commitmentHash ∨ (m hash).isSome) :
    ((if (m commitmentHash).isSome then m else update m commitmentHash (some fqc)) hash).isSome := by
  by_cases hsome : (m commitmentHash).isSome
  · rw [if_pos hsome]
    rcases h with rfl | h
    · exact hsome
    · exact h
  · rw [if_neg hsome]
    by_cases heq : hash = commitmentHash
    · simp [heq]
    · rw [update_of_ne heq]
      exact h.resolve_left heq

section

variable (h : p.MinableOk rules seen)

include h

lemma addMineableCommitment_spec (hmem : fqc ∈ seen) :
    ∃ q, p.addMineableCommitment rules fqc = some q ∧ q.MinableOk rules seen ∧ q.tables = p.tables ∧
      q.mapHasMinedCommitmentCache = p.mapHasMinedCommitmentCache := by
  -- the quorum of the commitment gets its hash, the others keep theirs
  have hupdate : ∀ key hash, update p.minableCommitmentsByQuorum fqc.quorumKey
      (some (rules.serializeHash fqc)) key = some hash →
      (hash = rules.serializeHash fqc ∨ (p.minableCommitments hash).isSome) ∧
        ∃ qc ∈ seen, key = qc.quorumKey ∧ hash = rules.serializeHash qc := by
    intro key hash hkey
    by_cases heq : key = fqc.quorumKey
    · rw [heq, update_self] at hkey
      obtain rfl := some.inj hkey
      exact ⟨.inl rfl, fqc, hmem, heq, rfl⟩
    · rw [update_of_ne heq] at hkey
      exact ⟨.inr (h key hash hkey).1, (h key hash hkey).2⟩
  unfold addMineableCommitment
  cases hold : p.minableCommitmentsByQuorum fqc.quorumKey with
  | none =>
    refine ⟨_, rfl, fun key hash hkey => ⟨isSome_emplace ?_, (hupdate key hash hkey).2⟩, rfl, rfl⟩
    exact (hupdate key hash hkey).1
  | some oldHash =>
    obtain ⟨oldFqc, holdFqc⟩ := isSome_iff_exists.mp (h _ _ hold).1
    simp only [holdFqc, bind_eq_bind, bind_some]
    by_cases hmore : oldFqc.countSigners < fqc.countSigners
    · rw [if_pos hmore]
      refine ⟨_, rfl, fun key hash hkey => ⟨isSome_emplace ?_, (hupdate key hash hkey).2⟩, rfl, rfl⟩
      by_cases heq : hash = rules.serializeHash fqc
      · exact .inl heq
      · right
        rw [update_of_ne heq]
        exact (hupdate key hash hkey).1.resolve_left heq
    · rw [if_neg hmore]
      exact ⟨p, rfl, h, rfl, rfl⟩

/-- What is undone of a list of commitments. -/
structure Undone (rules : QuorumRules) (seen : List CFinalCommitment) (pindex : CBlockIndex) (p : CQuorumBlockProcessor)
    (qcs : List CFinalCommitment) (q : CQuorumBlockProcessor) : Prop where
  minable : q.MinableOk rules seen
  tables : q.tables = withoutBlock rules p.tables pindex qcs
  cached : ∀ key b, q.cached key = some b → key ∉ quorumKeys qcs ∧ p.cached key = some b

lemma undoCommitment_spec (hmem : qc ∈ seen) (hnull : qc.isNull = false)
    (hparams : rules.getLLMQParams qc.llmqType = some params) :
    ∃ q, p.undoCommitment rules pindex qc = some q ∧ q.MinableOk rules seen ∧
      q.tables = p.tables.unstore (rules.isQuorumRotationEnabled params pindex) pindex.nHeight qc ∧
      ∀ key b, q.cached key = some b → key ≠ qc.quorumKey ∧ p.cached key = some b := by
  unfold undoCommitment
  rw [if_neg (by simp [hnull])]
  simp only [hparams, bind_eq_bind, bind_some]
  generalize hp' : ({ p with
    tables := p.tables.unstore (rules.isQuorumRotationEnabled params pindex) pindex.nHeight qc
    mapHasMinedCommitmentCache := update p.mapHasMinedCommitmentCache qc.llmqType
      ((p.mapHasMinedCommitmentCache qc.llmqType).erase qc.quorumHash) } : CQuorumBlockProcessor) = p'
  have hminable : p'.MinableOk rules seen := by
    subst hp'
    exact h
  obtain ⟨q, hq, hok, htables, hcaches⟩ := addMineableCommitment_spec hminable hmem
  refine ⟨q, hq, hok, ?_, ?_⟩
  · rw [htables, ← hp']
  · intro key b hb
    rw [cached, hcaches, ← hp'] at hb
    exact cached_erase.mp hb

/-- The loop of `UndoBlock`. -/
lemma foldlM_undoCommitment (hseen : qcs ⊆ seen) (htypes : ∀ qc ∈ qcs, (rules.getLLMQParams qc.llmqType).isSome) :
    ∃ q, qcs.foldlM (undoCommitment rules · pindex ·) p = some q ∧ Undone rules seen pindex p qcs q := by
  induction qcs generalizing p with
  | nil => exact ⟨p, rfl, h, withoutBlock_nil.symm, fun _ _ hb => ⟨not_mem_nil, hb⟩⟩
  | cons qc qcs ih =>
    have htypes' : ∀ qc ∈ qcs, (rules.getLLMQParams qc.llmqType).isSome :=
      fun qc' hmem => htypes qc' (mem_cons_of_mem _ hmem)
    obtain ⟨hmem, hrest⟩ := cons_subset.mp hseen
    rw [foldlM_cons]
    cases hnull : qc.isNull with
    | true =>
      obtain ⟨q, hq, hundone⟩ := ih h hrest htypes'
      refine ⟨q, ?_, hundone.minable, ?_, ?_⟩
      · rw [undoCommitment, if_pos hnull]
        exact hq
      · rw [hundone.tables, withoutBlock_cons_null hnull]
      · rw [quorumKeys_cons_null hnull]
        exact hundone.cached
    | false =>
      obtain ⟨params, hparams⟩ := isSome_iff_exists.mp (htypes qc mem_cons_self)
      obtain ⟨q', hq', hminable, htables, hcached⟩ := undoCommitment_spec h hmem hnull hparams
      obtain ⟨q, hq, hundone⟩ := ih hminable hrest htypes'
      refine ⟨q, ?_, hundone.minable, ?_, ?_⟩
      · rw [hq']
        exact hq
      · rw [hundone.tables, htables, withoutBlock_unstore hnull hparams]
      · intro key b hb
        obtain ⟨hnot, hb⟩ := hundone.cached key b hb
        obtain ⟨hne, hb⟩ := hcached key b hb
        rw [quorumKeys_cons hnull]
        exact ⟨not_mem_cons_of_ne_of_not_mem hne hnot, hb⟩

end

lemma ProcessesAll.types {active : Option CBlockIndex}
    (h : ProcessesAll rules active nHeight blockHash fBLSChecks t qcs t') :
    ∀ qc ∈ qcs, (rules.getLLMQParams qc.llmqType).isSome := by
  induction h with
  | nil => exact fun _ hmem => (nomatch hmem)
  | null hbase _ _ ih =>
    intro qc hmem
    obtain rfl | hmem := mem_cons.mp hmem
    · simp [hbase.params_eq]
    · exact ih qc hmem
  | stored hstorable _ ih =>
    intro qc hmem
    obtain rfl | hmem := mem_cons.mp hmem
    · simp [hstorable.params_eq]
    · exact ih qc hmem

variable (rules) in
/-- The records after `UndoBlock`, which changes nothing where it returns false; `none` where it throws. -/
def undoneTables (p : CQuorumBlockProcessor) (block : CommitmentBlock) (pindex : CBlockIndex) : Option MinedTables :=
  match p.undoBlock rules block pindex with
  | .ok q => some q.tables
  | .error .aborted => none
  | .error _ => some p.tables

variable (rules seen) in
/-- `UndoBlock` of a block takes the records back; the caches are then right both for them and for the records with the
block, should the disconnection be given up. -/
def Restores (block : CommitmentBlock) (pindex : CBlockIndex) (t' t : MinedTables) : Prop :=
  ∀ p : CQuorumBlockProcessor, p.tables = t' → p.MinableOk rules seen → p.CachesRight t' →
    (∃ q, p.undoBlock rules block pindex = .ok q ∧ q.tables = t ∧ q.MinableOk rules seen ∧ q.CachesRight t ∧
      q.CachesRight t') ∨
      p.undoBlock rules block pindex = .error .failed ∧ t' = t

lemma Restores.undoneTables_eq
    (h : Restores rules seen block pindex p.tables t) (hminable : p.MinableOk rules seen)
    (hright : p.CachesRight p.tables) :
    p.undoneTables rules block pindex = some t := by
  unfold undoneTables
  obtain ⟨q, hq, htables, -⟩ | ⟨hq, htables⟩ := h p rfl hminable hright
  · rw [hq, ← htables]
  · rw [hq, ← htables]

lemma restores_of_early (h : pindex.nHeight < rules.DIP0003Height) : Restores rules seen block pindex t t := by
  intro p htables hminable hright
  unfold undoBlock
  cases hqcs : rules.getCommitmentsFromBlock block pindex with
  | error e => exact .inr ⟨rfl, rfl⟩
  | ok qcs =>
    obtain rfl : qcs = [] := by
      obtain ⟨ret, -, hrest⟩ := except_bind_eq_ok.mp hqcs
      by_cases hnil : ret = []
      · rw [if_neg fun hand => hand.2 hnil] at hrest
        rw [← Except.ok.inj hrest, hnil]
      · rw [if_pos ⟨h, hnil⟩] at hrest
        cases hrest
    exact .inl ⟨_, rfl, htables, hminable, hright, hright⟩

/-- `UndoBlock` takes back what an accepted block recorded. -/
lemma Accepts.restores (hsane : rules.Sane) (hknows : rules.Knows tip)
    (h : Accepts rules (some tip) t block (tip.child block.header) fBLSChecks qcs t')
    (hbelow : HeightsBelow t tip.nHeight) (hfits : (tip.child block.header).nHeight < 2 ^ 32)
    (hseen : block.commitments ⊆ seen) :
    Restores rules seen block (tip.child block.header) t' t := by
  have hrecords := h.all.records hsane hknows
  have heq : withoutBlock rules t' (tip.child block.header) qcs = t := by
    refine hrecords.withoutBlock_eq (hbelow.mono ?_) hfits
    rw [nHeight_child]
    omega
  intro p htables hminable hright
  obtain ⟨q, hq, hundone⟩ := foldlM_undoCommitment hminable
    (List.Subset.trans (perm_getCommitmentsFromBlock h.read).subset hseen) h.all.types
  have hback : q.tables = t := by rw [hundone.tables, htables, heq]
  refine .inl ⟨{ q with bestBlock := (tip.child block.header).pprev.map fun prev => rules.getBlockHash prev.header },
    ?_, hback, hundone.minable, ?_, ?_⟩
  · simp [undoBlock, h.read, hq]
  · intro key b hb
    obtain ⟨hnot, hb⟩ := hundone.cached key b hb
    rw [hright key b hb, hrecords.commitments key hnot]
  · intro key b hb
    exact hright key b (hundone.cached key b hb).2

end CQuorumBlockProcessor

end Blocx
