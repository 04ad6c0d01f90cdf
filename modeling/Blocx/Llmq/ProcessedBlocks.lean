import Blocx.Lib.Overlay
import Blocx.Llmq.BlockProcessor

/-!
# What processing a block does

The functions of `CQuorumBlockProcessor` taken apart once. `HasMinedCommitment` answers from the records as long as the
caches are right (`CachesRight`), and changes the caches only. `ProcessCommitment` refuses, accepts a null commitment,
checks a commitment, or stores it (`CommitmentResult`); a block that is accepted has the counts that are required and is
processed commitment by commitment (`ProcessesAll`).
-/

namespace Blocx

open List Option

open Function

open Consensus

namespace CQuorumBlockProcessor

variable {rules : QuorumRules} {active : Option CBlockIndex} {p p' q p'' : CQuorumBlockProcessor} {t : MinedTables}
  {llmqType : LLMQType} {quorumHash : Uint256} {key : LLMQType × Uint256} {params : QuorumParams} {nHeight : ℤ}
  {r : Except QuorumError Unit × CQuorumBlockProcessor} {qcs : List CFinalCommitment}

/-! ### Caches -/

/-- The cached answer for a quorum. -/
def cached (p : CQuorumBlockProcessor) (key : LLMQType × Uint256) : Option Bool :=
  (p.mapHasMinedCommitmentCache key.1).lookup key.2

/-- Every cached answer is what the records say. -/
def CachesRight (t : MinedTables) (p : CQuorumBlockProcessor) : Prop :=
  ∀ key b, p.cached key = some b → b = (t.commitments key).isSome

/-- Two processors that differ in their caches only. -/
structure SameRecords (p p' : CQuorumBlockProcessor) : Prop where
  tables : p'.tables = p.tables
  bestBlock : p'.bestBlock = p.bestBlock
  byQuorum : p'.minableCommitmentsByQuorum = p.minableCommitmentsByQuorum
  minable : p'.minableCommitments = p.minableCommitments

lemma SameRecords.refl (p : CQuorumBlockProcessor) : p.SameRecords p := ⟨rfl, rfl, rfl, rfl⟩

lemma SameRecords.trans (h : p.SameRecords p') (h' : p'.SameRecords p'') : p.SameRecords p'' :=
  ⟨h'.tables.trans h.tables, h'.bestBlock.trans h.bestBlock, h'.byQuorum.trans h.byQuorum, h'.minable.trans h.minable⟩

/-- The second processor has the records of the first one, and caches that are right for them. -/
structure Reads (p q : CQuorumBlockProcessor) : Prop where
  same : p.SameRecords q
  right : q.CachesRight p.tables

lemma Reads.refl (h : p.CachesRight p.tables) : p.Reads p := ⟨.refl p, h⟩

lemma Reads.caches (h : p.Reads q) : q.CachesRight q.tables := h.same.tables ▸ h.right

lemma Reads.trans {r : CQuorumBlockProcessor} (h : p.Reads q) (h' : q.Reads r) : p.Reads r :=
  ⟨h.same.trans h'.same, h.same.tables ▸ h'.right⟩

/-- Answers in the caches of the second processor are in those of the first, or are the record of this quorum. -/
def CachesMore (p : CQuorumBlockProcessor) (key : LLMQType × Uint256) (p' : CQuorumBlockProcessor) : Prop :=
  ∀ key' b, p'.cached key' = some b → p.cached key' = some b ∨ key' = key ∧ b = (p.tables.commitments key).isSome

lemma cachesMore_self : p.CachesMore key p := fun _ _ hb => .inl hb

lemma CachesRight.more (h : p.CachesRight t) (hmore : p.CachesMore key p')
    (hkey : p.tables.commitments key = t.commitments key) : p'.CachesRight t := by
  intro key' b hb
  obtain hb | ⟨rfl, rfl⟩ := hmore key' b hb
  · exact h key' b hb
  · rw [hkey]

/-- An answer in the cache after `HasMinedCommitment` was there before, or is the record that was read. -/
lemma cachesMore_hasMinedCommitment :
    p.CachesMore (llmqType, quorumHash) (p.hasMinedCommitment llmqType quorumHash).2 := by
  rintro ⟨type, hash⟩ b h
  replace h : (update p.mapHasMinedCommitmentCache llmqType
    ((p.mapHasMinedCommitmentCache llmqType).getThrough (p.isMined llmqType) quorumHash).2 type).lookup hash =
      some b := h
  by_cases htype : type = llmqType
  · subst htype
    rw [update_self] at h
    obtain h | ⟨rfl, rfl⟩ := LruCache.lookup_getThrough h
    · exact .inl h
    · exact .inr ⟨rfl, rfl⟩
  · rw [update_of_ne htype] at h
    exact .inl h

lemma hasMinedCommitment_spec (h : p.CachesRight t)
    (hkey : p.tables.commitments (llmqType, quorumHash) = t.commitments (llmqType, quorumHash)) :
    ∃ q, p.hasMinedCommitment llmqType quorumHash = (p.isMined llmqType quorumHash, q) ∧ p.SameRecords q ∧
      p.CachesMore (llmqType, quorumHash) q := by
  refine ⟨_, Prod.ext ?_ rfl, ⟨rfl, rfl, rfl, rfl⟩, cachesMore_hasMinedCommitment⟩
  show ((p.mapHasMinedCommitmentCache llmqType).getThrough (p.isMined llmqType) quorumHash).1 = _
  rw [LruCache.fst_getThrough]
  cases hlookup : (p.mapHasMinedCommitmentCache llmqType).lookup quorumHash with
  | none => rfl
  | some b => exact (h (llmqType, quorumHash) b hlookup).trans (congrArg Option.isSome hkey.symm)

section

variable (h : p.CachesRight p.tables)

include h

/-- `HasMinedCommitment` where the caches are right. -/
lemma hasMinedCommitment_reads (llmqType : LLMQType) (quorumHash : Uint256) :
    ∃ q, p.hasMinedCommitment llmqType quorumHash = (p.isMined llmqType quorumHash, q) ∧ p.Reads q := by
  obtain ⟨q, hq, hsame, hmore⟩ := hasMinedCommitment_spec h rfl
  exact ⟨q, hq, hsame, h.more hmore rfl⟩

/-! ### Required commitments -/

variable (rules active) in
/-- The quorum of an index has a base block and no record. -/
def required (t : MinedTables) (params : QuorumParams) (nHeight : ℤ) (quorumIndex : ℕ) : Bool :=
  rules.getQuorumBlockHash active params nHeight quorumIndex ≠ 0 &&
    (t.commitments (params.type, rules.getQuorumBlockHash active params nHeight quorumIndex)).isNone

lemma countRequired_spec {n quorumIndex : ℕ} : ∃ q, countRequired rules active params nHeight (n, p) quorumIndex =
      (n + (if required rules active p.tables params nHeight quorumIndex then 1 else 0), q) ∧ p.Reads q := by
  unfold countRequired required
  generalize rules.getQuorumBlockHash active params nHeight quorumIndex = quorumHash
  by_cases hnull : quorumHash = 0
  · exact ⟨p, by simp [hnull], .refl h⟩
  · obtain ⟨q, hq, hreads⟩ := hasMinedCommitment_reads h params.type quorumHash
    refine ⟨q, ?_, hreads⟩
    rw [if_neg hnull, hq]
    unfold isMined
    cases p.tables.commitments (params.type, quorumHash) with
    | none => simpa using hnull
    | some _ => simp

lemma foldl_countRequired (n : ℕ) (indexes : List ℕ) :
    ∃ q, indexes.foldl (countRequired rules active params nHeight) (n, p) =
      (n + indexes.countP (required rules active p.tables params nHeight), q) ∧ p.Reads q := by
  induction indexes generalizing n p with
  | nil => exact ⟨p, rfl, .refl h⟩
  | cons quorumIndex indexes ih =>
    obtain ⟨q, hq, hreads⟩ := countRequired_spec h
    obtain ⟨q', hq', hreads'⟩ := ih hreads.caches (n + _)
    refine ⟨q', ?_, hreads.trans hreads'⟩
    rw [foldl_cons, hq, hq', hreads.same.tables, countP_cons, Nat.add_assoc, Nat.add_comm (countP _ _)]

variable (rules active) in
/-- The number of commitments of a type that the records require. -/
def RequiredCount (t : MinedTables) (nHeight : ℤ) (params : QuorumParams) (n : ℕ) : Prop :=
  isMiningPhase active params nHeight = some false ∧ n = 0 ∨
    isMiningPhase active params nHeight = some true ∧ ∃ pindex, rotationBlock active nHeight = some pindex ∧
      n = (range (quorumsNum rules params pindex)).countP (required rules active t params nHeight)

/-- `GetNumCommitmentsRequired` where the caches are right. -/
lemma getNumCommitmentsRequired_spec {r : Option ℕ × CQuorumBlockProcessor}
    (hr : p.getNumCommitmentsRequired rules active params nHeight = r) :
    p.Reads r.2 ∧ ∀ n, r.1 = some n → RequiredCount rules active p.tables nHeight params n := by
  subst hr
  unfold getNumCommitmentsRequired
  split
  next hphase => exact ⟨.refl h, fun n hn => .inl ⟨hphase, (some.inj hn).symm⟩⟩
  next pindex hphase hblock =>
    obtain ⟨q, hq, hreads⟩ := foldl_countRequired h 0 (range (quorumsNum rules params pindex))
    rw [hq]
    refine ⟨hreads, fun n hn => .inr ⟨hphase, pindex, hblock, ?_⟩⟩
    rw [← some.inj hn, Nat.zero_add]
  next => exact ⟨.refl h, nofun⟩

/-- The loop over the enabled types: it changes the caches only, and accepts the right counts only. -/
lemma checkCounts_spec {enabled : List QuorumParams}
    (hr : p.checkCounts rules active nHeight qcs enabled = r) : p.Reads r.2 ∧ (r.1 = .ok () → ∀ params ∈ enabled,
      RequiredCount rules active p.tables nHeight params (qcs.countP (·.llmqType = params.type))) := by
  subst hr
  induction enabled generalizing p with
  | nil => exact ⟨.refl h, nofun⟩
  | cons params enabled ih =>
    rw [checkCounts]
    generalize hs : p.getNumCommitmentsRequired rules active params nHeight = s
    obtain ⟨hreads, hcount⟩ := getNumCommitmentsRequired_spec h hs
    obtain ⟨_ | n, q⟩ := s
    · exact ⟨hreads, nofun⟩
    · dsimp only at hreads hcount ⊢
      split_ifs with hless hmore
      · exact ⟨hreads, nofun⟩
      · exact ⟨hreads, nofun⟩
      · obtain ⟨hreads', hcounts⟩ := ih hreads.caches
        rw [hreads.same.tables] at hcounts
        refine ⟨hreads.trans hreads', fun hok params' hmem => ?_⟩
        obtain rfl | hmem := mem_cons.mp hmem
        · have hn : qcs.countP (·.llmqType = params'.type) = n := by omega
          rw [hn]
          exact hcount n rfl
        · exact hcounts hok params' hmem

end

/-! ### Commitments -/

lemma type_of_getLLMQParams (h : rules.getLLMQParams llmqType = some params) : params.type = llmqType := by
  simpa using find?_some h

variable {blockHash : Uint256} {fJustCheck fBLSChecks b : Bool} {qc : CFinalCommitment} {base : CBlockIndex}

variable (rules active) in
/-- What `ProcessCommitment` checks of every commitment: its base block is the one of its index in the cycle. -/
structure BaseOk (nHeight : ℤ) (qc : CFinalCommitment) (params : QuorumParams) : Prop where
  params_eq : rules.getLLMQParams qc.llmqType = some params
  hash_eq : active.isSome → rules.getQuorumBlockHash active params nHeight qc.quorumIndex.toInt = qc.quorumHash
  hash_ne : qc.quorumHash ≠ 0

variable (rules active) in
/-- What it checks of a commitment that is not null. -/
structure Storable (nHeight : ℤ) (fBLSChecks : Bool) (t : MinedTables) (qc : CFinalCommitment) (params : QuorumParams)
    (base : CBlockIndex) : Prop extends BaseOk rules active nHeight qc params where
  notNull : qc.isNull = false
  notMined : t.commitments qc.quorumKey = none
  phase : isMiningPhase active params nHeight = some true
  base_eq : rules.lookupBlockIndex qc.quorumHash = some base
  verified : qc.verify rules base fBLSChecks

/-- How `ProcessCommitment` ends. -/
inductive CommitmentResult (rules : QuorumRules) (active : Option CBlockIndex) (p : CQuorumBlockProcessor) (nHeight : ℤ)
    (blockHash : Uint256) (fJustCheck fBLSChecks : Bool) (qc : CFinalCommitment) :
    Except QuorumError Unit × CQuorumBlockProcessor → Prop where
  | refused {e : QuorumError} {p' : CQuorumBlockProcessor} (hsame : p.SameRecords p')
    (hmore : p.CachesMore qc.quorumKey p') :
    CommitmentResult rules active p nHeight blockHash fJustCheck fBLSChecks qc (.error e, p')
  /-- It accepts a null commitment. -/
  | null {params : QuorumParams} (hbase : BaseOk rules active nHeight qc params) (hnull : qc.isNull) :
    CommitmentResult rules active p nHeight blockHash fJustCheck fBLSChecks qc (.ok (), p)
  /-- It has only checked the commitment. -/
  | checked {p' : CQuorumBlockProcessor} (hsame : p.SameRecords p') (hmore : p.CachesMore qc.quorumKey p')
    (hcheck : fJustCheck) :
    CommitmentResult rules active p nHeight blockHash fJustCheck fBLSChecks qc (.ok (), p')
  /-- It stores the commitment. -/
  | stored {params : QuorumParams} {base : CBlockIndex} {p' : CQuorumBlockProcessor} (hsame : p.SameRecords p')
    (hmore : p.CachesMore qc.quorumKey p') (hcheck : fJustCheck = false)
    (hstorable : Storable rules active nHeight fBLSChecks p.tables qc params base) :
    CommitmentResult rules active p nHeight blockHash fJustCheck fBLSChecks qc
      (.ok (), p'.storeCommitment rules params nHeight blockHash qc base)

lemma baseOk_of (hparams : rules.getLLMQParams qc.llmqType = some params)
    (hhash : (if active.isNone then qc.quorumHash
      else rules.getQuorumBlockHash active params nHeight qc.quorumIndex.toInt) = qc.quorumHash)
    (hzero : ¬ qc.quorumHash = 0) : BaseOk rules active nHeight qc params where
  params_eq := hparams
  hash_eq hsome := by
    rw [isNone_eq_false_iff.mpr hsome] at hhash
    exact hhash
  hash_ne := hzero

lemma processCommitment_spec (h : p.CachesRight t)
    (hkey : p.tables.commitments qc.quorumKey = t.commitments qc.quorumKey)
    (hr : p.processCommitment rules active nHeight blockHash fJustCheck fBLSChecks qc = r) :
    CommitmentResult rules active p nHeight blockHash fJustCheck fBLSChecks qc r := by
  subst hr
  unfold processCommitment
  split
  next => exact .refused (.refl p) (cachesMore_self)
  next params hparams =>
    generalize hexpected : (if active.isNone then qc.quorumHash
      else rules.getQuorumBlockHash active params nHeight qc.quorumIndex.toInt) = quorumHash
    by_cases hzero : quorumHash = 0
    · rw [if_pos hzero]
      exact .refused (.refl p) (cachesMore_self)
    by_cases hne : quorumHash ≠ qc.quorumHash
    · rw [if_neg hzero, if_pos hne]
      exact .refused (.refl p) (cachesMore_self)
    obtain rfl := not_not.mp hne
    rw [if_neg hzero, if_neg hne]
    by_cases hnull : qc.isNull
    · split_ifs
      · exact .refused (.refl p) (cachesMore_self)
      · exact .null (baseOk_of hparams hexpected hzero) hnull
    · rw [if_neg hnull, type_of_getLLMQParams hparams]
      obtain ⟨q, hq, hsame, hmore⟩ := hasMinedCommitment_spec h hkey
      rw [hq]
      dsimp only
      by_cases hmined : p.isMined qc.llmqType qc.quorumHash
      · rw [if_pos hmined]
        exact .refused hsame hmore
      · rw [if_neg hmined]
        split
        next => exact .refused hsame hmore
        next => exact .refused hsame hmore
        next hphase =>
          split
          next => exact .refused hsame hmore
          next base hbase =>
            split_ifs with hverify hcheck
            · exact .refused hsame hmore
            · exact .checked hsame hmore hcheck
            · refine .stored hsame hmore (by simpa using hcheck) ⟨baseOk_of hparams hexpected hzero, ?_, ?_,
                hphase, hbase, ?_⟩
              · simpa using hnull
              · simpa [isMined, CFinalCommitment.quorumKey] using hmined
              · simpa using hverify

lemma processCommitment_null (hnull : qc.isNull)
    (hr : p.processCommitment rules active nHeight blockHash fJustCheck fBLSChecks qc = r) :
    (∃ e, r = (.error e, p)) ∨ r = (.ok (), p) := by
  subst hr
  unfold processCommitment
  split
  next => exact .inl ⟨_, rfl⟩
  next params hparams =>
    dsimp only
    split_ifs <;> simp

/-! ### Storing -/

lemma cached_erase {caches : LLMQType → LruCache Uint256 Bool} :
    (update caches qc.llmqType ((caches qc.llmqType).erase qc.quorumHash) key.1).lookup key.2 = some b ↔
      key ≠ qc.quorumKey ∧ (caches key.1).lookup key.2 = some b := by
  obtain ⟨type, hash⟩ := key
  by_cases htype : type = qc.llmqType
  · subst htype
    rw [update_self, LruCache.lookup_erase]
    simp [CFinalCommitment.quorumKey]
  · simp [CFinalCommitment.quorumKey, htype]

lemma cached_storeCommitment : (p.storeCommitment rules params nHeight blockHash qc base).cached key = some b ↔
      key ≠ qc.quorumKey ∧ p.cached key = some b := cached_erase

lemma CachesRight.storeCommitment (h : p.CachesRight p.tables) :
    (p.storeCommitment rules params nHeight blockHash qc base).CachesRight
      (p.storeCommitment rules params nHeight blockHash qc base).tables := by
  intro key b hb
  obtain ⟨hne, hb⟩ := cached_storeCommitment.mp hb
  show b = (update p.tables.commitments qc.quorumKey _ key).isSome
  rw [update_of_ne hne]
  exact h key b hb

variable (rules) in
def MinableOk (seen : List CFinalCommitment) (p : CQuorumBlockProcessor) : Prop :=
  ∀ key hash, p.minableCommitmentsByQuorum key = some hash →
    (p.minableCommitments hash).isSome ∧ ∃ qc ∈ seen, key = qc.quorumKey ∧ hash = rules.serializeHash qc

variable (rules) in
/-- Commitments of different quorums have different hashes. -/
def Collisionless (seen : List CFinalCommitment) : Prop :=
  ∀ qc ∈ seen, ∀ qc' ∈ seen, rules.serializeHash qc = rules.serializeHash qc' → qc.quorumKey = qc'.quorumKey

variable {seen qcs' ret : List CFinalCommitment} {pindex : CBlockIndex} {block : CommitmentBlock}

variable (rules) in
/-- What is kept to be mined is dropped for some of the commitments, none of which is null. -/
def Drops (qcs : List CFinalCommitment) (p p' : CQuorumBlockProcessor) : Prop :=
  ∃ dropped : List CFinalCommitment, (∀ qc ∈ dropped, qc ∈ qcs ∧ qc.isNull = false) ∧
    p'.minableCommitmentsByQuorum = withoutKeys p.minableCommitmentsByQuorum (dropped.map (·.quorumKey)) ∧
    p'.minableCommitments = withoutKeys p.minableCommitments (dropped.map rules.serializeHash)

lemma SameRecords.drops (h : p.SameRecords p') (qcs : List CFinalCommitment) : p.Drops rules qcs p' :=
  ⟨[], by simp, by simp [h.byQuorum], by simp [h.minable]⟩

lemma SameRecords.drops_trans (h : p.SameRecords p') (hdrops : p'.Drops rules qcs p'') (hsub : qcs ⊆ qcs') :
    p.Drops rules qcs' p'' := by
  obtain ⟨dropped, hmem, hkeys, hhashes⟩ := hdrops
  rw [h.byQuorum] at hkeys
  rw [h.minable] at hhashes
  exact ⟨dropped, fun qc hqc => ⟨hsub (hmem qc hqc).1, (hmem qc hqc).2⟩, hkeys, hhashes⟩

lemma drops_storeCommitment
    (hnull : qc.isNull = false) (h : (p.storeCommitment rules params nHeight blockHash qc base).Drops rules qcs p') :
    p.Drops rules (qc :: qcs) p' := by
  obtain ⟨dropped, hmem, hkeys, hhashes⟩ := h
  refine ⟨qc :: dropped, forall_mem_cons.mpr ⟨⟨mem_cons_self, hnull⟩, ?_⟩, ?_, ?_⟩
  · exact fun qc' hqc' => ⟨mem_cons_of_mem _ (hmem qc' hqc').1, (hmem qc' hqc').2⟩
  · exact hkeys.trans (withoutKeys_update _ _ _)
  · exact hhashes.trans (withoutKeys_update _ _ _)

lemma MinableOk.drops (h : p.MinableOk rules seen)
    (hcollisionless : Collisionless rules seen) (hdrops : p.Drops rules qcs p') (hseen : qcs ⊆ seen) :
    p'.MinableOk rules seen := by
  obtain ⟨dropped, hmem, hkeys, hhashes⟩ := hdrops
  intro key hash hkey
  rw [hkeys, withoutKeys_eq_some_iff] at hkey
  obtain ⟨hsome, qc', hmem', rfl, rfl⟩ := h key hash hkey.2
  refine ⟨?_, qc', hmem', rfl, rfl⟩
  rw [hhashes, withoutKeys_of_notMem]
  · exact hsome
  · intro hdropped
    obtain ⟨qc, hqc, heq⟩ := mem_map.mp hdropped
    refine hkey.1 (mem_map.mpr ⟨qc, hqc, ?_⟩)
    exact hcollisionless qc (hseen (hmem qc hqc).1) qc' hmem' heq

/-! ### All commitments of a block -/

variable (rules active) in
/-- The records from which, and to which, the commitments of a block are processed. -/
inductive ProcessesAll (nHeight : ℤ) (blockHash : Uint256) (fBLSChecks : Bool) :
    MinedTables → List CFinalCommitment → MinedTables → Prop where
  | nil {t : MinedTables} : ProcessesAll nHeight blockHash fBLSChecks t [] t
  | null {t t' : MinedTables} {qc : CFinalCommitment} {qcs : List CFinalCommitment} {params : QuorumParams}
    (hbase : BaseOk rules active nHeight qc params) (hnull : qc.isNull)
    (rest : ProcessesAll nHeight blockHash fBLSChecks t qcs t') :
    ProcessesAll nHeight blockHash fBLSChecks t (qc :: qcs) t'
  | stored {t t' : MinedTables} {qc : CFinalCommitment} {qcs : List CFinalCommitment} {params : QuorumParams}
    {base : CBlockIndex} (hstorable : Storable rules active nHeight fBLSChecks t qc params base)
    (rest : ProcessesAll nHeight blockHash fBLSChecks
      (t.store (rules.isQuorumRotationEnabled params base) nHeight blockHash qc base.nHeight) qcs t') :
    ProcessesAll nHeight blockHash fBLSChecks t (qc :: qcs) t'

lemma processCommitments_spec (h : p.CachesRight p.tables)
    (hr : p.processCommitments rules active nHeight blockHash fJustCheck fBLSChecks qcs = r) :
    r.2.CachesRight r.2.tables ∧ p.Drops rules qcs r.2 ∧ (r.1 = .ok () → fJustCheck = false →
      ProcessesAll rules active nHeight blockHash fBLSChecks p.tables qcs r.2.tables) := by
  subst hr
  induction qcs generalizing p with
  | nil => exact ⟨h, (SameRecords.refl p).drops [], fun _ _ => .nil⟩
  | cons qc qcs ih =>
    have hsub : qcs ⊆ qc :: qcs := subset_cons_self qc qcs
    rw [processCommitments]
    generalize hs : p.processCommitment rules active nHeight blockHash fJustCheck fBLSChecks qc = s
    cases processCommitment_spec h rfl hs with
    | refused hsame hmore =>
      exact ⟨hsame.tables ▸ h.more hmore rfl, hsame.drops _, nofun⟩
    | null hbase hnull =>
      obtain ⟨hright, hdrops, hall⟩ := ih h
      exact ⟨hright, (SameRecords.refl p).drops_trans hdrops hsub,
        fun hok hcheck => .null hbase hnull (hall hok hcheck)⟩
    | checked hsame hmore hcheck =>
      obtain ⟨hright, hdrops, -⟩ := ih (hsame.tables ▸ h.more hmore rfl)
      refine ⟨hright, hsame.drops_trans hdrops hsub, fun _ hfalse => ?_⟩
      rw [hfalse] at hcheck
      cases hcheck
    | stored hsame hmore hcheck hstorable =>
      obtain ⟨hright, hdrops, hall⟩ := ih (CachesRight.storeCommitment (hsame.tables ▸ h.more hmore rfl))
      refine ⟨hright, hsame.drops_trans (drops_storeCommitment hstorable.notNull hdrops) (List.Subset.refl _), ?_⟩
      intro hok hfalse
      refine .stored hstorable ?_
      have hall := hall hok hfalse
      rw [← hsame.tables]
      exact hall

/-- No two of the commitments that are not null are for one quorum. -/
def Distinct (qcs : List CFinalCommitment) : Prop :=
  qcs.Pairwise fun qc qc' => qc.isNull = false → qc'.isNull = false → qc.quorumKey ≠ qc'.quorumKey

/-- After commitments of distinct quorums were processed, the caches are right for the records before, too. -/
lemma processCommitments_rollback (h : p.CachesRight t)
    (hkeys : ∀ qc ∈ qcs, qc.isNull = false → p.tables.commitments qc.quorumKey = t.commitments qc.quorumKey)
    (hdistinct : fJustCheck = false → Distinct qcs)
    (hr : p.processCommitments rules active nHeight blockHash fJustCheck fBLSChecks qcs = r) : r.2.CachesRight t := by
  subst hr
  induction qcs generalizing p with
  | nil => exact h
  | cons qc qcs ih =>
    have hrest : fJustCheck = false → Distinct qcs := fun hcheck => (pairwise_cons.mp (hdistinct hcheck)).2
    have hkeys' : ∀ qc' ∈ qcs, qc'.isNull = false → p.tables.commitments qc'.quorumKey = t.commitments qc'.quorumKey :=
      fun qc' hmem => hkeys qc' (mem_cons_of_mem _ hmem)
    rw [processCommitments]
    generalize hs : p.processCommitment rules active nHeight blockHash fJustCheck fBLSChecks qc = s
    by_cases hnull : qc.isNull
    · obtain ⟨e, rfl⟩ | rfl := processCommitment_null hnull hs
      · exact h
      · exact ih h hkeys' hrest
    · have hkey := hkeys qc mem_cons_self (by simpa using hnull)
      cases processCommitment_spec h hkey hs with
      | refused hsame hmore => exact h.more hmore hkey
      | null hbase hnull' => exact absurd hnull' hnull
      | checked hsame hmore hcheck => exact ih (h.more hmore hkey) (hsame.tables ▸ hkeys') hrest
      | stored hsame hmore hcheck hstorable =>
        refine ih (fun key b hb => h.more hmore hkey key b (cached_storeCommitment.mp hb).2) ?_ hrest
        intro qc' hmem hnull'
        have hne := (pairwise_cons.mp (hdistinct hcheck)).1 qc' hmem hstorable.notNull hnull'
        show update _ qc.quorumKey _ qc'.quorumKey = _
        rw [update_of_ne hne.symm, hsame.tables]
        exact hkeys' qc' hmem hnull'

/-! ### Blocks -/

lemma perm_emplaceCommitment : (emplaceCommitment ret qc).Perm (qc :: ret) := by
  refine perm_middle.trans (List.Perm.cons qc ?_)
  rw [takeWhile_append_dropWhile]

lemma perm_foldlM_addCommitment {payloads : List (Option CFinalCommitment)}
    (h : payloads.foldlM (rules.addCommitment pindex) ret = .ok qcs) : qcs.Perm (payloads.reduceOption ++ ret) := by
  induction payloads generalizing ret with
  | nil =>
    obtain rfl := Except.ok.inj h
    exact List.Perm.refl _
  | cons payload payloads ih =>
    obtain ⟨ret', hadd, hrest⟩ := except_bind_eq_ok.mp h
    unfold QuorumRules.addCommitment at hadd
    cases payload with
    | none => cases hadd
    | some qc =>
      cases hparams : rules.getLLMQParams qc.llmqType with
      | none => simp [hparams] at hadd
      | some params =>
        simp only [hparams] at hadd
        split_ifs at hadd
        obtain rfl := Except.ok.inj hadd
        refine (ih hrest).trans (((perm_emplaceCommitment).append_left _).trans ?_)
        exact perm_middle

lemma perm_getCommitmentsFromBlock (h : rules.getCommitmentsFromBlock block pindex = .ok qcs) :
    qcs.Perm block.commitments := by
  obtain ⟨ret, hret, hrest⟩ := except_bind_eq_ok.mp h
  split_ifs at hrest
  · obtain ⟨_, hthrow, -⟩ := except_bind_eq_ok.mp hrest
    cases hthrow
  · obtain rfl := Except.ok.inj hrest
    simpa [CommitmentBlock.commitments] using perm_foldlM_addCommitment hret

lemma Distinct.perm (h : Distinct qcs) (hperm : qcs.Perm qcs') : Distinct qcs' := by
  refine (hperm.pairwise_iff ?_).mp h
  intro qc qc' hne hnull' hnull
  exact (hne hnull hnull').symm

variable (rules active) in
/-- A block is accepted at a height with masternode lists. -/
structure Accepts (t : MinedTables) (block : CommitmentBlock) (pindex : CBlockIndex) (fBLSChecks : Bool)
    (qcs : List CFinalCommitment) (t' : MinedTables) : Prop where
  late : rules.DIP0003Height ≤ pindex.nHeight
  read : rules.getCommitmentsFromBlock block pindex = .ok qcs
  counts : active.isSome → ∀ params ∈ pindex.pprev.elim [] rules.getEnabledQuorumParams,
    RequiredCount rules active t pindex.nHeight params (qcs.countP (·.llmqType = params.type))
  all : ProcessesAll rules active pindex.nHeight (rules.getBlockHash block.header) fBLSChecks t qcs t'

variable (rules active) in
/-- The types whose commitments are counted: those enabled before the block, none while blocks are replayed. -/
def countedParams (pindex : CBlockIndex) : List QuorumParams :=
  if active.isNone then [] else pindex.pprev.elim [] rules.getEnabledQuorumParams

/-- How `ProcessBlock` ends. -/
inductive BlockResult (rules : QuorumRules) (active : Option CBlockIndex) (p : CQuorumBlockProcessor)
    (block : CommitmentBlock) (pindex : CBlockIndex) (fJustCheck fBLSChecks : Bool) :
    Except QuorumError Unit × CQuorumBlockProcessor → Prop where
  /-- There are no masternode lists yet. -/
  | early (hearly : pindex.nHeight < rules.DIP0003Height) :
    BlockResult rules active p block pindex fJustCheck fBLSChecks
      (.ok (), { p with bestBlock := some (rules.getBlockHash block.header) })
  /-- The commitments cannot be read. -/
  | unread {e : QuorumError} : BlockResult rules active p block pindex fJustCheck fBLSChecks (.error e, p)
  /-- There are too few or too many. -/
  | miscounted {qcs : List CFinalCommitment} {e : QuorumError} {q : CQuorumBlockProcessor}
    (hcounts : p.checkCounts rules active pindex.nHeight qcs (countedParams rules active pindex) = (.error e, q)) :
    BlockResult rules active p block pindex fJustCheck fBLSChecks (.error e, q)
  /-- One of them is refused, or all are accepted. -/
  | processed {qcs : List CFinalCommitment} {q r : CQuorumBlockProcessor} {result : Except QuorumError Unit}
    {bestBlock : Option Uint256} (hlate : rules.DIP0003Height ≤ pindex.nHeight)
    (hread : rules.getCommitmentsFromBlock block pindex = .ok qcs)
    (hcounts : p.checkCounts rules active pindex.nHeight qcs (countedParams rules active pindex) = (.ok (), q))
    (hall : q.processCommitments rules active pindex.nHeight (rules.getBlockHash block.header) fJustCheck
      fBLSChecks qcs =
      (result, r)) :
    BlockResult rules active p block pindex fJustCheck fBLSChecks (result, { r with bestBlock })

variable (h : p.CachesRight p.tables) (hr : p.processBlock rules active block pindex fJustCheck fBLSChecks = r)

include hr

lemma processBlock_result : BlockResult rules active p block pindex fJustCheck fBLSChecks r := by
  subst hr
  unfold processBlock
  dsimp only
  by_cases hearly : pindex.nHeight < rules.DIP0003Height
  · rw [if_pos hearly]
    exact .early hearly
  rw [if_neg hearly]
  split
  next => exact .unread
  next qcs hread =>
    split
    next hcounts => exact .miscounted hcounts
    next hcounts =>
      split
      next hall => exact .processed (not_lt.mp hearly) hread hcounts hall
      next hall => exact .processed (not_lt.mp hearly) hread hcounts hall

include h

lemma processBlock_spec : r.2.CachesRight r.2.tables ∧ p.Drops rules block.commitments r.2 ∧
    (r.1 = .ok () → fJustCheck = false →
      pindex.nHeight < rules.DIP0003Height ∧ r.2.tables = p.tables ∨
        ∃ qcs, Accepts rules active p.tables block pindex fBLSChecks qcs r.2.tables) := by
  cases processBlock_result hr with
  | early hearly => exact ⟨h, (SameRecords.refl p).drops _, fun _ _ => .inl ⟨hearly, rfl⟩⟩
  | unread => exact ⟨h, (SameRecords.refl p).drops _, nofun⟩
  | miscounted hcounts =>
    obtain ⟨hreads, -⟩ := checkCounts_spec h hcounts
    exact ⟨hreads.caches, hreads.same.drops _, nofun⟩
  | processed hlate hread hcounts hall =>
    obtain ⟨hreads, hcount⟩ := checkCounts_spec h hcounts
    obtain ⟨hright, hdrops, hprocessed⟩ := processCommitments_spec hreads.caches hall
    rw [hreads.same.tables] at hprocessed
    refine ⟨hright, hreads.same.drops_trans hdrops (perm_getCommitmentsFromBlock hread).subset,
      fun hok hcheck => .inr ⟨_, hlate, hread, ?_, hprocessed hok hcheck⟩⟩
    intro hsome
    have hcount := hcount rfl
    rw [countedParams, isNone_eq_false_iff.mpr hsome, if_neg Bool.false_ne_true] at hcount
    exact hcount

/-- Should the connection of the block be given up, the caches are right for the records before it, too. -/
lemma processBlock_rollback (hdistinct : fJustCheck = false → Distinct block.commitments) :
    r.2.CachesRight p.tables := by
  cases processBlock_result hr with
  | early hearly | unread => exact h
  | miscounted hcounts => exact (checkCounts_spec h hcounts).1.right
  | processed hlate hread hcounts hall =>
    obtain ⟨hreads, -⟩ := checkCounts_spec h hcounts
    have hback := processCommitments_rollback hreads.right (fun _ _ _ => by rw [hreads.same.tables])
      (fun hcheck => (hdistinct hcheck).perm (perm_getCommitmentsFromBlock hread).symm) hall
    exact hback

end CQuorumBlockProcessor

end Blocx
