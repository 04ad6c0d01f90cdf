import Blocx.Lib.Runs
import Blocx.Llmq.MinedRecords

/-!
# Records of mined commitments over whole runs

A run of the quorum block processor: blocks are connected to the tip and disconnected from it, commitments come to be
mined, and threads ask whether a quorum has a mined commitment. `HasMinedCommitment` looks into the cache, reads the
database and enters what it read into the cache, three steps between which other threads go on; the block that is
connected or disconnected meanwhile erases an entry of the cache that is not there yet. The caller of `ProcessBlock` and
`UndoBlock` has a transaction of the evo database, which it rolls back if the block is not connected after all; the
caches are not rolled back.

In a run in which no outdated answer is entered into the cache, and no block has two commitments for one quorum, a
question that is asked after the last change of the chain is answered from the database, and `UndoBlock` takes back
exactly what `ProcessBlock` recorded. Either condition is needed.
-/

namespace Blocx

open Function Option

open Consensus CQuorumBlockProcessor

/-- A call of `HasMinedCommitment` that has not found its answer in the cache. -/
structure HasCall where
  llmqType : LLMQType
  quorumHash : Uint256
  /-- What the database said, once it was read. -/
  fExists : Option Bool := none
  /-- There was no change of the chain since the call started. -/
  fresh : Bool := true

/-- A block that is connected, with what was there before it. -/
structure ConnectedBlock where
  block : CommitmentBlock
  /-- The tip before. -/
  before : CBlockIndex
  /-- The records before. -/
  tables : MinedTables

/-- The processor, the chain, and the calls in progress. -/
structure MinedRun where
  processor : CQuorumBlockProcessor
  tip : CBlockIndex
  /-- Blocks that were connected, the last one first. -/
  connected : List ConnectedBlock := []
  calls : ℕ → Option HasCall := fun _ => none

/-- What happens in a run. -/
inductive MinedEvent where
  /-- `ProcessBlock` for a block on the tip. Its caller may give up the connection of a block that was accepted. -/
  | connect (block : CommitmentBlock) (fJustCheck fBLSChecks commits : Bool)
  /-- `UndoBlock` for the tip. Its caller may give up the disconnection. -/
  | disconnect (commits : Bool)
  | addMineable (fqc : CFinalCommitment)
  /-- A call of `HasMinedCommitment` looks into the cache. -/
  | lookupHas (id : ℕ) (llmqType : LLMQType) (quorumHash : Uint256)
  /-- It reads the database. -/
  | readHas (id : ℕ)
  /-- It enters what it read into the cache and returns it. -/
  | insertHas (id : ℕ)

/-- The commitments that come with an event. -/
def MinedEvent.commitments : MinedEvent → List CFinalCommitment
  | .connect block _ _ _ => block.commitments
  | .addMineable fqc => [fqc]
  | _ => []

namespace MinedRun

variable (rules : QuorumRules) (s : MinedRun) {id : ℕ}

/-- The run before the first event: the genesis block and empty tables and caches. -/
def initial (genesis : CBlockHeader) (cacheSizes : LLMQType → ℕ × ℕ) : MinedRun where
  processor := { mapHasMinedCommitmentCache := fun llmqType =>
    { maxSize := (cacheSizes llmqType).1, truncateThreshold := (cacheSizes llmqType).2 } }
  tip := ⟨genesis, []⟩

/-- The caches with another one for a type. -/
def withCache (llmqType : LLMQType) (cache : LruCache Uint256 Bool) : CQuorumBlockProcessor :=
  { s.processor with
    mapHasMinedCommitmentCache := update s.processor.mapHasMinedCommitmentCache llmqType cache }

/-- The database as before, the memory of another processor. -/
def rolledBack (p : CQuorumBlockProcessor) : CQuorumBlockProcessor :=
  { p with tables := s.processor.tables, bestBlock := s.processor.bestBlock }

/-- The calls after a change of the chain. -/
def outdatedCalls (id : ℕ) : Option HasCall := (s.calls id).map ({ · with fresh := false })

def process (block : CommitmentBlock) (fJustCheck fBLSChecks : Bool) :
    Except QuorumError Unit × CQuorumBlockProcessor :=
  s.processor.processBlock rules (some s.tip) block (s.tip.child block.header) fJustCheck fBLSChecks

def step : MinedEvent → MinedRun
  | .connect block fJustCheck fBLSChecks commits =>
    match s.process rules block fJustCheck fBLSChecks with
    | (.ok (), p) =>
      if commits ∧ !fJustCheck then
        { processor := p, tip := s.tip.child block.header, calls := s.outdatedCalls,
          connected := ⟨block, s.tip, s.processor.tables⟩ :: s.connected }
      else { s with processor := s.rolledBack p }
    | (.error _, p) => { s with processor := s.rolledBack p }
  | .disconnect commits =>
    match s.connected with
    | [] => s
    | last :: connected =>
      match s.processor.undoBlock rules last.block s.tip with
      | .error _ => s
      | .ok p =>
        if commits then { processor := p, tip := last.before, calls := s.outdatedCalls, connected }
        else { s with processor := s.rolledBack p }
  | .addMineable fqc =>
    match s.processor.addMineableCommitment rules fqc with
    | some p => { s with processor := p }
    | none => s
  | .lookupHas id llmqType quorumHash =>
    let (fExists, cache) := (s.processor.mapHasMinedCommitmentCache llmqType).get quorumHash
    { s with
      processor := s.withCache llmqType cache
      calls := if fExists.isSome then s.calls else update s.calls id (some { llmqType, quorumHash }) }
  | .readHas id =>
    match s.calls id with
    | some call =>
      let call := { call with fExists := some (s.processor.isMined call.llmqType call.quorumHash) }
      { s with calls := update s.calls id (some call) }
    | none => s
  | .insertHas id =>
    match s.calls id with
    | some ⟨llmqType, quorumHash, some fExists, _⟩ =>
      { s with
        processor := s.withCache llmqType ((s.processor.mapHasMinedCommitmentCache llmqType).insert quorumHash fExists)
        calls := update s.calls id none }
    | _ => s

/-! ### What holds along a run -/

def answer : MinedEvent → Option (HasCall × Bool)
  | .lookupHas _ llmqType quorumHash =>
    (s.processor.cached (llmqType, quorumHash)).map fun fExists => ({ llmqType, quorumHash }, fExists)
  | .insertHas id => do
    let call ← s.calls id
    let fExists ← call.fExists
    return (call, fExists)
  | _ => none

/-- A call that started after the last change of the chain returns whether there is a record. -/
def Answers (e : MinedEvent) : Prop :=
  ∀ a ∈ s.answer e, a.1.fresh → a.2 = s.processor.isMined a.1.llmqType a.1.quorumHash

/-- A block that is accepted can be undone at once, and the last block that was connected can be undone, with the
records that were there before. -/
def Reversible : MinedEvent → Prop
  | .connect block fJustCheck fBLSChecks _ =>
    (s.process rules block fJustCheck fBLSChecks).1 = .ok () → fJustCheck = false →
      (s.process rules block fJustCheck fBLSChecks).2.undoneTables rules block (s.tip.child block.header) =
        some s.processor.tables
  | .disconnect _ => ∀ last ∈ s.connected.head?, s.processor.undoneTables rules last.block s.tip = some last.tables
  | _ => True

/-- The records are exact and reversible. -/
def Exact (e : MinedEvent) : Prop := s.Answers e ∧ s.Reversible rules e

/-! ### Runs -/

/-- What a run can rely on when a block is connected: the block index has the blocks of the chain, and heights are
32-bit integers. -/
def Sound : MinedEvent → Prop
  | .connect block _ _ _ => rules.Knows s.tip ∧ (s.tip.child block.header).nHeight < 2 ^ 31
  | _ => True

/-- No two commitments of a block are for one quorum, and a call that was overtaken by a change of the chain enters only
what is still so. -/
def Undisturbed : MinedEvent → Prop
  | .connect block fJustCheck _ _ => fJustCheck = false → Distinct block.commitments
  | .insertHas id => ∀ call ∈ s.calls id, ∀ fExists ∈ call.fExists, call.fresh = false →
      fExists = s.processor.isMined call.llmqType call.quorumHash
  | _ => True

/-! ### The invariant -/

variable {rules} {s} {seen : List CFinalCommitment} {block : CommitmentBlock} {n : ℕ}

/-- Every block that is connected can be undone, down to the first. -/
inductive Linked (rules : QuorumRules) (seen : List CFinalCommitment) :
    CBlockIndex → MinedTables → List ConnectedBlock → Prop where
  | nil {tip : CBlockIndex} {t : MinedTables} (hbelow : HeightsBelow t tip.nHeight) : Linked rules seen tip t []
  | cons {last : ConnectedBlock} {t : MinedTables} {connected : List ConnectedBlock}
    (hbelow : HeightsBelow t (last.before.child last.block.header).nHeight)
    (hrestores : Restores rules seen last.block (last.before.child last.block.header) t last.tables)
    (hlinked : Linked rules seen last.before last.tables connected) :
    Linked rules seen (last.before.child last.block.header) t (last :: connected)

lemma Linked.heightsBelow {tip : CBlockIndex} {t : MinedTables} {connected : List ConnectedBlock}
    (h : Linked rules seen tip t connected) : HeightsBelow t tip.nHeight := by
  cases h with
  | nil hbelow | cons hbelow _ _ => exact hbelow

/-- What holds in every state of a run. -/
structure Inv (rules : QuorumRules) (seen : List CFinalCommitment) (s : MinedRun) : Prop where
  caches : s.processor.CachesRight s.processor.tables
  minable : s.processor.MinableOk rules seen
  linked : Linked rules seen s.tip s.processor.tables s.connected
  read : ∀ id call b, s.calls id = some call → call.fresh → call.fExists = some b →
    b = s.processor.isMined call.llmqType call.quorumHash

variable (rules seen) in
lemma inv_initial (genesis : CBlockHeader) (cacheSizes : LLMQType → ℕ × ℕ) :
    Inv rules seen (initial genesis cacheSizes) where
  caches := nofun
  minable := nofun
  linked := .nil fun _ _ _ _ => ⟨rfl, fun _ => rfl⟩
  read := nofun

lemma Inv.of_processor (h : Inv rules seen s) {p : CQuorumBlockProcessor} (htables : p.tables = s.processor.tables)
    (hcaches : p.CachesRight s.processor.tables) (hminable : p.MinableOk rules seen) :
    Inv rules seen { s with processor := p } where
  caches := by
    rw [htables]
    exact hcaches
  minable := hminable
  linked := by
    rw [htables]
    exact h.linked
  read id call b hcall hfresh hb := by
    rw [h.read id call b hcall hfresh hb]
    unfold isMined
    rw [htables]

lemma outdatedCalls_fresh {call : HasCall} (h : s.outdatedCalls id = some call) : call.fresh = false := by
  obtain ⟨_, -, rfl⟩ := map_eq_some_iff.mp h
  rfl

/-- A block that is accepted can be undone. -/
lemma restores_of_process {fJustCheck fBLSChecks : Bool} (hsane : rules.Sane) (h : Inv rules seen s)
    (hknows : rules.Knows s.tip) (hfits : (s.tip.child block.header).nHeight < 2 ^ 31)
    (hseen : block.commitments ⊆ seen) {r : Except QuorumError Unit × CQuorumBlockProcessor}
    (hr : s.process rules block fJustCheck fBLSChecks = r) (hok : r.1 = .ok ()) (hcheck : fJustCheck = false) :
    HeightsBelow r.2.tables (s.tip.child block.header).nHeight ∧
      Restores rules seen block (s.tip.child block.header) r.2.tables s.processor.tables := by
  have hbelow := h.linked.heightsBelow
  have hle : s.tip.nHeight ≤ (s.tip.child block.header).nHeight := by
    rw [CBlockIndex.nHeight_child]
    omega
  obtain ⟨-, -, haccepts⟩ := processBlock_spec h.caches hr
  obtain ⟨hearly, htables⟩ | ⟨qcs, haccepts⟩ := haccepts hok hcheck
  · rw [htables]
    exact ⟨hbelow.mono hle, restores_of_early hearly⟩
  · refine ⟨(haccepts.all.records hsane hknows).heightsBelow (hbelow.mono hle), ?_⟩
    exact haccepts.restores hsane hknows hbelow (by omega) hseen

/-- A block is connected, or not after all. -/
lemma inv_connect {fJustCheck fBLSChecks commits : Bool} (hsane : rules.Sane)
    (hcollisionless : Collisionless rules seen) (hseen : block.commitments ⊆ seen) (h : Inv rules seen s)
    (hsound : s.Sound rules (.connect block fJustCheck fBLSChecks commits))
    (hundisturbed : s.Undisturbed (.connect block fJustCheck fBLSChecks commits)) :
    Inv rules seen (s.step rules (.connect block fJustCheck fBLSChecks commits)) ∧
      s.Reversible rules (.connect block fJustCheck fBLSChecks commits) := by
  obtain ⟨hknows, hfits⟩ := hsound
  dsimp only [step, Reversible]
  generalize hr : s.process rules block fJustCheck fBLSChecks = r
  obtain ⟨hright, hdrops, -⟩ := processBlock_spec h.caches hr
  have hback := processBlock_rollback h.caches hr hundisturbed
  have hminable := h.minable.drops hcollisionless hdrops hseen
  have hrestores := restores_of_process hsane h hknows hfits hseen hr
  have hgivenUp : Inv rules seen { s with processor := s.rolledBack r.2 } := h.of_processor rfl hback hminable
  obtain ⟨_ | _, p⟩ := r
  · exact ⟨hgivenUp, nofun⟩
  · refine ⟨?_, fun hok hcheck => (hrestores hok hcheck).2.undoneTables_eq hminable hright⟩
    dsimp only
    by_cases hcommits : commits ∧ !fJustCheck
    · obtain ⟨hbelow, hrestores⟩ := hrestores rfl (by simpa using hcommits.2)
      rw [if_pos hcommits]
      refine ⟨hright, hminable, @Linked.cons rules seen ⟨block, s.tip, s.processor.tables⟩ _ _ hbelow hrestores
        h.linked, ?_⟩
      intro id call b hcall hfresh
      rw [outdatedCalls_fresh hcall] at hfresh
      cases hfresh
    · rw [if_neg hcommits]
      exact hgivenUp

lemma inv_disconnect {commits : Bool} (h : Inv rules seen s) :
    Inv rules seen (s.step rules (.disconnect commits)) ∧ s.Reversible rules (.disconnect commits) := by
  obtain ⟨processor, tip, connected, calls⟩ := s
  have hlinked := h.linked
  have hcaches := h.caches
  have hminable := h.minable
  dsimp only at hlinked hcaches hminable
  cases hlinked with
  | nil _ => exact ⟨h, nofun⟩
  | cons hbelow hrestores hlinked =>
    refine ⟨?_, ?_⟩
    · unfold step
      obtain ⟨p, hp, htables, hok, hright, hright'⟩ | ⟨hp, -⟩ := hrestores processor rfl hminable hcaches
      · simp only [hp]
        by_cases hcommits : commits
        · rw [if_pos hcommits]
          refine ⟨htables ▸ hright, hok, htables ▸ hlinked, ?_⟩
          intro id call b hcall hfresh
          rw [outdatedCalls_fresh hcall] at hfresh
          cases hfresh
        · rw [if_neg hcommits]
          exact h.of_processor rfl hright' hok
      · simp only [hp]
        exact h
    · rintro _ ⟨⟩
      exact hrestores.undoneTables_eq hminable hcaches

lemma inv_addMineable {fqc : CFinalCommitment} (hmem : fqc ∈ seen) (h : Inv rules seen s) :
    Inv rules seen (s.step rules (.addMineable fqc)) := by
  obtain ⟨p, hp, hminable, htables, hcaches⟩ := addMineableCommitment_spec h.minable hmem
  simp only [step, hp]
  refine h.of_processor htables ?_ hminable
  intro key b hb
  rw [cached, hcaches] at hb
  exact h.caches key b hb

section

variable (h : Inv rules seen s)

include h

lemma Inv.withCache (llmqType : LLMQType) (cache : LruCache Uint256 Bool)
    (hcache : ∀ quorumHash b, cache.lookup quorumHash = some b → b = s.processor.isMined llmqType quorumHash) :
    Inv rules seen { s with processor := s.withCache llmqType cache } := by
  refine h.of_processor rfl ?_ h.minable
  rintro ⟨type, hash⟩ b hb
  replace hb : (update s.processor.mapHasMinedCommitmentCache llmqType cache type).lookup hash = some b := hb
  by_cases htype : type = llmqType
  · subst htype
    rw [update_self] at hb
    exact hcache hash b hb
  · rw [update_of_ne htype] at hb
    exact h.caches (type, hash) b hb

lemma inv_lookupHas {llmqType : LLMQType} {quorumHash : Uint256} :
    Inv rules seen (s.step rules (.lookupHas id llmqType quorumHash)) := by
  have hcache := h.withCache llmqType ((s.processor.mapHasMinedCommitmentCache llmqType).get quorumHash).2 (by
      intro hash b hb
      rw [LruCache.lookup_get] at hb
      exact h.caches (llmqType, hash) b hb)
  dsimp only [step]
  refine ⟨hcache.caches, hcache.minable, hcache.linked, ?_⟩
  intro id' call b hcall hfresh hb
  dsimp only at hcall
  split_ifs at hcall
  · exact hcache.read id' call b hcall hfresh hb
  · by_cases hid : id' = id
    · rw [hid, update_self] at hcall
      obtain rfl := some.inj hcall
      cases hb
    · rw [update_of_ne hid] at hcall
      exact hcache.read id' call b hcall hfresh hb

lemma inv_readHas : Inv rules seen (s.step rules (.readHas id)) := by
  dsimp only [step]
  cases hcall : s.calls id with
  | none => exact h
  | some call =>
    refine ⟨h.caches, h.minable, h.linked, ?_⟩
    intro id' call' b hcall' hfresh hb
    by_cases hid : id' = id
    · rw [hid] at hcall'
      dsimp only at hcall'
      rw [update_self] at hcall'
      obtain rfl := some.inj hcall'
      exact (some.inj hb).symm
    · dsimp only at hcall'
      rw [update_of_ne hid] at hcall'
      exact h.read id' call' b hcall' hfresh hb

lemma inv_insertHas (hundisturbed : s.Undisturbed (.insertHas id)) :
    Inv rules seen (s.step rules (.insertHas id)) := by
  dsimp only [step]
  split
  next llmqType quorumHash fExists fresh hcall =>
    have hexists : fExists = s.processor.isMined llmqType quorumHash := by
      cases fresh with
      | true => exact h.read id _ fExists hcall rfl rfl
      | false => exact hundisturbed _ hcall fExists rfl rfl
    have hcache := h.withCache llmqType
      ((s.processor.mapHasMinedCommitmentCache llmqType).insert quorumHash fExists) (by
        intro hash b hb
        obtain ⟨rfl, rfl⟩ | ⟨-, hb⟩ := LruCache.lookup_insert hb
        · exact hexists
        · exact h.caches (llmqType, hash) b hb)
    refine ⟨hcache.caches, hcache.minable, hcache.linked, ?_⟩
    intro id' call b hcall' hfresh hb
    dsimp only at hcall'
    by_cases hid : id' = id
    · rw [hid, update_self] at hcall'
      cases hcall'
    · rw [update_of_ne hid] at hcall'
      exact hcache.read id' call b hcall' hfresh hb
  next => exact h

/-- A question is answered from the database. -/
lemma answers_of_inv (e : MinedEvent) : s.Answers e := by
  rintro ⟨call, fExists⟩ ha hfresh
  cases e with
  | lookupHas id llmqType quorumHash =>
    obtain ⟨b, hb, heq⟩ := map_eq_some_iff.mp ha
    obtain ⟨rfl, rfl⟩ := Prod.mk.inj heq
    exact h.caches (llmqType, quorumHash) b hb
  | insertHas id =>
    obtain ⟨call', hcall, ha⟩ := bind_eq_some_iff.mp ha
    obtain ⟨b, hb, heq⟩ := bind_eq_some_iff.mp ha
    obtain ⟨rfl, rfl⟩ := Prod.mk.inj (some.inj heq)
    exact h.read id call' b hcall hfresh hb
  | connect | disconnect | addMineable | readHas => cases ha

end

/-- An event keeps the invariant, and the records are exact and reversible at it. -/
lemma inv_step (hsane : rules.Sane) (hcollisionless : Collisionless rules seen) (h : Inv rules seen s) {e : MinedEvent}
    (he : (s.Sound rules e ∧ s.Undisturbed e) ∧ e.commitments ⊆ seen) :
    Inv rules seen (s.step rules e) ∧ s.Exact rules e := by
  have hanswers := answers_of_inv h e
  obtain ⟨⟨hsound, hundisturbed⟩, hseen⟩ := he
  cases e with
  | connect block fJustCheck fBLSChecks commits =>
    obtain ⟨hinv, hreversible⟩ := inv_connect hsane hcollisionless hseen h hsound hundisturbed
    exact ⟨hinv, hanswers, hreversible⟩
  | disconnect commits =>
    obtain ⟨hinv, hreversible⟩ := inv_disconnect h
    exact ⟨hinv, hanswers, hreversible⟩
  | addMineable fqc => exact ⟨inv_addMineable (hseen List.mem_cons_self) h, hanswers, trivial⟩
  | lookupHas id llmqType quorumHash => exact ⟨inv_lookupHas h, hanswers, trivial⟩
  | readHas id => exact ⟨inv_readHas h, hanswers, trivial⟩
  | insertHas id => exact ⟨inv_insertHas h hundisturbed, hanswers, trivial⟩

/-- In every run in which no outdated answer is entered into a cache and no block has two commitments for one quorum,
the records are exact and reversible at every point. -/
theorem minedCommitments_exact (rules : QuorumRules) (hsane : rules.Sane) (genesis : CBlockHeader)
    (cacheSizes : LLMQType → ℕ × ℕ) (events : List MinedEvent)
    (hcollisionless : Collisionless rules (events.flatMap MinedEvent.commitments))
    (hsound : Along (step rules) (Sound rules) (initial genesis cacheSizes) events)
    (hundisturbed : Along (step rules) Undisturbed (initial genesis cacheSizes) events) :
    Along (step rules) (Exact rules) (initial genesis cacheSizes) events := by
  have hseen : Along (step rules) (fun _ e => e.commitments ⊆ events.flatMap MinedEvent.commitments)
      (initial genesis cacheSizes) events :=
    along_of_mem fun e he qc hqc => List.mem_flatMap.mpr ⟨e, he, hqc⟩
  refine ((hsound.and hundisturbed).and hseen).imp (fun _ _ h he => ?_) (fun _ _ h he => ?_)
    (inv_initial rules (events.flatMap MinedEvent.commitments) genesis cacheSizes)
  · exact (inv_step hsane hcollisionless h he).2
  · exact (inv_step hsane hcollisionless h he).1

/-! ### A chain with rotated quorums -/

def toyMinedHeader (n : ℕ) : CBlockHeader := { nNonce := BitVec.ofNat 32 n }

def toyMinedChain : ℕ → CBlockIndex
  | 0 => ⟨toyMinedHeader 0, []⟩
  | n + 1 => (toyMinedChain n).child (toyMinedHeader (n + 1))

/-- Rotated quorums of the type for tests, two in a cycle. -/
def toyMinedRules : QuorumRules where
  llmqs := availableLlmqs.filter (·.type = .testDip0024)
  DIP0003Height := 30
  getBlockHash header := BitVec.ofNat 256 (header.nNonce.toNat + 1)
  lookupBlockIndex hash := some (toyMinedChain (hash.toNat - 1))
  isDIP0024Active _ := true
  isV19Active _ := false
  isQuorumTypeEnabled _ _ := true
  computeQuorumMembersSize _ _ := 4
  verifySigs _ _ := true
  serializeHash qc := BitVec.ofNat 256 (qc.quorumIndex.toNat + 2 * qc.quorumPublicKey.toNat)

/-- A commitment of the second cycle, whose quorums have their base blocks at heights 24 and 25; null without a key. -/
def toyMinedCommitment (quorumIndex : ℕ) (quorumPublicKey : BitVec 384) : CFinalCommitment where
  nVersion := 2
  llmqType := .testDip0024
  quorumHash := BitVec.ofNat 256 (25 + quorumIndex)
  quorumIndex := BitVec.ofNat 16 quorumIndex
  signers := List.replicate 4 (quorumPublicKey ≠ 0)
  validMembers := List.replicate 4 (quorumPublicKey ≠ 0)
  quorumPublicKey := quorumPublicKey
  quorumVvecHash := if quorumPublicKey ≠ 0 then 1 else 0
  quorumSig := if quorumPublicKey ≠ 0 then 1 else 0
  membersSig := if quorumPublicKey ≠ 0 then 1 else 0

def toyMinedBlock (n : ℕ) (commitments : List (ℕ × BitVec 384)) : CommitmentBlock where
  header := toyMinedHeader n
  payloads := commitments.map fun c => some (toyMinedCommitment c.1 c.2)
  read := by
    intro qc hmem
    obtain ⟨c, -, heq⟩ := List.mem_map.mp hmem
    obtain rfl := some.inj heq
    intro hne
    exact absurd rfl hne

def toyConnect (n : ℕ) (commitments : List (ℕ × BitVec 384)) : MinedEvent :=
  .connect (toyMinedBlock n commitments) false true true

def toyBeforeWindow : List MinedEvent := (List.range 35).map fun n => toyConnect (n + 1) []

def toyMinedInitial : MinedRun := initial (toyMinedHeader 0) fun _ => (5, 10)

lemma nHeight_toyMinedChain (n : ℕ) : (toyMinedChain n).nHeight = n := by
  induction n with
  | zero => rfl
  | succ n ih => rw [toyMinedChain, CBlockIndex.nHeight_child, ih, Nat.cast_succ]

lemma getAncestor_toyMinedChain {k : ℕ} (h : k ≤ n) : (toyMinedChain n).getAncestor k = some (toyMinedChain k) := by
  induction n with
  | zero =>
    obtain rfl := Nat.le_zero.mp h
    rfl
  | succ n ih =>
    obtain rfl | h := Nat.eq_or_lt_of_le h
    · rw [CBlockIndex.getAncestor_eq_some_iff, nHeight_toyMinedChain]
      exact ⟨⟨by omega, le_rfl⟩, by simp⟩
    · rw [toyMinedChain, CBlockIndex.getAncestor_child]
      · exact ih (Nat.le_of_lt_succ h)
      · rw [nHeight_toyMinedChain]
        omega

lemma header_toyMinedChain (n : ℕ) : (toyMinedChain n).header = toyMinedHeader n := by
  cases n with
  | zero | succ n => rfl

lemma exists_toyMinedChain {height : ℤ} {pindex : CBlockIndex}
    (h : (toyMinedChain n).getAncestor height = some pindex) : ∃ k ≤ n, pindex = toyMinedChain k := by
  obtain ⟨⟨h0, hle⟩, -⟩ := CBlockIndex.getAncestor_eq_some_iff.mp h
  rw [nHeight_toyMinedChain] at hle
  obtain ⟨k, rfl⟩ := Int.eq_ofNat_of_zero_le h0
  rw [getAncestor_toyMinedChain (by omega)] at h
  exact ⟨k, by omega, (some.inj h).symm⟩

lemma knows_toyMinedChain (h : n < 100) : toyMinedRules.Knows (toyMinedChain n) := by
  intro height pindex hancestor
  obtain ⟨k, hk, rfl⟩ := exists_toyMinedChain hancestor
  rw [header_toyMinedChain]
  show some (toyMinedChain _) = _
  congr 2
  simp [toyMinedRules, toyMinedHeader]
  omega

/-- Runs on the toy chain. -/
lemma sound_of_toyMinedChain {events : List MinedEvent} (h : Along (step toyMinedRules)
      (fun s _ => s.tip = toyMinedChain s.tip.ancestors.length ∧ s.tip.ancestors.length < 100) s events) :
    Along (step toyMinedRules) (Sound toyMinedRules) s events := by
  refine h.imp (I := fun _ => True) ?_ (fun _ _ _ _ => trivial) trivial
  rintro s e - ⟨htip, hlt⟩
  cases e with
  | connect block =>
    refine ⟨htip ▸ knows_toyMinedChain hlt, ?_⟩
    rw [CBlockIndex.nHeight_child]
    unfold CBlockIndex.nHeight
    omega
  | _ => trivial

instance (qcs : List CFinalCommitment) : Decidable (Distinct qcs) := inferInstanceAs (Decidable (List.Pairwise _ _))

instance (rules : QuorumRules) (seen : List CFinalCommitment) : Decidable (Collisionless rules seen) :=
  inferInstanceAs (Decidable (∀ qc ∈ seen, ∀ qc' ∈ seen, _))

instance (s : MinedRun) (e : MinedEvent) : Decidable (s.Answers e) :=
  inferInstanceAs (Decidable (∀ a ∈ s.answer e, _))

instance (s : MinedRun) : (e : MinedEvent) → Decidable (s.Undisturbed e)
  | .connect _ fJustCheck _ _ => inferInstanceAs (Decidable (fJustCheck = false → _))
  | .insertHas id => inferInstanceAs (Decidable (∀ call ∈ s.calls id, ∀ fExists ∈ call.fExists, _))
  | .disconnect _ => isTrue trivial
  | .addMineable _ => isTrue trivial
  | .lookupHas _ _ _ => isTrue trivial
  | .readHas _ => isTrue trivial

/-! ### Runs in which the records are not exact -/

/-- A call is overtaken by the block that records the quorum, and another call is answered from the cache. -/
def toyOvertaken : List MinedEvent :=
  toyBeforeWindow ++ [.lookupHas 0 .testDip0024 25, .readHas 0, toyConnect 36 [(0, 1), (1, 0)], .insertHas 0]

/-- A block with two commitments for one quorum is refused. -/
def toyDuplicate : List MinedEvent := toyBeforeWindow ++ [toyConnect 36 [(0, 1), (0, 3)]]

/-- In a run on the toy chain the records are not exact. -/
def ToyFails (events : List MinedEvent) : Prop :=
  Collisionless toyMinedRules (events.flatMap MinedEvent.commitments) ∧
    Along (step toyMinedRules) (Sound toyMinedRules) toyMinedInitial events ∧
    ¬ Along (step toyMinedRules) (Exact toyMinedRules) toyMinedInitial events

/-- A question is answered wrongly after a call was overtaken, and a block that records the quorum again cannot be taken
back; and a question is answered wrongly after a block with two commitments for one quorum was refused. -/
theorem minedCommitments_not_exact :
    ToyFails (toyOvertaken ++ [.lookupHas 1 .testDip0024 25]) ∧
      ToyFails (toyOvertaken ++ [toyConnect 37 [(0, 3), (1, 0)]]) ∧
      ToyFails (toyDuplicate ++ [.lookupHas 1 .testDip0024 25]) := by
  refine ⟨⟨by decide +kernel, sound_of_toyMinedChain (by decide +kernel), fun h => ?_⟩,
    ⟨by decide +kernel, sound_of_toyMinedChain (by decide +kernel), fun h => ?_⟩,
    ⟨by decide +kernel, sound_of_toyMinedChain (by decide +kernel), fun h => ?_⟩⟩
  · exact absurd h.last.1 (by decide +kernel)
  · have hundone := congrArg (Option.map (·.commitments (.testDip0024, 25))) (h.last.2 (by decide +kernel) rfl)
    exact absurd hundone (by decide +kernel)
  · exact absurd h.last.1 (by decide +kernel)

/-- A run in which a call is overtaken by a block that does not concern its quorum. -/
def toyUndisturbed : List MinedEvent :=
  toyBeforeWindow ++ [.lookupHas 0 .testDip0024 26, .readHas 0, toyConnect 36 [(0, 1), (1, 0)], .insertHas 0,
    .lookupHas 1 .testDip0024 25, .disconnect true, toyConnect 36 [(0, 1), (1, 3)], .lookupHas 1 .testDip0024 26]

theorem minedCommitments_exact_toyUndisturbed :
    toyMinedRules.Sane ∧ Along (step toyMinedRules) Undisturbed toyMinedInitial toyUndisturbed ∧
      Along (step toyMinedRules) (Exact toyMinedRules) toyMinedInitial toyUndisturbed :=
  ⟨by decide +kernel, by decide +kernel, minedCommitments_exact toyMinedRules (by decide +kernel) _ _ _
    (by decide +kernel)
    (sound_of_toyMinedChain (by decide +kernel)) (by decide +kernel)⟩

end MinedRun

end Blocx
