import Blocx.Evo.DmnManagerRuns
import Blocx.Llmq.MinedRecords

/-!
# Special transactions of a block

`ProcessSpecialTxsInBlock` and `UndoSpecialTxsInBlock` (`evo/specialtxman.cpp`): what a block does to the masternode
manager, the quorum block processor and the encoding of BLS keys when it is connected, and how this is taken back.

The first function stops at the first reason to refuse the block, and an exception is a reason as well. The second one
says whether it succeeded. An assertion that fails is taken for an exception, logs are left out, and so are the members
of quorums that the processor computes ahead.

Undoing reads the commitments of the block also where processing did not: below the height of DIP3 the processor accepts
every block without a look at it, and a transaction of the type of commitments but not of version 3 passes the checks.
`ManagerRun.undoSpecialTxs_iff` says that these are the only blocks that are processed and cannot be undone.
-/

namespace Blocx

open List Function Consensus

variable {G : Type}

/-! ### The functions -/

/-- What the special transactions of blocks change. -/
structure EvoState (G : Type) where
  manager : CDeterministicMNManager G := {}
  processor : CQuorumBlockProcessor
  blsLegacyScheme : Bool

/-- The rules for special transactions on one network. -/
structure SpecialTxRules (G : Type) where
  evo : EvoRules G
  quorums : QuorumRules
  DIP0003Height_eq : quorums.DIP0003Height = evo.params.DIP0003Height
  v19ActivationHeight : CBlockIndex → ℤ
  /-- `CheckCbTxMerkleRoots`, without the lists and answers it leaves in caches. -/
  checkCbTxMerkleRoots : EvoState G → CBlock → CBlockIndex → CCoinsView → Except String Unit

/-- Programs on what special transactions change, which end with a reject reason. -/
abbrev EvoM (G : Type) : Type → Type := EStateM String (EvoState G)

/-- A program on the manager, with the reason that an exception is turned into. -/
def onManager {α : Type} (reason : String) (x : ManagerM G α) : EvoM G α := fun s =>
  match x.run s.manager with
  | .ok a manager => .ok a { s with manager }
  | .error _ manager => .error reason { s with manager }

/-- A check that ends with a reject reason. -/
def orRefuse (check : Except String Unit) : EvoM G Unit :=
  match check with
  | .ok _ => return ()
  | .error reason => throw reason

def processSpecialTx (tx : CTransaction) : Except String Unit :=
  if tx.nVersion ≠ 3 ∨ tx.nType = .normal then .ok ()
  else match tx.nType with
    | .providerRegister | .providerUpdateService | .providerUpdateRegistrar | .providerUpdateRevoke => .ok ()
    | .coinbase => .ok ()
    | .quorumCommitment => .ok ()
    | .mnhfSignal => .ok ()
    | _ => .error "bad-tx-type-proc"

def undoSpecialTx (tx : CTransaction) : Bool :=
  if tx.nVersion ≠ 3 ∨ tx.nType = .normal then true
  else match tx.nType with
    | .providerRegister | .providerUpdateService | .providerUpdateRegistrar | .providerUpdateRevoke => true
    | .coinbase => true
    | .quorumCommitment => true
    | .mnhfSignal => true
    | _ => false

/-- The check of the transaction reads the list of the previous block. -/
def readsList (rules : EvoRules G) (pindexPrev : CBlockIndex) (tx : CTransaction) : Bool :=
  tx.nVersion = 3 && rules.params.DIP0003Height ≤ pindexPrev.nHeight + 1 &&
    tx.nType ∈ [.providerRegister, .providerUpdateService, .providerUpdateRegistrar, .providerUpdateRevoke]

variable (rules : SpecialTxRules G)

/-- What `GetTxPayload` reads of a transaction of the type of commitments. -/
def SpecialTxRules.getCommitment (tx : CTransaction) : Option CFinalCommitment :=
  (getTxPayload .quorumCommitment (CFinalCommitmentTxPayload.unserialize rules.evo.crypto.bls) tx).map (·.commitment)

open Wire in
lemma indexRead_of_unserialize {bls : Bls G} {bytes rest : List UInt8} {payload : CFinalCommitmentTxPayload}
    (h : (CFinalCommitmentTxPayload.unserialize bls).run bytes = some (payload, rest)) :
    payload.commitment.IndexRead := by
  obtain ⟨_, _, _, h⟩ := Reader.run_bind_eq_some h
  obtain ⟨_, _, _, h⟩ := Reader.run_bind_eq_some h
  obtain ⟨qc, _, hqc, h⟩ := Reader.run_bind_eq_some h
  obtain rfl : qc = payload.commitment := congrArg (·.commitment) (Prod.mk.inj (Option.some.inj h)).1
  obtain ⟨nVersion, _, _, h⟩ := Reader.run_bind_eq_some hqc
  obtain ⟨_, _, _, h⟩ := Reader.run_bind_eq_some h
  obtain ⟨_, _, _, h⟩ := Reader.run_bind_eq_some h
  obtain ⟨quorumIndex, _, hindex, h⟩ := Reader.run_bind_eq_some h
  obtain ⟨_, _, _, h⟩ := Reader.run_bind_eq_some h
  obtain ⟨_, _, _, h⟩ := Reader.run_bind_eq_some h
  obtain ⟨_, _, _, h⟩ := Reader.run_bind_eq_some h
  obtain ⟨_, _, _, h⟩ := Reader.run_bind_eq_some h
  obtain ⟨_, _, _, h⟩ := Reader.run_bind_eq_some h
  obtain ⟨_, _, _, h⟩ := Reader.run_bind_eq_some h
  have hqc := (Prod.mk.inj (Option.some.inj h)).1
  intro h2 h4
  rw [← hqc] at h2 h4 ⊢
  have hversion : (nVersion.toNat = 2 || nVersion.toNat = 4) = false := by
    rw [Bool.or_eq_false_iff, decide_eq_false_iff_not, decide_eq_false_iff_not]
    exact ⟨fun h => h2 (BitVec.eq_of_toNat_eq h), fun h => h4 (BitVec.eq_of_toNat_eq h)⟩
  rw [hversion] at hindex
  exact Reader.run_getIf_false hindex

/-- What the quorum block processor reads of a block: the transactions of the type of commitments, of any version. -/
def SpecialTxRules.commitmentBlock (block : CBlock) : CommitmentBlock where
  header := block.toCBlockHeader
  payloads := (block.vtx.filter (·.nType = .quorumCommitment)).map rules.getCommitment
  read qc hqc := by
    obtain ⟨tx, -, htx⟩ := mem_map.mp hqc
    obtain ⟨payload, hpayload, rfl⟩ := Option.map_eq_some_iff.mp htx
    unfold getTxPayload at hpayload
    split_ifs at hpayload
    split at hpayload
    · next obj hread =>
      cases hpayload
      exact indexRead_of_unserialize hread
    · cases hpayload

section Functions

variable [DecidableEq G] (order : IterationOrder G) (active : Option CBlockIndex)

/-- `CheckSpecialTx`, with the list of the previous block where it reads one. -/
def checkSpecialTxInBlock (pindexPrev : CBlockIndex) (view : CCoinsView) (checkSigs : Bool) (tx : CTransaction) :
    EvoM G Unit := do
  let mnList ←
    if readsList rules.evo pindexPrev tx then
      onManager "failed-check-special-tx" (CDeterministicMNManager.getListForBlock rules.evo order pindexPrev)
    else pure {}
  orRefuse (checkSpecialTx rules.evo pindexPrev mnList view checkSigs tx)

/-- The call of `ProcessBlock` of the quorum block processor. -/
def processQuorumCommitments (block : CBlock) (pindex : CBlockIndex) (fJustCheck fBLSChecks : Bool) :
    EvoM G Unit := fun s =>
  match s.processor.processBlock rules.quorums active (rules.commitmentBlock block) pindex fJustCheck fBLSChecks with
  | (.ok _, processor) => .ok () { s with processor }
  | (.error (.invalid reason), processor) => .error reason { s with processor }
  | (.error .failed, processor) => .error "" { s with processor }
  | (.error .aborted, processor) => .error "failed-procspectxsinblock" { s with processor }

def processSpecialTxsInBlock (block : CBlock) (pindex : CBlockIndex) (view : CCoinsView)
    (fJustCheck fCheckCbTxMerleRoots : Bool) : EvoM G Unit :=
  match pindex.pprev with
  | none => throw "failed-procspectxsinblock"
  | some pindexPrev => do
    block.vtx.forM fun tx => do
      checkSpecialTxInBlock rules order pindexPrev view fCheckCbTxMerleRoots tx
      orRefuse (processSpecialTx tx)
    processQuorumCommitments rules active block pindex fJustCheck fCheckCbTxMerleRoots
    match ← onManager "failed-procspectxsinblock"
        (CDeterministicMNManager.processBlock rules.evo order block pindex view fJustCheck) with
    | some reason => throw reason
    | none => do
      let s ← get
      orRefuse (onlyWhen fCheckCbTxMerleRoots (rules.checkCbTxMerkleRoots s block pindex view))
      -- the block after the activation is the first one with the new encoding
      let activates := rules.v19ActivationHeight pindex = pindex.nHeight + 1
      set { s with blsLegacyScheme := if activates then false else s.blsLegacyScheme }

/-- `UndoSpecialTxsInBlock`: whether it succeeded, and what it leaves. -/
def undoSpecialTxsInBlock (block : CBlock) (pindex : CBlockIndex) (s : EvoState G) : Bool × EvoState G :=
  let blsLegacyScheme := s.blsLegacyScheme
  let activates := rules.v19ActivationHeight pindex = pindex.nHeight + 1
  let s := { s with blsLegacyScheme := if activates then true else s.blsLegacyScheme }
  if !block.vtx.reverse.all undoSpecialTx then (false, s)
  else match (CDeterministicMNManager.undoBlock rules.evo order pindex).run s.manager with
    | .error _ manager => (false, { s with manager, blsLegacyScheme })
    | .ok _ manager =>
      match s.processor.undoBlock rules.quorums (rules.commitmentBlock block) pindex with
      | .error .aborted => (false, { s with manager, blsLegacyScheme })
      | .error _ => (false, { s with manager })
      | .ok processor => (true, { s with manager, processor })

end Functions

/-! ### Commitments of a block -/

namespace CQuorumBlockProcessor

variable {rules : QuorumRules} {active : Option CBlockIndex} {p p' : CQuorumBlockProcessor} {block : CommitmentBlock}
  {pindex : CBlockIndex} {nHeight : ℤ} {blockHash : Uint256} {fBLSChecks : Bool} {qc : CFinalCommitment}
  {qcs : List CFinalCommitment}

/-- A commitment that was accepted is null, or its quorum has none to be mined any more. -/
lemma byQuorum_processCommitment
    (h : p.processCommitment rules active nHeight blockHash false fBLSChecks qc = (.ok (), p')) :
    (rules.getLLMQParams qc.llmqType).isSome ∧
    p'.minableCommitmentsByQuorum = (if qc.isNull then p.minableCommitmentsByQuorum
      else update p.minableCommitmentsByQuorum qc.quorumKey none) := by
  unfold processCommitment at h
  split at h
  next => cases h
  next params hparams =>
    refine ⟨Option.isSome_of_eq_some hparams, ?_⟩
    generalize (if active.isNone then qc.quorumHash else _) = quorumHash at h
    simp only [Bool.false_eq_true, if_false] at h
    by_cases hnull : qc.isNull
    · rw [if_pos hnull] at h ⊢
      split_ifs at h <;> cases h
      rfl
    · rw [if_neg hnull] at h ⊢
      split_ifs at h <;> try cases h
      split at h <;> try cases h
      split at h <;> try cases h
      split_ifs at h <;> cases h
      rfl

/-- After the commitments of a block were accepted, their quorums have none to be mined any more. -/
lemma byQuorum_processCommitments
    (h : p.processCommitments rules active nHeight blockHash false fBLSChecks qcs = (.ok (), p')) :
    (∀ key, p.minableCommitmentsByQuorum key = none → p'.minableCommitmentsByQuorum key = none) ∧
    ∀ qc ∈ qcs, (rules.getLLMQParams qc.llmqType).isSome ∧
      (qc.isNull = false → p'.minableCommitmentsByQuorum qc.quorumKey = none) := by
  induction qcs generalizing p with
  | nil =>
    obtain rfl := (Prod.mk.inj h).2
    exact ⟨fun _ => id, fun _ hmem => (nomatch hmem)⟩
  | cons qc qcs ih =>
    rw [processCommitments] at h
    generalize hr : p.processCommitment rules active nHeight blockHash false fBLSChecks qc = r at h
    obtain ⟨_ | _, p₁⟩ := r
    · cases (Prod.mk.inj h).1
    · obtain ⟨hparams, hbyQuorum⟩ := byQuorum_processCommitment hr
      obtain ⟨hkeep, hrest⟩ := ih h
      refine ⟨fun key hkey => hkeep key ?_, forall_mem_cons.mpr ⟨⟨hparams, fun hnull => hkeep _ ?_⟩, hrest⟩⟩
      · rw [hbyQuorum]
        split_ifs
        · exact hkey
        · rw [update_apply]
          split_ifs
          · rfl
          · exact hkey
      · rw [hbyQuorum, hnull, if_neg Bool.false_ne_true, update_self]

/-- A quorum with a commitment to be mined has it. -/
def HasMinable (p : CQuorumBlockProcessor) (key : LLMQType × Uint256) : Prop :=
  ∀ hash, p.minableCommitmentsByQuorum key = some hash → (p.minableCommitments hash).isSome

/-- A commitment can be put back where its quorum has the one to be mined, and no quorum loses its own. -/
lemma HasMinable.exists_add (h : p.HasMinable qc.quorumKey) :
    ∃ q, p.addMineableCommitment rules qc = some q ∧ ∀ key, p.HasMinable key → q.HasMinable key := by
  -- the quorum gets the hash of the commitment, the others keep theirs
  have hupdate : ∀ key, p.HasMinable key → ∀ hash, update p.minableCommitmentsByQuorum qc.quorumKey
      (some (rules.serializeHash qc)) key = some hash →
      hash = rules.serializeHash qc ∨ (p.minableCommitments hash).isSome := by
    intro key hkey hash hhash
    by_cases heq : key = qc.quorumKey
    · rw [heq, update_self] at hhash
      exact .inl (Option.some.inj hhash).symm
    · rw [update_of_ne heq] at hhash
      exact .inr (hkey hash hhash)
  unfold addMineableCommitment
  cases hold : p.minableCommitmentsByQuorum qc.quorumKey with
  | none => exact ⟨_, rfl, fun key hkey hash hhash => isSome_emplace (hupdate key hkey hash hhash)⟩
  | some oldHash =>
    obtain ⟨oldFqc, holdFqc⟩ := Option.isSome_iff_exists.mp (h oldHash hold)
    simp only [holdFqc, Option.bind_eq_bind, Option.bind_some]
    by_cases hmore : oldFqc.countSigners < qc.countSigners
    · rw [if_pos hmore]
      refine ⟨_, rfl, fun key hkey hash hhash => isSome_emplace ?_⟩
      by_cases heq : hash = rules.serializeHash qc
      · exact .inl heq
      · rw [update_of_ne heq]
        exact .inr ((hupdate key hkey hash hhash).resolve_left heq)
    · rw [if_neg hmore]
      exact ⟨p, rfl, fun _ => id⟩

/-- The loop of `UndoBlock` where the quorums of the commitments have theirs to be mined. -/
lemma exists_foldlM_undoCommitment (htypes : ∀ qc ∈ qcs, (rules.getLLMQParams qc.llmqType).isSome)
    (h : ∀ qc ∈ qcs, qc.isNull = false → p.HasMinable qc.quorumKey) :
    ∃ q, qcs.foldlM (undoCommitment rules · pindex ·) p = some q := by
  induction qcs generalizing p with
  | nil => exact ⟨p, rfl⟩
  | cons qc qcs ih =>
    rw [forall_mem_cons] at htypes h
    obtain ⟨params, hparams⟩ := Option.isSome_iff_exists.mp htypes.1
    have hturn : ∃ q, p.undoCommitment rules pindex qc = some q ∧ ∀ key, p.HasMinable key → q.HasMinable key := by
      unfold undoCommitment
      split_ifs with hnull
      · exact ⟨p, rfl, fun _ => id⟩
      · rw [hparams]
        exact HasMinable.exists_add (p := { p with tables := _, mapHasMinedCommitmentCache := _ })
          (h.1 (Bool.eq_false_iff.mpr hnull))
    obtain ⟨q, hq, hkeep⟩ := hturn
    rw [foldlM_cons, hq]
    exact ih htypes.2 fun qc' hmem hnull => hkeep _ (h.2 qc' hmem hnull)

/-- Below the height of DIP3 the commitments of a block are refused, if they can be read at all. -/
lemma getCommitmentsFromBlock_early (hearly : pindex.nHeight < rules.DIP0003Height) :
    rules.getCommitmentsFromBlock block pindex = .ok qcs ↔ block.payloads = [] ∧ qcs = [] := by
  constructor
  · intro h
    obtain ⟨ret, hret, h⟩ := except_bind_eq_ok.mp h
    split_ifs at h with hpremature
    · obtain ⟨_, hthrow, -⟩ := except_bind_eq_ok.mp h
      cases hthrow
    · obtain rfl : ret = [] := by_contra fun hne => hpremature ⟨hearly, hne⟩
      refine ⟨?_, (Except.ok.inj h).symm⟩
      cases hpayloads : block.payloads with
      | nil => rfl
      | cons payload payloads =>
        rw [hpayloads] at hret
        obtain ⟨ret', hadd, -⟩ := except_bind_eq_ok.mp hret
        cases payload with
        | none => cases hadd
        | some qc => exact absurd (perm_foldlM_addCommitment hret).symm.eq_nil (cons_ne_nil _ _)
  · rintro ⟨h, rfl⟩
    unfold QuorumRules.getCommitmentsFromBlock
    rw [h]
    exact except_bind_eq_ok.mpr ⟨[], rfl, if_neg fun hne => hne.2 rfl⟩

/-- A block that was processed can be undone, unless it has commitments below the height of DIP3. -/
lemma exists_undoBlock_iff (h : p.processBlock rules active block pindex false fBLSChecks = (.ok (), p')) :
    (∃ q, p'.undoBlock rules block pindex = .ok q) ↔ rules.DIP0003Height ≤ pindex.nHeight ∨ block.payloads = [] := by
  unfold undoBlock
  by_cases hearly : pindex.nHeight < rules.DIP0003Height
  · rw [or_iff_right (not_le.mpr hearly)]
    split
    next e he =>
      refine iff_of_false nofun fun hnone => ?_
      rw [(getCommitmentsFromBlock_early hearly).mpr ⟨hnone, rfl⟩] at he
      cases he
    next qcs hqcs =>
      obtain ⟨hnone, rfl⟩ := (getCommitmentsFromBlock_early hearly).mp hqcs
      exact iff_of_true ⟨_, rfl⟩ hnone
  · refine iff_of_true ?_ (.inl (not_lt.mp hearly))
    generalize hr : (Except.ok (), p') = r at h
    cases processBlock_result h with
    | early hearly' => exact absurd hearly' hearly
    | unread | miscounted => cases (Prod.mk.inj hr).1
    | @processed qcs _ r _ bestBlock hlate hread hcounts hall =>
      obtain ⟨rfl, rfl⟩ := Prod.mk.inj hr
      obtain ⟨-, hqcs⟩ := byQuorum_processCommitments hall
      -- the block took its commitments off those to be mined, so that each can be put back
      obtain ⟨q, hq⟩ : ∃ q, qcs.foldlM (undoCommitment rules · pindex ·) { r with bestBlock } = some q := by
        refine exists_foldlM_undoCommitment (fun qc hmem => (hqcs qc hmem).1) fun qc hmem hnull hash hhash => ?_
        rw [(hqcs qc hmem).2 hnull] at hhash
        cases hhash
      rw [hread]
      dsimp only
      rw [hq]
      exact ⟨_, rfl⟩

end CQuorumBlockProcessor

/-! ### Processing and undoing -/

lemma undoSpecialTx_of_processSpecialTx {tx : CTransaction} (h : processSpecialTx tx = .ok ()) : undoSpecialTx tx := by
  unfold processSpecialTx at h
  unfold undoSpecialTx
  split_ifs at h ⊢
  · rfl
  · generalize tx.nType = nType at h ⊢
    cases nType <;> first | rfl | cases h

section Runs

variable {rules} {α : Type} {s s₁ : EvoState G} {Q : α → EvoState G → Prop}

lemma wlp_onManager {x : ManagerM G α} {reason : String}
    (h : wlp x (fun a manager => Q a { s with manager }) s.manager) :
    wlp (onManager reason x) Q s := by
  unfold wlp wp onManager EStateM.run at *
  dsimp only
  generalize x s.manager = r at *
  cases r with
  | ok a manager => exact h
  | error e manager => trivial

lemma wlp_orRefuse {Q : Unit → EvoState G → Prop} {check : Except String Unit} (h : check = .ok () → Q () s) :
    wlp (orRefuse check) Q s := by
  cases check with
  | ok u => exact h rfl
  | error reason => trivial

variable {active : Option CBlockIndex} {block : CBlock} {pindex pindexPrev : CBlockIndex} {view : CCoinsView}
  {fCheckCbTxMerleRoots checkSigs : Bool} {tx : CTransaction}

lemma wlp_processQuorumCommitments :
    wlp (processQuorumCommitments rules active block pindex false fCheckCbTxMerleRoots)
      (fun _ s' => s'.manager = s.manager ∧ s.processor.processBlock rules.quorums active (rules.commitmentBlock block)
        pindex false fCheckCbTxMerleRoots = (.ok (), s'.processor)) s := by
  unfold wlp wp processQuorumCommitments EStateM.run
  dsimp only
  obtain ⟨e | _, processor⟩ := s.processor.processBlock rules.quorums active (rules.commitmentBlock block) pindex false
    fCheckCbTxMerleRoots
  · cases e <;> trivial
  · exact ⟨rfl, rfl⟩

variable [DecidableEq G] {order order' : IterationOrder G}

/-- What every turn of the loop over the transactions keeps, and what it finds out about its transaction. -/
lemma wlp_checkSpecialTxs {I : EvoState G → Prop} {P : CTransaction → Prop} {vtx : List CTransaction}
    (hturn : ∀ tx s, I s → wlp (checkSpecialTxInBlock rules order pindexPrev view checkSigs tx)
      (fun _ s' => I s' ∧ (processSpecialTx tx = .ok () → P tx)) s) (hs : I s) :
    wlp (vtx.forM fun tx => do
        checkSpecialTxInBlock rules order pindexPrev view checkSigs tx
        orRefuse (processSpecialTx tx))
      (fun _ s' => I s' ∧ ∀ tx ∈ vtx, P tx) s := by
  have hloop := wp_forM (E := fun _ _ => True)
    (f := fun tx => do
      checkSpecialTxInBlock rules order pindexPrev view checkSigs tx
      orRefuse (processSpecialTx tx))
    (I := fun rest s' => I s' ∧ ((∀ tx ∈ rest, P tx) → ∀ tx ∈ vtx, P tx))
    (fun tx rest s' ⟨hs', hrest⟩ => wp_seq (hturn tx s' hs') fun _ s'' ⟨hs'', htx⟩ => wlp_orRefuse fun hprocess =>
      ⟨hs'', fun h => hrest (forall_mem_cons.mpr ⟨htx hprocess, h⟩)⟩)
    ⟨hs, id⟩
  exact hloop.imp fun _ s' ⟨hs', hall⟩ => ⟨hs', hall (fun _ hmem => (nomatch hmem))⟩

/-- What is known of a block whose special transactions were processed. -/
lemma wlp_processSpecialTxsInBlock :
    wlp (processSpecialTxsInBlock rules order active block pindex view false fCheckCbTxMerleRoots)
      (fun _ s₁ => (∀ tx ∈ block.vtx, processSpecialTx tx = .ok ()) ∧
        s.processor.processBlock rules.quorums active (rules.commitmentBlock block) pindex false fCheckCbTxMerleRoots =
          (.ok (), s₁.processor)) s := by
  unfold processSpecialTxsInBlock
  split
  next => trivial
  next pindexPrev hpprev =>
    have hturn : ∀ tx s', s'.processor = s.processor →
        wlp (checkSpecialTxInBlock rules order pindexPrev view fCheckCbTxMerleRoots tx)
          (fun _ s'' => s''.processor = s.processor ∧
            (processSpecialTx tx = .ok () → processSpecialTx tx = .ok ())) s' := by
      intro tx s' hs'
      refine (wp_ite _ _).mpr ⟨fun _ => (wp_bind _ _ _).mpr ?_, fun _ => (wp_bind _ _ _).mpr ?_⟩
      · exact wlp_onManager (wlp_of_forall fun list manager => wlp_orRefuse fun _ => ⟨hs', id⟩)
      · exact wlp_orRefuse fun _ => ⟨hs', id⟩
    refine wp_seq (wlp_checkSpecialTxs hturn rfl) fun _ s' ⟨hprocessor, hall⟩ => ?_
    refine wp_seq wlp_processQuorumCommitments fun _ s'' ⟨_, hs''⟩ => ?_
    rw [hprocessor] at hs''
    rw [wp_bind]
    refine wlp_onManager (wlp_of_forall fun r manager => ?_)
    cases r with
    | some reason => trivial
    | none => exact wp_seq (wlp_orRefuse fun _ => hs'') fun _ _ hs₄ => ⟨hall, hs₄⟩

/-- The block has no transaction of the type of commitments below the height of DIP3. -/
def NoEarlyCommitment (rules : SpecialTxRules G) (block : CBlock) (pindex : CBlockIndex) : Prop :=
  rules.evo.params.DIP0003Height ≤ pindex.nHeight ∨ ∀ tx ∈ block.vtx, tx.nType ≠ .quorumCommitment

/-- After the special transactions of a block were processed, they can be undone exactly when the manager can undo the
block and there is no early commitment. -/
lemma undoSpecialTxsInBlock_iff
    (h : (processSpecialTxsInBlock rules order active block pindex view false fCheckCbTxMerleRoots).run s = .ok () s₁) :
    (undoSpecialTxsInBlock rules order' block pindex s₁).1 ↔
      returns (CDeterministicMNManager.undoBlock rules.evo order' pindex) s₁.manager ∧
        NoEarlyCommitment rules block pindex := by
  obtain ⟨hall, hprocessed⟩ := wlp_processSpecialTxsInBlock.ok h
  have hundo : block.vtx.reverse.all undoSpecialTx :=
    all_eq_true.mpr fun tx htx => undoSpecialTx_of_processSpecialTx (hall tx (mem_reverse.mp htx))
  have hpayloads : (rules.commitmentBlock block).payloads = [] ↔ ∀ tx ∈ block.vtx, tx.nType ≠ .quorumCommitment := by
    simp [SpecialTxRules.commitmentBlock, filter_eq_nil_iff]
  unfold NoEarlyCommitment
  rw [← hpayloads, ← rules.DIP0003Height_eq, ← CQuorumBlockProcessor.exists_undoBlock_iff hprocessed]
  unfold undoSpecialTxsInBlock returns
  dsimp only
  rw [hundo, Bool.not_true, if_neg Bool.false_ne_true]
  generalize (CDeterministicMNManager.undoBlock rules.evo order' pindex).run s₁.manager = r
  cases r with
  | error e manager => simp
  | ok u manager =>
    generalize s₁.processor.undoBlock rules.quorums (rules.commitmentBlock block) pindex = r
    cases r with
    | ok q => simp
    | error e => cases e <;> simp

omit [DecidableEq G] in
/-- The check of a transaction that reads no list does not depend on it. -/
lemma checkSpecialTx_of_readsList_eq_false (h : readsList rules.evo pindexPrev tx = false)
    (list list' : CDeterministicMNList G) : checkSpecialTx rules.evo pindexPrev list view checkSigs tx =
      checkSpecialTx rules.evo pindexPrev list' view checkSigs tx := by
  unfold checkSpecialTx
  split_ifs with hnormal hearly
  · rfl
  · rfl
  · unfold readsList at h
    obtain ⟨hversion, -⟩ := not_or.mp hnormal
    rw [decide_eq_true (not_not.mp hversion), decide_eq_true (not_lt.mp hearly)] at h
    generalize tx.nType = nType at h ⊢
    cases nType <;> first | rfl | cases h

variable {tree : BlockTree rules.evo} {processed : Set CBlockIndex}

/-- The check of a transaction reads the list of the previous block or none, and keeps the run. -/
lemma ManagerRun.wlp_checkSpecialTxInBlock {list : CDeterministicMNList G}
    (h : ManagerRun rules.evo tree s.manager processed) (hp : Askable rules.evo tree processed pindexPrev)
    (hlist : ListOf tree pindexPrev list) :
    wlp (checkSpecialTxInBlock rules order pindexPrev view checkSigs tx)
      (fun _ s' => ManagerRun rules.evo tree s'.manager processed ∧
        checkSpecialTx rules.evo pindexPrev list view checkSigs tx = .ok ()) s := by
  refine (wp_ite _ _).mpr ⟨fun _ => (wp_bind _ _ _).mpr ?_, fun hreads => (wp_bind _ _ _).mpr ?_⟩
  · refine wlp_onManager ((h.wp_getListForBlock hp order).imp_true fun list' manager ⟨hlist', hmanager⟩ =>
      wlp_orRefuse fun hcheck => ?_)
    rw [hlist.unique hlist']
    exact ⟨hmanager, hcheck⟩
  · refine wlp_orRefuse fun hcheck => ⟨h, ?_⟩
    rw [checkSpecialTx_of_readsList_eq_false (Bool.eq_false_iff.mpr hreads) list {}]
    exact hcheck

variable (hb : pindex ∈ tree.nodes) (hp : ∀ p, pindex.pprev = some p → Askable rules.evo tree processed p)
  (hencodings : ∀ p list new, pindex.pprev = some p → ListOf tree p list →
    (buildNewListFromBlock rules.evo p (tree.view pindex) (tree.block pindex)).run list = .ok () new →
    SameEncodings list new)

include hb hp hencodings

/-- The manager goes on with a block whose transactions passed the checks against the list of the previous block. -/
lemma ManagerRun.wlp_processBlock {manager : CDeterministicMNManager G} {list : CDeterministicMNList G}
    (h : ManagerRun rules.evo tree manager processed) (hpprev : pindex.pprev = some pindexPrev)
    (hlist : ListOf tree pindexPrev list)
    (hall : ∀ tx ∈ (tree.block pindex).vtx,
      checkSpecialTx rules.evo pindexPrev list (tree.view pindex) checkSigs tx = .ok ()) :
    wlp (CDeterministicMNManager.processBlock rules.evo order (tree.block pindex) pindex (tree.view pindex) false)
      (fun r manager' => r = none → ManagerRun rules.evo tree manager' (insert pindex processed)) manager := by
  unfold wlp wp
  split
  next r manager' hrun =>
    rintro rfl
    have hstep := ManagerRun.process order false h hb hp (fun p hp' list' manager₁ hget => ?_) hrun
    · rwa [if_pos ⟨rfl, rfl⟩] at hstep
    · obtain rfl := Option.some.inj (hpprev.symm.trans hp')
      obtain rfl := hlist.unique ((h.wp_getListForBlock (hp _ hpprev) order).ok hget).1
      exact ⟨⟨_, hall⟩, fun new hnew => hencodings _ list new hpprev hlist hnew⟩
  next => trivial

variable (h : ManagerRun rules.evo tree s.manager processed)

include h

/-- Processing the special transactions of a block is a step of the masternode manager, if the block comes after its
predecessor and no operator key changes its encoding only. -/
lemma ManagerRun.processSpecialTxs :
    wlp (processSpecialTxsInBlock rules order active (tree.block pindex) pindex (tree.view pindex) false
      fCheckCbTxMerleRoots) (fun _ s₁ => ManagerRun rules.evo tree s₁.manager (insert pindex processed)) s := by
  unfold processSpecialTxsInBlock
  cases hpprev : pindex.pprev with
  | none => trivial
  | some p =>
    -- whenever the list of the previous block is read, it is this one
    obtain ⟨list, -, -, hlist, -⟩ := (h.wp_getListForBlock (hp p hpprev) order).exists_ok
    have hturn : ∀ tx s', ManagerRun rules.evo tree s'.manager processed →
        wlp (checkSpecialTxInBlock rules order p (tree.view pindex) fCheckCbTxMerleRoots tx)
          (fun _ s'' => ManagerRun rules.evo tree s''.manager processed ∧ (processSpecialTx tx = .ok () →
            checkSpecialTx rules.evo p list (tree.view pindex) fCheckCbTxMerleRoots tx = .ok ())) s' :=
      fun tx s' hs' => (hs'.wlp_checkSpecialTxInBlock (hp p hpprev) hlist).imp_true
        fun _ _ ⟨hs'', hcheck⟩ => ⟨hs'', fun _ => hcheck⟩
    refine wp_seq (wlp_checkSpecialTxs hturn h) fun _ s' ⟨hs', hall⟩ => ?_
    refine wp_seq wlp_processQuorumCommitments fun _ s'' ⟨hs'', _⟩ => ?_
    rw [← hs''] at hs'
    rw [wp_bind]
    refine wlp_onManager ((hs'.wlp_processBlock hb hp hencodings hpprev hlist hall).imp_true fun r manager hr => ?_)
    cases r with
    | some reason => trivial
    | none => exact wp_seq (wlp_orRefuse fun _ => hr rfl) fun _ _ hs₁ => hs₁

/-- After the special transactions of a block were processed, an early commitment is the only reason for which they
cannot be undone. -/
lemma ManagerRun.undoSpecialTxs_iff
    (hrun : (processSpecialTxsInBlock rules order active (tree.block pindex) pindex (tree.view pindex) false
      fCheckCbTxMerleRoots).run s = .ok () s₁) :
    (undoSpecialTxsInBlock rules order' (tree.block pindex) pindex s₁).1 ↔
      NoEarlyCommitment rules (tree.block pindex) pindex := by
  have hpprev : pindex.pprev.isSome := by
    refine Option.isSome_iff_ne_none.mpr fun hnone => ?_
    unfold processSpecialTxsInBlock at hrun
    rw [hnone] at hrun
    cases hrun
  have hafter := (ManagerRun.processSpecialTxs hb hp hencodings h).ok hrun
  rw [undoSpecialTxsInBlock_iff hrun]
  exact and_iff_right (hafter.returns_undoBlock ⟨hb, .inl (Set.mem_insert _ _)⟩ hpprev)

end Runs

end Blocx
