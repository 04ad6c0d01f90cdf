import Blocx.Evo.DmnManagerInvariant

/-!
# The caches of the masternode manager are transparent

Whatever was processed, undone, cleaned up and asked before, `GetListForBlock` returns for a processed block the list
that the blocks of its own branch build, up to internal ids. The ids themselves can differ: a registration that is
undone within its block is forgotten when the list is read from a stored difference.
-/

namespace Blocx

open CDeterministicMNList Wire

variable {G : Type} {processed : Set CBlockIndex} {height : ℕ}

/-! ### Runs -/

section

variable [DecidableEq G] (rules : EvoRules G) (tree : BlockTree rules)

open CDeterministicMNManager

/-- The list of the block can be asked for: the block was processed, or it is before the first list. -/
def Askable (processed : Set CBlockIndex) (b : CBlockIndex) : Prop :=
  b ∈ tree.nodes ∧ (b ∈ processed ∨ b.nHeight < rules.params.DIP0003Height)

/-- The states of the manager of a node, with the blocks that were processed. Blocks are processed after their
predecessors, in branches of any shape, and passed the checks against the list of the predecessor. Blocks can be undone
and processed again, the tip can be any block, and the caches can be cleaned and lists asked for at any time. -/
inductive ManagerRun : CDeterministicMNManager G → Set CBlockIndex → Prop where
  | init : ManagerRun {} ∅
  | process {manager manager' : CDeterministicMNManager G} {processed : Set CBlockIndex} {b : CBlockIndex}
    {result : Option String} (order : IterationOrder G) (fJustCheck : Bool) (h : ManagerRun manager processed)
    (hb : b ∈ tree.nodes) (hp : ∀ p, b.pprev = some p → Askable rules tree processed p)
    (hchecks : ∀ p, b.pprev = some p → ∀ list manager₁,
      (getListForBlock rules order p).run manager = .ok list manager₁ → PassesChecks rules tree b p list)
    (hrun : (processBlock rules order (tree.block b) b (tree.view b) fJustCheck).run manager = .ok result manager') :
    ManagerRun manager' (if result = none ∧ fJustCheck = false then insert b processed else processed)
  /-- `ProcessBlock`, with an exception. -/
  | processThrows {manager manager' : CDeterministicMNManager G} {processed : Set CBlockIndex} {b : CBlockIndex}
    {e : DmnException} (order : IterationOrder G) (fJustCheck : Bool) (h : ManagerRun manager processed)
    (hb : b ∈ tree.nodes) (hp : ∀ p, b.pprev = some p → Askable rules tree processed p)
    (hchecks : ∀ p, b.pprev = some p → ∀ list manager₁,
      (getListForBlock rules order p).run manager = .ok list manager₁ → PassesChecks rules tree b p list)
    (hrun : (processBlock rules order (tree.block b) b (tree.view b) fJustCheck).run manager = .error e manager') :
    ManagerRun manager' processed
  | undo {manager manager' : CDeterministicMNManager G} {processed : Set CBlockIndex} {b : CBlockIndex}
    (order : IterationOrder G) (h : ManagerRun manager processed) (hb : Askable rules tree processed b)
    (hrun : (undoBlock rules order b).run manager = .ok () manager') : ManagerRun manager' processed
  | tip {manager : CDeterministicMNManager G} {processed : Set CBlockIndex} (b : CBlockIndex)
    (h : ManagerRun manager processed) : ManagerRun (manager.updatedBlockTip b) processed
  | cleanup {manager : CDeterministicMNManager G} {processed : Set CBlockIndex} (nHeight : ℤ)
    (h : ManagerRun manager processed) : ManagerRun (manager.cleanupCache rules nHeight) processed
  | maintain {manager : CDeterministicMNManager G} {processed : Set CBlockIndex} (h : ManagerRun manager processed) :
    ManagerRun (manager.doMaintenance rules) processed
  | ask {manager manager' : CDeterministicMNManager G} {processed : Set CBlockIndex} {b : CBlockIndex}
    {list : CDeterministicMNList G} (order : IterationOrder G) (h : ManagerRun manager processed)
    (hb : Askable rules tree processed b) (hrun : (getListForBlock rules order b).run manager = .ok list manager') :
    ManagerRun manager' processed

variable {rules tree}

lemma managerWf_empty : ManagerWf tree {} := by
  have hnone : ∀ {V : Type} {P : Prop} {hash : Uint256} {v : V},
      (∅ : Std.ExtTreeMap Uint256 V)[hash]? = some v → P := by
    intro V P hash v h
    cases h
  exact ⟨fun _ _ => hnone, fun _ _ => hnone, fun _ _ => hnone, fun _ _ => hnone,
    fun _ _ hmem => absurd hmem Std.ExtTreeMap.not_mem_empty,
    fun _ _ _ _ _ _ hmem => absurd hmem Std.ExtTreeMap.not_mem_empty⟩

omit [DecidableEq G] in
lemma Askable.available {b : CBlockIndex} {db : CEvoDB} (hb : Askable rules tree processed b)
    (h : ∀ b ∈ processed, Available tree db b) : Available tree db b := by
  obtain ⟨hnode, hprocessed | hbelow⟩ := hb
  · exact h b hprocessed
  · exact ⟨hnode, .inl hbelow⟩

/-- The invariant holds in every run, and the processed blocks are stored. -/
lemma ManagerRun.managerWf {manager : CDeterministicMNManager G} (h : ManagerRun rules tree manager processed) :
    ManagerWf tree manager ∧ ∀ b ∈ processed, Available tree manager.evoDb b := by
  have hkeep : ∀ {m m' : CDeterministicMNManager G} {processed : Set CBlockIndex}, Grows tree m m' →
      (∀ b ∈ processed, Available tree m.evoDb b) →
      ManagerWf tree m' ∧ ∀ b ∈ processed, Available tree m'.evoDb b :=
    fun hgrows hall => ⟨hgrows.wf, fun b hb => hgrows.available (hall b hb)⟩
  induction h with
  | init => exact ⟨managerWf_empty, fun _ hb => hb.elim⟩
  | process order fJustCheck _ hb hp hchecks hrun ih =>
    obtain ⟨hgrows, hstored⟩ :=
      (ih.1.wp_processBlock hb (fun p hpp => (hp p hpp).available ih.2) order hchecks fJustCheck).ok hrun
    obtain ⟨hwf, hall⟩ := hkeep hgrows ih.2
    refine ⟨hwf, ?_⟩
    split_ifs with hok
    · rintro b' (rfl | hb')
      · exact hstored hok.1 hok.2
      · exact hall b' hb'
    · exact hall
  | processThrows order fJustCheck _ hb hp hchecks hrun ih =>
    exact hkeep ((ih.1.wp_processBlock hb (fun p hpp => (hp p hpp).available ih.2) order hchecks fJustCheck).error hrun)
      ih.2
  | undo order _ hb hrun ih => exact hkeep ((ih.1.wp_undoBlock (hb.available ih.2) order).ok hrun) ih.2
  | tip b _ ih => exact ⟨{ ih.1 with }, ih.2⟩
  | cleanup nHeight _ ih => exact hkeep (ih.1.cleanupCache nHeight) ih.2
  | maintain _ ih => exact hkeep ih.1.doMaintenance ih.2
  | ask order _ hb hrun ih =>
    exact hkeep ((ih.1.wp_getListForBlock (hb.available ih.2) order).ok hrun).1.grows ih.2

/-- A block that passes the checks is processed, evaluated. -/
lemma ManagerRun.processes {manager : CDeterministicMNManager G} {b p : CBlockIndex} (order : IterationOrder G)
    (h : ManagerRun rules tree manager processed) (hb : b ∈ tree.nodes) (hpprev : b.pprev = some p)
    (hp : Askable rules tree processed p)
    (hchecks : wp (getListForBlock rules order p) (fun list _ =>
      (∀ tx ∈ (tree.block b).vtx, checkSpecialTx rules p list (tree.view b) true tx = .ok ()) ∧
        wlp (buildNewListFromBlock rules p (tree.view b) (tree.block b)) (fun _ new => SameEncodings list new) list)
      (fun _ _ => False) manager)
    (hrun : wp (processBlock rules order (tree.block b) b (tree.view b) false) (fun result _ => result = none)
      (fun _ _ => False) manager) :
    ManagerRun rules tree (finalState (processBlock rules order (tree.block b) b (tree.view b) false) manager)
      (insert b processed) := by
  obtain ⟨result, hrun, rfl⟩ := hrun.exists_finalState
  refine ManagerRun.process order false h hb ?_ ?_ hrun
  · intro p' hp'
    obtain rfl := Option.some.inj (hpprev.symm.trans hp')
    exact hp
  · intro p' hp' list manager₁ hget
    obtain rfl := Option.some.inj (hpprev.symm.trans hp')
    obtain ⟨hpass, hencodings⟩ := hchecks.ok hget
    exact ⟨⟨true, hpass⟩, fun new hnew => hencodings.ok hnew⟩

/-- The list of a block that can be asked for is returned, and the run goes on. -/
lemma ManagerRun.wp_getListForBlock {manager : CDeterministicMNManager G} {b : CBlockIndex}
    (h : ManagerRun rules tree manager processed) (hb : Askable rules tree processed b) (order : IterationOrder G) :
    wp (getListForBlock rules order b) (fun list manager' => ListOf tree b list ∧
      ManagerRun rules tree manager' processed) (fun _ _ => False) manager := by
  obtain ⟨hwf, hall⟩ := h.managerWf
  obtain ⟨list, manager', hrun, -, hlist⟩ := (hwf.wp_getListForBlock (hb.available hall) order).exists_ok
  exact (wp_of_ok hrun).mpr ⟨hlist, .ask order h hb hrun⟩

lemma ManagerRun.returns_undoBlock {manager : CDeterministicMNManager G} {b : CBlockIndex} {order : IterationOrder G}
    (h : ManagerRun rules tree manager processed) (hb : Askable rules tree processed b) (hpprev : b.pprev.isSome) :
    returns (undoBlock rules order b) manager := by
  obtain ⟨hwf, hall⟩ := h.managerWf
  have hundo := hwf.wp_undoBlock (hb.available hall) order
  unfold returns
  split
  next => rfl
  next e manager' he =>
    rw [hundo.error he] at hpprev
    cases hpprev

/-- Lists that agree in everything but internal ids and the number the next one is taken from. -/
structure SameButIds (list list' : CDeterministicMNList G) : Prop where
  blockHash : list.blockHash = list'.blockHash
  nHeight : list.nHeight = list'.nHeight
  mnMap : MapAlike list.mnMap list'.mnMap
  tierOne : MapAlike list.tierOne list'.tierOne
  tierTwo : MapAlike list.tierTwo list'.tierTwo
  properties : list.mnUniquePropertyMap = list'.mnUniquePropertyMap

/-- In every run, for every block that was processed or is before the first list, `GetListForBlock` returns the list
that the block and its ancestors build, up to internal ids. -/
theorem getListForBlock_same_as_foldList {manager : CDeterministicMNManager G} {processed : Set CBlockIndex}
    {b : CBlockIndex} (order : IterationOrder G) (h : ManagerRun rules tree manager processed)
    (hb : Askable rules tree processed b) :
    ∃ list manager' list', (getListForBlock rules order b).run manager = .ok list manager' ∧
      foldList rules tree b.header b.ancestors = some list' ∧ SameButIds list list' := by
  obtain ⟨list, manager', hrun, hlist, -⟩ := (h.wp_getListForBlock hb order).exists_ok
  obtain ⟨-, list', hfold, c, c', halike, -⟩ := hlist.spec
  exact ⟨list, manager', list', hrun, hfold, halike.blockHash, halike.nHeight, halike.mnMap, halike.tierOne,
    halike.tierTwo, halike.properties⟩

end

/-! ### A registration that is forgotten -/

open CDeterministicMNManager

def toyFork : CBlockIndex := ⟨{ nNonce := 6 }, (toyIndex 5).ancestors⟩

def toyNodes : List CBlockIndex := (List.range 6).map toyIndex ++ [toyFork]

/-- The blocks of the toy chain: the third one after genesis registers a masternode and spends its collateral, the next
one registers another. This one is revoked by the last block, and loses its collateral in the other one at that height,
which registers a third one. -/
def toyChain (b : CBlockIndex) : CBlock :=
  match b.header.nNonce.toNat with
  | 2 => toyBlock 2 []
  | 3 => toyBlock 3 [toyRegistration 7 5 2, toySpend 8 7]
  | 4 => toyBlock 4 [toyRegistration 9 4 3]
  | 5 => toyBlock 5 [toyRevoke 13 9 3]
  | 6 => toyBlock 6 [toySpend 11 9, toyRegistration 12 3 1]
  | _ => { vtx := [] }

lemma DistinctHashes.mono {rules : EvoRules G} {txs txs' : Set CTransaction} (h : DistinctHashes rules txs)
    (hsub : txs' ⊆ txs) : DistinctHashes rules txs' := by
  refine ⟨h.txHash.mono hsub, h.property.mono ?_⟩
  rintro v ⟨tx, htx, hv⟩
  exact ⟨tx, hsub htx, hv⟩

def toyTree : BlockTree toyRules where
  nodes := {b | b ∈ toyNodes}
  block := toyChain
  view _ _ := none
  pprev_mem := by
    have h : ∀ b ∈ toyNodes, ∀ p ∈ b.pprev, p ∈ toyNodes := by decide +kernel
    intro b p hb hp
    exact h b hb p hp
  hash_inj := by
    have h : ∀ a ∈ toyNodes, ∀ b ∈ toyNodes, toyRules.getBlockHash a.header = toyRules.getBlockHash b.header →
        a = b := by
      decide +kernel
    exact fun a ha b hb => h a ha b hb
  height := by
    have h : ∀ b ∈ toyNodes, IsInt32 b.nHeight := by
      unfold IsInt32
      decide +kernel
    exact h
  count := by
    have h : ∀ b ∈ toyNodes, registrations toyChain b.header b.ancestors ≤ maxSize := by decide +kernel
    exact h
  distinct := by
    have h : ∀ b ∈ toyNodes, ∀ tx ∈ (toyChain b).vtx, tx ∈ toyTxs := by decide +kernel
    refine distinctHashes_toyTxs.mono ?_
    rintro tx ⟨b, hb, htx⟩
    exact h b hb tx htx

def toyOrder : IterationOrder (Fin 4) where
  updates _ m := m.toList
  updates_perm _ _ := .refl _
  dmns := mns
  dmns_perm _ := .refl _

def toyProcessed (b : CBlockIndex) (manager : CDeterministicMNManager (Fin 4)) : CDeterministicMNManager (Fin 4) :=
  finalState (processBlock toyRules toyOrder (toyChain b) b (fun _ => none) false) manager

def toyManager : ℕ → CDeterministicMNManager (Fin 4)
  | 0 => {}
  | 1 => {}
  | height + 2 => toyProcessed (toyIndex (height + 2)) (toyManager (height + 1))

lemma toyIndex_pprev : (toyIndex (height + 1)).pprev = some (toyIndex height) := by
  unfold toyIndex
  rw [List.range_succ, List.reverse_append]
  rfl

lemma toyIndex_mem_toyTree (h : height < 6) : toyIndex height ∈ toyTree.nodes :=
  List.mem_append_left _ (List.mem_map.mpr ⟨height, List.mem_range.mpr h, rfl⟩)

/-- A block of the toy chain is processed after its predecessor, evaluated. -/
lemma ManagerRun.toyProcesses {manager : CDeterministicMNManager (Fin 4)} {b : CBlockIndex}
    (h : ManagerRun toyRules toyTree manager processed) (hb : b ∈ toyTree.nodes)
    (hpprev : b.pprev = some (toyIndex height)) (hp : Askable toyRules toyTree processed (toyIndex height))
    (hchecks : wp (getListForBlock toyRules toyOrder (toyIndex height)) (fun list _ =>
      (∀ tx ∈ (toyChain b).vtx, checkSpecialTx toyRules (toyIndex height) list (fun _ => none) true tx = .ok ()) ∧
        wlp (buildNewListFromBlock toyRules (toyIndex height) (fun _ => none) (toyChain b))
          (fun _ new => SameEncodings list new) list) (fun _ _ => False) manager)
    (hrun : wp (processBlock toyRules toyOrder (toyChain b) b (fun _ => none) false) (fun result _ => result = none)
      (fun _ _ => False) manager) :
    ManagerRun toyRules toyTree (toyProcessed b manager) (insert b processed) :=
  h.processes toyOrder hb hpprev hp hchecks hrun

lemma managerRun_toyManager : ∃ processed, toyIndex 4 ∈ processed ∧
    ManagerRun toyRules toyTree (toyManager 4) processed := by
  have h₂ : ManagerRun toyRules toyTree (toyManager 2) (insert (toyIndex 2) ∅) :=
    ManagerRun.init.toyProcesses (toyIndex_mem_toyTree (by decide)) toyIndex_pprev
      ⟨toyIndex_mem_toyTree (by decide), .inr (by decide)⟩ (by decide) (by decide)
  have h₃ := h₂.toyProcesses (b := toyIndex 3) (toyIndex_mem_toyTree (by decide)) toyIndex_pprev
    ⟨toyIndex_mem_toyTree (by decide), .inl (Set.mem_insert _ _)⟩ (by decide +kernel) (by decide +kernel)
  exact ⟨_, Set.mem_insert _ _, h₃.toyProcesses (b := toyIndex 4) (toyIndex_mem_toyTree (by decide)) toyIndex_pprev
    ⟨toyIndex_mem_toyTree (by decide), .inl (Set.mem_insert _ _)⟩ (by decide +kernel) (by decide +kernel)⟩

/-- The manager after the toy chain, with the caches cleaned up. -/
def toyCleaned : CDeterministicMNManager (Fin 4) :=
  ((toyProcessed (toyIndex 5) (toyManager 4)).updatedBlockTip (toyIndex 5)).cleanupCache toyRules 5000

/-- The manager after the last block was undone and the other one of its height was processed. -/
def toyReorganised : CDeterministicMNManager (Fin 4) :=
  toyProcessed toyFork (finalState (undoBlock toyRules toyOrder (toyIndex 5)) toyCleaned)

lemma managerRun_toyReorganised : ∃ processed, toyIndex 5 ∈ processed ∧ toyFork ∈ processed ∧
    ManagerRun toyRules toyTree toyReorganised processed := by
  obtain ⟨processed, hprocessed, h₄⟩ := managerRun_toyManager
  have hp : Askable toyRules toyTree processed (toyIndex 4) :=
    ⟨toyIndex_mem_toyTree (by decide), .inl hprocessed⟩
  have h₅ := h₄.toyProcesses (b := toyIndex 5) (toyIndex_mem_toyTree (by decide)) toyIndex_pprev hp (by decide +kernel)
    (by decide +kernel)
  have hundone := ManagerRun.undo toyOrder ((h₅.tip (toyIndex 5)).cleanup 5000)
    ⟨toyIndex_mem_toyTree (by decide), .inl (Set.mem_insert _ _)⟩ (run_of_returns (by decide +kernel))
  refine ⟨_, Set.mem_insert_of_mem _ (Set.mem_insert _ _), Set.mem_insert _ _,
    hundone.toyProcesses (List.mem_append_right _ (List.mem_singleton.mpr rfl))
      (show toyFork.pprev = some (toyIndex 4) from rfl) (hp.imp_right (Or.imp_left (Set.mem_insert_of_mem _))) (by decide +kernel) (by decide +kernel)⟩

/-- The lists of the two last blocks of the toy chain, after one of them took the place of the other. -/
theorem getListForBlock_same_as_foldList_toyReorganised :
    (∃ list manager' list', (getListForBlock toyRules toyOrder (toyIndex 5)).run toyReorganised = .ok list manager' ∧
      foldList toyRules toyTree (toyIndex 5).header (toyIndex 5).ancestors = some list' ∧ SameButIds list list') ∧
    ∃ list manager' list', (getListForBlock toyRules toyOrder toyFork).run toyReorganised = .ok list manager' ∧
      foldList toyRules toyTree toyFork.header toyFork.ancestors = some list' ∧ SameButIds list list' := by
  obtain ⟨processed, hlast, hfork, h⟩ := managerRun_toyReorganised
  constructor
  · exact getListForBlock_same_as_foldList toyOrder h ⟨toyIndex_mem_toyTree (by decide), .inl hlast⟩
  · exact getListForBlock_same_as_foldList toyOrder h ⟨List.mem_append_right _ (List.mem_singleton.mpr rfl), .inl hfork⟩

lemma internalId_getListForBlock_toyManager : wp (getListForBlock toyRules toyOrder (toyIndex 4))
    (fun list _ => list.mnMap[(9 : Uint256)]?.map (·.internalId) = some 0) (fun _ _ => False) (toyManager 4) := by
  decide +kernel

lemma internalId_foldList_toyTree : (foldList toyRules toyTree (toyIndex 4).header (toyIndex 4).ancestors).map
    (fun list => list.mnMap[(9 : Uint256)]?.map (·.internalId)) = some (some 1) := by
  decide +kernel

/-- The masternode that is registered after one that was registered and removed within a block has another internal id
in the list of the manager than in the one that the blocks build. -/
theorem getListForBlock_ne_foldList :
    ∃ processed list manager' list', ManagerRun toyRules toyTree (toyManager 4) processed ∧ toyIndex 4 ∈ processed ∧
      (getListForBlock toyRules toyOrder (toyIndex 4)).run (toyManager 4) = .ok list manager' ∧
      foldList toyRules toyTree (toyIndex 4).header (toyIndex 4).ancestors = some list' ∧
      list.mnMap[(9 : Uint256)]?.map (·.internalId) = some 0 ∧
      list'.mnMap[(9 : Uint256)]?.map (·.internalId) = some 1 ∧ list.mnMap ≠ list'.mnMap := by
  obtain ⟨list, manager', hget, hid⟩ := internalId_getListForBlock_toyManager.exists_ok
  obtain ⟨list', hlist', hid'⟩ := Option.map_eq_some_iff.mp internalId_foldList_toyTree
  have hne : list.mnMap ≠ list'.mnMap := by
    intro heq
    rw [heq, hid'] at hid
    exact absurd hid (by decide)
  obtain ⟨processed, hprocessed, hrun⟩ := managerRun_toyManager
  exact ⟨processed, list, manager', list', hrun, hprocessed, hget, hlist', hid, hid', hne⟩

end Blocx
