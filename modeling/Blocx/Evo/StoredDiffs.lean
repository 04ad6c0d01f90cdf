import Blocx.Evo.BlockInvariant
import Blocx.Evo.DmnListDiff

/-!
# Stored differences reproduce a list

A node stores, for each block, the difference between the list of the previous block and the one that
`BuildNewListFromBlock` builds, and later applies it to the former. For a block whose special transactions pass the
checks the new list follows the old one in the sense of `Follows`, and every value in the difference is one that can be
written and read back. So the difference survives the disk and can be applied, whatever the order of its updates.

The list that results has everything the new list has, except perhaps the number of registrations. That number is part
of no difference: it is recovered from the internal ids of the masternodes that are added, and a masternode that is
registered and removed again within the block is not among them.
-/

namespace Blocx

open List

open CDeterministicMNList Wire CDeterministicMNListDiff

variable {G : Type} {old new : CDeterministicMNList G} {txs : Set CTransaction} {rules : EvoRules G} {height : ℤ}

section Evolution

variable (h : Evolved rules txs old height new)

include h

lemma Evolved.follows (hold : Rep rules.crypto old) : Follows rules.crypto old new :=
  ⟨hold, h.rep, h.kept, h.noTakeover⟩

variable [DecidableEq G]

lemma Evolved.listDiffWf (hold : ListWf rules txs old)
    (htotal : new.nTotalRegisteredCount ≤ maxSize) : ListDiffWf (old.buildDiff new) := by
  have hf := h.follows hold.rep
  have hmax : maxSize < 2 ^ 64 := by decide
  have hid : ∀ {x : Uint256} {b : CDeterministicMN G}, new.mnMap[x]? = some b → b.internalId < maxSize :=
    fun hb => (h.internalId _ _ hb).trans_le htotal
  constructor
  case addedMNs =>
    intro b hb
    obtain ⟨hb, -⟩ := hf.mem_addedMNs.mp hb
    exact ⟨(hid hb).trans hmax, (h.mn _ b hb).nType, (h.mn _ b hb).state⟩
  case updatedMNs =>
    intro id d hd
    obtain ⟨x, a, b, -, hb, rfl, rfl, -⟩ := hf.repNew.getElem?_updatedMNs.mp hd
    exact ⟨(hid hb).trans hmax, CDeterministicMNStateDiff.wf_ofStates _ (h.mn x b hb).state⟩
  case removedMns =>
    intro id hid
    obtain ⟨x, a, ha, -, rfl⟩ := hf.repOld.mem_removedMns.mp hid
    exact ((hold.internalId x a ha).trans_le hold.total).trans hmax
  case addedCount =>
    have hle := length_le_of_nodup hf.nodup_addedMNs (n := maxSize) fun id hmem => by
      obtain ⟨b, hb, rfl⟩ := mem_map.mp hmem
      exact hid (hf.mem_addedMNs.mp hb).1
    rwa [length_map] at hle
  case updatedCount =>
    have hle := length_le_of_nodup (nodup_keys_toList (old.buildDiff new).updatedMNs) (n := maxSize) fun id hmem => by
      obtain ⟨⟨id, d⟩, hd, rfl⟩ := mem_map.mp hmem
      obtain ⟨x, a, b, -, hb, rfl, -⟩ :=
        hf.repNew.getElem?_updatedMNs.mp (Std.ExtTreeMap.mem_toList_iff_getElem?_eq_some.mp hd)
      exact hid hb
    rwa [length_map, Std.ExtTreeMap.length_toList] at hle
  case removedCount =>
    have hnodup : (old.buildDiff new).removedMns.toList.Nodup :=
      Std.ExtTreeSet.distinct_toList.imp fun hne => by rwa [Std.compare_eq_iff_eq] at hne
    have hle := length_le_of_nodup hnodup (n := maxSize) fun id hmem => by
      obtain ⟨x, a, ha, -, rfl⟩ := hf.repOld.mem_removedMns.mp (Std.ExtTreeSet.mem_toList.mp hmem)
      exact (hold.internalId x a ha).trans_le hold.total
    rwa [Std.ExtTreeSet.length_toList] at hle

/-- The number of registrations that is recovered from a difference. -/
lemma Evolved.appliedCount_spec (hold : ListWf rules txs old) (htotal : new.nTotalRegisteredCount ≤ maxSize) :
    appliedCount old new ≤ new.nTotalRegisteredCount ∧
    (∀ (x : Uint256) (b : CDeterministicMN G), new.mnMap[x]? = some b → b.internalId < appliedCount old new) ∧
    (appliedCount old new = new.nTotalRegisteredCount ↔ old.nTotalRegisteredCount = new.nTotalRegisteredCount ∨
      ∃ (x : Uint256) (b : CDeterministicMN G), new.mnMap[x]? = some b ∧
        b.internalId + 1 = new.nTotalRegisteredCount) := by
  have hf := h.follows hold.rep
  have hmax : maxSize < 2 ^ 32 := by decide
  obtain ⟨hle, hN, hadded, hr⟩ := foldl_bumpTotalCount (old.buildDiff new).addedMNs
    (htotal.trans_lt hmax) h.total fun b hb => h.internalId _ b (hf.mem_addedMNs.mp hb).1
  change _ ≤ appliedCount old new at hle
  change appliedCount old new ≤ _ at hN
  have hids : ∀ (x : Uint256) (b : CDeterministicMN G), new.mnMap[x]? = some b →
      b.internalId < appliedCount old new := by
    intro x b hb
    cases ha : old.mnMap[x]? with
    | some a =>
      rw [h.kept x a b ha hb]
      exact (hold.internalId x a ha).trans_le hle
    | none =>
      obtain rfl := h.rep.proTxHash x b hb
      exact hadded b (hf.mem_addedMNs.mpr ⟨hb, ha⟩)
  refine ⟨hN, hids, fun heq => ?_, ?_⟩
  · obtain hr | ⟨b, hb, hr⟩ := hr
    · exact .inl (hr.symm.trans heq)
    · exact .inr ⟨b.proTxHash, b, (hf.mem_addedMNs.mp hb).1, hr.trans heq⟩
  · rintro (heq | ⟨x, b, hb, heq⟩)
    · omega
    · have hlt := hids x b hb
      omega

end Evolution

/-! ### Blocks -/

/-- A block that passes the checks and builds a list. -/
structure BlockBuilds [DecidableEq G] (rules : EvoRules G) (txs : Set CTransaction) (old : CDeterministicMNList G)
    (pindexPrev : CBlockIndex) (view : CCoinsView) (block : CBlock) (new : CDeterministicMNList G) : Prop where
  txs : ∀ tx ∈ block.vtx, tx ∈ txs
  /-- Its special transactions pass the checks, with or without those of signatures. -/
  checked : ∃ checkSigs, ∀ tx ∈ block.vtx, checkSpecialTx rules pindexPrev old view checkSigs tx = .ok ()
  built : (buildNewListFromBlock rules pindexPrev view block).run old = .ok () new
  height : IsInt32 (pindexPrev.nHeight + 1)
  /-- The number of registrations stays below `MAX_SIZE`. -/
  count : old.nTotalRegisteredCount + block.vtx.countP isRegistration ≤ maxSize

/-- The lists that a node can have: those of blocks before the first masternode, those that a block builds, and those
that a stored difference leads to. -/
inductive ReachableDmnList [DecidableEq G] (rules : EvoRules G) (txs : Set CTransaction) :
    CDeterministicMNList G → Prop where
  /-- The list of a block before masternodes. -/
  | initial (blockHash : Uint256) : ReachableDmnList rules txs { blockHash }
  /-- The list that a block builds, with the hash of the block. -/
  | built {old new : CDeterministicMNList G} {pindexPrev : CBlockIndex} {view : CCoinsView} {block : CBlock}
    (blockHash : Uint256) (hold : ReachableDmnList rules txs old)
    (hblock : BlockBuilds rules txs old pindexPrev view block new) : ReachableDmnList rules txs { new with blockHash }
  /-- The list that the stored difference of a block leads to. -/
  | stored {old new list : CDeterministicMNList G} {pindexPrev : CBlockIndex} {view : CCoinsView} {block : CBlock}
    {diff : CDeterministicMNListDiff G} {order order' : UpdateOrder G} (blockHash : Uint256)
    (hold : ReachableDmnList rules txs old) (hblock : BlockBuilds rules txs old pindexPrev view block new)
    (henc : SameEncodings old new) (horder : order.Perm (old.buildDiff new).updatedMNs.toList)
    (hread : (unserialize rules.crypto.bls).run
      ((old.buildDiff new).serialize rules.crypto.bls order) = some (diff, []))
    (horder' : order'.Perm diff.updatedMNs.toList)
    (happly : (applyDiff rules.crypto blockHash (pindexPrev.nHeight + 1) diff order').run old = .ok () list) :
    ReachableDmnList rules txs list

section Blocks

variable {pindexPrev : CBlockIndex} {view : CCoinsView} {block : CBlock}

lemma listWf_initial (blockHash : Uint256) : ListWf rules txs { blockHash } := by
  have hempty : ∀ {P : Prop} {x : Uint256} {dmn : CDeterministicMN G}, (∅ : MnMap G)[x]? = some dmn → P := by
    intro P x dmn h
    cases h
  exact ⟨Rep.empty blockHash (-1) 0, fun _ _ => hempty, fun _ _ => hempty, Nat.zero_le _, isInt32_neg_one⟩

/-- A list with the masternodes that a block leads to, and a number of registrations that is large enough. -/
lemma Evolved.listWf (h : Evolved rules txs old height new) (hint : IsInt32 height) {n : ℕ}
    (hids : ∀ (x : Uint256) b, new.mnMap[x]? = some b → b.internalId < n) (hn : n ≤ maxSize)
    (blockHash : Uint256) : ListWf rules txs { new with blockHash, nTotalRegisteredCount := n } :=
  ⟨{ h.rep with }, h.mn, hids, hn, h.nHeight ▸ hint⟩

variable [DecidableEq G]

section

variable (h : BlockBuilds rules txs old pindexPrev view block new)

include h

lemma BlockBuilds.evolved (hold : ListWf rules txs old) (hdist : DistinctHashes rules txs) :
    Evolved rules txs old (pindexPrev.nHeight + 1) new ∧ new.nTotalRegisteredCount ≤ maxSize := by
  obtain ⟨checkSigs, hchecked⟩ := h.checked
  exact (evolved_buildNewListFromBlock hold hdist h.height h.txs hchecked h.count).ok h.built

/-- The difference that a block makes is read back, applies in any order, and leads to the new list but for the number
of registrations. -/
lemma BlockBuilds.applyDiff_eq (hold : ListWf rules txs old)
    (hdist : DistinctHashes rules txs) (henc : SameEncodings old new) (blockHash : Uint256) {order : UpdateOrder G}
    (horder : order.Perm (old.buildDiff new).updatedMNs.toList) :
    (unserialize rules.crypto.bls).run
      ((old.buildDiff new).serialize rules.crypto.bls order) = some (old.buildDiff new, []) ∧
    (applyDiff rules.crypto blockHash (pindexPrev.nHeight + 1) (old.buildDiff new) order).run old =
      .ok () { new with blockHash, nTotalRegisteredCount := appliedCount old new } := by
  obtain ⟨hevolved, htotal⟩ := h.evolved hold hdist
  refine ⟨(reads_serialize _ (hevolved.listDiffWf hold htotal) horder).run_eq, ?_⟩
  obtain ⟨u, list, hrun, hlist⟩ :=
    ((hevolved.follows hold.rep).wp_applyDiff henc horder blockHash (pindexPrev.nHeight + 1)).exists_ok
  rw [hrun, hlist, hevolved.nHeight]

end

/-- Every list that a node can have is well-formed. -/
lemma ReachableDmnList.listWf (hdist : DistinctHashes rules txs) {list : CDeterministicMNList G}
    (h : ReachableDmnList rules txs list) : ListWf rules txs list := by
  induction h with
  | initial blockHash => exact listWf_initial blockHash
  | built blockHash hold hblock ih =>
    obtain ⟨hevolved, htotal⟩ := hblock.evolved ih hdist
    exact hevolved.listWf hblock.height hevolved.internalId htotal blockHash
  | @stored old new list _ _ _ diff order order' blockHash hold hblock henc horder hread horder' happly ih =>
    obtain ⟨hevolved, htotal⟩ := hblock.evolved ih hdist
    obtain ⟨hle, hids, -⟩ := hevolved.appliedCount_spec ih htotal
    obtain ⟨hread', -⟩ := hblock.applyDiff_eq ih hdist henc blockHash horder
    rw [hread] at hread'
    cases hread'
    obtain ⟨-, happly'⟩ := hblock.applyDiff_eq ih hdist henc blockHash horder'
    rw [happly] at happly'
    cases happly'
    exact hevolved.listWf hblock.height hids (hle.trans htotal) blockHash

/-- For every list that a node can have and every block that passes the checks and builds a list, the difference is
written and read back in any order and applies in any order. It leads to the list of the block in every respect but the
number of registrations, which is the same exactly when nothing was registered or the last registration is still
listed. -/
theorem applyDiff_buildDiff (hdist : DistinctHashes rules txs) (hold : ReachableDmnList rules txs old)
    (hblock : BlockBuilds rules txs old pindexPrev view block new) (henc : SameEncodings old new) (blockHash : Uint256)
    {order : UpdateOrder G} (horder : order.Perm (old.buildDiff new).updatedMNs.toList) :
    ∃ diff, (unserialize rules.crypto.bls).run
        ((old.buildDiff new).serialize rules.crypto.bls order) = some (diff, []) ∧
      ∀ order' : UpdateOrder G, order'.Perm diff.updatedMNs.toList → ∃ list,
        (applyDiff rules.crypto blockHash (pindexPrev.nHeight + 1) diff order').run old = .ok () list ∧
        list = { new with blockHash, nTotalRegisteredCount := list.nTotalRegisteredCount } ∧
        (list.nTotalRegisteredCount = new.nTotalRegisteredCount ↔
          old.nTotalRegisteredCount = new.nTotalRegisteredCount ∨
          ∃ (x : Uint256) (dmn : CDeterministicMN G), new.mnMap[x]? = some dmn ∧
            dmn.internalId + 1 = new.nTotalRegisteredCount) := by
  have hwf := hold.listWf hdist
  obtain ⟨hevolved, htotal⟩ := hblock.evolved hwf hdist
  refine ⟨old.buildDiff new, (hblock.applyDiff_eq hwf hdist henc blockHash horder).1, fun order' horder' => ?_⟩
  refine ⟨_, (hblock.applyDiff_eq hwf hdist henc blockHash horder').2, rfl, ?_⟩
  exact (hevolved.appliedCount_spec hwf htotal).2.2

end Blocks

/-! ### A registration whose collateral is spent in the same block -/

/-- Rules without signatures, quorums and real hashes. -/
def toyRules : EvoRules (Fin 4) where
  params := Consensus.mainParams
  crypto := toyCrypto
  hash160 _ := 0
  hash256 _ := 0
  getBlockHash header := header.nNonce.setWidth 256
  isV19Active _ := false
  isMain := false
  requireRoutableExternalIP := false
  fAllowPrivateNet := false
  checkStringSig _ _ := true
  checkServSig _ _ := true
  checkRegSig _ _ := true
  checkRevSig _ _ := true
  checkCbTx _ _ := .ok ()
  checkLLMQCommitment _ _ := .ok ()
  checkMNHFTx _ _ := .ok ()
  getAllQuorumMembers _ _ := []

def toyScript (key : CKeyID) : CScript := [0x76, 0xa9, 0x14] ++ put key ++ [0x88, 0xac]

/-- A registration without an address, whose collateral is its own first output. -/
def toyRegistration (hash : Uint256) (owner : CKeyID) (operator : Fin 4) : CTransaction where
  hash := hash
  nVersion := 3
  nType := .providerRegister
  vin := []
  vout := [⟨100000 * COIN, toyScript 6⟩]
  vExtraPayload := put 1#16 ++ put 0#16 ++ put 0#16 ++ COutPoint.serialize ⟨0, 0⟩ ++ CService.serialize {} ++
    put owner ++
    put (toyBls.serialize true operator) ++ put owner ++ put 0#16 ++ putBytes (toyScript 6) ++ put 0#256 ++ putBytes []

def toySpend (hash spent : Uint256) : CTransaction where
  hash := hash
  nVersion := 1
  nType := .normal
  vin := [⟨⟨spent, 0⟩, [], 0⟩]
  vout := []

def toyRevoke (hash proTxHash : Uint256) (signer : Fin 4) : CTransaction where
  hash := hash
  nVersion := 3
  nType := .providerUpdateRevoke
  vin := []
  vout := []
  vExtraPayload := put 1#16 ++ put proTxHash ++ put 0#16 ++ put 0#256 ++ put (BitVec.ofNat 768 (signer.val + 1))

def toyIndex (height : ℕ) : CBlockIndex :=
  ⟨{ nNonce := height }, (List.range height).reverse.map fun i => { nNonce := i }⟩

def toyBlock (height : ℕ) (vtx : List CTransaction) : CBlock :=
  { nNonce := height, vtx := toySpend (100 + height) 0 :: vtx }

def toyTxs : List CTransaction :=
  (List.range 5).map (fun i => toySpend (102 + BitVec.ofNat 256 i) 0) ++ [toyRegistration 7 5 2, toyRegistration 9 4 3,
    toyRegistration 12 3 1, toySpend 8 7, toySpend 11 9, toyRevoke 10 7 2, toyRevoke 13 9 3]

/-- The hashes of a list of transactions, evaluated. -/
lemma distinctHashes_of_forall {rules : EvoRules (Fin 4)} {vtx : List CTransaction}
    (htx : ∀ a ∈ vtx, ∀ b ∈ vtx, a.hash = b.hash → a = b)
    (hprop : ∀ v ∈ vtx.flatMap (namedProperties rules), ∀ w ∈ vtx.flatMap (namedProperties rules),
      rules.crypto.serializeHash v = rules.crypto.serializeHash w → v = w) : DistinctHashes rules {tx | tx ∈ vtx} := by
  refine ⟨fun a ha b hb => htx a ha b hb, ?_⟩
  rintro v ⟨a, ha, hv⟩ w ⟨b, hb, hw⟩
  exact hprop v (mem_flatMap.mpr ⟨a, ha, hv⟩) w (mem_flatMap.mpr ⟨b, hb, hw⟩)

lemma distinctHashes_toyTxs : DistinctHashes toyRules {tx | tx ∈ toyTxs} :=
  distinctHashes_of_forall (by decide +kernel) (by decide +kernel)

def toyInitial : CDeterministicMNList (Fin 4) := { blockHash := 1 }

def toyBuilt (old : CDeterministicMNList (Fin 4)) (height : ℕ) (block : CBlock) : CDeterministicMNList (Fin 4) :=
  finalState (buildNewListFromBlock toyRules (toyIndex (height - 1)) (fun _ => none) block) old

/-- The block that registers two masternodes. -/
def registerBlock : CBlock := toyBlock 2 [toyRegistration 7 5 2, toyRegistration 9 4 3]

/-- The block after it: one of them is revoked, one loses its collateral, and a third one is registered. -/
def changeBlock : CBlock := toyBlock 3 [toyRevoke 10 7 2, toySpend 11 9, toyRegistration 12 3 1]

/-- The block that registers a masternode and spends its collateral. -/
def registerSpendBlock : CBlock := toyBlock 2 [toyRegistration 7 5 2, toySpend 8 7]

/-- A block of the toy chain that passes the checks, evaluated. -/
lemma toyBlockBuilds {old : CDeterministicMNList (Fin 4)} (height : ℕ) (block : CBlock)
    (htxs : ∀ tx ∈ block.vtx, tx ∈ toyTxs) (hchecked : ∀ tx ∈ block.vtx,
      checkSpecialTx toyRules (toyIndex (height - 1)) old (fun _ => none) true tx = .ok ())
    (hbuilt : returns (buildNewListFromBlock toyRules (toyIndex (height - 1)) (fun _ => none) block) old)
    (hheight : (toyIndex (height - 1)).nHeight < 100)
    (hcount : old.nTotalRegisteredCount + block.vtx.countP isRegistration ≤ maxSize) :
    BlockBuilds toyRules {tx | tx ∈ toyTxs} old (toyIndex (height - 1)) (fun _ => none) block
      (toyBuilt old height block) :=
  have hpos := (toyIndex (height - 1)).nHeight_nonneg
  { txs := htxs
    checked := ⟨true, hchecked⟩
    built := run_of_returns hbuilt
    height := ⟨by omega, by omega⟩
    count := hcount }

lemma blockBuilds_registerBlock : BlockBuilds toyRules {tx | tx ∈ toyTxs} toyInitial (toyIndex 1) (fun _ => none)
    registerBlock (toyBuilt toyInitial 2 registerBlock) :=
  toyBlockBuilds 2 registerBlock (by decide +kernel) (by decide +kernel) (by decide +kernel)
    (by decide) (by decide)

def toyRegistered : CDeterministicMNList (Fin 4) := { toyBuilt toyInitial 2 registerBlock with blockHash := 2 }

lemma reachable_toyRegistered : ReachableDmnList toyRules {tx | tx ∈ toyTxs} toyRegistered :=
  .built 2 (.initial 1) blockBuilds_registerBlock

lemma blockBuilds_changeBlock : BlockBuilds toyRules {tx | tx ∈ toyTxs} toyRegistered (toyIndex 2) (fun _ => none)
    changeBlock (toyBuilt toyRegistered 3 changeBlock) :=
  toyBlockBuilds 3 changeBlock (by decide +kernel) (by decide +kernel) (by decide +kernel)
    (by decide) (by decide +kernel)

lemma blockBuilds_registerSpendBlock : BlockBuilds toyRules {tx | tx ∈ toyTxs} toyInitial (toyIndex 1) (fun _ => none)
    registerSpendBlock (toyBuilt toyInitial 2 registerSpendBlock) :=
  toyBlockBuilds 2 registerSpendBlock (by decide +kernel) (by decide +kernel) (by decide +kernel)
    (by decide) (by decide)

lemma sameEncodings_toyInitial (new : CDeterministicMNList (Fin 4)) : SameEncodings toyInitial new := by
  intro x a b ha
  cases ha

/-- The difference of a block that adds, changes and removes a masternode reproduces its list. -/
theorem applyDiff_buildDiff_changeBlock :
    let new := toyBuilt toyRegistered 3 changeBlock
    let changes := toyRegistered.buildDiff new
    changes.addedMNs.length = 1 ∧ changes.updatedMNs.size = 1 ∧ changes.removedMns.size = 1 ∧
    ∃ diff, (unserialize toyBls).run (changes.serialize toyBls changes.updatedMNs.toList) = some (diff, []) ∧
      ∀ order' : UpdateOrder (Fin 4), order'.Perm diff.updatedMNs.toList → ∃ list,
        (applyDiff toyCrypto 3 3 diff order').run toyRegistered = .ok () list ∧
        list = { new with blockHash := 3, nTotalRegisteredCount := list.nTotalRegisteredCount } ∧
        (list.nTotalRegisteredCount = new.nTotalRegisteredCount ↔
          toyRegistered.nTotalRegisteredCount = new.nTotalRegisteredCount ∨
          ∃ (x : Uint256) (dmn : CDeterministicMN (Fin 4)), new.mnMap[x]? = some dmn ∧
            dmn.internalId + 1 = new.nTotalRegisteredCount) :=
  ⟨by decide +kernel, by decide +kernel, by decide +kernel,
    applyDiff_buildDiff distinctHashes_toyTxs reachable_toyRegistered blockBuilds_changeBlock (by decide +kernel) 3
      (List.Perm.refl _)⟩

/-- The difference of the block that registers a masternode and spends its collateral is read back and applies, and the
number of registrations is lost. -/
theorem applyDiff_buildDiff_registerSpendBlock :
    let new := toyBuilt toyInitial 2 registerSpendBlock
    DistinctHashes toyRules {tx | tx ∈ toyTxs} ∧ ReachableDmnList toyRules {tx | tx ∈ toyTxs} toyInitial ∧
    BlockBuilds toyRules {tx | tx ∈ toyTxs} toyInitial (toyIndex 1) (fun _ => none) registerSpendBlock new ∧
    SameEncodings toyInitial new ∧
    ∃ diff list, (unserialize toyBls).run
        ((toyInitial.buildDiff new).serialize toyBls (toyInitial.buildDiff new).updatedMNs.toList) = some (diff, []) ∧
      (applyDiff toyCrypto 2 2 diff diff.updatedMNs.toList).run toyInitial = .ok () list ∧
      list.nTotalRegisteredCount = 0 ∧ new.nTotalRegisteredCount = 1 := by
  have hblock := blockBuilds_registerSpendBlock
  have henc := sameEncodings_toyInitial (toyBuilt toyInitial 2 registerSpendBlock)
  obtain ⟨hread, happly⟩ := hblock.applyDiff_eq (listWf_initial 1) distinctHashes_toyTxs henc 2 (List.Perm.refl _)
  exact ⟨distinctHashes_toyTxs, .initial 1, hblock, henc, _, _, hread, happly, by decide +kernel, by decide +kernel⟩

end Blocx
