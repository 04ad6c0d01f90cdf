import Blocx.Evo.BuildNewList
import Blocx.Evo.DmnSnapshot

/-!
# The masternode manager

`CDeterministicMNManager` (`evo/deterministicmns.h`, `evo/deterministicmns.cpp`): the lists of all blocks that were
processed, kept as differences between neighbouring blocks, with a snapshot now and then, on disk and in two caches.
`GetListForBlock` walks back from a block until it finds a list, in the cache or on disk, and then forward again through
the differences. A block for which neither is found counts as one before the first list, which is how blocks without
masternodes are recognised.

The database holds the bytes that were written. The orders in which unordered maps are iterated are an argument of each
call. Notifications and logs are left out.
-/

namespace Blocx

open CDeterministicMNList

variable {G : Type}

/-- The part of `CEvoDB` that holds lists. -/
structure CEvoDB where
  listDiff : Std.ExtTreeMap Uint256 (List UInt8) := ∅
  listSnapshot : Std.ExtTreeMap Uint256 (List UInt8) := ∅

structure CDeterministicMNManager (G : Type) where
  evoDb : CEvoDB := {}
  mnListsCache : Std.ExtTreeMap Uint256 (CDeterministicMNList G) := ∅
  mnListDiffsCache : Std.ExtTreeMap Uint256 (CDeterministicMNListDiff G) := ∅
  tipIndex : Option CBlockIndex := none
  /-- Height up to which the caches were cleaned. -/
  didCleanup : ℤ := 0
  /-- Height up to which they should be. -/
  toCleanup : ℤ := 0

/-- The orders of the iterations over unordered maps in a call. -/
structure IterationOrder (G : Type) where
  /-- The updates in the difference of a block. -/
  updates : Uint256 → Std.ExtTreeMap ℕ (CDeterministicMNStateDiff G) → UpdateOrder G
  updates_perm : ∀ (hash : Uint256) (m : Std.ExtTreeMap ℕ (CDeterministicMNStateDiff G)), (updates hash m).Perm m.toList
  /-- The masternodes of a list. -/
  dmns : MnMap G → List (CDeterministicMN G)
  dmns_perm : ∀ m : MnMap G, (dmns m).Perm (mns m)

/-- Programs on the manager. -/
abbrev ManagerM (G : Type) : Type → Type := EStateM DmnException (CDeterministicMNManager G)

def diskSnapshotPeriod : ℤ := 576

/-- `llmq_max_blocks`: four quorums of the type `LLMQ_400_85`, one every 576 blocks. -/
def llmqMaxBlocks : ℤ := 4 * 576

def listDiffsCacheSize : ℤ := diskSnapshotPeriod * (llmqMaxBlocks / diskSnapshotPeriod + 1)

namespace CDeterministicMNManager

section Reading

variable (rules : EvoRules G)

/-- The difference of a block on disk. -/
def readDiff (manager : CDeterministicMNManager G) (hash : Uint256) : Option (CDeterministicMNListDiff G) :=
  manager.evoDb.listDiff[hash]?.bind fun bytes =>
    ((CDeterministicMNListDiff.unserialize rules.crypto.bls).run bytes).map Prod.fst

/-- The list of a block on disk. -/
def readSnapshot (manager : CDeterministicMNManager G) (hash : Uint256) : Option (CDeterministicMNList G) :=
  manager.evoDb.listSnapshot[hash]?.bind fun bytes =>
    ((CDeterministicMNList.unserialize rules.crypto).run bytes).map Prod.fst

/-- `mnListsCache.emplace`. -/
def cacheList (hash : Uint256) (list : CDeterministicMNList G) (manager : CDeterministicMNManager G) :
    CDeterministicMNManager G :=
  { manager with mnListsCache := manager.mnListsCache.insertIfNew hash list }

def cacheDiff (hash : Uint256) (diff : CDeterministicMNListDiff G) (manager : CDeterministicMNManager G) :
    CDeterministicMNManager G :=
  { manager with mnListDiffsCache := manager.mnListDiffsCache.insertIfNew hash diff }

/-- A turn of the search in `GetListForBlock`: a list, or none when the difference of the block is in the cache and the
search goes on with the previous block. -/
def findList (pindex : CBlockIndex) : ManagerM G (Option (CDeterministicMNList G)) := do
  let hash := rules.getBlockHash pindex.header
  let manager ← get
  match manager.mnListsCache[hash]? with
  | some list => return some list
  | none =>
    match manager.readSnapshot rules hash with
    | some list =>
      modify (cacheList hash list)
      return some list
    | none =>
      if manager.mnListDiffsCache.contains hash then return none
      else match manager.readDiff rules hash with
        | none =>
          modify (cacheList hash { blockHash := hash })
          return some { blockHash := hash }
        | some diff =>
          modify (cacheDiff hash { diff with nHeight := pindex.nHeight })
          return none

/-- The search in `GetListForBlock`, from a header and the ones before it: a list, and the blocks whose differences lead
from there to the block, the first one first. -/
def searchList (header : CBlockHeader) : List CBlockHeader → List CBlockIndex →
    ManagerM G (CDeterministicMNList G × List CBlockIndex)
  | [], listDiffIndexes => do
    match ← findList rules ⟨header, []⟩ with
    | some list => return (list, listDiffIndexes)
    | none => throw .nullPointer
  | prev :: ancestors, listDiffIndexes => do
    match ← findList rules ⟨header, prev :: ancestors⟩ with
    | some list => return (list, listDiffIndexes)
    | none => searchList prev ancestors (⟨header, prev :: ancestors⟩ :: listDiffIndexes)

/-- A turn of the way forward in `GetListForBlock`. -/
def advanceList [DecidableEq G] (order : IterationOrder G) (snapshot : CDeterministicMNList G)
    (diffIndex : CBlockIndex) : ManagerM G (CDeterministicMNList G) := do
  let hash := rules.getBlockHash diffIndex.header
  let manager ← get
  match manager.mnListDiffsCache[hash]? with
  | none => throw .outOfRange
  | some diff =>
    if diff.hasChanges then
      match (applyDiff rules.crypto hash diffIndex.nHeight diff (order.updates hash diff.updatedMNs)).run snapshot with
      | .ok _ list => return list
      | .error e _ => throw e
    else return { snapshot with blockHash := hash, nHeight := diffIndex.nHeight }

/-- A quorum of some type could still use the list of a height, seen from another height. -/
def isQuorumHeight (listHeight nHeight : ℤ) : Bool :=
  rules.params.llmqs.any fun params =>
    listHeight.tmod params.dkgInterval = 0 &&
      decide (listHeight + params.dkgInterval * (params.keepOldConnections + 1) ≥ nHeight)

/-- The end of `GetListForBlock`: the lists of the tip and of quorums are kept. -/
def keepList (snapshot : CDeterministicMNList G) (manager : CDeterministicMNManager G) : CDeterministicMNManager G :=
  match manager.tipIndex with
  | none => manager
  | some tip =>
    if snapshot.blockHash = rules.getBlockHash tip.header || isQuorumHeight rules snapshot.nHeight tip.nHeight then
      manager.cacheList snapshot.blockHash snapshot
    else manager

def getListForBlock [DecidableEq G] (order : IterationOrder G) (pindex : CBlockIndex) :
    ManagerM G (CDeterministicMNList G) := do
  let (list, listDiffIndexes) ← searchList rules pindex.header pindex.ancestors []
  let snapshot ← listDiffIndexes.foldlM (advanceList rules order) list
  modify (keepList rules snapshot)
  return snapshot

end Reading

section Blocks

variable [DecidableEq G] (rules : EvoRules G) (order : IterationOrder G)

/-- Write the difference and perhaps the list of a block. -/
def storeBlock (pindex : CBlockIndex) (oldList newList : CDeterministicMNList G) (manager : CDeterministicMNManager G) :
    CDeterministicMNManager G :=
  let hash := rules.getBlockHash pindex.header
  let diff := oldList.buildDiff newList
  let bytes := diff.serialize rules.crypto.bls (order.updates hash diff.updatedMNs)
  let manager := { manager with evoDb.listDiff := manager.evoDb.listDiff.insert hash bytes }
  let manager :=
    if pindex.nHeight.tmod diskSnapshotPeriod = 0 ∨ oldList.nHeight = -1 then
      let bytes := newList.serialize rules.crypto.bls (order.dmns newList.mnMap)
      cacheList hash newList { manager with evoDb.listSnapshot := manager.evoDb.listSnapshot.insert hash bytes }
    else manager
  cacheDiff hash { diff with nHeight := pindex.nHeight } manager

/-- The part of `ProcessBlock` whose exceptions are caught: a reason to refuse the block, or whether it was stored. -/
def tryProcessBlock (block : CBlock) (pindexPrev pindex : CBlockIndex) (view : CCoinsView) (fJustCheck : Bool) :
    ManagerM G (Except String Bool) := do
  let oldList ← getListForBlock rules order pindexPrev
  match (buildNewListFromBlock rules pindexPrev view block).run oldList with
  | .error (.invalid reason) _ => return .error reason
  | .error e _ => throw e
  | .ok _ newList =>
    if fJustCheck then return .ok false
    else
      let newList := if newList.nHeight = -1 then { newList with nHeight := pindex.nHeight } else newList
      let newList := { newList with blockHash := rules.getBlockHash pindex.header }
      let oldList ← getListForBlock rules order pindexPrev
      modify (storeBlock rules order pindex oldList newList)
      return .ok true

/-- The block at the enforcement height has another hash than expected. -/
def isWrongEnforcementBlock (pindex : CBlockIndex) : Bool :=
  pindex.nHeight = rules.params.DIP0003EnforcementHeight && rules.params.DIP0003EnforcementHash ≠ 0 &&
    rules.params.DIP0003EnforcementHash ≠ rules.getBlockHash pindex.header

/-- `ProcessBlock`: nothing, or the reason for which the block is refused. -/
def processBlock (block : CBlock) (pindex : CBlockIndex) (view : CCoinsView) (fJustCheck : Bool) :
    ManagerM G (Option String) :=
  if pindex.nHeight < rules.params.DIP0003Height then pure none
  else match pindex.pprev with
    | none => throw .nullPointer
    | some pindexPrev => do
      match ← tryCatch (tryProcessBlock rules order block pindexPrev pindex view fJustCheck)
          fun _ => pure (.error "failed-dmn-block") with
      | .error reason => return some reason
      | .ok false => return none
      | .ok true =>
        if isWrongEnforcementBlock rules pindex then return some "bad-dip3-enf-block"
        else
          modify fun manager => { manager with toCleanup := max manager.toCleanup pindex.nHeight }
          return none

/-- The lists that `UndoBlock` reads to announce a change. -/
def readChangedLists (pindex : CBlockIndex) : ManagerM G Unit := do
  let _curList ← getListForBlock rules order pindex
  match pindex.pprev with
  | none => throw .nullPointer
  | some pprev => do
    let _prevList ← getListForBlock rules order pprev

/-- The block leaves the caches. -/
def forgetBlock (hash : Uint256) (manager : CDeterministicMNManager G) : CDeterministicMNManager G :=
  { manager with
    mnListsCache := manager.mnListsCache.erase hash
    mnListDiffsCache := manager.mnListDiffsCache.erase hash }

def undoBlock (pindex : CBlockIndex) : ManagerM G Unit := do
  let manager ← get
  let diff := (manager.readDiff rules (rules.getBlockHash pindex.header)).getD {}
  if diff.hasChanges then readChangedLists rules order pindex else pure ()
  modify (forgetBlock (rules.getBlockHash pindex.header))

end Blocks

def updatedBlockTip (pindex : CBlockIndex) (manager : CDeterministicMNManager G) : CDeterministicMNManager G :=
  { manager with tipIndex := some pindex }

/-- A list in the cache is too old, or neither of the tip nor of a quorum. -/
def dropsList (rules : EvoRules G) (tipIndex : Option CBlockIndex) (nHeight : ℤ) (hash : Uint256)
    (list : CDeterministicMNList G) : Bool :=
  if list.nHeight + listDiffsCacheSize < nHeight then true
  else if tipIndex.any fun tip => hash = rules.getBlockHash tip.header then false
  else !isQuorumHeight rules list.nHeight nHeight

def cleanupCache (rules : EvoRules G) (nHeight : ℤ) (manager : CDeterministicMNManager G) : CDeterministicMNManager G :=
  { manager with
    mnListsCache := manager.mnListsCache.filter fun hash list =>
      !dropsList rules manager.tipIndex nHeight hash list
    mnListDiffsCache := manager.mnListDiffsCache.filter fun _ diff => !(diff.nHeight + listDiffsCacheSize < nHeight) }

def doMaintenance (rules : EvoRules G) (manager : CDeterministicMNManager G) : CDeterministicMNManager G :=
  if manager.toCleanup ≤ manager.didCleanup then manager
  else { manager.cleanupCache rules manager.toCleanup with didCleanup := manager.toCleanup }

end CDeterministicMNManager

end Blocx
