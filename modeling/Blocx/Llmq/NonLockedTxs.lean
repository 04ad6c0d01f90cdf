import Blocx.Chain.BlockIndex
import Blocx.Llmq.PendingLocks

/-!
# Transactions that are not locked

The part of `CInstantSendManager` that keeps track of transactions without an InstantSend lock (`llmq/instantsend.cpp`).
`nonLockedTxs` has an entry for each of them, with the tracked transactions that spend its outputs, and an entry without
transaction for a parent that is not tracked itself. `nonLockedTxsByOutpoints` says which transaction spends an output.

`AddNonLockedTx` makes an entry and enters the transaction with its parents and outputs; `RemoveNonLockedTx` takes it
out again and, when the transaction was locked, has its children tried again. `ResolveBlockConflicts` looks up the mined
transactions that conflict with a lock.

The maps are partial functions. An entry is filled in place as the source does it.
-/

namespace Blocx

open Function

structure NonLockedTxInfo where
  /-- Block in which the transaction was mined. -/
  pindexMined : Option CBlockIndex := none
  tx : Option CTransaction := none
  /-- Transactions that spend its outputs. -/
  children : Finset Uint256 := ∅
  deriving DecidableEq

/-- The members of `CInstantSendManager` that are about transactions that are not locked. -/
structure NonLockedState (Sig : Type) where
  nonLockedTxs : Uint256 → Option NonLockedTxInfo := fun _ => none
  /-- Which transaction spends an output. -/
  nonLockedTxsByOutpoints : COutPoint → Option Uint256 := fun _ => none
  /-- Locks that are to be verified. -/
  pendingInstantSendLocks : List (PendingLock Sig) := []
  /-- Locks whose transaction is not known. -/
  pendingNoTxInstantSendLocks : List (PendingLock Sig) := []
  pendingRetryTxs : Finset Uint256 := ∅

namespace NonLockedState

variable {Sig : Type}

/-! ### Adding -/

/-- A turn of the loop of `AddNonLockedTx` over the inputs: the transaction becomes a child of the parent, which gets an
entry if it has none, and the spender of the output, unless there is one. -/
def registerInput (txid : Uint256) (s : NonLockedState Sig) (txin : CTxIn) : NonLockedState Sig :=
  let info := (s.nonLockedTxs txin.prevout.hash).getD {}
  { s with
    nonLockedTxs := update s.nonLockedTxs txin.prevout.hash (some { info with children := insert txid info.children })
    nonLockedTxsByOutpoints :=
      match s.nonLockedTxsByOutpoints txin.prevout with
      | none => update s.nonLockedTxsByOutpoints txin.prevout (some txid)
      | some _ => s.nonLockedTxsByOutpoints }

/-- The loop over the locks without transaction: one for this transaction is to be verified again. -/
def restorePending (txid : Uint256) (s : NonLockedState Sig) : NonLockedState Sig :=
  match s.pendingNoTxInstantSendLocks.find? fun lock => lock.islock.txid = txid with
  | none => s
  | some lock => { s with
      pendingInstantSendLocks :=
        if s.pendingInstantSendLocks.any fun l => l.hash = lock.hash then s.pendingInstantSendLocks
        else s.pendingInstantSendLocks ++ [lock]
      pendingNoTxInstantSendLocks := s.pendingNoTxInstantSendLocks.filter fun l => l.hash ≠ lock.hash }

def addNonLockedTx (s : NonLockedState Sig) (tx : CTransaction) (pindexMined : Option CBlockIndex) :
    NonLockedState Sig :=
  let s :=
    match s.nonLockedTxs tx.hash with
    | some info =>
      { s with nonLockedTxs := update s.nonLockedTxs tx.hash (some { info with pindexMined := pindexMined }) }
    | none =>
      tx.vin.foldl (registerInput tx.hash) { s with
        nonLockedTxs := update s.nonLockedTxs tx.hash (some { pindexMined := pindexMined, tx := some tx }) }
  restorePending tx.hash s

/-! ### Removing -/

/-- A turn of the loop of `RemoveNonLockedTx` over the inputs: the parent loses the child, and its entry if nothing is
left in it, and the output loses its spender. -/
def unregisterInput (txid : Uint256) (s : NonLockedState Sig) (txin : CTxIn) : NonLockedState Sig :=
  { s with
    nonLockedTxs :=
      match s.nonLockedTxs txin.prevout.hash with
      | none => s.nonLockedTxs
      | some info =>
        let info := { info with children := info.children.erase txid }
        if info.tx.isNone ∧ info.children = ∅ then update s.nonLockedTxs txin.prevout.hash none
        else update s.nonLockedTxs txin.prevout.hash (some info)
    nonLockedTxsByOutpoints := update s.nonLockedTxsByOutpoints txin.prevout none }

def removeNonLockedTx (s : NonLockedState Sig) (txid : Uint256) (retryChildren : Bool) : NonLockedState Sig :=
  match s.nonLockedTxs txid with
  | none => s
  | some info =>
    let s := if retryChildren then { s with pendingRetryTxs := s.pendingRetryTxs ∪ info.children } else s
    let s :=
      match info.tx with
      | none => s
      | some tx => tx.vin.foldl (unregisterInput txid) s
    { s with nonLockedTxs := update s.nonLockedTxs txid none }

/-! ### Conflicts -/

/-- The first loop of `ResolveBlockConflicts`: the mined transactions that conflict with a lock, with their blocks. -/
def blockConflicts (s : NonLockedState Sig) (islock : CInstantSendLock Sig) :
    List (CBlockIndex × Uint256 × CTransaction) :=
  islock.inputs.filterMap fun txin =>
    match s.nonLockedTxsByOutpoints txin with
    | none => none
    | some conflictTxid =>
      if conflictTxid = islock.txid then none
      else
        match s.nonLockedTxs conflictTxid with
        | none => none
        | some info =>
          match info.pindexMined, info.tx with
          | some pindexMined, some tx => some (pindexMined, conflictTxid, tx)
          | _, _ => none

end NonLockedState

end Blocx
