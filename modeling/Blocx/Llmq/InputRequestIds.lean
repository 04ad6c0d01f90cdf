import Blocx.Lib.Runs
import Blocx.Llmq.InputLockVotes

/-!
# Ids of requested input locks

`TrySignInputLocks` puts the ids of the input locks that it requests into `inputRequestIds`, the set by which the
manager tells which recovered signatures to process (`llmq/instantsend.cpp`). `TruncateRecoveredSigsForInputs` takes the
ids of a locked transaction out again. `RemoveConflictedTx` means to do so for a conflicting transaction, but hashes the
whole input where the id is a hash of the output that is spent. The ids it erases were never inserted, so that a
transaction is forgotten exactly when its ids were not in the set to begin with.

A lock is a lock of a transaction if it has its hash and its inputs.
-/

namespace Blocx

open Finset List

open Consensus SigningState

variable {Sig PubKey : Type}

namespace SigningState

/-- `RemoveConflictedTx`, with `SerializeHash(std::make_pair(INPUTLOCK_REQUESTID_PREFIX, in))` of a whole input. The
transactions that are not locked are kept apart from the ids. -/
def removeConflictedTx (hashTxIn : CTxIn → Uint256) (s : SigningState Sig) (tx : CTransaction) : SigningState Sig :=
  { s with inputRequestIds := s.inputRequestIds \ (tx.vin.map hashTxIn).toFinset }

def truncateRecoveredSigsForInputs (ids : RequestIds) (s : SigningState Sig) (islock : CInstantSendLock Sig) :
    SigningState Sig :=
  { s with
    inputRequestIds := s.inputRequestIds \ (islock.inputs.map ids.hashPrevout).toFinset
    db := islock.inputs.foldl (fun db o =>
      db.truncateRecoveredSig (ids.getInstantSendLLMQType islock.isDeterministic) (ids.hashPrevout o)) s.db }

end SigningState

/-! ### Runs -/

/-- A call of a run. -/
inductive RequestCall (Sig PubKey : Type) where
  | trySignInputLocks (env : SignEnv PubKey) (tx : CTransaction) (fRetroactive : Bool) (llmqType : LLMQType)
  | truncateRecoveredSigsForInputs (islock : CInstantSendLock Sig)
  | removeConflictedTx (tx : CTransaction)

/-- State of a run. -/
structure RequestRun (Sig : Type) where
  s : SigningState Sig := {}
  /-- The transactions that were tried and neither removed as conflicted nor locked since. -/
  waiting : CTransaction → Prop := fun _ => False

def RequestRun.step (ids : RequestIds) (hashTxIn : CTxIn → Uint256) (r : RequestRun Sig) :
    RequestCall Sig PubKey → RequestRun Sig
  | .trySignInputLocks env tx fRetroactive llmqType =>
    ⟨(r.s.trySignInputLocks env ids tx fRetroactive llmqType).2, fun tx' => tx' = tx ∨ r.waiting tx'⟩
  | .truncateRecoveredSigsForInputs islock =>
    ⟨r.s.truncateRecoveredSigsForInputs ids islock,
      fun tx' => ¬(islock.txid = tx'.hash ∧ islock.inputs = tx'.vin.map (·.prevout)) ∧ r.waiting tx'⟩
  | .removeConflictedTx tx => ⟨r.s.removeConflictedTx hashTxIn tx, fun tx' => tx' ≠ tx ∧ r.waiting tx'⟩

section

variable {ids : RequestIds} {hashTxIn : CTxIn → Uint256} {s : SigningState Sig} {r : RequestRun Sig} {id : Uint256}
  {tx : CTransaction} {env : SignEnv PubKey} {llmqType : LLMQType} {fRetroactive : Bool}

/-- The id belongs to an input of the transaction. -/
def RequestIds.IsInputId (ids : RequestIds) (tx : CTransaction) (id : Uint256) : Prop :=
  id ∈ tx.vin.map fun txin => ids.hashPrevout txin.prevout

/-- Every id belongs to an input of a waiting transaction. -/
def RequestRun.OnlyWaiting (ids : RequestIds) (r : RequestRun Sig) : Prop :=
  ∀ id ∈ r.s.inputRequestIds, ∃ tx, r.waiting tx ∧ ids.IsInputId tx id

/-- No id belongs to an input of the transaction. -/
def SigningState.Forgot (ids : RequestIds) (s : SigningState Sig) (tx : CTransaction) : Prop :=
  ∀ id ∈ s.inputRequestIds, ¬ids.IsInputId tx id

/-- After the call every id belongs to a waiting transaction, and none to one that was just removed. -/
def IdsForgotten (ids : RequestIds) (hashTxIn : CTxIn → Uint256) (r : RequestRun Sig) (call : RequestCall Sig PubKey) :
    Prop :=
  (r.step ids hashTxIn call).OnlyWaiting ids ∧
    ∀ tx, call = .removeConflictedTx tx → (r.step ids hashTxIn call).s.Forgot ids tx

/-- A transaction that is removed has no id in the set. -/
def RemovesUnrequested (ids : RequestIds) (r : RequestRun Sig) (call : RequestCall Sig PubKey) : Prop :=
  ∀ tx, call = .removeConflictedTx tx → r.s.Forgot ids tx

lemma inputRequestIds_signInput {txHash : Uint256} {txin : CTxIn} :
    (signInput env ids llmqType txHash fRetroactive s txin).inputRequestIds =
      insert (ids.hashPrevout txin.prevout) s.inputRequestIds := by
  unfold signInput
  obtain heq | ⟨-, heq⟩ := @asyncSignIfMember_cases _ _ env
    { s with inputRequestIds := insert (ids.hashPrevout txin.prevout) s.inputRequestIds } llmqType
    (ids.hashPrevout txin.prevout) txHash fRetroactive
  · rw [heq]
  · rw [heq]
    rfl

lemma mem_inputRequestIds_trySignInputLocks
    (h : id ∈ (s.trySignInputLocks env ids tx fRetroactive llmqType).2.inputRequestIds) :
    id ∈ s.inputRequestIds ∨ ids.IsInputId tx id := by
  have hloop : ∀ (vin : List CTxIn) (s : SigningState Sig),
      (vin.foldl (signInput env ids llmqType tx.hash fRetroactive) s).inputRequestIds =
        s.inputRequestIds ∪ (vin.map fun txin => ids.hashPrevout txin.prevout).toFinset := by
    intro vin
    induction vin with
    | nil => simp
    | cons txin vin ih =>
      intro s
      rw [List.foldl_cons, ih, inputRequestIds_signInput, List.map_cons, List.toFinset_cons, Finset.union_insert,
        insert_union]
  unfold trySignInputLocks at h
  split at h
  · exact .inl h
  · split_ifs at h
    · exact .inl h
    · rw [hloop, mem_union, mem_toFinset] at h
      exact h

/-- Every call keeps that the ids belong to waiting transactions, if a transaction is removed without ids. -/
lemma RequestRun.OnlyWaiting.step (h : r.OnlyWaiting ids) {call : RequestCall Sig PubKey}
    (hcall : RemovesUnrequested ids r call) : (r.step ids hashTxIn call).OnlyWaiting ids := by
  intro id hid
  cases call with
  | trySignInputLocks env tx fRetroactive llmqType =>
    obtain hid | hid := mem_inputRequestIds_trySignInputLocks hid
    · obtain ⟨tx', hwaiting, hinput⟩ := h id hid
      exact ⟨tx', .inr hwaiting, hinput⟩
    · exact ⟨tx, .inl rfl, hid⟩
  | truncateRecoveredSigsForInputs islock =>
    obtain ⟨hid, hother⟩ := mem_sdiff.mp hid
    obtain ⟨tx, hwaiting, hinput⟩ := h id hid
    refine ⟨tx, ⟨fun hlock => hother ?_, hwaiting⟩, hinput⟩
    rw [List.mem_toFinset, hlock.2, List.map_map]
    exact hinput
  | removeConflictedTx tx =>
    have hbefore := (mem_sdiff.mp hid).1
    obtain ⟨tx', hwaiting, hinput⟩ := h id hbefore
    exact ⟨tx', ⟨fun heq => hcall tx rfl id hbefore (heq ▸ hinput), hwaiting⟩, hinput⟩

/-- **Ids are forgotten with their transaction** exactly in the runs in which no transaction is removed that has an id
in the set. -/
theorem inputRequestIds_forgotten_iff (ids : RequestIds) (hashTxIn : CTxIn → Uint256)
    {calls : List (RequestCall Sig PubKey)} (hcollision : ∀ tx, .removeConflictedTx tx ∈ calls →
      ∀ txin ∈ tx.vin, ¬ids.IsInputId tx (hashTxIn txin)) :
    Along (RequestRun.step ids hashTxIn) (IdsForgotten ids hashTxIn) {} calls ↔
      Along (RequestRun.step ids hashTxIn) (RemovesUnrequested ids) {} calls := by
  refine along_congr (I := fun r => r.OnlyWaiting ids) (F := fun _ call => ∀ tx, call = .removeConflictedTx tx →
    ∀ txin ∈ tx.vin, ¬ids.IsInputId tx (hashTxIn txin)) ?_ (fun r call h _ hcall => h.step hcall) ?_ ?_
  · intro r call hwaiting hfree
    constructor
    · rintro ⟨-, hforgot⟩ tx rfl id hid hinput
      refine hforgot tx rfl id (mem_sdiff.mpr ⟨hid, fun hmem => ?_⟩) hinput
      obtain ⟨txin, htxin, rfl⟩ := mem_map.mp (mem_toFinset.mp hmem)
      exact hfree tx rfl txin htxin hinput
    · intro hcall
      refine ⟨hwaiting.step hcall, ?_⟩
      rintro tx rfl id hid
      exact hcall tx rfl id (mem_sdiff.mp hid).1
  · exact fun id hid => absurd hid (notMem_empty id)
  · exact along_of_mem fun call hcall tx heq => hcollision tx (heq ▸ hcall)

end

/-- A call that signs the inputs of a transaction. -/
def tryCall (tx : CTransaction) : RequestCall ℤ ℤ :=
  .trySignInputLocks (toySignEnv (fun _ => true) false) tx false .llmq50_60

/-- Transactions that spend 5 and 7 are tried, and the first is locked. -/
def toyLockedCalls : List (RequestCall ℤ ℤ) :=
  [tryCall (toySpender 1 [5]), tryCall (toySpender 3 [7]),
    .truncateRecoveredSigsForInputs ⟨0, [⟨5, 0⟩], 1, 0, none⟩]

/-- After them a transaction that conflicts with the lock is removed, while the id 7 is in the set. -/
theorem inputRequestIds_forgotten_iff_locked :
    (toyLockedCalls.foldl (RequestRun.step toyRequestIds fun _ => 9) {}).s.inputRequestIds = {7} ∧
      Along (RequestRun.step toyRequestIds fun _ => 9) (IdsForgotten toyRequestIds fun _ => 9) {}
        (toyLockedCalls ++ [.removeConflictedTx (toySpender 2 [5, 6])]) := by
  have hlocked : (toyLockedCalls.foldl (RequestRun.step toyRequestIds fun _ => 9) {}).s.inputRequestIds = {7} := by
    decide
  refine ⟨hlocked, (inputRequestIds_forgotten_iff toyRequestIds (fun _ => 9) ?_).mpr ?_⟩
  · intro tx htx txin _
    obtain rfl : tx = toySpender 2 [5, 6] := by simpa [toyLockedCalls, tryCall] using htx
    unfold RequestIds.IsInputId
    decide
  · refine ⟨nofun, nofun, nofun, fun tx heq id hid => ?_, trivial⟩
    obtain rfl := RequestCall.removeConflictedTx.inj heq
    obtain rfl : id = 7 := Finset.mem_singleton.mp (hlocked ▸ hid)
    unfold RequestIds.IsInputId
    decide

/-- A transaction that spends 5 is tried and then removed as conflicted. Its id stays in the set. -/
theorem inputRequestIds_kept : let calls : List (RequestCall ℤ ℤ) :=
      [tryCall (toySpender 1 [5]), .removeConflictedTx (toySpender 1 [5])]
    (calls.foldl (RequestRun.step toyRequestIds fun _ => 9) {}).s.inputRequestIds = {5} ∧
      ¬Along (RequestRun.step toyRequestIds fun _ => 9) (IdsForgotten toyRequestIds fun _ => 9) {} calls := by
  have hinput : toyRequestIds.IsInputId (toySpender 1 [5]) 5 := by
    unfold RequestIds.IsInputId
    decide
  refine ⟨by decide, fun halong => halong.2.1.2 _ rfl 5 ?_ hinput⟩
  decide

end Blocx
