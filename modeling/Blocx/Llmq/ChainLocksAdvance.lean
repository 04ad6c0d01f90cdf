import Blocx.Llmq.ChainLocks

/-!
# When the best ChainLock goes backwards

A call of `ProcessNewChainLock` compares the height of its lock with the best one in its first section and sets the best
lock in its last one, without a second look. If a lock of a greater height is set in between, the best lock goes back to
the one of this call. This is the only way: over every interleaving of steps, the heights of the best lock and of the
best lock's known block go down nowhere, resets apart, if and only if no call is overtaken (`NotOvertaken`).

What the block index and the lock with a known block have in common holds in every state.

The steps are taken apart once, in `callChange_step` (where a call in progress comes from) and `lockChange_step` (what
happens to the best locks); the invariants are derived from these two.
-/

namespace Blocx

open CChainLocksHandler

open Function Option

variable {Sig : Type} {hashes : ChainLockHashes Sig} {s : ChainLockSystem Sig} {e : ChainLockStep Sig} {i j : ℕ}
  {handler : CChainLocksHandler Sig}

/-! ### What a step can do -/

/-- Where a call that is in progress after a step comes from. -/
inductive ChainLockSystem.CallChange (hashes : ChainLockHashes Sig) (s : ChainLockSystem Sig)
    (e : ChainLockStep Sig) (i : ℕ) :
    ChainLockCall Sig → Prop where
  /-- It was there, and this is not the first section of this call. -/
  | same {call} (hcall : s.calls i = some call) (hsee : ∀ now, e = .see i now → call.phase ≠ .made) :
    CallChange hashes s e i call
  | made {clsig} : CallChange hashes s e i ⟨clsig, .made⟩
  /-- It has gone through its first section. -/
  | seen {clsig now} (he : e = .see i now) (hcall : s.calls i = some ⟨clsig, .made⟩)
    (habove : s.handler.bestChainLock.isNull ∨ s.handler.bestChainLock.nHeight < clsig.nHeight) :
    CallChange hashes s e i ⟨clsig, .seen⟩
  | verified {clsig context} (he : e = .verify i context) (hcall : s.calls i = some ⟨clsig, .seen⟩)
    (hverify : context.verifyRecoveredSig clsig.nHeight (hashes.requestId clsig.nHeight) clsig.blockHash clsig.sig) :
    CallChange hashes s e i ⟨clsig, .verified⟩
  | lookedUp {clsig} (he : e = .lookup i) (hcall : s.calls i = some ⟨clsig, .verified⟩) :
    CallChange hashes s e i ⟨clsig, .lookedUp (s.blocks.lookupBlockIndex clsig.blockHash)⟩

/-- What a step does to the best locks. -/
inductive ChainLockSystem.LockChange (hashes : ChainLockHashes Sig) (s : ChainLockSystem Sig) (e : ChainLockStep Sig)
    (handler : CChainLocksHandler Sig) : Prop where
  | same (hbest : handler.bestChainLock = s.handler.bestChainLock)
    (hknown : handler.bestChainLockWithKnownBlock = s.handler.bestChainLockWithKnownBlock)
    (hindex : handler.bestChainLockBlockIndex = s.handler.bestChainLockBlockIndex)
    (hset : ∀ i clsig pindex, e = .setBest i → s.calls i ≠ some ⟨clsig, .lookedUp pindex⟩)
    (hreset : ∀ fDIP0008Active enabled, e = .checkActive fDIP0008Active enabled →
      ¬ s.handler.resets fDIP0008Active enabled) :
    LockChange hashes s e handler
  | set {i clsig pindex} (he : e = .setBest i) (hcall : s.calls i = some ⟨clsig, .lookedUp pindex⟩)
    (hhandler : handler = s.handler.setBestChainLock clsig (hashes.getHash clsig) pindex) :
    LockChange hashes s e handler
  | accepted {pindex} (he : e = .acceptedHeader pindex) (hhandler : handler = s.handler.acceptedBlockHeader pindex) :
    LockChange hashes s e handler
  | reset {fDIP0008Active enabled} (he : e = .checkActive fDIP0008Active enabled)
    (hresets : s.handler.resets fDIP0008Active enabled) (hbest : handler.bestChainLock = {})
    (hindex : handler.bestChainLockBlockIndex = none) : LockChange hashes s e handler

variable {call : ChainLockCall Sig} {clsig : CChainLockSig Sig} {hash : Uint256} {pindex : Option BlockPos}

namespace ChainLockSystem

lemma callChange_of_update {c : Option (ChainLockCall Sig)}
    (hcall : update s.calls j c i = some call) (hsee : ∀ now, e = .see i now → i = j)
    (hself : i = j → c = some call → CallChange hashes s e i call) : CallChange hashes s e i call := by
  by_cases hij : i = j
  · refine hself hij ?_
    rwa [hij, update_self] at hcall
  · rw [update_of_ne hij] at hcall
    exact .same hcall fun now he => absurd (hsee now he) hij

lemma callChange_start (hsee : ∀ now, e ≠ .see i now)
    (hcall : (s.start j clsig).calls i = some call) : CallChange hashes s e i call := by
  unfold start at hcall
  split at hcall
  · exact .same hcall fun now he => absurd he (hsee now)
  · refine callChange_of_update hcall (fun now he => absurd he (hsee now)) fun _ hsome => ?_
    obtain rfl := some.inj hsome
    exact .made

lemma callChange_step (hcall : (s.step hashes e).calls i = some call) : CallChange hashes s e i call := by
  cases e with
  | receive j clsig => exact callChange_start (by simp) hcall
  | recovered j id msgHash sig =>
    simp only [step] at hcall
    split at hcall
    · exact callChange_start (by simp) hcall
    · exact .same hcall (by simp)
  | see j now =>
    simp only [step] at hcall
    split at hcall
    next clsig hj =>
      refine callChange_of_update hcall (by simp [eq_comm]) ?_
      rintro rfl hsome
      split_ifs at hsome with hgoes
      obtain rfl := some.inj hsome
      refine .seen rfl hj ?_
      unfold seeChainLock at hgoes
      split at hgoes
      · cases hgoes
      · simpa using hgoes
    next hj =>
      refine .same hcall fun now' he hphase => ?_
      obtain ⟨clsig, phase⟩ := call
      obtain ⟨rfl, -⟩ := ChainLockStep.see.inj he
      obtain rfl : phase = .made := hphase
      exact hj clsig hcall
  | verify j context =>
    simp only [step] at hcall
    split at hcall
    next clsig hj =>
      refine callChange_of_update hcall (by simp) ?_
      rintro rfl hsome
      split_ifs at hsome with hverify
      obtain rfl := some.inj hsome
      exact .verified rfl hj hverify
    next => exact .same hcall (by simp)
  | lookup j =>
    simp only [step] at hcall
    split at hcall
    next clsig hj =>
      refine callChange_of_update hcall (by simp) ?_
      rintro rfl hsome
      obtain rfl := some.inj hsome
      exact .lookedUp rfl hj
    next => exact .same hcall (by simp)
  | setBest j =>
    simp only [step] at hcall
    split at hcall
    next clsig pindex hj =>
      refine callChange_of_update hcall (by simp) ?_
      rintro rfl hsome
      cases hsome
    next => exact .same hcall (by simp)
  | notify j =>
    simp only [step] at hcall
    split at hcall <;> exact .same hcall (by simp)
  | _ => exact .same hcall (by simp)

lemma handler_start : (s.start i clsig).handler = s.handler := by
  unfold start
  split <;> rfl

variable (hashes s e) in
lemma lockChange_step : LockChange hashes s e (s.step hashes e).handler := by
  cases e with
  | receive j clsig =>
    simp only [step, handler_start]
    exact .same rfl rfl rfl (by simp) (by simp)
  | recovered j id msgHash sig =>
    simp only [step]
    split
    · rw [handler_start]
      exact .same rfl rfl rfl (by simp) (by simp)
    · exact .same rfl rfl rfl (by simp) (by simp)
  | see j now =>
    have hsee : ∀ clsig hash, (s.handler.seeChainLock now clsig hash).2.bestChainLock = s.handler.bestChainLock ∧
        (s.handler.seeChainLock now clsig hash).2.bestChainLockWithKnownBlock = s.handler.bestChainLockWithKnownBlock ∧
        (s.handler.seeChainLock now clsig hash).2.bestChainLockBlockIndex = s.handler.bestChainLockBlockIndex := by
      intro clsig hash
      unfold seeChainLock
      split <;> exact ⟨rfl, rfl, rfl⟩
    simp only [step]
    split
    next clsig hj =>
      obtain ⟨hbest, hknown, hindex⟩ := hsee clsig (hashes.getHash clsig)
      exact .same hbest hknown hindex (by simp) (by simp)
    next => exact .same rfl rfl rfl (by simp) (by simp)
  | verify j context | lookup j =>
    simp only [step]
    split <;> exact .same rfl rfl rfl (by simp) (by simp)
  | setBest j =>
    simp only [step]
    split
    next clsig pindex hj => exact .set rfl hj rfl
    next hj =>
      refine .same rfl rfl rfl ?_ (by simp)
      rintro i clsig pindex he hcall
      obtain rfl := ChainLockStep.setBest.inj he
      exact hj clsig pindex hcall
  | acceptedHeader pindex => exact .accepted rfl rfl
  | checkActive fDIP0008Active enabled =>
    simp only [step, checkActiveState]
    split_ifs with hresets
    · exact .reset rfl hresets rfl rfl
    · refine .same rfl rfl rfl (by simp) ?_
      rintro _ _ he
      obtain ⟨rfl, rfl⟩ := ChainLockStep.checkActive.inj he
      exact hresets
  | trySign pindex =>
    simp only [step, noteSigning]
    split_ifs <;> exact .same rfl rfl rfl (by simp) (by simp)
  | notify j =>
    simp only [step, noteNotified]
    split
    · split_ifs <;> exact .same rfl rfl rfl (by simp) (by simp)
    · exact .same rfl rfl rfl (by simp) (by simp)
  | _ => exact .same rfl rfl rfl (by simp) (by simp)

end ChainLockSystem

/-! ### The lock with a known block -/

def CChainLocksHandler.KnownBlock (handler : CChainLocksHandler Sig) : Prop :=
  ∀ pindex, handler.bestChainLockBlockIndex = some pindex →
    pindex.nHeight = handler.bestChainLockWithKnownBlock.nHeight ∧
      pindex.blockHash = handler.bestChainLockWithKnownBlock.blockHash

/-- The block that a call has found is the one of its lock, a verified lock has no height below the null one, and the
block index agrees with the lock. -/
structure ChainLockSystem.Sound (s : ChainLockSystem Sig) : Prop where
  known : s.handler.KnownBlock
  found : ∀ i clsig pindex, s.calls i = some ⟨clsig, .lookedUp (some pindex)⟩ → pindex.blockHash = clsig.blockHash
  verified : ∀ i clsig, s.calls i = some ⟨clsig, .verified⟩ → -1 ≤ clsig.nHeight
  lookedUp : ∀ i clsig pindex, s.calls i = some ⟨clsig, .lookedUp pindex⟩ → -1 ≤ clsig.nHeight

namespace CChainLocksHandler

lemma KnownBlock.setBestChainLock
    (h : handler.KnownBlock) (hfound : ∀ p, pindex = some p → p.blockHash = clsig.blockHash) :
    (handler.setBestChainLock clsig hash pindex).KnownBlock := by
  unfold CChainLocksHandler.setBestChainLock
  cases pindex with
  | none => exact h
  | some pindex =>
    dsimp only
    split_ifs with hheight
    · exact h
    · rintro pindex' ⟨⟩
      exact ⟨not_not.mp hheight, hfound pindex rfl⟩

lemma KnownBlock.acceptedBlockHeader {pindex : BlockPos} (h : handler.KnownBlock) :
    (handler.acceptedBlockHeader pindex).KnownBlock := by
  unfold CChainLocksHandler.acceptedBlockHeader
  split_ifs with hhash hheight
  · exact h
  · rintro pindex' ⟨⟩
    exact ⟨(not_not.mp hheight).symm, hhash⟩
  · exact h

end CChainLocksHandler

lemma ChainLockSystem.Sound.step (hashes : ChainLockHashes Sig) (h : s.Sound) (e : ChainLockStep Sig) :
    (s.step hashes e).Sound where
  known := by
    cases lockChange_step hashes s e with
    | same hbest hknown hindex hset hreset =>
      unfold CChainLocksHandler.KnownBlock
      rw [hknown, hindex]
      exact h.known
    | set he hcall hhandler =>
      rw [hhandler]
      refine h.known.setBestChainLock ?_
      rintro p rfl
      exact h.found _ _ p hcall
    | accepted he hhandler =>
      rw [hhandler]
      exact h.known.acceptedBlockHeader
    | reset he hresets hbest hindex =>
      intro pindex hpindex
      rw [hindex] at hpindex
      cases hpindex
  found i clsig pindex hcall := by
    generalize hphase : ChainLockPhase.lookedUp (some pindex) = phase at hcall
    cases callChange_step hcall with
    | same hold hsee => exact h.found i clsig pindex (hphase ▸ hold)
    | lookedUp he hold => exact s.blocks.hash_eq _ pindex (ChainLockPhase.lookedUp.inj hphase).symm
    | _ => cases hphase
  verified i clsig hcall := by
    cases callChange_step hcall with
    | same hold hsee => exact h.verified i clsig hold
    | verified he hold hverify => exact SigningContext.le_of_verifyRecoveredSig hverify
  lookedUp i clsig pindex hcall := by
    cases callChange_step hcall with
    | same hold hsee => exact h.lookedUp i clsig pindex hold
    | lookedUp he hold => exact h.verified i clsig hold

/-! ### Runs -/

/-- The system, with the locks that calls have set since a call went through its first section (and since the last
reset). -/
structure ChainLockRun (Sig : Type) where
  sys : ChainLockSystem Sig
  /-- The locks that were set since. -/
  since : ℕ → List (CChainLockSig Sig) := fun _ => []

namespace ChainLockRun

/-- Take a step. -/
def step (hashes : ChainLockHashes Sig) (r : ChainLockRun Sig) (e : ChainLockStep Sig) : ChainLockRun Sig where
  sys := r.sys.step hashes e
  since j :=
    match e with
    | .see i _ =>
      match r.sys.calls i with
      | some ⟨_, .made⟩ => if j = i then [] else r.since j
      | _ => r.since j
    | .setBest i =>
      match r.sys.calls i with
      | some ⟨clsig, .lookedUp _⟩ => clsig :: r.since j
      | _ => r.since j
    | .checkActive fDIP0008Active enabled =>
      if r.sys.handler.resets fDIP0008Active enabled then [] else r.since j
    | _ => r.since j

def Resets (r : ChainLockRun Sig) : ChainLockStep Sig → Prop
  | .checkActive fDIP0008Active enabled => r.sys.handler.resets fDIP0008Active enabled
  | _ => False

/-- The heights of the best lock and of its known block do not go down, unless the step resets them. -/
def Advances (hashes : ChainLockHashes Sig) (r : ChainLockRun Sig) (e : ChainLockStep Sig) : Prop :=
  ¬ r.Resets e →
    r.sys.handler.bestChainLock.nHeight ≤ (r.step hashes e).sys.handler.bestChainLock.nHeight ∧
      ∀ pindex, r.sys.handler.bestChainLockBlockIndex = some pindex →
        ∃ pindex', (r.step hashes e).sys.handler.bestChainLockBlockIndex = some pindex' ∧
          pindex.nHeight ≤ pindex'.nHeight

/-- A call that sets its lock has not been overtaken: no lock of a greater height was set since its first section. -/
def NotOvertaken (r : ChainLockRun Sig) : ChainLockStep Sig → Prop
  | .setBest i => ∀ clsig pindex, r.sys.calls i = some ⟨clsig, .lookedUp pindex⟩ →
    ∀ clsig' ∈ r.since i, clsig'.nHeight ≤ clsig.nHeight
  | _ => True

/-! ### The invariant -/

variable {r : ChainLockRun Sig}

lemma since_set (hcall : r.sys.calls i = some ⟨clsig, .lookedUp pindex⟩) :
    (r.step hashes (.setBest i)).since j = clsig :: r.since j := by
  simp [step, hcall]

/-- What holds as long as no call sets its lock after it has been overtaken. -/
structure Ordered (r : ChainLockRun Sig) : Prop where
  sound : r.sys.Sound
  /-- The known block is not above the best lock. -/
  below : ∀ pindex, r.sys.handler.bestChainLockBlockIndex = some pindex →
    pindex.nHeight ≤ r.sys.handler.bestChainLock.nHeight
  /-- The best lock is not below the locks that were set. -/
  since_le : ∀ i, ∀ clsig ∈ r.since i, clsig.nHeight ≤ r.sys.handler.bestChainLock.nHeight
  /-- The best lock is still below the lock of a call, or was set since its first section. -/
  begun : ∀ i call, r.sys.calls i = some call → call.phase ≠ .made →
    (r.sys.handler.bestChainLock.isNull ∨ r.sys.handler.bestChainLock.nHeight < call.clsig.nHeight) ∨
      ∃ clsig ∈ r.since i, clsig.nHeight = r.sys.handler.bestChainLock.nHeight

lemma nHeight_of_isNull (h : clsig.isNull) : clsig.nHeight = -1 := by
  exact (of_decide_eq_true h).1

lemma Ordered.le_of_notOvertaken (h : r.Ordered)
    (hcall : r.sys.calls i = some ⟨clsig, .lookedUp pindex⟩) (hnot : r.NotOvertaken (.setBest i)) :
    r.sys.handler.bestChainLock.nHeight ≤ clsig.nHeight := by
  obtain (hnull | hlt) | ⟨clsig', hmem, heq⟩ := h.begun i _ hcall (by simp)
  · rw [nHeight_of_isNull hnull]
    exact h.sound.lookedUp i clsig pindex hcall
  · exact hlt.le
  · rw [← heq]
    exact hnot clsig pindex hcall clsig' hmem

lemma bestChainLock_set : (handler.setBestChainLock clsig hash pindex).bestChainLock = clsig := by
  unfold setBestChainLock
  cases pindex with
  | none => rfl
  | some pindex =>
    dsimp only
    split_ifs <;> rfl

lemma bestChainLockBlockIndex_set :
    (handler.setBestChainLock clsig hash pindex).bestChainLockBlockIndex = handler.bestChainLockBlockIndex ∨
      ∃ p, (handler.setBestChainLock clsig hash pindex).bestChainLockBlockIndex = some p ∧
        p.nHeight = clsig.nHeight := by
  unfold setBestChainLock
  cases pindex with
  | none => exact .inl rfl
  | some pindex =>
    dsimp only
    split_ifs with hheight
    · exact .inl rfl
    · exact .inr ⟨pindex, rfl, not_not.mp hheight⟩

lemma accepted_cases {pindex : BlockPos} : handler.acceptedBlockHeader pindex = handler ∨
      (handler.acceptedBlockHeader pindex).bestChainLock = handler.bestChainLock ∧
        (handler.acceptedBlockHeader pindex).bestChainLockBlockIndex = some pindex ∧
        pindex.nHeight = handler.bestChainLock.nHeight := by
  unfold acceptedBlockHeader
  split_ifs with hhash hheight
  · exact .inl rfl
  · exact .inr ⟨rfl, rfl, (not_not.mp hheight).symm⟩
  · exact .inl rfl

/-- A step at which no call is overtaken keeps the heights from going down. -/
lemma Ordered.advances (h : r.Ordered) (hnot : r.NotOvertaken e) : r.Advances hashes e := by
  intro hreset
  show _ ≤ (r.sys.step hashes e).handler.bestChainLock.nHeight ∧
    ∀ pindex, _ → ∃ pindex', (r.sys.step hashes e).handler.bestChainLockBlockIndex = some pindex' ∧ _
  cases ChainLockSystem.lockChange_step hashes r.sys e with
  | same hbest hknown hindex hset hreset' =>
    rw [hbest, hindex]
    exact ⟨le_rfl, fun pindex hpindex => ⟨pindex, hpindex, le_rfl⟩⟩
  | set he hcall hhandler =>
    subst he
    have hle := h.le_of_notOvertaken hcall hnot
    rw [hhandler, bestChainLock_set]
    refine ⟨hle, fun pindex hpindex => ?_⟩
    obtain hsame | ⟨p, hp, hheight⟩ := bestChainLockBlockIndex_set
    · exact ⟨pindex, hsame.trans hpindex, le_rfl⟩
    · exact ⟨p, hp, hheight ▸ (h.below pindex hpindex).trans hle⟩
  | accepted he hhandler =>
    rw [hhandler]
    obtain hsame | ⟨hbest, hindex, hheight⟩ := accepted_cases
    · rw [hsame]
      exact ⟨le_rfl, fun pindex hpindex => ⟨pindex, hpindex, le_rfl⟩⟩
    · rw [hbest]
      exact ⟨le_rfl, fun pindex hpindex => ⟨_, hindex, hheight ▸ h.below pindex hpindex⟩⟩
  | reset he hresets hbest hindex =>
    subst he
    exact absurd hresets hreset

/-- A step that keeps the heights from going down overtakes no call. -/
lemma Ordered.notOvertaken (h : r.Ordered) (hadvances : r.Advances hashes e) : r.NotOvertaken e := by
  cases e with
  | setBest i =>
    intro clsig pindex hcall clsig' hmem
    have hle := (hadvances not_false).1
    have hbest : (r.step hashes (.setBest i)).sys.handler.bestChainLock = clsig := by
      simp only [step, ChainLockSystem.step, hcall, bestChainLock_set]
    rw [hbest] at hle
    exact (h.since_le i clsig' hmem).trans hle
  | _ => trivial

/-- A call that is past its first section was past it before, or goes through it in this step. -/
lemma begun_cases (hcall : (r.sys.step hashes e).calls i = some call) (hphase : call.phase ≠ .made) :
    (∃ call', r.sys.calls i = some call' ∧ call'.phase ≠ .made ∧ call'.clsig = call.clsig ∧
        (∀ now, e = .see i now → (r.step hashes e).since i = r.since i)) ∨
      (r.sys.handler.bestChainLock.isNull ∨ r.sys.handler.bestChainLock.nHeight < call.clsig.nHeight) ∧
        ∃ now, e = .see i now := by
  cases ChainLockSystem.callChange_step hcall with
  | same hold hsee =>
    refine .inl ⟨call, hold, hphase, rfl, ?_⟩
    rintro now rfl
    simp only [step, hold]
    split
    next heq =>
      obtain rfl := some.inj heq
      exact absurd rfl hphase
    next => rfl
  | made => exact absurd rfl hphase
  | seen he hold habove => exact .inr ⟨habove, _, he⟩
  | verified he hold hverify | lookedUp he hold => exact .inl ⟨_, hold, by simp, rfl, by simp [he]⟩

section

variable (hset : ∀ i clsig pindex, e = .setBest i → r.sys.calls i ≠ some ⟨clsig, .lookedUp pindex⟩)
  (hreset : ∀ fDIP0008Active enabled, e = .checkActive fDIP0008Active enabled →
    ¬ r.sys.handler.resets fDIP0008Active enabled)

include hset hreset

variable (hashes) in
lemma since_same (i : ℕ) :
    (r.step hashes e).since i = r.since i ∨ (∃ now, e = .see i now) ∧ (r.step hashes e).since i = [] := by
  cases e with
  | see j now =>
    simp only [step]
    split
    · split_ifs with hij
      · exact .inr ⟨⟨now, by rw [hij]⟩, rfl⟩
      · exact .inl rfl
    · exact .inl rfl
  | setBest j =>
    simp only [step]
    split
    next clsig pindex hcall => exact absurd hcall (hset j clsig pindex rfl)
    next => exact .inl rfl
  | checkActive fDIP0008Active enabled =>
    simp only [step, if_neg (hreset fDIP0008Active enabled rfl)]
    exact .inl trivial
  | _ => exact .inl rfl

lemma Ordered.begun_same (h : r.Ordered)
    (hcall : (r.sys.step hashes e).calls i = some call) (hphase : call.phase ≠ .made) :
    (r.sys.handler.bestChainLock.isNull ∨ r.sys.handler.bestChainLock.nHeight < call.clsig.nHeight) ∨
      ∃ clsig ∈ (r.step hashes e).since i, clsig.nHeight = r.sys.handler.bestChainLock.nHeight := by
  obtain ⟨call', hcall', hphase', hclsig, hsee⟩ | ⟨habove, -⟩ := begun_cases hcall hphase
  · have hsince : (r.step hashes e).since i = r.since i := by
      obtain hsame | ⟨⟨now, he⟩, -⟩ := since_same hashes hset hreset i
      · exact hsame
      · exact hsee now he
    rw [hsince, ← hclsig]
    exact h.begun i call' hcall' hphase'
  · exact .inl habove

lemma Ordered.step_same (h : r.Ordered)
    (hbest : (r.sys.step hashes e).handler.bestChainLock = r.sys.handler.bestChainLock)
    (hbelow : ∀ pindex, (r.sys.step hashes e).handler.bestChainLockBlockIndex = some pindex →
      pindex.nHeight ≤ r.sys.handler.bestChainLock.nHeight) :
    (r.step hashes e).Ordered := by
  refine ⟨h.sound.step hashes e, ?_, fun i clsig hmem => ?_, fun i call hcall hphase => ?_⟩
  · show ∀ pindex, _ → _ ≤ (r.sys.step hashes e).handler.bestChainLock.nHeight
    rw [hbest]
    exact hbelow
  · show _ ≤ (r.sys.step hashes e).handler.bestChainLock.nHeight
    rw [hbest]
    obtain hsame | ⟨-, hnil⟩ := since_same hashes hset hreset i
    · exact h.since_le i clsig (hsame ▸ hmem)
    · rw [hnil] at hmem
      cases hmem
  · show ((r.sys.step hashes e).handler.bestChainLock.isNull ∨
      (r.sys.step hashes e).handler.bestChainLock.nHeight < _) ∨
      ∃ clsig ∈ _, _ = (r.sys.step hashes e).handler.bestChainLock.nHeight
    rw [hbest]
    exact Ordered.begun_same hset hreset h hcall hphase

end

lemma Ordered.step (h : r.Ordered) (hnot : r.NotOvertaken e) : (r.step hashes e).Ordered := by
  cases ChainLockSystem.lockChange_step hashes r.sys e with
  | same hbest hknown hindex hset hreset => exact .step_same hset hreset h hbest (hindex ▸ h.below)
  | accepted he hhandler =>
    subst he
    obtain hsame | ⟨hbest, hindex, hheight⟩ := accepted_cases
    · exact .step_same (by simp) (by simp) h (by rw [hhandler, hsame]) (by rw [hhandler, hsame]; exact h.below)
    · refine .step_same (by simp) (by simp) h (by rw [hhandler, hbest]) ?_
      rw [hhandler, hindex]
      rintro pindex' ⟨⟩
      exact hheight.le
  | @set i clsig pindex he hcall hhandler =>
    subst he
    have hle := h.le_of_notOvertaken hcall hnot
    have hbest : (r.step hashes (.setBest i)).sys.handler.bestChainLock = clsig :=
      (congrArg bestChainLock hhandler).trans bestChainLock_set
    refine ⟨h.sound.step hashes (.setBest i), fun p hp => ?_, fun j clsig' hmem => ?_, fun j call hcall' hphase => ?_⟩
    · rw [hbest]
      replace hp : (r.sys.step hashes (.setBest i)).handler.bestChainLockBlockIndex = some p := hp
      rw [hhandler] at hp
      obtain hsame | ⟨p', hp', hheight⟩ := bestChainLockBlockIndex_set
      · exact (h.below p (hsame ▸ hp)).trans hle
      · obtain rfl := some.inj (hp.symm.trans hp')
        exact hheight.le
    · rw [hbest]
      rw [since_set hcall] at hmem
      obtain rfl | hmem := List.mem_cons.mp hmem
      · exact le_rfl
      · exact (h.since_le j clsig' hmem).trans hle
    · rw [hbest, since_set hcall]
      exact .inr ⟨clsig, List.mem_cons_self, rfl⟩
  | @reset fDIP0008Active enabled he hresets hbest hindex =>
    subst he
    have hsince : ∀ i, (r.step hashes (.checkActive fDIP0008Active enabled)).since i = [] := fun i => by
      simp only [step, if_pos hresets]
    refine ⟨h.sound.step hashes (.checkActive fDIP0008Active enabled), fun p hp => ?_, fun i clsig hmem => ?_,
      fun i call hcall hphase => ?_⟩
    · exact absurd (hindex.symm.trans hp) (by simp)
    · rw [hsince] at hmem
      cases hmem
    · refine .inl (.inl ?_)
      show (r.sys.step hashes (.checkActive fDIP0008Active enabled)).handler.bestChainLock.isNull
      rw [hbest]
      rfl

/-- The start of a run: a new handler, and any block index. -/
def start (blocks : BlockMap) : ChainLockRun Sig where
  sys := { blocks }

lemma ordered_start {blocks : BlockMap} : (start blocks : ChainLockRun Sig).Ordered where
  sound :=
    { known := nofun
      found := nofun
      verified := nofun
      lookedUp := nofun }
  below := nofun
  since_le := nofun
  begun := nofun

/-- **The best ChainLock.** Over every interleaving of the steps of any number of calls, the known block is always the
one of the lock with a known block; and the heights of the best lock and of its known block go down at no step, resets
apart, if and only if no call is overtaken. -/
theorem chainLocks_advance_iff (hashes : ChainLockHashes Sig) (blocks : BlockMap) (steps : List (ChainLockStep Sig)) :
    (steps.foldl (step hashes) (start blocks)).sys.handler.KnownBlock ∧
      (Along (step hashes) (Advances hashes) (start blocks) steps ↔
        Along (step hashes) NotOvertaken (start blocks) steps) := by
  constructor
  · have hsound : (steps.foldl (step hashes) (start blocks)).sys.Sound :=
      Along.inv (I := fun r : ChainLockRun Sig => r.sys.Sound) (P := fun _ _ => True)
        (fun r e h _ => h.step hashes e) (ordered_start).sound
        (along_of_forall fun _ _ => trivial)
    exact hsound.known
  · refine along_congr (I := Ordered) (F := fun _ _ => True) ?_ ?_ (ordered_start) (along_of_forall fun _ _ => trivial)
    · intro r e h _
      exact ⟨h.notOvertaken, h.advances⟩
    · intro r e h _ hnot
      exact h.step hnot

end ChainLockRun

/-- A lock of a block that is known at this height. -/
def toyChainLock (nHeight : ℤ) (blockHash : Uint256) : CChainLockSig Unit := ⟨nHeight, blockHash, some ()⟩

def toyChainLockHashes : ChainLockHashes Unit where
  getHash clsig := clsig.blockHash
  requestId nHeight := BitVec.ofInt 256 nHeight

/-- A chain of height 20 with a quorum whose signatures all verify. -/
def toySigningContext : SigningContext Unit := ⟨20, fun _ _ _ _ => true⟩

namespace ChainLockRun

/-- The locks of heights 10 and 11 come in at the same time; both are found above the best one, and the higher one is
set first. Both heights go down. -/
theorem bestChainLock_goes_back :
    let blocks : BlockMap := (({} : BlockMap).add ⟨1, 10⟩).add ⟨2, 11⟩
    let before : List (ChainLockStep Unit) :=
      [.receive 0 (toyChainLock 10 1), .receive 1 (toyChainLock 11 2), .see 0 100,
      .see 1 100, .verify 0 toySigningContext, .verify 1 toySigningContext, .lookup 0, .lookup 1, .setBest 1]
    let r : ChainLockRun Unit := before.foldl (step toyChainLockHashes) (start blocks)
    let r' := r.step toyChainLockHashes (.setBest 0)
    r.sys.handler.bestChainLock = toyChainLock 11 2 ∧ r.sys.handler.bestChainLockBlockIndex = some ⟨2, 11⟩ ∧
      r'.sys.handler.bestChainLock = toyChainLock 10 1 ∧ r'.sys.handler.bestChainLockBlockIndex = some ⟨1, 10⟩ ∧
      ¬ Along (step toyChainLockHashes) (Advances toyChainLockHashes) (start blocks) (before ++ [.setBest 0]) := by
  refine ⟨by decide, by decide, by decide, by decide, ?_⟩
  rintro ⟨-, -, -, -, -, -, -, -, -, hback, -⟩
  exact absurd (hback not_false).1 (by decide)

end ChainLockRun

end Blocx
