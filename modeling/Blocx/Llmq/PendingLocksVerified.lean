import Blocx.Bls.BatchEquation
import Blocx.Llmq.PendingLocksChecked
import Mathlib.Algebra.Order.BigOperators.Group.Finset

/-!
# Which pending InstantSend locks are accepted

The two passes of `ProcessPendingInstantSendLocks`. If nothing unsound is left out in the first pass, over whatever part
of the pending locks and in whatever order, then only sound locks are accepted in both. Otherwise some order of the two
maps has an unsound lock accepted: it comes first when it cannot be checked, or after a lock that makes its peer bad.
-/

namespace Blocx

open List Option

open Consensus CBLSBatchVerifier PendingLock

variable {Sig PubKey : Type} {signOffset : ℤ}

/-! ### Both passes -/

section

variable {env : InstantSendEnv Sig PubKey} {deterministic : Bool} {lock other : PendingLock Sig}
  {pending : List (PendingLock Sig)} {llmqParams : LLMQParams} {checks : LockChecks Sig PubKey}

def ofKind (deterministic : Bool) (pending : List (PendingLock Sig)) : List (PendingLock Sig) :=
  pending.filter fun lock => lock.islock.isDeterministic = deterministic

lemma selectPending_sublist (pend pending : List (PendingLock Sig)) :
    ∃ more, (selectPending deterministic pend pending).1 = pend ++ more ∧
      more.Sublist (ofKind deterministic pending) := by
  induction pending generalizing pend with
  | nil => exact ⟨[], (append_nil pend).symm, nil_sublist _⟩
  | cons lock pending ih =>
    unfold selectPending ofKind
    split_ifs with hfull hkind
    · exact ⟨[], (append_nil pend).symm, nil_sublist _⟩
    · rw [filter_cons_of_neg (by simpa using hkind)]
      exact ih pend
    · rw [filter_cons_of_pos (by simpa using hkind)]
      obtain ⟨more, heq, hsub⟩ := ih (pend ++ [lock])
      exact ⟨lock :: more, heq.trans (append_cons ..).symm, hsub.cons_cons lock⟩

/-- Locks that come first are selected. -/
lemma selectPending_append {front rest : List (PendingLock Sig)} (pend : List (PendingLock Sig))
    (hkind : ∀ lock ∈ front, lock.islock.isDeterministic = deterministic) (hlen : pend.length + front.length ≤ 32) :
    selectPending deterministic pend (front ++ rest) = selectPending deterministic (pend ++ front) rest := by
  induction front generalizing pend with
  | nil => rw [append_nil, nil_append]
  | cons lock front ih =>
    rw [forall_mem_cons] at hkind
    rw [length_cons] at hlen
    rw [cons_append, selectPending, if_neg (by unfold maxCount; omega), if_neg (not_not.mpr hkind.1),
      append_cons pend lock front]
    exact ih (pend ++ [lock]) hkind.2 (by rw [length_append, length_singleton]; omega)

lemma mem_calls_process (henabled : env.isInstantSendEnabled)
    {order : List (PendingLock Sig) → List (PendingLock Sig)} (horder : ∀ l, (order l).Perm l) :
    let llmqParams := env.getLLMQParams deterministic
    let pend := order (selectPending deterministic [] pending).1
    let first := verifyPendingInstantSendLocks env llmqParams 0 pend false
    .processInstantSendLock lock ∈ (processPendingInstantSendLocks env order deterministic pending).calls ↔
      .processInstantSendLock lock ∈ first.1 ∨ .processInstantSendLock lock ∈
        (verifyPendingInstantSendLocks env llmqParams llmqParams.dkgInterval
          (pend.filter fun lock => lock.hash ∈ first.2) true).1 := by
  unfold processPendingInstantSendLocks
  rw [henabled, Bool.not_true, if_neg Bool.false_ne_true]
  dsimp only
  split_ifs with hempty hbad
  · have hnil : order (selectPending deterministic [] pending).1 = [] := by
      rw [isEmpty_iff.mp hempty]
      exact perm_nil.mp (horder [])
    rw [hnil]
    simp [mem_calls_verify]
  · rw [isEmpty_iff.mp hbad]
    simp [mem_calls_verify]
  · exact mem_append

/-- Only sound locks are accepted, in whatever order the two maps are iterated over. -/
def AcceptsSound (env : InstantSendEnv Sig PubKey) (deterministic : Bool) (pending : List (PendingLock Sig)) : Prop :=
  ∀ pending' : List (PendingLock Sig), pending'.Perm pending →
    ∀ order : List (PendingLock Sig) → List (PendingLock Sig), (∀ l, (order l).Perm l) →
      ∀ lock, .processInstantSendLock lock ∈ (processPendingInstantSendLocks env order deterministic pending').calls →
        lock.Sound env (env.getLLMQParams deterministic)

lemma acceptsSound_of_disabled (h : env.isInstantSendEnabled = false) : AcceptsSound env deterministic pending := by
  intro pending' _ order _ lock hcall
  unfold processPendingInstantSendLocks at hcall
  rw [h, Bool.not_false, if_pos rfl] at hcall
  cases hcall

variable (hexact : ExactLocks env (env.getLLMQParams deterministic) 0 (ofKind deterministic pending))
  (hexact' : ExactLocks env (env.getLLMQParams deterministic) (env.getLLMQParams deterministic).dkgInterval
    (ofKind deterministic pending)) (hnodup : (pending.map (·.hash)).Nodup)

include hexact hexact' hnodup in
lemma SafeBatch.acceptsSound (h : SafeBatch env (env.getLLMQParams deterministic) 0 (ofKind deterministic pending)) :
    AcceptsSound env deterministic pending := by
  intro pending' hperm order horder lock hcall
  cases henabled : env.isInstantSendEnabled with
  | false => exact acceptsSound_of_disabled henabled pending' hperm order horder lock hcall
  | true =>
    obtain ⟨more, hmore, hsub⟩ := selectPending_sublist [] pending'
    have hpend : (order (selectPending deterministic [] pending').1).Subperm (ofKind deterministic pending) := by
      rw [hmore, nil_append]
      exact ((horder more).subperm.trans hsub.subperm).trans (hperm.filter _).subperm
    replace hcall := (mem_calls_process henabled horder).mp hcall
    generalize order (selectPending deterministic [] pending').1 = pend at hpend hcall
    have hnodup' : (pend.map (·.hash)).Nodup := by
      obtain ⟨l, hl, hsub⟩ := hpend
      exact (hl.map _).nodup_iff.mp (hnodup.sublist ((hsub.trans filter_sublist).map _))
    have hsafe := h.of_subperm hpend
    replace hexact := hexact.of_subset hpend.subset
    obtain hcall | hcall := hcall
    · exact (hsafe.sound hexact hnodup' (fun _ hverifies => .inl hverifies) hcall).2
    · exact ((hsafe.filter_bad hexact hnodup').sound
        (hexact'.of_subset (List.Subset.trans filter_sublist.subset hpend.subset))
        (hnodup'.sublist (filter_sublist.map _)) (fun _ hverifies => .inr (.inl hverifies)) hcall).2

/-! ### Orders that let unsound locks through -/

/-- The loop reaches its end when a quorum is found for every lock that can be checked. -/
lemma isSome_foldlM {pend : List (PendingLock Sig)}
    (h : ∀ lock ∈ pend, lock.checkable env llmqParams → (lock.message env llmqParams signOffset).isSome)
    (checks : LockChecks Sig PubKey) : (pend.foldlM (checkLock env llmqParams signOffset) checks).isSome := by
  induction pend generalizing checks with
  | nil => rfl
  | cons lock pend ih =>
    rw [forall_mem_cons] at h
    have hspec := @checkLock_spec _ _ env llmqParams signOffset lock checks
    rw [foldlM_cons]
    cases hturn : checkLock env llmqParams signOffset checks lock with
    | none =>
      rw [hturn] at hspec
      have hmessage := h.1 hspec.1
      rw [hspec.2] at hmessage
      cases hmessage
    | some checks' => exact ih h.2 checks'

/-- A quorum of the current active set is found for every lock that is to be verified. -/
def QuorumsFound (env : InstantSendEnv Sig PubKey) (deterministic : Bool) (pending : List (PendingLock Sig)) : Prop :=
  ∀ lock ∈ ofKind deterministic pending, lock.checkable env (env.getLLMQParams deterministic) →
    (lock.message env (env.getLLMQParams deterministic) 0).isSome

lemma perm_front {front : List (PendingLock Sig)} (hnodup : (pending.map (·.hash)).Nodup) (hfront : front.Nodup)
    (hsub : front ⊆ pending) : ∃ rest, (front ++ rest).Perm pending := by
  classical
  refine ⟨pending.filter fun lock => lock ∉ front, ?_⟩
  have hperm : front.Perm (pending.filter fun lock => lock ∈ front) := by
    refine (perm_ext_iff_of_nodup hfront (hnodup.of_map.filter _)).mpr fun lock => ?_
    rw [mem_filter, decide_eq_true_iff]
    exact ⟨fun hmem => ⟨hsub hmem, hmem⟩, And.right⟩
  refine (hperm.append_right _).trans ?_
  simpa only [decide_not] using filter_append_perm (fun lock => decide (lock ∈ front)) pending

/-- A lock whose peer is bad at its turn is not found bad. -/
lemma notMem_badMessages_of_skipped
    {front more : List (PendingLock Sig)} (hexact : ExactLocks env llmqParams signOffset (front ++ lock :: more))
    (hnodup : ((front ++ lock :: more).map (·.hash)).Nodup)
    (hskipped : ∀ checks, front.foldlM (checkLock env llmqParams signOffset) {} = some checks →
      lock.nodeId ∈ checks.batchVerifier.badSources)
    (hrun : (front ++ lock :: more).foldlM (checkLock env llmqParams signOffset) {} = some checks) :
    lock.hash ∉ (checks.batchVerifier.verify env.scheme).badMessages := by
  intro hbad
  rw [foldlM_append, Option.bind_eq_bind, Option.bind_eq_some_iff] at hrun
  obtain ⟨checks₁, hrun₁, hrun⟩ := hrun
  rw [foldlM_cons, checkLock, if_pos (hskipped checks₁ hrun₁)] at hrun
  have hothers : (front ++ more).Sublist (front ++ lock :: more) :=
    (List.Sublist.refl front).append (sublist_cons_self lock more)
  obtain ⟨batch₁, hchecked₁, -⟩ := checked_nil.run (hexact.of_subset (subset_append_left ..))
    (hnodup.sublist ((sublist_append_left ..).map _)) hrun₁
  obtain ⟨batch, hchecked, -⟩ := hchecked₁.run (hexact.of_subset hothers.subset) (hnodup.sublist (hothers.map _)) hrun
  obtain ⟨l, hl, hhash, -⟩ := hchecked.exists_bad (hexact.of_subset hothers.subset) hbad
  -- the state does not know the lock, whose hash no other has
  rw [(perm_middle.map _).nodup_iff, map_cons, nodup_cons] at hnodup
  exact hnodup.1 (mem_map.mpr ⟨l, hl, hhash⟩)

/-- Locks that can be checked are collected as long as there are fewer than eight. -/
lemma Checked.fill {done front : List (PendingLock Sig)} {batch : List (ℤ × Message Uint256 Sig PubKey)}
    (h : Checked env llmqParams signOffset done checks batch)
    (hexact : ExactLocks env llmqParams signOffset (done ++ front)) (hnodup : ((done ++ front).map (·.hash)).Nodup)
    (hsources : checks.batchVerifier.badSources = ∅) (hcheckable : ∀ lock ∈ front, lock.checkable env llmqParams)
    (hlen : batch.length + front.length < 8) {checks' : LockChecks Sig PubKey}
    (hrun : front.foldlM (checkLock env llmqParams signOffset) checks = some checks') :
    ∃ batch', Checked env llmqParams signOffset (done ++ front) checks' batch' ∧
      checks'.batchVerifier.badSources = ∅ ∧ batch'.length = batch.length + front.length := by
  induction front generalizing done checks batch with
  | nil =>
    obtain rfl : checks = checks' := some.inj hrun
    rw [append_nil]
    exact ⟨batch, h, hsources, rfl⟩
  | cons lock front ih =>
    rw [forall_mem_cons] at hcheckable
    rw [length_cons] at hlen
    rw [foldlM_cons, bind_eq_bind, bind_eq_some_iff] at hrun
    obtain ⟨checks₁, hturn, hrun⟩ := hrun
    rw [append_cons] at hexact hnodup ⊢
    obtain ⟨msg, hmessage, hverifier⟩ :=
      (lockTurn_of_checkLock hturn).exists_message hcheckable.1 (hsources ▸ Finset.notMem_empty _)
    have hpush := h.push (hexact.of_subset (subset_append_left ..)) (notMem_done hnodup) hcheckable.1 hmessage hverifier
    rw [if_neg (by omega)] at hpush
    obtain ⟨h₁, hsources₁, -⟩ := hpush
    obtain ⟨batch', h', hsources', hlen'⟩ := ih h₁ hexact hnodup (hsources₁.trans hsources) hcheckable.2
      (by rw [length_append, length_singleton]; omega) hrun
    refine ⟨batch', h', hsources', ?_⟩
    rw [hlen', length_append, length_singleton, length_cons]
    omega

/-- After seven others, a lock that does not verify makes its peer bad. -/
lemma mem_badSources_of_eight {seven : List (PendingLock Sig)}
    (hexact : ExactLocks env llmqParams signOffset (seven ++ [lock])) (hnodup : ((seven ++ [lock]).map (·.hash)).Nodup)
    (hlen : seven.length = 7) (hcheckable : ∀ l ∈ seven ++ [lock], l.checkable env llmqParams)
    (hfails : lock.verifies env llmqParams signOffset = false)
    (hrun : (seven ++ [lock]).foldlM (checkLock env llmqParams signOffset) {} = some checks) :
    lock.nodeId ∈ checks.batchVerifier.badSources := by
  rw [forall_mem_append, forall_mem_singleton] at hcheckable
  rw [foldlM_append, bind_eq_bind, bind_eq_some_iff] at hrun
  obtain ⟨checks₁, hrun₁, hrun⟩ := hrun
  obtain ⟨batch, h, hsources, hlen'⟩ := checked_nil.fill (hexact.of_subset (subset_append_left ..))
    (hnodup.sublist ((sublist_append_left ..).map _)) rfl hcheckable.1 (by simp [hlen]) hrun₁
  rw [foldlM_cons, bind_eq_bind, bind_eq_some_iff] at hrun
  obtain ⟨checks₂, hturn, heq⟩ := hrun
  obtain rfl : checks₂ = checks := some.inj heq
  obtain ⟨msg, hmessage, hverifier⟩ :=
    (lockTurn_of_checkLock hturn).exists_message hcheckable.2 (hsources ▸ Finset.notMem_empty _)
  rw [map_append, nodup_append'] at hnodup
  have hpush := h.push hexact (disjoint_singleton.mp hnodup.2.2) hcheckable.2 hmessage hverifier
  rw [if_pos (by simp [hlen', hlen])] at hpush
  exact (hpush.2.1 _).mpr (.inr ⟨_, mem_append_right _ (mem_singleton_self _), rfl,
    (verifies_of_message hmessage).symm.trans hfails⟩)

/-- Of more than eight locks there are seven besides any two. -/
lemma exists_seven {locks : List (PendingLock Sig)} (hnodup : locks.Nodup) (hlen : 8 < locks.length)
    (hlock : lock ∈ locks) (hother : other ∈ locks) (hne : other ≠ lock) :
    ∃ seven : List (PendingLock Sig), seven.length = 7 ∧ (seven ++ [lock] ++ [other]).Nodup ∧ seven ⊆ locks := by
  classical
  have hmem : other ∈ locks.erase lock := (mem_erase_of_ne hne).mpr hother
  have hsub : ((locks.erase lock).erase other).take 7 ⊆ (locks.erase lock).erase other := take_subset 7 _
  have hnodup' := hnodup.erase lock
  refine ⟨((locks.erase lock).erase other).take 7, ?_, ?_, ?_⟩
  · rw [length_take, length_erase_of_mem hmem, length_erase_of_mem hlock]
    omega
  · rw [append_assoc, nodup_append']
    refine ⟨(hnodup'.erase other).sublist (take_sublist 7 _), ?_, fun l hl hl' => ?_⟩
    · exact nodup_cons.mpr ⟨fun h => hne (mem_singleton.mp h).symm, nodup_singleton other⟩
    · obtain rfl | hl' := mem_cons.mp hl'
      · exact hnodup.not_mem_erase (mem_of_mem_erase (hsub hl))
      · obtain rfl := mem_singleton.mp hl'
        exact hnodup'.not_mem_erase (hsub hl)
  · exact fun l hl => mem_of_mem_erase (mem_of_mem_erase (hsub hl))

section

variable (h : AcceptsSound env deterministic pending) (henabled : env.isInstantSendEnabled)
  (hquorums : QuorumsFound env deterministic pending)

include h henabled hnodup hquorums

/-- When some locks come first, the last of them is accepted if it is not found bad then. -/
lemma AcceptsSound.sound_of_front (front : List (PendingLock Sig)) (hfront : (front ++ [lock]).Nodup)
    (hsub : front ++ [lock] ⊆ ofKind deterministic pending) (hlen : front.length < 32)
    (hgood : ∀ more checks, ((front ++ lock :: more).map (·.hash)).Nodup →
      front ++ lock :: more ⊆ ofKind deterministic pending →
      (front ++ lock :: more).foldlM (checkLock env (env.getLLMQParams deterministic) 0) {} = some checks →
      lock.hash ∉ (checks.batchVerifier.verify env.scheme).badMessages) :
    lock.Sound env (env.getLLMQParams deterministic) := by
  obtain ⟨rest, hperm⟩ := perm_front hnodup hfront fun l hl => (mem_filter.mp (hsub hl)).1
  obtain ⟨more, hmore, hmoreSub⟩ := selectPending_sublist (front ++ [lock]) rest
  have hselect : (selectPending deterministic [] (front ++ [lock] ++ rest)).1 = front ++ lock :: more := by
    rw [selectPending_append [] (fun l hl => of_decide_eq_true (mem_filter.mp (hsub hl)).2)
      (by rw [length_append, length_singleton, length_nil]; omega), nil_append, hmore]
    exact (append_cons ..).symm
  have hmem : front ++ lock :: more ⊆ ofKind deterministic pending := by
    rw [append_cons]
    refine append_subset.mpr ⟨hsub, fun l hl => ?_⟩
    obtain ⟨hl, hkind⟩ := mem_filter.mp (hmoreSub.subset hl)
    exact mem_filter.mpr ⟨hperm.subset (mem_append_right _ hl), hkind⟩
  have hnodup' : ((front ++ lock :: more).map (·.hash)).Nodup := by
    rw [append_cons]
    exact ((hperm.map _).nodup_iff.mpr hnodup).sublist
      (((List.Sublist.refl _).append (hmoreSub.trans filter_sublist)).map _)
  obtain ⟨checks, hrun⟩ := isSome_iff_exists.mp (isSome_foldlM (fun l hl => hquorums l (hmem hl)) {})
  refine h _ hperm id (fun l => .refl l) lock ((mem_calls_process henabled fun l => .refl l).mpr (.inl ?_))
  rw [hselect]
  exact mem_calls_verify.mpr ⟨mem_append_cons_self .., checks, hrun, hgood more checks hnodup' hmem hrun⟩

include hexact

lemma AcceptsSound.readable (hmem : lock ∈ ofKind deterministic pending)
    (hrecovered : lock.recovered env (env.getLLMQParams deterministic) = false) :
    lock.readable env (env.getLLMQParams deterministic) := by
  by_contra hreadable
  rw [Bool.not_eq_true] at hreadable
  refine not_sound hrecovered hreadable (h.sound_of_front hnodup henabled hquorums []
    (nodup_singleton lock) (cons_subset.mpr ⟨hmem, nil_subset _⟩) (by simp) fun more checks hnodup' hsub hrun
      hbad => ?_)
  obtain ⟨batch, hchecked, -⟩ := checked_nil.run (hexact.of_subset hsub) hnodup' hrun
  obtain ⟨l, hl, hhash, hcheckable, -⟩ := hchecked.exists_bad (hexact.of_subset hsub) hbad
  obtain rfl : l = lock := inj_on_of_nodup_map hnodup' hl mem_cons_self hhash
  rw [checkable, hreadable, Bool.and_false] at hcheckable
  cases hcheckable

lemma AcceptsSound.undecodable (hmem : lock ∈ ofKind deterministic pending)
    (hsig : lock.islock.sig = none) (hother : other ∈ ofKind deterministic pending)
    (hnode : other.nodeId = lock.nodeId) : other.Sound env (env.getLLMQParams deterministic) := by
  by_cases heq : other = lock
  · subst heq
    cases hrecovered : other.recovered env (env.getLLMQParams deterministic) with
    | true => exact .inr (.inr hrecovered)
    | false =>
      have hreadable := h.readable hexact hnodup henabled hquorums hmem hrecovered
      rw [PendingLock.readable, hsig] at hreadable
      cases hreadable
  · refine h.sound_of_front hnodup henabled hquorums [lock] ?_ ?_ (by simp)
      fun more checks hnodup' hsub hrun =>
        notMem_badMessages_of_skipped (hexact.of_subset hsub) hnodup' ?_ hrun
    · exact nodup_cons.mpr ⟨fun hmem => heq (mem_singleton.mp hmem).symm, nodup_singleton other⟩
    · exact cons_subset.mpr ⟨hmem, cons_subset.mpr ⟨hother, nil_subset _⟩⟩
    · intro checks hrun
      rw [foldlM_cons, checkLock, if_neg (Finset.notMem_empty _), hsig] at hrun
      obtain rfl := some.inj hrun
      rw [hnode]
      exact Finset.mem_insert_self ..

lemma AcceptsSound.flushed
    (hcount : 8 < (ofKind deterministic pending).countP (·.checkable env (env.getLLMQParams deterministic)))
    (hmem : lock ∈ ofKind deterministic pending) (hcheckable : lock.checkable env (env.getLLMQParams deterministic))
    (hfails : lock.verifies env (env.getLLMQParams deterministic) 0 = false)
    (hother : other ∈ ofKind deterministic pending) (hne : other.hash ≠ lock.hash)
    (hnode : other.nodeId = lock.nodeId) : other.Sound env (env.getLLMQParams deterministic) := by
  cases hrecovered : other.recovered env (env.getLLMQParams deterministic) with
  | true => exact .inr (.inr hrecovered)
  | false =>
    have hcheckable' : other.checkable env (env.getLLMQParams deterministic) := by
      rw [checkable, hrecovered, h.readable hexact hnodup henabled hquorums hother hrecovered]
      rfl
    rw [countP_eq_length_filter] at hcount
    obtain ⟨seven, hlen, hnodupFront, hseven⟩ := exists_seven ((hnodup.of_map.filter _).filter _) hcount
      (mem_filter.mpr ⟨hmem, hcheckable⟩) (mem_filter.mpr ⟨hother, hcheckable'⟩)
      fun heq => hne (congrArg hash heq)
    refine h.sound_of_front hnodup henabled hquorums (seven ++ [lock]) hnodupFront ?_
      (by simp [hlen]) fun more checks hnodup' hsub hrun =>
        notMem_badMessages_of_skipped (hexact.of_subset hsub) hnodup' (fun checks hrun => hnode ▸ ?_) hrun
    · refine append_subset.mpr ⟨append_subset.mpr ⟨?_, ?_⟩, ?_⟩
      · exact fun l hl => (mem_filter.mp (hseven hl)).1
      · exact cons_subset.mpr ⟨hmem, nil_subset _⟩
      · exact cons_subset.mpr ⟨hother, nil_subset _⟩
    · refine mem_badSources_of_eight (hexact.of_subset (List.Subset.trans (subset_append_left ..) hsub))
        (hnodup'.sublist ((sublist_append_left ..).map _)) hlen ?_ hfails hrun
      rw [forall_mem_append, forall_mem_singleton]
      exact ⟨fun l hl => (mem_filter.mp (hseven hl)).2, hcheckable⟩

end

include hexact hexact' hnodup in
/-- Only sound locks are accepted if InstantSend is disabled or nothing unsound is left out by the verification loop,
and where quorums are found that is the only case: otherwise some order of the two maps has an unsound lock accepted. -/
theorem acceptsSound_iff :
    (env.isInstantSendEnabled = false ∨
        SafeBatch env (env.getLLMQParams deterministic) 0 (ofKind deterministic pending) →
      AcceptsSound env deterministic pending) ∧
    (QuorumsFound env deterministic pending → AcceptsSound env deterministic pending →
      env.isInstantSendEnabled = false ∨
        SafeBatch env (env.getLLMQParams deterministic) 0 (ofKind deterministic pending)) := by
  refine ⟨?_, fun hquorums h => ?_⟩
  · rintro (hdisabled | hsafe)
    · exact acceptsSound_of_disabled hdisabled
    · exact hsafe.acceptsSound hexact hexact' hnodup
  · cases henabled : env.isInstantSendEnabled with
    | false => exact .inl rfl
    | true =>
      exact .inr {
        readable := fun lock hmem => h.readable hexact hnodup henabled hquorums hmem
        undecodable := fun lock hmem hsig other => h.undecodable hexact hnodup henabled hquorums hmem hsig
        flushed := fun hcount lock hmem hcheckable hfails other =>
          h.flushed hexact hnodup henabled hquorums hcount hmem hcheckable hfails }

end

/-- A node at height 100, with one quorum in each active set. -/
def toyLockEnv : InstantSendEnv ℤ ℤ where
  isInstantSendEnabled := true
  getLLMQParams _ := { type := .llmq50_60, dkgInterval := 24, keepOldConnections := 25 }
  lookupBlockIndex _ := none
  height := 100
  selectQuorumForSigning _ _ _ signOffset :=
    some { quorumHash := 1, quorumPublicKey := if signOffset = 0 then 2 else 1 }
  hashInputs _ := 5
  buildSignHash _ _ _ msgHash := msgHash
  sigman := {}
  scheme := toyScheme

/-- A lock of the old format for the transaction 7, which 14 signs now and 7 signed before. -/
def toyLock (hash : Uint256) (nodeId : ℤ) (sig : Option ℤ) : PendingLock ℤ :=
  ⟨hash, nodeId, { nVersion := 0, inputs := [], txid := 7, cycleHash := 0, sig := sig }⟩

/-- Errors that are not negative do not cancel. -/
lemma exactLocks_toyLockEnv {locks : List (PendingLock ℤ)}
    (h : ∀ lock ∈ locks, (lock.message toyLockEnv (toyLockEnv.getLLMQParams false) signOffset).all fun msg =>
      0 ≤ msg.error fun pubKey hash => pubKey * (hash.toNat : ℤ)) :
    ExactLocks toyLockEnv (toyLockEnv.getLLMQParams false) signOffset locks := by
  refine exactBatches groupScheme_toyScheme fun msgs hknown hsum => ?_
  refine (Finset.sum_eq_zero_iff_of_nonneg fun msg hmem => ?_).mp hsum
  obtain ⟨lock, hlock, hmessage⟩ := hknown msg hmem
  have hall := h lock hlock
  rw [hmessage] at hall
  exact of_decide_eq_true hall

theorem acceptsSound_iff_toyLockEnv :
    (processPendingInstantSendLocks toyLockEnv id false [toyLock 1 7 (some 14), toyLock 2 8 (some 20)]).calls =
      [.processInstantSendLock (toyLock 1 7 (some 14)),
        .pushReconstructedRecoveredSig ⟨.llmq50_60, 1, 5, 7, some 14⟩, .misbehaving 8 20] ∧
    AcceptsSound toyLockEnv false [toyLock 1 7 (some 14), toyLock 2 8 (some 20)] := by
  have hsig : ∀ lock ∈ ofKind false [toyLock 1 7 (some 14), toyLock 2 8 (some 20)], lock.islock.sig ≠ none := by
    decide
  have hsafe : SafeBatch toyLockEnv (toyLockEnv.getLLMQParams false) 0
      (ofKind false [toyLock 1 7 (some 14), toyLock 2 8 (some 20)]) :=
    ⟨by decide, fun lock hmem hnone => absurd hnone (hsig lock hmem),
      fun hcount => absurd hcount (by decide)⟩
  exact ⟨by decide +kernel, (acceptsSound_iff (exactLocks_toyLockEnv (by decide +kernel))
    (exactLocks_toyLockEnv (by decide)) (by decide)).1 (.inr hsafe)⟩

/-- A lock whose signature does not decode is accepted. -/
theorem not_acceptsSound_undecodable : ¬AcceptsSound toyLockEnv false [toyLock 1 7 none] := by
  intro h
  refine not_sound ?_ ?_ (h _ (.refl _) id (fun l => .refl l) (toyLock 1 7 none) ?_)
  · decide
  · decide
  · decide

end Blocx
