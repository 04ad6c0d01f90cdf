import Blocx.Chain.VersionBitsPhase
import Blocx.Lib.Machine
import Blocx.Lib.Overlay

/-!
# The cache of deployment states

The answers of `GetStateFor`, `GetStateSinceHeightFor` and `GetStateStatisticsFor` with a cache that all queries share
are the ones that follow from the phases of the deployment, without a cache.

The invariant of the cache (`CacheOk`): every entry is right, and an entry that says `STARTED` has the entry of the
period before it. The second part is what the search for the start height rests on: entries on other branches do not
matter, as the search only follows ancestors.
-/

namespace Blocx.ThresholdConditionChecker

open CBlockIndex

open Function Option List

variable {checker : ThresholdConditionChecker} {cache : ThresholdConditionCache} {p q : CBlockIndex}
  {b : Option CBlockIndex}
variable {e : Option CBlockIndex} {v : List CBlockIndex} {st : ThresholdState} {n : ℤ} {fuel : ℕ} {m : ℕ}

/-! ### The invariant -/

/-- The caches that queries leave. -/
structure CacheOk (checker : ThresholdConditionChecker) (cache : ThresholdConditionCache) : Prop where
  /-- The states are right. -/
  state : ∀ e st, cache e = some st → st = (checker.phase e).state
  /-- Where the deployment is started, the state of the period before is known. -/
  started : ∀ p, cache (some p) = some .started → (cache (checker.previousPeriodParent p)).isSome = true

lemma cacheOk_empty : checker.CacheOk fun _ => none := ⟨by simp, by simp⟩

/-- A right entry is added. -/
lemma CacheOk.update (h : checker.CacheOk cache) (hstarted : ∀ p, e = some p → (checker.phase e).state = .started →
      (cache (checker.previousPeriodParent p)).isSome = true) :
    checker.CacheOk (update cache e (some (checker.phase e).state)) := by
  constructor
  · intro e' st' hst
    obtain ⟨rfl, rfl⟩ | ⟨-, hst⟩ := update_some_eq_some_iff.mp hst
    · rfl
    · exact h.state e' st' hst
  · intro p hp
    have hprev : (cache (checker.previousPeriodParent p)).isSome = true := by
      obtain ⟨rfl, hp⟩ | ⟨-, hp⟩ := update_some_eq_some_iff.mp hp
      · exact hstarted p rfl hp
      · exact h.started p hp
    rw [update_apply]
    split_ifs
    · rfl
    · exact hprev

/-! ### Walking back -/

/-- Blocks a period apart, from a block on, none of them before the start time. -/
def Linked (checker : ThresholdConditionChecker) : Option CBlockIndex → List CBlockIndex → Prop
  | _, [] => True
  | e, p :: v => checker.IsEnd (some p) ∧ checker.previousPeriodParent p = e ∧ checker.beginTime ≤ p.getMedianTimePast ∧
      Linked checker (some p) v

/-- The last block of a walk forward. -/
def lastOf (e : Option CBlockIndex) (v : List CBlockIndex) : Option CBlockIndex := v.foldl (fun _ p => some p) e

/-- The walk back ends at a known state, and leaves the blocks from there on. -/
lemma walkBack_spec (hcache : checker.CacheOk cache) (hend : checker.IsEnd e) (htimely : ∀ p ∈ e, p.Timely)
    (hlinked : checker.Linked e v) (hfuel : checker.periods e < fuel) :
    ∃ cache' e' v', checker.walkBack fuel cache e v = some (cache', e', v') ∧ checker.CacheOk cache' ∧
      (cache' e').isSome = true ∧ checker.IsEnd e' ∧ checker.periods e' ≤ checker.periods e ∧ checker.Linked e' v' ∧
      lastOf e' v' = lastOf e v := by
  induction e, hend using IsEnd.induction generalizing v fuel with
  | none =>
    obtain ⟨fuel, rfl⟩ : ∃ n, fuel = n + 1 := ⟨fuel - 1, by omega⟩
    unfold walkBack
    by_cases hknown : (cache none).isSome = true
    · rw [if_pos hknown]
      exact ⟨cache, none, v, rfl, hcache, hknown, trivial, le_refl _, hlinked, rfl⟩
    · rw [if_neg hknown]
      refine ⟨_, none, v, rfl, ?_, by simp, trivial, le_refl _, hlinked, rfl⟩
      exact hcache.update (e := none) (by simp)
  | some p hend ih =>
    obtain ⟨fuel, rfl⟩ : ∃ n, fuel = n + 1 := ⟨fuel - 1, by omega⟩
    obtain ⟨-, hperiods⟩ := hend.previous
    unfold walkBack
    by_cases hknown : (cache (some p)).isSome = true
    · rw [if_pos hknown]
      exact ⟨cache, some p, v, rfl, hcache, hknown, hend, le_refl _, hlinked, rfl⟩
    rw [if_neg hknown]
    dsimp only
    by_cases hbefore : p.getMedianTimePast < checker.beginTime
    · -- every earlier block is before the start time as well
      have hphase : checker.phase (some p) = .defined :=
        phase_of_lt_beginTime hend fun p' hp' => by
          obtain rfl := some.inj hp'
          exact ⟨htimely p rfl, hbefore⟩
      rw [if_pos hbefore]
      refine ⟨_, some p, v, rfl, ?_, by simp, hend, le_refl _, hlinked, rfl⟩
      have hupdate := hcache.update (e := some p) (by simp [hphase, Phase.state])
      rwa [hphase] at hupdate
    · rw [if_neg hbefore]
      have hfuel' : checker.periods (checker.previousPeriodParent p) < fuel := by omega
      obtain ⟨cache', e', v', hwalk, hcache', hknown', hend', hle, hlinked', hlast⟩ :=
        ih (v := p :: v) (fun q hq => (htimely p rfl).getAncestor hq) ⟨hend, rfl, not_lt.mp hbefore, hlinked⟩ hfuel'
      exact ⟨cache', e', v', hwalk, hcache', hknown', hend', by omega, hlinked', hlast⟩

/-! ### Searching for the start -/

def StartsAt (checker : ThresholdConditionChecker) (e : Option CBlockIndex) (n : ℤ) : Prop :=
  ∀ p k, e = some p → checker.phase e = .started k → n = checker.startHeight p k

/-- The search finds the height at which the deployment was started, and leaves the cache as it is. -/
lemma searchStart_spec (hcache : checker.CacheOk cache) (hend : checker.IsEnd e) (hknown : cache e = some st)
    (hfuel : checker.periods e < fuel) :
    ∃ n', checker.searchStart fuel cache e st n = some (cache, n') ∧
      ∀ p k, e = some p → checker.phase e = .started k → n' = min n (checker.startHeight p k) := by
  induction e, hend using IsEnd.induction generalizing st n fuel with
  | none =>
    obtain ⟨fuel, rfl⟩ : ∃ n, fuel = n + 1 := ⟨fuel - 1, by omega⟩
    obtain rfl : st = .defined := hcache.state none st hknown
    exact ⟨n, rfl, by simp⟩
  | some p hend ih =>
    obtain ⟨fuel, rfl⟩ : ∃ n, fuel = n + 1 := ⟨fuel - 1, by omega⟩
    obtain ⟨-, hperiods⟩ := hend.previous
    have hst := hcache.state _ _ hknown
    by_cases hstarted : st = .started
    · rw [hstarted] at hknown hst ⊢
      obtain ⟨prevState, hprev⟩ := isSome_iff_exists.mp (hcache.started p hknown)
      have hfuel' : checker.periods (checker.previousPeriodParent p) < fuel := by omega
      obtain ⟨n', hsearch, hn'⟩ := ih (n := min n (p.nHeight + 1)) hprev hfuel'
      refine ⟨n', ?_, ?_⟩
      · unfold searchStart
        dsimp only
        rw [hprev, getD_some, ← hprev, update_eq_self, hsearch]
      · rintro p' k hp' hphase
        obtain rfl := some.inj hp'
        obtain ⟨rfl, hdefined⟩ | ⟨j, rfl, hattempt⟩ := previous_of_started hend hphase
        · -- the search ends a period further back, where the deployment was defined
          have hprevState := hcache.state _ _ hprev
          rw [hdefined] at hprevState
          obtain ⟨fuel', rfl⟩ : ∃ m, fuel = m + 1 := ⟨fuel - 1, by omega⟩
          rw [hprevState] at hsearch
          have hresult := congrArg Prod.snd (some.inj hsearch)
          simp [startHeight] at hresult ⊢
          exact hresult.symm
        · obtain ⟨q, hq, -⟩ := startHeight_pos hend.previous.1 hattempt
          rw [hn' q j hq hattempt, ← startHeight_previous hq, min_assoc, min_eq_right (startHeight_le _)]
    · refine ⟨n, ?_, ?_⟩
      · cases st <;> first | rfl | exact absurd rfl hstarted
      · rintro p' k hp' hphase
        rw [hphase] at hst
        exact absurd hst hstarted

/-! ### Walking forward -/

lemma signalling_succ (hprev : p.pprev = some q) (count : ℤ) :
    (if checker.condition p then count + 1 else count) + checker.signalling m q =
      count + checker.signalling (m + 1) p := by
  simp only [signalling, lastBlocks, hprev, countP_cons]
  split_ifs <;> push_cast <;> ring

lemma countPeriod_spec {count : ℤ} (hm : (m : ℤ) ≤ p.nHeight + 1) :
    checker.countPeriod m (some p) count = some (count + checker.signalling m p, p.getAncestor (p.nHeight - m)) := by
  induction m generalizing p count with
  | zero => simp [countPeriod, signalling, lastBlocks, getAncestor_self]
  | succ m ih =>
    cases hprev : p.pprev with
    | none =>
      have hzero := nHeight_of_pprev_none hprev
      obtain rfl : m = 0 := by omega
      have hancestor : p.getAncestor (p.nHeight - (0 + 1 : ℕ)) = none := if_pos (by omega)
      rw [countPeriod, hprev, countPeriod, hancestor]
      split <;> simp_all [signalling, lastBlocks]
    | some prev =>
      have hheight := nHeight_of_pprev hprev
      have hancestor : p.getAncestor (p.nHeight - (m + 1 : ℕ)) = prev.getAncestor (prev.nHeight - m) := by
        have hpred := getAncestor_pred hprev
        rw [← getAncestor_getAncestor hpred (by push_cast; omega)]
        congr 1
        omega
      rw [countPeriod, hprev, ih (by push_cast at hm; omega), hancestor, signalling_succ hprev]

/-- One round of the walk forward. -/
lemma stateNext_spec (hend : checker.IsEnd (some p)) (hbegin : checker.beginTime ≤ p.getMedianTimePast)
    (hheight : p.nHeight < intMax) (hstart : checker.StartsAt (checker.previousPeriodParent p) n) :
    ∃ n', checker.stateNext p (checker.phase (checker.previousPeriodParent p)).state n =
      some ((checker.phase (some p)).state, n') ∧ checker.StartsAt (some p) n' := by
  rw [phase_some hend]
  -- where the deployment is not started afterwards, nothing is asked of the height
  have hother : ∀ phase : Phase, checker.next p (checker.phase (checker.previousPeriodParent p)) = phase →
      phase.state ≠ .started → checker.StartsAt (some p) n := by
    rintro phase hphase hne p' k - hstarted
    rw [phase_some hend, hphase] at hstarted
    rw [hstarted] at hne
    exact absurd rfl hne
  cases hprev : checker.phase (checker.previousPeriodParent p) with
  | defined =>
    rw [hprev] at hother
    by_cases htimeout : p.getMedianTimePast ≥ checker.endTime
    · have hnext : checker.next p .defined = .failed := by
        rw [next, if_neg (not_lt.mpr hbegin), if_pos htimeout]
      rw [hnext]
      exact ⟨n, if_pos htimeout, hother _ hnext (by decide)⟩
    · have hnext : checker.next p .defined = .started 0 := by
        rw [next, if_neg (not_lt.mpr hbegin), if_neg htimeout]
      rw [hnext]
      refine ⟨p.nHeight + 1, ?_, ?_⟩
      · show (if _ then _ else if _ then _ else _) = _
        rw [if_neg htimeout, if_pos hbegin]
        rfl
      · rintro p' k hp' hphase
        rw [phase_some hend, hprev, hnext] at hphase
        obtain rfl := some.inj hp'
        obtain rfl := Phase.started.inj hphase
        simp [startHeight]
  | started k =>
    rw [hprev] at hother
    by_cases htimeout : p.getMedianTimePast ≥ checker.endTime
    · have hnext : checker.next p (.started k) = .failed := if_pos htimeout
      rw [hnext]
      exact ⟨n, if_pos htimeout, hother _ hnext (by decide)⟩
    · obtain ⟨q, hq, hpos⟩ := startHeight_pos hend.previous.1 hprev
      obtain rfl := hstart q k hq hprev
      have hlt : checker.startHeight q k < intMax := by
        have hqheight := nHeight_of_getAncestor hq
        have hperiod := checker.natCast_period_pos
        exact (startHeight_le k).trans_lt (by omega)
      have hstep : checker.stateNext p .started (checker.startHeight q k) =
          some (if (checker.signalling checker.period p : ℤ) ≥ checker.threshold k then .lockedIn else .started,
            checker.startHeight q k) := by
        show (if _ then _ else _) = _
        rw [if_neg htimeout, countPeriod_spec hend.period_le]
        show (if _ then ((checker.previousPeriodParent p).bind _) else none) = _
        rw [if_pos ⟨hpos, hlt⟩, hq, bind_some, attempt_of_startHeight, zero_add]
      have hnext : checker.next p (.started k) =
          if (checker.signalling checker.period p : ℤ) ≥ checker.threshold k then .lockedIn else .started (k + 1) :=
        if_neg htimeout
      refine ⟨checker.startHeight q k, ?_, ?_⟩
      · rw [show (Phase.started k).state = .started from rfl, hstep, hnext]
        split <;> rfl
      · rintro p' k' hp' hphase
        obtain rfl := some.inj hp'
        rw [phase_some hend, hprev, hnext] at hphase
        split at hphase
        · cases hphase
        · obtain rfl := Phase.started.inj hphase
          exact (startHeight_previous hq k).symm
  | lockedIn | active => exact ⟨n, rfl, hother .active (by rw [hprev]; rfl) (by decide)⟩
  | failed => exact ⟨n, rfl, hother .failed (by rw [hprev]; rfl) (by decide)⟩

/-- The walk forward gives the state after the last block. -/
lemma walkForward_spec (hcache : checker.CacheOk cache) (hknown : (cache e).isSome = true)
    (hlinked : checker.Linked e v) (hheight : ∀ p ∈ v, p.nHeight < intMax) (hstart : checker.StartsAt e n) :
    ∃ cache', checker.walkForward v cache (checker.phase e).state n =
      some (cache', (checker.phase (lastOf e v)).state) ∧ checker.CacheOk cache' := by
  induction v generalizing cache e n with
  | nil => exact ⟨cache, rfl, hcache⟩
  | cons p v ih =>
    obtain ⟨hend, rfl, hbegin, hlinked'⟩ := hlinked
    obtain ⟨n', hnext, hstart'⟩ := stateNext_spec hend hbegin (hheight p mem_cons_self) hstart
    have hcache' := hcache.update (e := some p) fun p' hp' _ => by
      obtain rfl := some.inj hp'
      exact hknown
    obtain ⟨cache', hwalk, hok⟩ := ih hcache' (by rw [update_self]; rfl) hlinked'
      (fun q hq => hheight q (mem_cons_of_mem p hq)) hstart'
    refine ⟨cache', ?_, hok⟩
    unfold walkForward
    rw [hnext]
    exact hwalk

/-! ### The queries -/

/-- The blocks a query may be for: timely ones whose height an `int` can hold. -/
def BlockOk (b : Option CBlockIndex) : Prop := ∀ p ∈ b, p.Timely ∧ p.nHeight < intMax

lemma BlockOk.getAncestor {height : ℤ} (h : BlockOk (some p)) (hq : p.getAncestor height = some q) :
    BlockOk (some q) := by
  rintro q' hq'
  obtain rfl := some.inj hq'
  obtain ⟨htimely, hheight⟩ := h p rfl
  obtain ⟨⟨-, hle⟩, -⟩ := getAncestor_eq_some_iff.mp hq
  refine ⟨htimely.getAncestor hq, ?_⟩
  rw [nHeight_of_getAncestor hq]
  exact hle.trans_lt hheight

lemma BlockOk.bind_periodParent (h : BlockOk b) : BlockOk (b.bind checker.periodParent) := by
  rcases b with _ | p
  · exact h
  · rw [bind_some]
    cases hq : checker.periodParent p with
    | none => simp [BlockOk]
    | some q => exact h.getAncestor hq

lemma Linked.nHeight_lt {bound : ℤ} (hlinked : checker.Linked e v) (hlast : ∀ p ∈ lastOf e v, p.nHeight < bound) :
    (∀ p ∈ e, p.nHeight < bound) ∧ ∀ p ∈ v, p.nHeight < bound := by
  induction v generalizing e with
  | nil => exact ⟨hlast, by simp⟩
  | cons p v ih =>
    obtain ⟨-, rfl, -, hlinked'⟩ := hlinked
    obtain ⟨hp, hv⟩ := ih hlinked' hlast
    have hlt := hp p rfl
    refine ⟨fun q hq => ?_, fun q hq => ?_⟩
    · rw [nHeight_of_getAncestor hq]
      omega
    · rcases mem_cons.mp hq with rfl | hq
      · exact hlt
      · exact hv q hq

/-- `GetStateFor` gives the state of the phase. -/
lemma getStateFor_spec (hcache : checker.CacheOk cache) (hb : BlockOk b) :
    ∃ cache', checker.getStateFor cache b = some (cache', checker.stateFor b) ∧ checker.CacheOk cache' := by
  have hok : BlockOk (b.bind checker.periodParent) := hb.bind_periodParent
  have hend : checker.IsEnd (b.bind checker.periodParent) := isEnd_bind_periodParent b
  unfold getStateFor stateFor
  obtain ⟨cache₁, e', v, hwalk, hcache₁, hknown, hend', hperiods, hlinked, hlast⟩ :=
    walkBack_spec hcache hend (fun p hp => (hok p hp).1) (v := []) trivial (Nat.lt_succ_self _)
  obtain ⟨st, hst⟩ := isSome_iff_exists.mp hknown
  obtain ⟨n, hsearch, hn⟩ := searchStart_spec (n := intMax) hcache₁ hend' hst (Nat.lt_succ_of_le hperiods)
  obtain ⟨hheight, hheights⟩ := hlinked.nHeight_lt (by rw [hlast]; exact fun p hp => (hok p hp).2)
  have hstart : checker.StartsAt e' n := by
    rintro p k rfl hphase
    rw [hn p k rfl hphase, min_eq_right ((startHeight_le k).trans (hheight p rfl))]
  obtain ⟨cache₂, hforward, hcache₂⟩ := walkForward_spec hcache₁ hknown hlinked hheights hstart
  obtain rfl := hcache₁.state e' st hst
  rw [hlast] at hforward
  refine ⟨cache₂, ?_, hcache₂⟩
  simp only [hwalk, hst, hsearch, bind_eq_bind, bind_some]
  exact hforward

/-! ### The height of the state -/

/-- The height of the first block of the first of the periods up to a block that have its state. -/
def sinceHeightAfter (checker : ThresholdConditionChecker) : ℕ → CBlockIndex → ℤ
  | 0, p => p.nHeight + 1
  | m + 1, p =>
    match checker.previousPeriodParent p with
    | none => p.nHeight + 1
    | some q =>
      if (checker.phase (some q)).state = (checker.phase (some p)).state then checker.sinceHeightAfter m q
      else p.nHeight + 1

/-- Since when the deployment has had the state it has after a block. -/
def stateSinceHeight (checker : ThresholdConditionChecker) (b : Option CBlockIndex) : ℤ :=
  match b.bind checker.periodParent with
  | none => 0
  | some p =>
    if (checker.phase (some p)).state = .defined then 0 else checker.sinceHeightAfter (checker.periods (some p)) p

lemma IsEnd.stateFor_eq (h : checker.IsEnd (some p)) : checker.stateFor (some p) = (checker.phase (some p)).state := by
  rw [stateFor, bind_some, h.periodParent_eq]

lemma sinceHeightLoop_spec (hcache : checker.CacheOk cache) (hend : checker.IsEnd (some p)) (hp : BlockOk (some p))
    (hm : checker.periods (some p) = m) : ∃ cache', checker.sinceHeightLoop (checker.phase (some p)).state m cache p =
      some (cache', checker.sinceHeightAfter m p) ∧ checker.CacheOk cache' := by
  induction m generalizing p cache with
  | zero =>
    have hperiods := hend.previous.2
    omega
  | succ m ih =>
    obtain ⟨hprevEnd, hperiods⟩ := hend.previous
    unfold sinceHeightLoop sinceHeightAfter
    cases hq : checker.previousPeriodParent p with
    | none => exact ⟨cache, rfl, hcache⟩
    | some q =>
      rw [hq] at hprevEnd hperiods
      have hqOk : BlockOk (some q) := hp.getAncestor hq
      obtain ⟨cache₁, hstate, hcache₁⟩ := getStateFor_spec hcache hqOk
      dsimp only
      rw [hstate, hprevEnd.stateFor_eq]
      show ∃ cache', (if (checker.phase (some q)).state = (checker.phase (some p)).state then _ else _) = _ ∧ _
      by_cases hsame : (checker.phase (some q)).state = (checker.phase (some p)).state
      · rw [if_pos hsame, if_pos hsame, ← hsame]
        exact ih hcache₁ hprevEnd hqOk (by omega)
      · rw [if_neg hsame, if_neg hsame]
        exact ⟨cache₁, rfl, hcache₁⟩

lemma getStateSinceHeightFor_spec (hcache : checker.CacheOk cache) (hb : BlockOk b) :
    ∃ cache', checker.getStateSinceHeightFor cache b = some (cache', checker.stateSinceHeight b) ∧
      checker.CacheOk cache' := by
  obtain ⟨cache₁, hstate, hcache₁⟩ := getStateFor_spec hcache hb
  have hend : checker.IsEnd (b.bind checker.periodParent) := isEnd_bind_periodParent b
  have hok : BlockOk (b.bind checker.periodParent) := hb.bind_periodParent
  unfold getStateSinceHeightFor stateSinceHeight
  rw [hstate]
  show ∃ cache', (if checker.stateFor b = .defined then _ else _) = _ ∧ _
  unfold stateFor
  cases hparent : b.bind checker.periodParent with
  | none => exact ⟨cache₁, rfl, hcache₁⟩
  | some p =>
    rw [hparent] at hend hok
    dsimp only
    by_cases hdefined : (checker.phase (some p)).state = .defined
    · rw [if_pos hdefined, if_pos hdefined]
      exact ⟨cache₁, rfl, hcache₁⟩
    · rw [if_neg hdefined, if_neg hdefined]
      obtain ⟨b', rfl, hb'⟩ := bind_eq_some_iff.mp hparent
      obtain ⟨cache₂, hloop, hcache₂⟩ := sinceHeightLoop_spec hcache₁ hend hok rfl
      refine ⟨cache₂, ?_, hcache₂⟩
      simp only [hb', bind_eq_bind, bind_some]
      exact hloop

lemma sinceHeightAfter_of_started {k : ℕ} (hend : checker.IsEnd (some p)) (hm : checker.periods (some p) = m)
    (hphase : checker.phase (some p) = .started k) : checker.sinceHeightAfter m p = checker.startHeight p k := by
  induction m generalizing p k with
  | zero =>
    have hperiods := hend.previous.2
    omega
  | succ m ih =>
    obtain ⟨hprevEnd, hperiods⟩ := hend.previous
    unfold sinceHeightAfter
    obtain ⟨rfl, hdefined⟩ | ⟨j, rfl, hattempt⟩ := previous_of_started hend hphase
    · cases hq : checker.previousPeriodParent p with
      | none => simp [startHeight]
      | some q =>
        rw [hq] at hdefined
        dsimp only
        rw [hdefined, hphase, if_neg (by decide)]
        simp [startHeight]
    · obtain ⟨q, hq, -⟩ := startHeight_pos hprevEnd hattempt
      rw [hq] at hattempt hprevEnd hperiods ⊢
      dsimp only
      rw [hattempt, hphase, if_pos (show (Phase.started j).state = (Phase.started (j + 1)).state from rfl),
        startHeight_previous hq]
      exact ih hprevEnd (by omega) hattempt

/-! ### Statistics -/

/-- The numbers of a deployment in the period of a block; there are none in the first period. -/
def statistics (checker : ThresholdConditionChecker) (b : Option CBlockIndex) : Option BIP9Stats :=
  match b with
  | none => some { period := checker.period, threshold := checker.threshold 0 }
  | some b => (checker.periodParent b).map fun p =>
    let threshold := checker.threshold (checker.phase (some p)).attempt
    let elapsed := b.nHeight - p.nHeight
    let count := checker.signalling elapsed.toNat b
    { period := checker.period, threshold, elapsed, count,
      possible := decide (checker.period - threshold ≥ elapsed - count) }

lemma countElapsed_spec {b : CBlockIndex} {height count : ℤ} (h0 : 0 ≤ height) (hle : height ≤ b.nHeight)
    (hfuel : (b.nHeight - height).toNat < fuel) :
    checker.countElapsed height fuel b count = some (count + checker.signalling (b.nHeight - height).toNat b) := by
  induction fuel generalizing b count with
  | zero => omega
  | succ fuel ih =>
    unfold countElapsed
    rcases hle.eq_or_lt with heq | hlt
    · rw [if_pos heq, heq]
      simp [signalling, lastBlocks]
    · rw [if_neg hlt.ne]
      cases hprev : b.pprev with
      | none =>
        have hzero := nHeight_of_pprev_none hprev
        omega
      | some prev =>
        have hheight := nHeight_of_pprev hprev
        have hsucc : (b.nHeight - height).toNat = (prev.nHeight - height).toNat + 1 := by omega
        show checker.countElapsed height fuel prev _ = _
        rw [ih (by omega) (by omega), hsucc, signalling_succ hprev]

/-- `GetStateStatisticsFor` gives those numbers, and uses a null pointer in the first period. -/
lemma getStateStatisticsFor_spec (hcache : checker.CacheOk cache) (hb : BlockOk b) :
    (∃ cache' stats, checker.getStateStatisticsFor cache b = some (cache', stats) ∧ checker.statistics b = some stats ∧
      checker.CacheOk cache') ∨
    checker.getStateStatisticsFor cache b = none ∧ checker.statistics b = none := by
  rcases b with _ | b
  · exact .inl ⟨cache, _, rfl, rfl, hcache⟩
  have hend : checker.IsEnd ((some b).bind checker.periodParent) := isEnd_bind_periodParent (some b)
  unfold getStateStatisticsFor statistics
  dsimp only
  rw [bind_some] at hend
  cases hp : checker.periodParent b with
  | none => exact .inr ⟨rfl, rfl⟩
  | some p =>
    left
    rw [hp] at hend
    have hpOk : BlockOk (some p) := hb.getAncestor hp
    obtain ⟨⟨h0, hle⟩, -⟩ := getAncestor_eq_some_iff.mp hp
    have hheight := nHeight_of_getAncestor hp
    obtain ⟨cache₁, hstate, hcache₁⟩ := getStateFor_spec hcache hpOk
    have hcount : checker.countElapsed p.nHeight ((b.nHeight - p.nHeight).toNat + 1) b 0 =
        some (0 + (checker.signalling (b.nHeight - p.nHeight).toNat b : ℤ)) :=
      countElapsed_spec (by omega) (by omega) (Nat.lt_succ_self _)
    rw [zero_add] at hcount
    rw [hend.stateFor_eq] at hstate
    -- the attempt comes from the height since when the deployment is started
    cases hphase : checker.phase (some p) with
    | started k =>
      obtain ⟨cache₂, hsince, hcache₂⟩ := getStateSinceHeightFor_spec hcache₁ hpOk
      have hstart : checker.stateSinceHeight (some p) = checker.startHeight p k := by
        unfold stateSinceHeight
        rw [bind_some, hend.periodParent_eq]
        dsimp only
        rw [hphase, if_neg (by simp [Phase.state])]
        exact sinceHeightAfter_of_started hend rfl hphase
      refine ⟨cache₂, _, ?_, rfl, hcache₂⟩
      simp [hstate, hphase, Phase.state, hsince, hstart, attempt_of_startHeight, hcount, Phase.attempt]
    | _ => exact ⟨cache₁, _, by simp [hstate, hphase, Phase.state, hcount, Phase.attempt], rfl, hcache₁⟩

/-! ### Sequences of queries -/

/-- A query for a block. -/
inductive StateQuery where
  | state (pindexPrev : Option CBlockIndex)
  | sinceHeight (pindexPrev : Option CBlockIndex)
  | statistics (pindex : Option CBlockIndex)

def StateQuery.block : StateQuery → Option CBlockIndex
  | .state b => b
  | .sinceHeight b => b
  | .statistics b => b

/-- The answer to a query. -/
inductive StateAnswer where
  | state (state : ThresholdState)
  | sinceHeight (height : ℤ)
  | statistics (stats : BIP9Stats)
  deriving DecidableEq

def query (checker : ThresholdConditionChecker) (cache : ThresholdConditionCache) :
    StateQuery → Option (ThresholdConditionCache × StateAnswer)
  | .state b => (checker.getStateFor cache b).map fun r => (r.1, .state r.2)
  | .sinceHeight b => (checker.getStateSinceHeightFor cache b).map fun r => (r.1, .sinceHeight r.2)
  | .statistics b => (checker.getStateStatisticsFor cache b).map fun r => (r.1, .statistics r.2)

/-- A query without a cache. -/
def uncachedQuery (checker : ThresholdConditionChecker) (_ : Unit) : StateQuery → Option (Unit × StateAnswer)
  | .state b => some ((), .state (checker.stateFor b))
  | .sinceHeight b => some ((), .sinceHeight (checker.stateSinceHeight b))
  | .statistics b => (checker.statistics b).map fun stats => ((), .statistics stats)

lemma query_sameAnswer (cache : ThresholdConditionCache) (u : Unit) (q : StateQuery) (hcache : checker.CacheOk cache)
    (hq : BlockOk q.block) :
    SameAnswer (fun cache _ => checker.CacheOk cache) (checker.query cache q) (checker.uncachedQuery u q) := by
  cases q with
  | state b =>
    have hb : BlockOk b := hq
    obtain ⟨cache', hstate, hcache'⟩ := getStateFor_spec hcache hb
    rw [query, hstate]
    exact .some ⟨rfl, hcache'⟩
  | sinceHeight b =>
    have hb : BlockOk b := hq
    obtain ⟨cache', hsince, hcache'⟩ := getStateSinceHeightFor_spec hcache hb
    rw [query, hsince]
    exact .some ⟨rfl, hcache'⟩
  | statistics b =>
    have hb : BlockOk b := hq
    rw [query, uncachedQuery]
    obtain ⟨cache', stats, hget, hstats, hcache'⟩ | ⟨hget, hstats⟩ := getStateStatisticsFor_spec hcache hb
    · rw [hget, hstats]
      exact .some ⟨rfl, hcache'⟩
    · rw [hget, hstats]
      exact .none

/-- For every sequence of queries at timely blocks, on whatever branches, with one cache: the answers are the ones
without a cache, and a query fails, by a null pointer, only where a statistic is asked for in the first period. The
states are the ones of BIP 9 if the deployment does not time out before it starts, they are the same within a period,
and the last two are final along every branch. -/
theorem stateCache_transparent (checker : ThresholdConditionChecker) (queries : List StateQuery)
    (hqueries : ∀ q ∈ queries, BlockOk q.block) :
    (runRequests checker.query (fun _ => none) queries).1 = (runRequests checker.uncachedQuery () queries).1 ∧
      ((runRequests checker.query (fun _ => none) queries).2.isSome =
        (runRequests checker.uncachedQuery () queries).2.isSome) ∧
      (checker.beginTime ≤ checker.endTime → ∀ b, checker.stateFor b = checker.bip9StateFor b) ∧
      (∀ p q : CBlockIndex, q.pprev = some p → (q.nHeight + 1) % checker.period ≠ 0 →
        checker.stateFor (some q) = checker.stateFor (some p)) ∧
      ∀ (p q : CBlockIndex) height s, s = .active ∨ s = .failed → q.getAncestor height = some p →
        checker.stateFor (some p) = s →
        checker.stateFor (some q) = s := by
  obtain ⟨hanswers, hend⟩ := runRequests_sim query_sameAnswer
    (show (fun cache (_ : Unit) => checker.CacheOk cache) (fun _ => none) () from cacheOk_empty) hqueries
  refine ⟨hanswers, ?_, fun h b => (checker.bip9StateFor_eq h b).symm, fun p q hq hperiod =>
    stateFor_of_pprev hq hperiod,
    fun p q height s hs hp hstate => stateFor_final hs hp hstate⟩
  generalize (runRequests checker.query (fun _ => none) queries).2 = r,
    (runRequests checker.uncachedQuery () queries).2 = r' at hend
  rcases hend with _ | _ <;> rfl

/-- A deployment with periods of two blocks, of which one has to signal. -/
def twoBlockDeployment : DeploymentParams where
  bit := 0
  nStartTime := 150
  nTimeout := 1000
  nWindowSize := 2
  nThresholdStart := 1
  nRuleChangeActivationThreshold := 2
  nMinerConfirmationWindow := 2
  window_pos := .inl (by decide)

/-- A chain of blocks that signal. -/
def signallingChain : ℕ → CBlockIndex
  | 0 => ⟨{ nTime := 100 }, []⟩
  | n + 1 => (signallingChain n).child { nTime := BitVec.ofNat 32 (100 * (n + 2)), nVersion := 0x20000001 }

theorem stateCache_transparent_signallingChain :
    let queries : List StateQuery := [.state (some (signallingChain 2)), .sinceHeight (some (signallingChain 6)),
      .statistics (some (signallingChain 4))]
    (runRequests twoBlockDeployment.versionBitsConditionChecker.query (fun _ => none) queries).1 =
        [.state .started, .sinceHeight 6,
          .statistics { period := 2, threshold := 1, elapsed := 1, count := 1, possible := true }] ∧
      (runRequests twoBlockDeployment.versionBitsConditionChecker.query (fun _ => none) queries).1 =
        (runRequests twoBlockDeployment.versionBitsConditionChecker.uncachedQuery () queries).1 := by
  intro queries
  refine ⟨by decide, (stateCache_transparent _ queries ?_).1⟩
  have h0 : (signallingChain 0).Timely := timely_genesis _
  have h1 : (signallingChain 1).Timely := h0.child (by decide)
  have h2 : (signallingChain 2).Timely := h1.child (by decide)
  have h3 : (signallingChain 3).Timely := h2.child (by decide)
  have h4 : (signallingChain 4).Timely := h3.child (by decide)
  have h5 : (signallingChain 5).Timely := h4.child (by decide)
  have h6 : (signallingChain 6).Timely := h5.child (by decide)
  have hok : ∀ b : CBlockIndex, b.Timely → b.nHeight < intMax → BlockOk (some b) := by
    rintro b htimely hheight p hp
    obtain rfl := some.inj hp
    exact ⟨htimely, hheight⟩
  intro q hq
  simp only [queries, mem_cons, not_mem_nil, or_false] at hq
  rcases hq with rfl | rfl | rfl
  · exact hok _ h2 (by decide)
  · exact hok _ h6 (by decide)
  · exact hok _ h4 (by decide)

end Blocx.ThresholdConditionChecker
