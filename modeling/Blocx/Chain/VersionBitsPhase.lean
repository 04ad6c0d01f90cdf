import Blocx.Chain.VersionBits

/-!
# The phases of a deployment

The state of a deployment without a cache: a recursion over the periods of a chain. A phase is a state together with the
number of periods in which the deployment was started and did not get enough signalling blocks, its attempt.

BIP 9 looks at the timeout first (`bip9Next`). The code stops its walk at a block before the start time, so a deployment
does not leave `DEFINED` before that (`next`); the two differ only for a deployment that times out before it starts.
-/

namespace Blocx

open Option

open CBlockIndex

/-- A state, and the number of the attempt. -/
inductive Phase where
  | defined
  | started (attempt : ℕ)
  | lockedIn
  | active
  | failed
  deriving DecidableEq

def Phase.state : Phase → ThresholdState
  | .defined => .defined
  | .started _ => .started
  | .lockedIn => .lockedIn
  | .active => .active
  | .failed => .failed

def Phase.attempt : Phase → ℕ
  | .started attempt => attempt
  | _ => 0

/-- A block and the ones before it, so many. -/
def CBlockIndex.lastBlocks : ℕ → CBlockIndex → List CBlockIndex
  | 0, _ => []
  | n + 1, pindex => pindex :: match pindex.pprev with
    | none => []
    | some prev => prev.lastBlocks n

namespace ThresholdConditionChecker

variable (checker : ThresholdConditionChecker)

/-- Number of signalling blocks among the last ones. -/
def signalling (n : ℕ) (pindex : CBlockIndex) : ℕ := (pindex.lastBlocks n).countP checker.condition

/-- The phase after a period in which the deployment was started. -/
def attemptNext (pindex : CBlockIndex) (attempt : ℕ) : Phase :=
  if pindex.getMedianTimePast ≥ checker.endTime then .failed
  else if checker.signalling checker.period pindex ≥ checker.threshold attempt then .lockedIn
  else .started (attempt + 1)

/-- The phase after a period. -/
def next (pindex : CBlockIndex) : Phase → Phase
  | .defined =>
    if pindex.getMedianTimePast < checker.beginTime then .defined
    else if pindex.getMedianTimePast ≥ checker.endTime then .failed
    else .started 0
  | .started attempt => checker.attemptNext pindex attempt
  | .lockedIn => .active
  | .active => .active
  | .failed => .failed

/-- The phase after a period, as BIP 9 has it. -/
def bip9Next (pindex : CBlockIndex) : Phase → Phase
  | .defined =>
    if pindex.getMedianTimePast ≥ checker.endTime then .failed
    else if pindex.getMedianTimePast ≥ checker.beginTime then .started 0
    else .defined
  | .started attempt => checker.attemptNext pindex attempt
  | .lockedIn => .active
  | .active => .active
  | .failed => .failed

/-- The phase after so many periods. -/
def phaseAfter (next : CBlockIndex → Phase → Phase) : ℕ → Option CBlockIndex → Phase
  | 0, _ => .defined
  | _ + 1, none => .defined
  | n + 1, some pindex => next pindex (phaseAfter next n (checker.previousPeriodParent pindex))

/-- The phase of the period after a block. -/
def phase (parent : Option CBlockIndex) : Phase := checker.phaseAfter checker.next (checker.periods parent) parent

/-- The state of the period after a block. -/
def stateFor (pindexPrev : Option CBlockIndex) : ThresholdState :=
  (checker.phase (pindexPrev.bind checker.periodParent)).state

def bip9StateFor (pindexPrev : Option CBlockIndex) : ThresholdState :=
  let parent := pindexPrev.bind checker.periodParent
  (checker.phaseAfter checker.bip9Next (checker.periods parent) parent).state

lemma bip9StateFor_eq (h : checker.beginTime ≤ checker.endTime) (pindexPrev : Option CBlockIndex) :
    checker.bip9StateFor pindexPrev = checker.stateFor pindexPrev := by
  have hnext : checker.bip9Next = checker.next := by
    funext pindex phase
    cases phase with
    | defined =>
      unfold bip9Next next
      split_ifs <;> first | rfl | omega
    | _ => rfl
  rw [bip9StateFor, hnext]
  rfl

/-! ### Ends of periods -/

/-- `nullptr`, or the last block of a period. -/
def IsEnd : Option CBlockIndex → Prop
  | none => True
  | some pindex => (pindex.nHeight + 1) % checker.period = 0

variable {checker} {p q : CBlockIndex} {e : Option CBlockIndex} {k : ℕ} {s : ThresholdState}

lemma natCast_period_pos (checker : ThresholdConditionChecker) : (0 : ℤ) < checker.period :=
  Int.natCast_pos.mpr checker.period_pos

lemma isEnd_bind_periodParent (b : Option CBlockIndex) : checker.IsEnd (b.bind checker.periodParent) := by
  rcases b with _ | b
  · trivial
  rw [bind_some]
  cases hq : checker.periodParent b with
  | none => trivial
  | some q =>
    have hheight := nHeight_of_getAncestor hq
    show (q.nHeight + 1) % _ = 0
    rw [hheight, show b.nHeight - (b.nHeight + 1) % checker.period + 1 =
      (b.nHeight + 1) - (b.nHeight + 1) % checker.period by ring]
    exact Int.emod_eq_zero_of_dvd (Int.dvd_self_sub_emod)

section

variable (h : checker.IsEnd (some p))

include h

lemma IsEnd.period_le : (checker.period : ℤ) ≤ p.nHeight + 1 := by
  have hnonneg := p.nHeight_nonneg
  exact Int.le_of_dvd (by omega) (Int.dvd_of_emod_eq_zero h)

lemma IsEnd.periodParent_eq : checker.periodParent p = some p := by
  have hzero : (p.nHeight + 1) % checker.period = 0 := h
  rw [periodParent, hzero, sub_zero, getAncestor_self]

/-- A period back from the first period there is nothing; otherwise there is the end of the period before. -/
lemma IsEnd.previous : checker.IsEnd (checker.previousPeriodParent p) ∧
      checker.periods (some p) = checker.periods (checker.previousPeriodParent p) + 1 := by
  have hpos := checker.natCast_period_pos
  have hle := h.period_le
  have hdiv : (p.nHeight + 1) / checker.period = (p.nHeight + 1 - checker.period) / checker.period + 1 := by
    rw [Int.sub_ediv_of_dvd _ (dvd_refl _), Int.ediv_self hpos.ne']
    omega
  have hnonneg : 0 ≤ (p.nHeight + 1 - checker.period) / checker.period := Int.ediv_nonneg (by omega) hpos.le
  cases hq : checker.previousPeriodParent p with
  | none =>
    refine ⟨trivial, ?_⟩
    rcases hle.eq_or_lt with heq | hlt
    · show ((p.nHeight + 1) / checker.period).toNat = 0 + 1
      rw [hdiv, ← heq]
      simp
    · have hex : ∃ q, p.getAncestor (p.nHeight - checker.period) = some q ∧ q.nHeight = p.nHeight - checker.period :=
        getAncestor_of_le (by omega) (by omega)
      obtain ⟨q, hq', -⟩ := hex
      rw [previousPeriodParent, hq'] at hq
      cases hq
  | some q =>
    have hheight : q.nHeight + 1 = p.nHeight + 1 - checker.period := by
      rw [nHeight_of_getAncestor hq]
      ring
    constructor
    · show (q.nHeight + 1) % _ = 0
      rw [hheight, Int.sub_emod, Int.emod_self, sub_zero, Int.emod_emod]
      exact h
    · show ((p.nHeight + 1) / checker.period).toNat = ((q.nHeight + 1) / checker.period).toNat + 1
      rw [hheight, hdiv]
      omega

omit h in
/-- Induction over the ends of the periods of a chain. -/
lemma IsEnd.induction {motive : ∀ e, checker.IsEnd e → Prop} (none : motive none trivial)
    (some : ∀ p (h : checker.IsEnd (some p)), motive (checker.previousPeriodParent p) h.previous.1 → motive (some p) h)
    (e : Option CBlockIndex) (h : checker.IsEnd e) : motive e h := by
  induction hn : checker.periods e generalizing e with
  | zero =>
    rcases e with _ | p
    · exact none
    · rw [h.previous.2] at hn
      omega
  | succ n ih =>
    rcases e with _ | p
    · exact none
    · obtain ⟨hprev, hperiods⟩ := h.previous
      exact some p h (ih _ hprev (by omega))

lemma phase_some : checker.phase (some p) = checker.next p (checker.phase (checker.previousPeriodParent p)) := by
  rw [phase, h.previous.2]
  rfl

/-! ### What the phases say -/

omit h in
lemma phase_of_lt_beginTime (h : checker.IsEnd e)
    (hlt : ∀ p ∈ e, p.Timely ∧ p.getMedianTimePast < checker.beginTime) : checker.phase e = .defined := by
  induction e, h using IsEnd.induction with
  | none => rfl
  | some p hend ih =>
    obtain ⟨htimely, hbefore⟩ := hlt p rfl
    have hprev := ih fun q hq => ⟨htimely.getAncestor hq, (htimely.getMedianTimePast_le hq).trans_lt hbefore⟩
    rw [phase_some hend, hprev]
    exact if_pos hbefore

/-- A deployment that is started was defined a period ago, or it was started and did not get enough. -/
lemma previous_of_started (hphase : checker.phase (some p) = .started k) :
    k = 0 ∧ checker.phase (checker.previousPeriodParent p) = .defined ∨
      ∃ j, k = j + 1 ∧ checker.phase (checker.previousPeriodParent p) = .started j := by
  rw [phase_some h] at hphase
  generalize checker.phase (checker.previousPeriodParent p) = previous at *
  cases previous with
  | defined =>
    unfold next at hphase
    split_ifs at hphase
    exact .inl ⟨(Phase.started.inj hphase).symm, rfl⟩
  | started j =>
    unfold next attemptNext at hphase
    dsimp only at hphase
    split_ifs at hphase
    exact .inr ⟨j, (Phase.started.inj hphase).symm, rfl⟩
  | lockedIn | active | failed => cases hphase

end

/-- The height of the first block of the first period in which the deployment was started. -/
def startHeight (checker : ThresholdConditionChecker) (p : CBlockIndex) (attempt : ℕ) : ℤ :=
  p.nHeight + 1 - attempt * checker.period

lemma startHeight_le (k : ℕ) : checker.startHeight p k ≤ p.nHeight + 1 := by
  have hnonneg : (0 : ℤ) ≤ (k : ℤ) * checker.period := Int.mul_nonneg (Int.natCast_nonneg _) (Int.natCast_nonneg _)
  unfold startHeight
  omega

/-- The number of the attempt is read off the height of the first one. -/
lemma attempt_of_startHeight (k : ℕ) : (p.nHeight + 1 - checker.startHeight p k).tdiv checker.period = k := by
  unfold startHeight
  rw [sub_sub_cancel, Int.mul_tdiv_cancel _ checker.natCast_period_pos.ne']

lemma startHeight_previous (hq : checker.previousPeriodParent p = some q) (k : ℕ) :
    checker.startHeight p (k + 1) = checker.startHeight q k := by
  unfold startHeight
  rw [nHeight_of_getAncestor hq]
  push_cast
  ring

lemma startHeight_pos (h : checker.IsEnd e) (hphase : checker.phase e = .started k) :
    ∃ p, e = some p ∧ 0 < checker.startHeight p k := by
  induction e, h using IsEnd.induction generalizing k with
  | none => cases hphase
  | some p hend ih =>
    refine ⟨p, rfl, ?_⟩
    obtain ⟨rfl, -⟩ | ⟨j, rfl, hprev⟩ := previous_of_started hend hphase
    · have hpos := checker.period_pos
      have hle := hend.period_le
      unfold startHeight
      omega
    · obtain ⟨q, hq, hpos⟩ := ih hprev
      rw [startHeight_previous hq]
      exact hpos

/-! ### States along a chain -/

lemma stateFor_of_pprev (hq : q.pprev = some p) (hperiod : (q.nHeight + 1) % checker.period ≠ 0) :
    checker.stateFor (some q) = checker.stateFor (some p) := by
  have hheight := nHeight_of_pprev hq
  have hmod : (q.nHeight + 1) % checker.period = (p.nHeight + 1) % checker.period + 1 := by
    have hpos := checker.natCast_period_pos
    have hlt := Int.emod_lt_of_pos (q.nHeight + 1) hpos
    have hnonneg := Int.emod_nonneg (q.nHeight + 1) hpos.ne'
    have hdiv := Int.emod_add_mul_ediv (q.nHeight + 1) checker.period
    have hpred := (Int.ediv_emod_unique (a := p.nHeight + 1) (r := (q.nHeight + 1) % checker.period - 1) hpos).mpr
      ⟨show _ + (checker.period : ℤ) * ((q.nHeight + 1) / checker.period) = _ by omega, by omega, by omega⟩
    omega
  have hparent : checker.periodParent q = checker.periodParent p := by
    unfold periodParent
    rw [hmod, hheight, eq_child_of_pprev hq, getAncestor_child (by
      have := Int.emod_nonneg (p.nHeight + 1) (checker.natCast_period_pos).ne'
      omega)]
    congr 1
    omega
  unfold stateFor
  rw [bind_some, bind_some, hparent]

/-- With the last block of a period the next one is entered. -/
lemma phase_of_pprev (hq : q.pprev = some p) (hperiod : (q.nHeight + 1) % checker.period = 0) :
    checker.stateFor (some q) = (checker.next q (checker.phase (checker.periodParent p))).state := by
  have hend : checker.IsEnd (some q) := hperiod
  have hheight := nHeight_of_pprev hq
  have hmod : (p.nHeight + 1) % checker.period = checker.period - 1 := by
    have hpos := checker.natCast_period_pos
    have hdiv := Int.emod_add_mul_ediv (q.nHeight + 1) checker.period
    have hprev := (Int.ediv_emod_unique (a := p.nHeight + 1) (r := (checker.period : ℤ) - 1) hpos).mpr
      ⟨show _ + (checker.period : ℤ) * ((q.nHeight + 1) / checker.period - 1) = _ by rw [mul_sub]; omega, by omega,
        by omega⟩
    exact hprev.2
  have hprevious : checker.previousPeriodParent q = checker.periodParent p := by
    unfold previousPeriodParent periodParent
    have hle : q.nHeight - checker.period ≤ p.nHeight := by
      have := checker.period_pos
      omega
    rw [hmod, show p.nHeight - ((checker.period : ℤ) - 1) = q.nHeight - checker.period by omega]
    conv_lhs => rw [eq_child_of_pprev hq]
    rw [nHeight_child, ← hheight, getAncestor_child hle]
  unfold stateFor
  rw [bind_some, hend.periodParent_eq, phase_some hend, hprevious]

variable (hs : s = .active ∨ s = .failed)

include hs

lemma stateFor_final_of_pprev (hq : q.pprev = some p)
    (hp : checker.stateFor (some p) = s) : checker.stateFor (some q) = s := by
  by_cases hperiod : (q.nHeight + 1) % checker.period = 0
  · rw [phase_of_pprev hq hperiod]
    have hphase : (checker.phase (checker.periodParent p)).state = s := hp
    cases hprev : checker.phase (checker.periodParent p) <;> rw [hprev] at hphase
    case active => exact hphase
    case failed => exact hphase
    all_goals
      rcases hs with rfl | rfl <;> cases hphase
  · rw [stateFor_of_pprev hq hperiod, hp]

/-- The last two states are final along a branch. -/
lemma stateFor_final {height : ℤ} (hp : q.getAncestor height = some p)
    (hstate : checker.stateFor (some p) = s) : checker.stateFor (some q) = s := by
  obtain ⟨⟨h0, hle⟩, -⟩ := getAncestor_eq_some_iff.mp hp
  induction hn : (q.nHeight - height).toNat generalizing q with
  | zero =>
    obtain rfl : height = q.nHeight := by omega
    rw [getAncestor_self] at hp
    rwa [some.inj hp]
  | succ n ih =>
    cases hprev : q.pprev with
    | none =>
      have hzero := nHeight_of_pprev_none hprev
      omega
    | some prev =>
      have hheight := nHeight_of_pprev hprev
      have hancestor : prev.getAncestor height = some p := by
        rw [eq_child_of_pprev hprev, getAncestor_child (by omega)] at hp
        exact hp
      exact stateFor_final_of_pprev hs hprev (ih hancestor (by omega) (by omega))

end ThresholdConditionChecker

end Blocx
