import Blocx.Evo.DmnListRuns
import Blocx.Llmq.UsedMasternodes

/-!
# Snapshots of quorum rotation

When the quarters of a cycle that are rebuilt from its snapshot are the quarters that were selected. The sorted lists
agree (`map_recombined_eq`), the skip list decodes to the positions that were skipped, and so it comes down to the
replay of a walk: the positions are told from each other but not the rounds. If the selection has kept as many positions
in a row as the list has, and skips one after that, the reconstruction skips that position a round too early and gives
its place in a quorum to the next masternode. This takes more places to fill than there are masternodes, since a skip is
always followed by a masternode that is selected.
-/

namespace Blocx

open List

open CDeterministicMN

open CDeterministicMNList CircularWalk

variable {G : Type} {crypto : Crypto G} {params : QuorumParams} {cycle : Cycle G}
  {previousQuarters : PreviousQuorumQuarters G} {skipList : List ℤ}

/-! ### Positions -/

section

variable {α β : Type} {l : List α} {ps qs : List ℕ}

lemma map_atPlaces {f : α → β} : (atPlaces l ps).map f = atPlaces (l.map f) ps := by
  unfold atPlaces
  rw [map_filterMap]
  simp

lemma atPlaces_inj (hl : l.Nodup) (hps : ∀ p ∈ ps, p < l.length) (hqs : ∀ p ∈ qs, p < l.length)
    (h : atPlaces l ps = atPlaces l qs) : ps = qs := by
  induction ps generalizing qs with
  | nil =>
    cases qs with
    | nil => rfl
    | cons q qs =>
      rw [atPlaces_cons (getElem?_eq_getElem (hqs q mem_cons_self))] at h
      cases h
  | cons p ps ih =>
    have hp := hps p mem_cons_self
    rw [atPlaces_cons (getElem?_eq_getElem hp)] at h
    cases qs with
    | nil => cases h
    | cons q qs =>
      have hq := hqs q mem_cons_self
      rw [atPlaces_cons (getElem?_eq_getElem hq), cons.injEq] at h
      rw [(List.Nodup.getElem_inj_iff hl).mp h.1, ih (fun p hp => hps p (mem_cons_of_mem _ hp))
        (fun p hp => hqs p (mem_cons_of_mem _ hp)) h.2]

lemma map_atPlaces_inj {L L' : List (List ℕ)} (hl : l.Nodup) (hL : ∀ p ∈ L.flatten, p < l.length)
    (hL' : ∀ p ∈ L'.flatten, p < l.length) : L.map (atPlaces l) = L'.map (atPlaces l) ↔ L = L' := by
  refine ⟨fun h => ?_, fun h => by rw [h]⟩
  induction L generalizing L' with
  | nil => exact (map_eq_nil_iff.mp h.symm).symm
  | cons ps L ih =>
    cases L' with
    | nil => cases h
    | cons qs L' =>
      rw [map_cons, map_cons, cons.injEq] at h
      simp only [flatten_cons, mem_append] at hL hL'
      rw [atPlaces_inj hl (fun p hp => hL p (.inl hp)) (fun p hp => hL' p (.inl hp)) h.1,
        ih (fun p hp => hL p (.inr hp)) (fun p hp => hL' p (.inr hp)) h.2]

end

/-! ### The snapshot of a selection -/

/-- `MnsUsedAtHIndexed`. -/
def usedIndexed (crypto : Crypto G) (params : QuorumParams) (cycle : Cycle G)
    (previousQuarters : PreviousQuorumQuarters G) : List (CDeterministicMNList G) :=
  (mnsUsedAtH crypto params cycle previousQuarters).2

/-- The masternodes suffice: every quorum could get a quarter of members it does not have. -/
def Enough (crypto : Crypto G) (params : QuorumParams) (cycle : Cycle G)
    (previousQuarters : PreviousQuorumQuarters G) : Prop :=
  ∀ used ∈ usedIndexed crypto params cycle previousQuarters,
    used.getAllMNsCount + params.quarterSize ≤ (combined crypto params cycle previousQuarters).length

/-- The walk of a selection around the sorted masternodes: the decisions for each quorum, until it has its quarter. -/
def IsSelection (crypto : Crypto G) (params : QuorumParams) (cycle : Cycle G)
    (previousQuarters : PreviousQuorumQuarters G) (dss : List (List Bool)) : Prop :=
  Rounds (attemptMN crypto (combined crypto params cycle previousQuarters))
    (combined crypto params cycle previousQuarters).length params.quarterSize
    (usedIndexed crypto params cycle previousQuarters) 0 dss

/-- No masternode is skipped once as many have been selected in a row as there are. -/
def SkipsInTime (crypto : Crypto G) (params : QuorumParams) (cycle : Cycle G)
    (previousQuarters : PreviousQuorumQuarters G) : Prop :=
  ∀ dss, IsSelection crypto params cycle previousQuarters dss →
    RunsBelow (combined crypto params cycle previousQuarters).length true 0 dss.flatten

lemma length_usedIndexed : (usedIndexed crypto params cycle previousQuarters).length =
    params.signingActiveQuorumCount := by
  rw [usedIndexed, mnsUsedAtH_eq, length_map, length_range]

variable (crypto params cycle previousQuarters) in
/-- `BuildNewQuorumQuarterMembers` returns, and stores a snapshot only of a full selection. -/
lemma build_cases : buildNewQuorumQuarterMembers crypto params cycle previousQuarters =
      some (replicate params.signingActiveQuorumCount [], none) ∨
    ∃ quarters cursor,
      fillQuarters crypto (combined crypto params cycle previousQuarters) params.quarterSize
        (usedIndexed crypto params cycle previousQuarters) {} = .full (quarters, cursor) ∧
      buildNewQuorumQuarterMembers crypto params cycle previousQuarters =
        some (quarters, some (buildQuorumSnapshot crypto cycle
          (mnsUsedAtH crypto params cycle previousQuarters).1 cursor.skipList)) := by
  have hfinish : fillQuarters crypto (combined crypto params cycle previousQuarters) params.quarterSize
      (usedIndexed crypto params cycle previousQuarters) {} ≠ .unfinished := by
    refine fillQuarters_ne_unfinished ?_
    rw [← length_eq_zero_iff]
    exact Nat.eq_zero_or_pos _
  unfold buildNewQuorumQuarterMembers
  unfold usedIndexed combined at hfinish ⊢
  dsimp only at hfinish ⊢
  split
  · exact .inl rfl
  · generalize fillQuarters crypto _ params.quarterSize _ {} = filling at hfinish ⊢
    cases filling with
    | full result => exact .inr ⟨result.1, result.2, rfl, rfl⟩
    | notEnough => exact .inl rfl
    | unfinished => exact absurd rfl hfinish

/-- What is rebuilt from a snapshot, as positions in the sorted list. -/
lemma rebuilt_eq {record : List ℕ} (hskips : skipList = encodeSkips 0 record)
    (hpos : 0 < (recombined crypto params cycle previousQuarters skipList).length) :
    getQuorumQuarterMembersBySnapshot crypto params cycle
        (buildQuorumSnapshot crypto cycle (mnsUsedAtH crypto params cycle previousQuarters).1 skipList) =
      (replayRounds (recombined crypto params cycle previousQuarters skipList).length params.quarterSize
        params.signingActiveQuorumCount 0 record).map
        (atPlaces (recombined crypto params cycle previousQuarters skipList)) := by
  unfold getQuorumQuarterMembersBySnapshot
  dsimp only
  rw [if_neg (by rw [List.isEmpty_iff]; exact ne_nil_of_length_pos hpos), ← refillQuarters_eq hpos]
  subst hskips
  unfold buildQuorumSnapshot
  by_cases hnil : record = []
  · subst hnil
    rfl
  · rw [if_neg (by rw [List.isEmpty_iff, encodeSkips_eq_nil]; exact hnil)]
    rw [← processSkipList_encodeSkips 0 record]
    rfl

/-- Without masternodes nothing is rebuilt. -/
lemma rebuilt_of_nil (hnil : recombined crypto params cycle previousQuarters skipList = []) :
    getQuorumQuarterMembersBySnapshot crypto params cycle
        (buildQuorumSnapshot crypto cycle (mnsUsedAtH crypto params cycle previousQuarters).1 skipList) =
      replicate params.signingActiveQuorumCount [] := by
  change (if (recombined crypto params cycle previousQuarters skipList).isEmpty then _ else _) = _
  rw [hnil]
  rfl

section Faithful

variable (hrep : Rep crypto cycle.allMns) (hskip : RemovedSkipped cycle previousQuarters)
  (hprev : PreviousOk params cycle previousQuarters)
include hrep hskip hprev

lemma nodup_combined : ((combined crypto params cycle previousQuarters).map proTxHash).Nodup :=
  (perm_combined hskip hprev hrep).nodup_iff.mpr (nodup_eligible hrep)

lemma length_combined : (combined crypto params cycle previousQuarters).length = cycle.allMns.eligible.length := by
  have h := (perm_combined hskip hprev hrep).length_eq
  rwa [length_map, length_map] at h

/-- The quarters that are rebuilt from the snapshot of a selection are those that were selected exactly when the
selection skips in time. -/
lemma rebuilt_eq_iff (henough : Enough crypto params cycle previousQuarters) {quarters : Quarters G} {cursor : Cursor}
    (hfill : fillQuarters crypto (combined crypto params cycle previousQuarters) params.quarterSize
      (usedIndexed crypto params cycle previousQuarters) {} = .full (quarters, cursor)) :
    (getQuorumQuarterMembersBySnapshot crypto params cycle (buildQuorumSnapshot crypto cycle
        (mnsUsedAtH crypto params cycle previousQuarters).1 cursor.skipList)).map (·.map proTxHash) =
      quarters.map (·.map proTxHash) ↔ SkipsInTime crypto params cycle previousQuarters := by
  obtain ⟨dss, hrounds, rfl, hmoves⟩ := fillQuarters_full henough hfill
  have hsame := map_recombined_eq hskip hprev hrep cursor.skipList
  have hlen := congrArg length hsame
  rw [length_map, length_map] at hlen
  have hin : SkipsInTime crypto params cycle previousQuarters ↔
      RunsBelow (combined crypto params cycle previousQuarters).length true 0 dss.flatten :=
    ⟨fun hin => hin dss hrounds, fun hruns dss' hrounds' => by rwa [Rounds.unique hrounds' hrounds]⟩
  rw [hin]
  rcases Nat.eq_zero_or_pos (combined crypto params cycle previousQuarters).length with hzero | hpos
  · -- without masternodes nothing is asked for, nothing selected and nothing rebuilt
    have hq : usedIndexed crypto params cycle previousQuarters ≠ [] → params.quarterSize = 0 := by
      intro hne
      obtain ⟨used, hused⟩ := exists_mem_of_ne_nil _ hne
      have := henough used hused
      omega
    obtain rfl := Rounds.eq_replicate hq hrounds
    rw [rebuilt_of_nil (length_eq_zero_iff.mp (hlen.trans hzero)), keptRounds_replicate, length_usedIndexed]
    simp [atPlaces, RunsBelow]
  · rw [rebuilt_eq hmoves.skipList (by rw [hlen]; exact hpos), ← hrounds.replay_eq_iff hpos, length_usedIndexed, hlen,
      map_map, map_map]
    simp only [Function.comp_def, map_atPlaces, hsame]
    refine map_atPlaces_inj (nodup_combined hrep hskip hprev) (fun p hp => ?_) (fun p hp => ?_)
    · rw [flatten_replayRounds] at hp
      rw [length_map]
      exact lt_of_mem_places hpos hp
    · rw [flatten_keptRounds] at hp
      rw [length_map]
      exact lt_of_mem_places hpos hp

lemma enough_of_size_le (hsize : params.size ≤ cycle.allMns.eligible.length) :
    Enough crypto params cycle previousQuarters := by
  intro used hused
  rw [usedIndexed, mnsUsedAtH_eq] at hused
  obtain ⟨i, -, rfl⟩ := mem_map.mp hused
  have hcount := getAllMNsCount_addAll crypto (usedMembers cycle previousQuarters i)
  have hfilter : (usedMembers cycle previousQuarters i).length ≤ _ := length_filter_le _ _
  have hlen := hprev.length i
  rw [length_combined hrep hskip hprev]
  unfold QuorumParams.quarterSize at hlen ⊢
  omega

lemma skipsInTime_of_le (hle : params.signingActiveQuorumCount * params.quarterSize ≤ cycle.allMns.eligible.length) :
    SkipsInTime crypto params cycle previousQuarters := by
  intro dss hrounds
  refine runsBelow_of_count_le hrounds.ends ?_
  rw [hrounds.count, length_usedIndexed, length_combined hrep hskip hprev, Nat.zero_add]
  exact hle

end Faithful

/-- `BuildNewQuorumQuarterMembers` returns and, if it stores a snapshot, `GetQuorumQuarterMembersBySnapshot` rebuilds
the masternodes that it returned, quorum by quorum and in order, exactly when no masternode is skipped after as many
were selected in a row as there are; in particular if there are no more places to fill than masternodes. -/
theorem snapshot_faithful_iff (hrep : Rep crypto cycle.allMns) (hskip : cycle.skipRemovedMNs = true)
    (hprev : PreviousOk params cycle previousQuarters) (hsize : params.size ≤ cycle.allMns.eligible.length) :
    (∃ quarters stored, buildNewQuorumQuarterMembers crypto params cycle previousQuarters = some (quarters, stored) ∧
      ∀ snapshot, stored = some snapshot →
        ((getQuorumQuarterMembersBySnapshot crypto params cycle snapshot).map (·.map proTxHash) =
            quarters.map (·.map proTxHash) ↔
          SkipsInTime crypto params cycle previousQuarters)) ∧
    (params.signingActiveQuorumCount * params.quarterSize ≤ cycle.allMns.eligible.length →
      SkipsInTime crypto params cycle previousQuarters) := by
  refine ⟨?_, skipsInTime_of_le hrep (.inl hskip) hprev⟩
  have henough := enough_of_size_le hrep (.inl hskip) hprev hsize
  obtain hbuild | ⟨quarters, cursor, hfill, hbuild⟩ := build_cases crypto params cycle previousQuarters
  · exact ⟨_, none, hbuild, nofun⟩
  · refine ⟨quarters, _, hbuild, fun snapshot hstored => ?_⟩
    cases hstored
    exact rebuilt_eq_iff hrep (.inl hskip) hprev henough hfill

/-! ### Sixty masternodes and thirty-two quorums -/

/-- A confirmed masternode with a number. -/
def rotationMn (k : ℕ) : CDeterministicMN (Fin 4) where
  proTxHash := BitVec.ofNat 256 (k + 1)
  internalId := k
  collateralOutpoint := ⟨BitVec.ofNat 256 (k + 1), 0⟩
  pdmnState :=
    { keyIDOwner := BitVec.ofNat 160 (k + 1)
      confirmedHash := 1
      confirmedHashWithProRegTxHash := BitVec.ofNat 256 (k + 1) }

/-- A cycle with the masternodes of the numbers below `count`. -/
def rotationCycle (count : ℕ) : Cycle (Fin 4) where
  allMns := addAll toyCrypto ((range count).map rotationMn)
  modifier := 0
  skipRemovedMNs := true

/-- Previous quarters with fifteen members for each of 32 quorums. All of them have been removed, except for masternode
30, which is in quorum 7. -/
def rotationPrevious : PreviousQuorumQuarters (Fin 4) where
  quarterHMinusC := (range 32).map fun i =>
    (if i = 7 then rotationMn 30 else rotationMn 114) :: (range 14).map fun k => rotationMn (100 + k)
  quarterHMinus2C := []
  quarterHMinus3C := []

def llmq60_75 : QuorumParams := ⟨⟨.llmq60_75, 24 * 12, 64⟩, true, 60, 50, 42, 50, 32⟩

lemma rep_rotationCycle (count : ℕ) : Rep toyCrypto (rotationCycle count).allMns := rep_addAll toyCrypto _

lemma rotationMn_mem {count k : ℕ} (hcount : count ≤ 2 ^ 32) (hk : k < 2 ^ 32) {cur : CDeterministicMN (Fin 4)}
    (h : (rotationCycle count).allMns.getMN (rotationMn k).proTxHash = some cur) : cur = rotationMn k := by
  have hhash := (rep_rotationCycle count).proTxHash _ cur h
  obtain ⟨j, hj, rfl⟩ := mem_map.mp (mem_of_getMN_addAll h)
  have hj' := mem_range.mp hj
  have hnat := congrArg BitVec.toNat hhash
  simp only [rotationMn, BitVec.toNat_ofNat] at hnat
  obtain rfl : j = k := by omega
  rfl

lemma previousOk_of_numbers {previousQuarters : PreviousQuorumQuarters (Fin 4)} {count : ℕ} (hcount : count ≤ 2 ^ 32)
    (numbers : ℕ → List ℕ) (hmembers : ∀ i, previousQuarters.members i = (numbers i).map rotationMn)
    (hsmall : ∀ i, ∀ k ∈ numbers i, k < 2 ^ 32) (hlength : ∀ i, (numbers i).length ≤ 3 * params.quarterSize) :
    PreviousOk params (rotationCycle count) previousQuarters where
  eligible i mn hmn := by
    rw [hmembers] at hmn
    obtain ⟨k, -, rfl⟩ := mem_map.mp hmn
    exact ⟨rfl, show (1 : Uint256) ≠ 0 by decide⟩
  earlier i mn hmn cur hcur := by
    rw [hmembers] at hmn
    obtain ⟨k, hk, rfl⟩ := mem_map.mp hmn
    rw [rotationMn_mem hcount (hsmall i k hk) hcur]
    exact ⟨rfl, rfl, rfl⟩
  length i := by
    rw [hmembers, length_map]
    exact hlength i

/-- The numbers of the previous members of a quorum. -/
def rotationNumbers (i : ℕ) : List ℕ :=
  if i < 32 then (if i = 7 then 30 else 114) :: (range 14).map (100 + ·) else []

lemma members_rotationPrevious (i : ℕ) : rotationPrevious.members i = (rotationNumbers i).map rotationMn := by
  unfold PreviousQuorumQuarters.members rotationPrevious rotationNumbers
  by_cases hi : i < 32
  · by_cases h7 : i = 7 <;> simp [getD_eq_getElem?_getD, hi, h7]
  · simp [getD_eq_getElem?_getD, hi]

lemma previousOk_rotationPrevious : PreviousOk llmq60_75 (rotationCycle 60) rotationPrevious := by
  refine previousOk_of_numbers (by decide) rotationNumbers members_rotationPrevious (fun i k hk => ?_) fun i => ?_
  · unfold rotationNumbers at hk
    split_ifs at hk <;> simp at hk <;> omega
  · unfold rotationNumbers
    split_ifs <;> simp [llmq60_75, QuorumParams.quarterSize]

lemma exists_stored (P : Quarters G → CQuorumSnapshot → Bool) (result : Option (Quarters G × Option CQuorumSnapshot))
    (h : (match result with | some (quarters, some snapshot) => P quarters snapshot | _ => false) = true) :
    ∃ quarters snapshot, result = some (quarters, some snapshot) ∧ P quarters snapshot = true := by
  split at h
  · exact ⟨_, _, rfl, h⟩
  · cases h

/-- The one masternode that is used, in the last position, is selected for quorum 3, and a round later it is skipped for
quorum 7, which has it already. The reconstruction skips it for quorum 3. -/
theorem snapshot_not_faithful :
    Rep toyCrypto (rotationCycle 60).allMns ∧ (rotationCycle 60).skipRemovedMNs = true ∧
    PreviousOk llmq60_75 (rotationCycle 60) rotationPrevious ∧
    llmq60_75 ∈ availableLlmqs ∧ llmq60_75.size ≤ (rotationCycle 60).allMns.eligible.length ∧
    ∃ quarters snapshot,
      buildNewQuorumQuarterMembers toyCrypto llmq60_75 (rotationCycle 60) rotationPrevious =
        some (quarters, some snapshot) ∧
      (getQuorumQuarterMembersBySnapshot toyCrypto llmq60_75 (rotationCycle 60) snapshot).map (·.map proTxHash) ≠
        quarters.map (·.map proTxHash) := by
  refine ⟨rep_rotationCycle 60, rfl, previousOk_rotationPrevious, by decide, by decide +kernel, ?_⟩
  obtain ⟨quarters, snapshot, hbuild, hne⟩ := exists_stored
    (fun quarters snapshot => decide ((getQuorumQuarterMembersBySnapshot toyCrypto llmq60_75 (rotationCycle 60)
      snapshot).map (·.map proTxHash) ≠ quarters.map (·.map proTxHash)))
    (buildNewQuorumQuarterMembers toyCrypto llmq60_75 (rotationCycle 60) rotationPrevious)
    (by decide +kernel)
  exact ⟨quarters, snapshot, hbuild, of_decide_eq_true hne⟩

/-- Four masternodes and two quorums with one member each from the previous cycle. -/
def smallPrevious : PreviousQuorumQuarters (Fin 4) where
  quarterHMinusC := [[rotationMn 1], [rotationMn 2]]
  quarterHMinus2C := []
  quarterHMinus3C := []

def llmqTestDip0024 : QuorumParams := ⟨⟨.testDip0024, 24, 4⟩, true, 4, 4, 12, 20, 2⟩

lemma previousOk_smallPrevious : PreviousOk llmqTestDip0024 (rotationCycle 4) smallPrevious := by
  refine previousOk_of_numbers (by decide) (fun i => if i = 0 then [1] else if i = 1 then [2] else []) (fun i => ?_)
    (fun i k hk => ?_) fun i => ?_
  · rcases i with _ | _ | i <;> rfl
  · split_ifs at hk <;> simp at hk <;> omega
  · split_ifs <;> simp [llmqTestDip0024, QuorumParams.quarterSize]

theorem snapshot_faithful_iff_smallPrevious :
    (∃ quarters stored,
      buildNewQuorumQuarterMembers toyCrypto llmqTestDip0024 (rotationCycle 4) smallPrevious = some (quarters, stored) ∧
      ∀ snapshot, stored = some snapshot →
        ((getQuorumQuarterMembersBySnapshot toyCrypto llmqTestDip0024 (rotationCycle 4) snapshot).map
            (·.map proTxHash) = quarters.map (·.map proTxHash) ↔
          SkipsInTime toyCrypto llmqTestDip0024 (rotationCycle 4) smallPrevious)) ∧
    (llmqTestDip0024.signingActiveQuorumCount * llmqTestDip0024.quarterSize ≤ (rotationCycle 4).allMns.eligible.length →
      SkipsInTime toyCrypto llmqTestDip0024 (rotationCycle 4) smallPrevious) :=
  snapshot_faithful_iff (rep_rotationCycle 4) rfl previousOk_smallPrevious (by decide)

end Blocx
