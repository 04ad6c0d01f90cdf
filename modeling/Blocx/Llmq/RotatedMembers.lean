import Blocx.Lib.Runs
import Blocx.Llmq.RotationSnapshot
import Mathlib.Data.List.GetD

/-!
# The members of rotated quorums

`ComputeQuorumMembersByQuarterRotation` (`llmq/utils.cpp`) puts the members of a rotated quorum together from the
quarters of the three cycles before, as they are rebuilt from the snapshots stored in these cycles, and the new quarter
of its own cycle. Here it runs over a sequence of cycles, each of which stores its snapshot for the next three.

A selection only avoids the members that are rebuilt for its own quorum. `RotationOk` says what it takes for that to be
enough in one cycle. There have to be enough masternodes for a full quarter: the reconstruction always fills a quarter,
also one that was left incomplete or empty. The earlier states of previous members must not share a property, or one of
them is not noted as used. And the snapshot has to be faithful. In a run that keeps to this in every cycle no quorum has
a member twice (`DistinctMembers`).
-/

namespace Blocx

open List

open CDeterministicMN

open CDeterministicMNList CircularWalk PreviousQuorumQuarters

variable {G : Type} {crypto : Crypto G} {sorted : List (CDeterministicMN G)} {params : QuorumParams} {cycle : Cycle G}
  {k : ℕ}

/-! ### Cycles -/

/-- The cycles so far, the last one first, with the snapshots that were stored. -/
abbrev CycleHistory (G : Type) : Type := List (Cycle G × Option CQuorumSnapshot)

section Functions

variable (crypto : Crypto G) (params : QuorumParams)

/-- `GetSnapshotForBlock` of a cycle before, and the quarters that are rebuilt from it. -/
def quarterBefore (history : CycleHistory G) (k : ℕ) : Option (Quarters G) :=
  match history[k]? with
  | none => none
  | some (cycle, snapshot) => snapshot.map (getQuorumQuarterMembersBySnapshot crypto params cycle)

def getPreviousQuorumQuarterMembers (history : CycleHistory G) : PreviousQuorumQuarters G :=
  let nothing : Quarters G := replicate params.signingActiveQuorumCount []
  match quarterBefore crypto params history 0 with
  | none => ⟨nothing, nothing, nothing⟩
  | some quarterHMinusC =>
    match quarterBefore crypto params history 1 with
    | none => ⟨quarterHMinusC, nothing, nothing⟩
    | some quarterHMinus2C =>
      match quarterBefore crypto params history 2 with
      | none => ⟨quarterHMinusC, quarterHMinus2C, nothing⟩
      | some quarterHMinus3C => ⟨quarterHMinusC, quarterHMinus2C, quarterHMinus3C⟩

/-- The members of a quorum: the previous quarters, the oldest one first, and the new one. -/
def quorumMembers (previousQuarters : PreviousQuorumQuarters G) (newQuarterMembers : Quarters G) (i : ℕ) :
    List (CDeterministicMN G) :=
  previousQuarters.quarterHMinus3C.getD i [] ++ previousQuarters.quarterHMinus2C.getD i [] ++
    previousQuarters.quarterHMinusC.getD i [] ++ newQuarterMembers.getD i []

def computeQuorumMembersByQuarterRotation (history : CycleHistory G) (cycle : Cycle G) :
    Option (Quarters G × Option CQuorumSnapshot) :=
  let previousQuarters := getPreviousQuorumQuarterMembers crypto params history
  (buildNewQuorumQuarterMembers crypto params cycle previousQuarters).map fun (newQuarterMembers, stored) =>
    ((range params.signingActiveQuorumCount).map (quorumMembers previousQuarters newQuarterMembers), stored)

def rotate (history : CycleHistory G) (cycle : Cycle G) : CycleHistory G :=
  match computeQuorumMembersByQuarterRotation crypto params history cycle with
  | none => history
  | some (_, stored) => (cycle, stored) :: history

/-! ### What is asked for -/

/-- The masternode lists of the cycles: each has its invariant, and a masternode that could be a member in a cycle and
is still listed has its collateral and confirmed hash of then. -/
structure ListsOk (history : CycleHistory G) (cycle : Cycle G) : Prop where
  rep : Rep crypto cycle.allMns
  /-- The masternodes of earlier cycles. -/
  earlier : ∀ entry ∈ history, ∀ mn : CDeterministicMN G, entry.1.allMns.getMN mn.proTxHash = some mn → Eligible mn →
    ∀ cur, cycle.allMns.getMN mn.proTxHash = some cur → Earlier mn cur

/-- What makes a selection avoid the members that its quorum has. -/
structure RotationOk (history : CycleHistory G) (cycle : Cycle G) : Prop where
  /-- Removed masternodes are skipped, or there are none. -/
  removed : RemovedSkipped cycle (getPreviousQuorumQuarterMembers crypto params history)
  /-- There are not even enough masternodes for a selection, or enough for a full quarter for every quorum. -/
  enough : cycle.allMns.getValidMNsCount < params.quarterSize ∨
    Enough crypto params cycle (getPreviousQuorumQuarterMembers crypto params history)
  /-- The earlier states of the members of a quorum share nothing. -/
  compatible : ∀ i, Compatible crypto (usedMembers cycle (getPreviousQuorumQuarterMembers crypto params history) i)
  /-- No masternode is skipped once as many have been selected in a row as there are. -/
  inTime : SkipsInTime crypto params cycle (getPreviousQuorumQuarterMembers crypto params history)

/-- The members of the quorums of a cycle are computed, are different masternodes, and not more than a quorum has. -/
def DistinctMembers (history : CycleHistory G) (cycle : Cycle G) : Prop :=
  ∃ members stored, computeQuorumMembersByQuarterRotation crypto params history cycle = some (members, stored) ∧
    members.length = params.signingActiveQuorumCount ∧
    ∀ quorum ∈ members, (quorum.map proTxHash).Nodup ∧ quorum.length ≤ params.size

end Functions

/-! ### A selection avoids the members of its quorum -/

/-- A masternode that is added to the list of a quorum was not listed, and then is. -/
lemma attemptMN_spec {used list : CDeterministicMNList G} {idx : ℕ} (hrep : Rep crypto used)
    (h : attemptMN crypto sorted used idx = some list) :
    ∃ mn, sorted[idx]? = some mn ∧ used.hasMN mn.proTxHash = false ∧ Rep crypto list ∧
      ∀ x, list.hasMN x = (x == mn.proTxHash || used.hasMN x) := by
  unfold attemptMN at h
  split at h
  · cases h
  · next mn hmn =>
    refine ⟨mn, hmn, ?_⟩
    split at h
    · cases h
    · next hnot =>
      refine ⟨Bool.eq_false_iff.mpr hnot, ?_⟩
      have hspec := wp_addMN hrep mn true
      unfold wp at hspec
      split at h
      · next hrun =>
        cases h
        rw [hrun] at hspec
        refine ⟨hspec.2.rep, fun x => ?_⟩
        unfold hasMN getMN
        rw [hspec.2.mnMap, getElem?_insert_ite]
        by_cases hx : x = mn.proTxHash <;> simp [hx]
      · cases h

/-- The masternodes selected for a quorum are different, and none of them was in its list. -/
lemma Attempts.fresh {used used' : CDeterministicMNList G} {p : ℕ} {ds : List Bool} (hrep : Rep crypto used)
    (h : Attempts (attemptMN crypto sorted) sorted.length used p ds used') :
    ((atPlaces sorted (places sorted.length true p ds)).map proTxHash).Nodup ∧
      ∀ mn ∈ atPlaces sorted (places sorted.length true p ds), used.hasMN mn.proTxHash = false := by
  induction ds generalizing used p with
  | nil => simp [atPlaces]
  | cons d ds ih =>
    cases d with
    | false => exact ih hrep h.2
    | true =>
      obtain ⟨list, hattempt, h⟩ := h
      obtain ⟨mn, hmn, hnot, hrep', hhas⟩ := attemptMN_spec hrep hattempt
      obtain ⟨hnodup, hfresh⟩ := ih hrep' h
      rw [places_true_true, atPlaces_cons hmn, map_cons, nodup_cons]
      refine ⟨⟨fun hmem => ?_, hnodup⟩, fun m hm => ?_⟩
      · obtain ⟨m, hm, hsame⟩ := mem_map.mp hmem
        have := hfresh m hm
        rw [hhas, hsame] at this
        simp at this
      · rcases mem_cons.mp hm with rfl | hm
        · exact hnot
        · have := hfresh m hm
          rw [hhas, Bool.or_eq_false_iff] at this
          exact this.2

/-- The selection for each quorum. -/
lemma Rounds.fresh {q p : ℕ} {indexed : List (CDeterministicMNList G)} {dss : List (List Bool)}
    (hrep : ∀ used ∈ indexed, Rep crypto used) (h : Rounds (attemptMN crypto sorted) sorted.length q indexed p dss)
    (i : ℕ) {quarter : List (CDeterministicMN G)}
    (hquarter : ((keptRounds sorted.length p dss).map (atPlaces sorted)).getD i [] = quarter) :
    (quarter.map proTxHash).Nodup ∧ quarter.length ≤ q ∧ ∀ mn ∈ quarter, mn ∈ sorted ∧
      ∃ used, indexed[i]? = some used ∧ used.hasMN mn.proTxHash = false := by
  induction indexed generalizing p dss i with
  | nil =>
    obtain rfl := h
    cases hquarter
    simp [keptRounds]
  | cons used rest ih =>
    obtain ⟨ds, dss', t, rfl, hds, hcount, -, hrest⟩ := h
    cases i with
    | zero =>
      obtain ⟨hnodup, hfresh⟩ := Attempts.fresh (hrep used mem_cons_self) hds
      cases hquarter
      refine ⟨hnodup, ?_, fun mn hmn => ⟨?_, used, rfl, hfresh mn hmn⟩⟩
      · rw [← hcount, ← length_places (n := sorted.length) (p := p)]
        exact length_filterMap_le _ _
      · obtain ⟨i, -, hi⟩ := mem_filterMap.mp hmn
        exact mem_of_getElem? hi
    | succ i => exact ih (fun u hu => hrep u (mem_cons_of_mem _ hu)) hrest i hquarter

/-! ### What is rebuilt -/

section

variable {q : ℕ} {mn : CDeterministicMN G} {itsk : List ℤ}

lemma mem_refillQuarter {fuel idx : ℕ} {members : List (CDeterministicMN G)}
    (h : mn ∈ (refillQuarter sorted q fuel members idx itsk).1) : mn ∈ members ∨ mn ∈ sorted := by
  induction fuel generalizing members idx itsk with
  | zero => exact .inl h
  | succ fuel ih =>
    rw [refillQuarter] at h
    split at h
    · split at h
      · exact ih h
      · rcases ih h with hmn | hmn
        · rcases mem_append.mp hmn with hmn | hmn
          · exact .inl hmn
          · exact .inr (mem_of_getElem? (Option.mem_toList.mp hmn))
        · exact .inr hmn
    · exact .inl h

lemma mem_refillQuarters {idx : ℕ} (h : mn ∈ (refillQuarters sorted q k idx itsk).flatten) : mn ∈ sorted := by
  induction k generalizing idx itsk with
  | zero => simp [refillQuarters] at h
  | succ k ih =>
    rcases mem_append.mp h with h | h
    · simpa using mem_refillQuarter h
    · exact ih h

lemma mem_rebuilt (hrep : Rep crypto cycle.allMns) {used : CDeterministicMNList G} {skipList : List ℤ}
    (h : mn ∈ (getQuorumQuarterMembersBySnapshot crypto params cycle
      (buildQuorumSnapshot crypto cycle used skipList)).flatten) : mn ∈ cycle.allMns.eligible := by
  have hsorted : mn ∈ sortedCombined crypto cycle.modifier
      (getMNUsageBySnapshot crypto cycle (buildQuorumSnapshot crypto cycle used skipList)).1
      (getMNUsageBySnapshot crypto cycle (buildQuorumSnapshot crypto cycle used skipList)).2 := by
    have hnothing : mn ∉ (replicate params.signingActiveQuorumCount []).flatten := by simp
    unfold getQuorumQuarterMembersBySnapshot at h
    dsimp only at h
    split at h
    · exact absurd h hnothing
    · split at h
      · exact mem_refillQuarters h
      · exact mem_refillQuarters h
      · exact absurd h hnothing
      · exact absurd h hnothing
  rw [sortedCombined_eq, mem_append, mem_ranked, mem_ranked, (perm_unusedBySnapshot hrep used skipList).mem_iff,
    (perm_usedBySnapshot hrep used skipList).mem_iff] at hsorted
  rcases hsorted with h | h
  · exact mem_of_mem_filter h
  · exact mem_of_mem_filter h

end

/-! ### Runs of cycles -/

variable {history : CycleHistory G}

section Runs

variable {previous : PreviousQuorumQuarters G} {quarters : Quarters G} {stored : Option CQuorumSnapshot} {i : ℕ}

/-- The quarters before the next cycle. -/
lemma getPrevious_cons : getPreviousQuorumQuarterMembers crypto params ((cycle, stored) :: history) =
      match stored with
      | none => ⟨replicate params.signingActiveQuorumCount [], replicate params.signingActiveQuorumCount [],
          replicate params.signingActiveQuorumCount []⟩
      | some snapshot => ⟨getQuorumQuarterMembersBySnapshot crypto params cycle snapshot,
          (getPreviousQuorumQuarterMembers crypto params history).quarterHMinusC,
          (getPreviousQuorumQuarterMembers crypto params history).quarterHMinus2C⟩ := by
  have hlater : ∀ k, quarterBefore crypto params ((cycle, stored) :: history) (k + 1) =
      quarterBefore crypto params history k := fun k => rfl
  unfold getPreviousQuorumQuarterMembers
  rw [hlater 0, hlater 1]
  cases stored with
  | none => rfl
  | some snapshot =>
    cases quarterBefore crypto params history 0 with
    | none => rfl
    | some a =>
      cases quarterBefore crypto params history 1 with
      | none => rfl
      | some b => cases quarterBefore crypto params history 2 <;> rfl

lemma mem_flatten_of_mem_getD {α : Type} {l : List (List α)} {a : α} (h : a ∈ l.getD i []) : a ∈ l.flatten := by
  rw [getD_eq_getElem?_getD] at h
  cases hi : l[i]? with
  | none => simp [hi] at h
  | some m =>
    rw [hi] at h
    exact mem_flatten_of_mem (mem_of_getElem? hi) h

/-- What the quarters before a cycle have in common. -/
structure QuartersOk (params : QuorumParams) (history : CycleHistory G) (previous : PreviousQuorumQuarters G) :
    Prop where
  /-- Their members could be members in their cycles. -/
  listed : ∀ i, ∀ mn ∈ previous.members i, ∃ entry ∈ history, entry.1.allMns.getMN mn.proTxHash = some mn ∧ Eligible mn
  nodup : ∀ i, ((previous.members i).map proTxHash).Nodup
  lengthC : ∀ i, (previous.quarterHMinusC.getD i []).length ≤ params.quarterSize
  length2C : ∀ i, (previous.quarterHMinus2C.getD i []).length ≤ params.quarterSize
  length3C : ∀ i, (previous.quarterHMinus3C.getD i []).length ≤ params.quarterSize

/-- The quarters that a history gives. -/
abbrev HistoryOk (crypto : Crypto G) (params : QuorumParams) (history : CycleHistory G) : Prop :=
  QuartersOk params history (getPreviousQuorumQuarterMembers crypto params history)

lemma QuartersOk.nothing : QuartersOk params history ⟨replicate k [], replicate k [], replicate k []⟩ := by
  constructor <;> simp [members]

lemma usable_of_eligible {mn cur : CDeterministicMN G} (hcur : cycle.allMns.getMN mn.proTxHash = some cur)
    (helig : Eligible cur) : cycle.usable mn = true := by
  have hhas : cycle.allMns.hasMN mn.proTxHash = true := by
    rw [hasMN, hcur]
    rfl
  have hbanned : cycle.allMns.isMNPoSeBanned mn.proTxHash = false := by
    have hvalid := helig.1
    unfold isMNValid at hvalid
    rw [isMNPoSeBanned, hcur]
    simpa using hvalid
  unfold Cycle.usable
  rw [hhas, hbanned]
  simp

lemma perm_quorumMembers (previousQuarters : PreviousQuorumQuarters G) (quarters : Quarters G) (i : ℕ) :
    (quorumMembers previousQuarters quarters i).Perm (previousQuarters.members i ++ quarters.getD i []) := by
  unfold quorumMembers members
  refine List.Perm.append_right _ (perm_append_comm.trans ?_)
  rw [append_assoc]
  exact perm_append_comm.append_left _

lemma compute_eq (hprevious : getPreviousQuorumQuarterMembers crypto params history = previous)
    (hbuild : buildNewQuorumQuarterMembers crypto params cycle previous = some (quarters, stored)) :
    computeQuorumMembersByQuarterRotation crypto params history cycle =
      some ((range params.signingActiveQuorumCount).map (quorumMembers previous quarters), stored) := by
  rw [computeQuorumMembersByQuarterRotation, hprevious]
  rw [hbuild]
  rfl

section Quarters

variable (h : QuartersOk params history previous) (hnew : ∀ i, (quarters.getD i []).length ≤ params.quarterSize ∧
  ((previous.members i ++ quarters.getD i []).map proTxHash).Nodup)

include h

lemma QuartersOk.length_members (i : ℕ) : (previous.members i).length ≤ 3 * params.quarterSize := by
  have hC := h.lengthC i
  have h2C := h.length2C i
  have h3C := h.length3C i
  unfold members
  rw [length_append, length_append]
  omega

lemma QuartersOk.previousOk (hlists : ListsOk crypto history cycle) : PreviousOk params cycle previous where
  eligible i mn hmn := by
    obtain ⟨-, -, -, helig⟩ := h.listed i mn hmn
    exact helig
  earlier i mn hmn cur hcur := by
    obtain ⟨entry, hentry, hget, helig⟩ := h.listed i mn hmn
    exact hlists.earlier entry hentry mn hget helig cur hcur
  length := h.length_members

include hnew

/-- The members of the quorums of a cycle are different if those of the new quarters are, also from the others. -/
lemma distinctMembers_of (hcompute : computeQuorumMembersByQuarterRotation crypto params history cycle =
      some ((range params.signingActiveQuorumCount).map (quorumMembers previous quarters), stored)) :
        DistinctMembers crypto params history cycle := by
  refine ⟨_, stored, hcompute, ?_, fun quorum hquorum => ?_⟩
  · rw [length_map, length_range]
  · obtain ⟨i, -, rfl⟩ := mem_map.mp hquorum
    have hperm := perm_quorumMembers previous quarters i
    refine ⟨(hperm.map _).nodup_iff.mpr (hnew i).2, ?_⟩
    have hthree := h.length_members i
    have hone := (hnew i).1
    rw [hperm.length_eq, length_append]
    unfold QuorumParams.quarterSize at hthree hone
    omega

variable {cursor : Cursor} (hrep : Rep crypto cycle.allMns) (hremoved : RemovedSkipped cycle previous)
  (hprev : PreviousOk params cycle previous) (henough : Enough crypto params cycle previous)
  (hfill : fillQuarters crypto (combined crypto params cycle previous) params.quarterSize
    (usedIndexed crypto params cycle previous) {} = .full (quarters, cursor))
include hrep hremoved hprev henough hfill

omit h hnew in
/-- What a cycle selects for a quorum: at most a quarter, of masternodes that it does not have. -/
lemma new_spec (hcompatible : Compatible crypto (usedMembers cycle previous i))
    (hnodup : ((previous.members i).map proTxHash).Nodup) : (quarters.getD i []).length ≤ params.quarterSize ∧
      ((previous.members i ++ quarters.getD i []).map proTxHash).Nodup := by
  obtain ⟨dss, hrounds, rfl, -⟩ := fillQuarters_full henough hfill
  have hindexed : usedIndexed crypto params cycle previous =
      (range params.signingActiveQuorumCount).map fun i => addAll crypto (usedMembers cycle previous i) := by
    rw [usedIndexed, mnsUsedAtH_eq]
  rw [hindexed] at hrounds
  obtain ⟨hnew, hle, hfresh⟩ := Rounds.fresh (fun used hused => by
    obtain ⟨j, -, rfl⟩ := mem_map.mp hused
    exact rep_addAll crypto _) hrounds i rfl
  refine ⟨hle, ?_⟩
  rw [map_append]
  refine hnodup.append hnew fun x hx hx' => ?_
  obtain ⟨m, hm, rfl⟩ := mem_map.mp hx
  obtain ⟨mn, hmn, hsame⟩ := mem_map.mp hx'
  obtain ⟨hsorted, used, hused, hnot⟩ := hfresh mn hmn
  rw [getElem?_map, Option.map_eq_some_iff] at hused
  obtain ⟨j, hj, rfl⟩ := hused
  obtain ⟨hi, rfl⟩ := List.getElem?_eq_some_iff.mp hj
  -- the masternode that is selected is listed and eligible, so the member would have been in the list of the quorum
  have hhash := (perm_combined hremoved hprev hrep).mem_iff.mp (mem_map_of_mem hsorted)
  obtain ⟨cur, hcur, hcurhash⟩ := mem_map.mp hhash
  obtain ⟨hget, helig⟩ := (mem_eligible hrep).mp hcur
  rw [hcurhash, hsame] at hget
  have hused : m ∈ usedMembers cycle previous i := mem_filter.mpr ⟨hm, usable_of_eligible hget helig⟩
  rw [getElem_range, hsame, hasMN_addAll hcompatible hused] at hnot
  cases hnot

/-- The quarters before the next cycle, when the one of the cycle is rebuilt as it was selected. -/
lemma QuartersOk.next (hinTime : SkipsInTime crypto params cycle previous) :
    QuartersOk params ((cycle, stored) :: history) ⟨getQuorumQuarterMembersBySnapshot crypto params cycle
        (buildQuorumSnapshot crypto cycle (mnsUsedAtH crypto params cycle previous).1 cursor.skipList),
      previous.quarterHMinusC, previous.quarterHMinus2C⟩ := by
  have hsame := (rebuilt_eq_iff hrep hremoved hprev henough hfill).mpr hinTime
  generalize hsnapshot : getQuorumQuarterMembersBySnapshot crypto params cycle _ = rebuilt at hsame ⊢
  have hrebuilt : ∀ i, (rebuilt.getD i []).map proTxHash = (quarters.getD i []).map proTxHash := fun i => by
    have hi := congrArg (fun l => l.getD i (([] : List (CDeterministicMN G)).map proTxHash)) hsame
    simpa only [getD_map] using hi
  refine ⟨?_, ?_, ?_, h.lengthC, h.length2C⟩
  · intro i mn hmn
    unfold members at hmn
    rw [mem_append, mem_append] at hmn
    rcases hmn with (hmn | hmn) | hmn
    · have hmem := mem_flatten_of_mem_getD hmn
      rw [← hsnapshot] at hmem
      exact ⟨(cycle, stored), mem_cons_self, (mem_eligible hrep).mp (mem_rebuilt hrep hmem)⟩
    · obtain ⟨entry, hentry, hget⟩ := h.listed i mn (mem_append_left _ (mem_append_left _ hmn))
      exact ⟨entry, mem_cons_of_mem _ hentry, hget⟩
    · obtain ⟨entry, hentry, hget⟩ := h.listed i mn (mem_append_left _ (mem_append_right _ hmn))
      exact ⟨entry, mem_cons_of_mem _ hentry, hget⟩
  · intro i
    have hi := (hnew i).2
    unfold members at hi ⊢
    rw [append_assoc, map_append, hrebuilt i, ← map_append]
    refine (perm_append_comm.map proTxHash).nodup_iff.mpr (hi.sublist (List.Sublist.map _ ?_))
    exact (sublist_append_left _ _).append_right _
  · intro i
    have hlen := congrArg length (hrebuilt i)
    rw [length_map, length_map] at hlen
    exact hlen.trans_le (hnew i).1

end Quarters

/-- One cycle: its quorums have different members, and so have the previous quarters of the next cycle. -/
lemma rotate_spec (h : HistoryOk crypto params history) (hlists : ListsOk crypto history cycle)
    (hok : RotationOk crypto params history cycle) :
    DistinctMembers crypto params history cycle ∧ HistoryOk crypto params (rotate crypto params history cycle) := by
  obtain ⟨hremoved, henough, hcompatible, hinTime⟩ := hok
  unfold HistoryOk at h ⊢
  unfold rotate
  generalize hprevious : getPreviousQuorumQuarterMembers crypto params history = previous at *
  obtain hbuild | ⟨quarters, cursor, hfill, hbuild⟩ := build_cases crypto params cycle previous
  · rw [compute_eq hprevious hbuild]
    refine ⟨distinctMembers_of h (fun i => ?_) (compute_eq hprevious hbuild), ?_⟩
    · simpa using h.nodup i
    · rw [getPrevious_cons]
      exact .nothing
  · have hprev := h.previousOk hlists
    replace henough : Enough crypto params cycle previous := by
      refine henough.resolve_left fun hlt => ?_
      rw [buildNewQuorumQuarterMembers, if_pos hlt] at hbuild
      cases hbuild
    have hnew := fun i => new_spec hlists.rep hremoved hprev henough hfill (hcompatible i) (h.nodup i)
    rw [compute_eq hprevious hbuild]
    refine ⟨distinctMembers_of h hnew (compute_eq hprevious hbuild), ?_⟩
    rw [getPrevious_cons, hprevious]
    exact h.next hnew hlists.rep hremoved hprev henough hfill hinTime

/-- In every run of cycles that keeps to the conditions the rotated quorums have different members, and not more than
the size of a quorum. -/
theorem rotated_members_distinct {cycles : List (Cycle G)}
    (hlists : Along (rotate crypto params) (ListsOk crypto) [] cycles)
    (hok : Along (rotate crypto params) (RotationOk crypto params) [] cycles) :
    Along (rotate crypto params) (DistinctMembers crypto params) [] cycles := by
  refine (hlists.and hok).imp (I := HistoryOk crypto params) (fun history cycle h hboth => ?_)
    (fun history cycle h hboth => ?_) .nothing
  · exact (rotate_spec h hboth.1 hboth.2).1
  · exact (rotate_spec h hboth.1 hboth.2).2

end Runs

/-! ### A list that does not change -/

lemma rotate_same (hsame : ∀ entry ∈ history, entry.1 = cycle) :
    ∀ entry ∈ rotate crypto params history cycle, entry.1 = cycle := by
  intro entry hentry
  unfold rotate at hentry
  split at hentry
  · exact hsame entry hentry
  · rcases mem_cons.mp hentry with rfl | hentry
    · rfl
    · exact hsame entry hentry

section

variable (hrep : Rep crypto cycle.allMns)

include hrep

lemma listsOk_same (hsame : ∀ entry ∈ history, entry.1 = cycle) : ListsOk crypto history cycle where
  rep := hrep
  earlier entry hentry mn hget helig cur hcur := by
    rw [hsame entry hentry, hcur] at hget
    cases hget
    exact ⟨rfl, rfl, rfl⟩

lemma along_listsOk_same : Along (rotate crypto params) (ListsOk crypto) [] (replicate k cycle) := by
  have hcycles : Along (rotate crypto params) (fun _ c => c = cycle) [] (replicate k cycle) :=
    along_of_mem fun c hc => (mem_replicate.mp hc).2
  refine hcycles.imp (I := fun history => ∀ entry ∈ history, entry.1 = cycle) ?_ ?_ (by simp)
  · rintro history _ hsame rfl
    exact listsOk_same hrep hsame
  · rintro history _ hsame rfl
    exact rotate_same hsame

variable (hskip : cycle.skipRemovedMNs = true) (hsize : params.size ≤ cycle.allMns.eligible.length)
  (hplaces : params.signingActiveQuorumCount * params.quarterSize ≤ cycle.allMns.eligible.length)

include hskip hsize hplaces

lemma rotationOk_same (h : HistoryOk crypto params history) (hsame : ∀ entry ∈ history, entry.1 = cycle) :
    RotationOk crypto params history cycle := by
  have hprev := h.previousOk (listsOk_same hrep hsame)
  refine ⟨.inl hskip, .inr (enough_of_size_le hrep (.inl hskip) hprev hsize), fun i => ?_,
    skipsInTime_of_le hrep (.inl hskip) hprev hplaces⟩
  refine hrep.compatible fun mn hmn => ?_
  obtain ⟨entry, hentry, hget, -⟩ := h.listed i mn (mem_of_mem_filter hmn)
  rwa [hsame entry hentry] at hget

lemma along_rotationOk_same : Along (rotate crypto params) (RotationOk crypto params) [] (replicate k cycle) := by
  have hcycles : Along (rotate crypto params) (fun _ c => c = cycle) [] (replicate k cycle) :=
    along_of_mem fun c hc => (mem_replicate.mp hc).2
  refine hcycles.imp (I := fun history => HistoryOk crypto params history ∧ ∀ entry ∈ history, entry.1 = cycle) ?_ ?_
    ⟨.nothing, by simp⟩
  · rintro history _ ⟨h, hsame⟩ rfl
    exact rotationOk_same hrep hskip hsize hplaces h hsame
  · rintro history _ ⟨h, hsame⟩ rfl
    have hok := rotationOk_same hrep hskip hsize hplaces h hsame
    exact ⟨(rotate_spec h (listsOk_same hrep hsame) hok).2, rotate_same hsame⟩

end

theorem rotated_members_distinct_toyRun :
    Along (rotate toyCrypto llmqTestDip0024) (DistinctMembers toyCrypto llmqTestDip0024) []
      (replicate 6 (rotationCycle 4)) :=
  rotated_members_distinct (along_listsOk_same (rep_rotationCycle 4))
    (along_rotationOk_same (rep_rotationCycle 4) rfl (by decide) (by decide))

/-- With a single masternode, the first cycle puts it in both quorums, the second one selects nobody, and in the third
one the empty quarter of the second is rebuilt with the masternode. -/
theorem rotated_members_repeat :
    Along (rotate toyCrypto llmqTestDip0024) (ListsOk toyCrypto) [] (replicate 3 (rotationCycle 1)) ∧
    ¬Along (rotate toyCrypto llmqTestDip0024) (DistinctMembers toyCrypto llmqTestDip0024) []
      (replicate 3 (rotationCycle 1)) := by
  refine ⟨along_listsOk_same (rep_rotationCycle 1), fun hall => ?_⟩
  obtain ⟨members, stored, hmembers, -, hdistinct⟩ := hall.2.2.1
  have hrepeat : (computeQuorumMembersByQuarterRotation toyCrypto llmqTestDip0024
      (rotate toyCrypto llmqTestDip0024 (rotate toyCrypto llmqTestDip0024 [] (rotationCycle 1)) (rotationCycle 1))
      (rotationCycle 1)).map (fun result => result.1.any fun quorum =>
        !decide (quorum.map proTxHash).Nodup) = some true := by decide
  rw [hmembers, Option.map_some, Option.some.injEq, any_eq_true] at hrepeat
  obtain ⟨quorum, hquorum, hnot⟩ := hrepeat
  simp [(hdistinct quorum hquorum).1] at hnot

end Blocx
