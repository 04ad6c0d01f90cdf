import Blocx.Llmq.QuorumRotation

/-!
# The walks of quorum rotation

The selection of the new quarters and their reconstruction as walks around the sorted masternodes, in the sense of
`CircularWalk`. The selection keeps the position of a masternode that can be added to the list of the quorum and skips
the others, so that its decisions are attempts, in one round for each quorum (`fillQuarters_full`). The reconstruction
is the replay of a record of positions (`refillQuarters_eq`), and the skip list, encoded relative to its first entry
that is not zero, decodes to that record (`processSkipList_encodeSkips`). Neither loop runs on for ever
(`fillQuarter_ne_unfinished`).
-/

namespace Blocx

open List

open CDeterministicMNList CircularWalk

variable {G : Type} {first : ℕ} {sorted : List (CDeterministicMN G)} {crypto : Crypto G} {ds : List Bool}

/-! ### The skip list -/

/-- The skip list for positions, relative to a first position. -/
def encodeSkips : (firstSkippedIndex : ℕ) → List ℕ → List ℤ
  | _, [] => []
  | firstSkippedIndex, p :: ps =>
    if firstSkippedIndex = 0 then (p : ℤ) :: encodeSkips p ps
    else ((p : ℤ) - firstSkippedIndex) :: encodeSkips firstSkippedIndex ps

/-- The first position after positions were skipped. -/
def firstSkipped : (firstSkippedIndex : ℕ) → List ℕ → ℕ
  | firstSkippedIndex, [] => firstSkippedIndex
  | firstSkippedIndex, p :: ps => firstSkipped (if firstSkippedIndex = 0 then p else firstSkippedIndex) ps

/-- The skip list decodes to the positions. -/
lemma processSkipList_encodeSkips (first : ℕ) (ps : List ℕ) :
    processSkipList first (encodeSkips first ps) = ps.map Nat.cast := by
  induction ps generalizing first with
  | nil => rfl
  | cons p ps ih =>
    by_cases h : first = 0
    · rw [encodeSkips, if_pos h, processSkipList, if_pos (by exact_mod_cast h), ih, map_cons]
    · rw [encodeSkips, if_neg h, processSkipList, if_neg (by exact_mod_cast h), ih, map_cons, add_sub_cancel]

lemma encodeSkips_append {ps qs : List ℕ} :
    encodeSkips first (ps ++ qs) = encodeSkips first ps ++ encodeSkips (firstSkipped first ps) qs := by
  induction ps generalizing first with
  | nil => rfl
  | cons p ps ih =>
    by_cases h : first = 0
    · rw [cons_append, encodeSkips, if_pos h, ih, encodeSkips, if_pos h, firstSkipped, if_pos h, cons_append]
    · rw [cons_append, encodeSkips, if_neg h, ih, encodeSkips, if_neg h, firstSkipped, if_neg h, cons_append]

lemma firstSkipped_append (first : ℕ) (ps qs : List ℕ) :
    firstSkipped first (ps ++ qs) = firstSkipped (firstSkipped first ps) qs := by
  induction ps generalizing first with
  | nil => rfl
  | cons p ps ih => exact ih _

lemma encodeSkips_eq_nil {ps : List ℕ} : encodeSkips first ps = [] ↔ ps = [] := by
  cases ps with
  | nil => simp [encodeSkips]
  | cons p ps =>
    unfold encodeSkips
    split <;> simp

/-- The cursor after the visits of a walk. -/
structure Cursor.Moves (n : ℕ) (cursor : Cursor) (ds : List Bool) (cursor' : Cursor) : Prop where
  idx : cursor'.idx = stop n cursor.idx ds
  skipList : cursor'.skipList = cursor.skipList ++ encodeSkips cursor.firstSkippedIndex (places n false cursor.idx ds)
  firstSkippedIndex : cursor'.firstSkippedIndex =
    firstSkipped cursor.firstSkippedIndex (places n false cursor.idx ds)

namespace Cursor.Moves

variable {n : ℕ} {cursor cursor' cursor'' : Cursor} {ds ds' : List Bool}

lemma refl (n : ℕ) (cursor : Cursor) : Cursor.Moves n cursor [] cursor :=
  ⟨rfl, by simp [encodeSkips], rfl⟩

lemma trans (h : Cursor.Moves n cursor ds cursor') (h' : Cursor.Moves n cursor' ds' cursor'') :
    Cursor.Moves n cursor (ds ++ ds') cursor'' := by
  refine ⟨?_, ?_, ?_⟩
  · rw [h'.idx, h.idx, stop_append]
  · rw [h'.skipList, h.skipList, h.firstSkippedIndex, h.idx, places_append, encodeSkips_append, append_assoc]
  · rw [h'.firstSkippedIndex, h.firstSkippedIndex, h.idx, places_append, firstSkipped_append]

lemma keep (n : ℕ) (cursor : Cursor) : Cursor.Moves n cursor [true] { cursor with idx := next n cursor.idx } :=
  ⟨rfl, by simp [encodeSkips], rfl⟩

lemma skip (n : ℕ) (cursor : Cursor) :
    Cursor.Moves n cursor [false] { cursor.skip with idx := next n cursor.idx } := by
  unfold Cursor.skip
  by_cases h : cursor.firstSkippedIndex = 0
  · exact ⟨rfl, by simp [encodeSkips, h], by simp [firstSkipped, h]⟩
  · exact ⟨rfl, by simp [encodeSkips, h], by simp [firstSkipped, h]⟩

end Cursor.Moves

/-! ### The selection for one quorum -/

section

variable {q count initial fuel : ℕ} {s s' : Selection G}

/-- The masternodes at positions. -/
def atPlaces {α : Type} (l : List α) (ps : List ℕ) : List α := ps.filterMap (l[·]?)

lemma atPlaces_cons {α : Type} {l : List α} {p : ℕ} {a : α} (h : l[p]? = some a) (ps : List ℕ) :
    atPlaces l (p :: ps) = a :: atPlaces l ps :=
  filterMap_cons_some h

lemma attemptMN_lt {used list : CDeterministicMNList G} {idx : ℕ} (h : attemptMN crypto sorted used idx = some list) :
    idx < sorted.length := by
  by_contra hidx
  unfold attemptMN at h
  rw [getElem?_eq_none (not_lt.mp hidx)] at h
  cases h

/-- What a visit does: the masternode at the position is added to the list of the quorum and to the quarter, or the
position is skipped. -/
lemma visit_cases :
    (∃ list mn, attemptMN crypto sorted s.mnsUsed s.cursor.idx = some list ∧ sorted[s.cursor.idx]? = some mn ∧
      s.visit crypto sorted = ⟨list, s.members ++ [mn], true,
        { s.cursor with idx := next sorted.length s.cursor.idx }⟩) ∨
    (attemptMN crypto sorted s.mnsUsed s.cursor.idx = none ∧
      s.visit crypto sorted =
        ⟨s.mnsUsed, s.members, s.updated, { s.cursor.skip with idx := next sorted.length s.cursor.idx }⟩) := by
  cases h : attemptMN crypto sorted s.mnsUsed s.cursor.idx with
  | none =>
    refine .inr ⟨rfl, ?_⟩
    unfold Selection.visit
    dsimp only
    rw [h]
  | some list =>
    have hmn := getElem?_eq_getElem (attemptMN_lt h)
    refine .inl ⟨list, _, rfl, hmn, ?_⟩
    unfold Selection.visit
    dsimp only
    rw [h]
    rw [hmn]
    rfl

/-- The visits of the loop for one quorum. -/
structure Filled (crypto : Crypto G) (sorted : List (CDeterministicMN G)) (q count : ℕ) (s : Selection G)
    (ds : List Bool) (s' : Selection G) : Prop where
  /-- The decisions are those of attempts. -/
  attempts : Attempts (attemptMN crypto sorted) sorted.length s.mnsUsed s.cursor.idx ds s'.mnsUsed
  /-- The masternodes of the positions kept are selected. -/
  members : s'.members = s.members ++ atPlaces sorted (places sorted.length true s.cursor.idx ds)
  length : s'.members.length = s.members.length + ds.count true
  cursor : Cursor.Moves sorted.length s.cursor ds s'.cursor
  /-- The last visit selects a masternode. -/
  ends : Ends ds
  closed : ¬Selection.Open sorted q count s'
  /-- No more masternodes are selected than asked for. -/
  le : s.members.length ≤ q → s'.members.length ≤ q

lemma Filled.visit (hopen : Selection.Open sorted q count s)
    (h : Filled crypto sorted q count (s.visit crypto sorted) ds s') :
    ∃ d, Filled crypto sorted q count s (d :: ds) s' := by
  obtain ⟨list, mn, hattempt, hmn, hvisit⟩ | ⟨hattempt, hvisit⟩ := visit_cases
  · rw [hvisit] at h
    refine ⟨true, ⟨⟨list, hattempt, h.attempts⟩, ?_, ?_, (Cursor.Moves.keep _ _).trans h.cursor, h.ends.cons_true,
      h.closed, fun _ => h.le ?_⟩⟩
    · rw [h.members, places_true_true, atPlaces_cons hmn, append_assoc, singleton_append]
    · rw [h.length, count_cons_self, length_append, length_singleton]
      omega
    · have := hopen.1
      rw [length_append, length_singleton]
      omega
  · rw [hvisit] at h
    refine ⟨false, ⟨⟨hattempt, h.attempts⟩, h.members, ?_, (Cursor.Moves.skip _ _).trans h.cursor, ?_, h.closed, h.le⟩⟩
    · rw [h.length, count_cons_of_ne (by decide)]
    · -- the loop is still open after a skip, so it ends with a later visit
      refine h.ends.cons_false (Nat.pos_of_ne_zero fun hzero => h.closed ?_)
      have hlen : s'.members.length = s.members.length := by
        rw [h.length, hzero]
        rfl
      unfold Selection.Open
      rw [hlen]
      exact hopen

lemma fillQuarter_full (h : fillQuarter crypto sorted q count initial fuel s = .full s') :
    ∃ ds, Filled crypto sorted q count s ds s' := by
  induction fuel generalizing s with
  | zero => cases h
  | succ fuel ih =>
    rw [fillQuarter] at h
    by_cases hopen : Selection.Open sorted q count s
    · rw [if_pos hopen] at h
      dsimp only at h
      have hafter : ∃ ds, Filled crypto sorted q count (s.visit crypto sorted) ds s' := by
        split at h
        · split at h
          · obtain ⟨ds, hds⟩ := ih h
            exact ⟨ds, { hds with }⟩
          · cases h
        · exact ih h
      obtain ⟨ds, hds⟩ := hafter
      obtain ⟨d, hd⟩ := hds.visit hopen
      exact ⟨d :: ds, hd⟩
    · rw [if_neg hopen] at h
      cases h
      refine ⟨[], rfl, ?_, rfl, Cursor.Moves.refl _ _, trivial, hopen, id⟩
      rw [places_nil, atPlaces, filterMap_nil, append_nil]

/-- Visits until the position is the first one of the loop again. -/
def roundLeft (n initial idx : ℕ) : ℕ := if idx < initial then initial - idx else initial + n - idx

lemma roundLeft_next {n idx : ℕ} (hidx : idx < n) (hinitial : initial < n) :
    if next n idx = initial then roundLeft n initial idx = 1
    else roundLeft n initial (next n idx) + 1 = roundLeft n initial idx := by
  unfold roundLeft CircularWalk.next
  split_ifs <;> omega

/-- What is left of the loop for a quorum: rounds in which a masternode can still be selected, and visits of the
round. -/
def Selection.left (sorted : List (CDeterministicMN G)) (q initial : ℕ) (s : Selection G) : ℕ :=
  (q - s.members.length + if s.updated then 1 else 0) * sorted.length + roundLeft sorted.length initial s.cursor.idx

lemma fillQuarter_ne_unfinished (hinitial : initial < sorted.length) (hidx : s.cursor.idx < sorted.length)
    (hfuel : s.left sorted q initial < fuel) : fillQuarter crypto sorted q count initial fuel s ≠ .unfinished := by
  induction fuel generalizing s with
  | zero => omega
  | succ fuel ih =>
    rw [fillQuarter]
    by_cases hopen : Selection.Open sorted q count s
    · rw [if_pos hopen]
      -- a visit does not make the number of rounds grow
      have hvisit : (s.visit crypto sorted).cursor.idx = next sorted.length s.cursor.idx ∧
          (q - (s.visit crypto sorted).members.length + if (s.visit crypto sorted).updated then 1 else 0) ≤
            q - s.members.length + if s.updated then 1 else 0 := by
        obtain ⟨list, mn, -, -, hvisit⟩ | ⟨-, hvisit⟩ := visit_cases
        · rw [hvisit]
          refine ⟨rfl, ?_⟩
          have := hopen.1
          simp only [length_append, length_singleton, if_true]
          omega
        · rw [hvisit]
          exact ⟨rfl, le_rfl⟩
      revert hvisit
      generalize s.visit crypto sorted = v
      rintro ⟨hv, hrounds⟩
      have hnext := roundLeft_next hidx hinitial
      rw [← hv] at hnext
      have hlt : v.cursor.idx < sorted.length := by
        rw [hv]
        exact next_lt hidx
      have hmul := Nat.mul_le_mul_right sorted.length hrounds
      unfold Selection.left at hfuel
      by_cases hround : v.cursor.idx = initial
      · rw [if_pos hround] at hnext
        rw [if_pos hround]
        cases hupdated : v.updated with
        | false => simp
        | true =>
          refine ih hlt ?_
          have hfull : roundLeft sorted.length initial v.cursor.idx = sorted.length := by
            unfold roundLeft
            rw [hround, if_neg (lt_irrefl _)]
            omega
          rw [hupdated, if_pos rfl, Nat.add_mul, Nat.one_mul] at hmul
          unfold Selection.left
          dsimp only
          rw [hfull, if_neg Bool.false_ne_true, Nat.add_zero]
          omega
      · rw [if_neg hround] at hnext
        rw [if_neg hround]
        refine ih hlt ?_
        unfold Selection.left
        omega
    · rw [if_neg hopen]
      simp

end

/-! ### The selection for all quorums -/

section

variable {q : ℕ} {indexed : List (CDeterministicMNList G)} {cursor cursor' : Cursor} {quarters : Quarters G}

/-- With enough masternodes, the selection is a walk with a round for each quorum. -/
lemma fillQuarters_full (henough : ∀ used ∈ indexed, used.getAllMNsCount + q ≤ sorted.length)
    (h : fillQuarters crypto sorted q indexed cursor = .full (quarters, cursor')) :
    ∃ dss, Rounds (attemptMN crypto sorted) sorted.length q indexed cursor.idx dss ∧
      quarters = (keptRounds sorted.length cursor.idx dss).map (atPlaces sorted) ∧
      Cursor.Moves sorted.length cursor dss.flatten cursor' := by
  induction indexed generalizing cursor quarters with
  | nil =>
    cases h
    exact ⟨[], rfl, rfl, Cursor.Moves.refl _ _⟩
  | cons used rest ih =>
    rw [fillQuarters] at h
    split at h
    · next s hs =>
      split at h
      · next quarters' cursor'' hrest =>
        cases h
        obtain ⟨ds, hds⟩ := fillQuarter_full hs
        have hfull : ds.count true = q := by
          have hle := hds.le (Nat.zero_le q)
          have hlen := hds.length
          have hcount := henough used mem_cons_self
          have hclosed := hds.closed
          unfold Selection.Open at hclosed
          simp only [length_nil, Nat.zero_add] at hlen
          omega
        obtain ⟨dss, hrounds, hquarters, hmoves⟩ := ih (fun u hu => henough u (mem_cons_of_mem _ hu)) hrest
        rw [hds.cursor.idx] at hrounds hquarters
        refine ⟨ds :: dss, ⟨ds, dss, s.mnsUsed, rfl, hds.attempts, hfull, hds.ends, hrounds⟩, ?_, ?_⟩
        · rw [keptRounds, map_cons, hquarters, hds.members, nil_append]
        · exact hds.cursor.trans hmoves
      · cases h
      · cases h
    · cases h
    · cases h

lemma fillQuarters_ne_unfinished (hidx : sorted = [] ∨ cursor.idx < sorted.length) :
    fillQuarters crypto sorted q indexed cursor ≠ .unfinished := by
  induction indexed generalizing cursor with
  | nil => simp [fillQuarters]
  | cons used rest ih =>
    rw [fillQuarters]
    split
    · next s hs =>
      obtain ⟨ds, hds⟩ := fillQuarter_full hs
      have hrest : fillQuarters crypto sorted q rest s.cursor ≠ .unfinished := by
        refine ih (hidx.imp_right fun hlt => ?_)
        rw [hds.cursor.idx]
        exact stop_lt hlt
      split
      · simp
      · simp
      · next hun => exact absurd hun hrest
    · simp
    · next hun =>
      obtain hnil | hlt := hidx
      · rw [fillFuel, fillQuarter, if_neg (by simp [Selection.Open, hnil])] at hun
        cases hun
      refine absurd hun (fillQuarter_ne_unfinished hlt hlt ?_)
      have hround : roundLeft sorted.length cursor.idx cursor.idx = sorted.length := by
        unfold roundLeft
        rw [if_neg (lt_irrefl _)]
        omega
      unfold Selection.left fillFuel
      simp only [length_nil, Nat.sub_zero, hround, if_neg Bool.false_ne_true, Nat.add_mul]
      omega

end

/-! ### The reconstruction -/

variable {q idx : ℕ}

lemma refillQuarter_eq (hidx : idx < sorted.length) {record : List ℕ} {members : List (CDeterministicMN G)} {fuel : ℕ}
    (hfuel : q - members.length + record.length ≤ fuel)
    (hds : replay sorted.length (q - members.length) idx record = ds) :
    refillQuarter sorted q fuel members idx (record.map Nat.cast) =
      (members ++ atPlaces sorted (places sorted.length true idx ds), stop sorted.length idx ds,
        (record.drop (ds.count false)).map Nat.cast) := by
  have hdone : q - members.length = 0 → ds = [] := fun hzero => by rw [← hds, hzero, replay_zero]
  induction fuel generalizing idx record members ds with
  | zero =>
    obtain rfl := hdone (by omega)
    simp [refillQuarter, stop, atPlaces]
  | succ fuel ih =>
    rw [refillQuarter]
    by_cases hfull : members.length < q
    · rw [if_pos hfull]
      obtain ⟨m, hm⟩ : ∃ m, q - members.length = m + 1 := ⟨q - members.length - 1, by omega⟩
      by_cases hhead : record.head? = some idx
      · obtain ⟨rest, rfl⟩ := head?_eq_some_iff.mp hhead
        rw [hm, replay_skip, ← hm] at hds
        subst hds
        rw [length_cons] at hfuel
        rw [map_cons, head?_cons, if_pos rfl, tail_cons, ih (next_lt hidx) (by omega) rfl (by omega),
          places_true_false, stop, count_cons_self, drop_succ_cons]
      · rw [hm, replay_keep _ hhead] at hds
        subst hds
        have hne : ¬(record.map (Nat.cast : ℕ → ℤ)).head? = some (idx : ℤ) := by
          rw [head?_map]
          intro hcast
          obtain ⟨r, hr, hri⟩ := Option.map_eq_some_iff.mp hcast
          rw [Nat.cast_inj.mp hri] at hr
          exact hhead hr
        have hmn := getElem?_eq_getElem hidx
        have hlen : q - (members ++ [sorted[idx]]).length = m := by
          rw [length_append, length_singleton]
          omega
        rw [if_neg hne, hmn, Option.toList_some, ih (next_lt hidx) (by rw [hlen]; omega) (by rw [hlen])
          (fun hzero => by rw [hlen] at hzero; rw [hzero, replay_zero]), places_true_true, stop,
          count_cons_of_ne (by decide), atPlaces_cons hmn, append_assoc, singleton_append]
    · obtain rfl := hdone (by omega)
      rw [if_neg hfull]
      simp [stop, atPlaces]

lemma refillQuarters_eq (hidx : idx < sorted.length) (k : ℕ) (record : List ℕ) :
    refillQuarters sorted q k idx (record.map Nat.cast) =
      (replayRounds sorted.length q k idx record).map (atPlaces sorted) := by
  induction k generalizing idx record with
  | zero => rfl
  | succ k ih =>
    rw [refillQuarters, refillQuarter_eq hidx (by simp) rfl]
    dsimp only [length_nil, Nat.sub_zero]
    rw [ih (stop_lt hidx), replayRounds, map_cons, nil_append]

end Blocx
