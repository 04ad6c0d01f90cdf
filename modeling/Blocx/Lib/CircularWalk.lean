import Mathlib.Data.Bool.Count
import Mathlib.Data.Nat.ModEq
import Mathlib.Tactic.Ring

/-!
# Walks around a circle, recorded by what they skip

A walk visits the places `0, …, n - 1` of a circle one after another, as often round as it needs, and keeps or skips the
place of each visit. It may be recorded by the places it skips, in the order of the visits, and by how many it keeps:
whoever has the record goes round again, skips a place when it is the next one of the record, and keeps it otherwise
(`replay`).

The record says where a place was skipped but not in which round. `replay_eq_iff` says when that is enough: the replay
keeps the same places exactly when every skip comes before a full round of visits has been kept in a row. After such a
round the place of the next skip has been passed, and the replay skips it a round too early. The other direction counts
visits: a walk that never skips a full round of places in a row is the shortest one that keeps its places.
-/

namespace Blocx

open List

namespace CircularWalk

variable {record : List ℕ}

/-! ### Walks -/

/-- The place after a place. -/
def next (n p : ℕ) : ℕ := if p + 1 = n then 0 else p + 1

/-- The places of the visits with a decision. -/
def places (n : ℕ) (b : Bool) : ℕ → List Bool → List ℕ
  | _, [] => []
  | p, d :: ds => if d = b then p :: places n b (next n p) ds else places n b (next n p) ds

/-- The place after a walk. -/
def stop (n : ℕ) : ℕ → List Bool → ℕ
  | p, [] => p
  | p, _ :: ds => stop n (next n p) ds

/-- A walk that has not made a visit after the last place it kept. -/
def Ends : List Bool → Prop
  | [] => True
  | [d] => d = true
  | _ :: d :: ds => Ends (d :: ds)

/-- Every visit with the other decision follows fewer than `n` visits in a row with the decision `b`; there were `c` of
them before the walk. -/
def RunsBelow (n : ℕ) (b : Bool) : ℕ → List Bool → Prop
  | _, [] => True
  | c, d :: ds => if d = b then RunsBelow n b (c + 1) ds else c < n ∧ RunsBelow n b 0 ds

variable {n p c k r q : ℕ} {b : Bool} {ds ds' : List Bool} {S : Type} {dss : List (List Bool)}
  {attempt : S → ℕ → Option S} {ss : List S}

lemma next_eq (h : p < n) : next n p = (p + 1) % n := by
  unfold next
  by_cases hp : p + 1 = n
  · rw [if_pos hp, hp, Nat.mod_self]
  · rw [if_neg hp, Nat.mod_eq_of_lt (by omega)]

lemma next_lt (h : p < n) : next n p < n := by
  rw [next_eq h]
  exact Nat.mod_lt _ (by omega)

@[simp] lemma places_nil : places n b p [] = [] := rfl

@[simp] lemma places_true_true : places n true p (true :: ds) = p :: places n true (next n p) ds := rfl

@[simp] lemma places_true_false : places n true p (false :: ds) = places n true (next n p) ds := rfl

@[simp] lemma places_false_true : places n false p (true :: ds) = places n false (next n p) ds := rfl

@[simp] lemma places_false_false : places n false p (false :: ds) = p :: places n false (next n p) ds := rfl

lemma places_append (ds ds' : List Bool) :
    places n b p (ds ++ ds') = places n b p ds ++ places n b (stop n p ds) ds' := by
  induction ds generalizing p with
  | nil => rfl
  | cons d ds ih =>
    by_cases hd : d = b <;> simp [places, stop, hd, ih]

lemma length_places : (places n b p ds).length = ds.count b := by
  induction ds generalizing p with
  | nil => rfl
  | cons d ds ih =>
    by_cases hd : d = b <;> simp [places, hd, ih]

lemma lt_of_mem_places (hp : p < n) {x : ℕ} (hx : x ∈ places n b p ds) : x < n := by
  induction ds generalizing p with
  | nil => simp at hx
  | cons d ds ih =>
    by_cases hd : d = b
    · simp only [places, hd, if_true, mem_cons] at hx
      rcases hx with rfl | hx
      · exact hp
      · exact ih (next_lt hp) hx
    · simp only [places, hd, if_false] at hx
      exact ih (next_lt hp) hx

lemma stop_append (ds ds' : List Bool) : stop n p (ds ++ ds') = stop n (stop n p ds) ds' := by
  induction ds generalizing p with
  | nil => rfl
  | cons d ds ih => exact ih

lemma stop_eq (hp : p < n) : stop n p ds = (p + ds.length) % n := by
  induction ds generalizing p with
  | nil => simp [stop, Nat.mod_eq_of_lt hp]
  | cons d ds ih =>
    rw [stop, ih (next_lt hp), next_eq hp, length_cons, Nat.mod_add_mod, Nat.add_assoc, Nat.add_comm 1]

lemma stop_lt (hp : p < n) : stop n p ds < n := by
  rw [stop_eq hp]
  exact Nat.mod_lt _ (by omega)

lemma runsBelow_mono {c' : ℕ} (hc : c' ≤ c) (h : RunsBelow n b c ds) : RunsBelow n b c' ds := by
  induction ds generalizing c c' with
  | nil => trivial
  | cons d ds ih =>
    by_cases hd : d = b
    · simp only [RunsBelow, hd, if_true] at h ⊢
      exact ih (by omega) h
    · simp only [RunsBelow, hd, if_false] at h ⊢
      exact ⟨by omega, h.2⟩

/-! ### Walks that end with a place they keep -/

lemma Ends.tail {d : Bool} (h : Ends (d :: ds)) : Ends ds := by
  cases ds with
  | nil => trivial
  | cons d' ds => exact h

lemma Ends.count_of_false (h : Ends (false :: ds)) : ∃ m, ds.count true = m + 1 := by
  induction ds with
  | nil => cases h
  | cons d ds ih =>
    cases d with
    | true => simp
    | false => simpa using ih h

lemma Ends.append (h : Ends ds) (h' : Ends ds') : Ends (ds ++ ds') := by
  induction ds with
  | nil => exact h'
  | cons d ds ih =>
    cases ds with
    | nil =>
      cases ds' with
      | nil => exact h
      | cons d' ds' => exact h'
    | cons e ds => exact ih h

lemma Ends.eq_nil_of_count (h : Ends ds) (hc : ds.count true = 0) : ds = [] := by
  cases ds with
  | nil => rfl
  | cons d ds =>
    cases d with
    | true => simp at hc
    | false =>
      obtain ⟨m, hm⟩ := h.count_of_false
      simp [hm] at hc

lemma Ends.exists_first (h : Ends ds) (hne : ds ≠ []) :
    ∃ k rest, ds = replicate k false ++ true :: rest ∧ Ends rest := by
  induction ds with
  | nil => exact absurd rfl hne
  | cons d ds ih =>
    cases d with
    | true => exact ⟨0, ds, rfl, h.tail⟩
    | false =>
      have hds : ds ≠ [] := by
        rintro rfl
        cases h
      obtain ⟨k, rest, hk, hrest⟩ := ih h.tail hds
      exact ⟨k + 1, rest, by rw [hk, replicate_succ, cons_append], hrest⟩

lemma places_replicate_false : places n true p (replicate k false) = [] := by
  induction k generalizing p with
  | zero => rfl
  | succ k ih => exact ih

lemma places_first (hp : p < n) :
    places n true p (replicate k false ++ true :: ds) = (p + k) % n :: places n true ((p + k + 1) % n) ds := by
  have hn : 0 < n := by omega
  rw [places_append, places_replicate_false, nil_append, stop_eq hp, length_replicate, places_true_true,
    next_eq (Nat.mod_lt _ hn), Nat.mod_add_mod]

lemma runsBelow_first (h : RunsBelow n false c (replicate k false ++ true :: ds)) :
    c + k < n ∧ RunsBelow n false 0 ds := by
  induction k generalizing c with
  | zero => exact h
  | succ k ih =>
    obtain ⟨hlt, hds⟩ := ih (c := c + 1) h
    exact ⟨by omega, hds⟩

/-- A walk that never skips a full round in a row is the shortest walk that keeps its places, and the only one of its
length. -/
lemma eq_of_places_eq (hp : p < n) (hds : Ends ds) (hds' : Ends ds') (hruns : RunsBelow n false 0 ds)
    (heq : places n true p ds = places n true p ds') :
    ds.length ≤ ds'.length ∧ (ds'.length = ds.length → ds' = ds) := by
  have hn : 0 < n := by omega
  have hcount : ds.count true = ds'.count true := by
    rw [← length_places (n := n) (p := p), heq, length_places]
  induction hm : ds.count true generalizing ds ds' p with
  | zero =>
    rw [hm] at hcount
    rw [hds.eq_nil_of_count hm, hds'.eq_nil_of_count hcount.symm]
    exact ⟨le_refl _, fun _ => rfl⟩
  | succ m ih =>
    have hne : ds ≠ [] := by
      rintro rfl
      cases hm
    have hne' : ds' ≠ [] := by
      rintro rfl
      rw [hm] at hcount
      cases hcount
    obtain ⟨k, rest, rfl, hrest⟩ := hds.exists_first hne
    obtain ⟨k', rest', rfl, hrest'⟩ := hds'.exists_first hne'
    obtain ⟨hk, hruns⟩ := runsBelow_first hruns
    rw [places_first hp, places_first hp, cons.injEq] at heq
    -- the same place is kept first, so the other walk has gone round at least as often before it
    have hmod : k ≡ k' [MOD n] := Nat.ModEq.add_left_cancel' p heq.1
    have hkk : k ≤ k' := by
      have hk' : k' % n = k := by rw [← hmod, Nat.mod_eq_of_lt (by omega)]
      rw [← hk']
      exact Nat.mod_le _ _
    have hplace : (p + k' + 1) % n = (p + k + 1) % n := (Nat.ModEq.add_left p hmod.symm).add_right 1
    rw [hplace] at heq
    simp only [count_append, count_replicate, count_cons] at hm hcount
    obtain ⟨hle, huniq⟩ := ih (Nat.mod_lt _ hn) hrest hrest' hruns heq.2 (by simpa using hcount) (by simpa using hm)
    simp only [length_append, length_replicate, length_cons]
    refine ⟨by omega, fun hlen => ?_⟩
    have hk' : k' = k := by omega
    rw [hk', huniq (by omega)]

/-! ### Replaying a walk -/

/-- Go round until `count` places are kept, and skip a place when it is the next one of the record. -/
def replay (n : ℕ) : (count p : ℕ) → (record : List ℕ) → List Bool
  | 0, _, _ => []
  | count + 1, p, [] => true :: replay n count (next n p) []
  | count + 1, p, r :: record =>
    if r = p then false :: replay n (count + 1) (next n p) record
    else true :: replay n count (next n p) (r :: record)
termination_by count _ record => count + record.length

@[simp] lemma replay_zero (record : List ℕ) : replay n 0 p record = [] := by
  rw [replay]

lemma replay_nil {count : ℕ} : replay n (count + 1) p [] = true :: replay n count (next n p) [] := by
  rw [replay]

lemma replay_skip (count : ℕ) (record : List ℕ) :
    replay n (count + 1) p (p :: record) = false :: replay n (count + 1) (next n p) record := by
  rw [replay, if_pos rfl]

lemma replay_keep (count : ℕ) (h : record.head? ≠ some p) :
    replay n (count + 1) p record = true :: replay n count (next n p) record := by
  cases record with
  | nil => exact replay_nil
  | cons r record => rw [replay, if_neg fun hr => h (by rw [hr, head?_cons])]

lemma Ends.cons_true (h : Ends ds) : Ends (true :: ds) := by
  cases ds with
  | nil => rfl
  | cons d ds => exact h

lemma Ends.cons_false (h : Ends ds) (hne : 0 < ds.count true) : Ends (false :: ds) := by
  cases ds with
  | nil => cases hne
  | cons d ds => exact h

/-- A replay keeps as many places as it should, and is not longer than it has to be. -/
lemma replay_spec (n count p : ℕ) (record : List ℕ) : (replay n count p record).count true = count ∧
    (replay n count p record).length ≤ count + record.length ∧ Ends (replay n count p record) := by
  induction count, p, record using replay.induct n with
  | case1 p record => simp [Ends]
  | case2 count p ih =>
    rw [replay_nil, count_cons_self, length_cons]
    exact ⟨by omega, by omega, ih.2.2.cons_true⟩
  | case3 count p record ih =>
    rw [replay_skip, count_cons_of_ne (by decide), length_cons, length_cons]
    exact ⟨ih.1, by omega, ih.2.2.cons_false (by omega)⟩
  | case4 count p r record hr ih =>
    rw [replay_keep count (by simpa using hr), count_cons_self, length_cons]
    exact ⟨by omega, by omega, ih.2.2.cons_true⟩

lemma replay_add {count more : ℕ} : replay n (count + more) p record = replay n count p record ++
      replay n more (stop n p (replay n count p record)) (record.drop ((replay n count p record).count false)) := by
  induction count, p, record using replay.induct n with
  | case1 p record => simp [stop]
  | case2 count p ih =>
    rw [Nat.succ_add, replay_nil, replay_nil, ih, cons_append, stop]
    simp
  | case3 count p record ih =>
    rw [Nat.succ_add, replay_skip, replay_skip, Nat.add_right_comm, ih, cons_append, stop, count_cons_self,
      drop_succ_cons]
  | case4 count p r record hr ih =>
    have hhead : (r :: record).head? ≠ some p := by simpa using hr
    rw [Nat.succ_add, replay_keep _ hhead, replay_keep _ hhead, ih, cons_append, stop, count_cons_of_ne (by decide)]

/-! ### When the record is enough -/

/-- The place lies `1`, …, `c` visits behind. -/
def Behind (n c p r : ℕ) : Prop := ∃ j, 1 ≤ j ∧ j ≤ c ∧ (r + j) % n = p

lemma not_behind_zero : ¬Behind n 0 p r := by
  rintro ⟨j, h1, h0, -⟩
  omega

section

variable (hp : p < n)

include hp

lemma behind_self (hc : n ≤ c) : Behind n c p p :=
  ⟨n, by omega, hc, by rw [Nat.add_mod_right, Nat.mod_eq_of_lt hp]⟩

lemma behind_next (hr : r < n) (h : Behind n (c + 1) (next n p) r) : r = p ∨ Behind n c p r := by
  obtain ⟨j, h1, hj, hmod⟩ := h
  obtain ⟨i, rfl⟩ : ∃ i, j = i + 1 := ⟨j - 1, by omega⟩
  rw [next_eq hp] at hmod
  have hi : r + i ≡ p [MOD n] := Nat.ModEq.add_right_cancel' 1 hmod
  have hip : (r + i) % n = p := by rw [hi, Nat.mod_eq_of_lt hp]
  cases i with
  | zero => exact .inl (by rw [← hip, Nat.add_zero, Nat.mod_eq_of_lt hr])
  | succ i => exact .inr ⟨i + 1, by omega, by omega, hip⟩

/-- While a place is fewer than `n` visits behind, the walk does not skip it next. -/
lemma head_places_ne {j : ℕ} (hj : 1 ≤ j) (h : RunsBelow n true j ds) :
    (places n false ((p + j) % n) ds).head? ≠ some p := by
  have hn : 0 < n := by omega
  induction ds generalizing j with
  | nil => simp
  | cons d ds ih =>
    cases d with
    | true =>
      rw [places_false_true, next_eq (Nat.mod_lt _ hn), Nat.mod_add_mod]
      exact ih (j := j + 1) (by omega) h
    | false =>
      intro heq
      have hmod : p + j ≡ p + 0 [MOD n] := by
        rw [Nat.ModEq, Option.some.inj heq, Nat.add_zero, Nat.mod_eq_of_lt hp]
      have hzero := Nat.ModEq.add_left_cancel' p hmod
      rw [Nat.ModEq, Nat.mod_eq_of_lt h.1, Nat.zero_mod] at hzero
      omega

/-- A walk in which every skip comes in time is replayed. -/
lemma replay_places (hds : Ends ds) (h : RunsBelow n true c ds) :
    replay n (ds.count true) p (places n false p ds) = ds := by
  induction ds generalizing p c with
  | nil => simp
  | cons d ds ih =>
    cases d with
    | true =>
      have hhead : (places n false (next n p) ds).head? ≠ some p := by
        rw [next_eq hp]
        exact head_places_ne hp le_rfl (runsBelow_mono (by omega) h)
      rw [count_cons_self, places_false_true, replay_keep _ hhead, ih (next_lt hp) hds.tail h]
    | false =>
      obtain ⟨m, hm⟩ := hds.count_of_false
      rw [count_cons_of_ne (by decide), places_false_false, hm, replay_skip, ← hm, ih (next_lt hp) hds.tail h.2]

/-- In a walk that is its own replay every skip comes in time. -/
lemma runsBelow_of_replay (hds : Ends ds) (hbehind : ∀ r < n, Behind n c p r → (places n false p ds).head? ≠ some r)
    (h : replay n (ds.count true) p (places n false p ds) = ds) : RunsBelow n true c ds := by
  induction ds generalizing p c with
  | nil => trivial
  | cons d ds ih =>
    cases d with
    | true =>
      rw [count_cons_self, places_false_true] at h
      have hhead : (places n false (next n p) ds).head? ≠ some p := by
        intro hhead
        obtain ⟨rest, hrest⟩ := head?_eq_some_iff.mp hhead
        rw [hrest, replay_skip] at h
        cases h
      rw [replay_keep _ hhead, cons.injEq] at h
      refine ih (next_lt hp) hds.tail (fun r hr hb => ?_) h.2
      rcases behind_next hp hr hb with rfl | hb
      · exact hhead
      · exact hbehind r hr hb
    | false =>
      obtain ⟨m, hm⟩ := hds.count_of_false
      rw [count_cons_of_ne (by decide), places_false_false, hm, replay_skip, cons.injEq, ← hm] at h
      refine ⟨?_, ih (next_lt hp) hds.tail (fun r _ hb => absurd hb not_behind_zero) h.2⟩
      by_contra hc
      exact hbehind p hp (behind_self hp (by omega)) (by rw [places_false_false, head?_cons])

/-- The replay of a walk keeps the places of the walk exactly when every skip of the walk comes before a full round has
been kept in a row. -/
lemma replay_eq_iff (hds : Ends ds) (hruns : RunsBelow n false 0 ds) :
    places n true p (replay n (ds.count true) p (places n false p ds)) = places n true p ds ↔
      RunsBelow n true 0 ds := by
  constructor
  · intro heq
    obtain ⟨hle, huniq⟩ := eq_of_places_eq hp hds (replay_spec _ _ _ _).2.2 hruns heq.symm
    have hlen : (replay n (ds.count true) p (places n false p ds)).length ≤ ds.length := by
      have hbound := (replay_spec n (ds.count true) p (places n false p ds)).2.1
      have htotal := count_true_add_count_false ds
      rw [length_places] at hbound
      omega
    exact runsBelow_of_replay hp hds (fun r _ hb => absurd hb not_behind_zero) (huniq (by omega))
  · intro h
    rw [replay_places hp hds h]

end

lemma runsBelow_of_count_le (hds : Ends ds) (h : c + ds.count true ≤ n) : RunsBelow n true c ds := by
  induction ds generalizing c with
  | nil => trivial
  | cons d ds ih =>
    cases d with
    | true =>
      rw [count_cons_self] at h
      exact ih (c := c + 1) hds.tail (by omega)
    | false =>
      obtain ⟨m, hm⟩ := hds.count_of_false
      rw [count_cons_of_ne (by decide)] at h
      exact ⟨by omega, ih hds.tail (by omega)⟩

/-! ### Walks that try every place -/

section

variable {s t t' : S}

/-- The decisions are those of attempts: a place is kept when the attempt succeeds, which changes the state. -/
def Attempts (attempt : S → ℕ → Option S) (n : ℕ) : S → ℕ → List Bool → S → Prop
  | s, _, [], t => t = s
  | s, p, true :: ds, t => ∃ u, attempt s p = some u ∧ Attempts attempt n u (next n p) ds t
  | s, p, false :: ds, t => attempt s p = none ∧ Attempts attempt n s (next n p) ds t

lemma Attempts.runsBelow_false (hp : p < n) (hbehind : ∀ r < n, Behind n c p r → attempt s r = none)
    (h : Attempts attempt n s p ds t) : RunsBelow n false c ds := by
  induction ds generalizing s p c with
  | nil => trivial
  | cons d ds ih =>
    cases d with
    | true =>
      obtain ⟨u, hu, h⟩ := h
      refine ⟨?_, ih (next_lt hp) (fun r _ hb => absurd hb not_behind_zero) h⟩
      by_contra hc
      rw [hbehind p hp (behind_self hp (by omega))] at hu
      cases hu
    | false =>
      refine ih (c := c + 1) (next_lt hp) (fun r hr hb => ?_) h.2
      rcases behind_next hp hr hb with rfl | hb
      · exact h.1
      · exact hbehind r hr hb

lemma Attempts.unique (h : Attempts attempt n s p ds t) (h' : Attempts attempt n s p ds' t') (hds : Ends ds)
    (hds' : Ends ds') (hcount : ds.count true = ds'.count true) : ds = ds' ∧ t = t' := by
  induction ds generalizing s p ds' with
  | nil =>
    obtain rfl := hds'.eq_nil_of_count hcount.symm
    exact ⟨rfl, h.trans h'.symm⟩
  | cons d ds ih =>
    cases ds' with
    | nil => exact absurd (hds.eq_nil_of_count hcount) (cons_ne_nil d ds)
    | cons d' ds' =>
      cases d <;> cases d'
      · obtain ⟨rfl, rfl⟩ := ih h.2 h'.2 hds.tail hds'.tail (by simpa using hcount)
        exact ⟨rfl, rfl⟩
      · obtain ⟨u, hu, -⟩ := h'
        rw [h.1] at hu
        cases hu
      · obtain ⟨u, hu, -⟩ := h
        rw [h'.1] at hu
        cases hu
      · obtain ⟨u, hu, h⟩ := h
        obtain ⟨u', hu', h'⟩ := h'
        obtain rfl : u = u' := Option.some.inj (hu.symm.trans hu')
        obtain ⟨rfl, rfl⟩ := ih h h' hds.tail hds'.tail (by simpa using hcount)
        exact ⟨rfl, rfl⟩

/-- Rounds of attempts, each with a state of its own and until `q` of its attempts have succeeded. -/
def Rounds (attempt : S → ℕ → Option S) (n q : ℕ) : List S → ℕ → List (List Bool) → Prop
  | [], _, dss => dss = []
  | s :: ss, p, dss => ∃ ds rest t, dss = ds :: rest ∧ Attempts attempt n s p ds t ∧ ds.count true = q ∧ Ends ds ∧
      Rounds attempt n q ss (stop n p ds) rest

lemma runsBelow_append (hds : Ends ds) (hne : ds = [] → c = 0) (h : RunsBelow n false c ds)
    (h' : RunsBelow n false 0 ds') : RunsBelow n false c (ds ++ ds') := by
  induction ds generalizing c with
  | nil =>
    rw [hne rfl]
    exact h'
  | cons d ds ih =>
    cases d with
    | true => exact ⟨h.1, ih hds.tail (fun _ => rfl) h.2⟩
    | false =>
      refine ih (c := c + 1) hds.tail (fun hnil => ?_) h
      rw [hnil] at hds
      cases hds

variable {dss dss' : List (List Bool)}

lemma Rounds.runsBelow_false (hp : p < n) (h : Rounds attempt n q ss p dss) : RunsBelow n false 0 dss.flatten := by
  induction ss generalizing p dss with
  | nil =>
    obtain rfl := h
    trivial
  | cons s ss ih =>
    obtain ⟨ds, rest, t, rfl, hds, -, hends, hrest⟩ := h
    exact runsBelow_append hends (fun _ => rfl)
      (hds.runsBelow_false hp fun r _ hb => absurd hb not_behind_zero) (ih (stop_lt hp) hrest)

section

variable (h : Rounds attempt n q ss p dss)

include h

lemma Rounds.ends : Ends dss.flatten := by
  induction ss generalizing p dss with
  | nil =>
    obtain rfl := h
    trivial
  | cons s ss ih =>
    obtain ⟨ds, rest, t, rfl, -, -, hends, hrest⟩ := h
    exact hends.append (ih hrest)

lemma Rounds.count : dss.flatten.count true = ss.length * q := by
  induction ss generalizing p dss with
  | nil =>
    obtain rfl := h
    simp
  | cons s ss ih =>
    obtain ⟨ds, rest, t, rfl, -, hcount, -, hrest⟩ := h
    rw [flatten_cons, count_append, hcount, ih hrest, length_cons]
    ring

lemma Rounds.unique (h' : Rounds attempt n q ss p dss') : dss = dss' := by
  induction ss generalizing p dss dss' with
  | nil =>
    obtain rfl := h
    obtain rfl := h'
    rfl
  | cons s ss ih =>
    obtain ⟨ds, rest, t, rfl, hds, hcount, hends, hrest⟩ := h
    obtain ⟨ds', rest', t', rfl, hds', hcount', hends', hrest'⟩ := h'
    obtain ⟨rfl, -⟩ := hds.unique hds' hends hends' (hcount.trans hcount'.symm)
    rw [ih hrest hrest']

end

lemma Rounds.eq_replicate (hq : ss ≠ [] → q = 0) (h : Rounds attempt n q ss p dss) :
    dss = replicate ss.length [] := by
  induction ss generalizing p dss with
  | nil => exact h
  | cons s ss ih =>
    obtain ⟨ds, rest, t, rfl, -, hcount, hends, hrest⟩ := h
    have hzero := hq (cons_ne_nil s ss)
    rw [hends.eq_nil_of_count (hcount.trans hzero), ih (fun _ => hzero) hrest, length_cons, replicate_succ]

end

/-! ### Replaying in rounds -/

/-- The places that a replay keeps in each of `k` rounds, when every round keeps `q` of them. -/
def replayRounds (n q : ℕ) : (k p : ℕ) → (record : List ℕ) → List (List ℕ)
  | 0, _, _ => []
  | k + 1, p, record =>
    let ds := replay n q p record
    places n true p ds :: replayRounds n q k (stop n p ds) (record.drop (ds.count false))

lemma flatten_replayRounds (q k : ℕ) (record : List ℕ) :
    (replayRounds n q k p record).flatten = places n true p (replay n (k * q) p record) := by
  induction k generalizing p record with
  | zero => simp [replayRounds]
  | succ k ih => rw [replayRounds, flatten_cons, ih, Nat.succ_mul, Nat.add_comm, replay_add, places_append]

lemma map_length_replayRounds : (replayRounds n q k p record).map length = replicate k q := by
  induction k generalizing p record with
  | zero => rfl
  | succ k ih => rw [replayRounds, map_cons, ih, length_places, (replay_spec _ _ _ _).1, replicate_succ]

/-- The places that a walk keeps in each of its rounds. -/
def keptRounds (n : ℕ) : ℕ → List (List Bool) → List (List ℕ)
  | _, [] => []
  | p, ds :: dss => places n true p ds :: keptRounds n (stop n p ds) dss

lemma flatten_keptRounds (dss : List (List Bool)) : (keptRounds n p dss).flatten = places n true p dss.flatten := by
  induction dss generalizing p with
  | nil => rfl
  | cons ds dss ih => rw [keptRounds, flatten_cons, flatten_cons, places_append, ih]

lemma keptRounds_replicate (k : ℕ) : keptRounds n p (replicate k []) = replicate k [] := by
  induction k generalizing p with
  | zero => rfl
  | succ k ih => rw [replicate_succ, keptRounds, stop, ih, replicate_succ, places_nil]

lemma Rounds.map_length (h : Rounds attempt n q ss p dss) :
    (keptRounds n p dss).map length = replicate ss.length q := by
  induction ss generalizing p dss with
  | nil =>
    obtain rfl := h
    rfl
  | cons s ss ih =>
    obtain ⟨ds, rest, t, rfl, -, hcount, -, hrest⟩ := h
    rw [keptRounds, map_cons, ih hrest, length_places, hcount, length_cons, replicate_succ]

/-- Round by round, the replay of attempts keeps the same places exactly when every skip comes in time. -/
lemma Rounds.replay_eq_iff (hp : p < n) (h : Rounds attempt n q ss p dss) :
    replayRounds n q ss.length p (places n false p dss.flatten) = keptRounds n p dss ↔
      RunsBelow n true 0 dss.flatten := by
  rw [← CircularWalk.replay_eq_iff hp h.ends (h.runsBelow_false hp), h.count, eq_iff_flatten_eq,
    flatten_replayRounds, flatten_keptRounds, map_length_replayRounds, h.map_length]
  exact and_iff_left rfl

end CircularWalk

end Blocx
