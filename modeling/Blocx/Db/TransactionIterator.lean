import Blocx.Db.Transaction
import Mathlib.Data.List.Perm.Subperm
import Mathlib.Data.List.TakeWhile

/-!
# Iterators of a transaction

`CDBTransactionIterator` (`dbwrapper.h`): two iterators, one over the writes of the transaction and one over the parent,
of which the one with the smaller key provides the current one. The iterator over the parent steps over the keys that
the transaction has deleted or written.

The parent's iterator is only known by its operations: it is the iterator of the database or that of another
transaction. An iterator over a transaction visits the keys of the parent with the changes of the transaction laid over
(`CDBTransaction.iterates`), so the argument can be used once more for a transaction over the transaction. Neither
assertion of `Next` fails, and the loop of `SkipDeletedAndOverwritten` ends.
-/

namespace Blocx

open List OrderedStore

structure CDBTransactionIterator (V σ : Type) where
  /-- What is left of the writes: `end()` if nothing is. -/
  transactionIt : List (DbKey × ValueHolder V)
  parentIt : σ
  parentKey : DbKey := []
  /-- The parent's iterator provides the current key. -/
  curIsParent : Bool := false

namespace CDBTransaction

variable {V σ : Type} (tx : CDBTransaction V) (parent : IterOps DbKey σ)

def skipDeletedAndOverwrittenLoop : ℕ → CDBTransactionIterator V σ → Option (CDBTransactionIterator V σ)
  | 0, _ => none
  | fuel + 1, it =>
    if parent.valid it.parentIt then
      let parentKey := parent.getKey it.parentIt
      if !tx.deleted parentKey && !tx.written parentKey then some { it with parentKey }
      else do
        let parentIt ← parent.next it.parentIt
        skipDeletedAndOverwrittenLoop fuel { it with parentKey, parentIt }
    else some it

/-- `SkipDeletedAndOverwritten`: the loop can only step over so many keys. -/
def skipDeletedAndOverwritten (it : CDBTransactionIterator V σ) : Option (CDBTransactionIterator V σ) :=
  tx.skipDeletedAndOverwrittenLoop parent (tx.writes.entries.length + tx.deletes.entries.length + 1) it

def decideCur (it : CDBTransactionIterator V σ) : CDBTransactionIterator V σ :=
  match it.transactionIt, parent.valid it.parentIt with
  | _ :: _, false => { it with curIsParent := false }
  | [], true => { it with curIsParent := true }
  | entry :: _, true => { it with curIsParent := !decide (entry.1 < it.parentKey) }
  | [], false => it

/-- The operations of the iterator of a transaction. -/
def iterOps : IterOps DbKey (CDBTransactionIterator V σ) where
  new := { transactionIt := [], parentIt := parent.new }
  valid it := !it.transactionIt.isEmpty || parent.valid it.parentIt
  getKey it :=
    if it.transactionIt.isEmpty && !parent.valid it.parentIt then []
    else if it.curIsParent then it.parentKey
    else (it.transactionIt.head?.map Prod.fst).getD []
  next it :=
    if it.transactionIt.isEmpty && !parent.valid it.parentIt then some it
    else if it.curIsParent then
      if parent.valid it.parentIt then do
        let parentIt ← parent.next it.parentIt
        let it ← tx.skipDeletedAndOverwritten parent { it with parentIt }
        some (decideCur parent it)
      else none
    else
      match it.transactionIt with
      | [] => none
      | _ :: transactionIt => some (decideCur parent { it with transactionIt })
  seek it ssKey := do
    let parentIt ← parent.seek it.parentIt ssKey
    let it ← tx.skipDeletedAndOverwritten parent { it with transactionIt := tx.writes.seek ssKey, parentIt }
    some (decideCur parent it)

/-- `GetValue`, with the `Read` of the transaction. -/
def getValue {T : Type} (read : DbKey → T → Except DbException (Option V)) (it : CDBTransactionIterator V σ)
    (type : T) :
    Except DbException (Option V) :=
  if !(tx.iterOps parent).valid it then .ok none else read ((tx.iterOps parent).getKey it) type

/-! ### Keys that are skipped -/

/-- The transaction has not changed the key. -/
def unchanged (k : DbKey) : Bool := !tx.deleted k && !tx.written k

variable {tx : CDBTransaction V} {parent : IterOps DbKey σ} {it : CDBTransactionIterator V σ}
variable {ws ps : List DbKey} {w p : DbKey}

/-- The keys that the parent's iterator stands on. -/
abbrev ParentVisits (parent : IterOps DbKey σ) (s : σ) (ps : List DbKey) : Prop := parent.Visits (fun _ _ => True) s ps

/-- The parent's iterator is at the key that was read from it, and the transaction has not changed that key. -/
structure Skipped (tx : CDBTransaction V) (parent : IterOps DbKey σ) (it : CDBTransactionIterator V σ)
    (ps : List DbKey) : Prop where
  visits : ParentVisits parent it.parentIt ps
  parentKey : ∀ p ∈ ps.head?, it.parentKey = p ∧ tx.unchanged p = true

/-- With enough fuel, the loop ends at the next key that is unchanged. -/
lemma skipDeletedAndOverwrittenLoop_spec {fuel : ℕ} (hvisits : ParentVisits parent it.parentIt ps)
    (hfuel : (ps.takeWhile fun p => !tx.unchanged p).length < fuel) :
    ∃ it', tx.skipDeletedAndOverwrittenLoop parent fuel it = some it' ∧ it'.transactionIt = it.transactionIt ∧
      Skipped tx parent it' (ps.dropWhile fun p => !tx.unchanged p) := by
  induction ps generalizing it fuel with
  | nil =>
    obtain ⟨fuel, rfl⟩ : ∃ n, fuel = n + 1 := ⟨fuel - 1, by omega⟩
    have hvalid : parent.valid it.parentIt = false := hvisits
    refine ⟨it, ?_, rfl, hvisits, by simp⟩
    rw [skipDeletedAndOverwrittenLoop, hvalid]
    rfl
  | cons p ps ih =>
    obtain ⟨fuel, rfl⟩ : ∃ n, fuel = n + 1 := ⟨fuel - 1, by omega⟩
    obtain ⟨hvalid, hkey, -, s', hnext, hrest⟩ := id hvisits
    rw [skipDeletedAndOverwrittenLoop, if_pos hvalid]
    rw [hkey]
    by_cases hp : tx.unchanged p = true
    · refine ⟨{ it with parentKey := p }, if_pos hp, rfl, ?_⟩
      rw [dropWhile_cons_of_neg (by simp [hp])]
      exact ⟨hvisits, by simpa using hp⟩
    · rw [takeWhile_cons_of_pos (by simp [hp]), length_cons] at hfuel
      rw [dropWhile_cons_of_pos (by simp [hp]), if_neg (show ¬ (!tx.deleted p && !tx.written p) = true from hp), hnext]
      have hrest' : ParentVisits parent ({ it with parentKey := p, parentIt := s' } :
        CDBTransactionIterator V σ).parentIt
          ps := hrest
      exact ih hrest' (Nat.lt_of_succ_lt_succ hfuel)

lemma length_takeWhile_le (hps : ps.Pairwise (· < ·)) :
    (ps.takeWhile fun p => !tx.unchanged p).length ≤ tx.writes.entries.length + tx.deletes.entries.length := by
  have hnodup : (ps.takeWhile fun p => !tx.unchanged p).Nodup :=
    (hps.imp ne_of_lt).sublist (takeWhile_sublist _)
  have hsubset : (ps.takeWhile fun p => !tx.unchanged p) ⊆ tx.writes.keys ++ tx.deletes.keys := by
    intro p hp
    have hchanged := mem_takeWhile_imp hp
    rw [mem_append, OrderedStore.mem_keys, OrderedStore.mem_keys]
    unfold unchanged deleted written at hchanged
    cases hw : (tx.writes.get p).isSome
    · right
      simpa [hw] using hchanged
    · exact Or.inl rfl
  have hle := (subperm_of_subset hnodup hsubset).length_le
  simpa [OrderedStore.keys] using hle

lemma skipDeletedAndOverwritten_spec (tx : CDBTransaction V) (hvisits : ParentVisits parent it.parentIt ps)
    (hps : ps.Pairwise (· < ·)) :
    ∃ it', tx.skipDeletedAndOverwritten parent it = some it' ∧ it'.transactionIt = it.transactionIt ∧
      Skipped tx parent it' (ps.dropWhile fun p => !tx.unchanged p) :=
  skipDeletedAndOverwrittenLoop_spec hvisits (Nat.lt_succ_of_le (length_takeWhile_le hps))

/-! ### The keys that are visited -/

/-- The iterator has writes `ws` left, its parent's iterator stands on `ps`, and the choice between them is made. -/
structure Between (tx : CDBTransaction V) (parent : IterOps DbKey σ) (it : CDBTransactionIterator V σ)
    (ws ps : List DbKey) : Prop extends Skipped tx parent it ps where
  writes : it.transactionIt.map Prod.fst = ws
  curIsParent : decideCur parent it = it

lemma decideCur_decideCur : decideCur parent (decideCur parent it) = decideCur parent it := by
  obtain ⟨transactionIt, parentIt, parentKey, curIsParent⟩ := it
  cases hvalid : parent.valid parentIt <;> cases transactionIt <;> simp [decideCur, hvalid]

/-- `DecideCur` only makes the choice. -/
lemma decideCur_fields : (decideCur parent it).transactionIt = it.transactionIt ∧
    (decideCur parent it).parentIt = it.parentIt ∧ (decideCur parent it).parentKey = it.parentKey := by
  unfold decideCur
  split <;> exact ⟨rfl, rfl, rfl⟩

lemma Skipped.between (h : Skipped tx parent it ps) :
    Between tx parent (decideCur parent it) (it.transactionIt.map Prod.fst) ps := by
  obtain ⟨hwrites, hparentIt, hparentKey⟩ := decideCur_fields
  refine ⟨⟨?_, ?_⟩, ?_, decideCur_decideCur⟩
  · rw [hparentIt]
    exact h.visits
  · rw [hparentKey]
    exact h.parentKey
  · rw [hwrites]

/-- The parent provides the current key if there is no write left, or its key is the smaller one. -/
lemma Between.curIsParent_eq (h : Between tx parent it ws (p :: ps)) :
    it.curIsParent = ws.head?.all fun w => !decide (w < p) := by
  have hvalid : parent.valid it.parentIt = true := h.visits.1
  have hkey : it.parentKey = p := (h.parentKey p rfl).1
  rw [← h.curIsParent, ← h.writes]
  unfold decideCur
  rw [hvalid]
  cases it.transactionIt with
  | nil => rfl
  | cons entry rest => simp [hkey]

lemma Between.curIsParent_nil (h : Between tx parent it (w :: ws) []) : it.curIsParent = false := by
  have hvalid : parent.valid it.parentIt = false := h.visits
  rw [← h.curIsParent]
  have hwrites := h.writes
  unfold decideCur
  rw [hvalid]
  cases hit : it.transactionIt with
  | nil => simp [hit] at hwrites
  | cons entry rest => rfl

/-- A step where the transaction provides the current key. -/
lemma Between.next_write (h : Between tx parent it (w :: ws) ps) (hcur : it.curIsParent = false) :
    (tx.iterOps parent).valid it = true ∧ (tx.iterOps parent).getKey it = w ∧
      ∃ it', (tx.iterOps parent).next it = some it' ∧ Between tx parent it' ws ps := by
  obtain ⟨entry, rest, hit, hw, hrest⟩ := map_eq_cons_iff.mp h.writes
  refine ⟨by simp [iterOps, hit], by simp [iterOps, hit, hcur, hw], decideCur parent { it with transactionIt := rest },
    ?_, ?_⟩
  · simp [iterOps, hit, hcur]
  · rw [← hrest]
    exact Skipped.between ⟨h.visits, h.parentKey⟩

/-- A step where the parent does. -/
lemma Between.next_parent (h : Between tx parent it ws (p :: ps)) (hps : ps.Pairwise (· < ·))
    (hcur : it.curIsParent = true) :
    (tx.iterOps parent).valid it = true ∧ (tx.iterOps parent).getKey it = p ∧
      ∃ it', (tx.iterOps parent).next it = some it' ∧
        Between tx parent it' ws (ps.dropWhile fun p => !tx.unchanged p) := by
  obtain ⟨hvalid, -, -, s', hnext, hrest⟩ := h.visits
  have hrest' : ParentVisits parent ({ it with parentIt := s' } : CDBTransactionIterator V σ).parentIt ps := hrest
  obtain ⟨it', hskip, hwrites, hskipped⟩ := skipDeletedAndOverwritten_spec tx hrest' hps
  have hbetween := hskipped.between
  rw [hwrites] at hbetween
  rw [hcur] at hskip
  refine ⟨by simp [iterOps, hvalid], ?_, decideCur parent it', ?_, ?_⟩
  · simp [iterOps, hvalid, hcur, (h.parentKey p rfl).1]
  · simp [iterOps, hvalid, hcur, hnext, hskip]
  · rw [← h.writes]
    exact hbetween

lemma filter_dropWhile_not {f : DbKey → Bool} (l : List DbKey) : (l.dropWhile fun p => !f p).filter f = l.filter f := by
  induction l with
  | nil => rfl
  | cons p l ih =>
    by_cases hp : f p = true
    · rw [dropWhile_cons_of_neg (by simp [hp])]
    · rw [dropWhile_cons_of_pos (by simp [hp]), ih, filter_cons_of_neg hp]

/-- From there on the iterator visits the writes that are left and the unchanged keys of the parent, merged. -/
lemma Between.visits_merge (h : Between tx parent it ws ps) (hws : ∀ w ∈ ws, tx.written w = true)
    (hps : ps.Pairwise (· < ·)) :
    (tx.iterOps parent).Visits (fun _ _ => True) it (merge ws (ps.filter tx.unchanged)) := by
  induction hn : ws.length + ps.length using Nat.strong_induction_on generalizing it ws ps with
  | _ n ih =>
  subst hn
  have hwrite : ∀ w ws', ws = w :: ws' → it.curIsParent = false →
      (tx.iterOps parent).Visits (fun _ _ => True) it (w :: merge ws' (ps.filter tx.unchanged)) := by
    rintro w ws' rfl hcur
    obtain ⟨hvalid, hkey, it', hnext, hbetween⟩ := h.next_write hcur
    exact ⟨hvalid, hkey, trivial, it', hnext,
      ih _ (by simp) hbetween (fun w' hw' => hws w' (mem_cons_of_mem _ hw')) hps rfl⟩
  have hparent : ∀ p ps', ps = p :: ps' → it.curIsParent = true →
      (tx.iterOps parent).Visits (fun _ _ => True) it (p :: merge ws (ps'.filter tx.unchanged)) := by
    rintro p ps' rfl hcur
    have hps' := (pairwise_cons.mp hps).2
    obtain ⟨hvalid, hkey, it', hnext, hbetween⟩ := h.next_parent hps' hcur
    have hsub := dropWhile_sublist (l := ps') fun p => !tx.unchanged p
    have hvisits := ih _ (by have := hsub.length_le; simp; omega) hbetween hws (hps'.sublist hsub) rfl
    rw [filter_dropWhile_not] at hvisits
    exact ⟨hvalid, hkey, trivial, it', hnext, hvisits⟩
  rcases ps with _ | ⟨p, ps⟩
  · rcases ws with _ | ⟨w, ws⟩
    · have hvalid : parent.valid it.parentIt = false := h.visits
      have hnil : it.transactionIt = [] := map_eq_nil_iff.mp h.writes
      rw [filter_nil, nil_merge]
      show (tx.iterOps parent).valid it = false
      simp [iterOps, hvalid, hnil]
    · simpa using hwrite w ws rfl h.curIsParent_nil
  · have hunchanged : tx.unchanged p = true := (h.parentKey p rfl).2
    have hcur := h.curIsParent_eq
    rw [filter_cons_of_pos hunchanged]
    rcases ws with _ | ⟨w, ws⟩
    · simpa using hparent p ps rfl hcur
    · rw [cons_merge_cons]
      by_cases hlt : w < p
      · rw [if_pos (decide_eq_true hlt.le)]
        have hvisits := hwrite w ws rfl (by simpa [hlt] using hcur)
        rwa [filter_cons_of_pos hunchanged] at hvisits
      · -- the keys differ, since the parent's is not written
        have hne : w ≠ p := by
          rintro rfl
          simp [unchanged, hws w mem_cons_self] at hunchanged
        rw [if_neg (by simpa using lt_of_le_of_ne (not_lt.mp hlt) hne.symm)]
        exact hparent p ps rfl (by simpa [hlt] using hcur)

/-! ### The store that is visited -/

/-- An iterator over the transaction visits the store of the parent with the changes laid over. -/
lemma iterates {W : Type} (below : OrderedStore DbKey W) {store : OrderedStore DbKey V} {f : DbKey → Option V}
    (hparent : parent.Iterates below) (hf : ∀ k, (f k).isSome = (below.get k).isSome)
    (hdisjoint : ∀ k, tx.deleted k = true → tx.writes.get k = none) (hstore : ∀ k, store.get k = tx.overlay f k) :
    (tx.iterOps parent).Iterates store := by
  intro it k
  obtain ⟨s, hseek, hvisits⟩ := hparent it.parentIt k
  have hvisits' : ParentVisits parent
      ({ it with transactionIt := tx.writes.seek k, parentIt := s } : CDBTransactionIterator V σ).parentIt
      (below.keysFrom k) := hvisits
  obtain ⟨it', hskip, hwrites, hskipped⟩ := skipDeletedAndOverwritten_spec tx hvisits' (below.pairwise_keysFrom k)
  have hbetween := hskipped.between
  rw [hwrites] at hbetween
  have hmerge := hbetween.visits_merge (fun w hw => (mem_keysFrom.mp hw).1)
    ((below.pairwise_keysFrom k).sublist (dropWhile_sublist _))
  rw [filter_dropWhile_not] at hmerge
  refine ⟨decideCur parent it', by simp [iterOps, hseek, hskip], ?_⟩
  have hkeys : merge (tx.writes.keysFrom k) ((below.keysFrom k).filter tx.unchanged) = store.keysFrom k := by
    apply eq_of_mem_iff
    · refine pairwise_lt_merge (tx.writes.pairwise_keysFrom k) ((below.pairwise_keysFrom k).filter _) fun w hw hw' => ?_
      have hwritten : tx.written w = true := (mem_keysFrom.mp hw).1
      simp [unchanged, hwritten] at hw'
    · exact store.pairwise_keysFrom k
    · intro k'
      rw [mem_merge, mem_filter, mem_keysFrom, mem_keysFrom, mem_keysFrom, hstore, ← hf]
      unfold unchanged overlay change written
      cases hd : tx.deleted k' with
      | true => simp [hdisjoint k' hd]
      | false => cases tx.writes.get k' <;> simp
  rw [← hkeys]
  exact hmerge

end CDBTransaction

end Blocx
