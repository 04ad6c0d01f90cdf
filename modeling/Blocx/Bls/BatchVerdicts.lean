import Blocx.Bls.BatchVerifier

/-!
# Verdicts of the batch verifier

What `Verify` adds to the bad sources and the bad messages, in terms of the verdicts on batches: when the whole batch
fails, a source is bad if it is the only one or if its own batch fails, and a message is bad if a bad source pushed it
and it does not verify by itself. The only assumption is that a batch of one message is verified as that message.

A run of pushes is cut into sub-batches (`subBatches`), and the verdicts of the run are those of its sub-batches.
-/

namespace Blocx

open List

open CBLSBatchVerifier

variable {SourceId MessageId Sig PubKey : Type} {scheme : BlsScheme Sig PubKey} {secure : Bool}
  {v : CBLSBatchVerifier SourceId MessageId Sig PubKey} {msg : Message MessageId Sig PubKey}
  {msgs : List (Message MessageId Sig PubKey)}

variable (msgs) in
lemma msgHash_of_mem_byMessageHash : ∀ hash ∈ byMessageHash msgs, ∀ msg ∈ hash.2, msg.msgHash = hash.1 := by
  rintro ⟨hash, ms⟩ hmem msg hmsg
  obtain ⟨rfl, -⟩ := mem_grouped.mp hmem
  obtain ⟨m, -, heq⟩ := mem_map.mp (mem_valuesAt.mp hmsg)
  cases heq
  rfl

lemma mem_flatMap_byMessageHash : msg ∈ (byMessageHash msgs).flatMap Prod.snd ↔ msg ∈ msgs := by
  rw [byMessageHash, mem_flatMap_grouped]
  constructor
  · rintro ⟨hash, hmem⟩
    obtain ⟨m, hm, heq⟩ := mem_map.mp hmem
    cases heq
    exact hm
  · exact fun hmem => ⟨msg.msgHash, mem_map_of_mem hmem⟩

section Verdicts

variable {source : SourceId × List (Message MessageId Sig PubKey)}

/-! ### One call -/

/-- Only the verdicts differ: the sources of `P` and the messages of `Q` have been found bad. -/
structure Finds (v v' : CBLSBatchVerifier SourceId MessageId Sig PubKey) (P : SourceId → Prop) (Q : MessageId → Prop) :
    Prop where
  same : v' = { v with badSources := v'.badSources, badMessages := v'.badMessages }
  sources : ∀ s, s ∈ v'.badSources ↔ s ∈ v.badSources ∨ P s
  messages : ∀ id, id ∈ v'.badMessages ↔ id ∈ v.badMessages ∨ Q id

/-- A loop finds what its turns find. -/
lemma Finds.foldl {α : Type} {f : CBLSBatchVerifier SourceId MessageId Sig PubKey → α →
      CBLSBatchVerifier SourceId MessageId Sig PubKey} {l : List α} {P : α → SourceId → Prop} {Q : α → MessageId → Prop}
    (hstep : ∀ a ∈ l, ∀ S M, Finds { v with badSources := S, badMessages := M }
      (f { v with badSources := S, badMessages := M } a) (P a) (Q a)) :
    Finds v (l.foldl f v) (fun s => ∃ a ∈ l, P a s) fun id => ∃ a ∈ l, Q a id := by
  induction l generalizing v with
  | nil => exact ⟨rfl, by simp, by simp⟩
  | cons a l ih =>
    rw [forall_mem_cons] at hstep
    have hturn : Finds v (f v a) (P a) (Q a) := hstep.1 v.badSources v.badMessages
    obtain ⟨hsame, hsources, hmessages⟩ := hturn
    obtain ⟨hsame', hsources', hmessages'⟩ := ih (v := f v a) fun b hb S M => by
      rw [hsame]
      exact hstep.2 b hb S M
    rw [foldl_cons]
    generalize l.foldl f (f v a) = w at hsame' hsources' hmessages' ⊢
    rw [hsame] at hsame'
    refine ⟨hsame', fun s => ?_, fun id => ?_⟩
    · rw [hsources', hsources]
      simp only [mem_cons, exists_eq_or_imp, or_assoc]
    · rw [hmessages', hmessages]
      simp only [mem_cons, exists_eq_or_imp, or_assoc]

variable [DecidableEq MessageId]

def batchHolds (scheme : BlsScheme Sig PubKey) (secure : Bool) (msgs : List (Message MessageId Sig PubKey)) : Bool :=
  verifyBatch scheme secure (byMessageHash msgs)

def SingleBatches (scheme : BlsScheme Sig PubKey) (MessageId : Type) [DecidableEq MessageId] (secure : Bool) : Prop :=
  ∀ msg : Message MessageId Sig PubKey, batchHolds scheme secure [msg] = msg.verifies scheme

lemma finds_verifyMessage :
    Finds v (verifyMessage scheme v msg) (fun _ => False) fun id => msg.msgId = id ∧ msg.verifies scheme = false := by
  unfold verifyMessage
  split_ifs with hbad hverifies
  · exact ⟨rfl, by simp, fun id => (or_iff_left_of_imp fun h => h.1 ▸ hbad).symm⟩
  · refine ⟨rfl, by simp, fun id => ?_⟩
    rw [Finset.mem_insert, or_comm, eq_comm, (Bool.not_eq_true' _).mp hverifies, and_iff_left rfl]
  · exact ⟨rfl, by simp, fun id => (or_iff_left fun h => hverifies ((Bool.not_eq_true' _).mpr h.2)).symm⟩

def SourceFails (scheme : BlsScheme Sig PubKey) (v : CBLSBatchVerifier SourceId MessageId Sig PubKey)
    (source : SourceId × List (Message MessageId Sig PubKey)) : Prop :=
  v.messagesBySource.length = 1 ∨ batchHolds scheme v.secureVerification source.2 = false

lemma sourceFails_iff : SourceFails scheme v source ↔
    ¬(v.messagesBySource.length ≠ 1 ∧ verifyBatch scheme v.secureVerification (byMessageHash source.2)) := by
  unfold SourceFails batchHolds
  rw [not_and_or, not_not, Bool.not_eq_true]

variable [DecidableEq SourceId]

/-- A source that fails has its bad messages found. -/
lemma finds_verifySource (hfallback : v.perMessageFallback)
    (hsingle : ∀ msg, source.2 = [msg] → SourceFails scheme v source → msg.verifies scheme = false) :
    Finds v (verifySource scheme v source) (fun s => s = source.1 ∧ SourceFails scheme v source) fun id =>
      SourceFails scheme v source ∧ ∃ msg ∈ source.2, msg.msgId = id ∧ msg.verifies scheme = false := by
  unfold verifySource
  by_cases hfails : SourceFails scheme v source
  · rw [if_neg (sourceFails_iff.mp hfails)]
    simp only [hfails, and_true, true_and]
    rw [if_pos hfallback]
    unfold verifyMessages
    split
    · next msg heq =>
      refine ⟨rfl, fun s => by rw [Finset.mem_insert, or_comm], fun id => ?_⟩
      rw [heq, Finset.mem_insert, or_comm, eq_comm]
      simp only [mem_singleton, exists_eq_left, hsingle msg heq hfails, and_true]
    · obtain ⟨hsame, hsources, hmessages⟩ := Finds.foldl (v := { v with badSources := insert source.1 v.badSources })
        (f := verifyMessage scheme) (l := source.2) fun msg _ S M => finds_verifyMessage
      refine ⟨hsame, fun s => ?_, hmessages⟩
      rw [hsources, Finset.mem_insert, or_comm (a := s = _)]
      simp
  · rw [if_pos (not_not.mp (mt sourceFails_iff.mpr hfails))]
    simp only [hfails, and_false, false_and]
    exact ⟨rfl, by simp, by simp⟩

end Verdicts

/-! ### Runs -/

variable {push : SourceId × Message MessageId Sig PubKey} {s : SourceId} {known : Set (Message MessageId Sig PubKey)}
  {batch pushes : List (SourceId × Message MessageId Sig PubKey)}

def SameMessages (pushes : List (SourceId × Message MessageId Sig PubKey)) : Prop :=
  ∀ p ∈ pushes, ∀ q ∈ pushes, p.2.msgId = q.2.msgId → p.2 = q.2

lemma SameMessages.of_subset {pushes' : List (SourceId × Message MessageId Sig PubKey)} (h : SameMessages pushes)
    (hsub : pushes' ⊆ pushes) : SameMessages pushes' := fun p hp q hq => h p (hsub hp) q (hsub hq)

lemma sameMessages_of_nodup (h : (batch.map (·.2.msgId)).Nodup) : SameMessages batch :=
  fun _ hp _ hq hid => congrArg Prod.snd (inj_on_of_nodup_map h hp hq hid)

lemma nodup_valuesAt [DecidableEq SourceId] (h : (batch.map (·.2.msgId)).Nodup) :
    ((valuesAt batch s).map (·.msgId)).Nodup := by
  unfold valuesAt
  rw [map_map]
  exact h.sublist (filter_sublist.map _)

variable [DecidableEq MessageId]

/-- A batch of different messages, out of those that are known, verifies exactly if all its messages do. -/
structure ExactBatches (scheme : BlsScheme Sig PubKey) (secure : Bool) (known : Set (Message MessageId Sig PubKey)) :
    Prop where
  single : SingleBatches scheme MessageId secure
  batchHolds : ∀ msgs : List (Message MessageId Sig PubKey), (∀ msg ∈ msgs, msg ∈ known) →
    (msgs.map (·.msgId)).Nodup → batchHolds scheme secure msgs = msgs.all (·.verifies scheme)

lemma ExactBatches.mono (h : ExactBatches scheme secure known) {known' : Set (Message MessageId Sig PubKey)}
    (hsub : known' ⊆ known) : ExactBatches scheme secure known' :=
  ⟨h.single, fun msgs hknown => h.batchHolds msgs fun msg hmem => hsub (hknown msg hmem)⟩

lemma ExactBatches.eq_false_iff (h : ExactBatches scheme secure known)
    (hknown : ∀ msg ∈ msgs, msg ∈ known) (hnodup : (msgs.map (·.msgId)).Nodup) :
    Blocx.batchHolds scheme secure msgs = false ↔ ∃ msg ∈ msgs, msg.verifies scheme = false := by
  rw [h.batchHolds msgs hknown hnodup, all_eq_false]
  simp only [Bool.not_eq_true]

variable [Ord MessageId]

/-- The messages of a batch of pushes, each once and in the order of their ids. -/
def batchMessages (batch : List (SourceId × Message MessageId Sig PubKey)) : List (Message MessageId Sig PubKey) :=
  batch.foldl (fun msgs push => if msgs.any fun m => m.msgId = push.2.msgId then msgs
    else insertOrdered (fun m => (compare m.msgId push.2.msgId).isLT) push.2 msgs) []

/-- The batches that are verified together, with the one that is open: a new one is begun after each that has reached
the size, and the last one may be smaller. -/
def subBatches (subBatchSize : ℕ) (batch : List (SourceId × Message MessageId Sig PubKey)) :
    List (SourceId × Message MessageId Sig PubKey) → List (List (SourceId × Message MessageId Sig PubKey))
  | [] => [batch]
  | push :: pushes =>
    if subBatchSize ≠ 0 ∧ (batchMessages (batch ++ [push])).length ≥ subBatchSize then
      (batch ++ [push]) :: subBatches subBatchSize [] pushes
    else subBatches subBatchSize (batch ++ [push]) pushes

lemma batchMessages_append_singleton (batch : List (SourceId × Message MessageId Sig PubKey))
    (push : SourceId × Message MessageId Sig PubKey) : batchMessages (batch ++ [push]) =
      if (batchMessages batch).any fun m => m.msgId = push.2.msgId then batchMessages batch
      else insertOrdered (fun m => (compare m.msgId push.2.msgId).isLT) push.2 (batchMessages batch) := by
  unfold batchMessages
  rw [foldl_append]
  rfl

lemma mem_batchMessages (hsame : SameMessages batch) : msg ∈ batchMessages batch ↔ ∃ s, (s, msg) ∈ batch := by
  induction batch using reverseRecOn generalizing msg with
  | nil => simp [batchMessages]
  | append_singleton batch push ih =>
    replace ih : ∀ msg, msg ∈ batchMessages batch ↔ ∃ s, (s, msg) ∈ batch :=
      fun msg => ih (hsame.of_subset (subset_append_left _ _))
    rw [batchMessages_append_singleton]
    simp only [mem_append, mem_singleton, exists_or]
    split_ifs with hany
    · rw [ih, or_iff_left_of_imp]
      -- the message is there under its id already
      rintro ⟨s, rfl⟩
      obtain ⟨m, hm, hid⟩ := any_eq_true.mp hany
      obtain ⟨s', hm⟩ := (ih m).mp hm
      obtain rfl : m = msg := hsame (s', m) (mem_append_left _ hm) (s, msg)
        (mem_append_right _ (mem_singleton_self _)) (of_decide_eq_true hid)
      exact ⟨s', hm⟩
    · rw [mem_insertOrdered, ih, or_comm]
      refine or_congr_right ⟨fun h => ⟨push.1, by rw [h]⟩, ?_⟩
      rintro ⟨s, rfl⟩
      rfl

lemma nodup_batchMessages : ((batchMessages batch).map (·.msgId)).Nodup := by
  induction batch using reverseRecOn with
  | nil => exact nodup_nil
  | append_singleton batch push ih =>
    rw [batchMessages_append_singleton]
    split_ifs with hany
    · exact ih
    · rw [((perm_insertOrdered _ _ _).map _).nodup_iff, map_cons, nodup_cons]
      refine ⟨fun hmem => hany ?_, ih⟩
      obtain ⟨m, hm, hid⟩ := mem_map.mp hmem
      exact any_eq_true.mpr ⟨m, hm, decide_eq_true hid⟩

lemma length_batchMessages (hnodup : (batch.map (·.2.msgId)).Nodup) : (batchMessages batch).length = batch.length := by
  have hperm : (batchMessages batch).Perm (batch.map Prod.snd) := by
    have hvalues : ((batch.map Prod.snd).map (·.msgId)).Nodup := by rwa [map_map]
    refine (perm_ext_iff_of_nodup nodup_batchMessages.of_map hvalues.of_map).mpr fun msg => ?_
    rw [mem_batchMessages (sameMessages_of_nodup hnodup)]
    simp
  rw [hperm.length_eq, length_map]

lemma subset_of_mem_subBatches {subBatchSize : ℕ} {b : List (SourceId × Message MessageId Sig PubKey)}
    (h : b ∈ subBatches subBatchSize batch pushes) : b ⊆ batch ++ pushes := by
  induction pushes generalizing batch with
  | nil =>
    rw [mem_singleton.mp h]
    exact subset_append_left _ _
  | cons push pushes ih =>
    rw [append_cons]
    unfold subBatches at h
    split_ifs at h
    · obtain _ | ⟨_, h⟩ := h
      · exact subset_append_left _ _
      · exact List.Subset.trans (ih h) (subset_append_right _ _)
    · exact ih h

variable [DecidableEq SourceId]

/-- A source of a batch is found bad: the batch does not verify, nor do the messages of the source, unless it is the
only one. -/
def FlagsSource (scheme : BlsScheme Sig PubKey) (secure : Bool)
    (batch : List (SourceId × Message MessageId Sig PubKey)) (s : SourceId) : Prop :=
  batchHolds scheme secure (batchMessages batch) = false ∧ s ∈ batch.map Prod.fst ∧
    ((∀ push ∈ batch, push.1 = s) ∨ batchHolds scheme secure (valuesAt batch s) = false)

/-- A message of a batch is found bad: it does not verify, and one of the sources that pushed it is found bad. -/
def FlagsMessage (scheme : BlsScheme Sig PubKey) (secure : Bool)
    (batch : List (SourceId × Message MessageId Sig PubKey)) (id : MessageId) : Prop :=
  ∃ push ∈ batch, push.2.msgId = id ∧ push.2.verifies scheme = false ∧ FlagsSource scheme secure batch push.1

lemma batchMessages_of_valuesAt (hsame : SameMessages batch)
    (hsole : ∀ push ∈ batch, push.1 = s) (hvalues : valuesAt batch s = [msg]) : batchMessages batch = [msg] := by
  have hmem : ∀ m, m ∈ batchMessages batch ↔ m = msg := by
    intro m
    rw [mem_batchMessages hsame, ← mem_singleton, ← hvalues, mem_valuesAt]
    constructor
    · rintro ⟨s', hm⟩
      rwa [← hsole _ hm]
    · exact fun hm => ⟨s, hm⟩
  by_contra hne
  obtain hnil | ⟨m, hm, hother⟩ := (nodup_batchMessages.of_map.ne_singleton_iff msg).mp hne
  · have := (hmem msg).mpr rfl
    rw [hnil] at this
    cases this
  · exact hother ((hmem m).mp hm)

lemma ExactBatches.flagsSource_iff (hexact : ExactBatches scheme secure known)
    (hknown : ∀ push ∈ batch, push.2 ∈ known) (hnodup : (batch.map (·.2.msgId)).Nodup) :
    FlagsSource scheme secure batch s ↔ ∃ push ∈ batch, push.1 = s ∧ push.2.verifies scheme = false := by
  unfold FlagsSource
  have hbatch : ∀ msg, msg ∈ batchMessages batch ↔ ∃ s, (s, msg) ∈ batch :=
    fun msg => mem_batchMessages (sameMessages_of_nodup hnodup)
  rw [hexact.eq_false_iff ?_ nodup_batchMessages, hexact.eq_false_iff ?_ (nodup_valuesAt hnodup)]
  rotate_left
  · exact fun msg hmem => hknown _ (mem_valuesAt.mp hmem)
  · intro msg hmem
    obtain ⟨s', hmem⟩ := (hbatch msg).mp hmem
    exact hknown _ hmem
  simp only [hbatch, mem_valuesAt]
  constructor
  · rintro ⟨⟨msg, ⟨s', hmem⟩, hmsg⟩, -, hsole | ⟨msg', hmem', hmsg'⟩⟩
    · exact ⟨_, hmem, hsole _ hmem, hmsg⟩
    · exact ⟨_, hmem', rfl, hmsg'⟩
  · rintro ⟨⟨s, msg⟩, hmem, rfl, hmsg⟩
    exact ⟨⟨msg, ⟨s, hmem⟩, hmsg⟩, mem_map_of_mem hmem, .inr ⟨msg, hmem, hmsg⟩⟩

/-- The messages that do not verify are found. -/
lemma ExactBatches.flagsMessage_iff (hexact : ExactBatches scheme secure known)
    (hknown : ∀ push ∈ batch, push.2 ∈ known) (hnodup : (batch.map (·.2.msgId)).Nodup) {id : MessageId} :
    FlagsMessage scheme secure batch id ↔ ∃ push ∈ batch, push.2.msgId = id ∧ push.2.verifies scheme = false := by
  unfold FlagsMessage
  simp only [hexact.flagsSource_iff hknown hnodup]
  refine exists_congr fun push => and_congr_right fun hmem => and_congr_right fun _ =>
    and_iff_left_of_imp fun hmsg => ?_
  exact ⟨push, hmem, rfl, hmsg⟩

variable [Ord SourceId]

/-- The verifier has collected a batch. -/
structure Collected (v : CBLSBatchVerifier SourceId MessageId Sig PubKey)
    (batch : List (SourceId × Message MessageId Sig PubKey)) : Prop where
  messages : v.messages = batchMessages batch
  messagesBySource : v.messagesBySource = grouped batch

variable (h : Collected v batch) (hfallback : v.perMessageFallback)
  (hsingle : SingleBatches scheme MessageId v.secureVerification)
  (hexact : ExactBatches scheme v.secureVerification known)

include h

lemma Collected.emplaceMessage (hsame : SameMessages (batch ++ [push])) : v.emplaceMessage push.1 push.2 =
      { v with messages := batchMessages (batch ++ [push]), messagesBySource := grouped (batch ++ [push]) } := by
  unfold CBLSBatchVerifier.emplaceMessage
  rw [batchMessages_append_singleton, grouped_append_singleton, ← h.messagesBySource]
  cases hfind : v.messages.find? fun m => m.msgId = push.2.msgId with
  | some m =>
    have hid : m.msgId = push.2.msgId := by simpa using find?_some hfind
    have hmem := mem_of_find?_eq_some hfind
    rw [h.messages] at hmem
    obtain ⟨s, hm⟩ := (mem_batchMessages (hsame.of_subset (subset_append_left _ _))).mp hmem
    obtain rfl : m = push.2 :=
      hsame (s, m) (mem_append_left _ hm) push (mem_append_right _ (mem_singleton_self push)) hid
    rw [if_pos (any_eq_true.mpr ⟨_, hmem, decide_eq_true rfl⟩), ← h.messages]
  | none =>
    rw [← h.messages, if_neg]
    intro hany
    obtain ⟨m, hm, hid⟩ := any_eq_true.mp hany
    exact absurd hid (find?_eq_none.mp hfind m hm)

include hfallback hsingle

/-- A call of `Verify` finds the sources and messages of the batch that are flagged. -/
lemma Collected.verify (hsame : SameMessages batch) :
    Finds v (v.verify scheme) (FlagsSource scheme v.secureVerification batch)
      (FlagsMessage scheme v.secureVerification batch) := by
  unfold CBLSBatchVerifier.verify
  rw [h.messages, h.messagesBySource, ← batchHolds]
  cases hholds : batchHolds scheme v.secureVerification (batchMessages batch) with
  | true =>
    have hnone : ∀ s, ¬FlagsSource scheme v.secureVerification batch s := by
      rintro s ⟨hfails, -⟩
      rw [hholds] at hfails
      cases hfails
    refine ⟨rfl, fun s => (or_iff_left (hnone s)).symm, fun id => (or_iff_left ?_).symm⟩
    rintro ⟨push, -, -, -, hflags⟩
    exact hnone _ hflags
  | false =>
    have hfails : ∀ s ms, (s, ms) ∈ grouped batch → (SourceFails scheme v (s, ms) ↔
        FlagsSource scheme v.secureVerification batch s) := by
      intro s ms hmem
      have hs := mem_keys_grouped.mp (mem_map_of_mem (f := Prod.fst) hmem)
      obtain ⟨rfl, -⟩ := mem_grouped.mp hmem
      unfold SourceFails FlagsSource
      rw [h.messagesBySource, length_grouped_eq_one hs, and_iff_right hholds, and_iff_right hs]
    have hone : ∀ source ∈ grouped batch, ∀ msg, source.2 = [msg] → SourceFails scheme v source →
        msg.verifies scheme = false := by
      rintro ⟨s, _⟩ hsource msg rfl hsourceFails
      obtain ⟨-, -, hsole | hfails⟩ := (hfails s _ hsource).mp hsourceFails
      · rw [batchMessages_of_valuesAt hsame hsole (mem_grouped.mp hsource).1.symm] at hholds
        rw [← hsingle, hholds]
      · rw [← (mem_grouped.mp hsource).1] at hfails
        rw [← hsingle, hfails]
    obtain ⟨hbatch, hsources, hmessages⟩ := Finds.foldl (v := v) (f := verifySource scheme) (l := grouped batch)
      (P := fun source s => s = source.1 ∧ SourceFails scheme v source)
      (Q := fun source id => SourceFails scheme v source ∧ ∃ msg ∈ source.2, msg.msgId = id ∧
        msg.verifies scheme = false)
      fun source hsource S M =>
        finds_verifySource (v := { v with badSources := S, badMessages := M }) hfallback (hone source hsource)
    refine ⟨hbatch, fun s => (hsources s).trans (or_congr_right ?_), fun id => (hmessages id).trans (or_congr_right ?_)⟩
    · constructor
      · rintro ⟨⟨s, ms⟩, hmem, rfl, hsourceFails⟩
        exact (hfails s ms hmem).mp hsourceFails
      · intro hflags
        obtain ⟨⟨_, ms⟩, hmem, rfl⟩ := mem_map.mp (mem_keys_grouped.mpr hflags.2.1)
        exact ⟨_, hmem, rfl, (hfails _ ms hmem).mpr hflags⟩
    · constructor
      · rintro ⟨⟨s, ms⟩, hmem, hsourceFails, msg, hmsg, hid, hverifies⟩
        have hpush := hmsg
        rw [(mem_grouped.mp hmem).1, mem_valuesAt] at hpush
        exact ⟨(s, msg), hpush, hid, hverifies, (hfails s ms hmem).mp hsourceFails⟩
      · rintro ⟨⟨s, msg⟩, hpush, hid, hverifies, hflags⟩
        have hmsg := mem_valuesAt.mpr hpush
        have hmem := mem_grouped.mpr ⟨rfl, ne_nil_of_mem hmsg⟩
        exact ⟨_, hmem, (hfails s _ hmem).mpr hflags, msg, hmsg, hid, hverifies⟩

/-- A batch that is full has been verified, and others are kept. -/
structure PushTurn (v v' : CBLSBatchVerifier SourceId MessageId Sig PubKey)
    (batch : List (SourceId × Message MessageId Sig PubKey)) (full : Prop) (flagsSource : SourceId → Prop)
    (flagsMessage : MessageId → Prop) : Prop where
  secureVerification : v'.secureVerification = v.secureVerification
  perMessageFallback : v'.perMessageFallback = v.perMessageFallback
  subBatchSize : v'.subBatchSize = v.subBatchSize
  verified : full → Collected v' [] ∧ (∀ s, s ∈ v'.badSources ↔ s ∈ v.badSources ∨ flagsSource s) ∧
    ∀ id, id ∈ v'.badMessages ↔ id ∈ v.badMessages ∨ flagsMessage id
  kept : ¬full → Collected v' batch ∧ v'.badSources = v.badSources ∧ v'.badMessages = v.badMessages

lemma Collected.pushMessage (hsame : SameMessages (batch ++ [push])) :
    PushTurn v (v.pushMessage scheme push) (batch ++ [push])
      (v.subBatchSize ≠ 0 ∧ (batchMessages (batch ++ [push])).length ≥ v.subBatchSize)
      (FlagsSource scheme v.secureVerification (batch ++ [push]))
      (FlagsMessage scheme v.secureVerification (batch ++ [push])) := by
  unfold CBLSBatchVerifier.pushMessage
  rw [h.emplaceMessage hsame]
  dsimp only
  split_ifs with hfull
  · obtain ⟨hbatch, hsources, hmessages⟩ := Collected.verify
      (v := { v with messages := _, messagesBySource := _ }) ⟨rfl, rfl⟩ hfallback hsingle hsame
    exact ⟨(congrArg secureVerification hbatch :), (congrArg perMessageFallback hbatch :),
      (congrArg subBatchSize hbatch :), fun _ => ⟨⟨rfl, rfl⟩, hsources, hmessages⟩, absurd hfull⟩
  · exact ⟨rfl, rfl, rfl, fun h => absurd h hfull, fun _ => ⟨⟨rfl, rfl⟩, rfl, rfl⟩⟩

/-- The verdicts of a run of pushes, followed by `Verify`, are those on its sub-batches. -/
lemma verify_foldl_pushMessage (hsame : SameMessages (batch ++ pushes)) :
    (∀ s, s ∈ ((pushes.foldl (pushMessage scheme) v).verify scheme).badSources ↔ s ∈ v.badSources ∨
      ∃ b ∈ subBatches v.subBatchSize batch pushes, FlagsSource scheme v.secureVerification b s) ∧
    ∀ id, id ∈ ((pushes.foldl (pushMessage scheme) v).verify scheme).badMessages ↔ id ∈ v.badMessages ∨
      ∃ b ∈ subBatches v.subBatchSize batch pushes, FlagsMessage scheme v.secureVerification b id := by
  induction pushes generalizing v batch with
  | nil =>
    rw [append_nil] at hsame
    obtain ⟨-, hsources, hmessages⟩ := h.verify hfallback hsingle hsame
    simp only [subBatches, mem_singleton, exists_eq_left]
    exact ⟨hsources, hmessages⟩
  | cons push pushes ih =>
    rw [append_cons] at hsame
    obtain ⟨hsecure, hfallback', hsize, hverified, hkept⟩ :=
      h.pushMessage hfallback hsingle (hsame.of_subset (subset_append_left _ _))
    rw [foldl_cons, subBatches]
    split_ifs with hfull
    · obtain ⟨hcollected, hsources, hmessages⟩ := hverified hfull
      have hrest := ih hcollected (hfallback'.trans hfallback) (hsecure ▸ hsingle)
        (hsame.of_subset (subset_append_right _ _))
      rw [hsize, hsecure] at hrest
      simp only [mem_cons, exists_eq_or_imp, ← or_assoc]
      exact ⟨fun s => by rw [hrest.1, hsources], fun id => by rw [hrest.2, hmessages]⟩
    · obtain ⟨hcollected, hsources, hmessages⟩ := hkept hfull
      have hrest := ih hcollected (hfallback'.trans hfallback) (hsecure ▸ hsingle) hsame
      rwa [hsize, hsecure, hsources, hmessages] at hrest

/-! ### Runs over different messages -/

omit hsingle

include hexact

/-- A call of `Verify` finds the sources and messages of the batch that do not verify. -/
lemma Collected.verify_exact (hknown : ∀ push ∈ batch, push.2 ∈ known) (hnodup : (batch.map (·.2.msgId)).Nodup) :
    (∀ s, s ∈ (v.verify scheme).badSources ↔
      s ∈ v.badSources ∨ ∃ push ∈ batch, push.1 = s ∧ push.2.verifies scheme = false) ∧
    ∀ id, id ∈ (v.verify scheme).badMessages ↔
      id ∈ v.badMessages ∨ ∃ push ∈ batch, push.2.msgId = id ∧ push.2.verifies scheme = false := by
  obtain ⟨-, hsources, hmessages⟩ := h.verify hfallback hexact.single (sameMessages_of_nodup hnodup)
  exact ⟨fun s => by rw [hsources, hexact.flagsSource_iff hknown hnodup],
    fun id => by rw [hmessages, hexact.flagsMessage_iff hknown hnodup]⟩

/-- A turn of a run over different messages. -/
lemma Collected.pushMessage_exact
    (hknown : ∀ p ∈ batch ++ [push], p.2 ∈ known) (hnodup : ((batch ++ [push]).map (·.2.msgId)).Nodup) :
    PushTurn v (v.pushMessage scheme push) (batch ++ [push])
      (v.subBatchSize ≠ 0 ∧ batch.length + 1 ≥ v.subBatchSize)
      (fun s => ∃ p ∈ batch ++ [push], p.1 = s ∧ p.2.verifies scheme = false)
      (fun id => ∃ p ∈ batch ++ [push], p.2.msgId = id ∧ p.2.verifies scheme = false) := by
  have hturn := h.pushMessage hfallback hexact.single (sameMessages_of_nodup hnodup)
  rw [length_batchMessages hnodup, length_append, length_singleton] at hturn
  have hverified := hturn.verified
  simp only [hexact.flagsSource_iff hknown hnodup, hexact.flagsMessage_iff hknown hnodup] at hverified
  exact { hturn with verified := hverified }

end Blocx
