import Blocx.Bls.BatchVerdicts
import Mathlib.Algebra.BigOperators.Group.Finset.Basic

/-!
# The equation of a batch

Signatures as elements of a commutative group, in which every key has one valid signature for each hash, and an
aggregate verifies when it is the sum of the valid signatures. Then a batch verifies when the errors of its messages,
the differences between their signatures and the valid ones, add up to zero: in insecure mode the errors of all
messages, in secure mode those of each layer, the messages that are last, second to last and so on among those with the
same hash.

So errors may cancel. A batch with an invalid message can verify, and then the message is not found. What remains of the
equivalence with verifying the messages one by one is that what is found bad is bad, and that a message is found bad
exactly when neither the errors of its batch nor those of a source that pushed it add up to zero.
-/

namespace Blocx

open List

open CBLSBatchVerifier Message

variable {SourceId MessageId Sig PubKey A : Type} {secure : Bool} {aggregate : A → A → A}
  {msg : Message MessageId Sig PubKey} {msgs : List (Message MessageId Sig PubKey)}
  {hashes : List (Uint256 × List (Message MessageId Sig PubKey))}

/-! ### Messages of a batch -/

section

variable {dups : Finset MessageId}

/-- The messages at a place from the end among those with their hash. -/
def batchLayer (k : ℕ) (hashes : List (Uint256 × List (Message MessageId Sig PubKey))) :
    List (Message MessageId Sig PubKey) :=
  hashes.filterMap fun hash => hash.2.reverse[k]?

/-- Messages by their hash, as far as `VerifyBatchSecure` has come. -/
structure HashesWf (hashes : List (Uint256 × List (Message MessageId Sig PubKey))) : Prop where
  nodup : (hashes.map Prod.fst).Nodup
  ne_nil : ∀ hash ∈ hashes, hash.2 ≠ []
  msgHash : ∀ hash ∈ hashes, ∀ msg ∈ hash.2, msg.msgHash = hash.1
  same : ∀ hash ∈ hashes, ∀ msg ∈ hash.2, ∀ hash' ∈ hashes, ∀ msg' ∈ hash'.2, msg.msgId = msg'.msgId → msg = msg'

lemma hashesWf_byMessageHash (hsame : Set.InjOn msgId {m | m ∈ msgs}) : HashesWf (byMessageHash msgs) := by
  have hmem : ∀ hash ∈ byMessageHash msgs, ∀ msg ∈ hash.2, msg ∈ msgs := fun hash hhash msg hmsg =>
    mem_flatMap_byMessageHash.mp (mem_flatMap.mpr ⟨hash, hhash, hmsg⟩)
  exact ⟨nodup_keys_grouped _, fun hash hhash => (mem_grouped.mp hhash).2, msgHash_of_mem_byMessageHash msgs,
    fun hash hhash msg hmsg hash' hhash' msg' hmsg' =>
      hsame (hmem hash hhash msg hmsg) (hmem hash' hhash' msg' hmsg')⟩

lemma HashesWf.nodup_ids (h : HashesWf hashes) : ((batchLayer 0 hashes).map (·.msgId)).Nodup := by
  unfold batchLayer
  rw [List.Nodup, pairwise_map, pairwise_filterMap]
  refine (pairwise_map.mp h.nodup).imp_of_mem fun {hash hash'} hmem hmem' hne msg hmsg msg' hmsg' heq => hne ?_
  have hin : msg ∈ hash.2 := mem_reverse.mp (mem_of_getElem? hmsg)
  have hin' : msg' ∈ hash'.2 := mem_reverse.mp (mem_of_getElem? hmsg')
  rw [← h.msgHash hash hmem msg hin, ← h.msgHash hash' hmem' msg' hin',
    h.same hash hmem msg hin hash' hmem' msg' hin' heq]

lemma HashesWf.pop (h : HashesWf hashes) : HashesWf (popMessages hashes) := by
  have hmem : ∀ hash ∈ popMessages hashes, hash.2 ≠ [] ∧ ∃ hash' ∈ hashes, hash.1 = hash'.1 ∧ hash.2 ⊆ hash'.2 := by
    intro hash hhash
    obtain ⟨hhash, hne⟩ := mem_filter.mp hhash
    obtain ⟨hash', hhash', rfl⟩ := mem_map.mp hhash
    exact ⟨by simpa using hne, hash', hhash', rfl, dropLast_subset _⟩
  refine ⟨?_, fun hash hhash => (hmem hash hhash).1, ?_, ?_⟩
  · refine (filter_sublist.map Prod.fst).nodup ?_
    rw [map_map]
    exact h.nodup
  · intro hash hhash msg hmsg
    obtain ⟨-, hash', hhash', heq, hsub⟩ := hmem hash hhash
    rw [heq]
    exact h.msgHash hash' hhash' msg (hsub hmsg)
  · intro hash hhash msg hmsg hash₂ hhash₂ msg₂ hmsg₂
    obtain ⟨-, hash', hhash', -, hsub⟩ := hmem hash hhash
    obtain ⟨-, hash₂', hhash₂', -, hsub₂⟩ := hmem hash₂ hhash₂
    exact h.same hash' hhash' msg (hsub hmsg) hash₂' hhash₂' msg₂ (hsub₂ hmsg₂)

lemma popMessages_cons {hash : Uint256 × List (Message MessageId Sig PubKey)} : popMessages (hash :: hashes) =
      if hash.2.dropLast = [] then popMessages hashes else (hash.1, hash.2.dropLast) :: popMessages hashes := by
  unfold popMessages
  rw [map_cons, filter_cons]
  split_ifs with hne hnil hnil
  · simp [hnil] at hne
  · rfl
  · rfl
  · exact absurd (isEmpty_iff.mp (by simpa using hne)) hnil

lemma length_popMessages (h : ∀ hash ∈ hashes, hash.2 ≠ []) :
    ((popMessages hashes).map fun hash => hash.2.length).sum + hashes.length =
      (hashes.map fun hash => hash.2.length).sum := by
  induction hashes with
  | nil => rfl
  | cons hash hashes ih =>
    rw [forall_mem_cons] at h
    have hpos := length_pos_of_ne_nil h.1
    have hrest := ih h.2
    have hlast : hash.2.dropLast.length = hash.2.length - 1 := length_dropLast
    rw [popMessages_cons, map_cons, sum_cons, length_cons]
    split_ifs with hnil
    · rw [hnil, length_nil] at hlast
      omega
    · rw [map_cons, sum_cons]
      dsimp only
      omega

lemma batchLayer_popMessages {k : ℕ} : batchLayer k (popMessages hashes) = batchLayer (k + 1) hashes := by
  induction hashes with
  | nil => rfl
  | cons hash hashes ih =>
    have hnext : hash.2.dropLast.reverse[k]? = hash.2.reverse[k + 1]? := by
      rw [← tail_reverse, getElem?_tail]
    rw [popMessages_cons]
    unfold batchLayer at ih ⊢
    rw [filterMap_cons]
    split_ifs with hnil
    · rw [hnil, reverse_nil, getElem?_nil] at hnext
      rw [ih, ← hnext]
    · rw [filterMap_cons, ih]
      rw [hnext]

lemma foldl_aggregateWith_eq_none {agg : Option A} {l : List A} :
    l.foldl (aggregateWith aggregate) agg = none ↔ agg = none ∧ l = [] := by
  induction l generalizing agg with
  | nil => exact (and_iff_left rfl).symm
  | cons a l ih =>
    rw [foldl_cons, ih]
    refine iff_of_false (fun h => ?_) fun h => cons_ne_nil a l h.2
    cases agg <;> exact Option.some_ne_none _ h.1

variable [DecidableEq MessageId]

/-- The messages that are aggregated: the first ones with their id. -/
def firstMessages (dups : Finset MessageId) : List (Message MessageId Sig PubKey) → List (Message MessageId Sig PubKey)
  | [] => []
  | msg :: msgs =>
    if msg.msgId ∈ dups then firstMessages dups msgs else msg :: firstMessages (insert msg.msgId dups) msgs

lemma mem_of_mem_firstMessages (h : msg ∈ firstMessages dups msgs) : msg ∈ msgs ∧ msg.msgId ∉ dups := by
  induction msgs generalizing dups with
  | nil => cases h
  | cons m msgs ih =>
    unfold firstMessages at h
    split_ifs at h with hm
    · exact ⟨mem_cons_of_mem m (ih h).1, (ih h).2⟩
    · obtain _ | ⟨_, h⟩ := h
      · exact ⟨mem_cons_self, hm⟩
      · exact ⟨mem_cons_of_mem m (ih h).1, fun hmem => (ih h).2 (Finset.mem_insert_of_mem hmem)⟩

lemma nodup_firstMessages (dups : Finset MessageId) (msgs : List (Message MessageId Sig PubKey)) :
    (firstMessages dups msgs).Nodup := by
  induction msgs generalizing dups with
  | nil => exact nodup_nil
  | cons m msgs ih =>
    unfold firstMessages
    split_ifs
    · exact ih dups
    · exact nodup_cons.mpr ⟨fun h => (mem_of_mem_firstMessages h).2 (Finset.mem_insert_self _ _), ih _⟩

/-- Every message is aggregated once, when messages with the same id are the same. -/
lemma mem_firstMessages (hsame : Set.InjOn msgId {m | m ∈ msgs}) :
    msg ∈ firstMessages dups msgs ↔ msg ∈ msgs ∧ msg.msgId ∉ dups := by
  refine ⟨mem_of_mem_firstMessages, ?_⟩
  induction msgs generalizing dups with
  | nil => exact fun h => h.1
  | cons m msgs ih =>
    rintro ⟨hmem, hnew⟩
    replace ih : ∀ dups, msg ∈ msgs ∧ msg.msgId ∉ dups → msg ∈ firstMessages dups msgs := fun dups =>
      ih fun a ha b hb => hsame (mem_cons_of_mem m ha) (mem_cons_of_mem m hb)
    unfold firstMessages
    split_ifs with hm
    · obtain _ | ⟨_, hmem⟩ := hmem
      · exact absurd hm hnew
      · exact ih dups ⟨hmem, hnew⟩
    · by_cases hid : msg.msgId = m.msgId
      · rw [hsame hmem mem_cons_self hid]
        exact mem_cons_self
      · obtain _ | ⟨_, hmem⟩ := hmem
        · exact absurd rfl hid
        · refine mem_cons_of_mem m (ih _ ⟨hmem, fun hmem => ?_⟩)
          obtain h | h := Finset.mem_insert.mp hmem
          · exact hid h
          · exact hnew h

lemma firstMessages_append {msgs' : List (Message MessageId Sig PubKey)} : firstMessages dups (msgs ++ msgs') =
      firstMessages dups msgs ++ firstMessages (dups ∪ (msgs.map (·.msgId)).toFinset) msgs' := by
  induction msgs generalizing dups with
  | nil => simp [firstMessages]
  | cons m msgs ih =>
    rw [cons_append, firstMessages, firstMessages, map_cons, toFinset_cons]
    split_ifs with hm
    · rw [ih, Finset.union_insert, Finset.insert_eq_of_mem (Finset.mem_union_left _ hm)]
    · rw [ih, cons_append, Finset.insert_union, Finset.union_insert]

lemma foldl_aggregateMessage (scheme : BlsScheme Sig PubKey) (agg : BatchAggregate MessageId Sig PubKey)
    (msgs : List (Message MessageId Sig PubKey)) : msgs.foldl (aggregateMessage scheme) agg = {
      aggSig := ((firstMessages agg.dups msgs).map (·.sig)).foldl (aggregateWith scheme.aggregateSig) agg.aggSig
      dups := agg.dups ∪ (msgs.map (·.msgId)).toFinset
      aggPubKey := ((firstMessages agg.dups msgs).map (·.pubKey)).foldl (aggregateWith scheme.aggregatePubKey)
        agg.aggPubKey } := by
  induction msgs generalizing agg with
  | nil => simp [firstMessages]
  | cons msg msgs ih =>
    rw [foldl_cons, ih, aggregateMessage, firstMessages, map_cons, toFinset_cons]
    split_ifs with hm
    · rw [Finset.union_insert, Finset.insert_eq_of_mem (Finset.mem_union_left _ hm)]
    · rw [Finset.union_insert, Finset.insert_union]
      rfl

end

/-! ### Signatures in a group -/

section

variable [AddCommGroup Sig]

/-- The scheme in a group: `valid` is the valid signature of a key for a hash. -/
structure GroupScheme (scheme : BlsScheme Sig PubKey) (valid : PubKey → Uint256 → Sig) : Prop where
  /-- Signatures are added. -/
  aggregateSig : ∀ a b, scheme.aggregateSig a b = a + b
  /-- The signature of an aggregate key is the sum of the signatures. -/
  aggregatePubKey : ∀ a b hash, valid (scheme.aggregatePubKey a b) hash = valid a hash + valid b hash
  /-- There is one valid signature. -/
  verifyInsecure : ∀ sig pubKey hash, scheme.verifyInsecure sig pubKey hash ↔ sig = valid pubKey hash
  /-- An aggregate over different hashes is valid if it is the sum of the valid signatures. -/
  verifyInsecureAggregated : ∀ sig pubKeys hashes, pubKeys.length = hashes.length → hashes.Nodup →
    (scheme.verifyInsecureAggregated sig pubKeys hashes ↔ sig = (zipWith valid pubKeys hashes).sum)

variable (valid : PubKey → Uint256 → Sig)

/-- The valid signature of a message. -/
def Message.validSig (msg : Message MessageId Sig PubKey) : Sig := valid msg.pubKey msg.msgHash

/-- How far the signature of a message is from the valid one. -/
def Message.error (msg : Message MessageId Sig PubKey) : Sig := msg.sig - msg.validSig valid

lemma sum_error : (msgs.map (error valid)).sum = (msgs.map (·.sig)).sum - (msgs.map (validSig valid)).sum := by
  induction msgs with
  | nil => exact (sub_zero 0).symm
  | cons msg msgs ih =>
    rw [map_cons, map_cons, map_cons, sum_cons, sum_cons, sum_cons, ih, error]
    exact sub_add_sub_comm ..

lemma elim_foldl_aggregateWith (value : A → Sig) (hadd : ∀ a b, value (aggregate a b) = value a + value b)
    (agg : Option A) (l : List A) :
    (l.foldl (aggregateWith aggregate) agg).elim 0 value = agg.elim 0 value + (l.map value).sum := by
  induction l generalizing agg with
  | nil => exact (add_zero _).symm
  | cons a l ih =>
    rw [foldl_cons, ih, map_cons, sum_cons, ← add_assoc]
    cases agg with
    | none => exact congrArg (· + _) (zero_add _).symm
    | some b => exact congrArg (· + _) (hadd b a)

variable [DecidableEq MessageId]

/-- The errors of a batch add up to zero: those of all its messages, or in secure mode those of each layer. -/
def ErrorsCancel [DecidableEq Sig] [DecidableEq PubKey] (secure : Bool) (msgs : List (Message MessageId Sig PubKey)) :
    Prop :=
  if secure then ∀ k, ((batchLayer k (byMessageHash msgs)).map (error valid)).sum = 0
  else ∑ msg ∈ msgs.toFinset, msg.error valid = 0

/-! ### Insecure batches -/

/-- The result of aggregating some of the messages, with keys for some of the hashes. -/
structure AggregateResult (scheme : BlsScheme Sig PubKey) (valid : PubKey → Uint256 → Sig) (start : Option Sig)
    (new : List (Message MessageId Sig PubKey)) (hashes : List Uint256)
    (result : Option Sig × List PubKey × List Uint256) : Prop where
  sig : result.1 = (new.map (·.sig)).foldl (aggregateWith scheme.aggregateSig) start
  pubKeys : (zipWith valid result.2.1 result.2.2).sum = (new.map (validSig valid)).sum
  length : result.2.1.length = result.2.2.length
  sublist : result.2.2.Sublist hashes
  noHash : result.2.2 = [] ↔ new = []

variable {valid} {scheme : BlsScheme Sig PubKey} (hgroup : GroupScheme scheme valid)

lemma aggregateResult_aggregateLast (aggSig : Option Sig) (dups : Finset MessageId)
    (hhashes : ∀ hash ∈ hashes, ∀ msg ∈ hash.2, msg.msgHash = hash.1)
    (hnodup : ((batchLayer 0 hashes).map (·.msgId)).Nodup) (hdups : ∀ msg ∈ batchLayer 0 hashes, msg.msgId ∉ dups) :
    AggregateResult scheme valid aggSig (batchLayer 0 hashes) (hashes.map Prod.fst)
      (aggregateLast scheme aggSig dups hashes) := by
  induction hashes generalizing aggSig dups with
  | nil => exact ⟨rfl, rfl, rfl, .slnil, iff_of_true rfl rfl⟩
  | cons hash hashes ih =>
    obtain ⟨hash, msgs⟩ := hash
    rw [forall_mem_cons] at hhashes
    have hlast : msgs.reverse[0]? = msgs.getLast? := by rw [← head?_eq_getElem?, head?_reverse]
    unfold aggregateLast
    unfold batchLayer at ih hnodup hdups ⊢
    rw [filterMap_cons, hlast] at hnodup hdups ⊢
    cases hmsg : msgs.getLast? with
    | none =>
      rw [hmsg] at hnodup hdups
      obtain ⟨hsig, hpubKeys, hlength, hsublist, hnoHash⟩ := ih aggSig dups hhashes.2 hnodup hdups
      exact ⟨hsig, hpubKeys, hlength, hsublist.cons _, hnoHash⟩
    | some msg =>
      rw [hmsg] at hnodup hdups
      dsimp only at hnodup hdups ⊢
      rw [map_cons, nodup_cons] at hnodup
      rw [forall_mem_cons] at hdups
      rw [if_neg hdups.1]
      have hnew : ∀ m ∈ hashes.filterMap fun hash => hash.2.reverse[0]?, m.msgId ∉ insert msg.msgId dups := by
        intro m hm hmem
        obtain h | h := Finset.mem_insert.mp hmem
        · exact hnodup.1 (h ▸ mem_map_of_mem hm)
        · exact hdups.2 m hm h
      obtain ⟨hsig, hpubKeys, hlength, hsublist, -⟩ :=
        ih (aggregateWith scheme.aggregateSig aggSig msg.sig) (insert msg.msgId dups) hhashes.2 hnodup.2 hnew
      refine ⟨hsig, ?_, congrArg Nat.succ hlength, hsublist.cons_cons _,
        iff_of_false (cons_ne_nil _ _) (cons_ne_nil _ _)⟩
      rw [zipWith_cons_cons, sum_cons, hpubKeys, map_cons, sum_cons, validSig, hhashes.1 msg (mem_of_getLast? hmsg)]

include hgroup

omit [DecidableEq MessageId] in
/-- The aggregate verifies when the errors add up to zero. -/
lemma AggregateResult.verifyAggregated {new : List (Message MessageId Sig PubKey)} {hashes : List Uint256}
    {result : Option Sig × List PubKey × List Uint256} (h : AggregateResult scheme valid none new hashes result)
    (hnodup : hashes.Nodup) (hne : new ≠ []) :
    verifyAggregated scheme result.1 result.2.1 result.2.2 ↔ (new.map (error valid)).sum = 0 := by
  obtain ⟨aggSig, pubKeys, msgHashes⟩ := result
  obtain ⟨hsig, hpubKeys, hlength, hsublist, -⟩ := h
  cases aggSig with
  | none => exact absurd (map_eq_nil_iff.mp (foldl_aggregateWith_eq_none.mp hsig.symm).2) hne
  | some sig =>
    have hvalue := elim_foldl_aggregateWith id hgroup.aggregateSig none (new.map (·.sig))
    rw [← hsig, map_id, Option.elim_none, zero_add] at hvalue
    rw [sum_error, sub_eq_zero, ← hvalue, ← hpubKeys]
    exact hgroup.verifyInsecureAggregated sig pubKeys msgHashes hlength (hsublist.nodup hnodup)

lemma aggregateResult_aggregateHashes (agg : BatchAggregate MessageId Sig PubKey)
    (hhashes : ∀ hash ∈ hashes, ∀ msg ∈ hash.2, msg.msgHash = hash.1) :
    AggregateResult scheme valid agg.aggSig (firstMessages agg.dups (hashes.flatMap Prod.snd)) (hashes.map Prod.fst)
      (aggregateHashes scheme agg hashes) := by
  induction hashes generalizing agg with
  | nil => exact ⟨rfl, rfl, rfl, .slnil, iff_of_true rfl rfl⟩
  | cons hash hashes ih =>
    obtain ⟨hash, msgs⟩ := hash
    rw [forall_mem_cons] at hhashes
    unfold aggregateHashes
    have hrest := ih (msgs.foldl (aggregateMessage scheme) { agg with aggPubKey := none }) hhashes.2
    rw [foldl_aggregateMessage] at hrest ⊢
    rw [flatMap_cons, firstMessages_append]
    dsimp only at hrest ⊢
    generalize aggregateHashes scheme _ hashes = rest at hrest ⊢
    obtain ⟨aggSig, pubKeys, msgHashes⟩ := rest
    obtain ⟨hsig, hpubKeys, hlength, hsublist, hnoHash⟩ := hrest
    have hvalid : (firstMessages agg.dups msgs).map (validSig valid) =
        ((firstMessages agg.dups msgs).map (·.pubKey)).map (valid · hash) := by
      rw [map_map]
      exact map_congr_left fun msg hmsg =>
        congrArg (valid msg.pubKey) (hhashes.1 msg (mem_of_mem_firstMessages hmsg).1)
    have hkeys := elim_foldl_aggregateWith (valid · hash) (hgroup.aggregatePubKey · · hash) none
      ((firstMessages agg.dups msgs).map (·.pubKey))
    split
    · next hkey =>
      -- the hash has only duplicates
      rw [map_eq_nil_iff.mp (foldl_aggregateWith_eq_none.mp hkey).2] at hsig ⊢
      exact ⟨hsig, hpubKeys, hlength, hsublist.cons _, hnoHash⟩
    · next aggPubKey hkey =>
      rw [hkey, ← hvalid, Option.elim_none, zero_add] at hkeys
      refine ⟨?_, ?_, congrArg Nat.succ hlength, hsublist.cons_cons _, ?_⟩
      · rw [hsig, map_append, foldl_append]
      · rw [zipWith_cons_cons, sum_cons, hpubKeys, map_append, sum_append, ← hkeys]
        rfl
      · refine iff_of_false (cons_ne_nil _ _) fun h => ?_
        rw [(append_eq_nil_iff.mp h).1] at hkey
        cases hkey

/-! ### Secure batches -/

lemma verifyBatchSecureStep_iff (h : HashesWf hashes) (hne : hashes ≠ []) :
    verifyBatchSecureStep scheme hashes ↔ ((batchLayer 0 hashes).map (error valid)).sum = 0 := by
  refine (aggregateResult_aggregateLast none ∅ h.msgHash h.nodup_ids fun _ _ =>
    Finset.notMem_empty _).verifyAggregated hgroup h.nodup ?_
  obtain ⟨hash, hashes, rfl⟩ := exists_cons_of_ne_nil hne
  obtain ⟨msgs, msg, hmsgs⟩ := (eq_nil_or_concat hash.2).resolve_left (h.ne_nil hash mem_cons_self)
  unfold batchLayer
  rw [filterMap_cons, hmsgs, concat_eq_append, reverse_append]
  exact cons_ne_nil _ _

lemma verifyBatchSecureLoop_iff {fuel : ℕ}
    (h : HashesWf hashes) (hfuel : (hashes.map fun hash => hash.2.length).sum ≤ fuel) :
    verifyBatchSecureLoop scheme fuel hashes ↔ ∀ k, ((batchLayer k hashes).map (error valid)).sum = 0 := by
  induction fuel generalizing hashes with
  | zero =>
    refine iff_of_true rfl fun k => ?_
    cases hashes with
    | nil => rfl
    | cons hash hashes =>
      have := length_pos_of_ne_nil (h.ne_nil hash mem_cons_self)
      rw [map_cons, sum_cons] at hfuel
      omega
  | succ fuel ih =>
    unfold verifyBatchSecureLoop
    by_cases hne : hashes = []
    · subst hne
      exact iff_of_true rfl fun k => rfl
    · rw [if_neg fun hempty => hne (isEmpty_iff.mp hempty), ← Nat.and_forall_add_one,
        ← verifyBatchSecureStep_iff hgroup h hne]
      simp only [← batchLayer_popMessages]
      have hlength := length_popMessages h.ne_nil
      have hpos := length_pos_of_ne_nil hne
      rw [← ih h.pop (by omega)]
      cases verifyBatchSecureStep scheme hashes <;> simp

omit [DecidableEq MessageId] in
lemma verifies_iff : msg.verifies scheme ↔ msg.error valid = 0 := by
  rw [error, sub_eq_zero]
  exact hgroup.verifyInsecure ..

variable [DecidableEq Sig] [DecidableEq PubKey]

/-- An insecure batch verifies when the errors of its messages add up to zero. -/
lemma batchHolds_insecure (hsame : Set.InjOn msgId {m | m ∈ msgs}) :
    batchHolds scheme false msgs ↔ ∑ msg ∈ msgs.toFinset, msg.error valid = 0 := by
  have hresult := aggregateResult_aggregateHashes hgroup {} (msgHash_of_mem_byMessageHash msgs)
  have hmem : ∀ msg, msg ∈ firstMessages (∅ : Finset MessageId) ((byMessageHash msgs).flatMap Prod.snd) ↔
      msg ∈ msgs := by
    intro msg
    rw [mem_firstMessages, mem_flatMap_byMessageHash, and_iff_left (Finset.notMem_empty _)]
    intro m hm m' hm'
    exact hsame (mem_flatMap_byMessageHash.mp hm) (mem_flatMap_byMessageHash.mp hm')
  have hsum : ((firstMessages ∅ ((byMessageHash msgs).flatMap Prod.snd)).map (error valid)).sum =
      ∑ msg ∈ msgs.toFinset, msg.error valid := by
    rw [← sum_toFinset _ (nodup_firstMessages _ _)]
    refine Finset.sum_congr (Finset.ext fun msg => ?_) fun _ _ => rfl
    rw [mem_toFinset, mem_toFinset, hmem]
  rw [← hsum]
  unfold batchHolds verifyBatch verifyBatchInsecure
  rw [if_neg Bool.false_ne_true]
  dsimp only
  split_ifs with hempty
  · rw [hresult.noHash.mp (isEmpty_iff.mp hempty)]
    exact iff_of_true rfl rfl
  · refine hresult.verifyAggregated hgroup (nodup_keys_grouped _) fun hnil => hempty ?_
    exact isEmpty_iff.mpr (hresult.noHash.mpr hnil)

lemma batchHolds_iff (hsame : Set.InjOn msgId {m | m ∈ msgs}) :
    batchHolds scheme secure msgs ↔ ErrorsCancel valid secure msgs := by
  cases secure with
  | false => exact batchHolds_insecure hgroup hsame
  | true => exact verifyBatchSecureLoop_iff hgroup (hashesWf_byMessageHash hsame) le_rfl

omit hgroup in
lemma errorsCancel_of_forall (h : ∀ msg ∈ msgs, msg.error valid = 0) : ErrorsCancel valid secure msgs := by
  cases secure with
  | false => exact Finset.sum_eq_zero fun msg hmsg => h msg (mem_toFinset.mp hmsg)
  | true =>
    intro k
    refine sum_eq_zero fun e he => ?_
    obtain ⟨msg, hmsg, rfl⟩ := mem_map.mp he
    obtain ⟨hash, hhash, hmsg⟩ := mem_filterMap.mp hmsg
    exact h msg (mem_flatMap_byMessageHash.mp (mem_flatMap.mpr ⟨hash, hhash, mem_reverse.mp (mem_of_getElem? hmsg)⟩))

omit hgroup in
lemma errorsCancel_singleton : ErrorsCancel valid secure [msg] ↔ msg.error valid = 0 := by
  refine ⟨fun h => ?_, fun h => errorsCancel_of_forall (by simpa using h)⟩
  cases secure with
  | false => simpa [ErrorsCancel] using h
  | true => simpa [batchLayer, byMessageHash, grouped, emplaceBack, insertOrdered] using h 0

/-! ### Runs -/

lemma singleBatches (secure : Bool) : SingleBatches scheme MessageId secure := by
  intro msg
  have hsame : Set.InjOn msgId {m | m ∈ [msg]} := by
    intro m hm m' hm' _
    rw [mem_singleton.mp hm, mem_singleton.mp hm']
  rw [Bool.eq_iff_iff, batchHolds_iff hgroup hsame, errorsCancel_singleton, verifies_iff hgroup]

/-- Batches of messages whose errors never cancel are verified as the messages are. -/
lemma exactBatches {known : Set (Message MessageId Sig PubKey)}
    (hknown : ∀ msgs : Finset (Message MessageId Sig PubKey), (∀ msg ∈ msgs, msg ∈ known) →
      ∑ msg ∈ msgs, msg.error valid = 0 → ∀ msg ∈ msgs, msg.error valid = 0) :
    ExactBatches scheme false known where
  single := singleBatches hgroup false
  batchHolds msgs hmsgs hnodup := by
    rw [Bool.eq_iff_iff, batchHolds_insecure hgroup fun m hm m' hm' => inj_on_of_nodup_map hnodup hm hm', all_eq_true]
    simp only [verifies_iff hgroup]
    constructor
    · intro hsum msg hmem
      exact hknown msgs.toFinset (fun m hm => hmsgs m (mem_toFinset.mp hm)) hsum msg (mem_toFinset.mpr hmem)
    · exact fun h => Finset.sum_eq_zero fun msg hmem => h msg (mem_toFinset.mp hmem)

end

section Verdicts

variable [DecidableEq SourceId] [DecidableEq MessageId] [Ord SourceId] [Ord MessageId]
  {pushes : List (SourceId × Message MessageId Sig PubKey)} [AddCommGroup Sig] [DecidableEq Sig] [DecidableEq PubKey]
  {valid : PubKey → Uint256 → Sig} {scheme : BlsScheme Sig PubKey}

/-- The errors of a batch do not cancel, nor do those of the messages of one of its sources, unless it is the only
one. -/
def ErrorsShow (valid : PubKey → Uint256 → Sig) (secure : Bool)
    (batch : List (SourceId × Message MessageId Sig PubKey)) (s : SourceId) : Prop :=
  ¬ErrorsCancel valid secure (batchMessages batch) ∧
    ((∀ push ∈ batch, push.1 = s) ∨ ¬ErrorsCancel valid secure (valuesAt batch s))

omit [Ord SourceId] in
lemma flagsSource_iff (hgroup : GroupScheme scheme valid) {batch : List (SourceId × Message MessageId Sig PubKey)}
    (hsame : SameMessages batch) {s : SourceId} :
    FlagsSource scheme secure batch s ↔ s ∈ batch.map Prod.fst ∧ ErrorsShow valid secure batch s := by
  have hbatch : Set.InjOn msgId {m | m ∈ batchMessages batch} := by
    intro m hm m' hm' hid
    obtain ⟨s, hm⟩ := (mem_batchMessages hsame).mp hm
    obtain ⟨s', hm'⟩ := (mem_batchMessages hsame).mp hm'
    exact hsame _ hm _ hm' hid
  have hsource : Set.InjOn msgId {m | m ∈ valuesAt batch s} := fun m hm m' hm' =>
    hsame _ (mem_valuesAt.mp hm) _ (mem_valuesAt.mp hm')
  unfold FlagsSource ErrorsShow
  rw [← batchHolds_iff hgroup hbatch, ← batchHolds_iff hgroup hsource, Bool.not_eq_true, Bool.not_eq_true]
  exact and_left_comm

/-- The verifier after a run of pushes and a call of `Verify`, with the fallback to single messages. -/
def verifiedRun (scheme : BlsScheme Sig PubKey) (secure : Bool) (subBatchSize : ℕ)
    (pushes : List (SourceId × Message MessageId Sig PubKey)) : CBLSBatchVerifier SourceId MessageId Sig PubKey :=
  (pushes.foldl (pushMessage scheme) {
    secureVerification := secure
    perMessageFallback := true
    subBatchSize := subBatchSize }).verify scheme

/-- What a run finds bad is bad. A message is found bad exactly when it is invalid and, in a sub-batch in which it was
pushed, neither the errors of the sub-batch cancel nor those of a source that pushed it there. -/
theorem batchVerifier_verdicts (hgroup : GroupScheme scheme valid) (secure : Bool) (subBatchSize : ℕ)
    (hsame : SameMessages pushes) :
    (∀ id, id ∈ (verifiedRun scheme secure subBatchSize pushes).badMessages ↔
      ∃ batch ∈ subBatches subBatchSize [] pushes, ∃ push ∈ batch,
        push.2.msgId = id ∧ push.2.verifies scheme = false ∧ ErrorsShow valid secure batch push.1) ∧
    (∀ id ∈ (verifiedRun scheme secure subBatchSize pushes).badMessages,
      ∃ push ∈ pushes, push.2.msgId = id ∧ push.2.verifies scheme = false) ∧
    ∀ s ∈ (verifiedRun scheme secure subBatchSize pushes).badSources,
      ∃ push ∈ pushes, push.1 = s ∧ push.2.verifies scheme = false := by
  have hbatches : ∀ b ∈ subBatches subBatchSize [] pushes, b ⊆ pushes := fun b hb => subset_of_mem_subBatches hb
  obtain ⟨hsources, hmessages⟩ := verify_foldl_pushMessage (v := {
    secureVerification := secure
    perMessageFallback := true
    subBatchSize := subBatchSize }) (show Collected _ [] from ⟨rfl, rfl⟩) rfl (singleBatches hgroup secure) hsame
  refine (and_iff_left_of_imp fun hiff => ⟨fun id hid => ?_, fun s hs => ?_⟩).mpr fun id => ?_
  · refine (hmessages id).trans ((or_iff_right (Finset.notMem_empty id)).trans ?_)
    refine exists_congr fun batch => and_congr_right fun hbatch => exists_congr fun push =>
      and_congr_right fun hpush => and_congr_right fun _ => and_congr_right fun _ => ?_
    rw [flagsSource_iff hgroup (hsame.of_subset (hbatches batch hbatch)),
      and_iff_right (mem_map_of_mem (f := Prod.fst) hpush)]
  · obtain ⟨batch, hbatch, push, hpush, hid, hverifies, -⟩ := (hiff id).mp hid
    exact ⟨push, hbatches batch hbatch hpush, hid, hverifies⟩
  · obtain ⟨batch, hbatch, hflags⟩ := ((hsources s).mp hs).resolve_left (Finset.notMem_empty s)
    have hsame' := hsame.of_subset (hbatches batch hbatch)
    obtain ⟨-, hcancel, hsource⟩ := (flagsSource_iff hgroup hsame').mp hflags
    -- some message of the source has an error, or the errors would cancel
    by_contra hnone
    push Not at hnone
    have hzero : ∀ push ∈ batch, push.1 = s → push.2.error valid = 0 := fun push hpush heq =>
      (verifies_iff hgroup).mp (Bool.not_eq_false _ ▸ hnone push (hbatches batch hbatch hpush) heq)
    obtain hsole | hsource := hsource
    · refine hcancel (errorsCancel_of_forall fun msg hmsg => ?_)
      obtain ⟨s', hmsg⟩ := (mem_batchMessages hsame').mp hmsg
      exact hzero (s', msg) hmsg (hsole _ hmsg)
    · exact hsource (errorsCancel_of_forall fun msg hmsg => hzero (s, msg) (mem_valuesAt.mp hmsg) rfl)

end Verdicts

/-! ### Errors that cancel -/

/-- Integers as signatures and keys: a key signs a hash with the product. -/
def toyScheme : BlsScheme ℤ ℤ where
  aggregateSig a b := a + b
  aggregatePubKey a b := a + b
  verifyInsecure sig pubKey hash := sig = pubKey * hash.toNat
  verifyInsecureAggregated sig pubKeys hashes :=
    sig = (zipWith (fun pubKey hash => pubKey * (hash.toNat : ℤ)) pubKeys hashes).sum

lemma groupScheme_toyScheme : GroupScheme toyScheme fun pubKey hash => pubKey * hash.toNat where
  aggregateSig _ _ := rfl
  aggregatePubKey a b _ := add_mul a b _
  verifyInsecure _ _ _ := decide_eq_true_iff
  verifyInsecureAggregated _ _ _ _ _ := decide_eq_true_iff

/-- A message with a signature that is off by a number. -/
def toyMessage (id : ℕ) (off : ℤ) : Message ℕ ℤ ℤ where
  msgId := id
  msgHash := id
  sig := 3 * (BitVec.ofNat 256 id).toNat + off
  pubKey := 3

theorem batchVerifier_verdicts_toyScheme :
    SameMessages [(7, toyMessage 0 1), (8, toyMessage 1 0), (8, toyMessage 0 1)] ∧
    (verifiedRun toyScheme false 2 [(7, toyMessage 0 1), (8, toyMessage 1 0), (8, toyMessage 0 1)]).badMessages = {0} ∧
    ∀ s ∈ (verifiedRun toyScheme false 2 [(7, toyMessage 0 1), (8, toyMessage 1 0), (8, toyMessage 0 1)]).badSources,
      ∃ push ∈ [(7, toyMessage 0 1), (8, toyMessage 1 0), (8, toyMessage 0 1)],
        push.1 = s ∧ push.2.verifies toyScheme = false := by
  have hsame : SameMessages [(7, toyMessage 0 1), (8, toyMessage 1 0), (8, toyMessage 0 1)] := by
    unfold SameMessages
    decide
  exact ⟨hsame, by decide, (batchVerifier_verdicts groupScheme_toyScheme false 2 hsame).2.2⟩

/-- Two messages that are both invalid, and that neither mode finds: their errors are 1 and -1. -/
theorem invalid_messages_not_found : GroupScheme toyScheme (fun pubKey hash => pubKey * hash.toNat) ∧
    SameMessages [(7, toyMessage 0 1), (8, toyMessage 1 (-1))] ∧
    (toyMessage 0 1).verifies toyScheme = false ∧ (toyMessage 1 (-1)).verifies toyScheme = false ∧
    (verifiedRun toyScheme false 0 [(7, toyMessage 0 1), (8, toyMessage 1 (-1))]).badMessages = ∅ ∧
    (verifiedRun toyScheme true 0 [(7, toyMessage 0 1), (8, toyMessage 1 (-1))]).badMessages = ∅ := by
  refine ⟨groupScheme_toyScheme, ?_, by decide, by decide, by decide, by decide⟩
  unfold SameMessages
  decide

end Blocx
