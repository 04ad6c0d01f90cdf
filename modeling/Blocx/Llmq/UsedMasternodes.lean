import Blocx.Llmq.RotationWalk

/-!
# The masternodes that quorum rotation sorts

The lists of used and unused masternodes that are sorted when new quarters are selected, and those that are rebuilt from
a snapshot. Both are filled by `AddMN`, and what it throws is caught. The masternodes of one list with its invariant do
not disturb each other there (`Compatible`), but states from earlier cycles may: such a masternode is left out.

`map_sortedCombined_eq` compares the two sorted lists. They hold different objects, since the used masternodes come from
earlier cycles in the one and from the list of the work block in the other. Scores and collaterals do not change once a
masternode is confirmed, so the two lists name the same masternodes in the same order.
-/

namespace Blocx

open Option hiding map_map mem_map

open List

open CDeterministicMN

open CDeterministicMNList CircularWalk

variable {G : Type} {crypto : Crypto G} {mn : CDeterministicMN G} {l l' : List (CDeterministicMN G)} {x : Uint256}

/-! ### Adding masternodes -/

section

variable {list : CDeterministicMNList G} {l : List (CDeterministicMN G)} {d : CDeterministicMN G}

lemma rep_default : Rep crypto ({} : CDeterministicMNList G) := Rep.empty 0 (-1) 0

/-- No two of the masternodes share an internal id or a property. -/
structure Compatible (crypto : Crypto G) (l : List (CDeterministicMN G)) : Prop where
  collateral : ∀ mn ∈ l, mn.collateralOutpoint.isNull = false
  keyIDOwner : ∀ mn ∈ l, mn.pdmnState.keyIDOwner ≠ 0
  /-- Nothing is shared. -/
  apart : ∀ a ∈ l, ∀ b ∈ l, a.proTxHash ≠ b.proTxHash →
    a.internalId ≠ b.internalId ∧ ∀ k ∈ a.hashes crypto, k ∉ b.hashes crypto

lemma Compatible.mono (h : Compatible crypto l) (hsub : l' ⊆ l) : Compatible crypto l' :=
  ⟨fun mn hmn => h.collateral mn (hsub hmn), fun mn hmn => h.keyIDOwner mn (hsub hmn),
    fun a ha b hb => h.apart a (hsub ha) b (hsub hb)⟩

section

variable (h : Rep crypto list)

include h

/-- `AddMN` writes the masternode, or throws and leaves the list as it was. -/
lemma tryAddMN_cases : (Addable crypto list mn ∧ Rep crypto (tryAddMN crypto list mn) ∧
      (tryAddMN crypto list mn).mnMap = list.mnMap.insert mn.proTxHash mn) ∨
    (¬Addable crypto list mn ∧ tryAddMN crypto list mn = list) := by
  have hspec := (wp_addMN h mn true).and (wp_addMN_maps crypto mn true)
  unfold wp at hspec
  unfold tryAddMN finalState
  split at hspec
  · exact .inl ⟨hspec.1.1, hspec.1.2.rep, hspec.1.2.mnMap⟩
  · exact .inr ⟨hspec.1, hspec.2⟩

lemma rep_tryAddMN : Rep crypto (tryAddMN crypto list mn) := by
  obtain ⟨-, hrep, -⟩ | ⟨-, heq⟩ := tryAddMN_cases h
  · exact hrep
  · rw [heq]
    exact h

/-- What is listed after `AddMN` was listed before, or is the masternode. -/
lemma getMN_tryAddMN (hd : (tryAddMN crypto list mn).getMN x = some d) : list.getMN x = some d ∨ d = mn := by
  obtain ⟨-, -, hmap⟩ | ⟨-, heq⟩ := tryAddMN_cases h
  · unfold getMN at hd ⊢
    rw [hmap, getElem?_insert_ite] at hd
    split_ifs at hd
    · exact .inr (some.inj hd).symm
    · exact .inl hd
  · rw [heq] at hd
    exact .inl hd

lemma getAllMNsCount_tryAddMN : (tryAddMN crypto list mn).getAllMNsCount ≤ list.getAllMNsCount + 1 := by
  unfold getAllMNsCount
  obtain ⟨-, -, hmap⟩ | ⟨-, heq⟩ := tryAddMN_cases h
  · rw [hmap]
    exact Std.ExtTreeMap.size_insert_le
  · rw [heq]
    exact Nat.le_succ _

lemma Rep.compatible (hl : ∀ mn ∈ l, list.getMN mn.proTxHash = some mn) : Compatible crypto l where
  collateral mn hmn := h.collateral _ mn (hl mn hmn)
  keyIDOwner mn hmn := h.keyIDOwner _ mn (hl mn hmn)
  apart a ha b hb hne :=
    ⟨fun hid => hne (h.eq_of_internalId (hl a ha) (hl b hb) hid),
      fun _ hka hkb => hne (h.eq_of_mem_hashes (hl a ha) (hl b hb) hka hkb)⟩

end

/-- A list that was filled. -/
def addAll (crypto : Crypto G) (l : List (CDeterministicMN G)) : CDeterministicMNList G :=
  l.foldl (tryAddMN crypto) {}

lemma addAll_append : addAll crypto (l ++ l') = l'.foldl (tryAddMN crypto) (addAll crypto l) := foldl_append

variable (crypto l) in
lemma rep_addAll : Rep crypto (addAll crypto l) := by
  induction l using reverseRecOn with
  | nil => exact rep_default
  | append_singleton l mn ih =>
    rw [addAll_append]
    exact rep_tryAddMN ih

lemma mem_of_getMN_addAll (h : (addAll crypto l).getMN x = some d) : d ∈ l := by
  induction l using reverseRecOn with
  | nil => simp [addAll, getMN] at h
  | append_singleton l mn ih =>
    rw [addAll_append] at h
    rcases getMN_tryAddMN (rep_addAll crypto l) h with hd | rfl
    · exact mem_append_left _ (ih hd)
    · simp

variable (crypto l) in
lemma getAllMNsCount_addAll : (addAll crypto l).getAllMNsCount ≤ l.length := by
  induction l using reverseRecOn with
  | nil => simp [addAll, getAllMNsCount]
  | append_singleton l mn ih =>
    rw [addAll_append, length_append, length_singleton]
    exact (getAllMNsCount_tryAddMN (rep_addAll crypto l)).trans (Nat.add_le_add_right ih 1)

lemma hasMN_addAll (h : Compatible crypto l) (hmn : mn ∈ l) : (addAll crypto l).hasMN mn.proTxHash = true := by
  induction l using reverseRecOn generalizing mn with
  | nil => simp at hmn
  | append_singleton l a ih =>
    have hrep := rep_addAll crypto l
    have hl : ∀ mn ∈ l, (addAll crypto l).hasMN mn.proTxHash = true :=
      fun mn hmn => ih (h.mono (subset_append_left l [a])) hmn
    rw [addAll_append, foldl_cons, foldl_nil]
    obtain ⟨-, -, hmap⟩ | ⟨hadd, heq⟩ := tryAddMN_cases hrep
    · unfold hasMN getMN
      rw [hmap, getElem?_insert_ite]
      split_ifs with hx
      · rfl
      · rcases mem_append.mp hmn with hmn | hmn
        · exact hl mn hmn
        · rw [mem_singleton] at hmn
          exact absurd (congrArg _ hmn) hx
    · rw [heq]
      rcases mem_append.mp hmn with hmn | hmn
      · exact hl mn hmn
      · -- what is not added is listed already
        obtain rfl := mem_singleton.mp hmn
        by_contra hnot
        have hfresh : (addAll crypto l).mnMap[mn.proTxHash]? = none := by
          rw [hasMN, Bool.not_eq_true, isSome_eq_false_iff, isNone_iff_eq_none] at hnot
          exact hnot
        have hother : ∀ (y : Uint256) d, (addAll crypto l).mnMap[y]? = some d →
            d ∈ l ∧ d.proTxHash ≠ mn.proTxHash := by
          intro y d hd
          refine ⟨mem_of_getMN_addAll hd, fun hsame => ?_⟩
          rw [← hsame, hrep.proTxHash y d hd, hd] at hfresh
          cases hfresh
        refine hadd ⟨hfresh, ?_, h.collateral mn (by simp), h.keyIDOwner mn (by simp), ?_⟩
        · rw [eq_none_iff_forall_ne_some]
          intro x hx
          obtain ⟨d, hd, hid⟩ := (hrep.internalId _ x).mp hx
          obtain ⟨hmem, hne⟩ := hother x d hd
          exact (h.apart d (mem_append_left _ hmem) mn (by simp) hne).1 hid
        · intro k hk y _ hheld
          obtain ⟨d, hd, hkd⟩ := (mem_held crypto).mp hheld
          obtain ⟨hmem, hne⟩ := hother y d hd
          exact (h.apart d (mem_append_left _ hmem) mn (by simp) hne).2 k hkd hk

lemma getMN_addAll (h : Compatible crypto l) (hnodup : (l.map proTxHash).Nodup) :
    (addAll crypto l).getMN mn.proTxHash = some mn ↔ mn ∈ l := by
  refine ⟨mem_of_getMN_addAll, fun hmn => ?_⟩
  obtain ⟨d, hd⟩ := isSome_iff_exists.mp (hasMN_addAll h hmn)
  have hsame := (rep_addAll crypto l).proTxHash _ d hd
  rwa [inj_on_of_nodup_map hnodup (mem_of_getMN_addAll hd) hmn hsame] at hd

end

/-! ### The lists as filled lists -/

variable {params : QuorumParams} {cycle : Cycle G} {previousQuarters : PreviousQuorumQuarters G}
  {l : List (CDeterministicMN G)} {p : CDeterministicMN G → Bool}

/-- A member of a previous quarter counts as used. -/
def Cycle.usable (cycle : Cycle G) (mn : CDeterministicMN G) : Bool :=
  !(cycle.skipRemovedMNs && !cycle.allMns.hasMN mn.proTxHash) && !cycle.allMns.isMNPoSeBanned mn.proTxHash

def usedMembers (cycle : Cycle G) (previousQuarters : PreviousQuorumQuarters G) (i : ℕ) : List (CDeterministicMN G) :=
  (previousQuarters.members i).filter cycle.usable

lemma foldl_useMN {used : CDeterministicMNList G × CDeterministicMNList G} :
    l.foldl (useMN crypto cycle) used = ((l.filter cycle.usable).foldl (tryAddMN crypto) used.1,
      (l.filter cycle.usable).foldl (tryAddMN crypto) used.2) := by
  induction l generalizing used with
  | nil => rfl
  | cons mn l ih =>
    rw [foldl_cons, ih, filter_cons]
    unfold useMN Cycle.usable
    cases cycle.skipRemovedMNs && !cycle.allMns.hasMN mn.proTxHash <;>
      cases cycle.allMns.isMNPoSeBanned mn.proTxHash <;> rfl

variable (crypto params cycle previousQuarters) in
lemma mnsUsedAtH_eq : mnsUsedAtH crypto params cycle previousQuarters =
      (addAll crypto ((range params.signingActiveQuorumCount).flatMap (usedMembers cycle previousQuarters)),
        (range params.signingActiveQuorumCount).map fun i => addAll crypto (usedMembers cycle previousQuarters i)) := by
  unfold mnsUsedAtH
  induction params.signingActiveQuorumCount with
  | zero => rfl
  | succ k ih =>
    rw [range_succ, foldl_append, ih, foldl_cons, foldl_nil, foldl_useMN, flatMap_append, addAll_append, map_append]
    simp [addAll, usedMembers]

variable (crypto params cycle previousQuarters) in
lemma rep_mnsUsedAtH : Rep crypto (mnsUsedAtH crypto params cycle previousQuarters).1 := by
  rw [mnsUsedAtH_eq]
  exact rep_addAll crypto _

/-- The masternodes of the list that are not used. -/
def unusedMembers (allMns used : CDeterministicMNList G) : List (CDeterministicMN G) :=
  (mns allMns.mnMap).filter fun dmn => !used.hasMN dmn.proTxHash && isMNValid dmn

lemma mnsNotUsedAtH_eq {allMns used : CDeterministicMNList G} :
    mnsNotUsedAtH crypto allMns used = addAll crypto (unusedMembers allMns used) := by
  unfold mnsNotUsedAtH unusedMembers addAll
  rw [foldl_filter]
  congr 1
  funext notUsed dmn
  unfold isMNValid
  cases used.hasMN dmn.proTxHash <;> cases dmn.pdmnState.isBanned <;> rfl

/-- The masternodes of a cycle that can be members, sorted. -/
def sortedAllMns (crypto : Crypto G) (cycle : Cycle G) : List (CDeterministicMN G) :=
  cycle.allMns.calculateQuorum crypto cycle.allMns.getAllMNsCount cycle.modifier

lemma foldl_usage {used : CDeterministicMNList G} {bits : List Bool} (k : ℕ)
    (hbits : ∀ j mn, l[j]? = some mn → bits.getD (k + j) false = used.hasMN mn.proTxHash)
    (usage : CDeterministicMNList G × CDeterministicMNList G) :
    (l.zipIdx k).foldl (fun (usedMNs, nonUsedMNs) (dmn, i) =>
      if bits.getD i false then (tryAddMN crypto usedMNs dmn, nonUsedMNs)
      else if !dmn.pdmnState.isBanned then (usedMNs, tryAddMN crypto nonUsedMNs dmn)
      else (usedMNs, nonUsedMNs)) usage =
    ((l.filter fun mn => used.hasMN mn.proTxHash).foldl (tryAddMN crypto) usage.1,
      (l.filter fun mn => !used.hasMN mn.proTxHash && isMNValid mn).foldl (tryAddMN crypto) usage.2) := by
  induction l generalizing k usage with
  | nil => rfl
  | cons mn l ih =>
    have hhead := hbits 0 mn rfl
    rw [Nat.add_zero] at hhead
    rw [zipIdx_cons, foldl_cons, ih (k + 1) fun j m hm => by
      rw [Nat.add_right_comm]
      exact hbits (j + 1) m hm]
    dsimp only
    rw [hhead, filter_cons, filter_cons]
    unfold isMNValid
    cases used.hasMN mn.proTxHash <;> cases mn.pdmnState.isBanned <;> rfl

/-- The lists that are rebuilt from a snapshot. -/
lemma getMNUsageBySnapshot_eq (crypto : Crypto G) (cycle : Cycle G) (used : CDeterministicMNList G)
    (skipList : List ℤ) :
    getMNUsageBySnapshot crypto cycle (buildQuorumSnapshot crypto cycle used skipList) =
      (addAll crypto ((sortedAllMns crypto cycle).filter fun mn => used.hasMN mn.proTxHash),
        addAll crypto ((sortedAllMns crypto cycle).filter fun mn => !used.hasMN mn.proTxHash && isMNValid mn)) := by
  refine foldl_usage 0 (fun j mn hmn => ?_) _
  have hj : j < (sortedAllMns crypto cycle).length := (List.getElem?_eq_some_iff.mp hmn).1
  unfold buildQuorumSnapshot
  rw [Nat.zero_add, getD_eq_getElem?_getD, getElem?_append_left (by rw [length_map]; exact hj),
    getElem?_map]
  rw [hmn]
  rfl

/-! ### The sorted lists name the same masternodes -/

/-- The object is sorted as the masternode of the list with its hash. -/
def KeepsRank (crypto : Crypto G) (cycle : Cycle G) (mn : CDeterministicMN G) : Prop :=
  ∃ cur, cycle.allMns.getMN mn.proTxHash = some cur ∧
    rankKey crypto cycle.modifier mn = rankKey crypto cycle.modifier cur

section

variable (hrep : Rep crypto cycle.allMns)

include hrep

/-- Lists with the same hashes are sorted alike. -/
lemma ranked_alike (hl : ∀ mn ∈ l, KeepsRank crypto cycle mn)
    (hl' : ∀ mn ∈ l', KeepsRank crypto cycle mn) (hperm : (l.map proTxHash).Perm (l'.map proTxHash)) :
    (ranked scoreLess (rankKey crypto cycle.modifier) l).map proTxHash =
      (ranked scoreLess (rankKey crypto cycle.modifier) l').map proTxHash := by
  -- the key is a function of the hash
  have hkey : ∀ l : List (CDeterministicMN G), (∀ mn ∈ l, KeepsRank crypto cycle mn) →
      (l.map proTxHash).map (fun x => (cycle.allMns.getMN x).map (rankKey crypto cycle.modifier)) =
        (l.map (rankKey crypto cycle.modifier)).map some := by
    intro l hl
    rw [map_map, map_map]
    refine map_congr_left fun mn hmn => ?_
    obtain ⟨cur, hcur, hrank⟩ := hl mn hmn
    simp [hcur, hrank]
  have hkeys : (l.map (rankKey crypto cycle.modifier)).Perm (l'.map (rankKey crypto cycle.modifier)) := by
    have hmap := hperm.map fun x => (cycle.allMns.getMN x).map (rankKey crypto cycle.modifier)
    rw [hkey l hl, hkey l' hl'] at hmap
    exact (map_perm_map_iff (some_injective _)).mp hmap
  refine map_eq_of_map_eq (fun a ha b hb hab => ?_) (ranked_map_eq strictTotal_scoreLess hkeys)
  obtain ⟨cur, hcur, hrank⟩ := hl a (mem_ranked.mp ha)
  obtain ⟨cur', hcur', hrank'⟩ := hl' b (mem_ranked.mp hb)
  have hcoll : cur.collateralOutpoint = cur'.collateralOutpoint :=
    congrArg Prod.snd (hrank.symm.trans (hab.trans hrank'))
  exact hrep.eq_of_collateral hcur hcur' hcoll

/-- An earlier state of a masternode of the list: it was confirmed, and has the collateral and the confirmed hash of
today. -/
structure Earlier (mn cur : CDeterministicMN G) : Prop where
  collateralOutpoint : mn.collateralOutpoint = cur.collateralOutpoint
  confirmedHash : mn.pdmnState.confirmedHash = cur.pdmnState.confirmedHash
  /-- The hash that scores are computed from. -/
  confirmedHashWithProRegTxHash :
    mn.pdmnState.confirmedHashWithProRegTxHash = cur.pdmnState.confirmedHashWithProRegTxHash

/-- Previous quarters of earlier cycles: their members could be selected then and, where they are still listed, the list
has a later state of them. -/
structure PreviousOk (params : QuorumParams) (cycle : Cycle G) (previousQuarters : PreviousQuorumQuarters G) :
    Prop where
  eligible : ∀ i, ∀ mn ∈ previousQuarters.members i, Eligible mn
  earlier : ∀ i, ∀ mn ∈ previousQuarters.members i, ∀ cur, cycle.allMns.getMN mn.proTxHash = some cur → Earlier mn cur
  /-- A quorum has three quarters from the previous cycles. -/
  length : ∀ i, (previousQuarters.members i).length ≤ 3 * params.quarterSize

/-- Removed masternodes are skipped, or there are none. -/
def RemovedSkipped (cycle : Cycle G) (previousQuarters : PreviousQuorumQuarters G) : Prop :=
  cycle.skipRemovedMNs = true ∨ ∀ i, ∀ mn ∈ previousQuarters.members i, cycle.allMns.hasMN mn.proTxHash = true

omit hrep in
lemma exists_of_usable (hskip : RemovedSkipped cycle previousQuarters) {i : ℕ}
    (hmem : mn ∈ previousQuarters.members i) (h : cycle.usable mn = true) :
    ∃ cur, cycle.allMns.getMN mn.proTxHash = some cur ∧ isMNValid cur = true := by
  unfold Cycle.usable isMNPoSeBanned at h
  rw [Bool.and_eq_true] at h
  have hlisted : cycle.allMns.hasMN mn.proTxHash = true := by
    rcases hskip with hskip | hall
    · rw [hskip, Bool.true_and, Bool.not_not] at h
      exact h.1
    · exact hall i mn hmem
  obtain ⟨cur, hcur⟩ := isSome_iff_exists.mp hlisted
  rw [hcur] at h
  exact ⟨cur, hcur, h.2⟩

/-- A list that was filled with masternodes of the list of the cycle. -/
lemma perm_eligible_addAll (hnodup : (l.map proTxHash).Nodup)
    (hl : ∀ mn ∈ l, cycle.allMns.getMN mn.proTxHash = some mn)
    (hp : ∀ mn, mn ∈ l ∧ Eligible mn ↔ mn ∈ cycle.allMns.eligible.filter p) :
    (addAll crypto l).eligible.Perm (cycle.allMns.eligible.filter p) := by
  have hrepL := rep_addAll crypto l
  refine (perm_ext_iff_of_nodup (nodup_eligible hrepL).of_map ((nodup_eligible hrep).of_map.filter p)).mpr fun mn => ?_
  rw [mem_eligible hrepL, getMN_addAll (hrep.compatible hl) hnodup, hp]

lemma keepsRank_eligible (h : mn ∈ cycle.allMns.eligible.filter p) : KeepsRank crypto cycle mn :=
  ⟨mn, ((mem_eligible hrep).mp (mem_of_mem_filter h)).1, rfl⟩

/-- The sorted list of the selection. -/
def combined (crypto : Crypto G) (params : QuorumParams) (cycle : Cycle G)
    (previousQuarters : PreviousQuorumQuarters G) : List (CDeterministicMN G) :=
  let used := (mnsUsedAtH crypto params cycle previousQuarters).1
  sortedCombined crypto cycle.modifier used (mnsNotUsedAtH crypto cycle.allMns used)

/-- The sorted list that is rebuilt from the snapshot of the selection. -/
def recombined (crypto : Crypto G) (params : QuorumParams) (cycle : Cycle G)
    (previousQuarters : PreviousQuorumQuarters G) (skipList : List ℤ) : List (CDeterministicMN G) :=
  let used := (mnsUsedAtH crypto params cycle previousQuarters).1
  let usage := getMNUsageBySnapshot crypto cycle (buildQuorumSnapshot crypto cycle used skipList)
  sortedCombined crypto cycle.modifier usage.1 usage.2

omit hrep in
lemma sortedCombined_eq (modifier : Uint256) (used notUsed : CDeterministicMNList G) :
    sortedCombined crypto modifier used notUsed = ranked scoreLess (rankKey crypto modifier) notUsed.eligible ++
      ranked scoreLess (rankKey crypto modifier) used.eligible := by
  rw [sortedCombined, calculateQuorum_eq, calculateQuorum_eq]

variable (used : CDeterministicMNList G)

lemma perm_unused : (mnsNotUsedAtH crypto cycle.allMns used).eligible.Perm
    (cycle.allMns.eligible.filter fun mn => !used.hasMN mn.proTxHash) := by
  rw [mnsNotUsedAtH_eq]
  refine perm_eligible_addAll hrep ((nodup_mns hrep).sublist (filter_sublist.map _))
    (fun mn hmn => hrep.mem_mns_iff.mp (mem_of_mem_filter hmn)) fun mn => ?_
  rw [unusedMembers, mem_filter, mem_filter, mem_eligible hrep, hrep.mem_mns_iff, Bool.and_eq_true]
  unfold Eligible getMN
  tauto

lemma perm_eligible_sorted (p : CDeterministicMN G → Bool) :
    (addAll crypto ((sortedAllMns crypto cycle).filter p)).eligible.Perm (cycle.allMns.eligible.filter p) := by
  have hsorted : (sortedAllMns crypto cycle).Perm cycle.allMns.eligible := by
    rw [sortedAllMns, calculateQuorum_eq]
    exact perm_ranked _ _ _
  have hfilter := hsorted.filter p
  have helig := fun mn (hmn : mn ∈ cycle.allMns.eligible.filter p) => (mem_eligible hrep).mp (mem_of_mem_filter hmn)
  refine perm_eligible_addAll hrep ?_ (fun mn hmn => (helig mn (hfilter.mem_iff.mp hmn)).1) fun mn => ?_
  · exact (hfilter.map _).nodup_iff.mpr ((nodup_eligible hrep).sublist (filter_sublist.map _))
  · rw [hfilter.mem_iff]
    exact and_iff_left_of_imp fun hmn => (helig mn hmn).2

lemma perm_unusedBySnapshot (skipList : List ℤ) :
    (getMNUsageBySnapshot crypto cycle (buildQuorumSnapshot crypto cycle used skipList)).2.eligible.Perm
      (cycle.allMns.eligible.filter fun mn => !used.hasMN mn.proTxHash) := by
  rw [getMNUsageBySnapshot_eq]
  refine (perm_eligible_sorted hrep _).trans (.of_eq (filter_congr fun mn hmn => ?_))
  rw [((mem_eligible hrep).mp hmn).2.1, Bool.and_true]

lemma perm_usedBySnapshot (skipList : List ℤ) :
    (getMNUsageBySnapshot crypto cycle (buildQuorumSnapshot crypto cycle used skipList)).1.eligible.Perm
      (cycle.allMns.eligible.filter fun mn => used.hasMN mn.proTxHash) := by
  rw [getMNUsageBySnapshot_eq]
  exact perm_eligible_sorted hrep _

end

variable (hskip : RemovedSkipped cycle previousQuarters) (hprev : PreviousOk params cycle previousQuarters)
include hskip hprev

lemma used_spec (h : (mnsUsedAtH crypto params cycle previousQuarters).1.getMN x = some mn) :
    mn.proTxHash = x ∧ Eligible mn ∧ KeepsRank crypto cycle mn ∧
      ∃ cur, cycle.allMns.getMN x = some cur ∧ Eligible cur := by
  rw [mnsUsedAtH_eq] at h
  have hx := (rep_addAll crypto _).proTxHash x mn h
  obtain ⟨i, -, hmem⟩ := mem_flatMap.mp (mem_of_getMN_addAll h)
  obtain ⟨hmem, husable⟩ := mem_filter.mp hmem
  obtain ⟨cur, hcur, hvalid⟩ := exists_of_usable hskip hmem husable
  have hearlier := hprev.earlier i mn hmem cur hcur
  have helig := hprev.eligible i mn hmem
  refine ⟨hx, helig, ⟨cur, hcur, ?_⟩, cur, hx ▸ hcur, hvalid, hearlier.confirmedHash ▸ helig.2⟩
  unfold rankKey score
  rw [hearlier.collateralOutpoint, hearlier.confirmedHashWithProRegTxHash]

variable (hrep : Rep crypto cycle.allMns)
include hrep

/-- The used masternodes that are sorted: earlier states of masternodes of the list. -/
lemma perm_used : ((mnsUsedAtH crypto params cycle previousQuarters).1.eligible.map proTxHash).Perm
    ((cycle.allMns.eligible.filter fun mn =>
      (mnsUsedAtH crypto params cycle previousQuarters).1.hasMN mn.proTxHash).map proTxHash) := by
  have hrepU := rep_mnsUsedAtH crypto params cycle previousQuarters
  rw [perm_ext_iff_of_nodup (nodup_eligible hrepU) ((nodup_eligible hrep).sublist (filter_sublist.map _))]
  intro x
  simp only [mem_map, mem_filter, mem_eligible hrepU, mem_eligible hrep]
  constructor
  · rintro ⟨mn, ⟨hmn, -⟩, rfl⟩
    obtain ⟨-, -, -, cur, hcur, helig⟩ := used_spec hskip hprev hmn
    have hhash := hrep.proTxHash _ cur hcur
    refine ⟨cur, ⟨⟨hhash.symm ▸ hcur, helig⟩, ?_⟩, hhash⟩
    rw [hhash, hasMN, hmn]
    rfl
  · rintro ⟨cur, ⟨-, hx⟩, rfl⟩
    obtain ⟨mn, hmn⟩ := isSome_iff_exists.mp hx
    obtain ⟨hhash, helig, -⟩ := used_spec hskip hprev hmn
    exact ⟨mn, ⟨hhash.symm ▸ hmn, helig⟩, hhash⟩

/-- The two sorted lists name the same masternodes in the same order. -/
lemma map_recombined_eq (skipList : List ℤ) :
    (recombined crypto params cycle previousQuarters skipList).map proTxHash =
      (combined crypto params cycle previousQuarters).map proTxHash := by
  have hrepU := rep_mnsUsedAtH crypto params cycle previousQuarters
  unfold recombined combined
  rw [sortedCombined_eq, sortedCombined_eq, map_append, map_append]
  congr 1
  · have hunused := perm_unusedBySnapshot hrep (mnsUsedAtH crypto params cycle previousQuarters).1 skipList
    have hunused' := perm_unused hrep (mnsUsedAtH crypto params cycle previousQuarters).1
    exact ranked_alike hrep (fun mn hmn => keepsRank_eligible hrep (hunused.mem_iff.mp hmn))
      (fun mn hmn => keepsRank_eligible hrep (hunused'.mem_iff.mp hmn)) ((hunused.trans hunused'.symm).map _)
  · have hused := perm_usedBySnapshot hrep (mnsUsedAtH crypto params cycle previousQuarters).1 skipList
    exact ranked_alike hrep (fun mn hmn => keepsRank_eligible hrep (hused.mem_iff.mp hmn))
      (fun mn hmn => (used_spec hskip hprev ((mem_eligible hrepU).mp hmn).1).2.2.1)
      ((hused.map _).trans (perm_used hskip hprev hrep).symm)

/-- The sorted list has every eligible masternode once. -/
lemma perm_combined : ((combined crypto params cycle previousQuarters).map proTxHash).Perm
    (cycle.allMns.eligible.map proTxHash) := by
  unfold combined
  rw [sortedCombined_eq, map_append]
  have hunused := (perm_ranked scoreLess (rankKey crypto cycle.modifier) _).trans
    (perm_unused hrep (mnsUsedAtH crypto params cycle previousQuarters).1)
  have hused := ((perm_ranked scoreLess (rankKey crypto cycle.modifier) _).map _).trans (perm_used hskip hprev hrep)
  refine ((hunused.map _).append hused).trans ?_
  rw [← map_append]
  exact (perm_append_comm.trans (filter_append_perm _ _)).map _

end Blocx
