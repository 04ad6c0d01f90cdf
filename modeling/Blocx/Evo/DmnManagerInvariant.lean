import Blocx.Evo.DmnAlike
import Blocx.Evo.DmnManager
import Blocx.Evo.StoredDiffs

/-!
# The invariant of the masternode manager

`foldList` is that list: `BuildNewListFromBlock` along the ancestors of a block, from an empty list. `ListOf` is the
list that the manager has for a block. It is not the folded one, because a list that went through stored differences may
have lost count of the registrations, and later masternodes then get other internal ids. But there is only one such list
for each block, whichever caches and snapshots it is read from. That is the invariant of the manager: every list in the
cache or on disk is the list of its block, every difference is the one between neighbouring blocks, and blocks whose
difference is on disk have a predecessor for which that is true as well, unless it is before the first list.
-/

namespace Blocx

open Option List

open CDeterministicMNList Wire Std.ExtTreeMap

variable {G : Type} {rules : EvoRules G} {old new l : CDeterministicMNList G} {b p : CBlockIndex}
  {crypto : Crypto G} {manager manager' manager'' : CDeterministicMNManager G}

/-! ### A tree of blocks -/

/-- The registrations in a block and the ones before it. -/
def registrations (block : CBlockIndex → CBlock) (header : CBlockHeader) : List CBlockHeader → ℕ
  | [] => (block ⟨header, []⟩).vtx.countP isRegistration
  | prev :: ancestors =>
    (block ⟨header, prev :: ancestors⟩).vtx.countP isRegistration + registrations block prev ancestors

/-- The blocks that a node knows, with their contents. -/
structure BlockTree (rules : EvoRules G) where
  nodes : Set CBlockIndex
  block : CBlockIndex → CBlock
  /-- The unspent outputs before a block. -/
  view : CBlockIndex → CCoinsView
  pprev_mem : ∀ {b p : CBlockIndex}, b ∈ nodes → b.pprev = some p → p ∈ nodes
  hash_inj : Set.InjOn (fun b : CBlockIndex => rules.getBlockHash b.header) nodes
  height : ∀ b ∈ nodes, IsInt32 b.nHeight
  /-- A branch has at most `MAX_SIZE` registrations. -/
  count : ∀ b ∈ nodes, registrations block b.header b.ancestors ≤ maxSize
  /-- The transactions, and the properties they name, have different hashes. -/
  distinct : DistinctHashes rules {tx | ∃ b ∈ nodes, tx ∈ (block b).vtx}

namespace BlockTree

/-- The transactions of a tree. -/
def txs (tree : BlockTree rules) : Set CTransaction := {tx | ∃ b ∈ tree.nodes, tx ∈ (tree.block b).vtx}

def registered (tree : BlockTree rules) (b : CBlockIndex) : ℕ := registrations tree.block b.header b.ancestors

end BlockTree

def EvoRules.hashOf (rules : EvoRules G) (b : CBlockIndex) : Uint256 := rules.getBlockHash b.header

lemma getBlockHash_header : rules.getBlockHash b.header = rules.hashOf b := rfl

section Lists

variable [DecidableEq G] (rules) (tree : BlockTree rules)

/-- The list that a branch builds from an empty list, if no block of it is refused. -/
def foldList (header : CBlockHeader) : List CBlockHeader → Option (CDeterministicMNList G)
  | [] => some { blockHash := rules.getBlockHash header }
  | prev :: ancestors =>
    let pindex : CBlockIndex := ⟨header, prev :: ancestors⟩
    if pindex.nHeight < rules.params.DIP0003Height then some { blockHash := rules.getBlockHash header }
    else (foldList prev ancestors).bind fun old =>
      match (buildNewListFromBlock rules ⟨prev, ancestors⟩ (tree.view pindex) (tree.block pindex)).run old with
      | .ok _ new => some { new with blockHash := rules.getBlockHash header }
      | .error _ _ => none

/-- The list of the block is stored as a snapshot. -/
def IsSnapshot (b : CBlockIndex) (old : CDeterministicMNList G) : Prop :=
  b.nHeight.tmod diskSnapshotPeriod = 0 ∨ old.nHeight = -1

instance (b : CBlockIndex) (old : CDeterministicMNList G) : Decidable (IsSnapshot b old) :=
  inferInstanceAs (Decidable (_ ∨ _))

/-- The list that the manager has for a block after another list: the one that was built, in a snapshot, or otherwise
the one that the difference leads to. -/
def listAfter (b : CBlockIndex) (old new : CDeterministicMNList G) : CDeterministicMNList G :=
  { new with
    blockHash := rules.hashOf b
    nTotalRegisteredCount := if IsSnapshot b old then new.nTotalRegisteredCount else appliedCount old new }

variable {rules}

/-- A block builds a list on the one of its predecessor. -/
structure Extends (b p : CBlockIndex) (old new : CDeterministicMNList G) : Prop where
  node : b ∈ tree.nodes
  pprev : b.pprev = some p
  active : rules.params.DIP0003Height ≤ b.nHeight
  builds : BlockBuilds rules tree.txs old p (tree.view b) (tree.block b) new
  encodings : SameEncodings old new

/-- The list that the manager has for a block. -/
inductive ListOf : CBlockIndex → CDeterministicMNList G → Prop where
  /-- Before the first list. -/
  | initial {b : CBlockIndex} (hnode : b ∈ tree.nodes) (hbelow : b.nHeight < rules.params.DIP0003Height) :
    ListOf b { blockHash := rules.hashOf b }
  /-- After the list of the predecessor. -/
  | after {b p : CBlockIndex} {old new : CDeterministicMNList G} (hp : ListOf p old)
    (h : Extends tree b p old new) : ListOf b (listAfter rules b old new)

end Lists

section ListFacts

variable [DecidableEq G] {tree : BlockTree rules}

lemma ListOf.node (h : ListOf tree b l) : b ∈ tree.nodes := by
  cases h with
  | initial hnode _ => exact hnode
  | after _ h => exact h.node

lemma ListOf.blockHash (h : ListOf tree b l) : l.blockHash = rules.hashOf b := by
  cases h <;> rfl

lemma ListOf.unique {l' : CDeterministicMNList G} (h : ListOf tree b l) (h' : ListOf tree b l') : l = l' := by
  induction h generalizing l' with
  | initial _ hbelow =>
    cases h' with
    | initial => rfl
    | after _ hext => exact absurd hbelow (not_lt.mpr hext.active)
  | after hp hext ih =>
    cases h' with
    | initial _ hbelow => exact absurd hbelow (not_lt.mpr hext.active)
    | after hp' hext' =>
      have hpp := hext.pprev.symm.trans hext'.pprev
      cases hpp
      obtain rfl := ih hp'
      have hnew := hext.builds.built.symm.trans hext'.builds.built
      cases hnew
      rfl

omit [DecidableEq G] in
lemma registered_of_pprev (h : b.pprev = some p) :
    tree.registered b = (tree.block b).vtx.countP isRegistration + tree.registered p := by
  rw [CBlockIndex.eq_child_of_pprev h]
  rfl

lemma foldList_of_pprev (h : b.pprev = some p) : foldList rules tree b.header b.ancestors =
      if b.nHeight < rules.params.DIP0003Height then some { blockHash := rules.hashOf b }
      else (foldList rules tree p.header p.ancestors).bind fun old =>
        match (buildNewListFromBlock rules p (tree.view b) (tree.block b)).run old with
        | .ok _ new => some { new with blockHash := rules.hashOf b }
        | .error _ _ => none := by
  rw [CBlockIndex.eq_child_of_pprev h]
  rfl

lemma foldList_of_below (h : b.nHeight < rules.params.DIP0003Height) :
    foldList rules tree b.header b.ancestors = some { blockHash := rules.hashOf b } := by
  cases hp : b.pprev with
  | some p => rw [foldList_of_pprev hp, if_pos h]
  | none =>
    obtain ⟨header, ancestors⟩ := b
    cases ancestors with
    | nil => rfl
    | cons prev ancestors => cases hp

omit [DecidableEq G] in
/-- Lists that are alike stay so when the block is set, and when the first one counts fewer registrations, as long as
its ids are below that number. -/
lemma AlikeWithin.listAfter {n T : ℕ} {new' : CDeterministicMNList G} (h : AlikeWithin n new new')
    (hrep : Rep crypto new) (hT : T ≤ new.nTotalRegisteredCount)
    (hids : ∀ (x : Uint256) b, new.mnMap[x]? = some b → b.internalId < T) (blockHash : Uint256) :
    AlikeWithin n { new with blockHash, nTotalRegisteredCount := T } { new' with blockHash } := by
  obtain ⟨c, c', h, hc, hc'⟩ := h
  have hTc : T ≤ c := hT.trans_eq h.total
  refine ⟨T, c', { h with blockHash := rfl, fresh := fun id hid => ?_, total := rfl }, by omega, hc'⟩
  rw [eq_none_iff_forall_ne_some]
  intro y hy
  obtain ⟨e, he, rfl⟩ := (hrep.internalId id y).mp hy
  exact absurd (hids y e he) (not_lt.mpr hid)

omit [DecidableEq G] in
lemma alikeWithin_initial {n : ℕ} (hn : n ≤ maxSize) {blockHash : Uint256} :
    AlikeWithin n ({ blockHash } : CDeterministicMNList G) { blockHash } := by
  refine ⟨0, 0, ⟨rfl, rfl, fun _ => rfl, fun _ => rfl, fun _ => rfl, rfl, fun _ _ => ?_, fun _ _ => ?_, rfl, rfl⟩,
    by omega, by omega⟩
  · exact getElem?_empty
  · exact getElem?_empty

/-- What a block builds has everything that the list of the block needs. -/
lemma Extends.listWf (h : Extends tree b p old new) (hold : ListWf rules tree.txs old) :
    ListWf rules tree.txs (listAfter rules b old new) ∧ Rep rules.crypto new ∧
      (listAfter rules b old new).nTotalRegisteredCount ≤ new.nTotalRegisteredCount ∧
      ∀ (x : Uint256) d, new.mnMap[x]? = some d →
        d.internalId < (listAfter rules b old new).nTotalRegisteredCount := by
  obtain ⟨hevolved, htotal⟩ := h.builds.evolved hold tree.distinct
  obtain ⟨hle, hids, -⟩ := hevolved.appliedCount_spec hold htotal
  unfold listAfter
  split_ifs
  · exact ⟨hevolved.listWf h.builds.height hevolved.internalId htotal _, hevolved.rep, le_rfl, hevolved.internalId⟩
  · exact ⟨hevolved.listWf h.builds.height hids (hle.trans htotal) _, hevolved.rep, hle, hids⟩

/-- The list of a block is well-formed, and alike the one that the branch builds. -/
lemma ListOf.spec (h : ListOf tree b l) :
    ListWf rules tree.txs l ∧ ∃ l', foldList rules tree b.header b.ancestors = some l' ∧
      AlikeWithin (maxSize - tree.registered b) l l' := by
  induction h with
  | initial hnode hbelow =>
    exact ⟨listWf_initial _, _, foldList_of_below hbelow, alikeWithin_initial (Nat.sub_le _ _)⟩
  | @after b p old new hp hext ih =>
    obtain ⟨hwf, old', hfold, halike⟩ := ih
    obtain ⟨hwf', hrep, htotal, hids⟩ := hext.listWf hwf
    refine ⟨hwf', ?_⟩
    have hreg : tree.registered b = _ := registered_of_pprev hext.pprev
    have hmax := tree.count b hext.node
    change tree.registered b ≤ maxSize at hmax
    have hn : maxSize - tree.registered p =
        (tree.block b).vtx.countP isRegistration + (maxSize - tree.registered b) := by omega
    rw [hn] at halike
    have hpar := @parallel_buildNewListFromBlock G rules _ p (tree.view b) (tree.block b) _ old old' halike
    rw [hext.builds.built] at hpar
    rw [foldList_of_pprev hext.pprev, if_neg (not_lt.mpr hext.active), hfold, bind_some]
    cases hrun : (buildNewListFromBlock rules p (tree.view b) (tree.block b)).run old' with
    | error e s =>
      rw [hrun] at hpar
      exact hpar.elim
    | ok u new' =>
      rw [hrun] at hpar
      exact ⟨_, rfl, AlikeWithin.listAfter hpar hrep htotal hids _⟩

lemma ListOf.total_le (h : ListOf tree b l) : l.nTotalRegisteredCount ≤ tree.registered b := by
  obtain ⟨-, l', -, c, c', halike, hc, -⟩ := h.spec
  have htotal := halike.total
  omega

end ListFacts

/-! ### The invariant -/

section

variable [DecidableEq G] (tree : BlockTree rules)

/-- The manager holds the lists and differences of the blocks they are kept under. -/
structure ManagerWf (manager : CDeterministicMNManager G) : Prop where
  lists : ∀ (hash : Uint256) (l : CDeterministicMNList G), manager.mnListsCache[hash]? = some l →
    ∃ b, rules.hashOf b = hash ∧ ListOf tree b l
  diffs : ∀ (hash : Uint256) (d : CDeterministicMNListDiff G), manager.mnListDiffsCache[hash]? = some d →
    ∃ b p old new, rules.hashOf b = hash ∧ ListOf tree p old ∧ Extends tree b p old new ∧
      d = { old.buildDiff new with nHeight := b.nHeight }
  diskDiffs : ∀ (hash : Uint256) (bytes : List UInt8), manager.evoDb.listDiff[hash]? = some bytes →
    ∃ b p old new, rules.hashOf b = hash ∧ ListOf tree p old ∧ Extends tree b p old new ∧
      ∃ order : UpdateOrder G, order.Perm (old.buildDiff new).updatedMNs.toList ∧
        bytes = (old.buildDiff new).serialize rules.crypto.bls order
  diskSnapshots : ∀ (hash : Uint256) (bytes : List UInt8), manager.evoDb.listSnapshot[hash]? = some bytes →
    ∃ b l, rules.hashOf b = hash ∧ ListOf tree b l ∧
      ∃ order : List (CDeterministicMN G), order.Perm (mns l.mnMap) ∧ bytes = l.serialize rules.crypto.bls order
  /-- The predecessors of stored blocks are stored. -/
  closed : ∀ b ∈ tree.nodes, rules.hashOf b ∈ manager.evoDb.listDiff → ∀ p, b.pprev = some p →
    p.nHeight < rules.params.DIP0003Height ∨ rules.hashOf p ∈ manager.evoDb.listDiff
  /-- Stored blocks have their snapshots. -/
  snapshots : ∀ b p old new, ListOf tree p old → Extends tree b p old new →
    rules.hashOf b ∈ manager.evoDb.listDiff → IsSnapshot b old → rules.hashOf b ∈ manager.evoDb.listSnapshot

/-- The list of a block can be asked for: the block is before the first list, or it was stored. -/
def Available (db : CEvoDB) (b : CBlockIndex) : Prop :=
  b ∈ tree.nodes ∧ (b.nHeight < rules.params.DIP0003Height ∨ rules.hashOf b ∈ db.listDiff)

/-- What reading keeps: the database, and the differences in the cache. -/
structure ReadsOnly (manager manager' : CDeterministicMNManager G) : Prop where
  wf : ManagerWf tree manager'
  evoDb : manager'.evoDb = manager.evoDb
  diffs : ∀ (hash : Uint256) (d : CDeterministicMNListDiff G), manager.mnListDiffsCache[hash]? = some d →
    manager'.mnListDiffsCache[hash]? = some d

/-- The difference of the block is in the cache, and it can be applied to the list of the predecessor. -/
structure CachedStep (manager : CDeterministicMNManager G) (b p : CBlockIndex) (old new : CDeterministicMNList G) :
    Prop where
  listOf : ListOf tree p old
  step : Extends tree b p old new
  noSnapshot : ¬IsSnapshot b old
  cached : manager.mnListDiffsCache[rules.hashOf b]? = some { old.buildDiff new with nHeight := b.nHeight }

/-- The blocks that a search went through, back to a list. -/
inductive PathFrom (manager : CDeterministicMNManager G) (l : CDeterministicMNList G) :
    List CBlockIndex → CBlockIndex → Prop where
  /-- The list of the block itself. -/
  | found {b : CBlockIndex} (hl : ListOf tree b l) : PathFrom manager l [] b
  /-- The difference of the block, after the path to its predecessor. -/
  | diff {path : List CBlockIndex} {b p : CBlockIndex} {old new : CDeterministicMNList G}
    (hpath : PathFrom manager l path p) (h : CachedStep tree manager b p old new) :
    PathFrom manager l (path ++ [b]) b

end

section Reading

variable [DecidableEq G] {tree : BlockTree rules} {b : CBlockIndex} {order : IterationOrder G}

open CDeterministicMNManager

lemma ReadsOnly.refl (h : ManagerWf tree manager) : ReadsOnly tree manager manager :=
  ⟨h, rfl, fun _ _ => id⟩

lemma ReadsOnly.trans (h : ReadsOnly tree manager manager') (h' : ReadsOnly tree manager' manager'') :
    ReadsOnly tree manager manager'' :=
  ⟨h'.wf, h'.evoDb.trans h.evoDb, fun hash d hd => h'.diffs hash d (h.diffs hash d hd)⟩

omit [DecidableEq G] in
lemma eq_of_hashOf {b' : CBlockIndex} (hb : b ∈ tree.nodes) (hb' : b' ∈ tree.nodes)
    (h : rules.hashOf b' = rules.hashOf b) : b' = b := tree.hash_inj hb' hb h

section

variable (h : ManagerWf tree manager)

include h

/-- The snapshot of a block is read back. -/
lemma ManagerWf.readSnapshot (hb : b ∈ tree.nodes) : (rules.hashOf b ∈ manager.evoDb.listSnapshot ∧
      ∃ l, manager.readSnapshot rules (rules.hashOf b) = some l ∧ ListOf tree b l) ∨
    (rules.hashOf b ∉ manager.evoDb.listSnapshot ∧ manager.readSnapshot rules (rules.hashOf b) = none) := by
  unfold CDeterministicMNManager.readSnapshot
  rw [mem_iff_isSome_getElem?]
  cases hbytes : manager.evoDb.listSnapshot[rules.hashOf b]? with
  | none => exact .inr ⟨Bool.false_ne_true, rfl⟩
  | some bytes =>
    refine .inl ⟨rfl, ?_⟩
    obtain ⟨b', l, hhash, hl, order, horder, rfl⟩ := h.diskSnapshots _ _ hbytes
    obtain rfl := eq_of_hashOf hb hl.node hhash
    obtain ⟨hwf, -⟩ := hl.spec
    have hread := CDeterministicMNList.reads_serialize hwf.rep hwf.nHeight hwf.total
      (fun x d hd => ⟨hwf.internalId x d hd, (hwf.mn x d hd).nType, (hwf.mn x d hd).state⟩) horder
    refine ⟨l, ?_, hl⟩
    rw [bind_some, hread.run_eq]
    rfl

/-- The difference of a block is read back. -/
lemma ManagerWf.readDiff (hb : b ∈ tree.nodes) :
    (rules.hashOf b ∈ manager.evoDb.listDiff ∧ ∃ p old new, ListOf tree p old ∧
      Extends tree b p old new ∧ manager.readDiff rules (rules.hashOf b) = some (old.buildDiff new)) ∨
    (rules.hashOf b ∉ manager.evoDb.listDiff ∧ manager.readDiff rules (rules.hashOf b) = none) := by
  unfold CDeterministicMNManager.readDiff
  rw [mem_iff_isSome_getElem?]
  cases hbytes : manager.evoDb.listDiff[rules.hashOf b]? with
  | none => exact .inr ⟨Bool.false_ne_true, rfl⟩
  | some bytes =>
    refine .inl ⟨rfl, ?_⟩
    obtain ⟨b', p, old, new, hhash, hold, hext, order, horder, rfl⟩ := h.diskDiffs _ _ hbytes
    obtain rfl := eq_of_hashOf hb hext.node hhash
    obtain ⟨hread, -⟩ :=
      hext.builds.applyDiff_eq hold.spec.1 tree.distinct hext.encodings (rules.hashOf b') horder
    refine ⟨p, old, new, hold, hext, ?_⟩
    rw [bind_some, hread]
    rfl

lemma ManagerWf.cacheList (hl : ListOf tree b l) : ReadsOnly tree manager (manager.cacheList (rules.hashOf b) l) := by
  refine ⟨{ h with lists := fun hash l' hl' => ?_ }, rfl, fun _ _ => id⟩
  rw [CDeterministicMNManager.cacheList, getElem?_insertIfNew_ite] at hl'
  split_ifs at hl' with hnew
  · cases hl'
    exact ⟨b, hnew.1.symm, hl⟩
  · exact h.lists hash l' hl'

lemma ManagerWf.cacheDiff (hold : ListOf tree p old) (hext : Extends tree b p old new) :
    ReadsOnly tree manager (manager.cacheDiff (rules.hashOf b) { old.buildDiff new with nHeight := b.nHeight }) := by
  refine ⟨{ h with diffs := fun hash d hd => ?_ }, rfl, fun hash d hd => ?_⟩
  · rw [CDeterministicMNManager.cacheDiff, getElem?_insertIfNew_ite] at hd
    split_ifs at hd with hnew
    · cases hd
      exact ⟨b, p, old, new, hnew.1.symm, hold, hext, rfl⟩
    · exact h.diffs hash d hd
  · rw [CDeterministicMNManager.cacheDiff, getElem?_insertIfNew_ite]
    rw [if_neg]
    · exact hd
    · rintro ⟨rfl, hnone⟩
      rw [hd] at hnone
      cases hnone

variable (hb : Available tree manager.evoDb b)

include hb

/-- A turn of the search finds the list of the block, or puts its difference into the cache. -/
lemma ManagerWf.wp_findList : wp (findList rules b) (fun found manager' => ReadsOnly tree manager manager' ∧
      match found with
      | some l => ListOf tree b l
      | none => ∃ p old new, CachedStep tree manager' b p old new ∧ Available tree manager'.evoDb p)
      (fun _ _ => False) manager := by
  obtain ⟨hnode, hwhere⟩ := hb
  -- a block whose list is neither cached nor in a snapshot is stored with its difference only
  have hstored : ∀ {p old new}, ListOf tree p old → Extends tree b p old new →
      manager.readSnapshot rules (rules.hashOf b) = none →
      ¬IsSnapshot b old ∧ Available tree manager.evoDb p := by
    intro p old new hold hext hnone
    have hmem : rules.hashOf b ∈ manager.evoDb.listDiff := hwhere.resolve_left (not_lt.mpr hext.active)
    refine ⟨fun hsnap => ?_, tree.pprev_mem hnode hext.pprev, h.closed b hnode hmem p hext.pprev⟩
    obtain ⟨-, l, hread, -⟩ | ⟨hnot, -⟩ := h.readSnapshot hnode
    · rw [hnone] at hread
      cases hread
    · exact hnot (h.snapshots b p old new hold hext hmem hsnap)
  unfold findList
  simp only [wp_bind, wp_get, getBlockHash_header]
  cases hcached : manager.mnListsCache[rules.hashOf b]? with
  | some l =>
    obtain ⟨b', hhash, hl⟩ := h.lists _ l hcached
    obtain rfl := eq_of_hashOf hnode hl.node hhash
    exact ⟨.refl h, hl⟩
  | none =>
    obtain ⟨-, l, hread, hl⟩ | ⟨-, hread⟩ := h.readSnapshot hnode
    · rw [hread]
      exact ⟨h.cacheList hl, hl⟩
    · rw [hread]
      refine (wp_ite _ _).mpr ⟨fun hcontains => ?_, fun hcontains => ?_⟩
      · rw [contains_eq_isSome_getElem?] at hcontains
        obtain ⟨d, hd⟩ := isSome_iff_exists.mp hcontains
        obtain ⟨b', p, old, new, hhash, hold, hext, rfl⟩ := h.diffs _ d hd
        obtain rfl := eq_of_hashOf hnode hext.node hhash
        obtain ⟨hsnap, hp⟩ := hstored hold hext hread
        exact ⟨.refl h, p, old, new, ⟨hold, hext, hsnap, hd⟩, hp⟩
      · obtain ⟨-, p, old, new, hold, hext, hdiff⟩ | ⟨hnot, hdiff⟩ := h.readDiff hnode
        · rw [hdiff]
          obtain ⟨hsnap, hp⟩ := hstored hold hext hread
          refine ⟨h.cacheDiff hold hext, p, old, new, ⟨hold, hext, hsnap, ?_⟩, hp⟩
          rw [CDeterministicMNManager.cacheDiff, getElem?_insertIfNew_ite, if_pos ⟨rfl, not_contains_iff.mp hcontains⟩]
        · rw [hdiff]
          have hl := ListOf.initial hnode (hwhere.resolve_right hnot)
          exact ⟨h.cacheList hl, hl⟩

/-- The search ends with a list and a path to the block. -/
lemma ManagerWf.wp_searchList (acc : List CBlockIndex) :
    wp (searchList rules b.header b.ancestors acc) (fun r manager' => ReadsOnly tree manager manager' ∧
      ∃ path, r.2 = path ++ acc ∧ PathFrom tree manager' r.1 path b)
      (fun _ _ => False) manager := by
  obtain ⟨header, ancestors⟩ := b
  induction ancestors generalizing header manager acc with
  | nil =>
    refine wp_seq (h.wp_findList hb) fun found manager' hfound => ?_
    obtain ⟨hreads, hfound⟩ := hfound
    cases found with
    | some l => exact ⟨hreads, [], rfl, .found hfound⟩
    | none =>
      obtain ⟨p, old, new, hstep, -⟩ := hfound
      cases hstep.step.pprev
  | cons prev ancestors ih =>
    refine wp_seq (h.wp_findList hb) fun found manager' hfound => ?_
    obtain ⟨hreads, hfound⟩ := hfound
    cases found with
    | some l => exact ⟨hreads, [], rfl, .found hfound⟩
    | none =>
      obtain ⟨p, old, new, hstep, hp⟩ := hfound
      have hpp := hstep.step.pprev
      cases hpp
      refine (ih hreads.wf _ _ hp).imp fun r manager'' hr => ?_
      obtain ⟨hreads', path, hr, hpath⟩ := hr
      have hstep' : CachedStep tree manager'' _ _ old new :=
        { hstep with cached := hreads'.diffs _ _ hstep.cached }
      refine ⟨hreads.trans hreads', path ++ [_], ?_, .diff hpath hstep'⟩
      rw [hr, append_assoc]
      rfl

end

omit [DecidableEq G] in
/-- A difference without changes only sets the block. -/
lemma run_applyDiff_of_no_changes [DecidableEq G] {diff : CDeterministicMNListDiff G}
    (hnone : diff.hasChanges = false) {order : UpdateOrder G} (horder : order.Perm diff.updatedMNs.toList)
    {hash : Uint256} {nHeight : ℤ} {list : CDeterministicMNList G} :
    (applyDiff crypto hash nHeight diff order).run list = .ok () { list with blockHash := hash, nHeight } := by
  unfold CDeterministicMNListDiff.hasChanges at hnone
  simp only [Bool.or_eq_false_iff, Bool.not_eq_false'] at hnone
  obtain ⟨⟨hadded, hupdated⟩, hremoved⟩ := hnone
  have horder : order = [] := by
    rw [← isEmpty_toList, List.isEmpty_iff] at hupdated
    rw [hupdated] at horder
    exact horder.eq_nil
  rw [← Std.ExtTreeSet.isEmpty_toList, List.isEmpty_iff] at hremoved
  rw [List.isEmpty_iff] at hadded
  unfold applyDiff
  rw [horder, hremoved, hadded]
  rfl

/-- A turn of the way forward leads from the list of the predecessor to the one of the block. -/
lemma CachedStep.wp_advanceList (h : CachedStep tree manager b p old new) :
    wp (advanceList rules order old b) (fun l manager' => manager' = manager ∧ ListOf tree b l)
      (fun _ _ => False) manager := by
  have hl := ListOf.after h.listOf h.step
  have horder := order.updates_perm (rules.hashOf b) (old.buildDiff new).updatedMNs
  obtain ⟨-, happly⟩ :=
    h.step.builds.applyDiff_eq h.listOf.spec.1 tree.distinct h.step.encodings (rules.hashOf b) horder
  rw [← CBlockIndex.nHeight_of_pprev h.step.pprev] at happly
  unfold listAfter at hl
  rw [if_neg h.noSnapshot] at hl
  unfold advanceList
  simp only [wp_bind, wp_get, getBlockHash_header, h.cached]
  refine (wp_ite _ _).mpr ⟨fun _ => ?_, fun hnone => ?_⟩
  · change wp (match (applyDiff rules.crypto (rules.hashOf b) b.nHeight (old.buildDiff new) _).run old with
      | .ok _ list => pure list
      | .error e _ => throw e) _ _ _
    rw [happly]
    exact ⟨rfl, hl⟩
  · have hnone' : (old.buildDiff new).hasChanges = false := Bool.eq_false_iff.mpr hnone
    rw [run_applyDiff_of_no_changes hnone' horder] at happly
    injection happly with _ hsame
    rw [← hsame] at hl
    exact ⟨rfl, hl⟩

lemma PathFrom.wp_foldlM {path : List CBlockIndex} (h : PathFrom tree manager l path b) :
    wp (path.foldlM (advanceList rules order) l) (fun l manager' => manager' = manager ∧ ListOf tree b l)
      (fun _ _ => False) manager := by
  induction h with
  | found hl => exact ⟨rfl, hl⟩
  | diff hpath hstep ih =>
    rw [foldlM_append]
    refine wp_seq ih fun l manager' hl => ?_
    obtain ⟨rfl, hl⟩ := hl
    obtain rfl := hl.unique hstep.listOf
    rw [foldlM_cons, wp_bind]
    exact hstep.wp_advanceList

lemma ManagerWf.keepList (h : ManagerWf tree manager)
    (hl : ListOf tree b l) : ReadsOnly tree manager (manager.keepList rules l) := by
  unfold CDeterministicMNManager.keepList
  split
  · exact .refl h
  · split_ifs
    · rw [hl.blockHash]
      exact h.cacheList hl
    · exact .refl h

lemma ManagerWf.wp_getListForBlock (h : ManagerWf tree manager)
    (hb : Available tree manager.evoDb b) (order : IterationOrder G) :
    wp (getListForBlock rules order b) (fun l manager' => ReadsOnly tree manager manager' ∧
      ListOf tree b l) (fun _ _ => False) manager := by
  refine wp_seq (h.wp_searchList hb []) fun r manager' hr => ?_
  obtain ⟨hreads, path, hr, hpath⟩ := hr
  obtain ⟨l, path'⟩ := r
  obtain rfl : path' = path := hr.trans (append_nil path)
  refine wp_seq hpath.wp_foldlM fun snapshot manager'' hs => ?_
  obtain ⟨rfl, hs⟩ := hs
  exact ⟨hreads.trans (hreads.wf.keepList hs), hs⟩

end Reading

/-! ### Blocks -/

variable [DecidableEq G] {tree : BlockTree rules}

open CDeterministicMNManager

/-- What a change of the manager keeps: the invariant, and the blocks that were stored. -/
structure Grows (tree : BlockTree rules) (manager manager' : CDeterministicMNManager G) : Prop where
  wf : ManagerWf tree manager'
  stored : ∀ hash, hash ∈ manager.evoDb.listDiff → hash ∈ manager'.evoDb.listDiff

lemma ReadsOnly.grows (h : ReadsOnly tree manager manager') : Grows tree manager manager' :=
  ⟨h.wf, fun _ hmem => h.evoDb ▸ hmem⟩

lemma Grows.trans (h : Grows tree manager manager') (h' : Grows tree manager' manager'') :
    Grows tree manager manager'' :=
  ⟨h'.wf, fun hash hmem => h'.stored hash (h.stored hash hmem)⟩

lemma Grows.available (h : Grows tree manager manager')
    (hb : Available tree manager.evoDb b) : Available tree manager'.evoDb b :=
  ⟨hb.1, hb.2.imp_right (h.stored _)⟩

/-- Writing the difference of a block, with a snapshot where there has to be one. -/
lemma ManagerWf.write (h : ManagerWf tree manager)
    (hp : Available tree manager.evoDb p) (hold : ListOf tree p old) (hext : Extends tree b p old new)
    {order : UpdateOrder G} (horder : order.Perm (old.buildDiff new).updatedMNs.toList)
    (listSnapshot : Std.ExtTreeMap Uint256 (List UInt8))
    (hkeep : ∀ hash, hash ∈ manager.evoDb.listSnapshot → hash ∈ listSnapshot)
    (hsnap : IsSnapshot b old → rules.hashOf b ∈ listSnapshot)
    (hcorrect : ∀ hash bytes, listSnapshot[hash]? = some bytes →
      manager.evoDb.listSnapshot[hash]? = some bytes ∨ hash = rules.hashOf b ∧ ∃ l, ListOf tree b l ∧
        ∃ order : List (CDeterministicMN G), order.Perm (mns l.mnMap) ∧ bytes = l.serialize rules.crypto.bls order) :
    Grows tree manager { manager with
      evoDb.listDiff := manager.evoDb.listDiff.insert (rules.hashOf b)
        ((old.buildDiff new).serialize rules.crypto.bls order)
      evoDb.listSnapshot := listSnapshot } := by
  generalize hbytes : (old.buildDiff new).serialize rules.crypto.bls order = bytes
  have hmem : ∀ {hash}, hash ∈ manager.evoDb.listDiff → hash ∈ manager.evoDb.listDiff.insert (rules.hashOf b) bytes :=
    fun hm => mem_insert.mpr (.inr hm)
  have hcases : ∀ {b'}, b' ∈ tree.nodes → rules.hashOf b' ∈ manager.evoDb.listDiff.insert (rules.hashOf b) bytes →
      b' = b ∨ rules.hashOf b' ∈ manager.evoDb.listDiff := by
    intro b' hb' hm
    obtain hm | hm := mem_insert.mp hm
    · exact .inl (eq_of_hashOf hext.node hb' (Std.compare_eq_iff_eq.mp hm).symm)
    · exact .inr hm
  refine ⟨{ h with diskDiffs := ?_, diskSnapshots := ?_, closed := ?_, snapshots := ?_ }, fun _ => hmem⟩
  · exact forall_getElem?_insert ⟨b, p, old, new, rfl, hold, hext, order, horder, hbytes.symm⟩ h.diskDiffs
  · intro hash bytes hbytes
    obtain hbytes | ⟨rfl, l, hl, horder⟩ := hcorrect hash bytes hbytes
    · exact h.diskSnapshots hash bytes hbytes
    · exact ⟨b, l, rfl, hl, horder⟩
  · intro b' hb' hm p' hp'
    obtain rfl | hm := hcases hb' hm
    · have hpp := hp'.symm.trans hext.pprev
      cases hpp
      exact hp.2.imp_right hmem
    · exact (h.closed b' hb' hm p' hp').imp_right hmem
  · intro b' p' old' new' hold' hext' hm hs
    obtain rfl | hm := hcases hext'.node hm
    · have hpp := hext.pprev.symm.trans hext'.pprev
      cases hpp
      obtain rfl := hold.unique hold'
      exact hsnap hs
    · exact hkeep _ (h.snapshots b' p' old' new' hold' hext' hm hs)

lemma ManagerWf.storeBlock (h : ManagerWf tree manager) (hp : Available tree manager.evoDb p)
    (hold : ListOf tree p old) (hext : Extends tree b p old new) (order : IterationOrder G) :
    Grows tree manager (manager.storeBlock rules order b old { new with blockHash := rules.hashOf b }) ∧
    Available tree (manager.storeBlock rules order b old { new with blockHash := rules.hashOf b }).evoDb b := by
  have horder := order.updates_perm (rules.hashOf b) (old.buildDiff new).updatedMNs
  have hnew := ListOf.after hold hext
  unfold listAfter at hnew
  unfold CDeterministicMNManager.storeBlock
  by_cases hs : IsSnapshot b old
  · have hs' : b.nHeight.tmod diskSnapshotPeriod = 0 ∨ old.nHeight = -1 := hs
    rw [if_pos hs] at hnew
    simp only [if_pos hs']
    have hwrite := h.write hp hold hext horder
      (manager.evoDb.listSnapshot.insert (rules.hashOf b)
        (({ new with blockHash := rules.hashOf b } : CDeterministicMNList G).serialize rules.crypto.bls
          (order.dmns new.mnMap)))
      (fun _ hm => mem_insert.mpr (.inr hm)) (fun _ => mem_insert_self)
      (forall_getElem?_insert (.inr ⟨rfl, _, hnew, _, order.dmns_perm _, rfl⟩) fun _ _ hbytes => .inl hbytes)
    have hlist := (hwrite.wf.cacheList hnew).grows
    have hdiff := (hlist.wf.cacheDiff hold hext).grows
    exact ⟨(hwrite.trans hlist).trans hdiff, hext.node, .inr mem_insert_self⟩
  · have hs' : ¬(b.nHeight.tmod diskSnapshotPeriod = 0 ∨ old.nHeight = -1) := hs
    simp only [if_neg hs']
    have hwrite := h.write hp hold hext horder _ (fun _ => id) (fun h => absurd h hs) (fun _ _ => .inl)
    have hdiff := (hwrite.wf.cacheDiff hold hext).grows
    exact ⟨hwrite.trans hdiff, hext.node, .inr mem_insert_self⟩

/-- The block passes the checks against a list, and what it builds from it can be written. -/
def PassesChecks (rules : EvoRules G) (tree : BlockTree rules) (b p : CBlockIndex) (list : CDeterministicMNList G) :
    Prop :=
  (∃ checkSigs, ∀ tx ∈ (tree.block b).vtx, checkSpecialTx rules p list (tree.view b) checkSigs tx = .ok ()) ∧
    ∀ new, (buildNewListFromBlock rules p (tree.view b) (tree.block b)).run list = .ok () new → SameEncodings list new

/-- A block that passes the checks and whose list is built extends the list of its predecessor. -/
lemma PassesChecks.extends (h : PassesChecks rules tree b p old) (hb : b ∈ tree.nodes) (hp : b.pprev = some p)
    (hactive : rules.params.DIP0003Height ≤ b.nHeight) (hold : ListOf tree p old)
    (hrun : (buildNewListFromBlock rules p (tree.view b) (tree.block b)).run old = .ok () new) :
    Extends tree b p old new := by
  have htotal := hold.total_le
  have hreg : tree.registered b = _ := registered_of_pprev hp
  have hmax : tree.registered b ≤ maxSize := tree.count b hb
  have hheight := CBlockIndex.nHeight_of_pprev hp ▸ tree.height b hb
  exact ⟨hb, hp, hactive, ⟨fun tx htx => ⟨b, hb, htx⟩, h.1, hrun, hheight, by omega⟩, h.2 new hrun⟩

variable (h : ManagerWf tree manager)

include h

/-- The part of `ProcessBlock` whose exceptions are caught. -/
lemma ManagerWf.wp_tryProcessBlock (hb : b ∈ tree.nodes)
    (hp : b.pprev = some p) (hactive : rules.params.DIP0003Height ≤ b.nHeight)
    (havail : Available tree manager.evoDb p) (order : IterationOrder G)
    (hchecks : ∀ list manager', (getListForBlock rules order p).run manager = .ok list manager' →
      PassesChecks rules tree b p list) (fJustCheck : Bool) :
    wp (tryProcessBlock rules order (tree.block b) p b (tree.view b) fJustCheck)
      (fun r manager' => Grows tree manager manager' ∧
        (r = .ok true → Available tree manager'.evoDb b) ∧ (r = .ok false → fJustCheck = true))
      (fun _ => Grows tree manager) manager := by
  obtain ⟨old, manager₁, hget, hreads, hold⟩ := (h.wp_getListForBlock havail order).exists_ok
  unfold tryProcessBlock
  rw [wp_bind, wp_of_ok hget]
  cases hrun : (buildNewListFromBlock rules p (tree.view b) (tree.block b)).run old with
  | error e list =>
    cases e with
    | invalid reason => exact ⟨hreads.grows, nofun, nofun⟩
    | _ => exact hreads.grows
  | ok u new =>
    refine (wp_ite _ _).mpr ⟨fun hjust => ⟨hreads.grows, nofun, fun _ => hjust⟩, fun _ => ?_⟩
    have hext := (hchecks old manager₁ hget).extends hb hp hactive hold hrun
    obtain ⟨hevolved, -⟩ := hext.builds.evolved hold.spec.1 tree.distinct
    have hheight : new.nHeight ≠ -1 := by
      have hpos := p.nHeight_nonneg
      rw [hevolved.nHeight]
      omega
    rw [if_neg hheight, wp_bind]
    have havail₁ := hreads.grows.available havail
    refine wp_mono (hreads.wf.wp_getListForBlock havail₁ order) (fun old' manager₂ hget' => ?_) nofun
    obtain ⟨hreads', hold'⟩ := hget'
    obtain rfl := hold.unique hold'
    obtain ⟨hgrows, hstored⟩ := hreads'.wf.storeBlock (hreads'.grows.available havail₁) hold hext order
    exact ⟨(hreads.grows.trans hreads'.grows).trans hgrows, fun _ => hstored, nofun⟩

/-- `ProcessBlock` keeps the invariant, and a block that is not refused is stored. -/
lemma ManagerWf.wp_processBlock (hb : b ∈ tree.nodes)
    (havail : ∀ p, b.pprev = some p → Available tree manager.evoDb p) (order : IterationOrder G)
    (hchecks : ∀ p, b.pprev = some p → ∀ list manager', (getListForBlock rules order p).run manager =
      .ok list manager' →
      PassesChecks rules tree b p list) (fJustCheck : Bool) :
    wp (processBlock rules order (tree.block b) b (tree.view b) fJustCheck)
      (fun r manager' => Grows tree manager manager' ∧
        (r = none → fJustCheck = false → Available tree manager'.evoDb b))
      (fun _ => Grows tree manager) manager := by
  have hsame : Grows tree manager manager := (ReadsOnly.refl h).grows
  refine (wp_ite _ _).mpr ⟨fun hbelow => ⟨hsame, fun _ _ => ⟨hb, .inl hbelow⟩⟩, fun hactive => ?_⟩
  cases hp : b.pprev with
  | none => exact hsame
  | some p =>
    rw [wp_bind, wp_tryCatch]
    refine wp_mono (h.wp_tryProcessBlock hb hp (not_lt.mp hactive) (havail p hp) order (hchecks p hp) fJustCheck)
      (fun r manager' hr => ?_) (fun _ manager' hgrows => ⟨hgrows, nofun⟩)
    obtain ⟨hgrows, hstored, hjust⟩ := hr
    cases r with
    | error reason => exact ⟨hgrows, nofun⟩
    | ok isStored =>
      cases isStored with
      | false =>
        refine ⟨hgrows, fun _ hfalse => ?_⟩
        rw [hjust rfl] at hfalse
        cases hfalse
      | true =>
        refine (wp_ite _ _).mpr ⟨fun _ => ⟨hgrows, nofun⟩, fun _ => ?_⟩
        exact ⟨⟨{ hgrows.wf with }, hgrows.stored⟩, fun _ _ => hstored rfl⟩

lemma ManagerWf.forgetBlock (hash : Uint256) : Grows tree manager (manager.forgetBlock hash) := by
  refine ⟨{ h with lists := fun hash' l hl => ?_, diffs := fun hash' d hd => ?_ }, fun _ => id⟩
  · rw [CDeterministicMNManager.forgetBlock, getElem?_erase_ite] at hl
    split_ifs at hl
    exact h.lists hash' l hl
  · rw [CDeterministicMNManager.forgetBlock, getElem?_erase_ite] at hd
    split_ifs at hd
    exact h.diffs hash' d hd

/-- `UndoBlock` keeps the invariant, and succeeds for every block after the first one. -/
lemma ManagerWf.wp_undoBlock (hb : Available tree manager.evoDb b) (order : IterationOrder G) :
    wp (undoBlock rules order b) (fun _ => Grows tree manager) (fun _ _ => b.pprev = none) manager := by
  have hread : wp (readChangedLists rules order b) (fun _ => Grows tree manager)
      (fun _ _ => b.pprev = none) manager := by
    unfold readChangedLists
    rw [wp_bind]
    refine wp_mono (h.wp_getListForBlock hb order) (fun _ manager₁ hr => ?_) nofun
    obtain ⟨hreads, -⟩ := hr
    cases hp : b.pprev with
    | none => exact rfl
    | some p =>
      have hpb : Available tree manager.evoDb p := by
        refine ⟨tree.pprev_mem hb.1 hp, ?_⟩
        obtain hbelow | hmem := hb.2
        · have hheight := CBlockIndex.nHeight_of_pprev hp
          exact .inl (by omega)
        · exact h.closed b hb.1 hmem p hp
      rw [wp_bind]
      exact wp_mono (hreads.wf.wp_getListForBlock (hreads.grows.available hpb) order)
        (fun _ _ hr => hreads.grows.trans hr.1.grows) nofun
  refine (wp_ite _ _).mpr ⟨fun _ => (wp_bind _ _ _).mpr ?_, fun _ => h.forgetBlock _⟩
  exact hread.imp fun _ _ hgrows => hgrows.trans (hgrows.wf.forgetBlock _)

lemma ManagerWf.cleanupCache (nHeight : ℤ) : Grows tree manager (manager.cleanupCache rules nHeight) :=
  ⟨{ h with
    lists := fun hash l hl => h.lists hash l (getElem?_of_filter hl)
    diffs := fun hash d hd => h.diffs hash d (getElem?_of_filter hd) }, fun _ => id⟩

lemma ManagerWf.doMaintenance : Grows tree manager (manager.doMaintenance rules) := by
  unfold CDeterministicMNManager.doMaintenance
  split_ifs
  · exact (ReadsOnly.refl h).grows
  · obtain ⟨hwf, hstored⟩ := h.cleanupCache manager.toCleanup
    exact ⟨{ hwf with }, hstored⟩

end Blocx
