import Blocx.Llmq.MineableCommitments
import Mathlib.Data.Set.Card

/-!
# The pool of mineable commitments

`minableCommitmentsByQuorum` refers to the entries of `minableCommitments` by their hashes. Every reference resolves,
whatever happens (`Pool`). That every entry is referred to is lost in two places: `AddMineableCommitment` puts the new
hash in place before it erases the entry of the hash that is there, so the commitment with fewer signers stays; and
`ProcessCommitment` erases the entry of the commitment that was mined, not of the one that was kept for its quorum. In
runs without such a replacement the entries are exactly those of the quorums (`Tight`).
-/

namespace Blocx

open List Option

open Consensus

namespace CQuorumBlockProcessor

open PoolRun

variable {rules : QuorumRules} {p q : CQuorumBlockProcessor} {qc : CFinalCommitment} {seen qcs : List CFinalCommitment}
  {pindex : CBlockIndex}

variable (rules) in
/-- A pool in which every commitment is the one of its quorum. -/
structure Tight (seen : List CFinalCommitment) (p : CQuorumBlockProcessor) : Prop extends Pool rules seen p where
  stored : ∀ hash qc, p.minableCommitments hash = some qc → p.minableCommitmentsByQuorum qc.quorumKey = some hash
  caches : p.CachesRight p.tables

def NoneFewer (p : CQuorumBlockProcessor) (qc : CFinalCommitment) : Prop :=
  (p.kept qc.quorumKey).all (qc.countSigners ≤ ·.countSigners)

/-! ### Adding -/

lemma Tight.keep (h : p.Tight rules seen) (hapart : HashesApart rules seen) (hmem : qc ∈ seen)
    (hnone : p.minableCommitmentsByQuorum qc.quorumKey = none) : (p.keep rules qc).Tight rules seen where
  toPool := pool_keep h.toPool hapart hmem
  caches := h.caches
  stored hash qc' hqc' := by
    obtain ⟨rfl, rfl⟩ | ⟨-, hqc'⟩ := update_some_eq_some_iff.mp hqc'
    · exact Function.update_self ..
    · have hkey := h.stored hash qc' hqc'
      refine update_some_eq_some_iff.mpr (.inr ⟨fun heq => ?_, hkey⟩)
      rw [heq, hnone] at hkey
      cases hkey

/-- `AddMineableCommitment` does not throw where every reference resolves. -/
lemma Pool.isSome_addMineableCommitment (h : p.Pool rules seen) (qc : CFinalCommitment) :
    (p.addMineableCommitment rules qc).isSome := by
  unfold addMineableCommitment
  cases hold : p.minableCommitmentsByQuorum qc.quorumKey with
  | none => rfl
  | some oldHash =>
    obtain ⟨oldFqc, holdFqc, -⟩ := h.listed _ _ hold
    simp only [holdFqc, bind_eq_bind, bind_some]
    split_ifs <;> rfl

section

variable (h : p.Tight rules seen) (hapart : HashesApart rules seen)

include h hapart

lemma Tight.add (hmem : qc ∈ seen) (hnone : p.NoneFewer qc) (hq : p.addMineableCommitment rules qc = some q) :
    q.Tight rules seen ∧ ∀ key, key ≠ qc.quorumKey → q.kept key = p.kept key := by
  rw [addMineableCommitment_eq h.toPool hapart hmem] at hq
  obtain rfl := some.inj hq
  unfold NoneFewer at hnone
  cases hold : p.kept qc.quorumKey with
  | none =>
    refine ⟨h.keep hapart hmem (eq_none_iff_forall_ne_some.mpr fun hash hkey => ?_), fun key hne => ?_⟩
    · obtain ⟨qc', hqc', -⟩ := h.listed _ hash hkey
      simp [kept, hkey, hqc'] at hold
    · simp [kept_keep h.toPool hapart hmem, hne]
  | some old =>
    rw [hold] at hnone
    rw [if_neg (by simpa using hnone)]
    exact ⟨h, fun _ _ => rfl⟩

/-! ### Connecting and disconnecting blocks -/

/-- The commitments of a connected block are dropped. -/
lemma Tight.drops (hdrops : p.Drops rules qcs q) (hseen : qcs ⊆ seen) (hcaches : q.CachesRight q.tables)
    (hown : ∀ qc ∈ qcs, qc.isNull = false → ∀ hash, p.minableCommitmentsByQuorum qc.quorumKey = some hash →
      hash = rules.serializeHash qc) : q.Tight rules seen where
  toPool := (pool_drops h.toPool hapart hdrops hseen).1
  caches := hcaches
  stored hash qc hqc := by
    obtain ⟨dropped, hmem, hkeys, hhashes⟩ := hdrops
    rw [hhashes, withoutKeys_eq_some_iff] at hqc
    have hkey := h.stored hash qc hqc.2
    rw [hkeys, withoutKeys_eq_some_iff]
    refine ⟨fun hdropped => hqc.1 ?_, hkey⟩
    -- what is dropped for its quorum is the entry itself
    obtain ⟨qc', hqc', heq⟩ := mem_map.mp hdropped
    rw [← heq] at hkey
    exact mem_map.mpr ⟨qc', hqc', (hown qc' (hmem qc' hqc').1 (hmem qc' hqc').2 hash hkey).symm⟩

lemma tight_undoCommitment (hmem : qc ∈ seen)
    (hnone : qc.isNull = false → p.NoneFewer qc) (hq : p.undoCommitment rules pindex qc = some q) :
    q.Tight rules seen ∧ ∀ key, (qc.isNull = false → key ≠ qc.quorumKey) → q.kept key = p.kept key := by
  unfold undoCommitment at hq
  cases hnull : qc.isNull with
  | true =>
    rw [if_pos hnull] at hq
    obtain rfl := some.inj hq
    exact ⟨h, fun _ _ => rfl⟩
  | false =>
    rw [if_neg (by simp [hnull])] at hq
    obtain ⟨params, -, hq⟩ := bind_eq_some_iff.mp hq
    generalize hp' : CQuorumBlockProcessor.mk _ _ _ _ _ = p' at hq
    have htight' : p'.Tight rules seen := by
      subst hp'
      refine ⟨⟨h.keyed, h.listed⟩, h.stored, fun key b hb => ?_⟩
      obtain ⟨hne, hb⟩ := cached_erase.mp hb
      exact (h.caches key b hb).trans (congrArg _ (Function.update_of_ne hne _ _).symm)
    have hkept' : p'.kept = p.kept := by subst hp'; rfl
    obtain ⟨htight, hkept⟩ := htight'.add hapart hmem (by rw [NoneFewer, hkept']; exact hnone hnull) hq
    exact ⟨htight, fun key hne => (hkept key (hne rfl)).trans (congrFun hkept' key)⟩

/-- The loop of `UndoBlock` over commitments of different quorums. -/
lemma Tight.undo (hseen : qcs ⊆ seen)
    (hdistinct : Distinct qcs) (hnone : ∀ qc ∈ qcs, qc.isNull = false → p.NoneFewer qc)
    (hq : qcs.foldlM (undoCommitment rules · pindex ·) p = some q) : q.Tight rules seen := by
  induction qcs generalizing p with
  | nil => exact some.inj hq ▸ h
  | cons qc qcs ih =>
    rw [foldlM_cons] at hq
    obtain ⟨p', hp', hq⟩ := bind_eq_some_iff.mp hq
    obtain ⟨hmem, hrest⟩ := cons_subset.mp hseen
    obtain ⟨hother, hdistinct⟩ := pairwise_cons.mp hdistinct
    obtain ⟨htight, hkept⟩ := tight_undoCommitment h hapart hmem (hnone qc mem_cons_self) hp'
    refine ih htight hrest hdistinct (fun qc' hqc' hnull => ?_) hq
    unfold NoneFewer
    rw [hkept _ fun hqc => (hother qc' hqc' hqc hnull).symm]
    exact hnone qc' (mem_cons_of_mem _ hqc') hnull

end

/-! ### Runs -/

/-- What happens to the pool. -/
inductive PoolChange where
  | add (fqc : CFinalCommitment)
  /-- `ProcessBlock`, with any tip and flags. -/
  | connect (active : Option CBlockIndex) (block : CommitmentBlock) (pindex : CBlockIndex)
    (fJustCheck fBLSChecks : Bool)
  | disconnect (block : CommitmentBlock) (pindex : CBlockIndex)

/-- The commitments that come with a change. -/
def PoolChange.commitments : PoolChange → List CFinalCommitment
  | .add fqc => [fqc]
  | .connect _ block _ _ _ => block.commitments
  | .disconnect block _ => block.commitments

/-- A change. The database forgets a block that was refused or only checked, the memory does not. -/
def change (rules : QuorumRules) (p : CQuorumBlockProcessor) : PoolChange → CQuorumBlockProcessor
  | .add fqc => (p.addMineableCommitment rules fqc).getD p
  | .connect active block pindex fJustCheck fBLSChecks =>
    let (result, q) := p.processBlock rules active block pindex fJustCheck fBLSChecks
    if result.isOk && !fJustCheck then q else { q with tables := p.tables, bestBlock := p.bestBlock }
  | .disconnect block pindex => (p.undoBlock rules block pindex).toOption.getD p

/-- A commitment that is added or disconnected replaces none, one that is mined is the one that was kept, if any; and no
two commitments of a block are for one quorum. -/
def ReplacesNone (rules : QuorumRules) (p : CQuorumBlockProcessor) : PoolChange → Prop
  | .add fqc => p.NoneFewer fqc
  | .connect _ block _ _ _ => Distinct block.commitments ∧ ∀ qc ∈ block.commitments, qc.isNull = false →
      ∀ hash, p.minableCommitmentsByQuorum qc.quorumKey = some hash → hash = rules.serializeHash qc
  | .disconnect block _ => Distinct block.commitments ∧ ∀ qc ∈ block.commitments, qc.isNull = false → p.NoneFewer qc

lemma tight_change (h : p.Tight rules seen) (hapart : HashesApart rules seen) {e : PoolChange}
    (hseen : e.commitments ⊆ seen) (he : p.ReplacesNone rules e) : (p.change rules e).Tight rules seen := by
  cases e with
  | add fqc =>
    obtain ⟨q, hq⟩ := isSome_iff_exists.mp (h.isSome_addMineableCommitment fqc)
    rw [change, hq]
    exact (h.add hapart (hseen mem_cons_self) he hq).1
  | connect active block pindex fJustCheck fBLSChecks =>
    obtain ⟨hdistinct, hown⟩ := he
    unfold change
    dsimp only
    generalize hr : p.processBlock rules active block pindex fJustCheck fBLSChecks = r
    obtain ⟨hright, hdrops, -⟩ := processBlock_spec h.caches hr
    have hback := processBlock_rollback h.caches hr fun _ => hdistinct
    split_ifs
    · exact h.drops hapart hdrops hseen hright hown
    · exact h.drops hapart hdrops hseen hback hown
  | disconnect block pindex =>
    obtain ⟨hdistinct, hnone⟩ := he
    rw [change, undoBlock]
    cases hread : rules.getCommitmentsFromBlock block pindex with
    | error e => exact h
    | ok qcs =>
      have hperm := perm_getCommitmentsFromBlock hread
      dsimp only
      cases hq : qcs.foldlM (undoCommitment rules · pindex ·) p with
      | none => exact h
      | some q =>
        have hdistinct' : Distinct qcs := (hperm.pairwise_iff fun {_ _} hne hx hy => (hne hy hx).symm).mpr hdistinct
        have htight := h.undo hapart (fun qc hqc => hseen (hperm.subset hqc)) hdistinct'
          (fun qc hqc => hnone qc (hperm.subset hqc)) hq
        exact ⟨⟨htight.keyed, htight.listed⟩, htight.stored, htight.caches⟩

/-- There are as many commitments as quorums. -/
lemma Tight.encard_eq (h : p.Tight rules seen) :
    {hash | (p.minableCommitments hash).isSome}.encard = {key | (p.minableCommitmentsByQuorum key).isSome}.encard := by
  have himage : {hash | (p.minableCommitments hash).isSome} = (fun key => (p.minableCommitmentsByQuorum key).getD 0) ''
      {key | (p.minableCommitmentsByQuorum key).isSome} := by
    ext hash
    constructor
    · intro hsome
      obtain ⟨qc, hqc⟩ := isSome_iff_exists.mp hsome
      exact ⟨qc.quorumKey, by simp [h.stored hash qc hqc], by simp [h.stored hash qc hqc]⟩
    · rintro ⟨key, hsome, rfl⟩
      obtain ⟨hash', hkey⟩ := isSome_iff_exists.mp hsome
      obtain ⟨qc, hqc, -⟩ := h.listed key hash' hkey
      simp [hkey, hqc]
  rw [himage]
  refine Set.InjOn.encard_image fun key hkey key' hkey' heq => ?_
  obtain ⟨hash, hhash⟩ := isSome_iff_exists.mp hkey
  obtain ⟨hash', hhash'⟩ := isSome_iff_exists.mp hkey'
  obtain rfl : hash = hash' := by simpa [hhash, hhash'] using heq
  obtain ⟨qc, hqc, rfl⟩ := h.listed key hash hhash
  obtain ⟨qc', hqc', rfl⟩ := h.listed key' hash hhash'
  rw [some.inj (hqc.symm.trans hqc')]

/-- In every run in which no commitment is replaced by another one, every stored commitment is the one of its quorum and
every reference resolves; there are as many as quorums, and the next call does not throw. -/
theorem minableCommitments_tight (rules : QuorumRules) (seen : List CFinalCommitment) (hapart : HashesApart rules seen)
    (p : CQuorumBlockProcessor) (hstored : p.minableCommitments = fun _ => none)
    (hlisted : p.minableCommitmentsByQuorum = fun _ => none) (hcaches : p.CachesRight p.tables)
    (events : List PoolChange)
    (hseen : ∀ e ∈ events, e.commitments ⊆ seen) (hnone : Along (change rules) (ReplacesNone rules) p events) :
    let q := events.foldl (change rules) p
    (∀ hash qc, q.minableCommitments hash = some qc → q.minableCommitmentsByQuorum qc.quorumKey = some hash) ∧
      (∀ key hash, q.minableCommitmentsByQuorum key = some hash →
        ∃ qc, q.minableCommitments hash = some qc ∧ qc.quorumKey = key) ∧
      {hash | (q.minableCommitments hash).isSome}.encard = {key | (q.minableCommitmentsByQuorum key).isSome}.encard ∧
      ∀ fqc, (q.addMineableCommitment rules fqc).isSome := by
  have hstart : p.Tight rules seen := ⟨⟨by simp [hstored], by simp [hlisted]⟩, by simp [hstored], hcaches⟩
  have htight := ((along_of_mem hseen).and hnone).inv (I := Tight rules seen)
    (fun _ _ h he => tight_change h hapart he.1 he.2) hstart
  exact ⟨htight.stored, htight.listed, htight.encard_eq, htight.isSome_addMineableCommitment⟩

theorem minableCommitments_tight_toySigned :
    let events := [.add (toySigned true), .add (toySigned false)]
    let q := events.foldl (change toyPoolRules) toyPoolStart.processor
    Along (change toyPoolRules) (ReplacesNone toyPoolRules) toyPoolStart.processor events ∧
      (∀ hash qc, q.minableCommitments hash = some qc → q.minableCommitmentsByQuorum qc.quorumKey = some hash) ∧
      {hash | (q.minableCommitments hash).isSome}.encard =
        {key | (q.minableCommitmentsByQuorum key).isSome}.encard := by
  intro events q
  have hnone : Along (change toyPoolRules) (ReplacesNone toyPoolRules) toyPoolStart.processor events :=
    ⟨rfl, rfl, trivial⟩
  obtain ⟨hstored, -, hcard, -⟩ := minableCommitments_tight toyPoolRules [toySigned true, toySigned false]
    (by decide +kernel) toyPoolStart.processor rfl rfl nofun events (by decide +kernel) hnone
  exact ⟨hnone, hstored, hcard⟩

/-- The commitment with three signers comes second: the one with two stays in the pool, and no quorum has it. -/
theorem minableCommitments_leak :
    let q := [.add (toySigned false), .add (toySigned true)].foldl (change toyPoolRules) toyPoolStart.processor
    q.minableCommitments (toyPoolRules.serializeHash (toySigned false)) = some (toySigned false) ∧
      q.minableCommitmentsByQuorum (toySigned false).quorumKey ≠ some
        (toyPoolRules.serializeHash (toySigned false)) := by
  decide +kernel

end CQuorumBlockProcessor

end Blocx
