import Blocx.Primitives.Block
import Mathlib.Data.List.Sort

/-!
# The block index

A `CBlockIndex` is a header together with the headers before it, from its parent back to the genesis block. The parts
of an index entry that never change are in it; what changes, the validity status, is kept by the block map. Two
pointers to index entries are equal exactly when the entries have one block hash, so pointers are compared by hash.
-/

namespace Blocx

open List

/-- The unchanging part of a `CBlockIndex`. -/
structure CBlockIndex where
  header : CBlockHeader
  /-- The headers before it, the parent first. -/
  ancestors : List CBlockHeader
  deriving DecidableEq

namespace CBlockIndex

variable {pindex p : CBlockIndex} {height : ℤ}

def nHeight (pindex : CBlockIndex) : ℤ := pindex.ancestors.length

def pprev (pindex : CBlockIndex) : Option CBlockIndex :=
  match pindex.ancestors with
  | [] => none
  | h :: hs => some ⟨h, hs⟩

/-- The entry of a header that builds on another. -/
def child (pindexPrev : CBlockIndex) (block : CBlockHeader) : CBlockIndex :=
  ⟨block, pindexPrev.header :: pindexPrev.ancestors⟩

/-- The header and the ones before it, the header first. -/
def chain (pindex : CBlockIndex) : List CBlockHeader := pindex.header :: pindex.ancestors

def getBlockTime (pindex : CBlockIndex) : ℤ := pindex.header.nTime.toNat

def getAncestor (pindex : CBlockIndex) (height : ℤ) : Option CBlockIndex :=
  if height > pindex.nHeight ∨ height < 0 then none
  else match pindex.chain.drop (pindex.nHeight - height).toNat with
    | [] => none
    | h :: hs => some ⟨h, hs⟩

def nMedianTimeSpan : ℕ := 11

/-- `GetMedianTimePast`: the median of the last eleven times. -/
def getMedianTimePast (pindex : CBlockIndex) : ℤ :=
  let pmedian := ((pindex.chain.take nMedianTimeSpan).map fun h => (h.nTime.toNat : ℤ)).insertionSort (· ≤ ·)
  pmedian.getD (pmedian.length / 2) 0

lemma nHeight_nonneg (pindex : CBlockIndex) : 0 ≤ pindex.nHeight := Int.natCast_nonneg _

lemma nHeight_succ_ne (pindex : CBlockIndex) : pindex.nHeight + 1 ≠ -1 := by
  have hpos := pindex.nHeight_nonneg
  omega

@[simp]
lemma nHeight_child (pindexPrev : CBlockIndex) (block : CBlockHeader) :
    (pindexPrev.child block).nHeight = pindexPrev.nHeight + 1 := by
  simp [child, nHeight]

lemma eq_child_of_pprev {b : CBlockIndex} (h : b.pprev = some p) : b = p.child b.header := by
  obtain ⟨header, ancestors⟩ := b
  cases ancestors with
  | nil => cases h
  | cons prev ancestors =>
    cases h
    rfl

lemma nHeight_of_pprev {b : CBlockIndex} (h : b.pprev = some p) : b.nHeight = p.nHeight + 1 := by
  rw [eq_child_of_pprev h, nHeight_child]

lemma getMedianTimePast_of_const {t : BitVec 32} (h : ∀ g ∈ pindex.chain, g.nTime = t) :
    pindex.getMedianTimePast = t.toNat := by
  unfold getMedianTimePast
  generalize hl : ((pindex.chain.take nMedianTimeSpan).map fun h => (h.nTime.toNat : ℤ)) = l
  have hlen : 0 < l.length := by
    rw [← hl, length_map, length_take, chain, length_cons, nMedianTimeSpan]
    omega
  have hmem : ∀ x ∈ l, x = (t.toNat : ℤ) := by
    rintro x hx
    rw [← hl] at hx
    obtain ⟨g, hg, rfl⟩ := mem_map.mp hx
    rw [h g (mem_of_mem_take hg)]
  have hi : (l.insertionSort (· ≤ ·)).length / 2 < (l.insertionSort (· ≤ ·)).length := by
    rw [length_insertionSort]
    omega
  rw [getD_eq_getElem?_getD, getElem?_eq_getElem hi, Option.getD_some]
  exact hmem _ ((mem_insertionSort _).mp (getElem_mem hi))

lemma getAncestor_of_le (h0 : 0 ≤ height) (h : height ≤ pindex.nHeight) :
    ∃ p, pindex.getAncestor height = some p ∧ p.nHeight = height := by
  have hlen : (pindex.chain.drop (pindex.nHeight - height).toNat).length = height.toNat + 1 := by
    unfold nHeight at h ⊢
    rw [length_drop, chain, length_cons]
    omega
  unfold getAncestor
  rw [if_neg (by omega)]
  cases hd : pindex.chain.drop (pindex.nHeight - height).toNat with
  | nil =>
    rw [hd, length_nil] at hlen
    omega
  | cons g gs =>
    refine ⟨⟨g, gs⟩, rfl, ?_⟩
    rw [hd, length_cons] at hlen
    unfold nHeight
    dsimp only
    omega

lemma getAncestor_eq_some_iff : pindex.getAncestor height = some p ↔
      (0 ≤ height ∧ height ≤ pindex.nHeight) ∧ pindex.chain.drop (pindex.nHeight - height).toNat = p.chain := by
  unfold getAncestor
  split_ifs with h
  · simp only [false_iff, not_and]
    omega
  · cases pindex.chain.drop (pindex.nHeight - height).toNat with
    | nil => simp [chain]
    | cons g gs =>
      obtain ⟨header, ancestors⟩ := p
      simp only [Option.some.injEq, mk.injEq, chain, cons.injEq]
      constructor
      · exact fun heq => ⟨by omega, heq⟩
      · exact fun heq => heq.2

lemma nHeight_of_getAncestor (h : pindex.getAncestor height = some p) : p.nHeight = height := by
  obtain ⟨⟨h0, hle⟩, -⟩ := getAncestor_eq_some_iff.mp h
  obtain ⟨p', hp', hheight⟩ := getAncestor_of_le h0 hle
  rw [h] at hp'
  obtain rfl := Option.some.inj hp'
  exact hheight

lemma getAncestor_getAncestor {height' : ℤ} (h : pindex.getAncestor height = some p) (hle : height' ≤ height) :
    p.getAncestor height' = pindex.getAncestor height' := by
  have hp := nHeight_of_getAncestor h
  obtain ⟨⟨h0, hle'⟩, hdrop⟩ := getAncestor_eq_some_iff.mp h
  apply Option.ext
  intro q
  rw [getAncestor_eq_some_iff, getAncestor_eq_some_iff, hp, ← hdrop, drop_drop]
  have hsum : (pindex.nHeight - height).toNat + (height - height').toNat = (pindex.nHeight - height').toNat := by omega
  rw [hsum]
  constructor
  · exact fun hq => ⟨⟨hq.1.1, by omega⟩, hq.2⟩
  · exact fun hq => ⟨⟨hq.1.1, hle⟩, hq.2⟩

lemma getAncestor_child {pindexPrev : CBlockIndex} {block : CBlockHeader}
    (h : height ≤ pindexPrev.nHeight) : (pindexPrev.child block).getAncestor height =
      pindexPrev.getAncestor height := by
  have hheight := nHeight_child pindexPrev block
  apply Option.ext
  intro q
  rw [getAncestor_eq_some_iff, getAncestor_eq_some_iff, hheight]
  have hsucc : (pindexPrev.nHeight + 1 - height).toNat = (pindexPrev.nHeight - height).toNat + 1 := by omega
  have hchain : (pindexPrev.child block).chain = block :: pindexPrev.chain := rfl
  rw [hsucc, hchain, drop_succ_cons]
  constructor
  · exact fun hq => ⟨⟨hq.1.1, h⟩, hq.2⟩
  · exact fun hq => ⟨⟨hq.1.1, by omega⟩, hq.2⟩

end CBlockIndex

end Blocx
