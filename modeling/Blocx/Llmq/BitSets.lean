import Blocx.Evo.DmnList
import Blocx.Llmq.Commitment

/-!
# Bit sets from the network

The readers of `serialize.h` that fill a vector of bits, together with the positions of the vector that they write to
(`BitSetRead`). A reader is safe when all these positions are in the vector, also if it throws later, and when the
vector that it leaves has the size that was asked for.

`ReadFixedBitSet` writes to every position once. `ReadFixedVarIntsBitSet` adds offsets from the stream to a signed
index. An index that is not above the last one is refused, but only after the first offset: the start value of the index
is taken for the mark that there is no last one. So a first offset above 2³¹ gives a negative index that no check
refuses.
-/

namespace Blocx

variable {size : ℕ} {s rest : List UInt8} {vec : List Bool} {last : ℤ}

open Wire List
open CDeterministicMNList (toInt32)

/-- What a reader of a bit set has done. -/
structure BitSetRead where
  /-- The positions of the vector that it wrote to. -/
  written : List ℤ := []
  /-- The vector and the rest of the stream, if it did not throw. -/
  result : Option (List Bool × List UInt8) := none

/-- It wrote to the vector only, and left it with its size. -/
structure BitSetRead.Safe (size : ℕ) (r : BitSetRead) : Prop where
  written : ∀ p ∈ r.written, 0 ≤ p ∧ p < size
  length : ∀ vec rest, r.result = some (vec, rest) → vec.length = size

/-! ### The readers -/

/-- `ReadFixedBitSet`. All bits are written before those beyond the size are looked at. -/
def readFixedBitSet (size : ℕ) (s : List UInt8) : BitSetRead :=
  match (Reader.bytes ((size + 7) / 8)).run s with
  | none => {}
  | some _ => { written := (range size).map fun p : ℕ => (p : ℤ), result := (Reader.getFixedBitSet size).run s }

/-- The reader of `DynamicBitSetFormatter`. -/
def readDynBitSet (s : List UInt8) : BitSetRead :=
  match (Reader.getCompactSize maxSize).run s with
  | none => {}
  | some (size, rest) => readFixedBitSet size rest

lemma varIntFrom_bounds {n m : ℕ} (h : varIntFrom 32 n s = some (m, rest)) : m < 2 ^ 32 ∧ rest.length < s.length := by
  induction s generalizing n with
  | nil => simp [varIntFrom] at h
  | cons b s ih =>
    rw [varIntFrom] at h
    split_ifs at h
    · obtain ⟨rfl, rfl⟩ := h
      exact ⟨by omega, by simp⟩
    · obtain ⟨hlt, hlength⟩ := ih h
      exact ⟨hlt, by simp; omega⟩

/-- The loop of `ReadFixedVarIntsBitSet`. A write outside of the vector changes other memory. -/
def readVarIntsFrom (size : ℕ) (last : ℤ) (vec : List Bool) (s : List UInt8) : BitSetRead :=
  match _hread : (Reader.getVarInt 32).run s with
  | none => {}
  | some (offset, rest) =>
    if offset = 0 then { result := some (vec, rest) }
    else
      let idx := toInt32 (last + offset)
      if toInt32 size ≤ idx then {}
      else if last ≠ -1 ∧ idx ≤ last then {}
      else
        let next := readVarIntsFrom size idx (if 0 ≤ idx then vec.set idx.toNat true else vec) rest
        { next with written := idx :: next.written }
termination_by s.length
decreasing_by exact (varIntFrom_bounds _hread).2

lemma readVarIntsFrom_of_read {offset : ℕ} (hread : (Reader.getVarInt 32).run s = some (offset, rest)) :
    readVarIntsFrom size last vec s =
      if offset = 0 then { result := some (vec, rest) }
      else if toInt32 size ≤ toInt32 (last + offset) then {}
      else if last ≠ -1 ∧ toInt32 (last + offset) ≤ last then {}
      else
        let idx := toInt32 (last + offset)
        let next := readVarIntsFrom size idx (if 0 ≤ idx then vec.set idx.toNat true else vec) rest
        { next with written := idx :: next.written } := by
  rw [readVarIntsFrom]
  split
  next hnone => simp [hread] at hnone
  next offset' rest' hread' =>
    simp only [hread, Option.some.injEq, Prod.mk.injEq] at hread'
    obtain ⟨rfl, rfl⟩ := hread'
    rfl

def readFixedVarIntsBitSet (size : ℕ) (s : List UInt8) : BitSetRead :=
  readVarIntsFrom size (-1) (replicate size false) s

def readAutoBitSet (size : ℕ) : List UInt8 → BitSetRead
  | [] => {}
  | isVarInts :: s =>
    if isVarInts ≠ 0 ∧ isVarInts ≠ 1 then {}
    else if isVarInts = 0 then readFixedBitSet size s
    else readFixedVarIntsBitSet size s

/-! ### Safety -/

lemma safe_default : ({} : BitSetRead).Safe size := ⟨by simp, by simp⟩

lemma run_getFixedBitSet (h : (Reader.getFixedBitSet size).run s = some (vec, rest)) :
    ∃ vBytes, vBytes.length = (size + 7) / 8 ∧ vBytes ++ rest = s ∧ leValue vBytes < 2 ^ size ∧
      (range size).map (leValue vBytes).testBit = vec := by
  obtain ⟨vBytes, mid, hread, hcheck⟩ := Reader.run_bind_eq_some h
  unfold Reader.bytes Reader.run at hread
  unfold Reader.check at hcheck
  dsimp only at hread
  split_ifs at hread hcheck with hlength hlt
  · simp only [Reader.run_pure, Option.some.injEq, Prod.mk.injEq] at hread hcheck
    obtain ⟨⟨rfl, rfl⟩, rfl, rfl⟩ := And.intro hread hcheck
    exact ⟨_, by simp; omega, take_append_drop .., of_decide_eq_true hlt, rfl⟩
  · cases hcheck

lemma result_readFixedBitSet : (readFixedBitSet size s).result = (Reader.getFixedBitSet size).run s := by
  unfold readFixedBitSet Reader.getFixedBitSet
  split
  next hnone => simp [Reader.run_bind, hnone]
  next => rfl

lemma safe_readFixedBitSet : (readFixedBitSet size s).Safe size := by
  unfold readFixedBitSet
  split
  · exact safe_default
  · refine ⟨by simp, fun vec rest h => ?_⟩
    obtain ⟨vBytes, -, -, -, rfl⟩ := run_getFixedBitSet h
    simp

lemma toInt32_of_nonneg {x : ℤ} (h0 : 0 ≤ x) (h : x < 2 ^ 31) : toInt32 x = x := by
  unfold toInt32
  rw [Int.bmod_eq_of_le] <;> omega

lemma toInt32_size (hsize : size ≤ maxSize) : toInt32 size = size := by
  unfold maxSize at hsize
  exact toInt32_of_nonneg (by omega) (by omega)

/-- The first offset of a stream, if there is one, does not take the index beyond the positive numbers. -/
def FirstOffsetOk (s : List UInt8) : Prop :=
  ∀ offset rest, (Reader.getVarInt 32).run s = some (offset, rest) → offset ≤ 2 ^ 31

/-- The loop is safe once the index is not negative, as it only grows, and before if the first offset is small
enough. -/
lemma safe_readVarIntsFrom (hsize : size ≤ maxSize) (hlast : 0 ≤ last ∧ last < size ∨ last = -1 ∧
    FirstOffsetOk s) (hvec : vec.length = size) :
    (readVarIntsFrom size last vec s).Safe size := by
  fun_induction readVarIntsFrom size last vec s with
  | case1 | case3 | case4 => exact safe_default
  | case2 => exact ⟨by simp, by simp [hvec]⟩
  | case5 last vec s offset rest hread hoffset idx hbound hgrows next ih =>
    rw [toInt32_size hsize, not_le] at hbound
    have hidx : 0 ≤ idx := by
      obtain ⟨hlast, -⟩ | ⟨rfl, hfirst⟩ := hlast
      · have hne : last ≠ -1 := by omega
        exact (hlast.trans_lt (not_le.mp fun hle => hgrows ⟨hne, hle⟩)).le
      · have hle := hfirst offset rest hread
        have heq : idx = -1 + offset := toInt32_of_nonneg (by omega) (by omega)
        omega
    obtain ⟨hwritten, hlength⟩ := ih (.inl ⟨hidx, hbound⟩) (by simp [hidx, hvec])
    exact ⟨forall_mem_cons.mpr ⟨⟨hidx, hbound⟩, hwritten⟩, hlength⟩

/-- A first offset that is too great leads to a write before the vector. -/
lemma firstOffsetOk_of_safe (h : (readFixedVarIntsBitSet size s).Safe size)
    (hsize : size ≤ maxSize) : FirstOffsetOk s := by
  intro offset rest hread
  by_contra hbig
  have hlt := (varIntFrom_bounds hread).1
  have hsize' := toInt32_size hsize
  have hidx : toInt32 (-1 + offset) < 0 := by
    unfold toInt32
    rw [Int.bmod_def]
    omega
  have hwritten : toInt32 (-1 + offset) ∈ (readFixedVarIntsBitSet size s).written := by
    unfold readFixedVarIntsBitSet
    rw [readVarIntsFrom_of_read hread, if_neg (by omega), if_neg (by omega), if_neg (by simp)]
    exact mem_cons_self
  exact absurd (h.written _ hwritten).1 (not_le.mpr hidx)

/-- The condition on a stream for `ReadAutoBitSet`: if it has offsets, the first one is at most 2³¹. -/
def AutoBitSetOk : List UInt8 → Prop
  | [] => True
  | isVarInts :: s => isVarInts = 1 → FirstOffsetOk s

/-- Reading a bit set of a size, with `ReadFixedBitSet`, with the size from the stream, and in either encoding. -/
theorem bitSets_safe {size : ℕ} (hsize : size ≤ maxSize) (s : List UInt8) :
    (readFixedBitSet size s).Safe size ∧
    (readDynBitSet s).Safe (((Reader.getCompactSize maxSize).run s).elim 0 Prod.fst) ∧
    ((readAutoBitSet size s).Safe size ↔ AutoBitSetOk s) := by
  refine ⟨safe_readFixedBitSet, ?_, ?_⟩
  · unfold readDynBitSet
    cases (Reader.getCompactSize maxSize).run s with
    | none => exact safe_default
    | some read => exact safe_readFixedBitSet
  · cases s with
    | nil => exact iff_of_true safe_default trivial
    | cons isVarInts s =>
      unfold readAutoBitSet AutoBitSetOk
      dsimp only
      split_ifs with hinvalid hzero
      · exact iff_of_true safe_default fun hone => absurd hone hinvalid.2
      · exact iff_of_true safe_readFixedBitSet fun hone => absurd (hzero.symm.trans hone) (by decide)
      · have hone : isVarInts = 1 := by
          by_contra hne
          exact hinvalid ⟨hzero, hne⟩
        refine ⟨fun h _ => firstOffsetOk_of_safe h hsize, fun h => ?_⟩
        exact safe_readVarIntsFrom hsize (.inr ⟨rfl, h hone⟩) (length_replicate ..)

lemma firstOffsetOk_put {offset : ℕ} (h : offset ≤ 2 ^ 31) : FirstOffsetOk (putVarInt 32 offset ++ rest) := by
  intro offset' rest' hread
  rw [Reads.getVarInt (by omega : offset < 2 ^ 32) rest] at hread
  simp only [Option.some.injEq, Prod.mk.injEq] at hread
  omega

theorem bitSets_safe_offsets :
    400 ≤ maxSize ∧ (readAutoBitSet 400 (1 :: (putVarInt 32 7 ++ putVarInt 32 0))).Safe 400 :=
  ⟨by decide, (bitSets_safe (by decide) _).2.2.mpr fun _ => firstOffsetOk_put (by decide)⟩

/-- One offset, of 2³¹ + 1, and the stopper. -/
theorem readAutoBitSet_unsafe :
    ¬(readAutoBitSet 400 (1 :: (putVarInt 32 (2 ^ 31 + 1) ++ putVarInt 32 0))).Safe 400 := by
  intro h
  have hfirst := firstOffsetOk_of_safe h (by decide)
  exact absurd (hfirst _ _ (Reads.getVarInt (by decide) _)) (by decide)

end Blocx
