import Blocx.Llmq.BitSets
import Mathlib.Data.Nat.Bitwise

/-!
# Bit sets on the wire

The writers of `serialize.h` for vectors of bits, and that the readers read back what they wrote and no more. One
encoding packs the bits, the other one has the gaps between the bits that are set, with a zero at the end; a gap counts
from the bit before, so it is not zero. The packed encoding of a vector is the only one that is accepted for it.
-/

namespace Blocx

open Wire List
open CDeterministicMNList (toInt32)

variable {size : ℕ} {vec : List Bool} {rest : List UInt8}

/-! ### The writers -/

def writeFixedBitSet (vec : List Bool) (size : ℕ) : List UInt8 :=
  leBytes ((size + 7) / 8) (Nat.ofBits fun p : Fin size => vec.getD p false)

/-- The writer of `DynamicBitSetFormatter`. -/
def writeDynBitSet (vec : List Bool) : List UInt8 := putCompactSize vec.length ++ writeFixedBitSet vec vec.length

/-- The loop of `WriteFixedVarIntsBitSet`, from an index on. -/
def writeVarIntsFrom (i last : ℤ) : List Bool → List UInt8
  | [] => putVarInt 32 0
  | bit :: vec =>
    if bit then putVarInt 32 (i - last).toNat ++ writeVarIntsFrom (i + 1) i vec else writeVarIntsFrom (i + 1) last vec

def writeFixedVarIntsBitSet (vec : List Bool) : List UInt8 := writeVarIntsFrom 0 (-1) vec

def writeAutoBitSet (vec : List Bool) : List UInt8 :=
  if (writeFixedBitSet vec vec.length).length < (writeFixedVarIntsBitSet vec).length then
    0 :: writeFixedBitSet vec vec.length
  else 1 :: writeFixedVarIntsBitSet vec

/-! ### Packed bits -/

lemma leBytes_leValue (bs : List UInt8) : leBytes bs.length (leValue bs) = bs := by
  induction bs with
  | nil => rfl
  | cons b bs ih =>
    have hb := b.toNat_lt
    rw [leValue, length_cons, leBytes, show (b.toNat + 256 * leValue bs) / 256 = leValue bs by omega, ih]
    congr 1
    exact UInt8.toNat_inj.mp (by rw [UInt8.toNat_ofNat']; omega)

lemma pow_le_pow_bytes (size : ℕ) : 2 ^ size ≤ 256 ^ ((size + 7) / 8) := by
  rw [show 256 = 2 ^ 8 by rfl, ← pow_mul]
  exact Nat.pow_le_pow_right (by decide) (by omega)

lemma reads_writeFixedBitSet : Reads (Reader.getFixedBitSet vec.length) (writeFixedBitSet vec vec.length) vec := by
  unfold writeFixedBitSet
  have hlt := Nat.ofBits_lt_two_pow fun p : Fin vec.length => vec.getD p false
  have hbits : (range vec.length).map (Nat.testBit (Nat.ofBits fun p : Fin vec.length => vec.getD p false)) = vec :=
    ext_getElem (by simp) fun p hp _ => by simp_all
  generalize Nat.ofBits (fun p : Fin vec.length => vec.getD p false) = n at *
  refine (Reads.bytes (length_leBytes ..)).bind_pure ?_
  rw [leValue_leBytes, Nat.mod_eq_of_lt (hlt.trans_le (pow_le_pow_bytes _)), hbits]
  simp [Reader.check, hlt, Reads.pure]

/-- What `ReadFixedBitSet` accepts was written. -/
lemma eq_write_of_readFixedBitSet {s : List UInt8} (h : (readFixedBitSet size s).result = some (vec, rest)) :
    s = writeFixedBitSet vec size ++ rest := by
  rw [result_readFixedBitSet] at h
  obtain ⟨vBytes, hlength, rfl, hlt, rfl⟩ := run_getFixedBitSet h
  have hvalue : Nat.ofBits (fun p : Fin size => ((range size).map (leValue vBytes).testBit).getD p false) =
      leValue vBytes := by
    simp [Nat.ofBits_testBit, Nat.mod_eq_of_lt hlt]
  rw [writeFixedBitSet, hvalue, ← hlength, leBytes_leValue]

/-! ### Gaps -/

lemma readVarIntsFrom_write {pre : List Bool} {last : ℤ} (hsize : (pre ++ vec).length ≤ maxSize) (hlast : -1 ≤ last)
    (hpre : last < pre.length) :
    (readVarIntsFrom (pre ++ vec).length last (pre ++ replicate vec.length false)
      (writeVarIntsFrom pre.length last vec ++ rest)).result = some (pre ++ vec, rest) := by
  induction vec generalizing pre last with
  | nil => rw [writeVarIntsFrom, readVarIntsFrom_of_read (Reads.getVarInt (by decide) rest), if_pos rfl]; rfl
  | cons bit vec ih =>
    have happend : pre ++ bit :: vec = pre ++ [bit] ++ vec := by simp
    have hlength : (pre ++ [bit]).length = (pre.length + 1 : ℤ) := by simp
    rw [happend] at hsize ⊢
    unfold writeVarIntsFrom
    have hlen : pre.length < 2 ^ 31 := by
      simp [maxSize] at hsize
      omega
    cases bit with
    | false =>
      have hih := ih hsize hlast (by omega)
      rw [hlength] at hih
      simpa [replicate_succ] using hih
    | true =>
      have hoffset : (pre.length - last).toNat < 2 ^ 32 := by omega
      have hidx : toInt32 (last + (pre.length - last).toNat) = pre.length := by
        rw [toInt32_of_nonneg (by omega) (by omega)]
        omega
      rw [if_pos rfl, append_assoc (putVarInt _ _), readVarIntsFrom_of_read (Reads.getVarInt hoffset _), hidx,
        toInt32_size hsize,
        if_neg (by omega), if_neg (by simp), if_neg (by omega)]
      have hih := @ih (pre ++ [true]) pre.length hsize (by omega) (by omega)
      rw [hlength] at hih
      simpa [replicate_succ] using hih

/-- What is written of a vector of bits is read back, in each of the encodings, and the packed encoding is unique. -/
theorem bitSets_survive (vec : List Bool) (hsize : vec.length ≤ maxSize) (rest : List UInt8) :
    (readFixedBitSet vec.length (writeFixedBitSet vec vec.length ++ rest)).result = some (vec, rest) ∧
    (readDynBitSet (writeDynBitSet vec ++ rest)).result = some (vec, rest) ∧
    (readFixedVarIntsBitSet vec.length (writeFixedVarIntsBitSet vec ++ rest)).result = some (vec, rest) ∧
    (readAutoBitSet vec.length (writeAutoBitSet vec ++ rest)).result = some (vec, rest) ∧
    ∀ s vec' size, (readFixedBitSet size s).result = some (vec', rest) → s = writeFixedBitSet vec' size ++ rest := by
  have hfixed : (readFixedBitSet vec.length (writeFixedBitSet vec vec.length ++ rest)).result = some (vec, rest) := by
    rw [result_readFixedBitSet]
    exact reads_writeFixedBitSet rest
  have hgaps : (readFixedVarIntsBitSet vec.length (writeFixedVarIntsBitSet vec ++ rest)).result = some (vec, rest) :=
    @readVarIntsFrom_write vec rest [] _ hsize le_rfl (by simp)
  refine ⟨hfixed, ?_, hgaps, ?_, fun s vec' size h => eq_write_of_readFixedBitSet h⟩
  · unfold readDynBitSet writeDynBitSet
    rw [append_assoc, Reads.getCompactSize hsize (hsize.trans_lt (by decide))]
    exact hfixed
  · unfold writeAutoBitSet readAutoBitSet
    split_ifs <;> simp [hfixed, hgaps]

theorem bitSets_survive_three : let vec := [true, false, true]
    (readAutoBitSet vec.length (writeAutoBitSet vec ++ [7])).result = some (vec, [7]) :=
  (bitSets_survive [true, false, true] (by decide) [7]).2.2.2.1

end Blocx
