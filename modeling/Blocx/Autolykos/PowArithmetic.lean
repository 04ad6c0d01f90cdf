import Blocx.Primitives.BlockHash
import Mathlib

/-!
# The arithmetic of the Autolykos puzzle

Nothing in `calcN` and `hit` is cut off: the table size stays an `int` over all its rounds, an index stays below the
table size and in four bytes, the sum of the elements in 32 bytes. So the hit is the number that the source means, and
the check of a solution compares the hash of the block header with the target.
-/

namespace Blocx

open List Wire

/-! ### Numbers as bytes -/

lemma leValue_eq_ofDigits (bs : List UInt8) : leValue bs = Nat.ofDigits 256 (bs.map UInt8.toNat) := by
  induction bs with
  | nil => rfl
  | cons b bs ih => rw [leValue, ih, map_cons, Nat.ofDigits_cons]

namespace AutolykosPowScheme

section Bytes

variable {n size : ℕ} (hsize : 0 < size) (hn : n < 256 ^ size)

lemma toBigInt_asUnsignedByteArray : toBigInt (asUnsignedByteArray n) = n := by
  unfold asUnsignedByteArray toBigInt
  split_ifs with h
  · rw [h]
    rfl
  · rw [reverse_reverse, leValue_eq_ofDigits, map_map, map_congr_left (g := id), map_id, Nat.ofDigits_digits]
    exact fun d hd => Nat.mod_eq_of_lt (Nat.digits_lt_base (by decide) hd)

include hsize hn

lemma length_asUnsignedByteArray : (asUnsignedByteArray n).length ≤ size := by
  unfold asUnsignedByteArray
  split_ifs
  · exact hsize
  · rw [length_reverse, length_map]
    exact (Nat.digits_length_le_iff (by decide) n).mpr hn

lemma toBigInt_resizeAsBigEndian : toBigInt (resizeAsBigEndian (asUnsignedByteArray n) size) = n := by
  have hlength := length_asUnsignedByteArray hsize hn
  unfold resizeAsBigEndian
  split_ifs
  · rw [toBigInt, reverse_append, reverse_replicate, leValue_eq_ofDigits, map_append, map_replicate, UInt8.toNat_zero,
      Nat.ofDigits_append_replicate_zero, ← leValue_eq_ofDigits]
    exact toBigInt_asUnsignedByteArray
  · rw [take_of_length_le hlength, toBigInt_asUnsignedByteArray]

end Bytes

/-! ### The table size -/

/-- One round of `calcN`. -/
def grow (result : ℕ) : ℕ := result / 100 * 105

/-- The number of rounds of `calcN` for a height. -/
def rounds (headerHeight : ℤ) : ℕ :=
  if min NIncreasementHeightMax headerHeight < IncreaseStart then 0
  else ((min NIncreasementHeightMax headerHeight - IncreaseStart) / IncreasePeriodForN + 1).toNat

variable (version : BitVec 8) (headerHeight : ℤ)

lemma calcN_eq : calcN version headerHeight = grow^[rounds headerHeight] NBase := by
  unfold calcN rounds
  dsimp only
  split_ifs <;> rfl

lemma monotone_grow : Monotone fun n => grow^[n] NBase := by
  refine Monotone.monotone_iterate_of_le_map (fun a b h => ?_) (by decide)
  exact Nat.mul_le_mul_right 105 (Nat.div_le_div_right h)

lemma monotone_rounds : Monotone rounds := by
  intro a b h
  unfold rounds IncreaseStart IncreasePeriodForN NIncreasementHeightMax
  split_ifs <;> omega

lemma rounds_le : rounds headerHeight ≤ 71 := by
  unfold rounds IncreaseStart IncreasePeriodForN NIncreasementHeightMax
  split_ifs <;> omega

/-- Every value that the variable `result` of `calcN` takes is an `int`. -/
lemma grow_iterate_lt {n : ℕ} (h : n ≤ 71) : grow^[n] NBase < 2 ^ 31 :=
  lt_of_le_of_lt (monotone_grow h) (by decide +kernel)

lemma le_calcN : NBase ≤ calcN version headerHeight := by
  rw [calcN_eq]
  exact monotone_grow (Nat.zero_le _)

lemma calcN_lt : calcN version headerHeight < 2 ^ 31 := by
  rw [calcN_eq]
  exact grow_iterate_lt (rounds_le headerHeight)

/-! ### The elements -/

variable (hash : HashFunctions)

lemma genElement_lt (indexBytes heightBytes : List UInt8) : genElement hash indexBytes heightBytes < 2 ^ 248 := by
  have hlt := leValue_lt ((hash.blake2b256 (indexBytes ++ heightBytes ++ M)).val.drop 1).reverse
  rw [length_reverse, length_drop, (hash.blake2b256 _).property] at hlt
  exact hlt.trans_eq (by norm_num)

/-- Nothing is cut off in the Autolykos puzzle, and a solution is valid if and only if the hash of the block header is
below the target. -/
theorem autolykos_exact : (∀ (version : BitVec 8) (height : BitVec 32), 2 ^ 26 ≤ calcN version height.toInt ∧
      calcN version height.toInt ≤ 2 ^ 31 - 1 ∧ ∀ n ≤ rounds height.toInt, grow^[n] NBase ≤ 2 ^ 31 - 1) ∧
    (∀ (version : BitVec 8) (height height' : ℤ), height ≤ height' → calcN version height ≤ calcN version height') ∧
    (∀ (header : Header) (seed heightBytes : List UInt8) (prei8 : ℕ),
      let N := calcN header.version header.height.toInt
      let indexes := genIndexes hash seed N
      let f2 := (indexes.map fun idx => genElement hash (leBytes 4 idx).reverse heightBytes).sum
      (∀ idx ∈ indexes, idx < N ∧ toBigInt (leBytes 4 idx).reverse = idx) ∧
      (prei8 % N < N ∧ toBigInt (resizeAsBigEndian (asUnsignedByteArray (prei8 % N)) 4) = prei8 % N) ∧
      (asUnsignedByteArray f2).length ≤ 32 ∧ toBigInt (resizeAsBigEndian (asUnsignedByteArray f2) 32) = f2) ∧
    ∀ b_h : CBlockHeader, b_h.nVersion = CBlockHeader.autolykosVersion →
      (validate hash (b_h.autolykosHeader 0x05 b_h.nBits) ↔
        (b_h.getHash hash).toNat < (Uint256.setCompact b_h.nBits).value.toNat) := by
  refine ⟨fun version height => ⟨le_calcN _ _, Nat.le_sub_one_of_lt (calcN_lt _ _), fun n hn => ?_⟩,
    fun version height height' h => ?_, fun header seed heightBytes prei8 => ?_, fun b_h hversion => ?_⟩
  · exact Nat.le_sub_one_of_lt (grow_iterate_lt (hn.trans (rounds_le _)))
  · rw [calcN_eq, calcN_eq]
    exact monotone_grow (monotone_rounds h)
  · intro N indexes f2
    have hpos : 0 < N := lt_of_lt_of_le (by decide) (le_calcN header.version header.height.toInt)
    have hN : N < 2 ^ 31 := calcN_lt _ _
    have hindex : ∀ idx ∈ indexes, idx < N := by
      intro idx hidx
      obtain ⟨i, -, rfl⟩ := mem_map.mp hidx
      exact Nat.mod_lt _ hpos
    have hfirst := Nat.mod_lt prei8 hpos
    have hsum : f2 < 256 ^ 32 := by
      have hle := sum_le_card_nsmul (indexes.map fun idx => genElement hash (leBytes 4 idx).reverse heightBytes)
        (2 ^ 248) fun x hx => ?_
      · rw [length_map, show indexes.length = 32 by simp [indexes, genIndexes, k]] at hle
        exact lt_of_le_of_lt hle (by norm_num)
      · obtain ⟨idx, -, rfl⟩ := mem_map.mp hx
        exact (genElement_lt hash _ _).le
    refine ⟨fun idx hidx => ⟨hindex idx hidx, ?_⟩, ⟨hfirst, toBigInt_resizeAsBigEndian (by decide) (by omega)⟩,
      length_asUnsignedByteArray (by decide) hsum, toBigInt_resizeAsBigEndian (by decide) hsum⟩
    have hlt := hindex idx hidx
    rw [toBigInt, reverse_reverse, leValue_leBytes, Nat.mod_eq_of_lt (by omega)]
  · rw [validate_eq_true_iff, CBlockHeader.getHash_of_eq hash hversion, CBlockHeader.toNat_autolykosHash]
    rfl

end AutolykosPowScheme

end Blocx
