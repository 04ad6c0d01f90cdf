import Blocx.Lib.Hex

/-!
# 256-bit numbers

`uint256` is a blob of 32 bytes and `arith_uint256` a number of eight 32-bit limbs; the conversions between them keep
the little-endian value, so one type, the 256-bit vector, stands for both. Besides the text forms this has the compact
encoding of proof-of-work targets (`arith_uint256.cpp`), which decodes into a target and two flags that say when the
decoded number is not the encoded one.
-/

namespace Blocx

open Wire Hex

/-- `uint256` and `arith_uint256`, as the number their bytes spell in little-endian order. -/
abbrev Uint256 := BitVec 256

instance : Std.TransOrd Uint256 := inferInstance

instance : LawfulBEq Uint256 := inferInstance

namespace Uint256

/-! ### Text -/

/-- `GetHex`: the bytes from the most significant one on. -/
def getHex (x : Uint256) : List Char := hexStr (put x).reverse

/-- Characters `SetHex` skips at the front. -/
def isSpace (c : Char) : Bool := c = ' ' || c = '\x0c' || c = '\n' || c = '\r' || c = '\t' || c = '\x0b'

/-- `SetHex` skips a leading `0x`. -/
def skipPrefix : List Char → List Char
  | '0' :: x :: rest => if x = 'x' ∨ x = 'X' then rest else '0' :: x :: rest
  | psz => psz

/-- `uint256S`, by `SetHex`: the digits up to the first other character, cut to 32 bytes. -/
def uint256S (psz : List Char) : Uint256 := BitVec.ofNat 256 (hexValue (skipPrefix (psz.dropWhile isSpace)))

variable {s : List Char}

lemma dropWhile_isSpace_of_digits (h : ∀ c ∈ s, (hexDigit c).isSome) : s.dropWhile isSpace = s := by
  cases s with
  | nil => rfl
  | cons c s =>
    have hc := h c List.mem_cons_self
    have hs : isSpace c = false := by
      by_contra hs
      simp only [isSpace, Bool.not_eq_false, Bool.or_eq_true, decide_eq_true_eq] at hs
      obtain ((((rfl | rfl) | rfl) | rfl) | rfl) | rfl := hs <;> exact absurd hc (by decide)
    rw [List.dropWhile_cons, hs]
    rfl

lemma skipPrefix_of_digits (h : ∀ c ∈ s, (hexDigit c).isSome) : skipPrefix s = s := by
  unfold skipPrefix
  split
  case h_1 x rest =>
    have hx := h x (List.mem_cons_of_mem _ List.mem_cons_self)
    refine if_neg ?_
    rintro (rfl | rfl) <;> exact absurd hx (by decide)
  case h_2 => rfl

lemma uint256S_toDigits (n : ℕ) : uint256S (Nat.toDigits 16 n) = BitVec.ofNat 256 n := by
  have h := isSome_hexDigit_of_mem_toDigits n
  rw [uint256S, dropWhile_isSpace_of_digits h, skipPrefix_of_digits h, hexValue_toDigits]

/-! ### The compact encoding -/

/-- What `SetCompact` computes. -/
structure SetCompact where
  value : Uint256
  fNegative : Bool
  fOverflow : Bool
  deriving DecidableEq

/-- `SetCompact`. Bits shifted beyond the 256th are lost. -/
def setCompact (nCompact : BitVec 32) : SetCompact :=
  let nSize := (nCompact >>> 24).toNat
  let nWord := nCompact &&& 0x007fffff
  let nWord := if nSize ≤ 3 then nWord >>> (8 * (3 - nSize)) else nWord
  { value := if nSize ≤ 3 then nWord.setWidth 256 else nWord.setWidth 256 <<< (8 * (nSize - 3))
    fNegative := nWord ≠ 0 ∧ nCompact &&& 0x00800000 ≠ 0
    fOverflow := nWord ≠ 0 ∧ (nSize > 34 ∨ (nWord > 0xff ∧ nSize > 33) ∨ (nWord > 0xffff ∧ nSize > 32)) }

/-- `bits`: the number of bits in use. -/
def bits (x : Uint256) : ℕ := if x = 0 then 0 else x.toNat.log2 + 1

/-- `GetCompact`, of a number that is not negative. -/
def getCompact (x : Uint256) : BitVec 32 :=
  let nSize := (bits x + 7) / 8
  let nCompact : BitVec 32 :=
    if nSize ≤ 3 then (x.setWidth 64 <<< (8 * (3 - nSize))).setWidth 32
    else ((x >>> (8 * (nSize - 3))).setWidth 64).setWidth 32
  -- the sign bit may not be set by the mantissa
  let (nCompact, nSize) :=
    if nCompact &&& 0x00800000 ≠ 0 then (nCompact >>> 8, nSize + 1) else (nCompact, nSize)
  nCompact ||| (BitVec.ofNat 32 nSize <<< 24)

end Uint256

end Blocx
