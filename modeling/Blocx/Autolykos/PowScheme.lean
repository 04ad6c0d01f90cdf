import Blocx.Primitives.Uint256
import Mathlib.Data.Nat.Digits.Defs

/-!
# The Autolykos proof of work

The puzzle of `autolykos/src`: a header without its solution is hashed into a message, message and nonce select 32
places of a table of `N` elements that is never stored, and the hash of the sum of the selected elements is the *hit*
that is compared with the target. The table size `calcN` grows with the height the header itself states.

Blake2b is a parameter. The header that is hashed is assembled from a block header by way of text: both hashes are
printed in hexadecimal, which reverses their bytes, read back as byte arrays, and reversed once more by the
serialiser.
-/

namespace Blocx

open Wire Hex

/-- Byte strings of a fixed length. -/
abbrev Bytes (n : ℕ) := { bs : List UInt8 // bs.length = n }

/-- The hash functions of the source: X11 over a byte string, and Blake2b with 32 bytes of output. -/
structure HashFunctions where
  hashX11 : List UInt8 → Uint256
  blake2b256 : List UInt8 → Bytes 32

namespace AutolykosPowScheme

/-! ### Headers -/

structure HeaderWithoutPow where
  version : BitVec 8
  /-- Hash of the previous block, most significant byte first. -/
  parentId : Bytes 32
  /-- Merkle root, most significant byte first. -/
  transactionsRoot : Bytes 32
  timestamp : BitVec 64
  nBits : BitVec 32
  /-- Stated height; `uint32_t` here and `int` in `Header`, the same 32 bits. -/
  height : BitVec 32
  deriving DecidableEq

/-- `Header`: with the nonce, the only part of the solution in use. -/
structure Header extends HeaderWithoutPow where
  /-- `powSolution.n`. -/
  nonce : List UInt8
  deriving DecidableEq

/-- `HeaderSerializer::bytesWithoutPow`. Both hashes are reversed and the time is cut to 32 bits. -/
def bytesWithoutPow (h : HeaderWithoutPow) : List UInt8 :=
  put (h.version.setWidth 32) ++ (h.parentId.val.reverse ++ (h.transactionsRoot.val.reverse ++
    (put (h.timestamp.setWidth 32) ++ (put h.nBits ++ put h.height))))

/-- `hexToBytesModifierId` and `hexToArrayDigest32`; a text of another length throws. -/
def hexToBytes32 (hex : List Char) : Option (List UInt8) :=
  let hexStr := if hex.take 2 = ['0', 'x'] then hex.drop 2 else hex
  if hexStr.length ≠ 64 then none else some (hexToBytes hexStr)

/-- The text of a `uint256` is read back as its bytes, most significant first. -/
lemma hexToBytes32_getHex (x : Uint256) : hexToBytes32 x.getHex = some (put x).reverse := by
  have hlen : x.getHex.length = 64 := by
    rw [Uint256.getHex, length_hexStr, List.length_reverse, length_put]
  have hx : x.getHex.take 2 ≠ ['0', 'x'] := by
    cases hb : (put x).reverse with
    | nil => rw [Uint256.getHex, hb] at hlen; cases hlen
    | cons b bs =>
      have hd : ∀ n < 16, Nat.digitChar n ≠ 'x' := by decide
      rw [Uint256.getHex, hb, hexStr]
      intro h
      exact hd (b.toNat % 16) (by omega) (List.cons.inj (List.cons.inj h).2).1
  simp only [hexToBytes32, hx, if_false, hlen, ne_eq, not_true_eq_false]
  rw [Uint256.getHex, hexToBytes_hexStr]

/-- The bytes of a `uint256` after the way through text, which never throws. -/
def bytesOfHex (x : Uint256) : Bytes 32 :=
  ⟨(hexToBytes32 x.getHex).get (by rw [hexToBytes32_getHex]; rfl), by simp [hexToBytes32_getHex]⟩

@[simp]
lemma val_bytesOfHex (x : Uint256) : (bytesOfHex x).val = (put x).reverse := by
  simp [bytesOfHex, hexToBytes32_getHex]

/-- `uint64ToBytes`: most significant byte first. -/
def uint64ToBytes (number : BitVec 64) : List UInt8 := (put number).reverse

/-! ### The table -/

/-- Number of elements in a solution. -/
def k : ℕ := 32

/-- Initial table size. -/
def NBase : ℕ := 2 ^ 26

/-- Height from which the table grows. -/
def IncreaseStart : ℤ := 600 * 1024

/-- Heights between two increases. -/
def IncreasePeriodForN : ℤ := 50 * 1024

/-- Height at which the table stops growing. -/
def NIncreasementHeightMax : ℤ := 4198400

/-- `calcN`: the table size at a height. The version is not used. -/
def calcN (_version : BitVec 8) (headerHeight : ℤ) : ℕ :=
  let height := min NIncreasementHeightMax headerHeight
  if height < IncreaseStart then NBase
  else
    let itersNumber := (height - IncreaseStart) / IncreasePeriodForN + 1
    (fun result => result / 100 * 105)^[itersNumber.toNat] NBase

/-- `M`: the constant data added to every element. -/
def M : List UInt8 := (List.range 1024).flatMap fun i => (leBytes 8 i).reverse

/-- `toBigInt`: the number bytes spell, most significant first. -/
def toBigInt (data : List UInt8) : ℕ := leValue data.reverse

/-- `asUnsignedByteArray`: the bytes of a number, most significant first, without leading zeros. -/
def asUnsignedByteArray (n : ℕ) : List UInt8 :=
  if n = 0 then [0] else ((Nat.digits 256 n).map UInt8.ofNat).reverse

def resizeAsBigEndian (vec : List UInt8) (newSize : ℕ) : List UInt8 :=
  if vec.length < newSize then List.replicate (newSize - vec.length) 0 ++ vec else vec.take newSize

variable (hash : HashFunctions)

/-- `genIndexes`: 32 overlapping big-endian words of a hash, reduced to the table. -/
def genIndexes (seed : List UInt8) (N : ℕ) : List ℕ :=
  let hashed := (hash.blake2b256 seed).val
  let extendedHash := hashed ++ hashed.take 3
  (List.range k).map fun i => toBigInt ((extendedHash.drop i).take 4) % N

/-- `genElement`: an element of the table. -/
def genElement (indexBytes heightBytes : List UInt8) : ℕ :=
  toBigInt ((hash.blake2b256 (indexBytes ++ heightBytes ++ M)).val.drop 1)

/-! ### The hit -/

/-- `msgByHeader`: the hash of the header's bytes, printed in hexadecimal. -/
def msgByHeader (h : HeaderWithoutPow) : List UInt8 :=
  (hash.blake2b256 ((hexStr (bytesWithoutPow h)).map fun c => UInt8.ofNat c.toNat)).val

/-- `hit`, for a table of `N` elements. -/
def hitWithTable (header : Header) (N : ℕ) : ℕ :=
  let msg := msgByHeader hash header.toHeaderWithoutPow
  let h := (put header.height).reverse
  let hashResult := (hash.blake2b256 (msg ++ header.nonce)).val
  let prei8 := toBigInt (hashResult.drop (hashResult.length - 8))
  let i := resizeAsBigEndian (asUnsignedByteArray (prei8 % N)) 4
  let f := (hash.blake2b256 (i ++ h ++ M)).val.drop 1
  let seed := f ++ msg ++ header.nonce
  let indexes := genIndexes hash seed N
  let f2 := (indexes.map fun idx => genElement hash (leBytes 4 idx).reverse h).sum
  let array := resizeAsBigEndian (asUnsignedByteArray f2) 32
  toBigInt (hash.blake2b256 array).val

/-- `hit`: the table size is that of the height the header states, as a signed number. -/
def hit (header : Header) : ℕ := hitWithTable hash header (calcN header.version header.height.toInt)

/-- `getB`: the target, without the flags. -/
def getB (nBits : BitVec 32) : Uint256 := (Uint256.setCompact nBits).value

def validate (header : Header) : Bool :=
  if hit hash header ≥ (getB header.nBits).toNat then false else true

lemma toBigInt_lt (bs : Bytes 32) : toBigInt bs.val < 2 ^ 256 := by
  have hlt := leValue_lt bs.val.reverse
  rwa [List.length_reverse, bs.property, show (256 : ℕ) ^ 32 = 2 ^ 256 by norm_num] at hlt

/-- A hit is the number a hash spells, so it fits into 256 bits. -/
lemma hit_lt (header : Header) : hit hash header < 2 ^ 256 := toBigInt_lt _

lemma validate_eq_true_iff (header : Header) :
    validate hash header = true ↔ hit hash header < (getB header.nBits).toNat := by
  unfold validate
  split_ifs with h
  · exact ⟨fun hf => hf.elim, fun hlt => absurd h (Nat.not_le_of_lt hlt)⟩
  · exact ⟨fun _ => Nat.lt_of_not_le h, fun _ => rfl⟩

end AutolykosPowScheme

end Blocx
