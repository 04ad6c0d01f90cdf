import Blocx.Lib.Wire

/-!
# Lengths and lists on the wire

Three formats of variable length on top of `Blocx.Lib.Wire`: the compact size that stands before a list, the
base-128 integer whose bytes but the last carry a continuation bit, and the list itself, a compact size followed by its
elements. Each comes with its `Reads` rule, under the bound that the reader enforces, so that a format built from them
is read back field by field like one of fixed-width integers.
-/

namespace Blocx.Wire

open List

open Reader

variable {α : Type} {bs : List UInt8} {limit : ℕ}

/-! ### Compact sizes -/

/-- A compact size: one byte below 253, otherwise a marker and two, four or eight bytes. -/
def putCompactSize (n : ℕ) : List UInt8 :=
  if n < 253 then [UInt8.ofNat n]
  else if n ≤ 0xffff then 253 :: leBytes 2 n
  else if n ≤ 0xffffffff then 254 :: leBytes 4 n
  else 255 :: leBytes 8 n

namespace Reader

def fail : Reader α := fun _ => none

/-- The value read, when it passes a test. -/
def check (p : α → Bool) (a : α) : Reader α := if p a then pure a else fail

/-- What follows the first byte of a compact size. A longer form than needed is refused. -/
def compactSizeFrom (ch : ℕ) : Reader ℕ :=
  match ch with
  | 253 => bytes 2 >>= fun bs => check (253 ≤ ·) (leValue bs)
  | 254 => bytes 4 >>= fun bs => check (0x10000 ≤ ·) (leValue bs)
  | 255 => bytes 8 >>= fun bs => check (0x100000000 ≤ ·) (leValue bs)
  | n => pure n

/-- A compact size. A size over the limit is refused. -/
def getCompactSize (limit : ℕ) : Reader ℕ := do
  let ch ← bytes 1
  let n ← compactSizeFrom (leValue ch)
  check (· ≤ limit) n

end Reader

namespace Reads

lemma check {p : α → Bool} {a : α} (h : p a) : Reads (check p a) [] a := by
  unfold Reader.check
  rw [if_pos h]
  exact pure a

lemma leBytes {n x : ℕ} (hx : x < 256 ^ n) {f : ℕ → Reader α} {a : α} (hf : Reads (f x) bs a) :
    Reads (Reader.bytes n >>= fun b => f (leValue b)) (Wire.leBytes n x ++ bs) a := by
  apply (bytes (length_leBytes n x)).bind
  rwa [leValue_leBytes, Nat.mod_eq_of_lt hx]

lemma getCompactSize {n : ℕ} (hn : n ≤ limit) (h64 : n < 2 ^ 64) :
    Reads (getCompactSize limit) (putCompactSize n) n := by
  have hlim : Reads (Reader.check (· ≤ limit) n) [] n := check (decide_eq_true hn)
  have first : ∀ b, Reads (Reader.bytes 1) [b] [b] := fun b => bytes rfl
  have marked : ∀ k lo : ℕ, n < 256 ^ k → lo ≤ n →
      Reads (Reader.bytes k >>= fun b => Reader.check (lo ≤ ·) (leValue b)) (Wire.leBytes k n) n := by
    intro k lo hk hlo
    have h := leBytes hk (check (p := (lo ≤ ·)) (decide_eq_true hlo))
    rwa [append_nil] at h
  unfold Reader.getCompactSize putCompactSize
  split_ifs with h1 h2 h3
  · have hv : leValue [UInt8.ofNat n] = n := by
      rw [leValue, leValue, UInt8.toNat_ofNat']
      omega
    have hfrom : Reads (compactSizeFrom n) [] n := by
      unfold compactSizeFrom
      split
      · omega
      · omega
      · omega
      · exact pure n
    apply (first _).bind_pure
    rw [hv]
    exact hfrom.bind_pure hlim
  · exact (first 253).bind ((marked 2 _ (by omega) (by omega)).bind_pure hlim)
  · exact (first 254).bind ((marked 4 _ (by omega) (by omega)).bind_pure hlim)
  · exact (first 255).bind ((marked 8 _ (by omega) (by omega)).bind_pure hlim)

end Reads

/-! ### Base-128 integers -/

/-- The bytes before the last one, most significant first, each with the continuation bit. One is subtracted at every
step, which makes the form unique. The first argument bounds the number of bytes. -/
def varIntHigh : ℕ → ℕ → List UInt8
  | 0, _ => []
  | len + 1, n => (if n ≤ 0x7f then [] else varIntHigh len (n / 128 - 1)) ++ [UInt8.ofNat (n % 128 + 128)]

/-- A base-128 integer of at most `w` bits. -/
def putVarInt (w n : ℕ) : List UInt8 :=
  (if n ≤ 0x7f then [] else varIntHigh ((w + 6) / 7 - 1) (n / 128 - 1)) ++ [UInt8.ofNat (n % 128)]

/-- Continue a base-128 integer of at most `w` bits from the digits read so far. -/
def varIntFrom (w : ℕ) : ℕ → List UInt8 → Option (ℕ × List UInt8)
  | _, [] => none
  | n, b :: rest =>
    if n > (2 ^ w - 1) / 128 then none
    else if b.toNat < 128 then some (n * 128 + b.toNat, rest)
    else if n * 128 + (b.toNat - 128) = 2 ^ w - 1 then none
    else varIntFrom w (n * 128 + (b.toNat - 128) + 1) rest

/-- A base-128 integer of at most `w` bits. -/
def Reader.getVarInt (w : ℕ) : Reader ℕ := varIntFrom w 0

lemma varIntFrom_high {w len n : ℕ} (hlen : n + 1 < 128 ^ len) (hn : n < 2 ^ w - 1) (rest : List UInt8) :
    varIntFrom w 0 (varIntHigh len n ++ rest) = varIntFrom w (n + 1) rest := by
  induction len generalizing n rest with
  | zero => exact absurd hlen (by simp)
  | succ len ih =>
    have hb : (UInt8.ofNat (n % 128 + 128)).toNat = n % 128 + 128 := by
      rw [UInt8.toNat_ofNat']
      omega
    have step : ∀ d, d * 128 + n % 128 = n →
        varIntFrom w d (UInt8.ofNat (n % 128 + 128) :: rest) = varIntFrom w (n + 1) rest := by
      intro d hd
      rw [varIntFrom, hb, if_neg (by omega), if_neg (by omega), Nat.add_sub_cancel, hd, if_neg (by omega)]
    rw [varIntHigh, append_assoc, singleton_append]
    split_ifs with h
    · exact step 0 (by omega)
    · have hlen' : n / 128 - 1 + 1 < 128 ^ len := by
        omega
      rw [ih hlen' (by omega)]
      exact step _ (by omega)

lemma Reads.getVarInt {w n : ℕ} (hn : n < 2 ^ w) : Reads (getVarInt w) (putVarInt w n) n := by
  intro rest
  have hb : (UInt8.ofNat (n % 128)).toNat = n % 128 := by
    rw [UInt8.toNat_ofNat']
    omega
  have last : ∀ d, d * 128 + n % 128 = n → varIntFrom w d (UInt8.ofNat (n % 128) :: rest) = some (n, rest) := by
    intro d hd
    rw [varIntFrom, hb, if_neg (by omega), if_pos (by omega), hd]
  unfold Reader.run Reader.getVarInt putVarInt
  rw [append_assoc, singleton_append]
  split_ifs with h
  · exact last 0 (by omega)
  · have hw : 8 ≤ w := by
      by_contra hw
      have : 2 ^ w ≤ 2 ^ 7 := Nat.pow_le_pow_right (by decide) (by omega)
      omega
    have hpow : n / 128 < 128 ^ ((w + 6) / 7 - 1) := by
      rw [Nat.div_lt_iff_lt_mul (by decide), ← pow_succ, Nat.sub_add_cancel (by omega),
        show (128 : ℕ) = 2 ^ 7 from rfl, ← pow_mul]
      exact hn.trans_le (Nat.pow_le_pow_right (by decide) (by omega))
    rw [varIntFrom_high (by omega) (by omega)]
    exact last _ (by omega)

/-! ### Byte strings and lists -/

/-- A byte string: its length and its bytes. -/
def putBytes (bs : List UInt8) : List UInt8 := putCompactSize bs.length ++ bs

/-- A byte string: its length and its bytes. -/
def Reader.getBytes (limit : ℕ) : Reader (List UInt8) := getCompactSize limit >>= bytes

lemma Reads.getBytes (hlen : bs.length ≤ limit) (h64 : limit < 2 ^ 64) : Reads (getBytes limit) (putBytes bs) bs :=
  (getCompactSize hlen (hlen.trans_lt h64)).bind (bytes rfl)

/-- A list: its length and its elements. -/
def putList (put : α → List UInt8) (xs : List α) : List UInt8 := putCompactSize xs.length ++ xs.flatMap put

/-- A fixed number of values. -/
def Reader.times (r : Reader α) : ℕ → Reader (List α)
  | 0 => pure []
  | n + 1 => do
    let x ← r
    let xs ← times r n
    return x :: xs

/-- A list: its length and its elements. -/
def Reader.getList (limit : ℕ) (r : Reader α) : Reader (List α) := getCompactSize limit >>= r.times

namespace Reads

variable {r : Reader α} {put : α → List UInt8} {xs : List α}

lemma times (h : ∀ x ∈ xs, Reads r (put x) x) : Reads (r.times xs.length) (xs.flatMap put) xs := by
  induction xs with
  | nil => exact pure []
  | cons x xs ih =>
    have hxs := ih fun y hy => h y (mem_cons_of_mem x hy)
    exact (h x mem_cons_self).bind (hxs.bind_pure (pure (x :: xs)))

lemma getList (hlen : xs.length ≤ limit) (h64 : limit < 2 ^ 64) (h : ∀ x ∈ xs, Reads r (put x) x) :
    Reads (getList limit r) (putList put xs) xs :=
  (getCompactSize hlen (hlen.trans_lt h64)).bind (times h)

lemma foldlM {f : β → α → Reader β} {g : β → α → β} (h : ∀ acc x, Reads (f acc x) (put x) (g acc x)) (acc : β) :
    Reads (xs.foldlM f acc) (xs.flatMap put) (xs.foldl g acc) := by
  induction xs generalizing acc with
  | nil => exact pure acc
  | cons x xs ih => exact (h acc x).bind (ih (g acc x))

end Reads

end Blocx.Wire
