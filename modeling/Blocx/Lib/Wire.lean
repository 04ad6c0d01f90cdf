import Mathlib.Tactic.Ring

/-!
# Bytes on the wire

Little-endian integers as byte lists, and readers that consume a byte list from the front. The notion every
format proof uses is `Reads r bs a`: on an input that starts with `bs` the reader `r` returns `a` and leaves
exactly what followed `bs`, whatever that is. Readers compose by `bind`, and so does `Reads`, so that a round
trip is proved along the structure of the reader, one field at a time.
-/

namespace Blocx.Wire

open List

variable {w : ℕ} {x y : BitVec w} {α β : Type} {b : β}

/-! ### Little-endian integers -/

/-- The `n` low bytes of a number, least significant first. -/
def leBytes : ℕ → ℕ → List UInt8
  | 0, _ => []
  | n + 1, x => UInt8.ofNat x :: leBytes n (x / 256)

/-- The number that bytes spell, least significant first. -/
def leValue : List UInt8 → ℕ
  | [] => 0
  | b :: bs => b.toNat + 256 * leValue bs

@[simp]
lemma length_leBytes (n x : ℕ) : (leBytes n x).length = n := by
  induction n generalizing x with
  | zero => rfl
  | succ n ih => rw [leBytes, length_cons, ih]

/-- The bytes of a number spell the number, cut to the width written. -/
lemma leValue_leBytes (n x : ℕ) : leValue (leBytes n x) = x % 256 ^ n := by
  induction n generalizing x with
  | zero => rw [leBytes, leValue, pow_zero, Nat.mod_one]
  | succ n ih =>
    have hb : (UInt8.ofNat x).toNat = x % 256 := UInt8.toNat_ofNat'
    rw [leBytes, leValue, ih, hb, pow_succ, Nat.mul_comm (256 ^ n) 256, Nat.mod_mul]

lemma leValue_lt (bs : List UInt8) : leValue bs < 256 ^ bs.length := by
  induction bs with
  | nil => exact Nat.one_pos
  | cons b bs ih =>
    have hb : b.toNat < 256 := b.toNat_lt
    rw [leValue, length_cons, pow_succ]
    omega

/-- A fixed-width integer as it is written: `w / 8` bytes, least significant first. -/
def put {w : ℕ} (x : BitVec w) : List UInt8 := leBytes (w / 8) x.toNat

@[simp]
lemma length_put (x : BitVec w) : (put x).length = w / 8 := length_leBytes _ _

lemma toNat_lt_pow (hw : 8 ∣ w) : x.toNat < 256 ^ (w / 8) := by
  obtain ⟨n, rfl⟩ := hw
  have hx := x.isLt
  rwa [Nat.mul_div_cancel_left n (by decide), show (256 : ℕ) = 2 ^ 8 from rfl, ← pow_mul]

lemma ofNat_leValue_put (hw : 8 ∣ w) (x : BitVec w) : BitVec.ofNat w (leValue (put x)) = x := by
  rw [put, leValue_leBytes, Nat.mod_eq_of_lt (toNat_lt_pow hw), BitVec.ofNat_toNat, BitVec.setWidth_eq]

lemma put_inj (hw : 8 ∣ w) (h : put x = put y) : x = y := by
  rw [← ofNat_leValue_put hw x, h, ofNat_leValue_put hw y]

lemma put_append_inj (hw : 8 ∣ w) {s t : List UInt8} (h : put x ++ s = put y ++ t) : x = y ∧ s = t := by
  obtain ⟨hx, hs⟩ := append_inj h (by rw [length_put, length_put])
  exact ⟨put_inj hw hx, hs⟩

/-! ### Signed integers -/

/-- The value of an `int`. -/
def IsInt32 (n : ℤ) : Prop := -2 ^ 31 ≤ n ∧ n < 2 ^ 31

lemma isInt32_zero : IsInt32 0 := ⟨by decide, by decide⟩

lemma isInt32_one : IsInt32 1 := ⟨by decide, by decide⟩

lemma isInt32_neg_one : IsInt32 (-1) := ⟨by decide, by decide⟩

/-- An `int` as it is written, in two's complement. -/
def putInt32 (n : ℤ) : List UInt8 := put (BitVec.ofInt 32 n)

/-! ### Readers -/

/-- A reader takes a value off the front of the input, or fails. -/
def Reader (α : Type) : Type := List UInt8 → Option (α × List UInt8)

variable {f : α → Reader β} {r : Reader α}

namespace Reader

variable {input rest : List UInt8}

def run (r : Reader α) (input : List UInt8) : Option (α × List UInt8) := r input

instance : Monad Reader where
  pure a := fun input => some (a, input)
  bind r f := fun input => (r.run input).bind fun p => (f p.1).run p.2

@[simp]
lemma run_pure (a : α) (input : List UInt8) : (pure a : Reader α).run input = some (a, input) := rfl

lemma run_bind (r : Reader α) (f : α → Reader β) (input : List UInt8) :
    (r >>= f).run input = (r.run input).bind fun p => (f p.1).run p.2 := rfl

lemma run_bind_eq_some (h : (r >>= f).run input = some (b, rest)) :
    ∃ a mid, r.run input = some (a, mid) ∧ (f a).run mid = some (b, rest) := by
  obtain ⟨⟨a, mid⟩, ha, hb⟩ := Option.bind_eq_some_iff.mp h
  exact ⟨a, mid, ha, hb⟩

/-- The next `n` bytes. -/
def bytes (n : ℕ) : Reader (List UInt8) := fun input =>
  if n ≤ input.length then some (input.take n, input.drop n) else none

/-- A fixed-width integer, least significant byte first. -/
def get (w : ℕ) : Reader (BitVec w) := do
  let bs ← bytes (w / 8)
  return BitVec.ofNat w (leValue bs)

def getInt32 : Reader ℤ := do
  let x ← get 32
  return x.toInt

/-- An optional field: read when the flag says that it was written, otherwise the default. -/
def getIf (c : Bool) (r : Reader α) (d : α) : Reader α := if c then r else pure d

lemma run_getIf_false {d a : α} (h : (getIf false r d).run input = some (a, rest)) : a = d :=
  (Prod.mk.inj (Option.some.inj h)).1.symm

end Reader

/-- An optional field as it is written. -/
def putIf (c : Bool) (bs : List UInt8) : List UInt8 := if c then bs else []

/-- On an input that starts with `bs` the reader returns `a` and leaves what follows `bs`. -/
def Reads {α : Type} (r : Reader α) (bs : List UInt8) (a : α) : Prop :=
  ∀ rest, r.run (bs ++ rest) = some (a, rest)

namespace Reads

variable {bs bs' : List UInt8} {a : α}

lemma pure (a : α) : Reads (Pure.pure a) [] a := fun _ => rfl

/-- Reads compose along `bind`. -/
lemma bind (hr : Reads r bs a) (hf : Reads (f a) bs' b) : Reads (r >>= f) (bs ++ bs') b := by
  intro rest
  rw [Reader.run_bind, append_assoc, hr, Option.bind_some, hf]

lemma bind_pure (hr : Reads r bs a) (hf : Reads (f a) [] b) : Reads (r >>= f) bs b := by
  have h := hr.bind hf
  rwa [append_nil] at h

lemma bytes {n : ℕ} (hn : bs.length = n) : Reads (Reader.bytes n) bs bs := by
  intro rest
  subst hn
  simp [Reader.bytes, Reader.run]

lemma get (hw : 8 ∣ w) (x : BitVec w) : Reads (Reader.get w) (put x) x := by
  apply (bytes (length_put x)).bind_pure
  rw [ofNat_leValue_put hw]
  exact pure x

/-- An `int` is read back. -/
lemma getInt32 {n : ℤ} (hn : IsInt32 n) : Reads Reader.getInt32 (putInt32 n) n := by
  apply (get (by decide) (BitVec.ofInt 32 n)).bind_pure
  have h : (BitVec.ofInt 32 n).toInt = n := by
    unfold IsInt32 at hn
    rw [BitVec.toInt_ofInt, Int.bmod_eq_of_le] <;> omega
  rw [h]
  exact pure n

lemma getIf {c : Bool} (hr : Reads r bs a) (d : α) :
    Reads (Reader.getIf c r d) (putIf c bs) (if c then a else d) := by
  cases c with
  | true => exact hr
  | false => exact pure d

/-- A reader that reads `bs` on every continuation reads it on the empty one. -/
lemma run_eq (h : Reads r bs a) : r.run bs = some (a, []) := by
  have h' := h []
  rwa [append_nil] at h'

end Reads

end Blocx.Wire
