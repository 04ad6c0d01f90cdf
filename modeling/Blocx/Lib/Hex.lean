import Blocx.Lib.Wire
import Mathlib.Data.List.TakeWhile

/-!
# Hexadecimal text

Bytes as pairs of lower-case digits and numbers as digits without leading zeros, with the readers that turn such
text back. Both readers stop at the first character that is not a digit, as `strtol` and its relatives do.
-/

namespace Blocx.Hex

open List Option

/-- The value of a hexadecimal digit of either case. -/
def hexDigit (c : Char) : Option ℕ :=
  if '0' ≤ c ∧ c ≤ '9' then some (c.toNat - '0'.toNat)
  else if 'a' ≤ c ∧ c ≤ 'f' then some (c.toNat - 'a'.toNat + 10)
  else if 'A' ≤ c ∧ c ≤ 'F' then some (c.toNat - 'A'.toNat + 10)
  else none

/-- Bytes as text, two digits each. -/
def hexStr : List UInt8 → List Char
  | [] => []
  | b :: bs => Nat.digitChar (b.toNat / 16) :: Nat.digitChar (b.toNat % 16) :: hexStr bs

/-- The number that the digits at the front of a text spell, most significant first. -/
def hexValue (s : List Char) : ℕ :=
  (s.takeWhile fun c => (hexDigit c).isSome).foldl (fun acc c => acc * 16 + (hexDigit c).getD 0) 0

/-- Text read in pairs of characters. -/
def hexToBytes : List Char → List UInt8
  | a :: b :: rest => UInt8.ofNat (hexValue [a, b]) :: hexToBytes rest
  | [a] => [UInt8.ofNat (hexValue [a])]
  | [] => []

lemma hexDigit_digitChar : ∀ n < 16, hexDigit (Nat.digitChar n) = some n := by
  decide

lemma hexValue_append_digit {s : List Char} (hs : ∀ c ∈ s, (hexDigit c).isSome) {n : ℕ} (hn : n < 16) :
    hexValue (s ++ [Nat.digitChar n]) = hexValue s * 16 + n := by
  have hd := hexDigit_digitChar n hn
  have hall : ∀ c ∈ s ++ [Nat.digitChar n], (hexDigit c).isSome := by
    intro c hc
    rcases mem_append.mp hc with hc | hc
    · exact hs c hc
    · rw [mem_singleton.mp hc, hd, isSome_some]
  rw [hexValue, hexValue, takeWhile_eq_self_iff.mpr hall, takeWhile_eq_self_iff.mpr hs, foldl_append,
    foldl_cons, foldl_nil, hd, getD_some]

lemma hexValue_pair {m n : ℕ} (hm : m < 16) (hn : n < 16) :
    hexValue [Nat.digitChar m, Nat.digitChar n] = m * 16 + n := by
  have h0 : hexValue ([] ++ [Nat.digitChar m]) = hexValue [] * 16 + m :=
    hexValue_append_digit (fun c hc => absurd hc not_mem_nil) hm
  have h1 : hexValue ([Nat.digitChar m] ++ [Nat.digitChar n]) = hexValue [Nat.digitChar m] * 16 + n := by
    refine hexValue_append_digit (fun c hc => ?_) hn
    rw [mem_singleton.mp hc, hexDigit_digitChar m hm, isSome_some]
  rw [nil_append] at h0
  rw [h0] at h1
  simpa [hexValue] using h1

lemma hexToBytes_hexStr (bs : List UInt8) : hexToBytes (hexStr bs) = bs := by
  induction bs with
  | nil => rfl
  | cons b bs ih =>
    have hb : b.toNat < 256 := b.toNat_lt
    rw [hexStr, hexToBytes, ih, hexValue_pair (by omega) (by omega)]
    congr 1
    apply UInt8.toNat_inj.mp
    rw [UInt8.toNat_ofNat']
    omega

lemma length_hexStr (bs : List UInt8) : (hexStr bs).length = 2 * bs.length := by
  induction bs with
  | nil => rfl
  | cons b bs ih =>
    rw [hexStr, length_cons, length_cons, ih, length_cons]
    omega

lemma isSome_hexDigit_of_mem_toDigits (n : ℕ) : ∀ c ∈ Nat.toDigits 16 n, (hexDigit c).isSome := by
  induction n using Nat.strongRecOn with
  | ind n ih =>
    intro c hc
    rw [Nat.toDigits_eq_if (by decide)] at hc
    split_ifs at hc with hn
    · rw [mem_singleton.mp hc, hexDigit_digitChar n hn, isSome_some]
    · rcases mem_append.mp hc with hc | hc
      · exact ih (n / 16) (by omega) c hc
      · rw [mem_singleton.mp hc, hexDigit_digitChar (n % 16) (by omega), isSome_some]

lemma hexValue_toDigits (n : ℕ) : hexValue (Nat.toDigits 16 n) = n := by
  induction n using Nat.strongRecOn with
  | ind n ih =>
    rw [Nat.toDigits_eq_if (by decide)]
    split_ifs with hn
    · have h0 := hexValue_append_digit (fun c hc => absurd hc (not_mem_nil (a := c))) hn
      simpa [hexValue] using h0
    · rw [hexValue_append_digit (isSome_hexDigit_of_mem_toDigits (n / 16)) (by omega), ih (n / 16) (by omega)]
      omega

end Blocx.Hex
