import Blocx.Autolykos.PowScheme
import Blocx.Primitives.Block

/-!
# The hash of a block header

`GetHash` takes one of two routes. A header of another version than `0x05` is hashed by X11 over its network form. A
header of version `0x05` is re-assembled into an Autolykos header, whose hit, printed in hexadecimal and read back, is
the hash. The second route carries every field of the network form but `nNonce`: two Autolykos headers that differ
there alone have one hash (`getHash_commits`).
-/

namespace Blocx

open CBlockHeader

open Wire AutolykosPowScheme

variable {a b : CBlockHeader}

namespace CBlockHeader

def autolykosHeader (h : CBlockHeader) (version : BitVec 8) (nBits : BitVec 32) : Header where
  version := version
  parentId := bytesOfHex h.hashPrevBlock
  transactionsRoot := bytesOfHex h.hashMerkleRoot
  timestamp := h.nTime.setWidth 64
  nBits := nBits
  height := h.aHeight
  nonce := uint64ToBytes h.nNewNonce

def autolykosHash (hash : HashFunctions) (h : CBlockHeader) : Uint256 :=
  Uint256.uint256S (Nat.toDigits 16 (hit hash (h.autolykosHeader 0x05 h.nBits)))

def getHash (hash : HashFunctions) (h : CBlockHeader) : Uint256 :=
  if h.nVersion ≠ autolykosVersion then hash.hashX11 h.serialize else h.autolykosHash hash

variable (hash : HashFunctions) {h : CBlockHeader}

lemma toNat_autolykosHash (h : CBlockHeader) :
    (h.autolykosHash hash).toNat = hit hash (h.autolykosHeader 0x05 h.nBits) := by
  rw [autolykosHash, Uint256.uint256S_toDigits, BitVec.toNat_ofNat, Nat.mod_eq_of_lt (hit_lt hash _)]

lemma getHash_of_ne (hv : h.nVersion ≠ autolykosVersion) : h.getHash hash = hash.hashX11 h.serialize := if_pos hv

lemma getHash_of_eq (hv : h.nVersion = autolykosVersion) :
    h.getHash hash = h.autolykosHash hash := if_neg (not_not_intro hv)

/-- What the Autolykos message hash is fed for a block header: the reversals cancel. -/
lemma bytesWithoutPow_autolykosHeader (h : CBlockHeader) (version : BitVec 8) (nBits : BitVec 32) :
    bytesWithoutPow (h.autolykosHeader version nBits).toHeaderWithoutPow =
      put (version.setWidth 32) ++ (put h.hashPrevBlock ++ (put h.hashMerkleRoot ++ (put h.nTime ++ (put nBits ++
        put h.aHeight)))) := by
  have ht : (h.nTime.setWidth 64).setWidth 32 = h.nTime := by
    apply BitVec.eq_of_toNat_eq
    rw [BitVec.toNat_setWidth, BitVec.toNat_setWidth]
    omega
  simp only [bytesWithoutPow, autolykosHeader, val_bytesOfHex, List.reverse_reverse, ht]

/-- Headers that feed the Autolykos hashes the same bytes agree in everything but version and `nNonce`. -/
lemma fields_of_autolykosHeader {version : BitVec 8}
    (hm : bytesWithoutPow (a.autolykosHeader version a.nBits).toHeaderWithoutPow =
      bytesWithoutPow (b.autolykosHeader version b.nBits).toHeaderWithoutPow)
    (hn : (a.autolykosHeader version a.nBits).nonce = (b.autolykosHeader version b.nBits).nonce) :
    a.hashPrevBlock = b.hashPrevBlock ∧ a.hashMerkleRoot = b.hashMerkleRoot ∧ a.nTime = b.nTime ∧
      a.nBits = b.nBits ∧ a.nNewNonce = b.nNewNonce ∧ a.aHeight = b.aHeight := by
  rw [bytesWithoutPow_autolykosHeader, bytesWithoutPow_autolykosHeader] at hm
  obtain ⟨-, hm⟩ := put_append_inj (by decide) hm
  obtain ⟨hp, hm⟩ := put_append_inj (by decide) hm
  obtain ⟨hr, hm⟩ := put_append_inj (by decide) hm
  obtain ⟨ht, hm⟩ := put_append_inj (by decide) hm
  obtain ⟨hb, hm⟩ := put_append_inj (by decide) hm
  exact ⟨hp, hr, ht, hb, put_inj (by decide) (List.reverse_inj.mp hn), put_inj (by decide) hm⟩

end CBlockHeader

/-- The hash functions have no collisions among a set of headers: X11 as a function of the network form, the
Autolykos composition as a function of the message bytes and the nonce, nor one between the two. -/
structure CollisionFree (hash : HashFunctions) (H : Set CBlockHeader) : Prop where
  x11 : ∀ a ∈ H, ∀ b ∈ H, hash.hashX11 a.serialize = hash.hashX11 b.serialize → a.serialize = b.serialize
  /-- The Autolykos message hash and hit. -/
  autolykos : ∀ a ∈ H, ∀ b ∈ H,
    hit hash (a.autolykosHeader 0x05 a.nBits) = hit hash (b.autolykosHeader 0x05 b.nBits) →
      bytesWithoutPow (a.autolykosHeader 0x05 a.nBits).toHeaderWithoutPow =
        bytesWithoutPow (b.autolykosHeader 0x05 b.nBits).toHeaderWithoutPow ∧
      (a.autolykosHeader 0x05 a.nBits).nonce = (b.autolykosHeader 0x05 b.nBits).nonce
  /-- One against the other. -/
  cross : ∀ a ∈ H, ∀ b ∈ H, hash.hashX11 a.serialize ≠ b.autolykosHash hash

/-- Two Autolykos headers that differ in `nNonce` and in nothing else. -/
def DifferInNonceOnly (a b : CBlockHeader) : Prop :=
  a.nVersion = autolykosVersion ∧ a.nNonce ≠ b.nNonce ∧ a = { b with nNonce := a.nNonce }

instance (a b : CBlockHeader) : Decidable (DifferInNonceOnly a b) := inferInstanceAs (Decidable (_ ∧ _))

section Commitment

variable {hash : HashFunctions}

/-- `nNonce` does not enter the hash of an Autolykos header. -/
lemma DifferInNonceOnly.getHash_eq (h : DifferInNonceOnly a b) : a.getHash hash = b.getHash hash := by
  obtain ⟨hv, -, hab⟩ := h
  have hvb : b.nVersion = autolykosVersion := by rw [← hv, hab]
  rw [getHash_of_eq hash hv, getHash_of_eq hash hvb, hab]
  rfl

lemma DifferInNonceOnly.serialize_ne (h : DifferInNonceOnly a b) : a.serialize ≠ b.serialize := by
  intro hs
  exact h.2.1 (serialize_inj hs).2.2.2.2.2.1

lemma CollisionFree.eq_of_autolykosHash {H : Set CBlockHeader} (hc : CollisionFree hash H) (ha : a ∈ H) (hb : b ∈ H)
    (hva : a.nVersion = CBlockHeader.autolykosVersion) (hvb : b.nVersion = CBlockHeader.autolykosVersion)
    (h : a.autolykosHash hash = b.autolykosHash hash) : a = { b with nNonce := a.nNonce } := by
  have hhit : hit hash (a.autolykosHeader 0x05 a.nBits) = hit hash (b.autolykosHeader 0x05 b.nBits) := by
    rw [← CBlockHeader.toNat_autolykosHash, ← CBlockHeader.toNat_autolykosHash, h]
  obtain ⟨hm, hn⟩ := hc.autolykos a ha b hb hhit
  obtain ⟨hp, hr, ht, hbits, hnonce, hheight⟩ := CBlockHeader.fields_of_autolykosHeader hm hn
  exact CBlockHeader.ext (hva.trans hvb.symm) hp hr ht hbits rfl hnonce hheight

/-- **The hash commits to the header.** Among headers without hash collisions, equal hashes mean equal network forms
exactly when the two are not Autolykos headers that differ in `nNonce` alone. -/
theorem getHash_commits (hash : HashFunctions) (H : Set CBlockHeader) (hc : CollisionFree hash H) (a b : CBlockHeader)
    (ha : a ∈ H) (hb : b ∈ H) :
    (a.getHash hash = b.getHash hash → a.serialize = b.serialize) ↔ ¬DifferInNonceOnly a b := by
  constructor
  · intro h hd
    exact hd.serialize_ne (h hd.getHash_eq)
  · intro hd heq
    by_cases hva : a.nVersion = autolykosVersion <;>
      by_cases hvb : b.nVersion = autolykosVersion
    · rw [getHash_of_eq hash hva, getHash_of_eq hash hvb] at heq
      have hab := hc.eq_of_autolykosHash ha hb hva hvb heq
      have hn : a.nNonce = b.nNonce := by
        by_contra hn
        exact hd ⟨hva, hn, hab⟩
      rw [hab, hn]
    · rw [getHash_of_eq hash hva, getHash_of_ne hash hvb] at heq
      exact absurd heq.symm (hc.cross b hb a ha)
    · rw [getHash_of_ne hash hva, getHash_of_eq hash hvb] at heq
      exact absurd heq (hc.cross a ha b hb)
    · rw [getHash_of_ne hash hva, getHash_of_ne hash hvb] at heq
      exact hc.x11 a ha b hb heq

end Commitment

/-- Hash functions that are good enough for a few headers: X11 returns the last bytes of a network form, Blake2b always
the largest number. -/
def toyHash : HashFunctions where
  hashX11 := fun bs => BitVec.ofNat 256 (leValue (bs.drop 76))
  blake2b256 := fun _ => ⟨List.replicate 32 0xff, rfl⟩

/-- An Autolykos header with a given `nNonce`. -/
def nonceTwin (nNonce : BitVec 32) : CBlockHeader := { nVersion := 5, nNonce }

/-- Two twins and an X11 header. -/
def twins : Set CBlockHeader := {nonceTwin 0, nonceTwin 1, { nVersion := 4, nNonce := 2 }}

lemma toNat_autolykosHash_toyHash (h : CBlockHeader) : (h.autolykosHash toyHash).toNat = 2 ^ 256 - 1 := by
  rw [toNat_autolykosHash]
  change toBigInt (List.replicate 32 0xff) = 2 ^ 256 - 1
  decide

lemma collisionFree_twins : CollisionFree toyHash twins := by
  constructor
  · rintro a (rfl | rfl | rfl) b (rfl | rfl | rfl) <;> decide
  · rintro a (rfl | rfl | rfl) b (rfl | rfl | rfl) - <;> exact ⟨rfl, rfl⟩
  · intro a ha b _ h
    have hb := toNat_autolykosHash_toyHash b
    rw [← h] at hb
    revert hb
    rcases ha with rfl | rfl | rfl <;> decide

/-- The twins and the X11 header are such a set. -/
theorem getHash_commits_twins :
    ((nonceTwin 0).getHash toyHash = (nonceTwin 1).getHash toyHash → (nonceTwin 0).serialize = (nonceTwin 1).serialize)
      ↔ ¬DifferInNonceOnly (nonceTwin 0) (nonceTwin 1) :=
  getHash_commits toyHash twins collisionFree_twins (nonceTwin 0) (nonceTwin 1) (Or.inl rfl) (Or.inr (Or.inl rfl))

/-- Two headers with different network forms and the same hash under every hash function, collision free or not. -/
theorem nonceTwin_getHash_eq :
    (nonceTwin 0).serialize ≠ (nonceTwin 1).serialize ∧
      (∀ hash, (nonceTwin 0).getHash hash = (nonceTwin 1).getHash hash) ∧
      CollisionFree toyHash {nonceTwin 0, nonceTwin 1} := by
  have hd : DifferInNonceOnly (nonceTwin 0) (nonceTwin 1) := by decide
  refine ⟨hd.serialize_ne, fun hash => hd.getHash_eq, ?_⟩
  have hsub : ∀ h ∈ ({nonceTwin 0, nonceTwin 1} : Set CBlockHeader), h ∈ twins := by
    rintro h (rfl | rfl)
    · exact Or.inl rfl
    · exact Or.inr (Or.inl rfl)
  exact ⟨fun a ha b hb => collisionFree_twins.x11 a (hsub a ha) b (hsub b hb),
    fun a ha b hb => collisionFree_twins.autolykos a (hsub a ha) b (hsub b hb),
    fun a ha b hb => collisionFree_twins.cross a (hsub a ha) b (hsub b hb)⟩

end Blocx
