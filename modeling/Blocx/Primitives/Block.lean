import Blocx.Primitives.Uint256

/-!
# Block headers

`CBlockHeader` and its network serialisation (`primitives/block.h`). A header of version `0x05` (Autolykos)
carries two more fields on the wire, the 64-bit nonce and the height the miner states; every other header has
neither, and reading it back leaves them at the zero the constructor puts there.

Fixed-width integers are bit vectors; `int32_t nVersion` is a 32-bit vector whose order, where it matters, is
that of `BitVec.toInt`.
-/

namespace Blocx

open Wire

@[ext]
structure CBlockHeader where
  nVersion : BitVec 32 := 0
  hashPrevBlock : Uint256 := 0
  hashMerkleRoot : Uint256 := 0
  nTime : BitVec 32 := 0
  nBits : BitVec 32 := 0
  /-- Nonce of the X11 proof of work. -/
  nNonce : BitVec 32 := 0
  /-- Nonce of the Autolykos proof of work. -/
  nNewNonce : BitVec 64 := 0
  /-- Height stated for the Autolykos proof of work. -/
  aHeight : BitVec 32 := 0
  deriving DecidableEq

namespace CBlockHeader

/-- The version whose headers carry `nNewNonce` and `aHeight`. -/
def autolykosVersion : BitVec 32 := 0x05

/-- The two fields only an Autolykos header has on the wire. -/
def autolykosFields (h : CBlockHeader) : List UInt8 := put h.nNewNonce ++ put h.aHeight

/-- `CBlockHeader`'s `SERIALIZE_METHODS`, writing. -/
def serialize (h : CBlockHeader) : List UInt8 :=
  put h.nVersion ++ (put h.hashPrevBlock ++ (put h.hashMerkleRoot ++ (put h.nTime ++ (put h.nBits ++
    (put h.nNonce ++ putIf (h.nVersion = autolykosVersion) h.autolykosFields)))))

/-- The two Autolykos fields, read. -/
def unserializeAutolykosFields : Reader (BitVec 64 × BitVec 32) := do
  let nNewNonce ← Reader.get 64
  let aHeight ← Reader.get 32
  return (nNewNonce, aHeight)

/-- `CBlockHeader`'s `SERIALIZE_METHODS`, reading into a fresh header. -/
def unserialize : Reader CBlockHeader := do
  let nVersion ← Reader.get 32
  let hashPrevBlock ← Reader.get 256
  let hashMerkleRoot ← Reader.get 256
  let nTime ← Reader.get 32
  let nBits ← Reader.get 32
  let nNonce ← Reader.get 32
  let tail ← Reader.getIf (nVersion = autolykosVersion) unserializeAutolykosFields (0, 0)
  return { nVersion, hashPrevBlock, hashMerkleRoot, nTime, nBits, nNonce, nNewNonce := tail.1, aHeight := tail.2 }

/-- A header as the network sees it: the Autolykos fields are zero unless the version writes them. -/
def OnWire (h : CBlockHeader) : Prop :=
  h.nVersion ≠ autolykosVersion → h.nNewNonce = 0 ∧ h.aHeight = 0

instance (h : CBlockHeader) : Decidable h.OnWire := inferInstanceAs (Decidable (_ → _))

lemma reads_autolykosFields (h : CBlockHeader) :
    Reads unserializeAutolykosFields h.autolykosFields (h.nNewNonce, h.aHeight) :=
  (Reads.get (by decide) h.nNewNonce).bind ((Reads.get (by decide) h.aHeight).bind_pure (Reads.pure _))

lemma reads_serialize {h : CBlockHeader} (hw : h.OnWire) : Reads unserialize h.serialize h := by
  refine (Reads.get (by decide) _).bind <| (Reads.get (by decide) _).bind <| (Reads.get (by decide) _).bind <|
    (Reads.get (by decide) _).bind <| (Reads.get (by decide) _).bind <| (Reads.get (by decide) _).bind ?_
  refine (h.reads_autolykosFields.getIf (0, 0)).bind_pure ?_
  by_cases hv : h.nVersion = autolykosVersion
  · simp only [hv, decide_true, if_true]
    rw [← hv]
    exact Reads.pure h
  · obtain ⟨hn, ha⟩ := hw hv
    simp only [hv, decide_false, Bool.false_eq_true, if_false]
    rw [← hn, ← ha]
    exact Reads.pure h

/-- A header survives the wire exactly if it has no Autolykos fields that are not written. -/
theorem reads_serialize_iff (h : CBlockHeader) : Reads unserialize h.serialize h ↔ h.OnWire := by
  refine ⟨fun hreads hv => ?_, reads_serialize⟩
  have hread : Reads unserialize h.serialize { h with nNewNonce := 0, aHeight := 0 } := by
    rw [show h.serialize = { h with nNewNonce := 0, aHeight := 0 }.serialize by simp [serialize, hv, putIf]]
    exact reads_serialize fun _ => ⟨rfl, rfl⟩
  rw [(Prod.mk.inj (Option.some.inj ((hreads []).symm.trans (hread [])))).1]
  exact ⟨rfl, rfl⟩

/-- Two headers with the same network form agree in every field that is written. -/
lemma serialize_inj {a b : CBlockHeader} (h : a.serialize = b.serialize) :
    a.nVersion = b.nVersion ∧ a.hashPrevBlock = b.hashPrevBlock ∧ a.hashMerkleRoot = b.hashMerkleRoot ∧
      a.nTime = b.nTime ∧ a.nBits = b.nBits ∧ a.nNonce = b.nNonce ∧
      (a.nVersion = autolykosVersion → a.nNewNonce = b.nNewNonce ∧ a.aHeight = b.aHeight) := by
  obtain ⟨hv, h⟩ := put_append_inj (by decide) h
  obtain ⟨hp, h⟩ := put_append_inj (by decide) h
  obtain ⟨hm, h⟩ := put_append_inj (by decide) h
  obtain ⟨ht, h⟩ := put_append_inj (by decide) h
  obtain ⟨hb, h⟩ := put_append_inj (by decide) h
  obtain ⟨hn, h⟩ := put_append_inj (by decide) h
  refine ⟨hv, hp, hm, ht, hb, hn, ?_⟩
  intro h5
  rw [← hv] at h
  simp only [h5, decide_true, putIf, if_true, autolykosFields] at h
  obtain ⟨hnn, h⟩ := put_append_inj (by decide) h
  exact ⟨hnn, put_inj (by decide) h⟩

end CBlockHeader

end Blocx
