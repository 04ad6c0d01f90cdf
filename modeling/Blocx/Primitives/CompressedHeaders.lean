import Blocx.Primitives.Block
import Mathlib.Data.List.Infix

/-!
# Compressed block headers

The `headers2` message sends headers in a compressed form (`CompressibleBlockHeader`). A bit field says which
fields are left out: the previous hash always is after the first header, the time is an offset to the previous
header's when that fits into an `int16_t`, the target is left out when it did not change, and the version is
replaced by its position in a list of the last seven versions that sender and receiver both keep.

The presence of the two Autolykos fields depends on the version, and a compressed version is known to the reader
only after the whole entry has been read. `serialize_eq` says exactly what this does: the writer's bytes are the
bytes the reader takes followed by `leftover`, which is empty unless a header of version `0x05` has its version
compressed.
-/

namespace Blocx

open List Option

open CBlockHeader

open Wire

/-! ### The bit field -/

/-- The flags of `CompressedHeaderBitField` other than the three version bits. A set flag means that the field is
sent. -/
inductive CompressedHeaderBitField.Flag where
  | prevBlockHash
  | timestamp
  | nBits
  deriving DecidableEq

/-- `CompressedHeaderBitField`: one byte. -/
structure CompressedHeaderBitField where
  bits : BitVec 8 := 0
  deriving DecidableEq

namespace CompressedHeaderBitField

def versionBitMask : BitVec 8 := 0x07

def Flag.toByte : Flag → BitVec 8
  | prevBlockHash => 0x08
  | timestamp => 0x10
  | nBits => 0x20

def isCompressed (b : CompressedHeaderBitField) (flag : Flag) : Bool := b.bits &&& flag.toByte == 0

def markAsUncompressed (b : CompressedHeaderBitField) (flag : Flag) : CompressedHeaderBitField :=
  ⟨b.bits ||| flag.toByte⟩

def markAsCompressed (b : CompressedHeaderBitField) (flag : Flag) : CompressedHeaderBitField :=
  ⟨b.bits &&& ~~~flag.toByte⟩

def setVersionOffset (b : CompressedHeaderBitField) (version : BitVec 8) : CompressedHeaderBitField :=
  ⟨(b.bits &&& ~~~versionBitMask) ||| (version &&& versionBitMask)⟩

def getVersionOffset (b : CompressedHeaderBitField) : BitVec 8 := b.bits &&& versionBitMask

def isVersionCompressed (b : CompressedHeaderBitField) : Bool := b.getVersionOffset != 0

def serialize (b : CompressedHeaderBitField) : List UInt8 := put b.bits

def unserialize : Reader CompressedHeaderBitField := do
  let bits ← Reader.get 8
  return ⟨bits⟩

variable (b : CompressedHeaderBitField)

include b

lemma reads_serialize : Reads unserialize b.serialize b :=
  (Reads.get (by decide) b.bits).bind_pure (Reads.pure b)

@[simp]
lemma isCompressed_markAsCompressed {f g : Flag} :
    (b.markAsCompressed g).isCompressed f = (decide (f = g) || b.isCompressed f) := by
  have hm : ~~~g.toByte &&& f.toByte = if f = g then 0#8 else f.toByte := by
    cases f <;> cases g <;> decide
  simp only [isCompressed, markAsCompressed, BitVec.and_assoc, hm]
  by_cases hfg : f = g
  · simp [hfg]
  · simp [hfg]

@[simp]
lemma getVersionOffset_markAsCompressed {f : Flag} :
    (b.markAsCompressed f).getVersionOffset = b.getVersionOffset := by
  have hm : ~~~f.toByte &&& versionBitMask = versionBitMask := by
    cases f <;> decide
  simp only [getVersionOffset, markAsCompressed, BitVec.and_assoc, hm]

@[simp]
lemma isCompressed_setVersionOffset (v : BitVec 8) (f : Flag) :
    (b.setVersionOffset v).isCompressed f = b.isCompressed f := by
  have hm : ~~~versionBitMask &&& f.toByte = f.toByte ∧ versionBitMask &&& f.toByte = 0#8 := by
    cases f <;> decide
  simp only [isCompressed, setVersionOffset, BitVec.and_or_distrib_right, BitVec.and_assoc, hm, BitVec.and_zero,
    BitVec.or_zero]

@[simp]
lemma getVersionOffset_setVersionOffset (v : BitVec 8) :
    (b.setVersionOffset v).getVersionOffset = v &&& versionBitMask := by
  have hm : ~~~versionBitMask &&& versionBitMask = 0#8 := by decide
  simp only [getVersionOffset, setVersionOffset, BitVec.and_or_distrib_right, BitVec.and_assoc, hm,
    BitVec.and_self, BitVec.and_zero, BitVec.zero_or]

end CompressedHeaderBitField

/-! ### The version list -/

def maxBackwardsLookUps : ℕ := 7

/-- `MarkVersionAsMostRecent`: the entry at `i` moves to the front. -/
def markVersionAsMostRecent (lastUniqueVersions : List (BitVec 32)) (i : ℕ) : List (BitVec 32) :=
  match lastUniqueVersions[i]? with
  | some version => version :: lastUniqueVersions.eraseIdx i
  | none => lastUniqueVersions

/-- `SaveVersionAsMostRecent`: a new entry goes to the front, and the eighth is dropped. -/
def saveVersionAsMostRecent (lastUniqueVersions : List (BitVec 32)) (version : BitVec 32) : List (BitVec 32) :=
  if maxBackwardsLookUps < (version :: lastUniqueVersions).length then
    (version :: lastUniqueVersions).dropLast
  else version :: lastUniqueVersions

/-- The version list after a version has been sent. -/
def recordVersion (lastUniqueVersions : List (BitVec 32)) (version : BitVec 32) : List (BitVec 32) :=
  match lastUniqueVersions.idxOf? version with
  | some i => markVersionAsMostRecent lastUniqueVersions i
  | none => saveVersionAsMostRecent lastUniqueVersions version

/-- The receiver's list starts with the sender's, and neither is longer than the bit field can address. -/
structure Lockstep (sender receiver : List (BitVec 32)) : Prop where
  /-- The positions the sender uses mean the same at the receiver. -/
  isPrefix : sender <+: receiver
  /-- At most seven entries. -/
  bound : receiver.length ≤ maxBackwardsLookUps

variable {vs : List (BitVec 32)}

lemma saveVersionAsMostRecent_eq_take (h : vs.length ≤ maxBackwardsLookUps) {v : BitVec 32} :
    saveVersionAsMostRecent vs v = (v :: vs).take maxBackwardsLookUps := by
  unfold saveVersionAsMostRecent
  split
  case isTrue hl =>
    rw [dropLast_eq_take]
    congr 1
    rw [length_cons] at hl ⊢
    omega
  case isFalse hl => rw [take_of_length_le (Nat.le_of_not_lt hl)]

lemma markVersionAsMostRecent_of_lt {i : ℕ} (h : i < vs.length) :
    markVersionAsMostRecent vs i = vs[i] :: vs.eraseIdx i := by
  rw [markVersionAsMostRecent, getElem?_eq_getElem h]

variable {S R : List (BitVec 32)}

namespace Lockstep

lemma save (h : Lockstep S R) (v : BitVec 32) :
    Lockstep (saveVersionAsMostRecent S v) (saveVersionAsMostRecent R v) := by
  have hS : S.length ≤ maxBackwardsLookUps := h.isPrefix.length_le.trans h.bound
  rw [saveVersionAsMostRecent_eq_take hS, saveVersionAsMostRecent_eq_take h.bound]
  refine ⟨?_, length_take_le _ _⟩
  exact List.IsPrefix.take ((prefix_cons_inj v).mpr h.isPrefix) maxBackwardsLookUps

lemma mark (h : Lockstep S R) {i : ℕ} (hi : i < S.length) :
    Lockstep (markVersionAsMostRecent S i) (markVersionAsMostRecent R i) := by
  have hR : i < R.length := hi.trans_le h.isPrefix.length_le
  rw [markVersionAsMostRecent_of_lt hi, markVersionAsMostRecent_of_lt hR]
  constructor
  · obtain ⟨tail, rfl⟩ := h.isPrefix
    rw [getElem_append_left hi, eraseIdx_append_of_lt_length hi, ← cons_append]
    exact prefix_append _ _
  · rw [length_cons, length_eraseIdx_of_lt hR]
    have := h.bound
    omega

end Lockstep

/-! ### Entries -/

/-- `CompressibleBlockHeader`: a header with its bit field and time offset. -/
structure CompressibleBlockHeader extends CBlockHeader where
  bitField : CompressedHeaderBitField := {}
  /-- Time since the previous header, `int16_t`. -/
  timeOffset : BitVec 16 := 0
  deriving DecidableEq

namespace CompressibleBlockHeader

open CompressedHeaderBitField Flag

def uncompressedBitField : CompressedHeaderBitField :=
  (((({} : CompressedHeaderBitField).setVersionOffset 0).markAsUncompressed .prevBlockHash).markAsUncompressed
    .timestamp).markAsUncompressed .nBits

/-- The constructor from a header. -/
def ofHeader (h : CBlockHeader) : CompressibleBlockHeader :=
  { toCBlockHeader := h, bitField := uncompressedBitField }

/-- `SERIALIZE_METHODS`, writing. -/
def serialize (c : CompressibleBlockHeader) : List UInt8 :=
  c.bitField.serialize ++ (putIf (!c.bitField.isVersionCompressed) (put c.nVersion) ++
    (putIf (!c.bitField.isCompressed .prevBlockHash) (put c.hashPrevBlock) ++ (put c.hashMerkleRoot ++
    ((if !c.bitField.isCompressed .timestamp then put c.nTime else put c.timeOffset) ++
    (putIf (!c.bitField.isCompressed .nBits) (put c.nBits) ++ (put c.nNonce ++
    putIf (c.nVersion = autolykosVersion) c.autolykosFields))))))

/-- The time or the time offset, as the bit field says; the other one stays zero. -/
def unserializeTime (compressed : Bool) : Reader (BitVec 32 × BitVec 16) :=
  if !compressed then do
    let nTime ← Reader.get 32
    return (nTime, 0)
  else do
    let timeOffset ← Reader.get 16
    return (0, timeOffset)

/-- `SERIALIZE_METHODS`, reading into a fresh entry. -/
def unserialize : Reader CompressibleBlockHeader := do
  let bitField ← CompressedHeaderBitField.unserialize
  let nVersion ← Reader.getIf (!bitField.isVersionCompressed) (Reader.get 32) 0
  let hashPrevBlock ← Reader.getIf (!bitField.isCompressed .prevBlockHash) (Reader.get 256) 0
  let hashMerkleRoot ← Reader.get 256
  let time ← unserializeTime (bitField.isCompressed .timestamp)
  let nBits ← Reader.getIf (!bitField.isCompressed .nBits) (Reader.get 32) 0
  let nNonce ← Reader.get 32
  let tail ← Reader.getIf (nVersion = autolykosVersion) unserializeAutolykosFields (0, 0)
  return { nVersion, hashPrevBlock, hashMerkleRoot, nTime := time.1, nBits, nNonce, nNewNonce := tail.1,
           aHeight := tail.2, bitField, timeOffset := time.2 }

/-- `Compress`, the version: its position in the list if it is there. -/
def compressVersion (c : CompressibleBlockHeader) (lastUniqueVersions : List (BitVec 32)) :
    CompressibleBlockHeader × List (BitVec 32) :=
  match lastUniqueVersions.idxOf? c.nVersion with
  | some i =>
    ({ c with bitField := c.bitField.setVersionOffset (BitVec.ofNat 8 (i + 1)) },
      markVersionAsMostRecent lastUniqueVersions i)
  | none => (c, saveVersionAsMostRecent lastUniqueVersions c.nVersion)

/-- `Compress`, the time: an offset to the last block's if that fits into an `int16_t`. -/
def compressTime (c lastBlock : CompressibleBlockHeader) : CompressibleBlockHeader :=
  -- `nTime - last_block.nTime` is computed in `uint32_t` and only then widened, so it is never negative
  let timeDiff : ℤ := (c.nTime - lastBlock.nTime).toNat
  if timeDiff ≤ 32767 ∧ timeDiff ≥ -32768 then
    { c with timeOffset := BitVec.ofInt 16 timeDiff, bitField := c.bitField.markAsCompressed .timestamp }
  else c

/-- `Compress`, the target: not sent if it is the last block's. -/
def compressBits (c lastBlock : CompressibleBlockHeader) : CompressibleBlockHeader :=
  if c.nBits = lastBlock.nBits then { c with bitField := c.bitField.markAsCompressed .nBits } else c

/-- `Compress`, with the version list it leaves. -/
def compress (c : CompressibleBlockHeader) (previousBlocks : List CompressibleBlockHeader)
    (lastUniqueVersions : List (BitVec 32)) : CompressibleBlockHeader × List (BitVec 32) :=
  match previousBlocks.getLast? with
  | none => (c, saveVersionAsMostRecent lastUniqueVersions c.nVersion)
  | some lastBlock =>
    let p := c.compressVersion lastUniqueVersions
    let c := { p.1 with bitField := p.1.bitField.markAsCompressed .prevBlockHash }
    ((c.compressTime lastBlock).compressBits lastBlock, p.2)

/-- `Uncompress`, the version and the list. An offset beyond the list is ignored. -/
def uncompressVersion (c : CompressibleBlockHeader) (lastUniqueVersions : List (BitVec 32)) :
    BitVec 32 × List (BitVec 32) :=
  if c.bitField.isVersionCompressed then
    let versionOffset := c.bitField.getVersionOffset.toNat
    if versionOffset ≤ lastUniqueVersions.length then
      (lastUniqueVersions.getD (versionOffset - 1) c.nVersion,
        markVersionAsMostRecent lastUniqueVersions (versionOffset - 1))
    else (c.nVersion, lastUniqueVersions)
  else (c.nVersion, saveVersionAsMostRecent lastUniqueVersions c.nVersion)

/-- `Uncompress`, with the version list it leaves. The hash of a header is a parameter. -/
def uncompress (getHash : CBlockHeader → Uint256) (c : CompressibleBlockHeader) (previousBlocks : List CBlockHeader)
    (lastUniqueVersions : List (BitVec 32)) : CompressibleBlockHeader × List (BitVec 32) :=
  match previousBlocks.getLast? with
  | none => (c, saveVersionAsMostRecent lastUniqueVersions c.nVersion)
  | some lastBlock =>
    let p := c.uncompressVersion lastUniqueVersions
    ({ c with
        nVersion := p.1
        hashPrevBlock := if c.bitField.isCompressed .prevBlockHash then getHash lastBlock else c.hashPrevBlock
        nTime := if c.bitField.isCompressed .timestamp then lastBlock.nTime + c.timeOffset.signExtend 32
          else c.nTime
        nBits := if c.bitField.isCompressed .nBits then lastBlock.nBits else c.nBits }, p.2)

/-! ### What the reader takes of an entry -/

/-- The entry as the reader builds it: fields that are not sent are zero, and so are the Autolykos fields unless
the version that was read asks for them. -/
def received (c : CompressibleBlockHeader) : CompressibleBlockHeader :=
  let nVersion := if !c.bitField.isVersionCompressed then c.nVersion else 0
  { nVersion
    hashPrevBlock := if !c.bitField.isCompressed .prevBlockHash then c.hashPrevBlock else 0
    hashMerkleRoot := c.hashMerkleRoot
    nTime := if !c.bitField.isCompressed .timestamp then c.nTime else 0
    nBits := if !c.bitField.isCompressed .nBits then c.nBits else 0
    nNonce := c.nNonce
    nNewNonce := if nVersion = autolykosVersion then c.nNewNonce else 0
    aHeight := if nVersion = autolykosVersion then c.aHeight else 0
    bitField := c.bitField
    timeOffset := if !c.bitField.isCompressed .timestamp then 0 else c.timeOffset }

/-- The part of the written bytes that the reader takes. -/
def readable (c : CompressibleBlockHeader) : List UInt8 :=
  c.bitField.serialize ++ (putIf (!c.bitField.isVersionCompressed) (put c.nVersion) ++
    (putIf (!c.bitField.isCompressed .prevBlockHash) (put c.hashPrevBlock) ++ (put c.hashMerkleRoot ++
    ((if !c.bitField.isCompressed .timestamp then put c.nTime else put c.timeOffset) ++
    (putIf (!c.bitField.isCompressed .nBits) (put c.nBits) ++ (put c.nNonce ++
    putIf (c.received.nVersion = autolykosVersion) c.autolykosFields))))))

/-- The part of the written bytes that the reader leaves: the Autolykos fields under a compressed version. -/
def leftover (c : CompressibleBlockHeader) : List UInt8 :=
  putIf (c.bitField.isVersionCompressed && c.nVersion = autolykosVersion) c.autolykosFields

lemma serialize_eq (c : CompressibleBlockHeader) : c.serialize = c.readable ++ c.leftover := by
  have h0 : 0#32 ≠ autolykosVersion := by decide
  unfold serialize readable leftover
  simp only [append_assoc, append_cancel_left_eq, received]
  rcases Bool.eq_false_or_eq_true c.bitField.isVersionCompressed with hc | hc
  · simp [hc, putIf, h0]
  · simp [hc, putIf]

lemma reads_time (c : CompressibleBlockHeader) : Reads (unserializeTime (c.bitField.isCompressed .timestamp))
      (if !c.bitField.isCompressed .timestamp then put c.nTime else put c.timeOffset)
      (c.received.nTime, c.received.timeOffset) := by
  unfold received
  rcases Bool.eq_false_or_eq_true (c.bitField.isCompressed .timestamp) with hc | hc
  · rw [hc]
    exact (Reads.get (by decide) c.timeOffset).bind_pure (Reads.pure _)
  · rw [hc]
    exact (Reads.get (by decide) c.nTime).bind_pure (Reads.pure _)

lemma reads_readable (c : CompressibleBlockHeader) : Reads unserialize c.readable c.received := by
  refine c.bitField.reads_serialize.bind ?_
  refine ((Reads.get (by decide) c.nVersion).getIf 0).bind ?_
  refine ((Reads.get (by decide) c.hashPrevBlock).getIf 0).bind ?_
  refine (Reads.get (by decide) c.hashMerkleRoot).bind ?_
  refine c.reads_time.bind ?_
  refine ((Reads.get (by decide) c.nBits).getIf 0).bind ?_
  refine (Reads.get (by decide) c.nNonce).bind ?_
  refine (c.reads_autolykosFields.getIf (0, 0)).bind_pure ?_
  convert Reads.pure c.received using 2
  simp only [received]
  split_ifs <;> simp_all

/-! ### One entry -/

/-- What `Compress` makes of a header that follows `last`, when the sender's list is `S`. -/
structure CompressedAgainst (S : List (BitVec 32)) (last h : CBlockHeader) (c : CompressibleBlockHeader) : Prop where
  header : c.toCBlockHeader = h
  /-- The version is compressed exactly when the list has it, to its position counted from one. -/
  offset : c.bitField.getVersionOffset.toNat = ((S.idxOf? h.nVersion).map (· + 1)).getD 0
  /-- The previous hash is never sent. -/
  prevBlockHash : c.bitField.isCompressed .prevBlockHash = true
  timestamp : c.bitField.isCompressed .timestamp = true ↔ (h.nTime - last.nTime).toNat ≤ 32767
  timeOffset : (h.nTime - last.nTime).toNat ≤ 32767 → c.timeOffset = BitVec.ofInt 16 ((h.nTime - last.nTime).toNat : ℤ)
  nBits : c.bitField.isCompressed .nBits = true ↔ h.nBits = last.nBits

lemma offset_and_mask : ∀ i < maxBackwardsLookUps,
    (BitVec.ofNat 8 (i + 1) &&& CompressedHeaderBitField.versionBitMask).toNat = i + 1 := by
  decide

lemma compressVersion_ofHeader (hS : S.length ≤ maxBackwardsLookUps) (h : CBlockHeader) :
    ∃ b : CompressedHeaderBitField, (ofHeader h).compressVersion S = ({ ofHeader h with bitField := b },
        recordVersion S h.nVersion) ∧
      b.getVersionOffset.toNat = ((S.idxOf? h.nVersion).map (· + 1)).getD 0 ∧
      ∀ f, b.isCompressed f = false := by
  have hv : (ofHeader h).nVersion = h.nVersion := rfl
  have hf : ∀ f, uncompressedBitField.isCompressed f = false := fun f => by cases f <;> decide
  unfold compressVersion recordVersion
  rw [hv]
  cases hi : S.idxOf? h.nVersion with
  | none => exact ⟨uncompressedBitField, rfl, by decide, hf⟩
  | some i =>
    obtain ⟨hlt, -, -⟩ := idxOf?_eq_some_iff.mp hi
    refine ⟨_, rfl, ?_, ?_⟩
    · rw [CompressedHeaderBitField.getVersionOffset_setVersionOffset, offset_and_mask i (hlt.trans_le hS)]
      rfl
    · intro f
      rw [CompressedHeaderBitField.isCompressed_setVersionOffset]
      exact hf f

lemma compress_ofHeader (hS : S.length ≤ maxBackwardsLookUps) {previousBlocks : List CompressibleBlockHeader}
    {last : CompressibleBlockHeader} (hlast : previousBlocks.getLast? = some last) (h : CBlockHeader) :
    CompressedAgainst S last.toCBlockHeader h ((ofHeader h).compress previousBlocks S).1 ∧
      ((ofHeader h).compress previousBlocks S).2 = recordVersion S h.nVersion := by
  obtain ⟨b, hb, hoff, hf⟩ := compressVersion_ofHeader hS h
  have ht : (((h.nTime - last.nTime).toNat : ℤ) ≤ 32767 ∧ ((h.nTime - last.nTime).toNat : ℤ) ≥ -32768) ↔
      (h.nTime - last.nTime).toNat ≤ 32767 := by omega
  unfold compress
  rw [hlast]
  simp only [hb, and_true]
  unfold compressBits compressTime
  simp only [ofHeader, ht]
  split_ifs with h1 h2 h2 <;> constructor <;> simp_all

lemma add_timeOffset {x y : BitVec 32} (h : (x - y).toNat ≤ 32767) :
    y + (BitVec.ofInt 16 ((x - y).toNat : ℤ)).signExtend 32 = x := by
  have hx : x = y + (x - y) := by rw [BitVec.add_comm, BitVec.sub_add_cancel]
  generalize x - y = d at h hx
  rw [hx, BitVec.ofInt_natCast]
  congr 1
  have hm : (BitVec.ofNat 16 d.toNat).msb = false := by
    rw [BitVec.msb_eq_false_iff_two_mul_lt, BitVec.toNat_ofNat]
    omega
  rw [BitVec.signExtend_eq_setWidth_of_msb_false hm]
  apply BitVec.eq_of_toNat_eq
  rw [BitVec.toNat_setWidth, BitVec.toNat_ofNat]
  omega

end CompressibleBlockHeader

/-- A header as it arrives when the sender's list is `S`: the Autolykos fields come through only under version
`0x05` sent in full. -/
def CBlockHeader.arrival (S : List (BitVec 32)) (h : CBlockHeader) : CBlockHeader :=
  if h.nVersion = autolykosVersion ∧ h.nVersion ∉ S then h else { h with nNewNonce := 0, aHeight := 0 }

namespace CompressibleBlockHeader

variable {c : CompressibleBlockHeader} {last h : CBlockHeader}

section

variable (hc : CompressedAgainst S last h c)

include hc

lemma CompressedAgainst.isVersionCompressed : c.bitField.isVersionCompressed = decide (h.nVersion ∈ S) := by
  have hoff := hc.offset
  unfold CompressedHeaderBitField.isVersionCompressed
  cases hi : S.idxOf? h.nVersion with
  | none =>
    have hn : h.nVersion ∉ S := idxOf?_eq_none_iff.mp hi
    rw [hi, map_none, getD_none] at hoff
    simp [hn, BitVec.toNat_inj.mp (hoff.trans BitVec.toNat_zero.symm)]
  | some i =>
    obtain ⟨hlt, heq, -⟩ := idxOf?_eq_some_iff.mp hi
    have hm : h.nVersion ∈ S := heq ▸ getElem_mem hlt
    rw [hi, map_some, getD_some] at hoff
    have hne : c.bitField.getVersionOffset ≠ 0#8 := by
      intro h0
      rw [h0] at hoff
      simp at hoff
    simp [hm, hne]

/-- The receiver recovers the version, and the lists stay in lockstep. -/
lemma CompressedAgainst.uncompressVersion_received (hSR : Lockstep S R) :
    (c.received.uncompressVersion R).1 = h.nVersion ∧
      Lockstep (recordVersion S h.nVersion) (c.received.uncompressVersion R).2 := by
  have hv : c.received.bitField.isVersionCompressed = decide (h.nVersion ∈ S) := hc.isVersionCompressed
  have hoff : c.received.bitField.getVersionOffset.toNat = _ := hc.offset
  unfold uncompressVersion recordVersion
  rw [hv]
  cases hi : S.idxOf? h.nVersion with
  | none =>
    have hn : h.nVersion ∉ S := idxOf?_eq_none_iff.mp hi
    have hver : c.received.nVersion = h.nVersion := by
      rw [received, hc.isVersionCompressed, ← hc.header]
      simp [hc.header, hn]
    simp only [hn, decide_false, Bool.false_eq_true, if_false, hver, true_and]
    exact hSR.save h.nVersion
  | some i =>
    obtain ⟨hlt, heq, -⟩ := idxOf?_eq_some_iff.mp hi
    have hm : h.nVersion ∈ S := heq ▸ getElem_mem hlt
    have hR : i < R.length := hlt.trans_le hSR.isPrefix.length_le
    rw [hi, map_some, getD_some] at hoff
    simp only [hm, decide_true, if_true, hoff, Nat.succ_le_of_lt hR, Nat.add_sub_cancel]
    refine ⟨?_, hSR.mark hlt⟩
    rw [getD_eq_getElem?_getD, getElem?_eq_getElem hR, getD_some, ← hSR.isPrefix.getElem hlt, heq]

/-- **One entry.** When the lists are in lockstep and the receiver holds the predecessor, uncompressing what was
received gives the header as it arrives, and the lists stay in lockstep. -/
lemma CompressedAgainst.uncompress_received {getHash : CBlockHeader → Uint256}
    (hSR : Lockstep S R) {headers : List CBlockHeader} (hlast : headers.getLast? = some last)
    (hprev : h.hashPrevBlock = getHash last) :
    (c.received.uncompress getHash headers R).1.toCBlockHeader = h.arrival S ∧
      Lockstep (recordVersion S h.nVersion) (c.received.uncompress getHash headers R).2 := by
  obtain ⟨hversion, hlists⟩ := hc.uncompressVersion_received hSR
  have htime : (if c.bitField.isCompressed .timestamp then last.nTime + c.received.timeOffset.signExtend 32
      else c.received.nTime) = h.nTime := by
    by_cases ht : (h.nTime - last.nTime).toNat ≤ 32767
    · simp only [received, hc.timestamp.mpr ht, if_true, Bool.not_true, Bool.false_eq_true, if_false, hc.timeOffset ht]
      exact add_timeOffset ht
    · have hf : c.bitField.isCompressed .timestamp = false :=
        Bool.eq_false_iff.mpr fun hf => ht (hc.timestamp.mp hf)
      simp only [received, hf, Bool.not_false, if_true, Bool.false_eq_true, if_false, hc.header]
  have hbits : (if c.bitField.isCompressed .nBits then last.nBits else c.received.nBits) = h.nBits := by
    by_cases hb : h.nBits = last.nBits
    · rw [if_pos (hc.nBits.mpr hb), hb]
    · have hf : c.bitField.isCompressed .nBits = false := Bool.eq_false_iff.mpr fun hf => hb (hc.nBits.mp hf)
      simp only [received, hf, Bool.not_false, if_true, Bool.false_eq_true, if_false, hc.header]
  have htail : c.received.nNewNonce = (h.arrival S).nNewNonce ∧ c.received.aHeight = (h.arrival S).aHeight := by
    have h0 : 0#32 ≠ CBlockHeader.autolykosVersion := by decide
    by_cases hm : h.nVersion ∈ S
    · simp [received, CBlockHeader.arrival, hc.isVersionCompressed, hm, h0]
    · simp only [received, CBlockHeader.arrival, hc.isVersionCompressed, hc.header, hm, decide_false, Bool.not_false,
        if_true, not_false_eq_true, and_true]
      split_ifs <;> exact ⟨rfl, rfl⟩
  have hrest : h.arrival S = { h with nNewNonce := (h.arrival S).nNewNonce, aHeight := (h.arrival S).aHeight } := by
    unfold CBlockHeader.arrival
    split_ifs <;> rfl
  unfold uncompress
  rw [hlast]
  refine ⟨?_, hlists⟩
  rw [hrest, ← htail.1, ← htail.2]
  simp only [hversion, CBlockHeader.mk.injEq, true_and, and_true]
  refine ⟨?_, (congrArg CBlockHeader.hashMerkleRoot hc.header :), htime, hbits,
    (congrArg CBlockHeader.nNonce hc.header :)⟩
  rw [if_pos (show c.received.bitField.isCompressed .prevBlockHash = true from hc.prevBlockHash), hprev]

end

lemma received_ofHeader (h : CBlockHeader) :
    (ofHeader h).received.toCBlockHeader = h.arrival [] ∧ (ofHeader h).leftover = [] := by
  have hb : uncompressedBitField.isVersionCompressed = false ∧ ∀ f, uncompressedBitField.isCompressed f = false := by
    constructor
    · decide
    · intro f
      cases f <;> decide
  constructor
  · simp only [received, ofHeader, hb, Bool.not_false, if_true, arrival, not_mem_nil, not_false_eq_true, and_true]
    split_ifs <;> rfl
  · simp only [leftover, ofHeader, hb, Bool.false_and, putIf, Bool.false_eq_true, if_false]

end CompressibleBlockHeader

end Blocx
