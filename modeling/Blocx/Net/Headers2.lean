import Blocx.Primitives.CompressedHeaders

/-!
# The `headers2` message

A peer answers `getheaders2` with compressed headers, and the `HEADERS2` handler of `net_processing.cpp` reads them
back one after another into fresh entries. Both sides fold over the headers: the sender keeps the entries it has
compressed and its version list, the receiver the headers it has rebuilt and its own list. `InStep` is the invariant
that ties the two folds together, `InStep.reads` and `InStep.of_run` carry it through a whole message.

The message is read back unless it *skips* a header: one of version `0x05` whose version is sent as a position in the
list. The Autolykos fields of such a header are written but not read, and twelve bytes are left in the stream.
-/

namespace Blocx

open List CompressibleBlockHeader Option

variable {getHash : CBlockHeader → Uint256} {hs : List CBlockHeader} {h : CBlockHeader} {S : List (BitVec 32)}

open Wire

open CompressibleBlockHeader

/-! ### Sender and receiver -/

/-- The entries for a list of headers, each compressed against the ones before it. -/
def compressAll : List CompressibleBlockHeader → List (BitVec 32) → List CBlockHeader → List CompressibleBlockHeader
  | _, _, [] => []
  | previousBlocks, lastUniqueVersions, h :: hs =>
    let p := (ofHeader h).compress previousBlocks lastUniqueVersions
    p.1 :: compressAll (previousBlocks ++ [p.1]) p.2 hs

/-- The entries of a message, as bytes. -/
def serializeAll (cs : List CompressibleBlockHeader) : List UInt8 := cs.flatMap serialize

/-- The bytes of the compressed headers of a message. -/
def writeHeaders2 (hs : List CBlockHeader) : List UInt8 := serializeAll (compressAll [] [] hs)

/-- The bytes of the compressed headers as the `GETHEADERS2` handler sends them: it does not call `Compress` on the
first header, so its list starts empty while the receiver's starts with the first version. -/
def sendHeaders2 : List CBlockHeader → List UInt8
  | [] => []
  | h :: hs => serializeAll (ofHeader h :: compressAll [ofHeader h] [] hs)

/-- The reader of the `HEADERS2` handler: one fresh entry per header, uncompressed against the headers before it. -/
def readHeaders2 (getHash : CBlockHeader → Uint256) :
    ℕ → List CBlockHeader → List (BitVec 32) → Reader (List CBlockHeader)
  | 0, headers, _ => pure headers
  | n + 1, headers, lastUniqueVersions => do
    let c ← unserialize
    let p := c.uncompress getHash headers lastUniqueVersions
    readHeaders2 getHash n (headers ++ [p.1.toCBlockHeader]) p.2

/-- Each header names the hash of its predecessor. -/
def Chained (getHash : CBlockHeader → Uint256) (hs : List CBlockHeader) : Prop :=
  hs.IsChain fun a b => b.hashPrevBlock = getHash a

/-- The sender's list after some headers. -/
def versionsAfter (lastUniqueVersions : List (BitVec 32)) (hs : List CBlockHeader) : List (BitVec 32) :=
  hs.foldl (fun vs h => recordVersion vs h.nVersion) lastUniqueVersions

/-- The header is of version `0x05` and that version is sent as a position in the list, so that its Autolykos
fields are written but not read. -/
def Skipped (S : List (BitVec 32)) (h : CBlockHeader) : Prop :=
  h.nVersion = CBlockHeader.autolykosVersion ∧ h.nVersion ∈ S

instance (S : List (BitVec 32)) (h : CBlockHeader) : Decidable (Skipped S h) := inferInstanceAs (Decidable (_ ∧ _))

def Recoverable : List (BitVec 32) → List CBlockHeader → Prop
  | _, [] => True
  | S, h :: hs => ¬Skipped S h ∧ Recoverable (recordVersion S h.nVersion) hs

/-- The message is read back: all of it is consumed and the headers are the original ones. -/
def RoundTrips (getHash : CBlockHeader → Uint256) (hs : List CBlockHeader) : Prop :=
  (readHeaders2 getHash hs.length [] []).run (writeHeaders2 hs) = some (hs, [])

lemma CBlockHeader.arrival_of_onWire (hw : h.OnWire) (hs : ¬Skipped S h) : h.arrival S = h := by
  unfold arrival
  by_cases h5 : h.nVersion = autolykosVersion
  · rw [if_pos ⟨h5, fun hm => hs ⟨h5, hm⟩⟩]
  · obtain ⟨hn, ha⟩ := hw h5
    rw [if_neg fun hc => h5 hc.1, ← hn, ← ha]

lemma Skipped.fields_eq_zero (hs : Skipped S h) (ha : h.arrival S = h) : h.nNewNonce = 0 ∧ h.aHeight = 0 := by
  rw [CBlockHeader.arrival, if_neg fun hc => hc.2 hs.2] at ha
  exact ⟨(congrArg CBlockHeader.nNewNonce ha).symm, (congrArg CBlockHeader.aHeight ha).symm⟩

/-- Sender and receiver after the same headers, the last of which is `last`. -/
structure InStep (previousBlocks : List CompressibleBlockHeader) (S : List (BitVec 32)) (headers : List CBlockHeader)
    (R : List (BitVec 32)) (last : CBlockHeader) : Prop where
  /-- The sender compresses against the last header. -/
  sender : ∃ c, previousBlocks.getLast? = some c ∧ c.toCBlockHeader = last
  /-- The receiver uncompresses against the last header. -/
  receiver : headers.getLast? = some last
  lists : Lockstep S R

section Run

variable {previousBlocks : List CompressibleBlockHeader} {S R : List (BitVec 32)} {headers result : List CBlockHeader}
  {last h : CBlockHeader} {input rest : List UInt8} {c : CompressibleBlockHeader} {n : ℕ}

lemma serializeAll_compressAll_cons {S' : List (BitVec 32)} (hc : (ofHeader h).compress previousBlocks S = (c, S')) :
    serializeAll (compressAll previousBlocks S (h :: hs)) =
      c.serialize ++ serializeAll (compressAll (previousBlocks ++ [c]) S' hs) := by
  rw [compressAll, hc, serializeAll, flatMap_cons]
  rfl

lemma prefix_of_readHeaders2 (h : (readHeaders2 getHash n headers R).run input = some (result, rest)) :
    headers <+: result := by
  induction n generalizing headers R input with
  | zero =>
    obtain ⟨rfl, rfl⟩ := Prod.mk.inj (some.inj h)
    exact prefix_refl _
  | succ n ih =>
    obtain ⟨c, mid, -, hrest⟩ := Reader.run_bind_eq_some h
    exact (prefix_append _ _).trans (ih hrest)

section

variable (hi : InStep previousBlocks S headers R last)

include hi

/-- One entry of the message: what is written, what of it is read, and what the reader goes on with. -/
lemma InStep.entry (hprev : h.hashPrevBlock = getHash last) :
    ∃ c : CompressibleBlockHeader, (ofHeader h).compress previousBlocks S = (c, recordVersion S h.nVersion) ∧
      c.serialize = c.readable ++ putIf (Skipped S h) h.autolykosFields ∧
      ∃ R', (c.received.uncompress getHash headers R).2 = R' ∧
        (c.received.uncompress getHash headers R).1.toCBlockHeader = h.arrival S ∧
        (h.arrival S = h → InStep (previousBlocks ++ [c]) (recordVersion S h.nVersion) (headers ++ [h]) R' h) := by
  obtain ⟨p, hp, rfl⟩ := hi.sender
  have hS : S.length ≤ maxBackwardsLookUps := hi.lists.isPrefix.length_le.trans hi.lists.bound
  obtain ⟨hc, hvs⟩ := compress_ofHeader hS hp h
  obtain ⟨harr, hlists⟩ := hc.uncompress_received hi.lists hi.receiver hprev
  refine ⟨_, Prod.ext rfl hvs, ?_, _, rfl, harr, ?_⟩
  · rw [serialize_eq, leftover, hc.isVersionCompressed, hc.header]
    congr 2
    rw [Bool.and_comm]
    exact (Bool.decide_and _ _).symm
  · intro _
    exact ⟨⟨_, getLast?_concat, hc.header⟩, getLast?_concat, hlists⟩

variable (hchain : Chained getHash (last :: hs))

include hchain

/-- Headers that are on the wire and not skipped are read back, from any state in step. -/
lemma InStep.reads (hw : ∀ h ∈ hs, h.OnWire) (hr : Recoverable S hs) :
    Reads (readHeaders2 getHash hs.length headers R) (serializeAll (compressAll previousBlocks S hs))
      (headers ++ hs) := by
  induction hs generalizing previousBlocks S headers R last with
  | nil =>
    rw [append_nil]
    exact Reads.pure headers
  | cons h hs ih =>
    obtain ⟨hprev, hchain⟩ := isChain_cons_cons.mp hchain
    obtain ⟨hskip, hr⟩ := hr
    have harr : h.arrival S = h := CBlockHeader.arrival_of_onWire (hw h mem_cons_self) hskip
    obtain ⟨c, hc, hser, R', hR', hget, hnext⟩ := hi.entry hprev
    have hrest := ih (hnext harr) hchain (fun g hg => hw g (mem_cons_of_mem h hg)) hr
    rw [serializeAll_compressAll_cons hc, hser]
    simp only [hskip, decide_false, putIf, Bool.false_eq_true, if_false, append_nil]
    refine c.reads_readable.bind ?_
    simp only [hR', hget, harr]
    rwa [append_cons headers h hs]

/-- A list that is read back has no skipped header, or the first skipped one carries two zeros and is not the
last. -/
lemma InStep.of_run
    (hrun : (readHeaders2 getHash hs.length headers R).run (serializeAll (compressAll previousBlocks S hs)) =
      some (headers ++ hs, [])) :
    Recoverable S hs ∨ ∃ before h after, hs = before ++ h :: after ∧ Recoverable S before ∧
      Skipped (versionsAfter S before) h ∧ h.nNewNonce = 0 ∧ h.aHeight = 0 ∧ after ≠ [] := by
  induction hs generalizing previousBlocks S headers R last with
  | nil => exact Or.inl trivial
  | cons h hs ih =>
    obtain ⟨hprev, hchain⟩ := isChain_cons_cons.mp hchain
    obtain ⟨c, hc, hser, R', hR', hget, hnext⟩ := hi.entry hprev
    rw [serializeAll_compressAll_cons hc, hser, append_assoc, length_cons, readHeaders2,
      Reader.run_bind, c.reads_readable, bind_some] at hrun
    simp only [hR', hget] at hrun
    -- the header the reader built is the one at this place of the result
    have harr : h.arrival S = h := by
      obtain ⟨tail, htail⟩ := prefix_of_readHeaders2 hrun
      rw [append_assoc, append_cancel_left_eq] at htail
      exact (cons.inj htail).1
    rw [harr] at hrun
    by_cases hskip : Skipped S h
    · right
      obtain ⟨hn, ha⟩ := hskip.fields_eq_zero harr
      refine ⟨[], h, hs, rfl, trivial, hskip, hn, ha, ?_⟩
      rintro rfl
      have hlen := congrArg length (Prod.mk.inj (some.inj hrun)).2
      simp [hskip, putIf, CBlockHeader.autolykosFields] at hlen
    · simp only [hskip, decide_false, putIf, Bool.false_eq_true, if_false, nil_append] at hrun
      rw [append_cons headers h hs] at hrun
      rcases ih (hnext harr) hchain hrun with hrec | ⟨before, g, after, rfl, hbefore, hg⟩
      · exact Or.inl ⟨hskip, hrec⟩
      · exact Or.inr ⟨h :: before, g, after, rfl, ⟨hskip, hbefore⟩, hg⟩

end

/-- Whatever is read, the Autolykos fields of an entry are zero unless it states version `0x05` itself. -/
lemma fields_of_unserialize (h : unserialize.run input = some (c, rest)) :
    (c.bitField.isVersionCompressed = true → c.nVersion = 0) ∧ c.OnWire := by
  obtain ⟨bitField, _, -, h⟩ := Reader.run_bind_eq_some h
  obtain ⟨nVersion, _, hversion, h⟩ := Reader.run_bind_eq_some h
  obtain ⟨_, _, -, h⟩ := Reader.run_bind_eq_some h
  obtain ⟨_, _, -, h⟩ := Reader.run_bind_eq_some h
  obtain ⟨_, _, -, h⟩ := Reader.run_bind_eq_some h
  obtain ⟨_, _, -, h⟩ := Reader.run_bind_eq_some h
  obtain ⟨_, _, -, h⟩ := Reader.run_bind_eq_some h
  obtain ⟨tail, _, htail, h⟩ := Reader.run_bind_eq_some h
  obtain ⟨rfl, -⟩ := Prod.mk.inj (some.inj h)
  constructor
  · intro hc
    rw [hc] at hversion
    exact Reader.run_getIf_false hversion
  · intro h5
    rw [decide_eq_false h5] at htail
    obtain rfl := Reader.run_getIf_false htail
    exact ⟨rfl, rfl⟩

lemma onWire_uncompress (h : unserialize.run input = some (c, rest)) :
    (c.uncompress getHash headers R).1.toCBlockHeader.OnWire := by
  obtain ⟨hzero, hw⟩ := fields_of_unserialize h
  unfold uncompress
  cases headers.getLast? with
  | none => exact hw
  | some last =>
    intro h5
    apply hw
    unfold uncompressVersion at h5
    by_cases hc : c.bitField.isVersionCompressed
    · rw [hzero hc]
      decide
    · rw [if_neg hc] at h5
      exact h5

lemma onWire_of_readHeaders2 (hw : ∀ h ∈ headers, h.OnWire)
    (h : (readHeaders2 getHash n headers R).run input = some (result, rest)) : ∀ h ∈ result, h.OnWire := by
  induction n generalizing headers R input with
  | zero =>
    obtain ⟨rfl, rfl⟩ := Prod.mk.inj (some.inj h)
    exact hw
  | succ n ih =>
    obtain ⟨c, mid, hc, hrest⟩ := Reader.run_bind_eq_some h
    refine ih ?_ hrest
    intro g hg
    rcases mem_append.mp hg with hg | hg
    · exact hw g hg
    · rw [mem_singleton.mp hg]
      exact onWire_uncompress hc

/-- What the reader does with the first entry. -/
lemma run_first :
    (readHeaders2 getHash (h :: hs).length [] []).run (serializeAll (ofHeader h :: compressAll [ofHeader h] S hs)) =
      (readHeaders2 getHash hs.length [h.arrival []] [h.nVersion]).run
        (serializeAll (compressAll [ofHeader h] S hs)) := by
  obtain ⟨hheader, hleft⟩ := received_ofHeader h
  have hversion : (ofHeader h).received.nVersion = h.nVersion := by
    rw [hheader, CBlockHeader.arrival]
    split_ifs <;> rfl
  have hfirst : (ofHeader h).received.uncompress getHash [] [] = ((ofHeader h).received, [h.nVersion]) := by
    rw [← hversion]
    rfl
  rw [serializeAll, flatMap_cons, serialize_eq, hleft, append_nil,
    length_cons, readHeaders2, Reader.run_bind, (ofHeader h).reads_readable, bind_some]
  simp only [hfirst, hheader, nil_append]
  rfl

variable (hS : S <+: [h.nVersion])

include hS

lemma inStep_first : InStep [ofHeader h] S [h] [h.nVersion] h :=
  ⟨⟨ofHeader h, rfl, rfl⟩, rfl, hS, Nat.le_of_ble_eq_true rfl⟩

/-- Headers that are on the wire and not skipped are read back, whichever of the two lists the sender starts with. -/
lemma run_of_recoverable (hchain : Chained getHash (h :: hs)) (hw : ∀ g ∈ h :: hs, g.OnWire) (hr : Recoverable S hs) :
    (readHeaders2 getHash (h :: hs).length [] []).run
      (serializeAll (ofHeader h :: compressAll [ofHeader h] S hs)) = some (h :: hs, []) := by
  have harr : h.arrival [] = h := CBlockHeader.arrival_of_onWire (hw h mem_cons_self) fun hc => by cases hc.2
  have hrest := (inStep_first hS).reads hchain (fun g hg => hw g (mem_cons_of_mem h hg)) hr
  rw [run_first, harr, hrest.run_eq]
  rfl

/-- Headers that are read back are on the wire, and none is skipped unless the first skipped one carries two zeros. -/
lemma recoverable_of_run (hchain : Chained getHash (h :: hs))
    (hrun : (readHeaders2 getHash (h :: hs).length [] []).run
      (serializeAll (ofHeader h :: compressAll [ofHeader h] S hs)) = some (h :: hs, [])) :
    (∀ g ∈ h :: hs, g.OnWire) ∧ (Recoverable S hs ∨ ∃ before g after, hs = before ++ g :: after ∧
      Recoverable S before ∧ Skipped (versionsAfter S before) g ∧ g.nNewNonce = 0 ∧ g.aHeight = 0 ∧ after ≠ []) := by
  refine ⟨onWire_of_readHeaders2 (fun g hg => by cases hg) hrun, ?_⟩
  rw [run_first] at hrun
  have harr : h.arrival [] = h := by
    obtain ⟨tail, htail⟩ := prefix_of_readHeaders2 hrun
    exact (cons.inj htail).1
  rw [harr] at hrun
  exact (inStep_first hS).of_run hchain hrun

end Run

/-! ### The message as a whole -/

lemma recoverable_nil_cons (h : CBlockHeader) (hs : List CBlockHeader) :
    Recoverable [] (h :: hs) ↔ Recoverable [h.nVersion] hs := by
  refine ⟨fun hr => hr.2, fun hr => ⟨fun hc => ?_, hr⟩⟩
  cases hc.2

/-- The first skipped header of a list, if it carries two zeros and is not the last. Its twelve unread bytes are
zeros, and a reader that takes them for the start of the next entry may come back into step. -/
def HarmlessSkip (hs : List CBlockHeader) : Prop :=
  ∃ before h after, hs = before ++ h :: after ∧ Recoverable [] before ∧ Skipped (versionsAfter [] before) h ∧
    h.nNewNonce = 0 ∧ h.aHeight = 0 ∧ after ≠ []

lemma roundTrips_of_recoverable (hne : hs ≠ [])
    (hchain : Chained getHash hs) (hw : ∀ h ∈ hs, h.OnWire) (hr : Recoverable [] hs) : RoundTrips getHash hs := by
  obtain ⟨h, hs, rfl⟩ := exists_cons_of_ne_nil hne
  exact run_of_recoverable (prefix_refl _) hchain hw ((recoverable_nil_cons h hs).mp hr)

lemma recoverable_of_roundTrips (hne : hs ≠ []) (hchain : Chained getHash hs) (hrt : RoundTrips getHash hs) :
    (∀ h ∈ hs, h.OnWire) ∧ (Recoverable [] hs ∨ HarmlessSkip hs) := by
  obtain ⟨h, hs, rfl⟩ := exists_cons_of_ne_nil hne
  obtain ⟨hw, hr⟩ := recoverable_of_run (prefix_refl _) hchain hrt
  refine ⟨hw, ?_⟩
  rcases hr with hr | ⟨before, g, after, rfl, hb, hg⟩
  · exact Or.inl ((recoverable_nil_cons h hs).mpr hr)
  · exact Or.inr ⟨h :: before, g, after, rfl, (recoverable_nil_cons h before).mpr hb, hg⟩

/-- **The compressed message.** For every non-empty chain of headers: if the headers are as the network sees them and
no version `0x05` is compressed, the message is consumed exactly and gives the headers back; and it does so only
then, but for a skipped header whose two Autolykos fields are zero. -/
theorem headers2_roundTrips (getHash : CBlockHeader → Uint256) (hs : List CBlockHeader) (hne : hs ≠ [])
    (hchain : Chained getHash hs) :
    ((∀ h ∈ hs, h.OnWire) ∧ Recoverable [] hs → RoundTrips getHash hs) ∧
      (RoundTrips getHash hs → (∀ h ∈ hs, h.OnWire) ∧ (Recoverable [] hs ∨ HarmlessSkip hs)) :=
  ⟨fun h => roundTrips_of_recoverable hne hchain h.1 h.2, recoverable_of_roundTrips hne hchain⟩

/-- A header of version 4 followed by one of version `0x05`. -/
theorem headers2_roundTrips_at_switch :
    RoundTrips (fun _ => 0) [{ nVersion := 4 }, { nVersion := 5, nNewNonce := 9, aHeight := 2 }] := by
  refine (headers2_roundTrips (fun _ => 0) _ (cons_ne_nil _ _) ?_).1 ⟨?_, ?_⟩
  · exact isChain_cons_cons.mpr ⟨rfl, List.IsChain.singleton _⟩
  · decide
  · exact ⟨by decide, by decide, trivial⟩

/-- Two headers of version `0x05` in a row, the second of which is skipped. -/
def autolykosPair (getHash : CBlockHeader → Uint256) : List CBlockHeader :=
  let first : CBlockHeader := { nVersion := 5, aHeight := 1 }
  [first, { nVersion := 5, hashPrevBlock := getHash first, aHeight := 2 }]

lemma autolykosPair_chained : Chained getHash (autolykosPair getHash) :=
  isChain_cons_cons.mpr ⟨rfl, List.IsChain.singleton _⟩

/-- Two chained headers of version `0x05` are never read back, whatever the hash function is. -/
theorem autolykosPair_not_roundTrips : ∃ family : (CBlockHeader → Uint256) → List CBlockHeader,
    ∀ getHash, family getHash ≠ [] ∧ Chained getHash (family getHash) ∧ (∀ h ∈ family getHash, h.OnWire) ∧
      ¬RoundTrips getHash (family getHash) := by
  refine ⟨autolykosPair, fun getHash => ⟨cons_ne_nil _ _, autolykosPair_chained, ?_, ?_⟩⟩
  · intro h hh h5
    rcases mem_pair.mp hh with rfl | rfl <;> exact absurd rfl h5
  · intro hrt
    obtain ⟨-, hr | ⟨before, h, after, heq, -, -, -, ha, -⟩⟩ :=
      recoverable_of_roundTrips (cons_ne_nil _ _) autolykosPair_chained hrt
    · exact hr.2.1 ⟨rfl, mem_singleton.mpr rfl⟩
    · have hmem : h ∈ before ++ h :: after := mem_append_right _ mem_cons_self
      rw [← heq] at hmem
      rcases mem_pair.mp hmem with rfl | rfl
      · exact absurd ha (show ¬(1 : BitVec 32) = 0 by decide)
      · exact absurd ha (show ¬(2 : BitVec 32) = 0 by decide)

/-- The message as the `GETHEADERS2` handler sends it. Its list lags behind the receiver's by the first version, which
does no harm: the receiver's list starts with the sender's all along. -/
theorem sendHeaders2_read (hchain : Chained getHash (h :: hs)) (hw : ∀ g ∈ h :: hs, g.OnWire) (hr : Recoverable [] hs) :
    (readHeaders2 getHash (h :: hs).length [] []).run (sendHeaders2 (h :: hs)) = some (h :: hs, []) :=
  run_of_recoverable nil_prefix hchain hw hr

theorem sendHeaders2_read_at_switch :
    let hs : List CBlockHeader := [{ nVersion := 4 }, { nVersion := 5, aHeight := 2 }]
    (readHeaders2 (fun _ => 0) 2 [] []).run (sendHeaders2 hs) = some (hs, []) :=
  sendHeaders2_read (isChain_cons_cons.mpr ⟨rfl, .singleton _⟩) (by decide) ⟨by decide, trivial⟩

end Blocx
