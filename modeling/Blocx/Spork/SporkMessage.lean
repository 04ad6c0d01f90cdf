import Mathlib

/-!
# Signed spork messages

What a spork signature covers outside the test network (`spork.cpp`): the decimal renderings of the id, the value and
the time, one after the other. Nothing separates them. So two messages can share the signed text, when digits move from
one field to the next, and a signature of the one is then valid for the other. The text determines the fields as soon as
it is known how many characters the id and the value take. On the test network the fixed-width fields are hashed
instead.
-/

namespace Blocx

structure CSporkMessage where
  nSporkID : BitVec 32
  nValue : BitVec 64
  nTimeSigned : BitVec 64
  vchSig : List UInt8
  deriving DecidableEq

namespace CSporkMessage

/-- `strMessage` in `Sign`, `CheckSignature` and `GetSignerKeyID`. -/
def strMessage (m : CSporkMessage) : String :=
  toString m.nSporkID.toInt ++ toString m.nValue.toInt ++ toString m.nTimeSigned.toInt

/-- `CheckSignature`, with `CMessageSigner::VerifyMessage` for a key. -/
def checkSignature (verifyMessage : List UInt8 → String → Bool) (m : CSporkMessage) : Bool :=
  verifyMessage m.vchSig m.strMessage

/-- Two messages say the same. -/
abbrev SameContent (a b : CSporkMessage) : Prop :=
  a.nSporkID = b.nSporkID ∧ a.nValue = b.nValue ∧ a.nTimeSigned = b.nTimeSigned

/-- Their ids take the same number of characters, and their values. -/
def SameLengths (a b : CSporkMessage) : Prop :=
  (toString a.nSporkID.toInt).length = (toString b.nSporkID.toInt).length ∧
    (toString a.nValue.toInt).length = (toString b.nValue.toInt).length

lemma toString_toInt_inj {w : ℕ} {x y : BitVec w} (h : (toString x.toInt).toList = (toString y.toInt).toList) : x = y :=
  BitVec.eq_of_toInt_eq (Int.repr_inj.mp (String.toList_injective h))

/-- A signed text stands for one content exactly when wherever it is the text of two messages, their ids and values take
the same number of characters. -/
theorem strMessage_inj_iff (a b : CSporkMessage) :
    (a.strMessage = b.strMessage → SameContent a b) ↔ (a.strMessage = b.strMessage → SameLengths a b) := by
  refine imp_congr_right fun htext => ⟨fun ⟨hid, hvalue, _⟩ => ⟨by rw [hid], by rw [hvalue]⟩, fun ⟨hid, hvalue⟩ => ?_⟩
  have hlist := congrArg String.toList htext
  simp only [strMessage, String.toList_append, List.append_assoc] at hlist
  obtain ⟨hids, hrest⟩ := List.append_inj hlist hid
  obtain ⟨hvalues, htimes⟩ := List.append_inj hrest hvalue
  exact ⟨toString_toInt_inj hids, toString_toInt_inj hvalues, toString_toInt_inj htimes⟩

/-- The message that switches off spork 10016, and one with another value and time, have the same text. -/
theorem strMessage_shared :
    let off : CSporkMessage := ⟨10016, 4070908800, 1700000000, [1]⟩
    let other : CSporkMessage := ⟨10016, 40709088001, 700000000, [1]⟩
    off.strMessage = "1001640709088001700000000" ∧ other.strMessage = off.strMessage ∧ ¬SameContent off other ∧
      off.checkSignature (fun _ text => text = "1001640709088001700000000") ∧
      other.checkSignature (fun _ text => text = "1001640709088001700000000") := by
  decide

end CSporkMessage

end Blocx
