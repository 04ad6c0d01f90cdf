import Blocx.Consensus.Params
import Blocx.Lib.Overlay
import Blocx.Lib.Runs

/-!
# Signing sessions with a peer

`CSigSharesNodeState` (`llmq/signing_shares.cpp`) holds the sessions with a peer by sign hash, and pointers to them by
the ids that the peer announces. A pointer is the sign hash here and the address of the session, which no session that
is created under the sign hash later gets. A peer may announce an id again for another session, and other ids for a
session. A removal takes only the pointer under the last id of a session away, but so does an announcement, which leaves
no other pointer to its session.
-/

namespace Blocx

open Function

/-- `CSigBase`: what is signed. -/
structure CSigBase where
  llmqType : Consensus.LLMQType
  quorumHash : Uint256
  id : Uint256
  msgHash : Uint256

structure CSigSesAnn extends CSigBase where
  sessionId : BitVec 32

def uninitializedSessionId : BitVec 32 := BitVec.allOnes 32

/-- `CSigSharesNodeState::Session`, without the fields that `InitSession` fills. -/
structure SigSession where
  address : ℕ
  recvSessionId : BitVec 32 := uninitializedSessionId

/-- `CSigSharesNodeState`, without the shares. -/
structure CSigSharesNodeState where
  sessions : Uint256 → Option SigSession := fun _ => none
  sessionByRecvId : BitVec 32 → Option (Uint256 × ℕ) := fun _ => none
  /-- The address of the next session. -/
  next : ℕ := 0

namespace CSigSharesNodeState

variable (buildSignHash : CSigBase → Uint256) (s : CSigSharesNodeState)

/-- `sessions[signHash]`: the session, which is created if there is none. -/
def session (signHash : Uint256) : SigSession := (s.sessions signHash).getD { address := s.next }

def getOrCreateSession (signHash : Uint256) : CSigSharesNodeState :=
  { s with sessions := update s.sessions signHash (some (s.session signHash)), next := s.next + 1 }

/-- `ProcessMessageSigSesAnn`, where the type may have parameters, and the quorum may be found. -/
def processMessageSigSesAnn (hasParams hasQuorum : Bool) (ann : CSigSesAnn) : Bool × CSigSharesNodeState :=
  if !hasParams then (false, s)
  else if ann.sessionId = uninitializedSessionId ∨ ann.quorumHash = 0 ∨ ann.id = 0 ∨ ann.msgHash = 0 then (false, s)
  else if !hasQuorum then (true, s)
  else
    let signHash := buildSignHash ann.toCSigBase
    let session := s.session signHash
    (true,
      { s.getOrCreateSession signHash with
        sessions := update s.sessions signHash (some { session with recvSessionId := ann.sessionId })
        sessionByRecvId := update (update s.sessionByRecvId session.recvSessionId none) ann.sessionId
          (some (signHash, session.address)) })

def removeSession (signHash : Uint256) : CSigSharesNodeState :=
  match s.sessions signHash with
  | none => s
  | some session =>
    { s with
      sessions := update s.sessions signHash none
      sessionByRecvId := update s.sessionByRecvId session.recvSessionId none }

/-- A call. -/
inductive Call where
  | announce (hasParams hasQuorum : Bool) (ann : CSigSesAnn)
  | share (signHash : Uint256)
  | remove (signHash : Uint256)

/-- The state after a call. -/
def step : Call → CSigSharesNodeState
  | .announce hasParams hasQuorum ann => (s.processMessageSigSesAnn buildSignHash hasParams hasQuorum ann).2
  | .share signHash => s.getOrCreateSession signHash
  | .remove signHash => s.removeSession signHash

/-- Every pointer is that of a session in the map which has its id. -/
def PointersOk : Prop :=
  ∀ id signHash address, s.sessionByRecvId id = some (signHash, address) →
    s.sessions signHash = some { address, recvSessionId := id }

variable {buildSignHash s}

lemma PointersOk.step (h : s.PointersOk) (call : Call) : (s.step buildSignHash call).PointersOk := by
  cases call with
  | announce hasParams hasQuorum ann =>
    show (s.processMessageSigSesAnn _ _ _ ann).2.PointersOk
    unfold processMessageSigSesAnn
    split_ifs
    · exact h
    · exact h
    · exact h
    · intro id signHash address hid
      dsimp only at hid ⊢
      by_cases heq : id = ann.sessionId
      · rw [heq, update_self] at hid
        obtain ⟨rfl, rfl⟩ := Prod.mk.inj (Option.some.inj hid)
        rw [update_self, heq]
      · rw [update_of_ne heq, update_none_eq_some_iff] at hid
        obtain ⟨hlast, hid⟩ := hid
        have hsession := h id signHash address hid
        refine (update_of_ne ?_ ..).trans hsession
        rintro rfl
        exact hlast (by rw [session, hsession, Option.getD_some])
  | share signHash' =>
    intro id signHash address hid
    have hsession := h id signHash address hid
    by_cases heq : signHash = signHash'
    · subst heq
      refine (update_self ..).trans ?_
      rw [session, hsession, Option.getD_some]
    · exact (update_of_ne heq ..).trans hsession
  | remove signHash' =>
    show (s.removeSession signHash').PointersOk
    unfold removeSession
    cases hremoved : s.sessions signHash' with
    | none => exact h
    | some removed =>
      intro id signHash address hid
      obtain ⟨hlast, hid⟩ := update_none_eq_some_iff.mp hid
      have hsession := h id signHash address hid
      refine (update_of_ne ?_ ..).trans hsession
      rintro rfl
      cases hremoved.symm.trans hsession
      exact hlast rfl

/-- No pointer dangles, whatever the peer announces and whatever is removed. -/
theorem pointers_never_dangle (buildSignHash : CSigBase → Uint256) (calls : List Call) :
    (calls.foldl (step buildSignHash) {}).PointersOk :=
  Along.inv (P := fun _ _ => True) (fun _ call h _ => h.step call) nofun
    (along_of_forall fun _ _ => trivial)

end CSigSharesNodeState

end Blocx
