import Blocx.Consensus.Params

/-!
# Recovered signatures and votes

`CRecoveredSigsDb` (`llmq/signing.cpp`), the store of the signing manager. It holds the signatures that quorums have
recovered, one for each request, and the votes of this node, one message for each request. A request is an id for a type
of quorum. The keys by time, which only the cleanup reads, and the caches in front of the store are left out, and so are
the keys by sign hash.
-/

namespace Blocx

open Function

open Consensus

variable {Sig : Type}

structure CRecoveredSig (Sig : Type) where
  llmqType : LLMQType
  quorumHash : Uint256
  id : Uint256
  msgHash : Uint256
  /-- The signature, `none` when its bytes do not decode. -/
  sig : Option Sig
  deriving DecidableEq

structure CRecoveredSigsDb (Sig : Type) where
  /-- The signature of a request, `rs_r`. -/
  recSigs : LLMQType × Uint256 → Option (CRecoveredSig Sig) := fun _ => none
  /-- The requests with their messages, `rs_r` with the message. -/
  recSigMsgs : LLMQType × Uint256 × Uint256 → Bool := fun _ => false
  /-- The hashes of signatures, `rs_h`. -/
  recSigHashes : Uint256 → Bool := fun _ => false
  /-- The votes, `rs_v`. -/
  votes : LLMQType × Uint256 → Option Uint256 := fun _ => none

namespace CRecoveredSigsDb

def hasRecoveredSig (db : CRecoveredSigsDb Sig) (llmqType : LLMQType) (id msgHash : Uint256) : Bool :=
  db.recSigMsgs (llmqType, id, msgHash)

def hasRecoveredSigForId (db : CRecoveredSigsDb Sig) (llmqType : LLMQType) (id : Uint256) : Bool :=
  (db.recSigs (llmqType, id)).isSome

def hasRecoveredSigForHash (db : CRecoveredSigsDb Sig) (hash : Uint256) : Bool := db.recSigHashes hash

def getRecoveredSigById (db : CRecoveredSigsDb Sig) (llmqType : LLMQType) (id : Uint256) : Option (CRecoveredSig Sig) :=
  db.recSigs (llmqType, id)

def writeRecoveredSig (db : CRecoveredSigsDb Sig) (recSig : CRecoveredSig Sig) (hash : Uint256) :
    CRecoveredSigsDb Sig :=
  { db with
    recSigs := update db.recSigs (recSig.llmqType, recSig.id) (some recSig)
    recSigMsgs := update db.recSigMsgs (recSig.llmqType, recSig.id, recSig.msgHash) true
    recSigHashes := update db.recSigHashes hash true }

def truncateRecoveredSig (db : CRecoveredSigsDb Sig) (llmqType : LLMQType) (id : Uint256) : CRecoveredSigsDb Sig :=
  match db.getRecoveredSigById llmqType id with
  | none => db
  | some recSig => { db with
      recSigs := update db.recSigs (recSig.llmqType, recSig.id) none
      recSigMsgs := update db.recSigMsgs (recSig.llmqType, recSig.id, recSig.msgHash) false }

def hasVotedOnId (db : CRecoveredSigsDb Sig) (llmqType : LLMQType) (id : Uint256) : Bool :=
  (db.votes (llmqType, id)).isSome

def getVoteForId (db : CRecoveredSigsDb Sig) (llmqType : LLMQType) (id : Uint256) : Option Uint256 :=
  db.votes (llmqType, id)

def writeVoteForId (db : CRecoveredSigsDb Sig) (llmqType : LLMQType) (id msgHash : Uint256) : CRecoveredSigsDb Sig :=
  { db with votes := update db.votes (llmqType, id) (some msgHash) }

end CRecoveredSigsDb

end Blocx
