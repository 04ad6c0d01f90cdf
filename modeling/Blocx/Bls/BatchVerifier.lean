import Blocx.Lib.VectorMap
import Blocx.Primitives.Uint256
import Mathlib.Data.Finset.Insert

/-!
# The batch verifier

`CBLSBatchVerifier` (`bls/bls_batchverifier.h`). Messages with their signatures are pushed by sources, and verified
together: all of them by one aggregate signature, and if that fails those of each source, and if that fails one by one.
With a sub-batch size this happens whenever that many messages have come together.

The signature scheme is a parameter. A signature that is pushed is valid in the sense that it decodes, as the code
asserts; an aggregate that has not been started is `none`. An iterator into the map of messages stands for the message,
since messages are never changed.
-/

namespace Blocx

/-- The operations of the signature scheme on decoded signatures and keys (`bls/bls.cpp`). -/
structure BlsScheme (Sig PubKey : Type) where
  aggregateSig : Sig → Sig → Sig
  aggregatePubKey : PubKey → PubKey → PubKey
  verifyInsecure : Sig → PubKey → Uint256 → Bool
  verifyInsecureAggregated : Sig → List PubKey → List Uint256 → Bool

structure Message (MessageId Sig PubKey : Type) where
  msgId : MessageId
  msgHash : Uint256
  sig : Sig
  pubKey : PubKey
  deriving DecidableEq

structure CBLSBatchVerifier (SourceId MessageId Sig PubKey : Type) where
  /-- Aggregate only one message for each hash. -/
  secureVerification : Bool
  /-- Find out which messages are bad. -/
  perMessageFallback : Bool
  /-- Number of messages that are verified together, 0 for any. -/
  subBatchSize : ℕ := 0
  /-- The messages, in the order of their ids. -/
  messages : List (Message MessageId Sig PubKey) := []
  messagesBySource : List (SourceId × List (Message MessageId Sig PubKey)) := []
  badSources : Finset SourceId := ∅
  badMessages : Finset MessageId := ∅

variable {SourceId MessageId Sig PubKey : Type} [DecidableEq MessageId]

def byMessageHash (msgs : List (Message MessageId Sig PubKey)) : List (Uint256 × List (Message MessageId Sig PubKey)) :=
  grouped (msgs.map fun msg => (msg.msgHash, msg))

/-- Start an aggregate, or add to it. -/
def aggregateWith {A : Type} (aggregate : A → A → A) (agg : Option A) (a : A) : Option A :=
  match agg with
  | none => some a
  | some b => some (aggregate b a)

variable (scheme : BlsScheme Sig PubKey)

/-- `VerifyInsecureAggregated`, which fails for an aggregate that was not started. -/
def verifyAggregated (aggSig : Option Sig) (pubKeys : List PubKey) (msgHashes : List Uint256) : Bool :=
  aggSig.any fun sig => scheme.verifyInsecureAggregated sig pubKeys msgHashes

/-! ### Insecure batches -/

/-- What `VerifyBatchInsecure` has aggregated. -/
structure BatchAggregate (MessageId Sig PubKey : Type) where
  aggSig : Option Sig := none
  /-- The messages that are part of it. -/
  dups : Finset MessageId := ∅
  /-- The key for one message hash. -/
  aggPubKey : Option PubKey := none

/-- Add a message, unless it is there already. -/
def aggregateMessage (agg : BatchAggregate MessageId Sig PubKey) (msg : Message MessageId Sig PubKey) :
    BatchAggregate MessageId Sig PubKey :=
  if msg.msgId ∈ agg.dups then agg
  else {
    aggSig := aggregateWith scheme.aggregateSig agg.aggSig msg.sig
    dups := insert msg.msgId agg.dups
    aggPubKey := aggregateWith scheme.aggregatePubKey agg.aggPubKey msg.pubKey }

/-- The loop of `VerifyBatchInsecure` over the message hashes: the signature, and a key for each hash that has more than
duplicates. -/
def aggregateHashes (agg : BatchAggregate MessageId Sig PubKey) :
    List (Uint256 × List (Message MessageId Sig PubKey)) → Option Sig × List PubKey × List Uint256
  | [] => (agg.aggSig, [], [])
  | (msgHash, msgs) :: hashes =>
    let agg := msgs.foldl (aggregateMessage scheme) { agg with aggPubKey := none }
    let (aggSig, pubKeys, msgHashes) := aggregateHashes agg hashes
    match agg.aggPubKey with
    | none => (aggSig, pubKeys, msgHashes)
    | some aggPubKey => (aggSig, aggPubKey :: pubKeys, msgHash :: msgHashes)

def verifyBatchInsecure (hashes : List (Uint256 × List (Message MessageId Sig PubKey))) : Bool :=
  let (aggSig, pubKeys, msgHashes) := aggregateHashes scheme {} hashes
  if msgHashes.isEmpty then true else verifyAggregated scheme aggSig pubKeys msgHashes

/-! ### Secure batches -/

/-- The loop of `VerifyBatchSecureStep`, over the last message of each hash. -/
def aggregateLast (aggSig : Option Sig) (dups : Finset MessageId) :
    List (Uint256 × List (Message MessageId Sig PubKey)) → Option Sig × List PubKey × List Uint256
  | [] => (aggSig, [], [])
  | (msgHash, msgs) :: hashes =>
    match msgs.getLast? with
    | none => aggregateLast aggSig dups hashes
    | some msg =>
      if msg.msgId ∈ dups then aggregateLast aggSig dups hashes
      else
        let (aggSig, pubKeys, msgHashes) :=
          aggregateLast (aggregateWith scheme.aggregateSig aggSig msg.sig) (insert msg.msgId dups) hashes
        (aggSig, msg.pubKey :: pubKeys, msgHash :: msgHashes)

/-- The messages that are left after a step: the last one of each hash is gone. -/
def popMessages (hashes : List (Uint256 × List (Message MessageId Sig PubKey))) :
    List (Uint256 × List (Message MessageId Sig PubKey)) :=
  (hashes.map fun hash => (hash.1, hash.2.dropLast)).filter fun hash => !hash.2.isEmpty

def verifyBatchSecureStep (hashes : List (Uint256 × List (Message MessageId Sig PubKey))) : Bool :=
  let (aggSig, pubKeys, msgHashes) := aggregateLast scheme none ∅ hashes
  verifyAggregated scheme aggSig pubKeys msgHashes

/-- The loop of `VerifyBatchSecure`, with a bound on the number of its turns. -/
def verifyBatchSecureLoop : ℕ → List (Uint256 × List (Message MessageId Sig PubKey)) → Bool
  | 0, _ => true
  | fuel + 1, hashes =>
    if hashes.isEmpty then true
    else if !verifyBatchSecureStep scheme hashes then false
    else verifyBatchSecureLoop fuel (popMessages hashes)

/-- `VerifyBatchSecure`. Each turn takes at least one message. -/
def verifyBatchSecure (hashes : List (Uint256 × List (Message MessageId Sig PubKey))) : Bool :=
  verifyBatchSecureLoop scheme (hashes.map fun hash => hash.2.length).sum hashes

def verifyBatch (secureVerification : Bool) (hashes : List (Uint256 × List (Message MessageId Sig PubKey))) : Bool :=
  if secureVerification then verifyBatchSecure scheme hashes else verifyBatchInsecure scheme hashes

/-! ### Verdicts -/

/-- The signature verifies by itself. -/
def Message.verifies (msg : Message MessageId Sig PubKey) : Bool :=
  scheme.verifyInsecure msg.sig msg.pubKey msg.msgHash

namespace CBLSBatchVerifier

variable [DecidableEq SourceId]

/-- Verify a message by itself, unless it is known to be bad. -/
def verifyMessage (v : CBLSBatchVerifier SourceId MessageId Sig PubKey) (msg : Message MessageId Sig PubKey) :
    CBLSBatchVerifier SourceId MessageId Sig PubKey :=
  if msg.msgId ∈ v.badMessages then v
  else if !msg.verifies scheme then { v with badMessages := insert msg.msgId v.badMessages }
  else v

/-- The fallback to the messages of a source. A single message has been verified already. -/
def verifyMessages (v : CBLSBatchVerifier SourceId MessageId Sig PubKey) (msgs : List (Message MessageId Sig PubKey)) :
    CBLSBatchVerifier SourceId MessageId Sig PubKey :=
  match msgs with
  | [msg] => { v with badMessages := insert msg.msgId v.badMessages }
  | msgs => msgs.foldl (verifyMessage scheme) v

def verifySource (v : CBLSBatchVerifier SourceId MessageId Sig PubKey)
    (source : SourceId × List (Message MessageId Sig PubKey)) : CBLSBatchVerifier SourceId MessageId Sig PubKey :=
  if v.messagesBySource.length ≠ 1 ∧ verifyBatch scheme v.secureVerification (byMessageHash source.2) then v
  else
    let v := { v with badSources := insert source.1 v.badSources }
    if v.perMessageFallback then verifyMessages scheme v source.2 else v

def verify (v : CBLSBatchVerifier SourceId MessageId Sig PubKey) : CBLSBatchVerifier SourceId MessageId Sig PubKey :=
  if verifyBatch scheme v.secureVerification (byMessageHash v.messages) then v
  else v.messagesBySource.foldl (verifySource scheme) v

def clearMessages (v : CBLSBatchVerifier SourceId MessageId Sig PubKey) :
    CBLSBatchVerifier SourceId MessageId Sig PubKey :=
  { v with messages := [], messagesBySource := [] }

variable [Ord SourceId] [Ord MessageId]

/-- The message is added. One with an id that is there already is the one that is there. -/
def emplaceMessage (v : CBLSBatchVerifier SourceId MessageId Sig PubKey) (sourceId : SourceId)
    (msg : Message MessageId Sig PubKey) : CBLSBatchVerifier SourceId MessageId Sig PubKey :=
  match v.messages.find? fun m => m.msgId = msg.msgId with
  | some m => { v with messagesBySource := emplaceBack sourceId m v.messagesBySource }
  | none => { v with
      messages := insertOrdered (fun m => (compare m.msgId msg.msgId).isLT) msg v.messages
      messagesBySource := emplaceBack sourceId msg v.messagesBySource }

def pushMessage (v : CBLSBatchVerifier SourceId MessageId Sig PubKey)
    (push : SourceId × Message MessageId Sig PubKey) : CBLSBatchVerifier SourceId MessageId Sig PubKey :=
  let v := v.emplaceMessage push.1 push.2
  if v.subBatchSize ≠ 0 ∧ v.messages.length ≥ v.subBatchSize then (verify scheme v).clearMessages else v

end CBLSBatchVerifier

end Blocx
