import Blocx.Evo.ProviderTx

/-!
# Quorum commitments

`CFinalCommitment` and the payload of a quorum commitment transaction (`llmq/commitment.h`), as they are read. A key or
a signature is its bytes, zero when it is unset or was reset because it came in the other encoding.
-/

namespace Blocx

open Wire Reader

variable {G : Type}

structure CFinalCommitment where
  nVersion : BitVec 16 := 1
  llmqType : Consensus.LLMQType := .none
  /-- Base block of the quorum. -/
  quorumHash : Uint256 := 0
  /-- Index of a rotated quorum. -/
  quorumIndex : BitVec 16 := 0
  signers : List Bool := []
  validMembers : List Bool := []
  quorumPublicKey : BitVec 384 := 0
  /-- Hash of the verification vector. -/
  quorumVvecHash : Uint256 := 0
  quorumSig : BitVec 768 := 0
  membersSig : BitVec 768 := 0
  deriving DecidableEq

def CFinalCommitment.isNull (qc : CFinalCommitment) : Bool :=
  !qc.signers.any id && !qc.validMembers.any id && qc.quorumPublicKey = 0 && qc.quorumVvecHash = 0 &&
    qc.membersSig = 0 && qc.quorumSig = 0

structure CFinalCommitmentTxPayload where
  nVersion : BitVec 16 := 1
  nHeight : BitVec 32 := 0xffffffff
  commitment : CFinalCommitment := {}
  deriving DecidableEq

/-- `ReadFixedBitSet`: bits beyond the size must not be set. -/
def Wire.Reader.getFixedBitSet (size : ℕ) : Reader (List Bool) := do
  let vBytes ← bytes ((size + 7) / 8)
  check (fun _ => leValue vBytes < 2 ^ size) ((List.range size).map (leValue vBytes).testBit)

/-- `DynamicBitSetFormatter::Unser`. -/
def Wire.Reader.getDynBitSet : Reader (List Bool) := getCompactSize maxSize >>= getFixedBitSet

/-- The bytes of a public key decode in an encoding and encode to themselves. -/
def Bls.keyCanonical (bls : Bls G) (legacy : Bool) (vecBytes : BitVec 384) : Bool :=
  (bls.fromBytes legacy vecBytes).any fun k => bls.serialize legacy k = vecBytes

/-- `CBLSPublicKeyVersionWrapper::Unserialize`. A key in the other encoding is reset, one in neither throws. -/
def readPublicKey (bls : Bls G) (legacy : Bool) : Reader (BitVec 384) := do
  let vecBytes ← get 384
  if vecBytes = 0 ∨ bls.keyCanonical legacy vecBytes then return vecBytes
  else if bls.keyCanonical (!legacy) vecBytes then return 0
  else fail

def CFinalCommitment.unserialize (bls : Bls G) : Reader CFinalCommitment := do
  let nVersion ← get 16
  let llmqType ← get 8
  let quorumHash ← get 256
  let quorumIndex ← getIf (nVersion.toNat = 2 || nVersion.toNat = 4) (get 16) 0
  let signers ← getDynBitSet
  let validMembers ← getDynBitSet
  let legacy := nVersion.toNat = 1 || nVersion.toNat = 2
  let quorumPublicKey ← readPublicKey bls legacy
  let quorumVvecHash ← get 256
  let quorumSig ← readSignature bls legacy
  let membersSig ← readSignature bls legacy
  return {
    nVersion, llmqType := Consensus.LLMQType.ofBits llmqType, quorumHash, quorumIndex, signers, validMembers,
    quorumPublicKey, quorumVvecHash, quorumSig, membersSig }

def CFinalCommitmentTxPayload.unserialize (bls : Bls G) : Reader CFinalCommitmentTxPayload := do
  let nVersion ← get 16
  let nHeight ← get 32
  let commitment ← CFinalCommitment.unserialize bls
  return { nVersion, nHeight, commitment }

end Blocx
