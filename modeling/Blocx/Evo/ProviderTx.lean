import Blocx.Consensus.Params
import Blocx.Lib.Throwing
import Blocx.Lib.VarLength
import Blocx.Primitives.Transaction

/-!
# Provider transactions

The payloads of the four provider transactions (`evo/providertx.h`), how they are read from the extra payload of a
transaction, and the checks that need nothing but the payload (`evo/providertx.cpp`).

The BLS library is not part of the repository. A scheme is a parameter: a type `G` of public keys with the two
encodings the code distinguishes, legacy and basic, each of which decodes what it has encoded. A
`CBLSLazyPublicKey` is unset, or a key together with the scheme its buffer is in. A buffer that does not decode is
unset as well: every check of a payload asks `Get().IsValid()`, which both fail. The scheme flag of an unset key shows
nowhere, since it serialises to zero bytes under either.

A `CService` is the sixteen bytes of the address in its `ADDRv1` form and the port. Every address that is read from a
payload has that form, and it determines the network: IPv4, Tor and internal addresses are prefixes of it.
-/

namespace Blocx

open Wire Reader

abbrev CKeyID : Type := BitVec 160

abbrev CScript : Type := List UInt8

def maxSize : ℕ := 0x02000000

def maxMoney : ℤ := 21000000 * COIN

/-! ### Types of masternodes -/

/-- `MnType`; the other 16-bit values have no name here. -/
inductive MnType where
  | standardMasternode
  | lite
  | other (v : BitVec 16)
  deriving DecidableEq

namespace MnType

/-- The type with a number. -/
def ofBits (v : BitVec 16) : MnType := if v = 0 then .standardMasternode else if v = 1 then .lite else .other v

/-- The number of a type. -/
def toBits : MnType → BitVec 16
  | .standardMasternode => 0
  | .lite => 1
  | .other v => v

def isValid : MnType → Bool
  | .other _ => false
  | _ => true

def collatAmount : MnType → ℤ
  | .standardMasternode => 100000 * COIN
  | .lite => 10000 * COIN
  | .other _ => maxMoney

lemma ofBits_toBits {t : MnType} (h : t.isValid) : ofBits t.toBits = t := by
  cases t with
  | standardMasternode | lite => rfl
  | other v => cases h

end MnType

/-! ### Addresses -/

structure CService where
  /-- The address, sixteen bytes. -/
  ip : BitVec 128 := 0
  port : BitVec 16 := 0
  deriving DecidableEq

namespace CService

/-- A byte of the address. -/
def byte (addr : CService) (i : ℕ) : ℕ := addr.ip.toNat / 256 ^ i % 256

/-- `HasPrefix` on the sixteen bytes. -/
def hasPrefix (addr : CService) (bs : List ℕ) : Bool := (List.range bs.length).map addr.byte = bs

/-- `IsIPv4`: the prefix `::ffff:0:0/96`. -/
def isIPv4 (addr : CService) : Bool := addr.hasPrefix [0, 0, 0, 0, 0, 0, 0, 0, 0, 0, 0xff, 0xff]

/-- `IsTor`: an onion address of the second version. -/
def isTor (addr : CService) : Bool := addr.hasPrefix [0xfd, 0x87, 0xd8, 0x7e, 0xeb, 0x43]

def isInternal (addr : CService) : Bool := addr.hasPrefix [0xfd, 0x6b, 0x88, 0xc0, 0x87, 0x24]

/-- `IsIPv6`: none of the others. -/
def isIPv6 (addr : CService) : Bool := !addr.isIPv4 && !addr.isTor && !addr.isInternal

/-- The four bytes of an IPv4 address, the first one first. -/
def ipv4Byte (addr : CService) (i : ℕ) : ℕ := addr.byte (12 + i)

def isValid (addr : CService) : Bool :=
  !(addr.isIPv6 && addr.ip = 0) && !(addr.isIPv6 && addr.hasPrefix [0x20, 0x01, 0x0d, 0xb8]) && !addr.isInternal &&
    !(addr.isIPv4 && ((List.range 4).all (addr.ipv4Byte · = 0) || (List.range 4).all (addr.ipv4Byte · = 255)))

/-- The private IPv4 networks, `IsRFC1918`. -/
def isRFC1918 (addr : CService) : Bool :=
  addr.isIPv4 && (addr.ipv4Byte 0 = 10 || (addr.ipv4Byte 0 = 192 && addr.ipv4Byte 1 = 168) ||
    (addr.ipv4Byte 0 = 172 && 16 ≤ addr.ipv4Byte 1 && addr.ipv4Byte 1 ≤ 31))

/-- The other IPv4 networks that are not routed: `IsRFC2544`, `IsRFC3927`, `IsRFC6598`, `IsRFC5737` and the loopback
networks of `IsLocal`. -/
def isReservedIPv4 (addr : CService) : Bool :=
  let a := addr.ipv4Byte 0
  let b := addr.ipv4Byte 1
  let c := addr.ipv4Byte 2
  addr.isIPv4 && ((a = 198 && (b = 18 || b = 19)) || (a = 169 && b = 254) || (a = 100 && 64 ≤ b && b ≤ 127) ||
    (a = 192 && b = 0 && c = 2) || (a = 198 && b = 51 && c = 100) || (a = 203 && b = 0 && c = 113) || a = 127 || a = 0)

/-- The IPv6 networks that are not routed: `IsRFC4862`, `IsRFC4193`, `IsRFC4843`, `IsRFC7343` and the loopback address
of `IsLocal`. -/
def isReservedIPv6 (addr : CService) : Bool :=
  addr.isIPv6 && (addr.hasPrefix [0xfe, 0x80, 0, 0, 0, 0, 0, 0] || addr.byte 0 / 2 = 0xfc / 2 ||
    (addr.hasPrefix [0x20, 0x01, 0x00] && (addr.byte 3 / 16 = 1 || addr.byte 3 / 16 = 2)) ||
    addr.hasPrefix [0, 0, 0, 0, 0, 0, 0, 0, 0, 0, 0, 0, 0, 0, 0, 1])

def isRoutable (fAllowPrivateNet : Bool) (addr : CService) : Bool :=
  addr.isValid && (fAllowPrivateNet || !addr.isRFC1918) && !addr.isReservedIPv4 && !addr.isReservedIPv6 &&
    !addr.isInternal

/-- An address as it is written: the port is big-endian. -/
def serialize (addr : CService) : List UInt8 := put addr.ip ++ (put addr.port).reverse

/-- Read an address. -/
def unserialize : Reader CService := do
  let ip ← get 128
  let port ← bytes 2
  return { ip := ip, port := BitVec.ofNat 16 (leValue port.reverse) }

lemma reads_serialize (addr : CService) : Reads unserialize addr.serialize addr := by
  have hport : Reads (bytes 2) (put addr.port).reverse (put addr.port).reverse :=
    Reads.bytes (by rw [List.length_reverse, length_put])
  refine (Reads.get (by decide) addr.ip).bind (hport.bind_pure ?_)
  rw [List.reverse_reverse, ofNat_leValue_put (by decide)]
  exact Reads.pure addr

end CService

/-! ### Operator keys -/

/-- A BLS scheme with its two encodings of public keys. -/
structure Bls (G : Type) where
  /-- A key in an encoding, legacy or basic. -/
  serialize : Bool → G → BitVec 384
  /-- The key that bytes encode. -/
  fromBytes : Bool → BitVec 384 → Option G
  fromBytes_serialize : ∀ legacy k, fromBytes legacy (serialize legacy k) = some k
  serialize_ne_zero : ∀ legacy k, serialize legacy k ≠ 0
  /-- The bytes of a signature decode in an encoding and encode to themselves. -/
  sigCanonical : Bool → BitVec 768 → Bool

/-- `CBLSLazyPublicKey`: unset, or a key and the encoding of its buffer. -/
inductive CBLSLazyPublicKey (G : Type) where
  | null
  /-- A key and whether its buffer is in the legacy encoding. -/
  | set (obj : G) (legacy : Bool)
  deriving DecidableEq

variable {G : Type}

namespace CBLSLazyPublicKey

/-- `Get().IsValid()`. -/
def isValid : CBLSLazyPublicKey G → Bool
  | null => false
  | set _ _ => true

def isLegacy : CBLSLazyPublicKey G → Bool
  | null => true
  | set _ legacy => legacy

/-- `operator==`: the keys are compared, not the encodings of their buffers. -/
def eq [DecidableEq G] : CBLSLazyPublicKey G → CBLSLazyPublicKey G → Bool
  | null, null => true
  | set k _, set k' _ => k = k'
  | _, _ => false

def setLegacy (legacy : Bool) : CBLSLazyPublicKey G → CBLSLazyPublicKey G
  | null => null
  | set k _ => set k legacy

/-- The bytes a key is written as in an encoding. -/
def toBytes (bls : Bls G) (legacy : Bool) : CBLSLazyPublicKey G → BitVec 384
  | null => 0
  | set k _ => bls.serialize legacy k

/-- The key that bytes in an encoding stand for. A key that does not encode to the same bytes again is not valid. -/
def ofBytes (bls : Bls G) (legacy : Bool) (vecBytes : BitVec 384) : CBLSLazyPublicKey G :=
  if vecBytes = 0 then null
  else match bls.fromBytes legacy vecBytes with
    | some k => if bls.serialize legacy k = vecBytes then set k legacy else null
    | none => null

lemma ofBytes_toBytes (bls : Bls G) (legacy : Bool) (key : CBLSLazyPublicKey G) :
    ofBytes bls legacy (key.toBytes bls legacy) = key.setLegacy legacy := by
  unfold ofBytes toBytes setLegacy
  cases key with
  | null => simp only [if_true]
  | set k l =>
    rw [if_neg (bls.serialize_ne_zero legacy k), bls.fromBytes_serialize]
    exact if_pos rfl

end CBLSLazyPublicKey

/-! ### The payloads -/

def legacyBlsVersion : ℕ := 1

def basicBlsVersion : ℕ := 2

/-- `GetVersion`: the newest version that is allowed. -/
def getVersion (isBasicSchemeActive : Bool) : ℕ := if isBasicSchemeActive then basicBlsVersion else legacyBlsVersion

structure CProRegTx (G : Type) where
  nVersion : BitVec 16 := 1
  nType : MnType := .standardMasternode
  /-- Mode, only 0 is allowed. -/
  nMode : BitVec 16 := 0
  /-- The collateral; with a null hash an output of the transaction itself. -/
  collateralOutpoint : COutPoint := ⟨0, 0xffffffff⟩
  addr : CService := {}
  keyIDOwner : CKeyID := 0
  pubKeyOperator : CBLSLazyPublicKey G := .null
  keyIDVoting : CKeyID := 0
  /-- Share of the operator, in units of 0.01 percent. -/
  nOperatorReward : BitVec 16 := 0
  scriptPayout : CScript := []
  /-- Hash of the inputs, replay protection. -/
  inputsHash : Uint256 := 0
  vchSig : List UInt8 := []

structure CProUpServTx where
  nVersion : BitVec 16 := 1
  nType : MnType := .standardMasternode
  proTxHash : Uint256 := 0
  addr : CService := {}
  scriptOperatorPayout : CScript := []
  inputsHash : Uint256 := 0
  /-- Signature, zero when unset. -/
  sig : BitVec 768 := 0

structure CProUpRegTx (G : Type) where
  nVersion : BitVec 16 := 1
  proTxHash : Uint256 := 0
  /-- Mode, only 0 is allowed. -/
  nMode : BitVec 16 := 0
  pubKeyOperator : CBLSLazyPublicKey G := .null
  keyIDVoting : CKeyID := 0
  scriptPayout : CScript := []
  inputsHash : Uint256 := 0
  vchSig : List UInt8 := []

structure CProUpRevTx where
  nVersion : BitVec 16 := 1
  proTxHash : Uint256 := 0
  /-- Reason, informational. -/
  nReason : BitVec 16 := 0
  inputsHash : Uint256 := 0
  /-- Signature, zero when unset. -/
  sig : BitVec 768 := 0

/-! ### Reading a payload -/

section

variable (bls : Bls G)

def COutPoint.serialize (o : COutPoint) : List UInt8 := put o.hash ++ put o.n

/-- Read a `COutPoint`. -/
def COutPoint.unserialize : Reader COutPoint := do
  let hash ← get 256
  let n ← get 32
  return { hash := hash, n := n }

lemma COutPoint.reads_serialize (o : COutPoint) : Reads COutPoint.unserialize o.serialize o :=
  (Reads.get (by decide) o.hash).bind ((Reads.get (by decide) o.n).bind_pure (Reads.pure o))

/-- `CBLSLazyPublicKeyVersionWrapper::Unserialize`. -/
def readLazyPublicKey (legacy : Bool) : Reader (CBLSLazyPublicKey G) := do
  let vecBytes ← get 384
  return CBLSLazyPublicKey.ofBytes bls legacy vecBytes

/-- `CBLSSignatureVersionWrapper::Unserialize`. A signature in the other encoding is reset, one in neither throws. -/
def readSignature (legacy : Bool) : Reader (BitVec 768) := do
  let vecBytes ← get 768
  if vecBytes = 0 ∨ bls.sigCanonical legacy vecBytes then return vecBytes
  else if bls.sigCanonical (!legacy) vecBytes then return 0
  else fail

/-- The version of a payload is known. -/
def isKnownVersion (nVersion : BitVec 16) : Bool := nVersion ≠ 0 && nVersion.toNat ≤ basicBlsVersion

/-- The payload is in the legacy scheme. -/
def isLegacyVersion (nVersion : BitVec 16) : Bool := nVersion.toNat = legacyBlsVersion

/-- Read a `CProRegTx`. An unknown version ends the payload. -/
def CProRegTx.unserialize : Reader (CProRegTx G) := do
  let nVersion ← get 16
  if isKnownVersion nVersion then
    let nType ← get 16
    let nMode ← get 16
    let collateralOutpoint ← COutPoint.unserialize
    let addr ← CService.unserialize
    let keyIDOwner ← get 160
    let pubKeyOperator ← readLazyPublicKey bls (isLegacyVersion nVersion)
    let keyIDVoting ← get 160
    let nOperatorReward ← get 16
    let scriptPayout ← getBytes maxSize
    let inputsHash ← get 256
    let vchSig ← getBytes maxSize
    return {
      nVersion, nType := MnType.ofBits nType, nMode, collateralOutpoint, addr, keyIDOwner, pubKeyOperator,
      keyIDVoting, nOperatorReward, scriptPayout, inputsHash, vchSig }
  else return { nVersion }

/-- Read a `CProUpServTx`. The type is present since the basic version. -/
def CProUpServTx.unserialize : Reader CProUpServTx := do
  let nVersion ← get 16
  if isKnownVersion nVersion then
    let nType ← getIf (nVersion.toNat = basicBlsVersion) (get 16) 0
    let proTxHash ← get 256
    let addr ← CService.unserialize
    let scriptOperatorPayout ← getBytes maxSize
    let inputsHash ← get 256
    let sig ← readSignature bls (isLegacyVersion nVersion)
    return { nVersion, nType := MnType.ofBits nType, proTxHash, addr, scriptOperatorPayout, inputsHash, sig }
  else return { nVersion }

def CProUpRegTx.unserialize : Reader (CProUpRegTx G) := do
  let nVersion ← get 16
  if isKnownVersion nVersion then
    let proTxHash ← get 256
    let nMode ← get 16
    let pubKeyOperator ← readLazyPublicKey bls (isLegacyVersion nVersion)
    let keyIDVoting ← get 160
    let scriptPayout ← getBytes maxSize
    let inputsHash ← get 256
    let vchSig ← getBytes maxSize
    return { nVersion, proTxHash, nMode, pubKeyOperator, keyIDVoting, scriptPayout, inputsHash, vchSig }
  else return { nVersion }

def CProUpRevTx.unserialize : Reader CProUpRevTx := do
  let nVersion ← get 16
  if isKnownVersion nVersion then
    let proTxHash ← get 256
    let nReason ← get 16
    let inputsHash ← get 256
    let sig ← readSignature bls (isLegacyVersion nVersion)
    return { nVersion, proTxHash, nReason, inputsHash, sig }
  else return { nVersion }

/-- `GetTxPayload`: the type of the transaction must fit and no byte may be left. -/
def getTxPayload {α : Type} (nType : TxType) (reader : Reader α) (tx : CTransaction) : Option α :=
  if tx.nType = nType then
    match reader.run tx.vExtraPayload with
    | some (obj, []) => some obj
    | _ => none
  else none

end

/-! ### Scripts and destinations -/

/-- `CTxDestination` without the empty one. -/
inductive CTxDestination where
  | pkHash (id : CKeyID)
  | scriptHash (id : BitVec 160)
  deriving DecidableEq

def isPayToPublicKeyHash (script : CScript) : Bool :=
  script.length = 25 && script.take 3 = [0x76, 0xa9, 0x14] && script.drop 23 = [0x88, 0xac]

def isPayToScriptHash (script : CScript) : Bool :=
  script.length = 23 && script.take 2 = [0xa9, 0x14] && script.drop 22 = [0x87]

def matchPayToPubkey (script : CScript) : Option (List UInt8) :=
  let key := (script.drop 1).dropLast
  if script.getLast? = some 0xac ∧ script.length = 67 ∧ script.head? = some 65 ∧
      (key.head? = some 4 ∨ key.head? = some 6 ∨ key.head? = some 7) then some key
  else if script.getLast? = some 0xac ∧ script.length = 35 ∧ script.head? = some 33 ∧
      (key.head? = some 2 ∨ key.head? = some 3) then some key
  else none

/-- `ExtractDestination`. The scripts of `Solver` that have no single destination are left out. -/
def extractDestination (hash160 : List UInt8 → BitVec 160) (script : CScript) : Option CTxDestination :=
  if isPayToScriptHash script then some (.scriptHash (BitVec.ofNat 160 (leValue ((script.drop 2).take 20))))
  else match matchPayToPubkey script with
    | some key => some (.pkHash (hash160 key))
    | none =>
      if isPayToPublicKeyHash script then some (.pkHash (BitVec.ofNat 160 (leValue ((script.drop 3).take 20))))
      else none

/-! ### Checks of a payload by itself -/

variable (hash160 : List UInt8 → BitVec 160)

/-- The version of a payload is allowed. -/
def isAllowedVersion (isBasicSchemeActive : Bool) (nVersion : BitVec 16) : Bool :=
  nVersion ≠ 0 && nVersion.toNat ≤ getVersion isBasicSchemeActive

def isPayout (script : CScript) : Bool := isPayToPublicKeyHash script || isPayToScriptHash script

def CProRegTx.isTriviallyValid (isBasicSchemeActive : Bool) (tx : CProRegTx G) : Except String Unit := do
  require (isAllowedVersion isBasicSchemeActive tx.nVersion) "bad-protx-version"
  require tx.nType.isValid "bad-protx-type"
  require (tx.nMode = 0) "bad-protx-mode"
  require (!(tx.keyIDOwner = 0 || !tx.pubKeyOperator.isValid || tx.keyIDVoting = 0)) "bad-protx-key-null"
  require (tx.pubKeyOperator.isLegacy = isLegacyVersion tx.nVersion) "bad-protx-operator-pubkey"
  require (isPayout tx.scriptPayout) "bad-protx-payee"
  let payoutDest ← getOr (extractDestination hash160 tx.scriptPayout) "bad-protx-payee-dest"
  require (!(payoutDest = .pkHash tx.keyIDOwner || payoutDest = .pkHash tx.keyIDVoting)) "bad-protx-payee-reuse"
  require (tx.nOperatorReward.toNat ≤ 10000) "bad-protx-operator-reward"

def CProUpServTx.isTriviallyValid (isBasicSchemeActive : Bool) (tx : CProUpServTx) : Except String Unit :=
  require (isAllowedVersion isBasicSchemeActive tx.nVersion) "bad-protx-version"

def CProUpRegTx.isTriviallyValid (isBasicSchemeActive : Bool) (tx : CProUpRegTx G) : Except String Unit := do
  require (isAllowedVersion isBasicSchemeActive tx.nVersion) "bad-protx-version"
  require (tx.nMode = 0) "bad-protx-mode"
  require (!(!tx.pubKeyOperator.isValid || tx.keyIDVoting = 0)) "bad-protx-key-null"
  require (tx.pubKeyOperator.isLegacy = isLegacyVersion tx.nVersion) "bad-protx-operator-pubkey"
  require (isPayout tx.scriptPayout) "bad-protx-payee"

def CProUpRevTx.isTriviallyValid (isBasicSchemeActive : Bool) (tx : CProUpRevTx) : Except String Unit := do
  require (isAllowedVersion isBasicSchemeActive tx.nVersion) "bad-protx-version"
  require (tx.nReason.toNat ≤ 3) "bad-protx-reason"

lemma length_le_of_isPayout {script : CScript} (h : isPayout script) : script.length ≤ 25 := by
  simp only [isPayout, isPayToPublicKeyHash, isPayToScriptHash, Bool.or_eq_true, Bool.and_eq_true,
    decide_eq_true_eq] at h
  omega

end Blocx
