import Blocx.Evo.DmnState
import Blocx.Lib.Ranking
import Blocx.Lib.RefIndex

/-!
# The masternode list

`CDeterministicMNList` (`evo/deterministicmns.h`, `evo/deterministicmns.cpp`). A list keeps its masternodes by the hash
of their registration and, beside that, four maps that repeat part of the same information: the masternodes of each of
the two tiers, the registration of an internal id, and the owner of a unique property (collateral, address, owner key,
operator key), under the hash of the property and with a reference count.

The methods that change a list are programs on the list that may throw. They save the property map before they change
it and put it back before they throw. What they throw is a `DmnException`, which carries what the message of the
source prints.

Null values have no property: AddUniqueProperty and DeleteUniqueProperty refuse them, so a property is passed as an
option. The count of references is a `uint32_t` in the source and never exceeds the number of properties.
-/

namespace Blocx

variable {G : Type}

structure CDeterministicMN (G : Type) where
  /-- Hash of the registration. -/
  proTxHash : Uint256
  /-- Number of the registration, `uint64_t`. -/
  internalId : ℕ
  collateralOutpoint : COutPoint
  nOperatorReward : BitVec 16 := 0
  nType : MnType := .standardMasternode
  pdmnState : CDeterministicMNState G
  deriving DecidableEq

/-- The values that must be unique, as they are serialised to be hashed. -/
inductive UniqueProperty where
  | collateral (o : COutPoint)
  | addr (a : CService)
  | keyID (k : CKeyID)
  /-- An operator key, in its encoding. -/
  | pubKey (vecBytes : BitVec 384)
  deriving DecidableEq

/-- What a list takes from the cryptographic libraries. -/
structure Crypto (G : Type) where
  bls : Bls G
  serializeHash : UniqueProperty → Uint256
  sha256 : Uint256 → Uint256 → Uint256

/-- The methods that throw. -/
inductive ListFunc where
  | addMN | updateMN | removeMN | poSePunish | poSeDecrease
  deriving DecidableEq

/-- The kinds of properties, as the messages name them. -/
inductive PropertyKind where
  | collateralOutpoint | address | keyIDOwner | pubKeyOperator
  deriving DecidableEq

/-- What the methods of a list throw. -/
inductive DmnException where
  | duplicateProTxHash (proTxHash : Uint256)
  | duplicateInternalId (internalId : ℕ)
  /-- Can't add, update or delete a property of a masternode. -/
  | property (func : ListFunc) (proTxHash : Uint256) (kind : PropertyKind)
  | notFound (func : ListFunc) (proTxHash : Uint256)
  /-- Can't find a removed masternode. -/
  | removedNotFound (internalId : ℕ)
  | nullPointer
  | assertion
  /-- A vector is read beyond its end. -/
  | outOfRange
  /-- Nothing is thrown: the block is refused with a reason. -/
  | invalid (reason : String)
  deriving DecidableEq

abbrev MnMap (G : Type) : Type := Std.ExtTreeMap Uint256 (CDeterministicMN G)

structure CDeterministicMNList (G : Type) where
  /-- The block of the list. -/
  blockHash : Uint256 := 0
  nHeight : ℤ := -1
  /-- Number of registrations, `uint32_t`. -/
  nTotalRegisteredCount : ℕ := 0
  mnMap : MnMap G := ∅
  tierOne : MnMap G := ∅
  tierTwo : MnMap G := ∅
  mnInternalIdMap : Std.ExtTreeMap ℕ Uint256 := ∅
  mnUniquePropertyMap : RefIndex Uint256 Uint256 := ∅

/-- Programs on a list. -/
abbrev ListM (G : Type) : Type → Type := EStateM DmnException (CDeterministicMNList G)

/-! ### Properties -/

def collateralProperty (o : COutPoint) : Option UniqueProperty := if o.isNull then none else some (.collateral o)

/-- The property of an address. -/
def addrProperty (a : CService) : Option UniqueProperty := if a = {} then none else some (.addr a)

def ownerProperty (k : CKeyID) : Option UniqueProperty := if k = 0 then none else some (.keyID k)

/-- The property of an operator key: the key in the encoding of its buffer. -/
def operatorProperty (bls : Bls G) : CBLSLazyPublicKey G → Option UniqueProperty
  | .null => none
  | .set k legacy => some (.pubKey (bls.serialize legacy k))

namespace CDeterministicMNList

/-! ### Queries -/

section

variable (crypto : Crypto G) (list : CDeterministicMNList G)

def getMN (proTxHash : Uint256) : Option (CDeterministicMN G) := list.mnMap[proTxHash]?

def hasMN (proTxHash : Uint256) : Bool := (list.getMN proTxHash).isSome

def getMNByInternalId (internalId : ℕ) : Option (CDeterministicMN G) :=
  list.mnInternalIdMap[internalId]?.bind list.getMN

def hasUniqueProperty (v : UniqueProperty) : Bool := list.mnUniquePropertyMap.contains (crypto.serializeHash v)

def getUniquePropertyMN (v : UniqueProperty) : Option (CDeterministicMN G) :=
  list.mnUniquePropertyMap[crypto.serializeHash v]?.bind fun entry => list.getMN entry.1

def getMNByCollateral (o : COutPoint) : Option (CDeterministicMN G) := list.getUniquePropertyMN crypto (.collateral o)

def getAllMNsCount : ℕ := list.mnMap.size

/-- The masternodes in the order of an iteration. -/
def mns (map : MnMap G) : List (CDeterministicMN G) := map.toList.map Prod.snd

def isMNValid (dmn : CDeterministicMN G) : Bool := !dmn.pdmnState.isBanned

/-- A conversion to `int`. -/
def toInt32 (x : ℤ) : ℤ := x.bmod (2 ^ 32)

def calcMaxPoSePenalty : ℤ := max 100 (toInt32 list.getAllMNsCount)

def calcPenalty (percent : ℤ) : ℤ := (list.calcMaxPoSePenalty * percent).tdiv 100

/-- `CompareByLastPaid_GetHeight`. -/
def lastPaidHeight (dmn : CDeterministicMN G) : ℤ :=
  let st := dmn.pdmnState
  if st.nPoSeRevivedHeight ≠ -1 ∧ st.nPoSeRevivedHeight > st.nLastPaidHeight then st.nPoSeRevivedHeight
  else if st.nLastPaidHeight = 0 then st.nRegisteredHeight
  else st.nLastPaidHeight

/-- `uint256::operator<`: the bytes are compared, the first one first. -/
def uint256Less (a b : Uint256) : Bool := Wire.put a < Wire.put b

lemma strictTotal_uint256Less : StrictTotal uint256Less where
  irrefl _ := decide_eq_false (List.lt_irrefl _)
  trans _ _ _ hab hbc := decide_eq_true (List.lt_trans (of_decide_eq_true hab) (of_decide_eq_true hbc))
  connected _ _ hab hba :=
    Wire.put_inj (by decide) (List.le_antisymm (of_decide_eq_false hba) (of_decide_eq_false hab))

def compareByLastPaid (a b : CDeterministicMN G) : Bool :=
  if lastPaidHeight a = lastPaidHeight b then uint256Less a.proTxHash b.proTxHash
  else lastPaidHeight a < lastPaidHeight b

/-- The first masternode of a list in the order of `compareByLastPaid`. -/
def best (dmns : List (CDeterministicMN G)) : Option (CDeterministicMN G) :=
  dmns.foldl (fun best dmn => match best with
    | none => some dmn
    | some b => if compareByLastPaid dmn b then some dmn else some b) none

def getMNPayee (isFullList : Bool) (type : MnType) : Option (CDeterministicMN G) :=
  if list.mnMap.size = 0 then none
  else if type = .standardMasternode ∧ list.tierOne.size = 0 then none
  else if type = .lite ∧ list.tierTwo.size = 0 then none
  else if isFullList then best ((mns list.mnMap).filter isMNValid)
  else match type with
    | .standardMasternode => best ((mns list.tierOne).filter isMNValid)
    | .lite => best ((mns list.tierTwo).filter isMNValid)
    | .other _ => best ((mns list.mnMap).filter isMNValid)

end

/-! ### The property map -/

section

variable (crypto : Crypto G)

def addUniqueProperty (proTxHash : Uint256) : Option UniqueProperty → ListM G Bool
  | none => return false
  | some v => modifyGet fun list =>
    let r := list.mnUniquePropertyMap.add proTxHash (crypto.serializeHash v)
    (r.1, { list with mnUniquePropertyMap := r.2 })

def deleteUniqueProperty (proTxHash : Uint256) : Option UniqueProperty → ListM G Bool
  | none => return false
  | some v => modifyGet fun list =>
    let r := list.mnUniquePropertyMap.delete proTxHash (crypto.serializeHash v)
    (r.1, { list with mnUniquePropertyMap := r.2 })

/-- A change of a property that is only made on a condition, as in `cond && !AddUniqueProperty(..)`. -/
def onlyIf (cond : Bool) (change : ListM G Bool) : ListM G Bool := if cond then change else pure true

/-- `UpdateUniqueProperty`; `same` says whether the two values are equal under the `operator==` of their type. A null
value is neither deleted nor added. -/
def updateUniqueProperty (proTxHash : Uint256) (same : Bool) (oldValue newValue : Option UniqueProperty) :
    ListM G Bool := do
  if same then return true
  else
    let deleted ← onlyIf oldValue.isSome (deleteUniqueProperty crypto proTxHash oldValue)
    if deleted then onlyIf newValue.isSome (addUniqueProperty crypto proTxHash newValue)
    else return false

/-- Put the saved property map back and throw, unless a property could be changed. -/
def orRestore (mnUniquePropertyMapSaved : RefIndex Uint256 Uint256) (e : DmnException) (change : ListM G Bool) :
    ListM G Unit := do
  let ok ← change
  if ok then return ()
  else
    modify fun list => { list with mnUniquePropertyMap := mnUniquePropertyMapSaved }
    throw e

end

/-! ### Adding, updating and removing -/

variable (crypto : Crypto G)

/-- Write a masternode into the map of its tier. -/
def setTier (dmn : CDeterministicMN G) (list : CDeterministicMNList G) : CDeterministicMNList G :=
  if dmn.nType = .standardMasternode then { list with tierOne := list.tierOne.insert dmn.proTxHash dmn }
  else { list with tierTwo := list.tierTwo.insert dmn.proTxHash dmn }

/-- Erase a masternode from the map of its tier. -/
def eraseTier (nType : MnType) (proTxHash : Uint256) (list : CDeterministicMNList G) : CDeterministicMNList G :=
  if nType = .standardMasternode then { list with tierOne := list.tierOne.erase proTxHash }
  else { list with tierTwo := list.tierTwo.erase proTxHash }

/-- `max(internalId + 1, nTotalRegisteredCount)` in 64 bits, cut to the 32 bits of the counter. -/
def bumpTotalCount (internalId nTotalRegisteredCount : ℕ) : ℕ :=
  max ((internalId + 1) % 2 ^ 64) nTotalRegisteredCount % 2 ^ 32

/-- The end of `AddMN`, when every property was added. -/
def insertMN (dmn : CDeterministicMN G) (fBumpTotalCount : Bool) (list : CDeterministicMNList G) :
    CDeterministicMNList G :=
  let list := list.setTier dmn
  { list with
    mnMap := list.mnMap.insert dmn.proTxHash dmn
    mnInternalIdMap := list.mnInternalIdMap.insert dmn.internalId dmn.proTxHash
    nTotalRegisteredCount :=
      if fBumpTotalCount then bumpTotalCount dmn.internalId list.nTotalRegisteredCount else list.nTotalRegisteredCount }

def addMN (dmn : CDeterministicMN G) (fBumpTotalCount : Bool) : ListM G Unit := do
  let list ← get
  if list.mnMap.contains dmn.proTxHash then throw (.duplicateProTxHash dmn.proTxHash)
  else if list.mnInternalIdMap.contains dmn.internalId then throw (.duplicateInternalId dmn.internalId)
  else
    let saved := list.mnUniquePropertyMap
    let st := dmn.pdmnState
    orRestore saved (.property .addMN dmn.proTxHash .collateralOutpoint)
      (addUniqueProperty crypto dmn.proTxHash (collateralProperty dmn.collateralOutpoint))
    orRestore saved (.property .addMN dmn.proTxHash .address)
      (onlyIf (st.addr ≠ {}) (addUniqueProperty crypto dmn.proTxHash (addrProperty st.addr)))
    orRestore saved (.property .addMN dmn.proTxHash .keyIDOwner)
      (addUniqueProperty crypto dmn.proTxHash (ownerProperty st.keyIDOwner))
    orRestore saved (.property .addMN dmn.proTxHash .pubKeyOperator)
      (onlyIf st.pubKeyOperator.isValid
        (addUniqueProperty crypto dmn.proTxHash (operatorProperty crypto.bls st.pubKeyOperator)))
    modify (insertMN dmn fBumpTotalCount)

/-- `UpdateMN` of a masternode. The tier and the main map share the new masternode. -/
def updateMN [DecidableEq G] (oldDmn : CDeterministicMN G) (pdmnState : CDeterministicMNState G) : ListM G Unit := do
  let list ← get
  let saved := list.mnUniquePropertyMap
  let proTxHash := oldDmn.proTxHash
  let oldState := oldDmn.pdmnState
  orRestore saved (.property .updateMN proTxHash .address)
    (updateUniqueProperty crypto proTxHash (oldState.addr = pdmnState.addr)
      (addrProperty oldState.addr) (addrProperty pdmnState.addr))
  orRestore saved (.property .updateMN proTxHash .keyIDOwner)
    (updateUniqueProperty crypto proTxHash (oldState.keyIDOwner = pdmnState.keyIDOwner)
      (ownerProperty oldState.keyIDOwner) (ownerProperty pdmnState.keyIDOwner))
  orRestore saved (.property .updateMN proTxHash .pubKeyOperator)
    (updateUniqueProperty crypto proTxHash (oldState.pubKeyOperator.eq pdmnState.pubKeyOperator)
      (operatorProperty crypto.bls oldState.pubKeyOperator) (operatorProperty crypto.bls pdmnState.pubKeyOperator))
  let dmn := { oldDmn with pdmnState }
  modify fun list =>
    let list := list.setTier dmn
    { list with mnMap := list.mnMap.insert proTxHash dmn }

/-- `UpdateMN` of the masternode with a hash. -/
def updateMNByHash [DecidableEq G] (proTxHash : Uint256) (pdmnState : CDeterministicMNState G) : ListM G Unit := do
  let list ← get
  match list.getMN proTxHash with
  | none => throw (.notFound .updateMN proTxHash)
  | some oldDmn => updateMN crypto oldDmn pdmnState

/-- `UpdateMN` of a masternode by a difference. -/
def updateMNByDiff [DecidableEq G] (oldDmn : CDeterministicMN G) (stateDiff : CDeterministicMNStateDiff G) :
    ListM G Unit :=
  updateMN crypto oldDmn (stateDiff.applyToState oldDmn.pdmnState)

def removeMN (proTxHash : Uint256) : ListM G Unit := do
  let list ← get
  match list.getMN proTxHash with
  | none => throw (.notFound .removeMN proTxHash)
  | some dmn =>
    let saved := list.mnUniquePropertyMap
    let st := dmn.pdmnState
    orRestore saved (.property .removeMN proTxHash .collateralOutpoint)
      (deleteUniqueProperty crypto dmn.proTxHash (collateralProperty dmn.collateralOutpoint))
    orRestore saved (.property .removeMN proTxHash .address)
      (onlyIf (st.addr ≠ {}) (deleteUniqueProperty crypto dmn.proTxHash (addrProperty st.addr)))
    orRestore saved (.property .removeMN proTxHash .keyIDOwner)
      (deleteUniqueProperty crypto dmn.proTxHash (ownerProperty st.keyIDOwner))
    orRestore saved (.property .removeMN proTxHash .pubKeyOperator)
      (onlyIf st.pubKeyOperator.isValid
        (deleteUniqueProperty crypto dmn.proTxHash (operatorProperty crypto.bls st.pubKeyOperator)))
    modify fun list =>
      let list := list.eraseTier dmn.nType proTxHash
      { list with
        mnMap := list.mnMap.erase proTxHash
        mnInternalIdMap := list.mnInternalIdMap.erase dmn.internalId }

def punishedState (list : CDeterministicMNList G) (st : CDeterministicMNState G) (penalty : ℤ) :
    CDeterministicMNState G :=
  let maxPenalty := list.calcMaxPoSePenalty
  let newState := { st with nPoSePenalty := min maxPenalty (st.nPoSePenalty + penalty) }
  if newState.nPoSePenalty ≥ maxPenalty ∧ !newState.isBanned then newState.banIfNotBanned list.nHeight else newState

def poSePunish [DecidableEq G] (proTxHash : Uint256) (penalty : ℤ) : ListM G Unit := do
  let list ← get
  if penalty ≤ 0 then throw .assertion
  else match list.getMN proTxHash with
    | none => throw (.notFound .poSePunish proTxHash)
    | some dmn => updateMNByHash crypto proTxHash (list.punishedState dmn.pdmnState penalty)

def poSeDecrease [DecidableEq G] (proTxHash : Uint256) : ListM G Unit := do
  let list ← get
  match list.getMN proTxHash with
  | none => throw (.notFound .poSeDecrease proTxHash)
  | some dmn =>
    if dmn.pdmnState.nPoSePenalty > 0 ∧ !dmn.pdmnState.isBanned then
      updateMNByHash crypto proTxHash { dmn.pdmnState with nPoSePenalty := dmn.pdmnState.nPoSePenalty - 1 }
    else throw .assertion

end CDeterministicMNList

end Blocx
