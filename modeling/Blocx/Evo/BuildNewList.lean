import Blocx.Evo.SpecialTx
import Blocx.Validation.ContextualCheckBlock

/-!
# The masternode list of a new block

`CDeterministicMNManager::BuildNewListFromBlock` (`evo/deterministicmns.cpp`): from the list of the previous block, the
one of the new block. Registrations are confirmed and penalties are decreased, the special transactions are applied in
their order, masternodes whose collateral is spent are removed, and the payees of the block are marked.

A block that is refused ends the program with the reason, a method of the list that throws ends it with its exception.
The loops over the masternodes of a list run in the order of their hashes; the source runs them in an order of its hash
table, which makes no difference, because each turn changes the masternode of that turn only.
-/

namespace Blocx

open CDeterministicMNList

variable {G : Type} [DecidableEq G]

/-! ### New states -/

section

variable (nHeight : ℤ)

/-- The state of a registration in a block. Without an address it starts banned. -/
def CDeterministicMNState.register (proTx : CProRegTx G) : CDeterministicMNState G :=
  let dmnState := { CDeterministicMNState.ofProRegTx proTx with nRegisteredHeight := nHeight }
  if proTx.addr = {} then dmnState.banIfNotBanned nHeight else dmnState

def CDeterministicMNState.updateService (proTx : CProUpServTx) (st : CDeterministicMNState G) :
    CDeterministicMNState G :=
  let newState := { st with addr := proTx.addr, scriptOperatorPayout := proTx.scriptOperatorPayout }
  if newState.isBanned ∧ newState.pubKeyOperator.isValid ∧ newState.keyIDVoting ≠ 0 ∧ newState.keyIDOwner ≠ 0 then
    newState.revive nHeight
  else newState

def CDeterministicMNState.updateRegistrar (proTx : CProUpRegTx G) (st : CDeterministicMNState G) :
    CDeterministicMNState G :=
  let newState :=
    if st.pubKeyOperator.eq proTx.pubKeyOperator then st
    else { st.resetOperatorFields.banIfNotBanned nHeight with
      nVersion := proTx.nVersion.toNat
      pubKeyOperator := proTx.pubKeyOperator }
  { newState with keyIDVoting := proTx.keyIDVoting, scriptPayout := proTx.scriptPayout }

/-- The new state of a revocation. -/
def CDeterministicMNState.revoke (proTx : CProUpRevTx) (st : CDeterministicMNState G) : CDeterministicMNState G :=
  { st.resetOperatorFields.banIfNotBanned nHeight with nRevocationReason := proTx.nReason }

end

/-! ### The steps -/

/-- `_state.Invalid`. -/
def invalidBlock (reason : String) : ListM G Unit := throw (.invalid reason)

variable (rules : EvoRules G) (pindexPrev : CBlockIndex) (view : CCoinsView)

/-- The second tier is active in the block after another. -/
def isMnTierForkActivated : Bool := rules.params.MNTierForkHeight ≤ pindexPrev.nHeight + 1

def confirmMNs (oldList : CDeterministicMNList G) : ListM G Unit :=
  (mns oldList.mnMap).forM fun dmn =>
    if dmn.pdmnState.confirmedHash = 0 ∧
        pindexPrev.nHeight - dmn.pdmnState.nRegisteredHeight ≥ rules.params.nMasternodeMinimumConfirmations then
      updateMNByHash rules.crypto dmn.proTxHash (dmn.pdmnState.updateConfirmedHash rules.crypto.sha256 dmn.proTxHash
        (rules.getBlockHash pindexPrev.header))
    else pure ()

def decreasePoSePenalties : ListM G Unit := do
  let list ← get
  let toDecrease := (mns list.mnMap).filter fun dmn => isMNValid dmn && dmn.pdmnState.nPoSePenalty > 0
  (toDecrease.map (·.proTxHash)).forM (poSeDecrease rules.crypto)

/-- Remove the masternode with a collateral that a new registration takes over. -/
def removeReplaced (collateralOutpoint : COutPoint) : ListM G Unit := do
  let list ← get
  match list.getMNByCollateral rules.crypto collateralOutpoint with
  | some replacedDmn => removeMN rules.crypto replacedDmn.proTxHash
  | none => pure ()

/-- Add a registration whose address and keys are not in use. -/
def addRegistered (proTx : CProRegTx G) (dmn : CDeterministicMN G) : ListM G Unit := do
  let list ← get
  if list.hasUniqueProperty rules.crypto (.addr proTx.addr) then invalidBlock "bad-protx-dup-addr"
  else if list.hasUniqueProperty rules.crypto (.keyID proTx.keyIDOwner) ||
      list.hasUniqueProperty rules.crypto (keyProperty rules.crypto.bls proTx.pubKeyOperator) then
    invalidBlock "bad-protx-dup-key"
  else addMN rules.crypto dmn true

/-- The masternode of a registration. -/
def registeredMN (nHeight : ℤ) (internalId : ℕ) (tx : CTransaction) (proTx : CProRegTx G) : CDeterministicMN G where
  proTxHash := tx.hash
  internalId := internalId
  collateralOutpoint := proTx.collateral tx
  nOperatorReward := proTx.nOperatorReward
  nType := proTx.nType
  pdmnState := CDeterministicMNState.register nHeight proTx

/-- The external collateral of a registration has the amount it needs. -/
def hasCollateral (tx : CTransaction) (proTx : CProRegTx G) : Bool :=
  proTx.collateralOutpoint.hash = 0 || (view (proTx.collateral tx)).any fun out => out.nValue = proTx.nType.collatAmount

/-- A `TRANSACTION_PROVIDER_REGISTER`. -/
def registerMN (tx : CTransaction) : ListM G Unit := do
  match getProRegTx rules tx with
  | none => invalidBlock "bad-protx-payload"
  | some proTx =>
    if proTx.nType = .lite ∧ !isMnTierForkActivated rules pindexPrev then invalidBlock "bad-protx-payload"
    else if !hasCollateral view tx proTx then invalidBlock "bad-protx-collateral"
    else do
      let list ← get
      let dmn := registeredMN (pindexPrev.nHeight + 1) list.nTotalRegisteredCount tx proTx
      removeReplaced rules dmn.collateralOutpoint
      addRegistered rules proTx dmn

/-- A `TRANSACTION_PROVIDER_UPDATE_SERVICE`. -/
def updateServiceMN (tx : CTransaction) : ListM G Unit := do
  match getProUpServTx rules tx with
  | none => invalidBlock "bad-protx-payload"
  | some proTx =>
    if proTx.nType = .lite ∧ !isMnTierForkActivated rules pindexPrev then invalidBlock "bad-protx-payload"
    else do
      let list ← get
      if list.takenByOther rules (.addr proTx.addr) (·.proTxHash = proTx.proTxHash) then
        invalidBlock "bad-protx-dup-addr"
      else match list.getMN proTx.proTxHash with
        | none => invalidBlock "bad-protx-hash"
        | some dmn =>
          if !dmn.nType.isValid then invalidBlock "bad-protx-type"
          else updateMNByHash rules.crypto proTx.proTxHash (dmn.pdmnState.updateService (pindexPrev.nHeight + 1) proTx)

/-- A `TRANSACTION_PROVIDER_UPDATE_REGISTRAR`. -/
def updateRegistrarMN (tx : CTransaction) : ListM G Unit := do
  match getProUpRegTx rules tx with
  | none => invalidBlock "bad-protx-payload"
  | some proTx =>
    let list ← get
    match list.getMN proTx.proTxHash with
    | none => invalidBlock "bad-protx-hash"
    | some dmn =>
      updateMNByHash rules.crypto proTx.proTxHash (dmn.pdmnState.updateRegistrar (pindexPrev.nHeight + 1) proTx)

/-- A `TRANSACTION_PROVIDER_UPDATE_REVOKE`. -/
def revokeMN (tx : CTransaction) : ListM G Unit := do
  match getProUpRevTx rules tx with
  | none => invalidBlock "bad-protx-payload"
  | some proTx =>
    let list ← get
    match list.getMN proTx.proTxHash with
    | none => invalidBlock "bad-protx-hash"
    | some dmn => updateMNByHash rules.crypto proTx.proTxHash (dmn.pdmnState.revoke (pindexPrev.nHeight + 1) proTx)

/-- `HandleQuorumCommitment`: members that did not take part are punished. -/
def handleQuorumCommitment (qc : CFinalCommitment) (pQuorumBaseBlockIndex : CBlockIndex) : ListM G Unit :=
  (rules.getAllQuorumMembers qc.llmqType pQuorumBaseBlockIndex).zipIdx.forM fun (proTxHash, i) => do
    let list ← get
    if list.hasMN proTxHash then
      match qc.validMembers[i]? with
      | some true => pure ()
      | some false => poSePunish rules.crypto proTxHash (list.calcPenalty 66)
      | none => throw .outOfRange
    else pure ()

/-- A `TRANSACTION_QUORUM_COMMITMENT`. -/
def applyCommitment (tx : CTransaction) : ListM G Unit :=
  match getTxPayload .quorumCommitment (CFinalCommitmentTxPayload.unserialize rules.crypto.bls) tx with
  | none => invalidBlock "bad-qc-payload"
  | some qc =>
    if qc.commitment.isNull then pure ()
    else match rules.params.getLLMQ qc.commitment.llmqType with
      | none => invalidBlock "bad-qc-commitment-type"
      | some llmqParams =>
        let qcnHeight := qc.nHeight.toInt
        let quorumHeight := qcnHeight - qcnHeight.tmod llmqParams.dkgInterval + qc.commitment.quorumIndex.toInt
        match pindexPrev.getAncestor quorumHeight with
        | none => invalidBlock "bad-qc-quorum-hash"
        | some pQuorumBaseBlockIndex =>
          if rules.getBlockHash pQuorumBaseBlockIndex.header ≠ qc.commitment.quorumHash then
            invalidBlock "bad-qc-quorum-hash"
          else handleQuorumCommitment rules qc.commitment pQuorumBaseBlockIndex

/-- A turn of the loop over the transactions. -/
def applySpecialTx (tx : CTransaction) : ListM G Unit :=
  if tx.nVersion ≠ 3 then pure ()
  else match tx.nType with
    | .providerRegister => registerMN rules pindexPrev view tx
    | .providerUpdateService => updateServiceMN rules pindexPrev tx
    | .providerUpdateRegistrar => updateRegistrarMN rules pindexPrev tx
    | .providerUpdateRevoke => revokeMN rules pindexPrev tx
    | .quorumCommitment => applyCommitment rules pindexPrev tx
    | _ => pure ()

/-- A turn of the loop over the inputs: a masternode whose collateral is spent is removed. -/
def removeSpent (prevout : COutPoint) : ListM G Unit := do
  let list ← get
  match list.getMNByCollateral rules.crypto prevout with
  | some dmn => if dmn.collateralOutpoint = prevout then removeMN rules.crypto dmn.proTxHash else pure ()
  | none => pure ()

/-- Mark a payee that is still listed. -/
def markPaid (nHeight : ℤ) : Option (CDeterministicMN G) → ListM G Unit
  | none => pure ()
  | some payee => do
    let list ← get
    match list.getMN payee.proTxHash with
    | none => pure ()
    | some dmn => updateMNByHash rules.crypto payee.proTxHash { dmn.pdmnState with nLastPaidHeight := nHeight }

/-- `BuildNewListFromBlock`, started in the list of the previous block. -/
def buildNewListFromBlock (block : CBlock) : ListM G Unit := do
  let oldList ← get
  modify fun list => { list with blockHash := 0, nHeight := pindexPrev.nHeight + 1 }
  confirmMNs rules pindexPrev oldList
  decreasePoSePenalties rules
  (block.vtx.drop 1).forM (applySpecialTx rules pindexPrev view)
  ((block.vtx.drop 1).flatMap fun tx => tx.vin.map (·.prevout)).forM (removeSpent rules)
  markPaid rules (pindexPrev.nHeight + 1) (oldList.getMNPayee false .standardMasternode)
  markPaid rules (pindexPrev.nHeight + 1)
    (if isMnTierForkActivated rules pindexPrev then oldList.getMNPayee false .lite else none)

end Blocx
