import Blocx.Chain.BlockIndex
import Blocx.Evo.DmnList
import Blocx.Llmq.Commitment

/-!
# The checks of special transactions

`CheckSpecialTx` (`evo/specialtxman.cpp`) and the checks of the four provider transactions
(`evo/deterministicmns.cpp`), against the masternode list of the previous block. A check ends with the reject reason of
the source; the kind of the rejection is left out.

Signatures, the other special transactions and the state of version 19 come from outside the model, as functions of what
they read. The previous block is always given, as it is when a block is connected. Where the source follows the pointer
of `GetUniquePropertyMN`, which is null only when a list has a property of a masternode it does not have, the check
fails here.
-/

namespace Blocx

open Wire

/-- The unspent outputs: `GetCoin` finds a coin that is not spent. -/
abbrev CCoinsView : Type := COutPoint → Option CTxOut

/-- What the masternode rules take from outside the model. -/
structure EvoRules (G : Type) where
  params : Consensus.Params
  crypto : Crypto G
  /-- RIPEMD-160 of SHA-256. -/
  hash160 : List UInt8 → BitVec 160
  /-- Double SHA-256, `CHashWriter::GetHash`. -/
  hash256 : List UInt8 → Uint256
  getBlockHash : CBlockHeader → Uint256
  /-- `IsV19Active` after a block. -/
  isV19Active : CBlockIndex → Bool
  isMain : Bool
  requireRoutableExternalIP : Bool
  fAllowPrivateNet : Bool
  /-- `CheckStringSig` of a registration under the key of the collateral. -/
  checkStringSig : CProRegTx G → CKeyID → Bool
  /-- `CheckHashSig` of a service update under the operator key. -/
  checkServSig : CProUpServTx → CBLSLazyPublicKey G → Bool
  /-- `CheckHashSig` of a registrar update under the owner key. -/
  checkRegSig : CProUpRegTx G → CKeyID → Bool
  /-- `CheckHashSig` of a revocation under the operator key. -/
  checkRevSig : CProUpRevTx → CBLSLazyPublicKey G → Bool
  checkCbTx : CTransaction → CBlockIndex → Except String Unit
  checkLLMQCommitment : CTransaction → CBlockIndex → Except String Unit
  /-- `CheckMNHFTx`, with the test of its deployment. -/
  checkMNHFTx : CTransaction → CBlockIndex → Except String Unit
  getAllQuorumMembers : Consensus.LLMQType → CBlockIndex → List Uint256

/-- The default port of the main network. -/
def mainnetDefaultPort : ℕ := 12972

variable {G : Type} (rules : EvoRules G)

def calcTxInputsHash (tx : CTransaction) : Uint256 :=
  rules.hash256 (tx.vin.flatMap fun txin => txin.prevout.serialize)

def isDIP3Enforced (nHeight : ℤ) : Bool := nHeight ≥ rules.params.DIP0003EnforcementHeight

/-- The collateral of a registration: an output of the transaction itself, or another one. -/
def CProRegTx.collateral (tx : CTransaction) (ptx : CProRegTx G) : COutPoint :=
  if ptx.collateralOutpoint.hash = 0 then ⟨tx.hash, ptx.collateralOutpoint.n⟩ else ptx.collateralOutpoint

/-- The property of an operator key as `SerializeHash` sees it. -/
def keyProperty (bls : Bls G) (key : CBLSLazyPublicKey G) : UniqueProperty := .pubKey (key.toBytes bls key.isLegacy)

/-- A property is taken by a masternode other than the one meant: `HasUniqueProperty(v)` and
`GetUniquePropertyMN(v)` is another one. -/
def CDeterministicMNList.takenByOther (list : CDeterministicMNList G) (v : UniqueProperty)
    (own : CDeterministicMN G → Bool) : Bool :=
  list.hasUniqueProperty rules.crypto v && !(list.getUniquePropertyMN rules.crypto v).any own

def checkService (addr : CService) : Except String Unit := do
  require addr.isValid "bad-protx-ipaddr"
  require (!rules.requireRoutableExternalIP || addr.isRoutable rules.fAllowPrivateNet) "bad-protx-ipaddr"
  require (if rules.isMain then addr.port.toNat = mainnetDefaultPort else addr.port.toNat ≠ mainnetDefaultPort)
    "bad-protx-ipaddr-port"
  require (addr.isIPv4 || addr.isIPv6) "bad-protx-ipaddr"

/-- The part of `CheckProRegTx` about the collateral: its destination, and the key that must sign when it is not an
output of the transaction itself. -/
def checkCollateral (view : CCoinsView) (tx : CTransaction) (ptx : CProRegTx G) :
    Except String (CTxDestination × Option CKeyID) :=
  let expectedCollateral := ptx.nType.collatAmount
  if ptx.collateralOutpoint.hash ≠ 0 then do
    let out ← getOr (view ptx.collateralOutpoint) "bad-protx-collateral"
    require (out.nValue = expectedCollateral) "bad-protx-collateral"
    let collateralTxDest ← getOr (extractDestination rules.hash160 out.scriptPubKey) "bad-protx-collateral-dest"
    match collateralTxDest with
    | .pkHash key => .ok (.pkHash key, some key)
    | .scriptHash _ => .error "bad-protx-collateral-pkh"
  else do
    let out ← getOr tx.vout[ptx.collateralOutpoint.n.toNat]? "bad-protx-collateral-index"
    require (out.nValue = expectedCollateral) "bad-protx-collateral"
    let collateralTxDest ← getOr (extractDestination rules.hash160 out.scriptPubKey) "bad-protx-collateral-dest"
    .ok (collateralTxDest, none)

/-- The signature of a registration, or its absence when the collateral is its own. -/
def checkProRegSig (checkSigs : Bool) (ptx : CProRegTx G) : Option CKeyID → Except String Unit
  | some keyForPayloadSig => require (!checkSigs || rules.checkStringSig ptx keyForPayloadSig) "bad-protx-sig"
  | none => require ptx.vchSig.isEmpty "bad-protx-sig"

section Checks

variable (pindexPrev : CBlockIndex) (mnList : CDeterministicMNList G) (view : CCoinsView) (checkSigs : Bool)
  (tx : CTransaction)

def getProRegTx : Option (CProRegTx G) := getTxPayload .providerRegister (CProRegTx.unserialize rules.crypto.bls) tx

def getProUpServTx : Option CProUpServTx :=
  getTxPayload .providerUpdateService (CProUpServTx.unserialize rules.crypto.bls) tx

def getProUpRegTx : Option (CProUpRegTx G) :=
  getTxPayload .providerUpdateRegistrar (CProUpRegTx.unserialize rules.crypto.bls) tx

/-- The payload of a revocation. -/
def getProUpRevTx : Option CProUpRevTx :=
  getTxPayload .providerUpdateRevoke (CProUpRevTx.unserialize rules.crypto.bls) tx

def checkProRegTx : Except String Unit := do
  require (tx.nType = .providerRegister) "bad-protx-type"
  let ptx ← getOr (getProRegTx rules tx) "bad-protx-payload"
  ptx.isTriviallyValid rules.hash160 (rules.isV19Active pindexPrev)
  onlyWhen (ptx.addr ≠ {}) (checkService rules ptx.addr)
  let (collateralTxDest, keyForPayloadSig) ← checkCollateral rules view tx ptx
  require (!(collateralTxDest = .pkHash ptx.keyIDOwner || collateralTxDest = .pkHash ptx.keyIDVoting))
    "bad-protx-collateral-reuse"
  require (!mnList.takenByOther rules (.addr ptx.addr) (·.collateralOutpoint = ptx.collateral tx)) "bad-protx-dup-addr"
  require (!(mnList.hasUniqueProperty rules.crypto (.keyID ptx.keyIDOwner) ||
    mnList.hasUniqueProperty rules.crypto (keyProperty rules.crypto.bls ptx.pubKeyOperator))) "bad-protx-dup-key"
  require (isDIP3Enforced rules pindexPrev.nHeight || ptx.keyIDOwner = ptx.keyIDVoting) "bad-protx-key-not-same"
  require (calcTxInputsHash rules tx = ptx.inputsHash) "bad-protx-inputs-hash"
  checkProRegSig rules checkSigs ptx keyForPayloadSig

def checkProUpServTx : Except String Unit := do
  require (tx.nType = .providerUpdateService) "bad-protx-type"
  let ptx ← getOr (getProUpServTx rules tx) "bad-protx-payload"
  ptx.isTriviallyValid (rules.isV19Active pindexPrev)
  checkService rules ptx.addr
  let mn ← getOr (mnList.getMN ptx.proTxHash) "bad-protx-hash"
  require (!mnList.takenByOther rules (.addr ptx.addr) (·.proTxHash = ptx.proTxHash)) "bad-protx-dup-addr"
  onlyWhen (ptx.scriptOperatorPayout ≠ []) do
    require (mn.nOperatorReward ≠ 0) "bad-protx-operator-payee"
    require (isPayout ptx.scriptOperatorPayout) "bad-protx-operator-payee"
  require (calcTxInputsHash rules tx = ptx.inputsHash) "bad-protx-inputs-hash"
  require (!checkSigs || rules.checkServSig ptx mn.pdmnState.pubKeyOperator) "bad-protx-sig"

def checkProUpRegTx : Except String Unit := do
  require (tx.nType = .providerUpdateRegistrar) "bad-protx-type"
  let ptx ← getOr (getProUpRegTx rules tx) "bad-protx-payload"
  ptx.isTriviallyValid (rules.isV19Active pindexPrev)
  let payoutDest ← getOr (extractDestination rules.hash160 ptx.scriptPayout) "bad-protx-payee-dest"
  let dmn ← getOr (mnList.getMN ptx.proTxHash) "bad-protx-hash"
  require (!(payoutDest = .pkHash dmn.pdmnState.keyIDOwner || payoutDest = .pkHash ptx.keyIDVoting))
    "bad-protx-payee-reuse"
  let coin ← getOr (view dmn.collateralOutpoint) "bad-protx-collateral"
  let collateralTxDest ← getOr (extractDestination rules.hash160 coin.scriptPubKey) "bad-protx-collateral-dest"
  require (!(collateralTxDest = .pkHash dmn.pdmnState.keyIDOwner || collateralTxDest = .pkHash ptx.keyIDVoting))
    "bad-protx-collateral-reuse"
  require (!mnList.takenByOther rules (keyProperty rules.crypto.bls ptx.pubKeyOperator) (·.proTxHash = ptx.proTxHash))
    "bad-protx-dup-key"
  require (isDIP3Enforced rules pindexPrev.nHeight || dmn.pdmnState.keyIDOwner = ptx.keyIDVoting)
    "bad-protx-key-not-same"
  require (calcTxInputsHash rules tx = ptx.inputsHash) "bad-protx-inputs-hash"
  require (!checkSigs || rules.checkRegSig ptx dmn.pdmnState.keyIDOwner) "bad-protx-sig"

def checkProUpRevTx : Except String Unit := do
  require (tx.nType = .providerUpdateRevoke) "bad-protx-type"
  let ptx ← getOr (getProUpRevTx rules tx) "bad-protx-payload"
  ptx.isTriviallyValid (rules.isV19Active pindexPrev)
  let dmn ← getOr (mnList.getMN ptx.proTxHash) "bad-protx-hash"
  require (calcTxInputsHash rules tx = ptx.inputsHash) "bad-protx-inputs-hash"
  require (!checkSigs || rules.checkRevSig ptx dmn.pdmnState.pubKeyOperator) "bad-protx-sig"

def checkSpecialTx : Except String Unit :=
  if tx.nVersion ≠ 3 ∨ tx.nType = .normal then .ok ()
  else if pindexPrev.nHeight + 1 < rules.params.DIP0003Height then .error "bad-tx-type"
  else match tx.nType with
    | .providerRegister => checkProRegTx rules pindexPrev mnList view checkSigs tx
    | .providerUpdateService => checkProUpServTx rules pindexPrev mnList checkSigs tx
    | .providerUpdateRegistrar => checkProUpRegTx rules pindexPrev mnList view checkSigs tx
    | .providerUpdateRevoke => checkProUpRevTx rules pindexPrev mnList checkSigs tx
    | .coinbase => rules.checkCbTx tx pindexPrev
    | .quorumCommitment => rules.checkLLMQCommitment tx pindexPrev
    | .mnhfSignal => rules.checkMNHFTx tx pindexPrev
    | _ => .error "bad-tx-type-check"

end Checks

/-! ### What a passed check says -/

variable {rules : EvoRules G} {pindexPrev : CBlockIndex} {mnList : CDeterministicMNList G} {view : CCoinsView}
  {checkSigs : Bool} {tx : CTransaction}

/-- What a registration that passed the checks satisfies. -/
structure ProRegChecked (rules : EvoRules G) (mnList : CDeterministicMNList G) (tx : CTransaction)
    (ptx : CProRegTx G) : Prop where
  payload : getProRegTx rules tx = some ptx
  nType : ptx.nType.isValid
  keyIDOwner : ptx.keyIDOwner ≠ 0
  keyIDVoting : ptx.keyIDVoting ≠ 0
  pubKeyOperator : ptx.pubKeyOperator.isValid
  encoding : ptx.pubKeyOperator.isLegacy = isLegacyVersion ptx.nVersion
  scriptPayout : ptx.scriptPayout.length ≤ 25
  addr : mnList.takenByOther rules (.addr ptx.addr) (·.collateralOutpoint = ptx.collateral tx) = false
  ownerKey : mnList.hasUniqueProperty rules.crypto (.keyID ptx.keyIDOwner) = false
  operatorKey : mnList.hasUniqueProperty rules.crypto (keyProperty rules.crypto.bls ptx.pubKeyOperator) = false

lemma checkProRegTx_ok {ptx : CProRegTx G} (hptx : getProRegTx rules tx = some ptx)
    (h : checkProRegTx rules pindexPrev mnList view checkSigs tx = .ok ()) : ProRegChecked rules mnList tx ptx := by
  simp only [checkProRegTx, CProRegTx.isTriviallyValid, except_bind_eq_ok, require_eq_ok, getOr_eq_ok, exists_const,
    Bool.not_eq_true', Bool.or_eq_false_iff, decide_eq_true_eq, decide_eq_false_iff_not, Bool.not_eq_false'] at h
  obtain ⟨_, _, hpayload, ⟨_, hType, _, ⟨⟨howner, hoper⟩, hvoting⟩, henc, hscript, _⟩, _, _, _, _, _, haddr,
    ⟨hownerKey, hoperKey⟩, _⟩ := h
  rw [hptx] at hpayload
  cases hpayload
  exact ⟨hptx, hType, howner, hvoting, hoper, henc, length_le_of_isPayout hscript, haddr, hownerKey, hoperKey⟩

lemma checkService_ok {addr : CService} (h : checkService rules addr = .ok ()) : addr ≠ {} := by
  rintro rfl
  simp only [checkService, except_bind_eq_ok, require_eq_ok, exists_const] at h
  exact absurd h.1 (by decide)

/-- What a service update that passed the checks satisfies. -/
structure ProUpServChecked (rules : EvoRules G) (mnList : CDeterministicMNList G) (checkSigs : Bool)
    (ptx : CProUpServTx) : Prop where
  service : ptx.addr ≠ {}
  addr : mnList.takenByOther rules (.addr ptx.addr) (·.proTxHash = ptx.proTxHash) = false
  scriptOperatorPayout : ptx.scriptOperatorPayout.length ≤ 25
  signed : checkSigs → ∃ dmn, mnList.getMN ptx.proTxHash = some dmn ∧
    rules.checkServSig ptx dmn.pdmnState.pubKeyOperator

lemma checkProUpServTx_ok {ptx : CProUpServTx} (hptx : getProUpServTx rules tx = some ptx)
    (h : checkProUpServTx rules pindexPrev mnList checkSigs tx = .ok ()) :
      ProUpServChecked rules mnList checkSigs ptx := by
  simp only [checkProUpServTx, except_bind_eq_ok, require_eq_ok, getOr_eq_ok, exists_const, onlyWhen_eq_ok,
    Bool.not_eq_true', Bool.or_eq_true, decide_eq_true_eq] at h
  obtain ⟨_, _, hpayload, _, _, _, hservice, mn, hmn, haddr, hscript, _, hsig⟩ := h
  rw [hptx] at hpayload
  cases hpayload
  refine ⟨checkService_ok hservice, haddr, ?_, fun hsigs => ⟨mn, hmn, hsig.resolve_left (by simp [hsigs])⟩⟩
  by_cases hempty : ptx.scriptOperatorPayout = []
  · rw [hempty]
    exact Nat.zero_le 25
  · exact length_le_of_isPayout (hscript hempty).2

/-- What a registrar update that passed the checks satisfies. -/
structure ProUpRegChecked (rules : EvoRules G) (mnList : CDeterministicMNList G) (ptx : CProUpRegTx G) : Prop where
  pubKeyOperator : ptx.pubKeyOperator.isValid
  keyIDVoting : ptx.keyIDVoting ≠ 0
  encoding : ptx.pubKeyOperator.isLegacy = isLegacyVersion ptx.nVersion
  scriptPayout : ptx.scriptPayout.length ≤ 25
  operatorKey : mnList.takenByOther rules (keyProperty rules.crypto.bls ptx.pubKeyOperator)
    (·.proTxHash = ptx.proTxHash) = false

lemma checkProUpRegTx_ok {ptx : CProUpRegTx G} (hptx : getProUpRegTx rules tx = some ptx)
    (h : checkProUpRegTx rules pindexPrev mnList view checkSigs tx = .ok ()) : ProUpRegChecked rules mnList ptx := by
  simp only [checkProUpRegTx, CProUpRegTx.isTriviallyValid, except_bind_eq_ok, require_eq_ok, getOr_eq_ok, exists_const,
    Bool.not_eq_true', Bool.or_eq_false_iff, decide_eq_true_eq, decide_eq_false_iff_not, Bool.not_eq_false'] at h
  obtain ⟨_, _, hpayload, ⟨_, _, ⟨hoper, hvoting⟩, henc, hscript⟩, _, _, _, _, _, _, _, _, _, _, hkey, _⟩ := h
  rw [hptx] at hpayload
  cases hpayload
  exact ⟨hoper, hvoting, henc, length_le_of_isPayout hscript, hkey⟩

lemma checkProUpRevTx_ok {ptx : CProUpRevTx} (hptx : getProUpRevTx rules tx = some ptx)
    (h : checkProUpRevTx rules pindexPrev mnList checkSigs tx = .ok ()) (hsigs : checkSigs) :
    ∃ dmn, mnList.getMN ptx.proTxHash = some dmn ∧ rules.checkRevSig ptx dmn.pdmnState.pubKeyOperator := by
  simp only [checkProUpRevTx, except_bind_eq_ok, require_eq_ok, getOr_eq_ok, exists_const, hsigs, Bool.not_true,
    Bool.false_or] at h
  obtain ⟨_, _, hpayload, _, _, dmn, hdmn, _, hsig⟩ := h
  rw [hptx] at hpayload
  cases hpayload
  exact ⟨dmn, hdmn, hsig⟩

/-- The provider transactions of a checked block passed their own checks. -/
lemma checkSpecialTx_ok (h : checkSpecialTx rules pindexPrev mnList view checkSigs tx = .ok ())
    (hversion : tx.nVersion = 3) :
    (tx.nType = .providerRegister → checkProRegTx rules pindexPrev mnList view checkSigs tx = .ok ()) ∧
    (tx.nType = .providerUpdateService → checkProUpServTx rules pindexPrev mnList checkSigs tx = .ok ()) ∧
    (tx.nType = .providerUpdateRegistrar → checkProUpRegTx rules pindexPrev mnList view checkSigs tx = .ok ()) ∧
    (tx.nType = .providerUpdateRevoke → checkProUpRevTx rules pindexPrev mnList checkSigs tx = .ok ()) := by
  unfold checkSpecialTx at h
  refine ⟨fun ht => ?_, fun ht => ?_, fun ht => ?_, fun ht => ?_⟩ <;>
    · rw [if_neg (by simp [hversion, ht])] at h
      split_ifs at h
      rw [ht] at h
      exact h

end Blocx
