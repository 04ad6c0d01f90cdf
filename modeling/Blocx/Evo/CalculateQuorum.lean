import Blocx.Evo.DmnListInvariant

/-!
# The masternodes of a list by score

`CDeterministicMNList::CalculateScores` and `CalculateQuorum` (`evo/deterministicmns.cpp`): the confirmed masternodes of
a list that are not banned, by descending score. The score is the SHA-256 of the confirmed hash of the registration and
a modifier; masternodes with one score, which only a collision gives, are ordered by their collaterals.

A list with its invariant has one masternode for each collateral, so the order is determined by the scores and
collaterals (`rankKey`), whatever objects stand for the masternodes: two lists of masternodes with the same keys are
sorted alike (`calculateQuorum_map_eq`).
-/

namespace Blocx

open List

variable {G : Type}

namespace CDeterministicMNList

section Scores

variable (crypto : Crypto G) (list : CDeterministicMNList G)

def getValidMNsCount : ℕ := (mns list.mnMap).countP isMNValid

def isMNPoSeBanned (proTxHash : Uint256) : Bool :=
  match list.getMN proTxHash with
  | none => false
  | some dmn => dmn.pdmnState.isBanned

/-- `COutPoint::operator<`. -/
def outPointLess (a b : COutPoint) : Bool := uint256Less a.hash b.hash || (a.hash = b.hash && a.n < b.n)

def score (modifier : Uint256) (dmn : CDeterministicMN G) : Uint256 :=
  crypto.sha256 dmn.pdmnState.confirmedHashWithProRegTxHash modifier

/-- Whether a masternode has a score: it is confirmed and, where only those are asked for, of the second tier. -/
def hasScore (onlyHighPerformanceMasternodes : Bool) (dmn : CDeterministicMN G) : Bool :=
  dmn.pdmnState.confirmedHash ≠ 0 && (!onlyHighPerformanceMasternodes || dmn.nType = .lite)

def calculateScores (modifier : Uint256) (onlyHighPerformanceMasternodes : Bool) :
    List (Uint256 × CDeterministicMN G) :=
  (((mns list.mnMap).filter isMNValid).filter (hasScore onlyHighPerformanceMasternodes)).map
    fun dmn => (score crypto modifier dmn, dmn)

/-- The comparison of scores: collaterals decide between equal scores. -/
def scoreLess (a b : Uint256 × COutPoint) : Bool := if a.1 = b.1 then outPointLess a.2 b.2 else a.1 < b.1

def calculateQuorum (maxSize : ℕ) (modifier : Uint256) (onlyHighPerformanceMasternodes : Bool := false) :
    List (CDeterministicMN G) :=
  let scores := ranked scoreLess (fun entry => (entry.1, entry.2.collateralOutpoint))
    (list.calculateScores crypto modifier onlyHighPerformanceMasternodes)
  (scores.map Prod.snd).take maxSize

end Scores

/-! ### The order -/

lemma strictTotal_bitVecLess (w : ℕ) : StrictTotal fun a b : BitVec w => decide (a < b) where
  irrefl a := decide_eq_false (BitVec.lt_irrefl a)
  trans _ _ _ hab hbc := decide_eq_true (BitVec.lt_trans (of_decide_eq_true hab) (of_decide_eq_true hbc))
  connected _ _ hab hba :=
    BitVec.le_antisymm (BitVec.not_lt.mp (of_decide_eq_false hba)) (BitVec.not_lt.mp (of_decide_eq_false hab))

lemma outPointLess_eq {a : COutPoint} (b : COutPoint) :
    outPointLess a b = lexLess uint256Less (fun a b : BitVec 32 => decide (a < b)) (a.hash, a.n) (b.hash, b.n) := by
  unfold outPointLess lexLess
  by_cases h : a.hash = b.hash
  · rw [if_pos h, h, strictTotal_uint256Less.irrefl]
    simp
  · rw [if_neg h, decide_eq_false h, Bool.false_and, Bool.or_false]

lemma strictTotal_outPointLess : StrictTotal outPointLess := by
  have h := strictTotal_uint256Less.lex (strictTotal_bitVecLess 32)
  refine ⟨fun a => ?_, fun a b c hab hbc => ?_, fun a b hab hba => ?_⟩
  · rw [outPointLess_eq]
    exact h.irrefl _
  · rw [outPointLess_eq] at hab hbc ⊢
    exact h.trans _ _ _ hab hbc
  · rw [outPointLess_eq] at hab hba
    obtain ⟨hhash, hn⟩ := Prod.mk.inj (h.connected _ _ hab hba)
    cases a
    cases b
    cases hhash
    cases hn
    rfl

lemma strictTotal_scoreLess : StrictTotal scoreLess :=
  (strictTotal_bitVecLess 256).lex strictTotal_outPointLess

/-! ### What is sorted -/

variable {crypto : Crypto G} {list : CDeterministicMNList G} {modifier : Uint256} {dmn : CDeterministicMN G}

/-- What a masternode is sorted by. -/
def rankKey (crypto : Crypto G) (modifier : Uint256) (dmn : CDeterministicMN G) : Uint256 × COutPoint :=
  (score crypto modifier dmn, dmn.collateralOutpoint)

/-- The masternodes that can be members of a quorum. -/
def Eligible (dmn : CDeterministicMN G) : Prop := isMNValid dmn = true ∧ dmn.pdmnState.confirmedHash ≠ 0

instance (dmn : CDeterministicMN G) : Decidable (Eligible dmn) := inferInstanceAs (Decidable (_ ∧ _))

/-- The eligible masternodes of a list. -/
def eligible (list : CDeterministicMNList G) : List (CDeterministicMN G) :=
  (mns list.mnMap).filter fun dmn => Eligible dmn

lemma calculateScores_eq :
    list.calculateScores crypto modifier false = list.eligible.map fun dmn => (score crypto modifier dmn, dmn) := by
  unfold calculateScores eligible
  rw [filter_filter]
  congr 2
  funext dmn
  simp [hasScore, Eligible, and_comm]

variable (crypto list modifier) in
lemma calculateQuorum_eq : list.calculateQuorum crypto list.getAllMNsCount modifier =
      ranked scoreLess (rankKey crypto modifier) list.eligible := by
  have hlen : (ranked scoreLess (rankKey crypto modifier) list.eligible).length ≤ list.getAllMNsCount := by
    rw [(perm_ranked _ _ _).length_eq, getAllMNsCount, ← Std.ExtTreeMap.length_toList]
    exact (length_filter_le _ _).trans_eq (length_map _)
  unfold calculateQuorum
  rw [calculateScores_eq, ranked_map]
  dsimp only
  rw [map_map]
  change take _ (map id (ranked scoreLess (rankKey crypto modifier) list.eligible)) = _
  rw [map_id, take_of_length_le hlen]

variable (h : Rep crypto list)

include h

lemma mem_eligible : dmn ∈ list.eligible ↔ list.getMN dmn.proTxHash = some dmn ∧ Eligible dmn := by
  unfold eligible getMN
  rw [mem_filter, h.mem_mns_iff, decide_eq_true_iff]

lemma nodup_mns : ((mns list.mnMap).map CDeterministicMN.proTxHash).Nodup := by
  have heq : (mns list.mnMap).map CDeterministicMN.proTxHash = list.mnMap.toList.map Prod.fst := by
    unfold mns
    rw [map_map]
    refine map_congr_left fun entry hentry => ?_
    exact h.proTxHash _ _ (Std.ExtTreeMap.mem_toList_iff_getElem?_eq_some.mp hentry)
  rw [heq]
  exact nodup_keys_toList list.mnMap

lemma nodup_eligible : (list.eligible.map CDeterministicMN.proTxHash).Nodup :=
  (nodup_mns h).sublist (filter_sublist.map _)

end CDeterministicMNList

end Blocx
