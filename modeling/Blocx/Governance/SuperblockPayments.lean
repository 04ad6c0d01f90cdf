import Blocx.Governance.PaymentsLimit
import Blocx.Validation.ConnectBlock
import Mathlib.Data.List.Destutter

/-!
# The payments of a superblock

`CSuperblock::IsValid` (`governance/classes.cpp`) looks for the payments of a superblock among the outputs of a
coinbase, in their order. The search for a payment starts at the output where the one before was found, not after it, so
a payment that equals the one before it is found there again. What is checked is that the payments without such
repetitions stand in the coinbase in their order (`paymentsMatch_iff`). A `CGovernancePayment`, a script and an amount
in the money range, is kept as the output it asks for.
-/

namespace Blocx

open List

namespace CSuperblock

/-- The loop over the payments of `IsValid`, with the outputs from `nVoutIndex` on. -/
def paymentsMatch (vout : List CTxOut) : List CTxOut → Bool
  | [] => true
  | payment :: payments =>
    match vout.dropWhile (· ≠ payment) with
    | [] => false
    -- `nVoutIndex = j`: the output that was found stays in the search
    | txout :: rest => paymentsMatch (txout :: rest) payments

/-- The sum of some outputs: `GetPaymentsTotalAmount`, `GetValueOut`. -/
def totalValue (vout : List CTxOut) : ℤ := (vout.map (·.nValue)).sum

/-- `GetValueOut` does not throw: no amount is negative, and so no amount or sum exceeds the last sum. -/
def valueInRange (vout : List CTxOut) : Bool := vout.all (0 ≤ ·.nValue) && totalValue vout ≤ maxMoney

/-- `CSuperblock::IsValid`, without a result when `GetValueOut` throws. -/
def isValid (params : Consensus.Params) (vecPayments : List CTxOut) (txNew : CTransaction)
    (nBlockHeight blockReward : ℤ) :
    Option Bool :=
  if !isValidBlockHeight params nBlockHeight then some false
  else if txNew.vout.length < vecPayments.length then some false
  else if totalValue vecPayments > getPaymentsLimit params nBlockHeight then some false
  else if !valueInRange txNew.vout then none
  else if totalValue txNew.vout > blockReward + totalValue vecPayments then some false
  else some (paymentsMatch txNew.vout vecPayments)

variable {l vout : List CTxOut}

lemma sublist_dropWhile {a : CTxOut} (hl : l.head? = some a) : l <+ vout.dropWhile (· ≠ a) ↔ l <+ vout := by
  refine ⟨fun h => h.trans (dropWhile_sublist _), fun h => ?_⟩
  induction vout with
  | nil => exact h
  | cons txout vout ih =>
    by_cases heq : txout = a
    · rwa [dropWhile_cons_of_neg (by simpa using heq)]
    · rw [dropWhile_cons_of_pos (by simpa using heq)]
      refine ih ((sublist_cons_iff.mp h).resolve_right ?_)
      rintro ⟨r, rfl, -⟩
      exact heq (Option.some.inj hl)

lemma head?_destutter' (a : CTxOut) (l : List CTxOut) : (l.destutter' (· ≠ ·) a).head? = some a := by
  induction l with
  | nil => rfl
  | cons b l ih =>
    rw [destutter'_cons]
    split_ifs
    · rfl
    · exact ih

lemma dropWhile_ne (a : CTxOut) (vout : List CTxOut) :
    vout.dropWhile (· ≠ a) = [] ∨ ∃ rest, vout.dropWhile (· ≠ a) = a :: rest := by
  induction vout with
  | nil => exact .inl rfl
  | cons txout vout ih =>
    by_cases heq : txout = a
    · exact .inr ⟨vout, by simp [heq]⟩
    · simpa [heq] using ih

lemma paymentsMatch_cons (payment : CTxOut) (vout payments : List CTxOut) :
    paymentsMatch vout (payment :: payments) ↔ payments.destutter' (· ≠ ·) payment <+ vout := by
  induction payments generalizing payment vout with
  | nil =>
    rw [← sublist_dropWhile (head?_destutter' payment []), paymentsMatch]
    obtain hnone | ⟨rest, hfound⟩ := dropWhile_ne payment vout
    · rw [hnone]
      simp
    · rw [hfound]
      exact iff_of_true rfl (by simp)
  | cons next payments ih =>
    rw [← sublist_dropWhile (head?_destutter' payment _), paymentsMatch]
    obtain hnone | ⟨rest, hfound⟩ := dropWhile_ne payment vout
    · rw [hnone, sublist_nil]
      exact iff_of_false Bool.false_ne_true (destutter'_ne_nil _ _)
    rw [hfound, destutter'_cons]
    refine (ih next (payment :: rest)).trans ?_
    split_ifs with hne
    · rw [cons_sublist_cons, ← sublist_dropWhile (head?_destutter' next payments),
        dropWhile_cons_of_pos (by simpa using hne), sublist_dropWhile (head?_destutter' next payments)]
    · rw [not_not.mp hne]

/-- The payments match when they stand among the outputs without repetitions, in their order. -/
lemma paymentsMatch_iff (vout payments : List CTxOut) :
    paymentsMatch vout payments ↔ payments.destutter (· ≠ ·) <+ vout := by
  cases payments with
  | nil => exact iff_of_true rfl (nil_sublist _)
  | cons payment payments => exact paymentsMatch_cons payment vout payments

/-- Every payment is paid by an output of its own, in their order, and the rest is at most the block reward. -/
structure PaysAll (vecPayments : List CTxOut) (txNew : CTransaction) (blockReward : ℤ) : Prop where
  /-- The payments stand among the outputs at increasing places. -/
  sublist : vecPayments <+ txNew.vout
  /-- The coinbase pays at least their sum. -/
  total : totalValue vecPayments ≤ totalValue txNew.vout
  /-- The other outputs, for the miner and the masternodes. -/
  rest : totalValue txNew.vout - totalValue vecPayments ≤ blockReward

section Payments

variable {params : Consensus.Params} {vecPayments : List CTxOut} {nBlockHeight blockReward : ℤ}

lemma isValid_iff {txNew : CTransaction} : isValid params vecPayments txNew nBlockHeight blockReward = some true ↔
    isValidBlockHeight params nBlockHeight ∧ vecPayments.length ≤ txNew.vout.length ∧
      totalValue vecPayments ≤ getPaymentsLimit params nBlockHeight ∧ valueInRange txNew.vout ∧
      totalValue txNew.vout ≤ blockReward + totalValue vecPayments ∧ vecPayments.destutter (· ≠ ·) <+ txNew.vout := by
  rw [← paymentsMatch_iff]
  unfold isValid
  split_ifs <;> simp_all

lemma totalValue_le (h : l <+ vout) (hrange : ∀ txout ∈ vout, 0 ≤ txout.nValue) : totalValue l ≤ totalValue vout :=
  (h.map _).sum_le_sum (by simpa using hrange)

/-- Every coinbase that is valid for a superblock pays all its payments exactly when no payment equals the one before
it, or no coinbase is valid. -/
theorem isValid_paysAll_iff (hrange : ∀ payment ∈ vecPayments, 0 ≤ payment.nValue) (hreward : 0 ≤ blockReward) :
    (∀ txNew, isValid params vecPayments txNew nBlockHeight blockReward = some true →
        PaysAll vecPayments txNew blockReward) ↔
      (isValidBlockHeight params nBlockHeight → totalValue vecPayments ≤ getPaymentsLimit params nBlockHeight →
        valueInRange (vecPayments.destutter (· ≠ ·)) → vecPayments.IsChain (· ≠ ·)) := by
  generalize hD : vecPayments.destutter (· ≠ ·) = D
  have hsub : D <+ vecPayments := hD ▸ destutter_sublist _ _
  rw [← destutter_eq_self_iff, hD]
  constructor
  · intro hpays hheight hlimit hinRange
    -- outputs of no value stand in for the payments that are left out
    obtain ⟨script, hscript⟩ := Infinite.exists_notMem_finset (vecPayments.map (·.scriptPubKey)).toFinset
    let fill := replicate vecPayments.length (⟨0, script⟩ : CTxOut)
    have hzero : totalValue (D ++ fill) = totalValue D := by simp [fill, totalValue]
    have hvalid := (hpays ⟨0, 3, .coinbase, [], D ++ fill, 0, []⟩ <| isValid_iff.mpr
      ⟨hheight, by simp [fill], hlimit, ?_, ?_, hD ▸ sublist_append_left _ _⟩).sublist
    · have hkept : vecPayments.filter (·.scriptPubKey ≠ script) = vecPayments := by
        refine filter_eq_self.mpr fun payment hmem => decide_eq_true fun heq => hscript ?_
        exact mem_toFinset.mpr (mem_map.mpr ⟨payment, hmem, heq⟩)
      have hnone : fill.filter (·.scriptPubKey ≠ script) = [] := by simp [fill]
      have hfilter := hvalid.filter (·.scriptPubKey ≠ script)
      rw [hkept, filter_append, hnone, append_nil] at hfilter
      exact hsub.antisymm (hfilter.trans filter_sublist)
    · have hfill : fill.all (0 ≤ ·.nValue) := by simp [fill]
      unfold valueInRange at hinRange ⊢
      rwa [all_append, hfill, Bool.and_true, hzero]
    · have := totalValue_le hsub hrange
      rw [hzero]
      omega
  · intro hchain txNew hvalid
    obtain ⟨hheight, -, hlimit, hinRange, hvalue, hmatch⟩ := isValid_iff.mp hvalid
    rw [hD] at hmatch
    simp only [valueInRange, Bool.and_eq_true, all_eq_true, decide_eq_true_eq] at hinRange
    have hinRange' : valueInRange D := by
      simp only [valueInRange, Bool.and_eq_true, all_eq_true, decide_eq_true_eq]
      exact ⟨fun txout hmem => hinRange.1 txout (hmatch.subset hmem),
        (totalValue_le hmatch hinRange.1).trans hinRange.2⟩
    rw [hchain hheight hlimit hinRange'] at hmatch
    exact ⟨hmatch, totalValue_le hmatch hinRange.1, by omega⟩

end Payments

/-- A coinbase with an output for the miner and one of 10 coins. -/
def onePayment : CTransaction where
  hash := 1
  nVersion := 3
  nType := .coinbase
  vin := []
  vout := [⟨5, [0x51]⟩, ⟨10, [0x52]⟩]

/-- A coinbase with an output for the miner between two different payments pays a superblock of the two. -/
theorem isValid_paysAll_iff_twoPayments :
    PaysAll [⟨10, [0x52]⟩, ⟨20, [0x53]⟩] { onePayment with vout := [⟨10, [0x52]⟩, ⟨5, [0x51]⟩, ⟨20, [0x53]⟩] } 5 :=
  (isValid_paysAll_iff (by decide) (by decide)).mpr (fun _ _ _ => by decide) _
    (show isValid Consensus.mainParams _ _ 116800 5 = some true by decide)

/-- The coinbase with one payment is valid for a superblock that pays the output twice. -/
theorem isValid_repeated : isValid Consensus.mainParams [⟨10, [0x52]⟩, ⟨10, [0x52]⟩] onePayment 116800 5 = some true ∧
    ¬[⟨10, [0x52]⟩, ⟨10, [0x52]⟩] <+ onePayment.vout := by
  decide

end CSuperblock

end Blocx
