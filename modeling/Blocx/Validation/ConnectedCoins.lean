import Blocx.Coins.CacheInvariant
import Blocx.Validation.ConnectBlock

/-!
# What connecting a block does to the coins

The checks of `ConnectBlock` only read: they change nothing that the cache shows. Each transaction then takes the coins
of its inputs away and adds those of its outputs that can be spent, at outpoints where there was no coin. `TxConnects`
says that about one transaction and `TxsConnect` about several in a row, as a relation between the maps before and
after; from here on the cache is not looked at any more.
-/

namespace Blocx

open List Function

variable {tx : CTransaction} {view : CCoinsViewCache} {rules : ConnectRules} {pindex : CBlockIndex} {vin : List CTxIn}
  {i : ℕ} {vout : List CTxOut} {fCoinbase : Bool} {hash : Uint256} {nHeight : ℤ} {u : Unit}

open CCoinsViewCache

/-! ### Programs that only read -/

/-- The program changes nothing that the cache shows. -/
def KeepsCoins {α : Type} (program : CoinsM α) : Prop :=
  ∀ view, CacheWf view → wlp program (fun _ view' => Shows view view.lookup view') view

namespace KeepsCoins

variable {α β : Type}

lemma pure (a : α) : KeepsCoins (pure a) := fun _ h => .refl h

lemma throw (e : CoinsError) : KeepsCoins (throw e : CoinsM α) := fun _ _ => trivial

lemma bind {x : CoinsM α} {f : α → CoinsM β} (hx : KeepsCoins x) (hf : ∀ a, KeepsCoins (f a)) :
    KeepsCoins (x >>= f) := by
  intro view h
  refine wp_seq (hx view h) fun a view' hview' => ?_
  refine (hf a view' hview'.wf).imp fun _ view'' hview'' => hview'.keep hview''

lemma ite {c : Prop} [Decidable c] {x y : CoinsM α} (hx : KeepsCoins x) (hy : KeepsCoins y) :
    KeepsCoins (if c then x else y) := by
  split_ifs
  · exact hx
  · exact hy

lemma accessCoin (o : COutPoint) : KeepsCoins (accessCoin o) := fun _ h =>
  wp_mono (wp_accessCoin h o (E := fun _ _ => True)) (fun _ _ hview => hview.2) (fun _ _ => id)

lemma checkOrInvalid (check : Except String Unit) : KeepsCoins (checkOrInvalid check) := by
  cases check with
  | ok u => exact pure ()
  | error reason => exact throw _

lemma checkInputValues (nSpendHeight nValueIn : ℤ) (vin : List CTxIn) :
    KeepsCoins (checkInputValues nSpendHeight nValueIn vin) := by
  induction vin generalizing nValueIn with
  | nil => exact pure _
  | cons txin vin ih =>
    refine (accessCoin txin.prevout).bind fun coin => ?_
    exact ite (throw _) (ite (throw _) (ite (throw _) (ih _)))

lemma getValueOut (nValueOut : ℤ) (vout : List CTxOut) : KeepsCoins (getValueOut nValueOut vout) := by
  induction vout generalizing nValueOut with
  | nil => exact pure _
  | cons txout vout ih => exact ite (throw _) (ih _)

lemma prevHeights (vin : List CTxIn) : KeepsCoins (prevHeights vin) := by
  induction vin with
  | nil => exact pure _
  | cons txin vin ih => exact (accessCoin txin.prevout).bind fun _ => ih.bind fun _ => pure _

end KeepsCoins

lemma wp_checkOrInvalid {check : Except String Unit} {Q : Unit → CCoinsViewCache → Prop} :
    wp (checkOrInvalid check) Q (fun _ _ => True) view ↔ (check = .ok () → Q () view) := by
  cases check with
  | ok u => exact ⟨fun h _ => h, fun h => h rfl⟩
  | error reason => exact iff_of_true trivial nofun

/-! ### The inputs are there -/

lemma wp_haveInputs (h : CacheWf view) :
    wlp (haveInputs vin) (fun b view' => (b → ∀ txin ∈ vin, (view.lookup txin.prevout).isSome) ∧
      Shows view view.lookup view') view := by
  induction vin generalizing view with
  | nil => exact ⟨nofun, .refl h⟩
  | cons txin vin ih =>
    refine wp_seq (wp_haveCoin h txin.prevout) fun b view' ⟨hb, hview'⟩ => ?_
    refine (wp_ite _ _).mpr ⟨fun hsome => ?_, fun _ => ⟨nofun, hview'⟩⟩
    refine (ih hview'.wf).imp fun b' view'' ⟨hall, hview''⟩ => ⟨fun hb' => ?_, hview'.keep hview''⟩
    rw [hview'.lookup] at hall
    rintro txin' (_ | ⟨_, hmem⟩)
    · rw [← hb, hsome]
    · exact hall hb' txin' hmem

lemma wp_checkTxInputs (h : CacheWf view) {nSpendHeight : ℤ} :
    wlp (checkTxInputs tx nSpendHeight) (fun _ view' => (∀ txin ∈ tx.vin, (view.lookup txin.prevout).isSome) ∧
      Shows view view.lookup view') view := by
  refine wp_seq (wp_haveInputs h) fun b view' ⟨hall, hview'⟩ => ?_
  refine wp_ite_throw fun hb => ?_
  have hrest : KeepsCoins (do
      let nValueIn ← checkInputValues nSpendHeight 0 tx.vin
      let valueOut ← getValueOut 0 tx.vout
      if nValueIn < valueOut then throw (.invalid "bad-txns-in-belowout")
      else if !moneyRange (nValueIn - valueOut) then throw (.invalid "bad-txns-fee-outofrange")
      else return nValueIn - valueOut) :=
    (KeepsCoins.checkInputValues nSpendHeight 0 tx.vin).bind fun _ => (KeepsCoins.getValueOut 0 tx.vout).bind fun _ =>
      .ite (.throw _) (.ite (.throw _) (.pure _))
  refine (hrest view' hview'.wf).imp fun _ view'' hview'' => ⟨?_, hview'.keep hview''⟩
  exact hall (by simpa using hb)

/-! ### Coins that are spent and added -/

/-- The coins that outputs from an index on become, without those that cannot be spent. -/
def outputCoins (hash : Uint256) (fCoinbase : Bool) (nHeight : ℤ) (i : ℕ) : List CTxOut → List (COutPoint × Coin)
  | [] => []
  | out :: vout =>
    (if isUnspendable out.scriptPubKey then []
      else [(⟨hash, BitVec.ofNat 32 i⟩, { out := out, fCoinBase := fCoinbase, nHeight := nHeight })]) ++
      outputCoins hash fCoinbase nHeight (i + 1) vout

def writes (coins : List (COutPoint × Coin)) : List (COutPoint × Option Coin) := coins.map fun c => (c.1, some c.2)

def erases (os : List COutPoint) : List (COutPoint × Option Coin) := os.map fun o => (o, none)

@[simp]
lemma keys_writes (coins : List (COutPoint × Coin)) : (writes coins).map Prod.fst = coins.map Prod.fst := by
  simp [writes, comp_def]

@[simp]
lemma keys_erases (os : List COutPoint) : (erases os).map Prod.fst = os := by
  simp [erases, comp_def]

lemma mem_outpointsFrom {o : COutPoint} (h : o ∈ outpointsFrom hash i vout) :
    ∃ k, i ≤ k ∧ k < i + vout.length ∧ o = ⟨hash, BitVec.ofNat 32 k⟩ := by
  induction vout generalizing i with
  | nil => cases h
  | cons out vout ih =>
    obtain _ | ⟨_, h⟩ := h
    · exact ⟨i, le_rfl, by simp, rfl⟩
    · obtain ⟨k, hle, hlt, rfl⟩ := ih h
      exact ⟨k, by omega, by rw [length_cons]; omega, rfl⟩

lemma nodup_outpointsFrom (hlen : i + vout.length ≤ 2 ^ 32) : (outpointsFrom hash i vout).Nodup := by
  induction vout generalizing i with
  | nil => exact nodup_nil
  | cons out vout ih =>
    rw [length_cons] at hlen
    refine nodup_cons.mpr ⟨fun hmem => ?_, ih (by omega)⟩
    obtain ⟨k, hle, hlt, heq⟩ := mem_outpointsFrom hmem
    have hn := congrArg (fun o => o.n.toNat) heq
    simp only [BitVec.toNat_ofNat] at hn
    omega

lemma outputCoins_sublist :
    ((outputCoins hash fCoinbase nHeight i vout).map Prod.fst).Sublist (outpointsFrom hash i vout) := by
  induction vout generalizing i with
  | nil => exact List.Sublist.slnil
  | cons out vout ih =>
    unfold outputCoins outpointsFrom
    split_ifs
    · exact (ih (i := i + 1)).cons _
    · exact (ih (i := i + 1)).cons_cons _

lemma mem_outputCoins {c : COutPoint × Coin} (h : c ∈ outputCoins hash fCoinbase nHeight i vout) :
    isUnspendable c.2.out.scriptPubKey = false ∧ c.2.nHeight = nHeight := by
  induction vout generalizing i with
  | nil => cases h
  | cons out vout ih =>
    unfold outputCoins at h
    split_ifs at h with hun
    · exact ih h
    · obtain _ | ⟨_, h⟩ := h
      · exact ⟨Bool.eq_false_iff.mpr hun, rfl⟩
      · exact ih h

/-- The records of inputs, with the coins that they spend and their positions. -/
def inputRecords (rules : ConnectRules) (pindex : CBlockIndex) (i : ℕ) (txhash : Uint256)
    (inputs : List ((CTxIn × Coin) × ℕ)) : List IndexRecord :=
  inputs.flatMap fun ((txin, coin), j) => (recordInput rules.hash160 pindex.nHeight i txhash j txin coin.out).toList

/-- The coins of the inputs are taken away. -/
lemma wp_spendInputs (h : CacheWf view) (hnodup : (vin.map (·.prevout)).Nodup)
    (hsome : ∀ txin ∈ vin, (view.lookup txin.prevout).isSome) {E : CoinsError → CCoinsViewCache → Prop} :
    wp (spendInputs vin) (fun coins view' => vin.map (fun txin => view.lookup txin.prevout) = coins.map some ∧
      Shows view (applyBatch (erases (vin.map (·.prevout))) view.lookup) view') E view := by
  induction vin generalizing view with
  | nil => exact ⟨rfl, .refl h⟩
  | cons txin vin ih =>
    rw [map_cons, nodup_cons] at hnodup
    obtain ⟨coin, hcoin⟩ := Option.isSome_iff_exists.mp (hsome txin mem_cons_self)
    have hother : ∀ txin' ∈ vin, txin'.prevout ≠ txin.prevout := fun txin' hmem heq =>
      hnodup.1 (heq ▸ mem_map_of_mem hmem)
    refine wp_seq (wp_spendCoin h hcoin (E := E)) fun r view' ⟨hr, hview'⟩ => ?_
    subst hr
    rw [wp_bind]
    have hlookup : ∀ txin' ∈ vin, view'.lookup txin'.prevout = view.lookup txin'.prevout := fun txin' hmem => by
      rw [hview'.lookup, update_of_ne (hother txin' hmem)]
    refine (ih hview'.wf hnodup.2 fun txin' hmem => ?_).imp fun coins view'' ⟨hcoins, hview''⟩ => ⟨?_, ?_⟩
    · rw [hlookup txin' hmem]
      exact hsome txin' (mem_cons_of_mem txin hmem)
    · rw [map_cons, map_cons, hcoin, ← hcoins]
      exact congrArg _ (map_congr_left fun txin' hmem => (hlookup txin' hmem).symm)
    · rw [hview'.lookup] at hview''
      exact hview'.trans hview''

lemma wp_addCoinsFrom (h : CacheWf view) (hnodup : (outpointsFrom hash i vout).Nodup)
    (hsettled : ∀ o ∈ outpointsFrom hash i vout, Settled view o)
    (hnone : fCoinbase → ∀ o ∈ outpointsFrom hash i vout, view.lookup o = none) :
    wlp (addCoinsFrom hash fCoinbase nHeight i vout) (fun _ view' =>
      (∀ c ∈ outputCoins hash fCoinbase nHeight i vout, view.lookup c.1 = none ∧ c.2.isSpent = false) ∧
      Shows view (applyBatch (writes (outputCoins hash fCoinbase nHeight i vout)) view.lookup) view') view := by
  induction vout generalizing view i with
  | nil => exact ⟨nofun, .refl h⟩
  | cons out vout ih =>
    unfold outpointsFrom at hnodup hsettled hnone
    rw [nodup_cons] at hnodup
    unfold addCoinsFrom outputCoins
    rw [wlp, wp_bind]
    cases hun : isUnspendable out.scriptPubKey with
    | true =>
      refine (wp_addCoin_unspendable h hun fCoinbase).imp fun _ view' hview' => ?_
      refine (ih hview'.wf hnodup.2 ?_ ?_).imp fun _ view'' hview'' => ?_
      · exact fun o ho => hview'.settled o (hsettled o (mem_cons_of_mem _ ho))
      · intro hcb o ho
        rw [hview'.lookup]
        exact hnone hcb o (mem_cons_of_mem _ ho)
      · rw [hview'.lookup] at hview''
        exact ⟨hview''.1, hview'.trans hview''.2⟩
    | false =>
      refine (wp_addCoin h hun (hsettled _ mem_cons_self) fun hcb => hnone hcb _ mem_cons_self).imp_true
        fun _ view' ⟨hnone', hspent, hview'⟩ => ?_
      -- the outputs that follow are at other outpoints
      have hother : ∀ o ∈ outpointsFrom hash (i + 1) vout, view'.lookup o = view.lookup o := fun o ho => by
        rw [hview'.lookup, update_of_ne]
        rintro rfl
        exact hnodup.1 ho
      refine (ih hview'.wf hnodup.2 ?_ ?_).imp fun _ view'' ⟨hfresh, hview''⟩ => ⟨?_, ?_⟩
      · exact fun o ho => hview'.settled o (hsettled o (mem_cons_of_mem _ ho))
      · intro hcb o ho
        rw [hother o ho]
        exact hnone hcb o (mem_cons_of_mem _ ho)
      · rintro c (_ | ⟨_, hc⟩)
        · exact ⟨hnone', hspent⟩
        · obtain ⟨hc', hspent'⟩ := hfresh c hc
          rw [hother _ (outputCoins_sublist.subset (mem_map_of_mem hc))] at hc'
          exact ⟨hc', hspent'⟩
      · rw [hview'.lookup] at hview''
        exact hview'.trans hview''

/-- The records are about the coins that are spent. -/
lemma wp_recordInputs (h : CacheWf view) {txhash : Uint256} (j : ℕ) (vin : List CTxIn) :
    wlp (recordInputs rules pindex i txhash j vin) (fun records view' => Shows view view.lookup view' ∧
      ∀ coins, vin.map (fun txin => view.lookup txin.prevout) = coins.map some →
        records = inputRecords rules pindex i txhash ((vin.zip coins).zipIdx j)) view := by
  induction vin generalizing view j with
  | nil => exact ⟨.refl h, fun coins _ => rfl⟩
  | cons txin vin ih =>
    refine wp_seq (wp_accessCoin h txin.prevout) fun coin view' ⟨hcoin, hview'⟩ => ?_
    refine wp_seq (ih hview'.wf (j + 1)) fun records view'' ⟨hview'', hrecords⟩ => ⟨hview'.keep hview'', ?_⟩
    rintro (_ | ⟨c, coins⟩) heq
    · cases heq
    · rw [map_cons, map_cons, cons.injEq, ← hcoin] at heq
      obtain ⟨rfl, -⟩ := Coin.visible_eq_some heq.1
      rw [hrecords coins (hview'.lookup ▸ heq.2)]
      rfl

/-! ### One transaction -/

/-- What `CheckTransaction` makes sure of, as far as the coins depend on it. -/
structure TxChecked (tx : CTransaction) : Prop where
  nodup : (tx.vin.map (·.prevout)).Nodup
  /-- The outputs can be numbered with 32 bits. -/
  outputs : tx.vout.length ≤ 2 ^ 32

lemma length_le_sum_sizes (vout : List CTxOut) :
    vout.length ≤ (vout.map fun out => 8 + bytesSize out.scriptPubKey).sum := by
  induction vout with
  | nil => exact le_rfl
  | cons out vout ih =>
    rw [map_cons, sum_cons, length_cons]
    omega

lemma txChecked (h : checkTransaction tx = .ok u) : TxChecked tx := by
  unfold checkTransaction at h
  simp only [except_bind_eq_ok, require_eq_ok, decide_eq_true_eq] at h
  obtain ⟨_, _, _, _, _, hsize, _, _, _, _, _, hnodup, _⟩ := h
  refine ⟨hnodup, ?_⟩
  have hle := length_le_sum_sizes tx.vout
  unfold CTransaction.serializeSize maxLegacyBlockSize at hsize
  omega

/-- The outpoints that a transaction spends. -/
def spends (tx : CTransaction) : List COutPoint := if tx.isCoinBase then [] else tx.vin.map (·.prevout)

/-- The coins that a transaction adds. -/
def creates (pindex : CBlockIndex) (tx : CTransaction) : List (COutPoint × Coin) :=
  outputCoins tx.hash tx.isCoinBase pindex.nHeight 0 tx.vout

/-- A transaction of the block takes a map of coins to another one, with what is stored about it. -/
structure TxConnects (rules : ConnectRules) (pindex : CBlockIndex) (coins : COutPoint → Option Coin) (i : ℕ)
    (tx : CTransaction) (update : TxUpdate) (coins' : COutPoint → Option Coin) : Prop where
  checked : TxChecked tx
  /-- The first transaction is the coinbase, and the only one. -/
  isCoinBase : tx.isCoinBase ↔ i = 0
  /-- The coins that are stored are those of the inputs. -/
  spent : (spends tx).map coins = update.vprevout.map some
  /-- The coins that are added are there, and overwrite none. -/
  fresh : ∀ c ∈ creates pindex tx, applyBatch (erases (spends tx)) coins c.1 = none ∧ c.2.isSpent = false
  /-- The inputs are taken away, then the outputs are added. -/
  result : coins' = applyBatch (writes (creates pindex tx)) (applyBatch (erases (spends tx)) coins)
  records : update.records = if rules.fAddressIndex then
    inputRecords rules pindex i tx.hash (tx.vin.zip update.vprevout).zipIdx ++ recordOutputs rules pindex i tx else []

lemma TxChecked.nodup_spends (h : TxChecked tx) : (spends tx).Nodup := by
  unfold spends
  split_ifs
  · exact nodup_nil
  · exact h.nodup

lemma TxChecked.nodup_outpoints (h : TxChecked tx) : (outpointsFrom tx.hash 0 tx.vout).Nodup :=
  nodup_outpointsFrom (by rw [Nat.zero_add]; exact h.outputs)

lemma TxChecked.nodup_creates (h : TxChecked tx) (pindex : CBlockIndex) :
    ((creates pindex tx).map Prod.fst).Nodup := outputCoins_sublist.nodup h.nodup_outpoints

/-- The outpoints of the transaction are settled, and free if it is a coinbase. -/
structure RoomFor (view : CCoinsViewCache) (tx : CTransaction) : Prop where
  settled : ∀ o ∈ outpointsFrom tx.hash 0 tx.vout, Settled view o
  coinbase : tx.isCoinBase → ∀ o ∈ outpointsFrom tx.hash 0 tx.vout, view.lookup o = none

lemma RoomFor.keep {view' : CCoinsViewCache} (h : RoomFor view tx) (hview' : Shows view view.lookup view') :
    RoomFor view' tx where
  settled o ho := hview'.settled o (h.settled o ho)
  coinbase hcb o ho := by
    rw [hview'.lookup]
    exact h.coinbase hcb o ho

section

variable (h : CacheWf view)

include h

lemma wp_spendTxInputs (htx : TxChecked tx) (hsome : ∀ o ∈ spends tx, (view.lookup o).isSome) :
    wlp (spendTxInputs tx) (fun vprevout view' => (spends tx).map view.lookup = vprevout.map some ∧
      Shows view (applyBatch (erases (spends tx)) view.lookup) view') view := by
  unfold spends at hsome ⊢
  refine (wp_ite _ _).mpr ⟨fun hcb => ?_, fun hcb => ?_⟩
  · rw [if_pos hcb]
    exact ⟨rfl, .refl h⟩
  · rw [if_neg hcb] at hsome ⊢
    rw [map_map]
    exact wp_spendInputs h htx.nodup fun txin hmem => hsome _ (mem_map_of_mem hmem)

lemma wp_updateCoins (htx : TxChecked tx) (hroom : RoomFor view tx)
    (hsome : ∀ o ∈ spends tx, (view.lookup o).isSome) :
    wlp (updateCoins tx pindex.nHeight) (fun vprevout view' => (spends tx).map view.lookup = vprevout.map some ∧
      (∀ c ∈ creates pindex tx, applyBatch (erases (spends tx)) view.lookup c.1 = none ∧ c.2.isSpent = false) ∧
      Shows view (applyBatch (writes (creates pindex tx)) (applyBatch (erases (spends tx)) view.lookup)) view')
        view := by
  refine wp_seq (wp_spendTxInputs h htx hsome) fun vprevout view' ⟨hspent, hview'⟩ => ?_
  refine wp_seq (wp_addCoinsFrom hview'.wf htx.nodup_outpoints ?_ ?_) fun _ view'' ⟨hfresh, hview''⟩ => ?_
  · exact fun o ho => hview'.settled o (hroom.settled o ho)
  · intro hcb o ho
    rw [hview'.lookup, spends, if_pos hcb]
    exact hroom.coinbase hcb o ho
  · rw [hview'.lookup] at hfresh hview''
    exact ⟨hspent, hfresh, hview'.trans hview''⟩

lemma wp_connectInputs (nFees : ℤ) (tx : CTransaction) :
    wlp (connectInputs rules pindex nFees tx) (fun _ view' => (∀ o ∈ spends tx, (view.lookup o).isSome) ∧
      Shows view view.lookup view') view := by
  unfold connectInputs spends
  refine (wp_ite _ _).mpr ⟨fun hcb => ?_, fun hcb => ?_⟩
  · rw [if_pos hcb]
    exact ⟨nofun, .refl h⟩
  rw [if_neg hcb]
  refine wp_seq (wp_checkTxInputs h) fun txfee view' ⟨hall, hview'⟩ => ?_
  refine wp_ite_throw fun _ => ?_
  have hrest : KeepsCoins (do
      let prevheights ← prevHeights tx.vin
      if !rules.sequenceLocks tx prevheights pindex then throw (.invalid "bad-txns-nonfinal")
      else return nFees + txfee) := (KeepsCoins.prevHeights tx.vin).bind fun _ => .ite (.throw _) (.pure _)
  exact (hrest view' hview'.wf).imp fun _ view'' hview'' => ⟨forall_mem_map.mpr hall, hview'.keep hview''⟩

lemma wp_recordTxInputs (i : ℕ) (tx : CTransaction) :
    wlp (recordTxInputs rules pindex i tx) (fun inputs view' => Shows view view.lookup view' ∧
      ∀ vprevout, (spends tx).map view.lookup = vprevout.map some → inputs =
        if rules.fAddressIndex then inputRecords rules pindex i tx.hash (tx.vin.zip vprevout).zipIdx else []) view := by
  refine (wp_ite _ _).mpr ⟨fun hnot => ⟨.refl h, fun vprevout hvprevout => ?_⟩, fun hyes => ?_⟩
  · obtain hcb | hoff := hnot
    · -- a coinbase spends nothing
      rw [spends, if_pos hcb, map_nil, eq_comm, map_eq_nil_iff] at hvprevout
      subst hvprevout
      rw [zip_nil_right]
      exact (ite_self _).symm
    · rw [if_neg (by simpa using hoff)]
  · obtain ⟨hcb, hon⟩ := not_or.mp hyes
    refine (wp_recordInputs h 0 tx.vin).imp fun inputs view' ⟨hview', hinputs⟩ => ⟨hview', fun vprevout hvprevout => ?_⟩
    rw [spends, if_neg hcb, map_map] at hvprevout
    rw [if_pos (by simpa using hon)]
    exact hinputs vprevout hvprevout

/-- A turn of the loop of `ConnectBlock`. -/
lemma wp_connectTx (htx : TxChecked tx) (hcb : tx.isCoinBase ↔ i = 0) (hroom : RoomFor view tx) (nFees : ℤ)
    (nSigOps : ℕ) : wlp (connectTx rules pindex i nFees nSigOps tx) (fun r view' =>
      TxConnects rules pindex view.lookup i tx r.1 view'.lookup ∧ Shows view view'.lookup view')
      view := by
  refine wp_seq (wp_connectInputs h nFees tx) fun nFees view₁ ⟨hsome, hview₁⟩ => ?_
  refine wp_seq (wp_recordTxInputs hview₁.wf i tx) fun inputs view₂ ⟨hview₂, hinputs⟩ => ?_
  rw [hview₁.lookup] at hinputs
  refine wp_ite_throw fun _ => ?_
  refine wp_seq (KeepsCoins.checkOrInvalid _ view₂ hview₂.wf) fun _ view₃ hview₃ => ?_
  have hview₃ := (hview₁.keep hview₂).keep hview₃
  refine wp_seq (wp_updateCoins hview₃.wf htx (hroom.keep hview₃) ?_) fun vprevout view' ⟨hspent, hfresh, hview'⟩ => ?_
  · rw [hview₃.lookup]
    exact hsome
  · rw [hview₃.lookup] at hspent hfresh hview'
    refine ⟨⟨htx, hcb, hspent, hfresh, hview'.lookup, ?_⟩, ?_⟩
    · rw [hinputs vprevout hspent]
      split_ifs <;> rfl
    · exact hview'.lookup ▸ hview₃.trans hview'

end

/-! ### The block -/

/-- Transactions from an index on, one after the other. -/
inductive TxsConnect (rules : ConnectRules) (pindex : CBlockIndex) : (COutPoint → Option Coin) → ℕ →
    List CTransaction → List TxUpdate → (COutPoint → Option Coin) → Prop
  | nil (coins : COutPoint → Option Coin) (i : ℕ) : TxsConnect rules pindex coins i [] [] coins
  | cons {coins coins' coins'' : COutPoint → Option Coin} {i : ℕ} {tx : CTransaction} {update : TxUpdate}
      {vtx : List CTransaction} {updates : List TxUpdate} (head : TxConnects rules pindex coins i tx update coins')
      (tail : TxsConnect rules pindex coins' (i + 1) vtx updates coins'') :
      TxsConnect rules pindex coins i (tx :: vtx) (update :: updates) coins''

/-- A block that `ConnectBlock` accepts takes a map of coins to another one, with what is stored about it. -/
structure BlockConnects (rules : ConnectRules) (pindex : CBlockIndex) (coins : COutPoint → Option Coin)
    (block : CBlock) (updates : List TxUpdate) (coins' : COutPoint → Option Coin) : Prop where
  txs : TxsConnect rules pindex coins 0 block.vtx updates coins'
  /-- BIP30: the outputs are free. -/
  free : ∀ tx ∈ block.vtx, ∀ o ∈ outpointsFrom tx.hash 0 tx.vout, coins o = none
  special : rules.processSpecialTxsInBlock block pindex coins = .ok ()
  ne_nil : block.vtx ≠ []
  pprev : pindex.pprev.isSome

/-- What is stored about a block, from what is stored about its transactions. -/
def blockUpdate (updates : List TxUpdate) : BlockUpdate where
  vtxundo := (updates.drop 1).map (·.vprevout)
  records := updates.flatMap (·.records)

variable {vtx : List CTransaction}

lemma wp_connectTxs (h : CacheWf view) (hchecked : ∀ tx ∈ vtx, TxChecked tx)
    (hcb : ∀ p ∈ vtx.zipIdx i, p.1.isCoinBase ↔ p.2 = 0)
    (hsettled : ∀ tx ∈ vtx, ∀ o ∈ outpointsFrom tx.hash 0 tx.vout, Settled view o)
    (hfree : i = 0 → ∀ tx ∈ vtx, ∀ o ∈ outpointsFrom tx.hash 0 tx.vout, view.lookup o = none) (nFees : ℤ)
    (nSigOps : ℕ) :
    wlp (connectTxs rules pindex i nFees nSigOps vtx) (fun r view' =>
      TxsConnect rules pindex view.lookup i vtx r.1 view'.lookup ∧ Shows view view'.lookup view')
      view := by
  induction vtx generalizing view i nFees nSigOps with
  | nil => exact ⟨.nil _ _, .refl h⟩
  | cons tx vtx ih =>
    rw [zipIdx_cons, forall_mem_cons] at hcb
    rw [forall_mem_cons] at hchecked hsettled
    have hroom : RoomFor view tx := ⟨hsettled.1, fun htx => hfree (hcb.1.mp htx) tx mem_cons_self⟩
    refine wp_seq (wp_connectTx h hchecked.1 hcb.1 hroom nFees nSigOps) fun r view' ⟨hhead, hview'⟩ => ?_
    refine wp_seq (ih hview'.wf hchecked.2 hcb.2 ?_ (fun h0 => absurd h0 i.succ_ne_zero) r.2.1 r.2.2)
      fun r' view'' ⟨htail, hview''⟩ => ⟨.cons hhead htail, hview'.trans hview''⟩
    exact fun tx' htx' o ho => hview'.settled o (hsettled.2 tx' htx' o ho)

lemma wp_checkBIP30 (h : CacheWf view) {os : List COutPoint} :
    wlp (checkBIP30 os) (fun _ view' => (∀ o ∈ os, view.lookup o = none) ∧ Shows view view.lookup view') view := by
  induction os generalizing view with
  | nil => exact ⟨nofun, .refl h⟩
  | cons o os ih =>
    refine wp_seq (wp_haveCoin h o) fun b view' ⟨hb, hview'⟩ => ?_
    refine wp_ite_throw fun hfalse => ?_
    refine (ih hview'.wf).imp fun _ view'' ⟨hall, hview''⟩ => ⟨?_, hview'.keep hview''⟩
    rw [hview'.lookup] at hall
    refine forall_mem_cons.mpr ⟨?_, hall⟩
    rw [hb] at hfalse
    simpa using hfalse

lemma checkAllTransactions_ok (h : checkAllTransactions vtx = .ok u) : ∀ tx ∈ vtx, TxChecked tx := by
  induction vtx with
  | nil => exact nofun
  | cons tx vtx ih =>
    obtain ⟨_, htx, hvtx⟩ := except_bind_eq_ok.mp h
    exact forall_mem_cons.mpr ⟨txChecked htx, ih hvtx⟩

/-- `CheckBlock` has checked the transactions, and that the first one is the only coinbase. -/
lemma checkBlock_ok {block : CBlock} (h : checkBlock rules block = .ok u) :
    (∀ tx ∈ block.vtx, TxChecked tx) ∧ block.vtx ≠ [] ∧ ∀ p ∈ block.vtx.zipIdx, p.1.isCoinBase ↔ p.2 = 0 := by
  unfold checkBlock at h
  simp only [except_bind_eq_ok, require_eq_ok] at h
  obtain ⟨_, _, _, _, _, _, _, _, _, hfirst, _, hrest, _, htxs, _⟩ := h
  refine ⟨checkAllTransactions_ok htxs, ?_⟩
  cases hvtx : block.vtx with
  | nil =>
    rw [hvtx] at hfirst
    cases hfirst
  | cons tx vtx =>
    rw [hvtx] at hfirst hrest
    rw [drop_succ_cons, drop_zero, all_eq_true] at hrest
    rw [zipIdx_cons, forall_mem_cons]
    refine ⟨cons_ne_nil tx vtx, iff_of_true hfirst rfl, fun p hp => iff_of_false ?_ ?_⟩
    · exact Bool.not_eq_true _ ▸ (Bool.not_eq_true' _).mp (hrest p.1 (fst_mem_of_mem_zipIdx hp))
    · have := le_snd_of_mem_zipIdx hp
      omega

/-- `ConnectBlock` checks the block and connects its transactions. -/
lemma wp_connectBlock (h : CacheWf view) (block : CBlock) (evoBestBlock : Option Uint256)
    (hBIP30 : ∀ pprev, pindex.pprev = some pprev → fEnforceBIP30 rules pindex pprev) :
    wlp (connectBlock rules pindex block evoBestBlock) (fun r view' => ∀ update, r = some update →
      CacheWf view' ∧ view'.base = view.base ∧ view'.hashBlock = rules.getBlockHash block.toCBlockHeader ∧
      ∃ updates, BlockConnects rules pindex view.lookup block updates view'.lookup ∧
        update = blockUpdate updates) view := by
  refine wp_ite_throw fun _ => ?_
  rw [wlp, wp_bind, wp_checkOrInvalid]
  intro hcheck
  obtain ⟨hchecked, hne, hcb⟩ := checkBlock_ok hcheck
  refine wp_ite_throw fun _ => ?_
  refine wp_ite_throw fun _ => wp_ite_throw fun _ => ?_
  refine (wp_ite _ _).mpr ⟨nofun, fun _ => ?_⟩
  cases hpprev : pindex.pprev with
  | none => trivial
  | some pprev =>
  rw [wp_bind, if_pos (hBIP30 pprev hpprev)]
  refine (wp_checkBIP30 h).imp fun _ view₁ ⟨hfree, hview₁⟩ => ?_
  replace hfree : ∀ tx ∈ block.vtx, ∀ o ∈ outpointsFrom tx.hash 0 tx.vout, view₁.lookup o = none := by
    intro tx htx o ho
    rw [hview₁.lookup]
    exact hfree o (mem_flatMap.mpr ⟨tx, htx, ho⟩)
  refine wp_ite_throw fun _ => ?_
  rw [wlp, wp_bind, wp_get, wp_bind, wp_checkOrInvalid, hview₁.lookup]
  intro hspecial
  refine wp_seq (wp_connectTxs hview₁.wf hchecked hcb
    (fun tx htx o ho => settled_of_lookup_eq_none (hfree tx htx o ho)) (fun _ => hfree) 0 0)
    fun r view₂ ⟨htxs, hview₂⟩ => ?_
  rw [hview₁.lookup] at htxs
  have hview₂ := hview₁.trans hview₂
  rw [wp_bind, wp_checkOrInvalid]
  intro _
  rw [wp_bind, wp_checkOrInvalid]
  intro _
  rintro update ⟨⟩
  exact ⟨hview₂.wf.setBestBlock _, hview₂.base, rfl, r.1,
    ⟨htxs, hview₁.lookup ▸ hfree, hspecial, hne, hpprev ▸ rfl⟩, rfl⟩

end Blocx
