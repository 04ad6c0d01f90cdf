import Blocx.Evo.SpecialTxMan
import Blocx.Validation.ConnectedCoins

/-!
# Disconnecting undoes connecting

`DisconnectBlock` goes through the transactions of a block from the last to the first. For each of them it erases the
coins of the outputs, which are there as the transaction made them, and then writes the coins of the inputs, which are
not there, from what was stored when they were spent. Both steps undo one half of what connecting the transaction did,
by the rule for batches, and the induction over the block does the rest.

Two things must be true of the coins of a view, and they are of every view that was made by connecting blocks: no coin
has height 0, because the genesis block is not connected, and none of them is unspendable, because `AddCoin` leaves such
coins out. `DisconnectBlock` reads height 0 as a mark for missing metadata, and would not put an unspendable coin back.

Before it touches a coin, `DisconnectBlock` undoes the special transactions, and fails if that fails. So a block that was
connected can be disconnected exactly if it has no commitment below the height of DIP3.
-/

namespace Blocx

open Option hiding map_map

open List

open Function

open CCoinsViewCache

/-! ### Coins of a chain -/

/-- A coin that connecting a block can have added. -/
structure CoinWf (coin : Coin) : Prop where
  height : 0 < coin.nHeight
  spendable : isUnspendable coin.out.scriptPubKey = false
  unspent : coin.isSpent = false

/-- All coins can have been added by connecting blocks. -/
def CoinsWf (coins : COutPoint → Option Coin) : Prop := ∀ o coin, coins o = some coin → CoinWf coin

/-- A view of the unspent outputs of a chain. -/
structure UtxoWf (view : CCoinsViewCache) : Prop extends CacheWf view where
  coins : CoinsWf view.lookup

lemma applyBatch_coinsWf {coins : COutPoint → Option Coin} {batch : List (COutPoint × Option Coin)}
    (h : CoinsWf coins) (hbatch : ∀ change ∈ batch, ∀ coin, change.2 = some coin → CoinWf coin) :
    CoinsWf (applyBatch batch coins) := by
  induction batch generalizing coins with
  | nil => exact h
  | cons change batch ih =>
    rw [forall_mem_cons] at hbatch
    rw [applyBatch_cons]
    refine ih (fun o coin ho => ?_) hbatch.2
    rw [update_apply] at ho
    split_ifs at ho
    · exact hbatch.1 coin ho
    · exact h o coin ho

variable {rules : ConnectRules} {pindex : CBlockIndex} {block : CBlock} {updates : List TxUpdate}
  {coins coins' : COutPoint → Option Coin} {i : ℕ} {vtx : List CTransaction} {tx : CTransaction}

section Connected

variable {update : TxUpdate}

/-! ### Both halves of a transaction -/

/-- The inputs of a transaction with the coins that were stored, the last one first. -/
def undoneInputs (tx : CTransaction) (vprevout : List Coin) : List ((CTxIn × Coin) × ℕ) :=
  (tx.vin.zip vprevout).zipIdx.reverse

/-- The coins that are written when inputs are put back. -/
def restores (inputs : List ((CTxIn × Coin) × ℕ)) : List (COutPoint × Coin) :=
  inputs.map fun input => (input.1.1.prevout, input.1.2)

section

variable (h : TxConnects rules pindex coins i tx update coins')

include h

lemma TxConnects.coinsWf (hheight : 0 < pindex.nHeight) (hcoins : CoinsWf coins) : CoinsWf coins' := by
  rw [h.result]
  refine applyBatch_coinsWf (applyBatch_coinsWf hcoins fun change hchange coin hcoin => ?_)
    fun change hchange coin hcoin => ?_
  · obtain ⟨o, -, rfl⟩ := mem_map.mp hchange
    cases hcoin
  · obtain ⟨c, hc, rfl⟩ := mem_map.mp hchange
    cases hcoin
    obtain ⟨hspendable, hc'⟩ := mem_outputCoins hc
    exact ⟨hc' ▸ hheight, hspendable, (h.fresh c hc).2⟩

lemma TxConnects.vprevout_of_isCoinBase (hcb : tx.isCoinBase) : update.vprevout = [] := by
  have hspent := h.spent
  rw [spends, if_pos hcb, map_nil, eq_comm, map_eq_nil_iff] at hspent
  exact hspent

lemma TxConnects.created : ∀ c ∈ creates pindex tx, coins' c.1 = some c.2 := by
  intro c hc
  rw [h.result]
  refine applyBatch_of_forall ?_ fun change hchange heq => ?_
  · rw [keys_writes]
    exact mem_map_of_mem hc
  · obtain ⟨c', hc', rfl⟩ := mem_map.mp hchange
    rw [inj_on_of_nodup_map (h.checked.nodup_creates pindex) hc' hc heq]

lemma TxConnects.erase_creates :
    applyBatch (erases ((creates pindex tx).map Prod.fst)) coins' = applyBatch (erases (spends tx)) coins := by
  rw [h.result]
  refine applyBatch_restores (fun o => ?_) fun change hchange => ?_
  · rw [keys_writes, keys_erases]
  · obtain ⟨o, ho, rfl⟩ := mem_map.mp hchange
    obtain ⟨c, hc, rfl⟩ := mem_map.mp ho
    exact (h.fresh c hc).1.symm

variable (hcb : ¬tx.isCoinBase)

include hcb

lemma TxConnects.forall₂ : List.Forall₂ (fun txin coin => coins txin.prevout = some coin) tx.vin update.vprevout := by
  have hspent := h.spent
  rw [spends, if_neg hcb, map_map, ← forall₂_eq_eq_eq] at hspent
  exact forall₂_map_right_iff.mp (forall₂_map_left_iff.mp hspent)

omit hcb in
lemma TxConnects.undone_coin :
    ∀ input ∈ undoneInputs tx update.vprevout, coins input.1.1.prevout = some input.1.2 := by
  intro input hinput
  rw [undoneInputs, mem_reverse] at hinput
  have hmem := fst_mem_of_mem_zipIdx hinput
  by_cases hcb : tx.isCoinBase
  · rw [h.vprevout_of_isCoinBase hcb, zip_nil_right] at hmem
    cases hmem
  · exact (forall₂_iff_zip.mp (h.forall₂ hcb)).2 hmem

lemma TxConnects.keys_restores : (restores (undoneInputs tx update.vprevout)).map Prod.fst = (spends tx).reverse := by
  have hlen := (h.forall₂ hcb).length_eq
  rw [spends, if_neg hcb, restores, undoneInputs, map_map, map_reverse]
  congr 1
  calc (tx.vin.zip update.vprevout).zipIdx.map (Prod.fst ∘ fun input => (input.1.1.prevout, input.1.2))
      = ((tx.vin.zip update.vprevout).zipIdx.map Prod.fst).map (fun input => input.1.prevout) := by
        rw [map_map]
        rfl
    _ = ((tx.vin.zip update.vprevout).map Prod.fst).map (fun txin => txin.prevout) := by
        rw [zipIdx_map_fst, map_map]
        rfl
    _ = tx.vin.map (fun txin => txin.prevout) := by
        rw [map_fst_zip hlen.le]

lemma TxConnects.restore_spends :
    applyBatch (writes (restores (undoneInputs tx update.vprevout))) (applyBatch (erases (spends tx)) coins) =
      coins := by
  refine applyBatch_restores (fun o => ?_) fun change hchange => ?_
  · rw [keys_writes, keys_erases, h.keys_restores hcb, mem_reverse]
  · obtain ⟨c, hc, rfl⟩ := mem_map.mp hchange
    obtain ⟨input, hinput, rfl⟩ := mem_map.mp hc
    exact (h.undone_coin input hinput).symm

end

section

variable (h : TxsConnect rules pindex coins i vtx updates coins')

include h

lemma TxsConnect.coinsWf (hheight : 0 < pindex.nHeight) (hcoins : CoinsWf coins) : CoinsWf coins' := by
  induction h with
  | nil => exact hcoins
  | cons head tail ih => exact ih (head.coinsWf hheight hcoins)

lemma TxsConnect.length_eq : updates.length = vtx.length := by
  induction h with
  | nil => rfl
  | cons head tail ih => rw [length_cons, length_cons, ih]

end

variable (h : BlockConnects rules pindex coins block updates coins')

include h

lemma BlockConnects.nHeight_pos : 0 < pindex.nHeight := by
  obtain ⟨pprev, hpprev⟩ := isSome_iff_exists.mp h.pprev
  have := CBlockIndex.nHeight_of_pprev hpprev
  have := pprev.nHeight_nonneg
  omega

/-- What is stored about the block leaves out only that the coinbase spent nothing. -/
lemma BlockConnects.vtxundo : [] :: (blockUpdate updates).vtxundo = updates.map (·.vprevout) := by
  obtain ⟨htxs, -, -, hne, -⟩ := h
  generalize block.vtx = vtx at htxs hne
  cases htxs with
  | nil => exact absurd rfl hne
  | cons head tail =>
    rw [map_cons, head.vprevout_of_isCoinBase (head.isCoinBase.mpr rfl)]
    rfl

end Connected

/-! ### Disconnecting -/

/-- The records that are made when inputs are put back. -/
def undoInputRecords (rules : ConnectRules) (pindex : CBlockIndex) (i : ℕ) (txhash : Uint256)
    (inputs : List ((CTxIn × Coin) × ℕ)) : List IndexRecord :=
  inputs.flatMap fun ((txin, coin), j) =>
    (undoInput rules.hash160 pindex.nHeight i txhash j txin coin.out coin.nHeight).toList

/-- The records that are made when a transaction is disconnected. -/
def undoTxRecords (rules : ConnectRules) (pindex : CBlockIndex) (i : ℕ) (tx : CTransaction) (vprevout : List Coin) :
    List IndexRecord :=
  if rules.fAddressIndex then
    undoOutputs rules pindex i tx ++ undoInputRecords rules pindex i tx.hash (undoneInputs tx vprevout) else []

/-- The records that are made when transactions from an index on are disconnected, the last one first. -/
def undoRecords (rules : ConnectRules) (pindex : CBlockIndex) (i : ℕ) : List CTransaction → List TxUpdate →
    List IndexRecord
  | tx :: vtx, update :: updates =>
    undoRecords rules pindex (i + 1) vtx updates ++ undoTxRecords rules pindex i tx update.vprevout
  | _, _ => []

variable {view : CCoinsViewCache}

section Programs

variable {E : CoinsError → CCoinsViewCache → Prop} {undo : Coin} {txhash : Uint256}

/-- The loop over one list of transactions and then another. -/
lemma wp_disconnectTxs_append {txs txs' : List ((CTransaction × List Coin) × ℕ)}
    {Q : Bool × List IndexRecord → CCoinsViewCache → Prop}
    (h : wp (disconnectTxs rules pindex txs) (fun r => wp (disconnectTxs rules pindex txs')
      (fun r' => Q (r.1 && r'.1, r.2 ++ r'.2)) E) E view) :
    wp (disconnectTxs rules pindex (txs ++ txs')) Q E view := by
  induction txs generalizing view Q with
  | nil => exact h
  | cons tx txs ih =>
    rw [disconnectTxs, wp_bind] at h
    refine wp_seq h fun r view₁ hr => ?_
    rw [wp_bind] at hr ⊢
    refine ih (wp_mono hr (fun r' view₂ hr' => ?_) (fun _ _ => id))
    refine wp_mono hr' (fun r'' view₃ hQ => ?_) (fun _ _ => id)
    rw [Bool.and_assoc, append_assoc] at hQ
    exact hQ

variable (h : CacheWf view)

include h

/-- `ApplyTxInUndo` writes the coin that was spent. -/
lemma wp_applyTxInUndo (hundo : CoinWf undo) {out : COutPoint} (hnone : view.lookup out = none) :
    wp (applyTxInUndo undo out) (fun r view' => r = .ok ∧ Shows view (update view.lookup out (some undo)) view')
      E view := by
  refine wp_seq (wp_haveCoin h out) fun b view' ⟨hb, hview'⟩ => ?_
  rw [hnone] at hb
  subst hb
  refine (wp_ite _ _).mpr ⟨fun h0 => absurd h0 hundo.height.ne', fun _ => ?_⟩
  have hnone' : view'.lookup out = none := by rw [hview'.lookup, hnone]
  rw [wp_bind]
  refine wp_mono (wp_addCoin hview'.wf hundo.spendable (settled_of_lookup_eq_none hnone') fun _ => hnone')
    (fun _ view'' ⟨_, _, hview''⟩ => ?_) (fun _ _ hfail => ?_)
  · rw [hview'.lookup] at hview''
    exact ⟨rfl, hview'.trans hview''⟩
  · obtain hspent | hsome := hfail
    · rw [hundo.unspent] at hspent
      cases hspent
    · exact absurd hnone' hsome

/-- The record is about the coin that was put back. -/
lemma wp_undoTxInput {j : ℕ} {txin : CTxIn} (hundo : view.lookup txin.prevout = some undo) :
    wp (undoTxInput rules pindex i txhash j txin undo.nHeight) (fun records view' =>
      records = (if rules.fAddressIndex then undoInputRecords rules pindex i txhash [((txin, undo), j)] else []) ∧
      Shows view view.lookup view') E view := by
  refine (wp_ite _ _).mpr ⟨fun hoff => ⟨?_, .refl h⟩, fun hon => ?_⟩
  · rw [if_neg (by simpa using hoff)]
  · rw [wp_bind, if_pos (by simpa using hon)]
    refine (wp_accessCoin h txin.prevout).imp fun coin view' ⟨hcoin, hview'⟩ => ⟨?_, hview'⟩
    rw [hundo] at hcoin
    obtain ⟨rfl, -⟩ := Coin.visible_eq_some hcoin
    exact (append_nil _).symm

lemma wp_restoreInputs {inputs : List ((CTxIn × Coin) × ℕ)}
    (hnodup : ((restores inputs).map Prod.fst).Nodup) (hnone : ∀ input ∈ inputs, view.lookup input.1.1.prevout = none)
    (hcoins : ∀ input ∈ inputs, CoinWf input.1.2) : wp (restoreInputs rules pindex i txhash inputs) (fun r view' =>
      r = (true, if rules.fAddressIndex then undoInputRecords rules pindex i txhash inputs else []) ∧
      Shows view (applyBatch (writes (restores inputs)) view.lookup) view') E view := by
  induction inputs generalizing view with
  | nil =>
    refine ⟨?_, .refl h⟩
    rw [undoInputRecords, flatMap_nil, ite_self]
  | cons input inputs ih =>
    obtain ⟨⟨txin, undo⟩, j⟩ := input
    rw [forall_mem_cons] at hnone hcoins
    rw [restores, map_cons, map_cons, nodup_cons] at hnodup
    refine wp_seq (wp_applyTxInUndo h hcoins.1 hnone.1) fun res view₁ ⟨hres, hview₁⟩ => ?_
    subst hres
    refine (wp_ite _ _).mpr ⟨nofun, fun _ => ?_⟩
    rw [wp_bind]
    have hundo : view₁.lookup txin.prevout = some undo := by rw [hview₁.lookup, update_self]
    refine (wp_undoTxInput hview₁.wf hundo).imp fun records view₂ ⟨hrecords, hview₂⟩ => ?_
    have hview₂ := hview₁.keep hview₂
    refine wp_seq (ih hview₂.wf hnodup.2 (fun input hinput => ?_) hcoins.2) fun r view' ⟨hr, hview'⟩ => ⟨?_, ?_⟩
    · rw [hview₂.lookup, update_of_ne, hnone.2 input hinput]
      intro heq
      refine hnodup.1 ?_
      rw [← heq, map_map]
      exact mem_map.mpr ⟨input, hinput, rfl⟩
    · rw [hr, hrecords]
      split_ifs
      · rw [undoInputRecords, undoInputRecords, undoInputRecords, flatMap_singleton, flatMap_cons]
        rfl
      · rfl
    · rw [hview₂.lookup] at hview'
      exact hview₂.trans hview'

lemma wp_spendOutputs {hash : Uint256} {fCoinbase : Bool} {nHeight : ℤ} {o : ℕ}
    {vout : List CTxOut} (hnodup : ((outputCoins hash fCoinbase nHeight o vout).map Prod.fst).Nodup)
    (hcoins : ∀ c ∈ outputCoins hash fCoinbase nHeight o vout, view.lookup c.1 = some c.2) :
    wp (spendOutputs hash fCoinbase nHeight o vout) (fun r view' => r = true ∧
      Shows view (applyBatch (erases ((outputCoins hash fCoinbase nHeight o vout).map Prod.fst)) view.lookup) view')
      E view := by
  induction vout generalizing view o with
  | nil => exact ⟨rfl, .refl h⟩
  | cons out vout ih =>
    unfold spendOutputs spendOutput
    unfold outputCoins at hnodup hcoins ⊢
    rw [wp_bind]
    cases hun : isUnspendable out.scriptPubKey with
    | true =>
      rw [hun] at hnodup hcoins
      exact wp_seq (ih h hnodup hcoins) fun r view' hr => ⟨by rw [hr.1]; rfl, hr.2⟩
    | false =>
      rw [hun] at hnodup hcoins
      rw [if_neg Bool.false_ne_true, singleton_append] at hnodup hcoins
      rw [map_cons, nodup_cons] at hnodup
      rw [forall_mem_cons] at hcoins
      refine wp_seq (wp_spendCoin h hcoins.1) fun r view₁ hr => ?_
      obtain ⟨rfl, hview₁⟩ := hr
      refine wp_seq (ih hview₁.wf hnodup.2 fun c hc => ?_) fun r view' hr => ⟨?_, ?_⟩
      · rw [hview₁.lookup, update_of_ne, hcoins.2 c hc]
        intro heq
        exact hnodup.1 (mem_map.mpr ⟨c, hc, heq⟩)
      · rw [hr.1]
        simp
      · have hview' := hr.2
        rw [hview₁.lookup] at hview'
        exact hview₁.trans hview'

/-- A turn of the loop of `DisconnectBlock`. -/
lemma wp_disconnectTx {update : TxUpdate}
    (hconnects : TxConnects rules pindex coins i tx update view.lookup) (hcoins : CoinsWf coins) :
    wp (disconnectTx rules pindex i tx update.vprevout) (fun r view' =>
      r = (true, undoTxRecords rules pindex i tx update.vprevout) ∧ Shows view coins view') E view := by
  refine wp_seq (wp_spendOutputs h (hconnects.checked.nodup_creates pindex) hconnects.created)
    fun r view₁ hr => ?_
  obtain ⟨rfl, hview₁⟩ := hr
  have herase := hconnects.erase_creates
  unfold creates at herase
  rw [herase] at hview₁
  by_cases hi : i = 0
  · -- a coinbase spends nothing
    have hcb := hconnects.isCoinBase.mpr hi
    rw [spends, if_pos hcb] at hview₁
    rw [if_pos hi]
    refine ⟨?_, hview₁⟩
    rw [undoTxRecords, hconnects.vprevout_of_isCoinBase hcb, undoneInputs, zip_nil_right]
    exact congrArg (Prod.mk true) (by split_ifs <;> simp [undoInputRecords])
  · have hcb : ¬tx.isCoinBase := fun hcb => hi (hconnects.isCoinBase.mp hcb)
    have hnone : ∀ o ∈ spends tx, view₁.lookup o = none := by
      intro o ho
      rw [hview₁.lookup]
      refine applyBatch_of_forall (by rwa [keys_erases]) fun change hchange _ => ?_
      obtain ⟨o', -, rfl⟩ := mem_map.mp hchange
      rfl
    have hkeys := hconnects.keys_restores hcb
    rw [if_neg hi]
    refine (wp_ite _ _).mpr ⟨fun hlen => absurd (hconnects.forall₂ hcb).length_eq.symm hlen, fun _ => ?_⟩
    refine wp_seq (wp_restoreInputs hview₁.wf ?_ ?_ ?_) fun r view' hr => ⟨?_, ?_⟩
    · exact hkeys ▸ nodup_reverse.mpr hconnects.checked.nodup_spends
    · intro input hinput
      refine hnone _ (mem_reverse.mp (hkeys ▸ ?_))
      exact mem_map.mpr ⟨_, mem_map_of_mem hinput, rfl⟩
    · exact fun input hinput => hcoins _ _ (hconnects.undone_coin input hinput)
    · rw [hr.1, undoTxRecords]
      exact congrArg (Prod.mk true) (by split_ifs <;> rfl)
    · have hview' := hr.2
      rw [hview₁.lookup] at hview'
      have hrestore := hconnects.restore_spends hcb
      unfold undoneInputs at hrestore
      rw [hrestore] at hview'
      exact hview₁.trans hview'

lemma wp_disconnectTxs (hconnects : TxsConnect rules pindex coins i vtx updates coins')
    (hlookup : view.lookup = coins') (hheight : 0 < pindex.nHeight) (hcoins : CoinsWf coins) :
    wp (disconnectTxs rules pindex ((vtx.zip (updates.map (·.vprevout))).zipIdx i).reverse) (fun r view' =>
      r = (true, undoRecords rules pindex i vtx updates) ∧ Shows view coins view') E view := by
  induction hconnects with
  | nil coins i => exact ⟨rfl, hlookup ▸ .refl h⟩
  | cons head tail ih =>
    rw [map_cons, zip_cons_cons, zipIdx_cons, reverse_cons]
    refine wp_disconnectTxs_append (wp_mono (ih hlookup (head.coinsWf hheight hcoins))
      (fun r view₁ ⟨hr, hview₁⟩ => ?_) (fun _ _ => id))
    subst hr
    refine wp_seq (wp_disconnectTx hview₁.wf (hview₁.lookup ▸ head) hcoins)
      fun r view' ⟨hr, hview'⟩ => ⟨?_, hview₁.trans hview'⟩
    rw [hr]
    exact congrArg (Prod.mk true) (congrArg _ (append_nil _))

/-! ### The block -/

lemma wp_disconnectBlock (hconnects : BlockConnects rules pindex coins block updates view.lookup)
    (hcoins : CoinsWf coins) (hundo : rules.undoSpecialTxsInBlock block pindex) :
    wp (disconnectBlock rules pindex block (some (rules.getBlockHash pindex.header)) (blockUpdate updates).vtxundo)
      (fun r view' => r = (.ok, undoRecords rules pindex 0 block.vtx updates) ∧ CacheWf view' ∧ view'.lookup = coins ∧
        some view'.hashBlock = pindex.pprev.map fun pprev => rules.getBlockHash pprev.header) E view := by
  obtain ⟨pprev, hpprev⟩ := isSome_iff_exists.mp hconnects.pprev
  unfold disconnectBlock
  rw [wp_tryCatch]
  refine (wp_ite _ _).mpr ⟨fun hbest => absurd rfl hbest.2, fun _ => ?_⟩
  have hstored := hconnects.vtxundo
  refine (wp_ite _ _).mpr ⟨fun hne => ?_, fun _ => (wp_ite _ _).mpr ⟨fun hfail => ?_, fun _ => ?_⟩⟩
  · rw [← length_cons (a := []), hstored, length_map, hconnects.txs.length_eq] at hne
    exact absurd rfl hne
  · rw [hundo] at hfail
    cases hfail
  · rw [wp_bind, hstored]
    refine (wp_disconnectTxs h hconnects.txs rfl hconnects.nHeight_pos hcoins).imp fun r view' ⟨hr, hview'⟩ => ?_
    subst hr
    rw [hpprev]
    exact ⟨rfl, hview'.wf.setBestBlock _, hview'.lookup, rfl⟩

end Programs

/-- Where the special transactions of the block cannot be undone, nothing is. -/
lemma run_disconnectBlock_failed {evoBestBlock : Option Uint256} {vtxundo : List (List Coin)}
    (hundo : rules.undoSpecialTxsInBlock block pindex = false) (view : CCoinsViewCache) :
    (disconnectBlock rules pindex block evoBestBlock vtxundo).run view = .ok (.failed, []) view := by
  have hfail : wp (disconnectBlock rules pindex block evoBestBlock vtxundo)
      (fun r view' => r = (.failed, []) ∧ view' = view) (fun _ _ => False) view := by
    unfold disconnectBlock disconnectBlockOrFail
    rw [wp_tryCatch, hundo]
    refine (wp_ite _ _).mpr ⟨fun _ => ⟨rfl, rfl⟩, fun _ => (wp_ite _ _).mpr ⟨fun _ => ⟨rfl, rfl⟩, fun _ => ?_⟩⟩
    exact ⟨rfl, rfl⟩
  obtain ⟨r, view', hrun, rfl, rfl⟩ := hfail.exists_ok
  exact hrun

/-! ### Special transactions -/

/-- What is around the special transactions of a block that is connected and disconnected. -/
structure SpecialTxContext (G : Type) where
  rules : SpecialTxRules G
  /-- Orders of iterations while the block is connected. -/
  order : IterationOrder G
  /-- Orders of iterations while it is disconnected. -/
  undoOrder : IterationOrder G
  active : Option CBlockIndex
  fScriptChecks : Bool

section Special

variable {G : Type} [DecidableEq G] (ctx : SpecialTxContext G)

/-- The call of `ProcessSpecialTxsInBlock` in `ConnectBlock`. -/
def SpecialTxContext.process (block : CBlock) (pindex : CBlockIndex) (coins : COutPoint → Option Coin) : EvoM G Unit :=
  processSpecialTxsInBlock ctx.rules ctx.order ctx.active block pindex (fun o => (coins o).map (·.out)) false
    ctx.fScriptChecks

/-- The call of `UndoSpecialTxsInBlock` in `DisconnectBlock`. -/
def SpecialTxContext.undo (block : CBlock) (pindex : CBlockIndex) (s : EvoState G) : Bool × EvoState G :=
  undoSpecialTxsInBlock ctx.rules ctx.undoOrder block pindex s

/-- The rules with special transactions as they are modelled: blocks are connected in one state and disconnected in
another. -/
def ConnectRules.withSpecialTxs (rules : ConnectRules) (s s₁ : EvoState G) : ConnectRules :=
  { rules with
    params := ctx.rules.evo.params
    getBlockHash := ctx.rules.evo.getBlockHash
    processSpecialTxsInBlock := fun block pindex coins =>
      match (ctx.process block pindex coins).run s with
      | .ok _ _ => .ok ()
      | .error reason _ => .error reason
    undoSpecialTxsInBlock := fun block pindex => (ctx.undo block pindex s₁).1 }

/-- A block of a tree is accepted by `ConnectBlock`, after its predecessors went through the masternode manager. What it
is given is a view of the coins and a state of masternodes and quorums, what it leaves is another view and state. -/
structure BlockAccepted (rules : ConnectRules) (tree : BlockTree ctx.rules.evo) (pindex : CBlockIndex)
    (view : CCoinsViewCache) (s : EvoState G) (update : BlockUpdate) (view₁ : CCoinsViewCache) (s₁ : EvoState G) :
    Prop where
  utxo : UtxoWf view
  /-- The tree has the coins of the block. -/
  coins : tree.view pindex = fun o => (view.lookup o).map (·.out)
  bip30 : ∀ pprev, pindex.pprev = some pprev → fEnforceBIP30 (rules.withSpecialTxs ctx s s₁) pindex pprev
  connect : ∃ evoBestBlock, (connectBlock (rules.withSpecialTxs ctx s s₁) pindex (tree.block pindex) evoBestBlock).run
    view = .ok (some update) view₁
  special : (ctx.process (tree.block pindex) pindex view.lookup).run s = .ok () s₁
  node : pindex ∈ tree.nodes
  /-- The masternode manager was in a run in which it has the list of the previous block. -/
  manager : ∃ processed, ManagerRun ctx.rules.evo tree s.manager processed ∧
    ∀ p, pindex.pprev = some p → Askable ctx.rules.evo tree processed p
  /-- No operator key of the list changes its encoding only. -/
  encodings : ∀ p list new, pindex.pprev = some p → ListOf tree p list →
    (buildNewListFromBlock ctx.rules.evo p (tree.view pindex) (tree.block pindex)).run list = .ok () new →
    SameEncodings list new

variable {ctx} {tree : BlockTree ctx.rules.evo} {view view₁ : CCoinsViewCache} {s s₁ : EvoState G}
  {update : BlockUpdate} (h : BlockAccepted ctx rules tree pindex view s update view₁ s₁)

include h

/-- What a block that was accepted did. -/
lemma BlockAccepted.blockConnects : CacheWf view₁ ∧ ∃ updates,
    BlockConnects (rules.withSpecialTxs ctx s s₁) pindex view.lookup (tree.block pindex) updates view₁.lookup ∧
      update = blockUpdate updates := by
  obtain ⟨evoBestBlock, hconnect⟩ := h.connect
  obtain ⟨hwf, -, -, hupdates⟩ := (wp_connectBlock h.utxo.toCacheWf _ evoBestBlock h.bip30).ok hconnect update rfl
  exact ⟨hwf, hupdates⟩

lemma BlockAccepted.undoSpecialTxs_iff :
    (rules.withSpecialTxs ctx s s₁).undoSpecialTxsInBlock (tree.block pindex) pindex ↔
      NoEarlyCommitment ctx.rules (tree.block pindex) pindex := by
  obtain ⟨processed, hrun, hp⟩ := h.manager
  have hspecial := h.special
  unfold SpecialTxContext.process at hspecial
  rw [← h.coins] at hspecial
  exact hrun.undoSpecialTxs_iff h.node hp h.encodings hspecial

/-- A block that `ConnectBlock` accepted can be disconnected, from the view that it left or from any other one that
shows the same coins, and every outpoint has the coin again that it had before, exactly when the block has no
transaction of the type of commitments below the height of DIP3. -/
theorem disconnectBlock_undoes_iff :
    UtxoWf view₁ ∧ ((∀ view', CacheWf view' → view'.lookup = view₁.lookup → ∃ records view'',
        (disconnectBlock (rules.withSpecialTxs ctx s s₁) pindex (tree.block pindex)
          (some (ctx.rules.evo.getBlockHash pindex.header)) update.vtxundo).run view' = .ok (.ok, records) view'' ∧
        UtxoWf view'' ∧ view''.lookup = view.lookup) ↔ NoEarlyCommitment ctx.rules (tree.block pindex) pindex) := by
  obtain ⟨hwf, updates, hconnects, rfl⟩ := h.blockConnects
  refine ⟨⟨hwf, hconnects.txs.coinsWf hconnects.nHeight_pos h.utxo.coins⟩, ?_⟩
  rw [← h.undoSpecialTxs_iff]
  constructor
  · intro hundone
    obtain ⟨records, view'', hrun, -⟩ := hundone view₁ hwf rfl
    by_contra hfail
    rw [run_disconnectBlock_failed (Bool.eq_false_iff.mpr hfail)] at hrun
    cases hrun
  · intro hundo view' hview' hlookup
    rw [← hlookup] at hconnects
    obtain ⟨r, view'', hrun, hr, hwf', hlookup', -⟩ :=
      (wp_disconnectBlock hview' hconnects h.utxo.coins hundo).exists_ok
    subst hr
    exact ⟨_, view'', hrun, ⟨hwf', hlookup' ▸ h.utxo.coins⟩, hlookup'⟩

end Special

/-! ### Instances -/

/-- Rules that check nothing beyond what is modelled. -/
def toyConnectRules : ConnectRules where
  params := Consensus.mainParams
  hashGenesisBlock := 0
  BIP34Hash := 0
  nSuperblockStartHash := 0
  hash160 _ := 9
  getBlockHash header := header.nNonce.setWidth 256 + 1
  checkBlockHeader _ := .ok ()
  blockMerkleRoot _ := (0, false)
  getLegacySigOpCount _ := 0
  hasConflictingChainLock _ _ := false
  processSpecialTxsInBlock _ _ _ := .ok ()
  undoSpecialTxsInBlock _ _ := true
  sequenceLocks _ _ _ := true
  getTransactionSigOpCount _ _ := 0
  checkInputs _ _ := .ok ()
  checkConflictingLocks _ _ := .ok ()
  checkPayments _ _ _ := .ok ()
  fAddressIndex := true

/-- Masternode rules without signatures, with a height of DIP3. -/
def toyEvoRules (DIP0003Height : ℤ) : EvoRules (Fin 4) :=
  { toyRules with
    params := { Consensus.mainParams with DIP0003Height, DIP0003EnforcementHeight := DIP0003Height }
    getBlockHash := toyConnectRules.getBlockHash }

/-- Quorums of one type, on the toy chain. -/
def toySpecialTxRules (DIP0003Height : ℤ) : SpecialTxRules (Fin 4) where
  evo := toyEvoRules DIP0003Height
  quorums := {
    llmqs := availableLlmqs.filter (·.type = .llmq50_60)
    DIP0003Height
    getBlockHash := toyConnectRules.getBlockHash
    lookupBlockIndex := fun hash => some (toyIndex (hash.toNat - 1))
    isDIP0024Active := fun _ => false
    isV19Active := fun _ => false
    isQuorumTypeEnabled := fun _ _ => true
    computeQuorumMembersSize := fun _ _ => 50
    verifySigs := fun _ _ => true
    serializeHash := fun qc => qc.quorumHash }
  DIP0003Height_eq := rfl
  v19ActivationHeight _ := -1
  checkCbTxMerkleRoots _ _ _ _ := .ok ()

def toySpecialTxContext (DIP0003Height : ℤ) : SpecialTxContext (Fin 4) where
  rules := toySpecialTxRules DIP0003Height
  order := toyOrder
  undoOrder := toyOrder
  active := some (toyIndex 33)
  fScriptChecks := true

def toyPubKeyHashScript : CScript := [0x76, 0xa9, 0x14] ++ replicate 20 7 ++ [0x88, 0xac]

def toyPubKeyScript : CScript := [0x21, 0x02] ++ replicate 32 7 ++ [0xac]

def toyConnectIndex : CBlockIndex := toyIndex 34

def toyCoinsView : CCoinsViewCache where
  base := {
    getCoin := fun o =>
      if o = ⟨101, 0⟩ then some ⟨⟨5, toyPubKeyHashScript⟩, false, 1⟩
      else if o = ⟨102, 0⟩ then some ⟨⟨5, toyPubKeyScript⟩, false, 1⟩
      else none
    getBestBlock := 34 }

lemma toyCoinsView_cases {o : COutPoint} {coin : Coin} (h : toyCoinsView.lookup o = some coin) :
    o = ⟨101, 0⟩ ∧ coin = ⟨⟨5, toyPubKeyHashScript⟩, false, 1⟩ ∨
      o = ⟨102, 0⟩ ∧ coin = ⟨⟨5, toyPubKeyScript⟩, false, 1⟩ := by
  obtain ⟨c, hc, hcoin⟩ := bind_eq_some_iff.mp h
  obtain ⟨rfl, -⟩ := Coin.visible_eq_some hcoin
  unfold toyCoinsView at hc
  dsimp only at hc
  split_ifs at hc with h101 h102
  · exact .inl ⟨h101, (some.inj hc).symm⟩
  · exact .inr ⟨h102, (some.inj hc).symm⟩

lemma utxoWf_toyCoinsView : UtxoWf toyCoinsView := by
  refine ⟨⟨nofun, nofun⟩, fun o coin ho => ?_⟩
  obtain ⟨-, rfl⟩ | ⟨-, rfl⟩ := toyCoinsView_cases ho
  · exact ⟨by decide, by decide, by decide⟩
  · exact ⟨by decide, by decide, by decide⟩

def toyCoinbase : CTransaction where
  hash := 1
  nVersion := 1
  nType := .normal
  vin := [⟨⟨0, 0xffffffff⟩, [1, 2], 0⟩]
  vout := [⟨1, toyPubKeyHashScript⟩, ⟨0, [0x6a]⟩]

def toyPayment (hash spent : Uint256) (vout : List CTxOut) : CTransaction where
  hash := hash
  nVersion := 1
  nType := .normal
  vin := [⟨⟨spent, 0⟩, [], 0⟩]
  vout := vout

open Wire in
/-- The transaction with the commitment of the quorum of the second cycle. -/
def toyCommitmentTx : CTransaction where
  hash := 4
  nVersion := 3
  nType := .quorumCommitment
  vin := []
  vout := []
  vExtraPayload := put 1#16 ++ put 34#32 ++ put 1#16 ++ put 1#8 ++ put 25#256 ++
    [50, 255, 3, 0, 0, 0, 0, 0] ++ [50, 255, 3, 0, 0, 0, 0, 0] ++ put (toyBls.serialize true 2) ++ put 1#256 ++
      put 1#768 ++ put 1#768

/-- A block with a commitment, and a transaction that spends an output of the one before it. -/
def toyChainedBlock : CBlock where
  nNonce := 34
  vtx := [toyCoinbase, toyCommitmentTx, toyPayment 2 101 [⟨2, toyPubKeyHashScript⟩, ⟨3, toyPubKeyScript⟩],
    toyPayment 3 2 [⟨1, toyPubKeyHashScript⟩]]

def accepts (rules : ConnectRules) (pindex : CBlockIndex) (block : CBlock) (evoBestBlock : Option Uint256)
    (view : CCoinsViewCache) : Bool :=
  match (connectBlock rules pindex block evoBestBlock).run view with
  | .ok (some _) _ => true
  | _ => false

lemma accepts_iff {evoBestBlock : Option Uint256} : accepts rules pindex block evoBestBlock view ↔
      ∃ update view₁, (connectBlock rules pindex block evoBestBlock).run view = .ok (some update) view₁ := by
  unfold accepts
  split
  · next update view₁ hrun => exact iff_of_true rfl ⟨update, view₁, hrun⟩
  · next hnot => exact iff_of_false Bool.false_ne_true fun ⟨update, view₁, hrun⟩ => hnot update view₁ hrun

def toyEvoState : EvoState (Fin 4) where
  processor := { mapHasMinedCommitmentCache := fun _ => { maxSize := 5, truncateThreshold := 10 } }
  blsLegacyScheme := true

def toyEvoStateAfter (DIP0003Height : ℤ) (block : CBlock) : EvoState (Fin 4) :=
  finalState ((toySpecialTxContext DIP0003Height).process block toyConnectIndex toyCoinsView.lookup) toyEvoState

lemma registrations_eq_zero {block : CBlockIndex → CBlock} (h : ∀ b, (block b).vtx.countP isRegistration = 0)
    (header : CBlockHeader) (ancestors : List CBlockHeader) : registrations block header ancestors = 0 := by
  induction ancestors generalizing header with
  | nil => exact h _
  | cons prev ancestors ih => rw [registrations, h, ih]

/-- A block that registers no masternode, and whose transactions and properties have different hashes. -/
structure ToyBlockOk (DIP0003Height : ℤ) (block : CBlock) : Prop where
  registrations : block.vtx.countP isRegistration = 0
  hashes : DistinctHashes (toyEvoRules DIP0003Height) {tx | tx ∈ block.vtx}

/-- The toy chain with one block that has transactions. -/
def toyConnectTree {DIP0003Height : ℤ} {block : CBlock} (h : ToyBlockOk DIP0003Height block) :
    BlockTree (toySpecialTxContext DIP0003Height).rules.evo where
  nodes := {b | b ∈ (range 35).map toyIndex}
  block b := if b = toyConnectIndex then block else { vtx := [] }
  view _ o := (toyCoinsView.lookup o).map (·.out)
  pprev_mem := by
    have h : ∀ b ∈ (range 35).map toyIndex, ∀ p ∈ b.pprev, p ∈ (range 35).map toyIndex := by decide +kernel
    intro b p hb hp
    exact h b hb p hp
  hash_inj := by
    have h : ∀ a ∈ (range 35).map toyIndex, ∀ b ∈ (range 35).map toyIndex,
        toyConnectRules.getBlockHash a.header = toyConnectRules.getBlockHash b.header → a = b := by
      decide +kernel
    exact fun a ha b hb => h a ha b hb
  height := by
    have h : ∀ b ∈ (range 35).map toyIndex, Wire.IsInt32 b.nHeight := by
      unfold Wire.IsInt32
      decide +kernel
    exact h
  count b _ := by
    refine (registrations_eq_zero (fun b => ?_) _ _).trans_le (Nat.zero_le _)
    split_ifs
    · exact h.registrations
    · rfl
  distinct := by
    refine h.hashes.mono ?_
    rintro tx ⟨b, -, htx⟩
    split_ifs at htx
    · exact htx
    · cases htx

lemma block_toyConnectTree {DIP0003Height : ℤ} {block : CBlock} (h : ToyBlockOk DIP0003Height block) :
    (toyConnectTree h).block toyConnectIndex = block := by
  unfold toyConnectTree
  dsimp only
  rw [if_pos rfl]

/-- A block on the toy chain is accepted, evaluated. -/
lemma blockAccepted_toyConnectTree {DIP0003Height : ℤ} {block : CBlock} (hblock : ToyBlockOk DIP0003Height block)
    (hheight : 33 < DIP0003Height)
    (hprocess : returns ((toySpecialTxContext DIP0003Height).process block toyConnectIndex toyCoinsView.lookup)
      toyEvoState)
    (hBIP30 : ∀ p ∈ toyConnectIndex.pprev, fEnforceBIP30 (toyConnectRules.withSpecialTxs
      (toySpecialTxContext DIP0003Height) toyEvoState (toyEvoStateAfter DIP0003Height block)) toyConnectIndex p)
    (haccepts : accepts (toyConnectRules.withSpecialTxs (toySpecialTxContext DIP0003Height) toyEvoState
      (toyEvoStateAfter DIP0003Height block)) toyConnectIndex block (some 34) toyCoinsView) :
    ∃ update view₁, BlockAccepted (toySpecialTxContext DIP0003Height) toyConnectRules (toyConnectTree hblock)
      toyConnectIndex toyCoinsView toyEvoState update view₁ (toyEvoStateAfter DIP0003Height block) := by
  obtain ⟨update, view₁, hrun⟩ := accepts_iff.mp haccepts
  have hbelow : ∀ p, toyConnectIndex.pprev = some p → p.nHeight < DIP0003Height := by
    rintro p hp
    obtain rfl := some.inj (toyIndex_pprev.symm.trans hp)
    exact hheight
  have hnode : ∀ height < 35, toyIndex height ∈ (toyConnectTree hblock).nodes :=
    fun height h => mem_map.mpr ⟨height, mem_range.mpr h, rfl⟩
  refine ⟨update, view₁, {
    utxo := utxoWf_toyCoinsView
    coins := rfl
    bip30 := fun p hp => hBIP30 p hp
    connect := ⟨some 34, hrun⟩
    special := run_of_returns hprocess
    node := hnode 34 (by decide)
    manager := ⟨∅, .init, fun p hp => ⟨(toyConnectTree hblock).pprev_mem (hnode 34 (by decide)) hp, .inr (hbelow p hp)⟩⟩
    encodings := fun p list new hp hlist _ => ?_ }⟩
  cases hlist with
  | initial =>
    intro x a b ha
    cases ha
  | after _ h => exact absurd h.active (not_le.mpr (hbelow p hp))

lemma toyBlockOk_toyChainedBlock : ToyBlockOk 34 toyChainedBlock :=
  ⟨by decide +kernel, distinctHashes_of_forall (by decide +kernel) (by decide +kernel)⟩

lemma exists_blockAccepted_toyChainedBlock : ∃ update view₁, BlockAccepted (toySpecialTxContext 34) toyConnectRules
    (toyConnectTree toyBlockOk_toyChainedBlock) toyConnectIndex toyCoinsView toyEvoState update view₁
    (toyEvoStateAfter 34 toyChainedBlock) :=
  blockAccepted_toyConnectTree toyBlockOk_toyChainedBlock (by decide) (by decide +kernel) (by decide +kernel)
    (by decide +kernel)

/-- A block that commits to a quorum and spends an output of its own is disconnected. -/
theorem disconnectBlock_undoes_iff_toyChainedBlock :
    let tree := toyConnectTree toyBlockOk_toyChainedBlock
    let s₁ := toyEvoStateAfter 34 toyChainedBlock
    tree.block toyConnectIndex = toyChainedBlock ∧ s₁.processor.isMined .llmq50_60 25 ∧
    ∃ update view₁ records view₂,
      BlockAccepted (toySpecialTxContext 34) toyConnectRules tree toyConnectIndex toyCoinsView toyEvoState
        update view₁ s₁ ∧
      (disconnectBlock (toyConnectRules.withSpecialTxs (toySpecialTxContext 34) toyEvoState s₁) toyConnectIndex
        (tree.block toyConnectIndex) (some 35) update.vtxundo).run view₁ = .ok (.ok, records) view₂ ∧
      view₂.lookup = toyCoinsView.lookup := by
  obtain ⟨update, view₁, h⟩ := exists_blockAccepted_toyChainedBlock
  obtain ⟨hview₁, hiff⟩ := disconnectBlock_undoes_iff h
  obtain ⟨records, view₂, hrun, -, hlookup⟩ := hiff.mpr (.inl le_rfl) view₁ hview₁.toCacheWf rfl
  exact ⟨block_toyConnectTree _, by decide +kernel, update, view₁, records, view₂, h, hrun, hlookup⟩

/-- A block with a transaction of the type of commitments and of version 1. -/
def toyEarlyBlock : CBlock where
  nNonce := 34
  vtx := [toyCoinbase, { toyPayment 2 101 [⟨2, toyPubKeyHashScript⟩] with nType := .quorumCommitment }]

lemma toyBlockOk_toyEarlyBlock : ToyBlockOk 432 toyEarlyBlock :=
  ⟨by decide +kernel, distinctHashes_of_forall (by decide +kernel) (by decide +kernel)⟩

lemma not_noEarlyCommitment_toyEarlyBlock : ¬NoEarlyCommitment (toySpecialTxRules 432) toyEarlyBlock
    toyConnectIndex := by
  rintro (h | h)
  · exact absurd h (by decide)
  · exact absurd h (by decide)

/-- Below the height of DIP3, which is 432 on the network for regression tests, the block is accepted and cannot be
disconnected. -/
theorem disconnectBlock_fails_toyEarlyBlock :
    let tree := toyConnectTree toyBlockOk_toyEarlyBlock
    let s₁ := toyEvoStateAfter 432 toyEarlyBlock
    tree.block toyConnectIndex = toyEarlyBlock ∧ ∃ update view₁,
      BlockAccepted (toySpecialTxContext 432) toyConnectRules tree toyConnectIndex toyCoinsView toyEvoState
        update view₁ s₁ ∧
      (disconnectBlock (toyConnectRules.withSpecialTxs (toySpecialTxContext 432) toyEvoState s₁) toyConnectIndex
        (tree.block toyConnectIndex) (some 35) update.vtxundo).run view₁ = .ok (.failed, []) view₁ := by
  obtain ⟨update, view₁, h⟩ := blockAccepted_toyConnectTree toyBlockOk_toyEarlyBlock (by decide) (by decide +kernel)
    (by decide +kernel) (by decide +kernel)
  have hblock := block_toyConnectTree toyBlockOk_toyEarlyBlock
  refine ⟨hblock, update, view₁, h, run_disconnectBlock_failed (Bool.eq_false_iff.mpr fun hundo => ?_) view₁⟩
  have hno := h.undoSpecialTxs_iff.mp hundo
  rw [hblock] at hno
  exact not_noEarlyCommitment_toyEarlyBlock hno

end Blocx
