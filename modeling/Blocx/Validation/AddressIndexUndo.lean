import Blocx.Validation.UndoBlock

/-!
# Undoing the address index

When a block is disconnected, the records that `DisconnectBlock` makes are taken out of the address index, and the index
of unspent outputs is updated with them. For outputs, and for inputs that spend a script hash or the hash of a public
key, these records have the keys of those that `ConnectBlock` made. For an input that spends a script that pays to a
public key they do not: the branch erases the key of a received output instead of the key of a spent one, and erases an
unspent output of the spending transaction instead of restoring the one that was spent.

Without such inputs both indexes are restored. For the address index this is the rule for batches: the keys are the
same, and none of them was there before, because each has the height of the block. For the unspent outputs the order
counts, since an output may be created and spent in the block. A key ends with the value that the first transaction
about it leaves when it is undone. With such an input, its key in the address index stays behind.
-/

namespace Blocx

open Option hiding any_map map_map

open List Function

open CCoinsViewCache AddressDb

/-! ### The condition -/

/-- The coin pays to a public key. -/
def Coin.paysToPubKey (coin : Coin) : Bool := addressKind coin.out.scriptPubKey = some .pubKey

/-- The coins after a transaction of a block. -/
def connectCoins (pindex : CBlockIndex) (tx : CTransaction) (coins : COutPoint → Option Coin) :
    COutPoint → Option Coin :=
  applyBatch (writes (creates pindex tx)) (applyBatch (erases (spends tx)) coins)

/-- One of the transactions spends a coin that pays to a public key. -/
def spendsPayToPubKey (pindex : CBlockIndex) (coins : COutPoint → Option Coin) : List CTransaction → Bool
  | [] => false
  | tx :: vtx =>
    ((spends tx).any fun o => (coins o).any Coin.paysToPubKey) ||
      spendsPayToPubKey pindex (connectCoins pindex tx coins) vtx

/-- What is stored about the transactions has a coin that pays to a public key. -/
def storesPayToPubKey (updates : List TxUpdate) : Bool :=
  updates.any fun update => update.vprevout.any Coin.paysToPubKey

variable {coins coins' : COutPoint → Option Coin} {updates : List TxUpdate} {rules : ConnectRules}
  {pindex : CBlockIndex}

section Transactions

variable {i k j : ℕ} {tx : CTransaction} {vtx : List CTransaction} {update : TxUpdate} {record : IndexRecord}
  {records : List IndexRecord} {coin : Coin} {txhash hash : Uint256} {vprevout : List Coin} {db : AddressDb}
  {o : COutPoint} {vout : List CTxOut} {v : Option CAddressUnspentValue} {key : CAddressUnspentKey}

/-! ### Keys of the records -/

/-- The keys of a record in both indexes. -/
def IndexRecord.keys (record : IndexRecord) : CAddressIndexKey × CAddressUnspentKey :=
  (record.address.1, record.unspent.1)

section Records

variable {hash160 : List UInt8 → BitVec 160} {nHeight undoHeight : ℤ} {input : CTxIn} {out : CTxOut}

/-- Spending is undone by restoring the output, unless the coin pays to a public key. -/
lemma undoInput_eq (h : coin.paysToPubKey = false) :
    undoInput hash160 nHeight i txhash j input coin.out undoHeight =
      (addressKind coin.out.scriptPubKey).map fun kind => {
      address := (indexKey hash160 nHeight i txhash coin.out.scriptPubKey kind j true, coin.out.nValue * -1)
      unspent := (unspentKey hash160 coin.out.scriptPubKey kind input.prevout.hash input.prevout.n.toNat,
        ⟨coin.out.nValue, coin.out.scriptPubKey, undoHeight⟩) } := by
  unfold Coin.paysToPubKey at h
  unfold undoInput
  cases hkind : addressKind coin.out.scriptPubKey with
  | none => rfl
  | some kind =>
    cases kind with
    | scriptHash | pubKeyHash => rfl
    | pubKey =>
      rw [hkind] at h
      cases h

lemma keys_undoOutput : (undoOutput hash160 nHeight i txhash k out).map IndexRecord.keys =
      (recordOutput hash160 nHeight i txhash k out).map IndexRecord.keys := by
  unfold undoOutput recordOutput
  rw [Option.map_map, Option.map_map]
  rfl

lemma keys_undoInput (h : coin.paysToPubKey = false) :
    (undoInput hash160 nHeight i txhash j input coin.out undoHeight).map IndexRecord.keys =
      (recordInput hash160 nHeight i txhash j input coin.out).map IndexRecord.keys := by
  rw [undoInput_eq h, recordInput, Option.map_map, Option.map_map]
  rfl

lemma address_undoOutput (h : undoOutput hash160 nHeight i txhash k out = some record) :
    record.address.1.txindex = i ∧ record.address.1.spending = false := by
  obtain ⟨kind, -, rfl⟩ := map_eq_some_iff.mp h
  exact ⟨rfl, rfl⟩

lemma address_undoInput (h : undoInput hash160 nHeight i txhash j input coin.out undoHeight = some record) :
    record.address.1.txindex = i ∧ record.address.1.index = j ∧
      (record.address.1.spending → coin.paysToPubKey = false) := by
  cases hpays : coin.paysToPubKey with
  | false =>
    rw [undoInput_eq hpays] at h
    obtain ⟨kind, -, rfl⟩ := map_eq_some_iff.mp h
    exact ⟨rfl, rfl, fun _ => rfl⟩
  | true =>
    rw [undoInput, of_decide_eq_true hpays] at h
    cases h
    exact ⟨rfl, rfl, nofun⟩

end Records

lemma keys_undoOutputs : (undoOutputs rules pindex i tx).map IndexRecord.keys =
    ((recordOutputs rules pindex i tx).map IndexRecord.keys).reverse := by
  unfold undoOutputs recordOutputs
  rw [map_filterMap, map_filterMap, ← filterMap_reverse]
  exact filterMap_congr fun p _ => keys_undoOutput

lemma keys_undoInputRecords {inputs : List ((CTxIn × Coin) × ℕ)}
    (h : ∀ input ∈ inputs, input.1.2.paysToPubKey = false) :
    (undoInputRecords rules pindex i txhash inputs).map IndexRecord.keys =
      (inputRecords rules pindex i txhash inputs).map IndexRecord.keys := by
  unfold undoInputRecords inputRecords
  rw [map_flatMap, map_flatMap]
  refine flatMap_congr fun input hinput => ?_
  rw [← toList_map, ← toList_map, keys_undoInput (h _ hinput)]

lemma paysToPubKey_of_undoneInputs (hno : vprevout.any Coin.paysToPubKey = false) :
    ∀ input ∈ undoneInputs tx vprevout, input.1.2.paysToPubKey = false := by
  intro input hinput
  rw [undoneInputs, mem_reverse] at hinput
  exact Bool.eq_false_iff.mpr fun hpays => Bool.eq_false_iff.mp hno
    (any_eq_true.mpr ⟨_, (of_mem_zip (fst_mem_of_mem_zipIdx hinput)).2, hpays⟩)

lemma txindex_of_mem_undoTxRecords (h : record ∈ undoTxRecords rules pindex i tx vprevout) :
    record.address.1.txindex = i := by
  unfold undoTxRecords at h
  split_ifs at h
  · obtain h | h := mem_append.mp h
    · obtain ⟨p, -, hp⟩ := mem_filterMap.mp h
      exact (address_undoOutput hp).1
    · obtain ⟨input, -, hinput⟩ := mem_flatMap.mp h
      exact (address_undoInput (mem_toList.mp hinput)).1
  · cases h

lemma le_txindex_of_mem_undoRecords
    (h : record ∈ undoRecords rules pindex i vtx updates) : i ≤ record.address.1.txindex := by
  induction vtx generalizing i updates with
  | nil => cases h
  | cons tx vtx ih =>
    cases updates with
    | nil => cases h
    | cons update updates =>
      obtain h | h := mem_append.mp h
      · exact (Nat.le_succ i).trans (ih h)
      · exact (txindex_of_mem_undoTxRecords h).ge

/-! ### Batches -/

/-- The changes of the index of unspent outputs. -/
def unspentBatch (records : List IndexRecord) : List (CAddressUnspentKey × Option CAddressUnspentValue) :=
  records.map fun record => (record.unspent.1, if record.unspent.2.isNull then none else some record.unspent.2)

lemma AddressDb.connect_eq : db.connect records = {
    addressIndex := applyBatch (records.map fun record => (record.address.1, some record.address.2)) db.addressIndex
    unspentIndex := applyBatch (unspentBatch records) db.unspentIndex } := by
  simp only [connect, writeAddressIndex, updateAddressUnspentIndex, unspentBatch, map_map, comp_def]

lemma AddressDb.disconnect_eq : db.disconnect records = {
    addressIndex := applyBatch (records.map fun record => (record.address.1, none)) db.addressIndex
    unspentIndex := applyBatch (unspentBatch records) db.unspentIndex } := by
  simp only [disconnect, eraseAddressIndex, updateAddressUnspentIndex, unspentBatch, map_map, comp_def]

lemma unspentBatch_append {records' : List IndexRecord} :
    unspentBatch (records ++ records') = unspentBatch records ++ unspentBatch records' := map_append

lemma keys_unspentBatch : (unspentBatch records).map Prod.fst = (records.map IndexRecord.keys).map Prod.snd := by
  simp only [unspentBatch, IndexRecord.keys, map_map, comp_def]

/-! ### Consistent indexes -/

/-- The entry of a coin in the index of unspent outputs. -/
def unspentEntry (hash160 : List UInt8 → BitVec 160) (o : COutPoint) (coin : Coin) :
    Option (CAddressUnspentKey × CAddressUnspentValue) :=
  (addressKind coin.out.scriptPubKey).map fun kind =>
    (unspentKey hash160 coin.out.scriptPubKey kind o.hash o.n.toNat,
      ⟨coin.out.nValue, coin.out.scriptPubKey, coin.nHeight⟩)

/-- The indexes are those of a chain with the coins, on top of which a block is connected. Outputs that cannot be spent
are indexed as well, and stay in the index. -/
structure IndexConsistent (hash160 : List UInt8 → BitVec 160) (coins : COutPoint → Option Coin) (pindex : CBlockIndex)
    (vtx : List CTransaction) (db : AddressDb) : Prop where
  /-- Every coin with an address is in the index of unspent outputs. -/
  coin : ∀ o coin entry, coins o = some coin → unspentEntry hash160 o coin = some entry →
    db.unspentIndex entry.1 = some entry.2
  /-- What is in there under a transaction of the block is a coin. -/
  unspent : ∀ key, db.unspentIndex key ≠ none → ∀ tx ∈ vtx, key.txhash = tx.hash →
    ∃ o, coins o ≠ none ∧ o.hash = key.txhash ∧ o.n.toNat = key.index
  /-- The address index is about the blocks before. -/
  address : ∀ key, db.addressIndex key ≠ none → key.blockHeight < pindex.nHeight

lemma mem_outputCoins_zipIdx {fCoinbase : Bool} {nHeight : ℤ} {c : COutPoint × Coin}
    (h : c ∈ outputCoins hash fCoinbase nHeight k vout) :
    ∃ p ∈ vout.zipIdx k, c.1 = ⟨hash, BitVec.ofNat 32 p.2⟩ ∧ c.2.out = p.1 := by
  induction vout generalizing k with
  | nil => cases h
  | cons out vout ih =>
    obtain h | h := mem_append.mp h
    · split_ifs at h
      · cases h
      · rw [mem_singleton] at h
        exact ⟨(out, k), mem_cons_self, h ▸ ⟨rfl, rfl⟩⟩
    · obtain ⟨p, hp, hc⟩ := ih h
      exact ⟨p, mem_cons_of_mem _ hp, hc⟩

lemma mem_outpointsFrom_of_zipIdx {p : CTxOut × ℕ} (h : p ∈ vout.zipIdx k) :
    (⟨hash, BitVec.ofNat 32 p.2⟩ : COutPoint) ∈ outpointsFrom hash k vout := by
  induction vout generalizing k with
  | nil => cases h
  | cons out vout ih =>
    obtain _ | ⟨_, h⟩ := h
    · exact mem_cons_self
    · exact mem_cons_of_mem _ (ih h)

/-- The key of a coin that a transaction adds is one of those that are erased when it is undone. -/
lemma mem_keys_of_creates (htx : TxChecked tx) (h : (o, coin) ∈ creates pindex tx)
    {entry : CAddressUnspentKey × CAddressUnspentValue} (hentry : unspentEntry rules.hash160 o coin = some entry) :
    entry.1 ∈ (unspentBatch (undoOutputs rules pindex i tx)).map Prod.fst := by
  obtain ⟨p, hp, ho, hout⟩ := mem_outputCoins_zipIdx h
  obtain ⟨kind, hkind, rfl⟩ := map_eq_some_iff.mp hentry
  have hlt : p.2 < 2 ^ 32 := by
    have := snd_lt_of_mem_zipIdx hp
    have := htx.outputs
    omega
  rw [hout] at hkind
  have hrecord : undoOutput rules.hash160 pindex.nHeight i tx.hash p.2 p.1 = some {
      address := (indexKey rules.hash160 pindex.nHeight i tx.hash p.1.scriptPubKey kind p.2 false, p.1.nValue)
      unspent := (unspentKey rules.hash160 p.1.scriptPubKey kind tx.hash p.2, {}) } := by
    rw [undoOutput, hkind]
    rfl
  rw [keys_unspentBatch, map_map]
  refine mem_map.mpr ⟨_, mem_filterMap.mpr ⟨p, mem_reverse.mpr hp, hrecord⟩, ?_⟩
  dsimp only at ho
  rw [ho, hout]
  simp only [comp_apply, IndexRecord.keys, BitVec.toNat_ofNat, Nat.mod_eq_of_lt hlt]

/-- An input that is put back gets the entry of its coin. -/
lemma unspent_undoInput {txin : CTxIn} (hno : coin.paysToPubKey = false)
    (h : undoInput rules.hash160 pindex.nHeight i txhash j txin coin.out coin.nHeight = some record) :
    unspentEntry rules.hash160 txin.prevout coin = some record.unspent := by
  rw [undoInput_eq hno] at h
  obtain ⟨kind, hkind, rfl⟩ := map_eq_some_iff.mp h
  rw [unspentEntry, hkind]
  rfl

lemma unspentBatch_undoOutputs : ∀ change ∈ unspentBatch (undoOutputs rules pindex i tx), change.2 = none := by
  intro change hchange
  obtain ⟨record, hrecord, rfl⟩ := mem_map.mp hchange
  obtain ⟨p, -, hrecord⟩ := mem_filterMap.mp hrecord
  obtain ⟨kind, -, rfl⟩ := map_eq_some_iff.mp hrecord
  rfl

variable (hkey : ∀ o coin entry, coins o = some coin → unspentEntry rules.hash160 o coin = some entry → entry.1 = key →
  v = some entry.2)

/-! ### One transaction -/

section

variable (h : TxConnects rules pindex coins i tx update coins')

include h

lemma TxConnects.any_paysToPubKey :
    ((spends tx).any fun o => (coins o).any Coin.paysToPubKey) = update.vprevout.any Coin.paysToPubKey := by
  calc (spends tx).any (fun o => (coins o).any Coin.paysToPubKey)
      = ((spends tx).map coins).any (fun c => c.any Coin.paysToPubKey) := by
        rw [any_map]
        rfl
    _ = update.vprevout.any Coin.paysToPubKey := by
        rw [h.spent, any_map]
        rfl

lemma TxConnects.keys_perm (hno : update.vprevout.any Coin.paysToPubKey = false) :
    ((undoTxRecords rules pindex i tx update.vprevout).map IndexRecord.keys).Perm
      (update.records.map IndexRecord.keys) := by
  rw [h.records, undoTxRecords]
  split_ifs
  · rw [map_append, map_append, keys_undoOutputs, keys_undoInputRecords (paysToPubKey_of_undoneInputs hno)]
    refine perm_append_comm.trans (List.Perm.append ?_ (reverse_perm _))
    exact ((reverse_perm _).flatMap_right _).map _
  · exact .refl _

lemma TxConnects.coin_cases (ho : coins' o = some coin) : coins o = some coin ∨ (o, coin) ∈ creates pindex tx := by
  by_cases hcreated : o ∈ (creates pindex tx).map Prod.fst
  · obtain ⟨⟨o, c⟩, hc, rfl⟩ := mem_map.mp hcreated
    rw [h.created _ hc] at ho
    cases ho
    exact .inr hc
  · rw [h.result, applyBatch_of_notMem (by rwa [keys_writes])] at ho
    by_cases hspent : o ∈ spends tx
    · rw [applyBatch_of_forall (by rwa [keys_erases]) (v := none)] at ho
      · cases ho
      · intro change hchange _
        obtain ⟨o', -, rfl⟩ := mem_map.mp hchange
        rfl
    · rw [applyBatch_of_notMem (by rwa [keys_erases])] at ho
      exact .inl ho

include hkey in
/-- The inputs of a transaction are put back with the value that a key should have. -/
lemma TxConnects.undo_inputs (hcoins : CoinsWf coins) (hno : update.vprevout.any Coin.paysToPubKey = false) :
    ∀ change ∈ unspentBatch (undoInputRecords rules pindex i tx.hash (undoneInputs tx update.vprevout)),
      change.1 = key → change.2 = v := by
  intro change hchange heq
  obtain ⟨record, hrecord, rfl⟩ := mem_map.mp hchange
  obtain ⟨⟨⟨txin, coin⟩, j⟩, hinput, hrecord⟩ := mem_flatMap.mp hrecord
  rw [mem_toList] at hrecord
  have hcoin := h.undone_coin _ hinput
  have hentry := unspent_undoInput (paysToPubKey_of_undoneInputs hno _ hinput) hrecord
  rw [hkey _ _ _ hcoin hentry heq]
  obtain ⟨kind, -, hvalue⟩ := map_eq_some_iff.mp hentry
  have hnull : record.unspent.2.isNull = false := by
    rw [← hvalue]
    exact (hcoins _ _ hcoin).unspent
  rw [hnull, if_neg Bool.false_ne_true]

lemma TxConnects.address_of_mem (hrecord : record ∈ update.records) :
    record.address.1.txindex = i ∧ record.address.1.blockHeight = pindex.nHeight := by
  rw [h.records] at hrecord
  split_ifs at hrecord
  · obtain hrecord | hrecord := mem_append.mp hrecord
    · obtain ⟨input, -, hinput⟩ := mem_flatMap.mp hrecord
      obtain ⟨kind, -, rfl⟩ := map_eq_some_iff.mp (mem_toList.mp hinput)
      exact ⟨rfl, rfl⟩
    · obtain ⟨p, -, hp⟩ := mem_filterMap.mp hrecord
      obtain ⟨kind, -, rfl⟩ := map_eq_some_iff.mp hp
      exact ⟨rfl, rfl⟩
  · cases hrecord

lemma TxConnects.exists_input
    (hcoin : coin ∈ update.vprevout) : ∃ txin j, ((txin, coin), j) ∈ (tx.vin.zip update.vprevout).zipIdx := by
  have hcb : ¬tx.isCoinBase := by
    intro hcb
    rw [h.vprevout_of_isCoinBase hcb] at hcoin
    cases hcoin
  rw [← map_snd_zip (h.forall₂ hcb).length_eq.ge] at hcoin
  obtain ⟨⟨txin, c⟩, hmem, rfl⟩ := mem_map.mp hcoin
  rw [← zipIdx_map_fst 0 (tx.vin.zip update.vprevout)] at hmem
  obtain ⟨⟨_, j⟩, hmem, rfl⟩ := mem_map.mp hmem
  exact ⟨txin, j, hmem⟩

/-- The key of an input that spends a coin that pays to a public key is not erased. -/
lemma TxConnects.stays (hon : rules.fAddressIndex)
    (hpays : update.vprevout.any Coin.paysToPubKey) : ∃ record ∈ update.records,
      ∀ undone ∈ undoTxRecords rules pindex i tx update.vprevout, undone.address.1 ≠ record.address.1 := by
  obtain ⟨coin, hcoin, hkind⟩ := any_eq_true.mp hpays
  obtain ⟨txin, j, hinput⟩ := h.exists_input hcoin
  have hrecord : recordInput rules.hash160 pindex.nHeight i tx.hash j txin coin.out = some {
      address := (indexKey rules.hash160 pindex.nHeight i tx.hash coin.out.scriptPubKey .pubKey j true,
        coin.out.nValue * -1)
      unspent := (unspentKey rules.hash160 coin.out.scriptPubKey .pubKey txin.prevout.hash txin.prevout.n.toNat,
        {}) } := by
    rw [recordInput, of_decide_eq_true hkind]
    rfl
  rw [h.records, undoTxRecords, if_pos hon, if_pos hon]
  refine ⟨_, mem_append_left _ (mem_flatMap.mpr ⟨_, hinput, mem_toList.mpr hrecord⟩), ?_⟩
  intro undone hundone heq
  obtain hundone | hundone := mem_append.mp hundone
  · obtain ⟨p, -, hp⟩ := mem_filterMap.mp hundone
    have hspending := (address_undoOutput hp).2
    rw [heq] at hspending
    cases hspending
  · obtain ⟨⟨⟨txin', coin'⟩, j'⟩, hinput', hundone⟩ := mem_flatMap.mp hundone
    obtain ⟨-, hindex, hspending⟩ := address_undoInput (mem_toList.mp hundone)
    rw [heq] at hindex hspending
    -- the record would be of the same input
    obtain rfl : j = j' := hindex
    rw [undoneInputs, mem_reverse] at hinput'
    rw [mk_mem_zipIdx_iff_getElem?] at hinput hinput'
    rw [hinput] at hinput'
    cases hinput'
    rw [hspending rfl] at hkind
    cases hkind

end

/-! ### The transactions of a block -/

variable (h : TxsConnect rules pindex coins i vtx updates coins')

include h

lemma TxsConnect.spendsPayToPubKey_eq : spendsPayToPubKey pindex coins vtx = storesPayToPubKey updates := by
  induction h with
  | nil => rfl
  | cons head tail ih =>
    rw [spendsPayToPubKey, connectCoins, ← head.result, ih, head.any_paysToPubKey, storesPayToPubKey,
      storesPayToPubKey, any_cons]

/-- The whole block is undone with the keys of its records. -/
lemma TxsConnect.keys_perm (hno : storesPayToPubKey updates = false) :
    ((undoRecords rules pindex i vtx updates).map IndexRecord.keys).Perm
      ((updates.flatMap (·.records)).map IndexRecord.keys) := by
  induction h with
  | nil => exact .refl _
  | cons head tail ih =>
    rw [storesPayToPubKey, any_cons, Bool.or_eq_false_iff] at hno
    rw [undoRecords, flatMap_cons, map_append, map_append]
    exact perm_append_comm.trans ((head.keys_perm hno.1).append (ih hno.2))

include hkey in
/-- A key ends with the value it should have: as the coin that the first transaction about it spends, as no output of
the first transaction about it, or as before. -/
lemma TxsConnect.undo_unspent (hon : rules.fAddressIndex)
    (hheight : 0 < pindex.nHeight) (hcoins : CoinsWf coins) (hno : storesPayToPubKey updates = false)
    {store : CAddressUnspentKey → Option CAddressUnspentValue}
    (houtputs : ∀ tx ∈ vtx, ∀ i, key ∈ (unspentBatch (undoOutputs rules pindex i tx)).map Prod.fst → v = none)
    (hstore : key ∉ (unspentBatch (undoRecords rules pindex i vtx updates)).map Prod.fst → store key = v) :
    applyBatch (unspentBatch (undoRecords rules pindex i vtx updates)) store key = v := by
  induction h with
  | nil => exact hstore not_mem_nil
  | @cons coins coins' _ i tx update vtx updates head tail ih =>
    rw [storesPayToPubKey, any_cons, Bool.or_eq_false_iff] at hno
    rw [forall_mem_cons] at houtputs
    rw [undoRecords, undoTxRecords, if_pos hon, unspentBatch_append, unspentBatch_append] at hstore ⊢
    rw [applyBatch_append, applyBatch_append]
    by_cases hinput : key ∈ (unspentBatch
        (undoInputRecords rules pindex i tx.hash (undoneInputs tx update.vprevout))).map Prod.fst
    · exact applyBatch_of_forall hinput (head.undo_inputs hkey hcoins hno.1)
    rw [applyBatch_of_notMem hinput]
    by_cases houtput : key ∈ (unspentBatch (undoOutputs rules pindex i tx)).map Prod.fst
    · rw [houtputs.1 i houtput]
      exact applyBatch_of_forall houtput fun change hchange _ => unspentBatch_undoOutputs change hchange
    rw [applyBatch_of_notMem houtput]
    refine ih (fun o coin entry ho hentry heq => ?_) (head.coinsWf hheight hcoins) hno.2 houtputs.2 fun hrest => ?_
    · obtain ho | hcreated := head.coin_cases ho
      · exact hkey o coin entry ho hentry heq
      · exact absurd (heq ▸ mem_keys_of_creates head.checked hcreated hentry) houtput
    · refine hstore ?_
      rw [map_append, map_append, mem_append, mem_append]
      exact not_or.mpr ⟨hrest, not_or.mpr ⟨houtput, hinput⟩⟩

lemma TxsConnect.address_of_mem (hrecord : record ∈ updates.flatMap (·.records)) :
    i ≤ record.address.1.txindex ∧ record.address.1.blockHeight = pindex.nHeight := by
  induction h with
  | nil => cases hrecord
  | @cons _ _ _ i _ _ _ _ head tail ih =>
    obtain hrecord | hrecord := mem_append.mp hrecord
    · obtain ⟨htxindex, hheight⟩ := head.address_of_mem hrecord
      exact ⟨htxindex.ge, hheight⟩
    · obtain ⟨htxindex, hheight⟩ := ih hrecord
      exact ⟨(Nat.le_succ i).trans htxindex, hheight⟩

lemma TxsConnect.stays (hon : rules.fAddressIndex) (hpays : storesPayToPubKey updates) :
    ∃ record ∈ updates.flatMap (·.records),
      ∀ undone ∈ undoRecords rules pindex i vtx updates, undone.address.1 ≠ record.address.1 := by
  induction h with
  | nil => cases hpays
  | cons head tail ih =>
    rw [storesPayToPubKey, any_cons, Bool.or_eq_true] at hpays
    obtain hpays | hpays := hpays
    · obtain ⟨record, hrecord, hstays⟩ := head.stays hon hpays
      refine ⟨record, mem_append_left _ hrecord, fun undone hundone heq => ?_⟩
      obtain hundone | hundone := mem_append.mp hundone
      · have hle := le_txindex_of_mem_undoRecords hundone
        rw [heq, (head.address_of_mem hrecord).1] at hle
        exact absurd hle (Nat.not_succ_le_self _)
      · exact hstays undone hundone heq
    · obtain ⟨record, hrecord, hstays⟩ := ih hpays
      refine ⟨record, mem_append_right _ hrecord, fun undone hundone heq => ?_⟩
      obtain hundone | hundone := mem_append.mp hundone
      · exact hstays undone hundone heq
      · have hle := (tail.address_of_mem hrecord).1
        rw [← heq, txindex_of_mem_undoTxRecords hundone] at hle
        exact absurd hle (Nat.not_succ_le_self _)

end Transactions

/-! ### Both indexes -/

section

variable {block : CBlock}

section Connects

variable {db db' : AddressDb} (h : BlockConnects rules pindex coins block updates coins')
  (hdb : IndexConsistent rules.hash160 coins pindex block.vtx db)
  (hdb' : (db.connect (blockUpdate updates).records).disconnect (undoRecords rules pindex 0 block.vtx updates) = db')

include h hdb hdb'

/-- Without inputs that spend a coin that pays to a public key, the address index is restored. -/
lemma BlockConnects.addressIndex_restored (hno : storesPayToPubKey updates = false) :
    db'.addressIndex = db.addressIndex := by
  have hkeys := (h.txs.keys_perm hno).map Prod.fst
  rw [map_map, map_map] at hkeys
  rw [← hdb', disconnect_eq, connect_eq]
  refine applyBatch_restores (fun key => ?_) fun change hchange => ?_
  · rw [map_map, map_map]
    exact hkeys.mem_iff
  · -- the keys are of the block, so they were not there before
    obtain ⟨record, hrecord, rfl⟩ := mem_map.mp hchange
    obtain ⟨record', hrecord', heq⟩ := mem_map.mp (hkeys.mem_iff.mp (mem_map_of_mem hrecord))
    by_contra hsome
    have hlt := hdb.address _ (Ne.symm hsome)
    have hheight := (h.txs.address_of_mem hrecord').2
    have heq : record'.address.1 = record.address.1 := heq
    rw [heq] at hheight
    exact absurd hheight hlt.ne

/-- Without inputs that spend a coin that pays to a public key, the index of unspent outputs is restored. -/
lemma BlockConnects.unspentIndex_restored (hon : rules.fAddressIndex) (hcoins : CoinsWf coins)
    (hno : storesPayToPubKey updates = false) : db'.unspentIndex = db.unspentIndex := by
  rw [← hdb', disconnect_eq, connect_eq]
  funext key
  refine h.txs.undo_unspent (fun o coin entry ho hentry heq => ?_) hon h.nHeight_pos hcoins hno
    (fun tx htx i hkey => ?_)
    fun hkey => ?_
  · exact heq ▸ hdb.coin o coin entry ho hentry
  · -- an output of the block was free, so it was not in the index
    rw [keys_unspentBatch, map_map] at hkey
    obtain ⟨record, hrecord, rfl⟩ := mem_map.mp hkey
    obtain ⟨p, hp, hrecord⟩ := mem_filterMap.mp hrecord
    obtain ⟨kind, -, rfl⟩ := map_eq_some_iff.mp hrecord
    by_contra hsome
    obtain ⟨o, ho, hhash, hn⟩ := hdb.unspent _ hsome tx htx rfl
    refine ho (h.free tx htx o ?_)
    obtain ⟨hash, n⟩ := o
    obtain rfl : hash = tx.hash := hhash
    have hn : n.toNat = p.2 := hn
    obtain rfl : n = BitVec.ofNat 32 p.2 := by rw [← hn, BitVec.ofNat_toNat, BitVec.setWidth_eq]
    exact mem_outpointsFrom_of_zipIdx (mem_reverse.mp hp)
  · refine applyBatch_of_notMem fun hmem => hkey ?_
    rw [keys_unspentBatch] at hmem ⊢
    exact ((h.txs.keys_perm hno).map Prod.snd).mem_iff.mpr hmem

/-- An input that spends a coin that pays to a public key leaves its key in the address index. -/
lemma BlockConnects.addressIndex_ne (hon : rules.fAddressIndex) (hpays : storesPayToPubKey updates) :
    db'.addressIndex ≠ db.addressIndex := by
  obtain ⟨record, hrecord, hstays⟩ := h.txs.stays hon hpays
  intro heq
  have hkey := congrFun heq record.address.1
  rw [← hdb', disconnect_eq, connect_eq] at hkey
  dsimp only at hkey
  rw [applyBatch_of_notMem] at hkey
  · have hsome : db.addressIndex record.address.1 ≠ none := by
      rw [← hkey]
      refine applyBatch_ne_none ?_ fun change hchange => ?_
      · rw [map_map]
        exact mem_map.mpr ⟨record, hrecord, rfl⟩
      · obtain ⟨_, -, rfl⟩ := mem_map.mp hchange
        exact some_ne_none _
    exact absurd (h.txs.address_of_mem hrecord).2 (hdb.address _ hsome).ne
  · rw [map_map]
    intro hmem
    obtain ⟨undone, hundone, heq⟩ := mem_map.mp hmem
    exact hstays undone hundone heq

end Connects

variable {G : Type} [DecidableEq G] {ctx : SpecialTxContext G} {tree : BlockTree ctx.rules.evo}
  {view view₁ : CCoinsViewCache} {s s₁ : EvoState G} {update : BlockUpdate}
  (h : BlockAccepted ctx rules tree pindex view s update view₁ s₁)

include h

/-- Where the special transactions of an accepted block can be undone, disconnecting makes the records that undo its
transactions. -/
lemma BlockAccepted.disconnect_records (hno : NoEarlyCommitment ctx.rules (tree.block pindex) pindex) :
    ∃ updates view₂,
      BlockConnects (rules.withSpecialTxs ctx s s₁) pindex view.lookup (tree.block pindex) updates view₁.lookup ∧
      update = blockUpdate updates ∧
      (disconnectBlock (rules.withSpecialTxs ctx s s₁) pindex (tree.block pindex)
          (some (ctx.rules.evo.getBlockHash pindex.header)) update.vtxundo).run view₁ =
        .ok (.ok, undoRecords (rules.withSpecialTxs ctx s s₁) pindex 0 (tree.block pindex).vtx updates) view₂ := by
  obtain ⟨hwf, updates, hconnects, rfl⟩ := h.blockConnects
  obtain ⟨r, view₂, hrun, rfl, -⟩ :=
    (wp_disconnectBlock hwf hconnects h.utxo.coins (h.undoSpecialTxs_iff.mpr hno)).exists_ok
  exact ⟨updates, view₂, hconnects, rfl, hrun⟩

/-- Disconnecting a block restores both indexes exactly when its special transactions can be undone and no transaction
of the block spends a coin that pays to a public key. -/
theorem indexes_restored_iff (hon : rules.fAddressIndex)
    {db : AddressDb} (hdb : IndexConsistent rules.hash160 view.lookup pindex (tree.block pindex).vtx db) :
    (∃ records view₂,
      (disconnectBlock (rules.withSpecialTxs ctx s s₁) pindex (tree.block pindex)
          (some (ctx.rules.evo.getBlockHash pindex.header)) update.vtxundo).run view₁ = .ok (.ok, records) view₂ ∧
        (db.connect update.records).disconnect records = db) ↔
      NoEarlyCommitment ctx.rules (tree.block pindex) pindex ∧
        spendsPayToPubKey pindex view.lookup (tree.block pindex).vtx = false := by
  by_cases hno : NoEarlyCommitment ctx.rules (tree.block pindex) pindex
  · obtain ⟨updates, view₂, hconnects, rfl, hrun⟩ := h.disconnect_records hno
    rw [and_iff_right hno, hconnects.txs.spendsPayToPubKey_eq]
    constructor
    · rintro ⟨records, view₂', hrun', hrestored⟩
      obtain ⟨⟨-, rfl⟩, -⟩ := hrun.symm.trans hrun'
      exact Bool.eq_false_iff.mpr fun hpays => hconnects.addressIndex_ne hdb hrestored hon hpays rfl
    · intro hpays
      have haddress := hconnects.addressIndex_restored hdb rfl hpays
      have hunspent := hconnects.unspentIndex_restored hdb rfl hon h.utxo.coins hpays
      exact ⟨_, view₂, hrun, congr (congrArg AddressDb.mk haddress) hunspent⟩
  · refine iff_of_false ?_ fun hboth => hno hboth.1
    rintro ⟨records, view₂, hrun, -⟩
    rw [run_disconnectBlock_failed (Bool.eq_false_iff.mpr fun hundo => hno (h.undoSpecialTxs_iff.mp hundo))] at hrun
    cases hrun

end

/-! ### Instances -/

def toyUnspent (hash : Uint256) (script : CScript) : CAddressUnspentKey × CAddressUnspentValue :=
  (⟨1, (addressKind script).elim 0 fun kind => kind.hashBytes toyConnectRules.hash160 script, hash, 0⟩, ⟨5, script, 1⟩)

def toyDb : AddressDb where
  addressIndex _ := none
  unspentIndex key :=
    if key = (toyUnspent 101 toyPubKeyHashScript).1 then some (toyUnspent 101 toyPubKeyHashScript).2
    else if key = (toyUnspent 102 toyPubKeyScript).1 then some (toyUnspent 102 toyPubKeyScript).2
    else none

lemma indexConsistent_toyDb (vtx : List CTransaction) (hvtx : ∀ tx ∈ vtx, tx.hash ≠ 101 ∧ tx.hash ≠ 102) :
    IndexConsistent toyConnectRules.hash160 toyCoinsView.lookup toyConnectIndex vtx toyDb := by
  refine ⟨fun o coin entry ho hentry => ?_, fun key hkey tx htx heq => ?_, fun key hkey => absurd rfl hkey⟩
  · obtain ⟨rfl, rfl⟩ | ⟨rfl, rfl⟩ := toyCoinsView_cases ho
    · obtain rfl : toyUnspent 101 toyPubKeyHashScript = entry := some.inj hentry
      decide
    · obtain rfl : toyUnspent 102 toyPubKeyScript = entry := some.inj hentry
      decide
  · obtain ⟨h101, h102⟩ := hvtx tx htx
    unfold toyDb at hkey
    dsimp only at hkey
    split_ifs at hkey with hkey1 hkey2
    · exact absurd (heq.symm.trans (congrArg CAddressUnspentKey.txhash hkey1)) h101
    · exact absurd (heq.symm.trans (congrArg CAddressUnspentKey.txhash hkey2)) h102
    · exact absurd rfl hkey

theorem indexes_restored_iff_toyChainedBlock :
    let tree := toyConnectTree toyBlockOk_toyChainedBlock
    let s₁ := toyEvoStateAfter 34 toyChainedBlock
    ∃ update view₁ records view₂,
      BlockAccepted (toySpecialTxContext 34) toyConnectRules tree toyConnectIndex toyCoinsView toyEvoState
        update view₁ s₁ ∧
      (disconnectBlock (toyConnectRules.withSpecialTxs (toySpecialTxContext 34) toyEvoState s₁) toyConnectIndex
        (tree.block toyConnectIndex) (some 35) update.vtxundo).run view₁ = .ok (.ok, records) view₂ ∧
      (toyDb.connect update.records).disconnect records = toyDb := by
  have hblock := block_toyConnectTree toyBlockOk_toyChainedBlock
  obtain ⟨update, view₁, h⟩ := exists_blockAccepted_toyChainedBlock
  have hdb := indexConsistent_toyDb toyChainedBlock.vtx (by decide)
  rw [← hblock] at hdb
  have hpays : spendsPayToPubKey toyConnectIndex toyCoinsView.lookup toyChainedBlock.vtx = false := by decide
  rw [← hblock] at hpays
  obtain ⟨records, view₂, hrun, hrestored⟩ := (indexes_restored_iff h rfl hdb).mpr ⟨.inl le_rfl, hpays⟩
  exact ⟨update, view₁, records, view₂, h, hrun, hrestored⟩

/-- A block with a commitment, and a transaction that spends a coin that pays to a public key. -/
def toyPubKeyBlock : CBlock where
  nNonce := 34
  vtx := [toyCoinbase, toyCommitmentTx, toyPayment 2 102 [⟨2, toyPubKeyHashScript⟩]]

lemma toyBlockOk_toyPubKeyBlock : ToyBlockOk 34 toyPubKeyBlock :=
  ⟨by decide +kernel, distinctHashes_of_forall (by decide +kernel) (by decide +kernel)⟩

/-- The indexes of a view, and a block that is accepted on it, after which disconnecting does not restore them. -/
theorem indexes_not_restored_toyPubKeyBlock :
    let tree := toyConnectTree toyBlockOk_toyPubKeyBlock
    let s₁ := toyEvoStateAfter 34 toyPubKeyBlock
    IndexConsistent toyConnectRules.hash160 toyCoinsView.lookup toyConnectIndex (tree.block toyConnectIndex).vtx toyDb ∧
    ∃ update view₁ records view₂,
      BlockAccepted (toySpecialTxContext 34) toyConnectRules tree toyConnectIndex toyCoinsView toyEvoState
        update view₁ s₁ ∧
      (disconnectBlock (toyConnectRules.withSpecialTxs (toySpecialTxContext 34) toyEvoState s₁) toyConnectIndex
        (tree.block toyConnectIndex) (some 35) update.vtxundo).run view₁ = .ok (.ok, records) view₂ ∧
      (toyDb.connect update.records).disconnect records ≠ toyDb := by
  have hblock := block_toyConnectTree toyBlockOk_toyPubKeyBlock
  obtain ⟨update, view₁, h⟩ := blockAccepted_toyConnectTree toyBlockOk_toyPubKeyBlock (by decide) (by decide +kernel)
    (by decide +kernel) (by decide +kernel)
  have hdb := indexConsistent_toyDb toyPubKeyBlock.vtx (by decide)
  have hpays : spendsPayToPubKey toyConnectIndex toyCoinsView.lookup toyPubKeyBlock.vtx := by decide
  rw [← hblock] at hdb hpays
  obtain ⟨updates, view₂, hconnects, rfl, hrun⟩ := h.disconnect_records (.inl le_rfl)
  rw [hconnects.txs.spendsPayToPubKey_eq] at hpays
  exact ⟨hdb, _, view₁, _, view₂, h, hrun, fun heq => hconnects.addressIndex_ne hdb heq rfl hpays rfl⟩

end Blocx
