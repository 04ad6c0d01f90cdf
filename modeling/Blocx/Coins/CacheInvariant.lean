import Blocx.Coins.Cache

/-!
# What the cache shows

The operations of a cache, specified by the map it shows. As long as the flags of the entries are true, reading changes
nothing, spending a coin erases it, and adding a coin writes it.

Adding relies on one more thing. `AddCoin` only looks at the entry of its own cache, so that a coin in the view below
that has not been fetched would be overwritten and, when it is spent again, come back. The callers make sure that this
does not happen by asking for the coin first. `Settled` says that they have.
-/

namespace Blocx

open Function Option

open CCoinsViewCache

/-- The flags of the entries are true. -/
structure CacheWf (view : CCoinsViewCache) : Prop where
  fresh : ∀ o entry, view.cacheCoins o = some entry → entry.fresh → view.baseCoin o = none
  /-- An entry that is not dirty shows what is below it. -/
  clean : ∀ o entry, view.cacheCoins o = some entry → entry.dirty = false → entry.coin.visible = view.baseCoin o

variable {view : CCoinsViewCache}

/-- `SetBestBlock` changes no coin. -/
lemma CacheWf.setBestBlock (h : CacheWf view) (hash : Uint256) :
    CacheWf { view with hashBlock := hash } := ⟨h.fresh, h.clean⟩

/-- The cache shows all there is at the outpoint: there is an entry, or no coin below. -/
def Settled (view : CCoinsViewCache) (o : COutPoint) : Prop := view.cacheCoins o = none → view.baseCoin o = none

/-- A cache became one that shows a given map. -/
structure Shows (view : CCoinsViewCache) (coins : COutPoint → Option Coin) (view' : CCoinsViewCache) : Prop where
  base : view'.base = view.base
  hashBlock : view'.hashBlock = view.hashBlock
  wf : CacheWf view'
  lookup : view'.lookup = coins
  settled : ∀ o, Settled view o → Settled view' o

variable {o : COutPoint}

section Rules

variable {view view' view'' : CCoinsViewCache} {coins coins' : COutPoint → Option Coin}

lemma Shows.refl (h : CacheWf view) : Shows view view.lookup view := ⟨rfl, rfl, h, rfl, fun _ => id⟩

lemma Shows.trans (h : Shows view coins view') (h' : Shows view' coins' view'') : Shows view coins' view'' :=
  ⟨h'.base.trans h.base, h'.hashBlock.trans h.hashBlock, h'.wf, h'.lookup, fun o ho => h'.settled o (h.settled o ho)⟩

lemma Shows.keep (h : Shows view coins view') (h' : Shows view' view'.lookup view'') : Shows view coins view'' := by
  rw [h.lookup] at h'
  exact h.trans h'

lemma lookup_of_some {entry : CCoinsCacheEntry} (h : view.cacheCoins o = some entry) :
    view.lookup o = entry.coin.visible := by
  unfold CCoinsViewCache.lookup
  rw [h]

lemma lookup_of_none (h : view.cacheCoins o = none) : view.lookup o = view.baseCoin o := by
  unfold CCoinsViewCache.lookup
  rw [h]

lemma settled_of_lookup_eq_none (h : view.lookup o = none) : Settled view o := by
  intro hnone
  rwa [lookup_of_none hnone] at h

lemma baseCoin_eq_none_of_not_dirty (h : CacheWf view) (hsettled : Settled view o) (hspent : view.lookup o = none)
    (hdirty : ∀ entry, view.cacheCoins o = some entry → entry.dirty = false) : view.baseCoin o = none := by
  cases hentry : view.cacheCoins o with
  | none => exact hsettled hentry
  | some entry =>
    rwa [← h.clean o entry hentry (hdirty entry hentry), ← lookup_of_some hentry]

lemma cacheCoins_setEntry (entry : Option CCoinsCacheEntry) (p : COutPoint) :
    (view.setEntry o entry).cacheCoins p = if p = o then entry else view.cacheCoins p :=
  update_apply ..

/-- An entry is written, or forgotten when there is no coin below. -/
lemma Shows.setEntry (h : CacheWf view) (entry : Option CCoinsCacheEntry)
    (hfresh : ∀ e, entry = some e → e.fresh → view.baseCoin o = none)
    (hclean : ∀ e, entry = some e → e.dirty = false → e.coin.visible = view.baseCoin o)
    (hnone : entry = none → view.baseCoin o = none) :
    Shows view (update view.lookup o (entry.bind (·.coin.visible))) (view.setEntry o entry) := by
  refine ⟨rfl, rfl, ⟨fun p e he hf => ?_, fun p e he hd => ?_⟩, ?_, fun p hp hp' => ?_⟩
  · rw [cacheCoins_setEntry] at he
    split_ifs at he with hpo
    · exact hpo ▸ hfresh e he hf
    · exact h.fresh p e he hf
  · rw [cacheCoins_setEntry] at he
    split_ifs at he with hpo
    · exact hpo ▸ hclean e he hd
    · exact h.clean p e he hd
  · funext p
    unfold CCoinsViewCache.lookup
    rw [cacheCoins_setEntry]
    by_cases hpo : p = o
    · rw [if_pos hpo, hpo, update_self]
      cases entry with
      | none => exact hnone rfl
      | some e => rfl
    · rw [if_neg hpo, update_of_ne hpo]
      rfl
  · rw [cacheCoins_setEntry] at hp'
    split_ifs at hp' with hpo
    · exact hpo ▸ hnone hp'
    · exact hp hp'

end Rules

/-! ### The operations -/

variable {E : CoinsError → CCoinsViewCache → Prop} (h : CacheWf view) {coin : Coin}

include h

/-- `FetchCoin` changes nothing that is shown, and its entry is the one in the cache. -/
lemma wp_fetchCoin (o : COutPoint) :
    wp (fetchCoin o) (fun entry view' => Shows view view.lookup view' ∧ view'.cacheCoins o = entry ∧
      view.lookup o = entry.bind (·.coin.visible)) E view := by
  unfold fetchCoin
  rw [wp_bind, wp_get]
  cases hentry : view.cacheCoins o with
  | some entry =>
    exact ⟨.refl h, hentry, lookup_of_some hentry⟩
  | none =>
    cases hbase : view.base.getCoin o with
    | none =>
      refine ⟨.refl h, hentry, (lookup_of_none hentry).trans ?_⟩
      unfold CCoinsViewCache.baseCoin
      rw [hbase]
      rfl
    | some tmp =>
      have hcoin : view.baseCoin o = tmp.visible := by
        unfold CCoinsViewCache.baseCoin
        rw [hbase]
        rfl
      have hlookup : view.lookup o = tmp.visible := (lookup_of_none hentry).trans hcoin
      have hset := Shows.setEntry (o := o) h (some { coin := tmp, dirty := false, fresh := tmp.isSpent })
        (fun e he hfresh => by cases he; rw [hcoin]; exact Coin.visible_eq_none.mpr hfresh)
        (fun e he _ => by cases he; exact hcoin.symm) nofun
      refine ⟨⟨rfl, rfl, hset.wf, ?_, hset.settled⟩, update_self .., hlookup⟩
      rw [hset.lookup]
      exact (congrArg (update view.lookup o) hlookup.symm).trans (update_eq_self o view.lookup)

lemma wp_haveCoin (o : COutPoint) :
    wp (haveCoin o) (fun b view' => b = (view.lookup o).isSome ∧ Shows view view.lookup view') E view := by
  unfold haveCoin
  refine wp_seq (wp_fetchCoin h o) fun entry view' ⟨hshows, _, hlookup⟩ => ⟨?_, hshows⟩
  rw [hlookup]
  cases entry with
  | none => rfl
  | some entry =>
    rw [any_some, bind_some]
    unfold Coin.visible
    cases entry.coin.isSpent <;> rfl

lemma wp_accessCoin (o : COutPoint) :
    wp (accessCoin o) (fun coin view' => coin.visible = view.lookup o ∧ Shows view view.lookup view') E view := by
  unfold accessCoin
  refine wp_seq (wp_fetchCoin h o) fun entry view' ⟨hshows, _, hlookup⟩ => ⟨?_, hshows⟩
  rw [hlookup]
  cases entry with
  | none | some entry => rfl

/-- `SpendCoin` moves the coin out. -/
lemma wp_spendCoin (hcoin : view.lookup o = some coin) :
    wp (spendCoin o) (fun r view' => r = some coin ∧ Shows view (update view.lookup o none) view') E view := by
  unfold spendCoin
  refine wp_seq (wp_fetchCoin h o) fun entry view' ⟨hshows, hcache, hlookup⟩ => ?_
  rw [hcoin] at hlookup
  cases entry with
  | none => cases hlookup
  | some entry =>
    obtain ⟨rfl, -⟩ := Coin.visible_eq_some hlookup.symm
    refine (wp_ite _ _).mpr ⟨fun hfresh => ?_, fun hfresh => ?_⟩
    · refine (wp_bind _ _ _).mpr ⟨rfl, hshows.trans ?_⟩
      rw [← hshows.lookup]
      exact .setEntry hshows.wf none nofun nofun
        (fun _ => hshows.wf.fresh o entry hcache hfresh)
    · refine (wp_bind _ _ _).mpr ⟨rfl, hshows.trans ?_⟩
      rw [← hshows.lookup]
      exact .setEntry hshows.wf (some { entry with coin := coinEmpty, dirty := true })
        (fun e he hf => by cases he; exact absurd hf hfresh) (fun e he hd => by cases he; cases hd)
        nofun

lemma wp_addCoin_unspendable (hunspendable : isUnspendable coin.out.scriptPubKey) (possibleOverwrite : Bool) :
    wlp (addCoin o coin possibleOverwrite) (fun _ view' => Shows view view.lookup view') view := by
  refine wp_ite_throw fun _ => (wp_ite _ _).mpr ⟨fun _ => .refl h, fun hnot => ?_⟩
  exact absurd hunspendable hnot

/-- `AddCoin` writes a coin. It throws only if the coin is spent, or would overwrite another one. -/
lemma wp_addCoin (hspendable : isUnspendable coin.out.scriptPubKey = false) (hsettled : Settled view o)
    {possibleOverwrite : Bool} (hnone : possibleOverwrite → view.lookup o = none) :
    wp (addCoin o coin possibleOverwrite) (fun _ view' => view.lookup o = none ∧ coin.isSpent = false ∧
      Shows view (update view.lookup o (some coin)) view')
      (fun _ _ => coin.isSpent ∨ view.lookup o ≠ none) view := by
  refine (wp_ite _ _).mpr ⟨fun hspent => .inl hspent, fun hspent => (wp_ite _ _).mpr ⟨fun hun => ?_, fun _ => ?_⟩⟩
  · rw [hspendable] at hun
    cases hun
  · rw [Bool.not_eq_true] at hspent
    rw [wp_bind, wp_get]
    generalize hentry : (view.cacheCoins o).getD { coin := coinEmpty, dirty := false, fresh := false } = entry
    refine (wp_ite _ _).mpr ⟨fun hover => .inr fun hlookup => ?_, fun hover => ?_⟩
    · have hunspent : entry.coin.isSpent = false := by simpa using hover.2
      cases hcache : view.cacheCoins o with
      | none =>
        rw [hcache, getD_none] at hentry
        subst hentry
        cases hunspent
      | some e =>
        rw [hcache, getD_some] at hentry
        rw [lookup_of_some hcache, hentry, Coin.visible_of_not_isSpent hunspent] at hlookup
        cases hlookup
    have hlookup : view.lookup o = none := by
      cases possibleOverwrite with
      | true => exact hnone rfl
      | false =>
        have hspent' : entry.coin.isSpent := by simpa using hover
        cases hcache : view.cacheCoins o with
        | none => exact (lookup_of_none hcache).trans (hsettled hcache)
        | some e =>
          rw [hcache, getD_some] at hentry
          rw [lookup_of_some hcache, hentry]
          exact Coin.visible_eq_none.mpr hspent'
    refine ⟨hlookup, hspent, ?_⟩
    have hset := Shows.setEntry (o := o) h (some (addedEntry entry coin possibleOverwrite)) (fun e he hfresh => ?_)
      (fun e he hd => by cases he; cases hd) nofun
    · rwa [bind_some, show (addedEntry entry coin possibleOverwrite).coin = coin from rfl,
        Coin.visible_of_not_isSpent hspent] at hset
    · -- the entry was fresh before, or there is nothing dirty about it
      cases he
      cases hcache : view.cacheCoins o with
      | none => exact hsettled hcache
      | some e =>
        rw [hcache, getD_some] at hentry
        subst hentry
        unfold addedEntry at hfresh
        rw [Bool.or_eq_true, Bool.and_eq_true, Bool.not_eq_true', Bool.not_eq_true'] at hfresh
        obtain hfresh | ⟨-, hdirty⟩ := hfresh
        · exact h.fresh o e hcache hfresh
        · refine baseCoin_eq_none_of_not_dirty h hsettled hlookup fun e' he' => ?_
          rw [hcache] at he'
          cases he'
          exact hdirty

end Blocx
