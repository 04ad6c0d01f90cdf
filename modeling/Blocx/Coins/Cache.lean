import Blocx.Lib.Batch
import Blocx.Lib.Throwing
import Blocx.Primitives.Transaction

/-!
# The cache of coins

`Coin` and `CCoinsViewCache` (`coins.h`, `coins.cpp`). A cache stands in front of another view and holds entries that
differ from it. Two flags of an entry decide what becomes of it: `DIRTY`, it may differ from the view below, and
`FRESH`, the view below has no coin there, so that a spent entry can be forgotten.

The view below is known by its `GetCoin` and `GetBestBlock`. What a cache shows is the map `lookup`. The operations are
specified by what they do to that map, as long as the flags tell the truth (`CacheWf`). A height is the `int` of a block
and fits the 31 bits it is stored in. The memory usage that the cache counts is left out.
-/

namespace Blocx

/-! ### Coins -/

def CTxOut.isNull (out : CTxOut) : Bool := out.nValue = -1

def maxScriptSize : ℕ := 10000

/-- `CScript::IsUnspendable`: the script starts with `OP_RETURN`, or it is too long. -/
def isUnspendable (script : List UInt8) : Bool := script.head? = some 0x6a || script.length > maxScriptSize

structure Coin where
  out : CTxOut
  fCoinBase : Bool
  nHeight : ℤ
  deriving DecidableEq

/-- The coin without an output, which `Clear` leaves. -/
def coinEmpty : Coin where
  out := ⟨-1, []⟩
  fCoinBase := false
  nHeight := 0

def Coin.isSpent (coin : Coin) : Bool := coin.out.isNull

/-- What a view shows of a coin that may be spent. -/
def Coin.visible (coin : Coin) : Option Coin := if coin.isSpent then none else some coin

lemma Coin.visible_eq_some {coin c : Coin} (h : coin.visible = some c) : c = coin ∧ c.isSpent = false := by
  unfold visible at h
  split_ifs at h with hspent
  cases h
  exact ⟨rfl, Bool.eq_false_iff.mpr hspent⟩

lemma Coin.visible_of_not_isSpent {coin : Coin} (h : coin.isSpent = false) : coin.visible = some coin :=
  if_neg (Bool.eq_false_iff.mp h)

lemma Coin.visible_eq_none {coin : Coin} : coin.visible = none ↔ coin.isSpent := by
  unfold visible
  split_ifs with h <;> simp [h]

/-! ### The cache -/

structure CCoinsCacheEntry where
  /-- The coin, empty when it is spent. -/
  coin : Coin
  dirty : Bool
  fresh : Bool
  deriving DecidableEq

/-- The view below a cache. -/
structure CCoinsBase where
  getCoin : COutPoint → Option Coin
  getBestBlock : Uint256

structure CCoinsViewCache where
  base : CCoinsBase
  /-- The block whose coins are shown, null when it is the one of the view below. -/
  hashBlock : Uint256 := 0
  cacheCoins : COutPoint → Option CCoinsCacheEntry := fun _ => none

/-- What ends an operation on coins other than returning. -/
inductive CoinsError where
  /-- `std::logic_error`: an unspent coin would be overwritten. -/
  | overwrite
  /-- A failed `assert`, or another exception. -/
  | assertion
  /-- The block is invalid, with the reject reason. -/
  | invalid (reason : String)
  | failed
  deriving DecidableEq

/-- Programs on a cache. -/
abbrev CoinsM (α : Type) : Type := EStateM CoinsError CCoinsViewCache α

namespace CCoinsViewCache

/-- Write an entry. -/
def setEntry (view : CCoinsViewCache) (outpoint : COutPoint) (entry : Option CCoinsCacheEntry) : CCoinsViewCache :=
  { view with cacheCoins := Function.update view.cacheCoins outpoint entry }

def getBestBlock (view : CCoinsViewCache) : Uint256 :=
  if view.hashBlock = 0 then view.base.getBestBlock else view.hashBlock

/-- The coin that the view below shows. -/
def baseCoin (view : CCoinsViewCache) (outpoint : COutPoint) : Option Coin :=
  (view.base.getCoin outpoint).bind Coin.visible

/-- The coin that the cache shows. -/
def lookup (view : CCoinsViewCache) (outpoint : COutPoint) : Option Coin :=
  match view.cacheCoins outpoint with
  | some entry => entry.coin.visible
  | none => view.baseCoin outpoint

end CCoinsViewCache

open CCoinsViewCache

/-! ### The operations -/

/-- `FetchCoin`: the entry, taken from the view below when there is none. -/
def fetchCoin (outpoint : COutPoint) : CoinsM (Option CCoinsCacheEntry) := do
  let view ← get
  match view.cacheCoins outpoint with
  | some entry => return some entry
  | none =>
    match view.base.getCoin outpoint with
    | none => return none
    | some tmp => do
      let entry : CCoinsCacheEntry := { coin := tmp, dirty := false, fresh := tmp.isSpent }
      modify fun view => view.setEntry outpoint (some entry)
      return some entry

def haveCoin (outpoint : COutPoint) : CoinsM Bool := do
  let entry ← fetchCoin outpoint
  return entry.any fun entry => !entry.coin.isSpent

def accessCoin (outpoint : COutPoint) : CoinsM Coin := do
  let entry ← fetchCoin outpoint
  return entry.elim coinEmpty (·.coin)

/-- `SpendCoin`: the coin that is moved out, if there is an entry. -/
def spendCoin (outpoint : COutPoint) : CoinsM (Option Coin) := do
  match ← fetchCoin outpoint with
  | none => return none
  | some entry =>
    if entry.fresh then modify fun view => view.setEntry outpoint none
    else modify fun view => view.setEntry outpoint (some { entry with coin := coinEmpty, dirty := true })
    return some entry.coin

/-- The entry that `AddCoin` makes from the one that is there. -/
def addedEntry (entry : CCoinsCacheEntry) (coin : Coin) (possibleOverwrite : Bool) : CCoinsCacheEntry :=
  let fresh := !possibleOverwrite && !entry.dirty
  { coin := coin, dirty := true, fresh := entry.fresh || fresh }

def addCoin (outpoint : COutPoint) (coin : Coin) (possibleOverwrite : Bool) : CoinsM Unit := do
  if coin.isSpent then throw .assertion
  else if isUnspendable coin.out.scriptPubKey then return ()
  else do
    let view ← get
    let entry := (view.cacheCoins outpoint).getD { coin := coinEmpty, dirty := false, fresh := false }
    if !possibleOverwrite ∧ !entry.coin.isSpent then throw .overwrite
    else modify fun view => view.setEntry outpoint (some (addedEntry entry coin possibleOverwrite))

/-- `AddCoins` from the output with an index on. -/
def addCoinsFrom (txid : Uint256) (fCoinbase : Bool) (nHeight : ℤ) (i : ℕ) : List CTxOut → CoinsM Unit
  | [] => return ()
  | out :: vout => do
    addCoin ⟨txid, BitVec.ofNat 32 i⟩ { out := out, fCoinBase := fCoinbase, nHeight := nHeight } fCoinbase
    addCoinsFrom txid fCoinbase nHeight (i + 1) vout

/-- `AddCoins`, without the check for overwriting. -/
def addCoins (tx : CTransaction) (nHeight : ℤ) : CoinsM Unit := addCoinsFrom tx.hash tx.isCoinBase nHeight 0 tx.vout

/-- `MAX_OUTPUTS_PER_BLOCK`: outputs without a script take nine bytes. -/
def maxOutputsPerBlock : ℕ := 2000000 / 9

/-- The loop of `AccessByTxid` from an index, with the number of indices left. -/
def accessByTxidFrom (txid : Uint256) (n : ℕ) : ℕ → CoinsM Coin
  | 0 => return coinEmpty
  | left + 1 => do
    let alternate ← accessCoin ⟨txid, BitVec.ofNat 32 n⟩
    if !alternate.isSpent then return alternate
    else accessByTxidFrom txid (n + 1) left

def accessByTxid (txid : Uint256) : CoinsM Coin := accessByTxidFrom txid 0 maxOutputsPerBlock

end Blocx
