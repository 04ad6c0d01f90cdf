import Blocx.Evo.DmnListDiff

/-!
# Lists on disk

`CDeterministicMNList::Serialize` and `Unserialize` (`evo/deterministicmns.h`). A list is written as its block, its
counter and its masternodes, in the order of an iteration over an unordered map. When it is read back, each masternode
is added with `AddMN`, which rebuilds the other four maps and may throw. A list that satisfies the representation
invariant is read back whole, whatever the order was.
-/

namespace Blocx

open Wire CDeterministicMNList

variable {G : Type}

namespace CDeterministicMNList

/-- A list as it is written, with the masternodes in some order. -/
def serialize (bls : Bls G) (list : CDeterministicMNList G) (order : List (CDeterministicMN G)) : List UInt8 :=
  put list.blockHash ++ (putInt32 list.nHeight ++ (put (BitVec.ofNat 32 list.nTotalRegisteredCount) ++
    putList (CDeterministicMN.serialize bls) order))

/-- Add the masternodes that were read, or fail if one cannot be added. -/
def addAll (crypto : Crypto G) (dmns : List (CDeterministicMN G)) (list : CDeterministicMNList G) :
    Reader (CDeterministicMNList G) :=
  match (dmns.forM (addMN crypto · false)).run list with
  | .ok _ list => pure list
  | .error _ _ => Reader.fail

/-- Read a list. -/
def unserialize (crypto : Crypto G) : Reader (CDeterministicMNList G) := do
  let blockHash ← Reader.get 256
  let nHeight ← Reader.getInt32
  let nTotalRegisteredCount ← Reader.get 32
  let dmns ← Reader.getList maxSize (CDeterministicMN.unserialize crypto.bls)
  addAll crypto dmns { blockHash, nHeight, nTotalRegisteredCount := nTotalRegisteredCount.toNat }

end CDeterministicMNList

variable {crypto : Crypto G} {list : CDeterministicMNList G} {order : List (CDeterministicMN G)}

/-- The masternodes of a list can be added one by one, in any order, and give the list. -/
lemma Rep.wp_addAll [DecidableEq G] (h : Rep crypto list) (horder : order.Perm (mns list.mnMap)) :
    wp (order.forM (addMN crypto · false)) (fun _ l => l = list) (fun _ _ => False)
      { blockHash := list.blockHash, nHeight := list.nHeight
        nTotalRegisteredCount := list.nTotalRegisteredCount } := by
  -- they are the additions of the difference to a list without masternodes
  generalize hempty : ({ blockHash := list.blockHash, nHeight := list.nHeight
                         nTotalRegisteredCount := list.nTotalRegisteredCount } : CDeterministicMNList G) = empty
  have hnone : ∀ x : Uint256, empty.mnMap[x]? = none := by simp [← hempty]
  have hrep : Rep crypto empty := hempty ▸ Rep.empty _ _ _
  have hfollows : Follows crypto empty list := ⟨hrep, h, by simp [hnone], by simp [hnone]⟩
  have hadded : order.Perm (empty.buildDiff list).addedMNs := by
    refine horder.trans (.trans ?_ (List.perm_insertionSort _ _).symm)
    simp [notIn, getMN, hnone]
  have hstart : Holding crypto list.blockHash list.nHeight (removing empty list []) empty :=
    ⟨hrep, by simp [removing, hnone], by simp [← hempty], by simp [← hempty]⟩
  refine (hfollows.wp_additions false hadded hstart).imp fun _ l hl => ?_
  obtain ⟨hl, htotal⟩ := hl
  refine hl.eq h (fun x => ?_) (htotal.trans (by simp [← hempty]))
  rw [adding, hnone]
  cases list.mnMap[x]? <;> simp

/-- A list, written in any order, is read back. -/
lemma CDeterministicMNList.reads_serialize [DecidableEq G] (h : Rep crypto list) (hheight : IsInt32 list.nHeight)
    (htotal : list.nTotalRegisteredCount ≤ maxSize)
    (hmns : ∀ (x : Uint256) d, list.mnMap[x]? = some d →
      d.internalId < list.nTotalRegisteredCount ∧ d.nType.isValid ∧ StateWf d.pdmnState)
    (horder : order.Perm (mns list.mnMap)) : Reads (unserialize crypto) (list.serialize crypto.bls order) list := by
  have hmax : maxSize < 2 ^ 32 := by decide
  have hmem : ∀ {d : CDeterministicMN G}, d ∈ order → list.mnMap[d.proTxHash]? = some d := fun hd =>
    h.mem_mns_iff.mp (horder.mem_iff.mp hd)
  have hnodup : (order.map (·.internalId)).Nodup := (horder.map _).nodup_iff.mpr h.nodup_internalId
  have hlen : order.length ≤ maxSize := by
    have hle := length_le_of_nodup hnodup (n := maxSize) fun id hid => by
      obtain ⟨d, hd, rfl⟩ := List.mem_map.mp hid
      exact (hmns _ d (hmem hd)).1.trans_le htotal
    rwa [List.length_map] at hle
  refine (Reads.get (by decide) list.blockHash).bind ((Reads.getInt32 hheight).bind
    ((Reads.get (by decide) (BitVec.ofNat 32 list.nTotalRegisteredCount)).bind
    ((Reads.getList hlen (by decide) fun d hd => ?_).bind_pure ?_)))
  · obtain ⟨hid, htype, hstate⟩ := hmns _ d (hmem hd)
    exact d.reads_serialize crypto.bls ((hid.trans_le htotal).trans (hmax.trans (by decide))) htype hstate
  · rw [BitVec.toNat_ofNat, Nat.mod_eq_of_lt (htotal.trans_lt hmax)]
    obtain ⟨u, l, hrun, rfl⟩ := (h.wp_addAll horder).exists_ok
    unfold addAll
    rw [hrun]
    exact Reads.pure l

end Blocx
