import Blocx.Lib.Iterator
import Mathlib.Tactic.Ring

/-!
# Database transactions

`CDBTransaction` (`dbwrapper.h`): changes that are kept in memory over a parent, which is the database or another
transaction, and passed on to a target by `Commit`. A transaction has a map of writes and a set of deletes, and counts
the memory that they use. Keys are the bytes of the serialised key.

Values have types. A transaction holds values as they are, with their types, and throws when a value is read with
another type; the database holds bytes, and a value that cannot be read from them counts as missing. What the types
serialise to comes with `Codec`.
-/

namespace Blocx

open List

open OrderedStore

/-- `CDataStream` as a key: the bytes. -/
abbrev DbKey : Type := List UInt8

/-- The values that are stored, and their types. -/
structure Codec (T V : Type) where
  typeOf : V → T
  serialize : V → List UInt8
  unserialize : T → List UInt8 → Option V
  getSerializeSize : V → ℕ

/-- What is asked of the types: a value that was serialised can be read back, and what is read has the type that was
asked for. -/
structure Codec.Lawful {T V : Type} (codec : Codec T V) : Prop where
  unserialize_serialize : ∀ v, codec.unserialize (codec.typeOf v) (codec.serialize v) = some v
  typeOf_unserialize : ∀ type bytes v, codec.unserialize type bytes = some v → codec.typeOf v = type

structure ValueHolder (V : Type) where
  value : V
  memoryUsage : ℕ

/-- What `Read` throws. -/
inductive DbException where
  /-- Read called with V != previously written type. -/
  | otherType
  deriving DecidableEq

structure CDBTransaction (V : Type) where
  writes : OrderedStore DbKey (ValueHolder V) := {}
  deletes : OrderedStore DbKey Unit := {}
  /-- Memory in use, `ssize_t`. -/
  memoryUsage : ℤ := 0

namespace CDBTransaction

variable {T V : Type} (codec : Codec T V) (tx : CDBTransaction V)

/-- `deletes.count`. -/
def deleted (ssKey : DbKey) : Bool := (tx.deletes.get ssKey).isSome

/-- `writes.count`. -/
def written (ssKey : DbKey) : Bool := (tx.writes.get ssKey).isSome

def write (ssKey : DbKey) (v : V) : CDBTransaction V :=
  let valueMemoryUsage := codec.getSerializeSize v
  let memoryUsage := if tx.deleted ssKey then tx.memoryUsage - ssKey.length else tx.memoryUsage
  let memoryUsage := match tx.writes.get ssKey with
    | none => memoryUsage
    | some holder => memoryUsage - (ssKey.length + holder.memoryUsage)
  { writes := tx.writes.write ssKey ⟨v, valueMemoryUsage⟩
    deletes := tx.deletes.erase ssKey
    memoryUsage := memoryUsage + (ssKey.length + valueMemoryUsage) }

def erase (ssKey : DbKey) : CDBTransaction V :=
  let memoryUsage := match tx.writes.get ssKey with
    | none => tx.memoryUsage
    | some holder => tx.memoryUsage - (ssKey.length + holder.memoryUsage)
  { writes := tx.writes.erase ssKey
    deletes := tx.deletes.write ssKey ()
    memoryUsage := if tx.deleted ssKey then memoryUsage else memoryUsage + ssKey.length }

def read [DecidableEq T] (parentRead : DbKey → T → Except DbException (Option V)) (ssKey : DbKey) (type : T) :
    Except DbException (Option V) :=
  if tx.deleted ssKey then .ok none
  else match tx.writes.get ssKey with
    | some holder => if codec.typeOf holder.value = type then .ok (some holder.value) else .error .otherType
    | none => parentRead ssKey type

def existsKey (parentExists : DbKey → Bool) (ssKey : DbKey) : Bool :=
  if tx.deleted ssKey then false
  else if tx.written ssKey then true
  else parentExists ssKey

def isClean : Bool := tx.writes.entries.isEmpty && tx.deletes.entries.isEmpty

/-- `Commit`, up to `Clear`: what the target becomes. -/
def commit {R : Type} (targetErase : R → DbKey → R) (targetWrite : R → DbKey → V → R) (target : R) : R :=
  let target := tx.deletes.keys.foldl targetErase target
  tx.writes.entries.foldl (fun target entry => targetWrite target entry.1 entry.2.value) target

/-! ### The changes of a transaction -/

/-- The change of a key, if the transaction has one. -/
def change (ssKey : DbKey) : Option (Option V) :=
  if tx.deleted ssKey then some none else (tx.writes.get ssKey).map fun holder => some holder.value

/-- A map with the changes of the transaction laid over it. -/
def overlay (parent : DbKey → Option V) (ssKey : DbKey) : Option V := (tx.change ssKey).getD (parent ssKey)

/-- Memory used by the pending keys and values. -/
def pendingSize : ℤ :=
  (tx.writes.entries.map fun entry => ((entry.1.length + codec.getSerializeSize entry.2.value : ℕ) : ℤ)).sum +
    (tx.deletes.entries.map fun entry => (entry.1.length : ℤ)).sum

/-- What the methods keep: no key is both written and deleted, the sizes of the holders are those of their values, and
the memory is counted right. -/
structure Wf : Prop where
  disjoint : ∀ k, tx.deleted k = true → tx.writes.get k = none
  holder : ∀ k holder, tx.writes.get k = some holder → holder.memoryUsage = codec.getSerializeSize holder.value
  memoryUsage : tx.memoryUsage = tx.pendingSize codec

end CDBTransaction

namespace CDBTransaction

variable {T V : Type} {codec : Codec T V} {tx : CDBTransaction V} {k : DbKey} {v : V}

@[simp]
lemma writes_write : (tx.write codec k v).writes = tx.writes.write k ⟨v, codec.getSerializeSize v⟩ :=
  rfl

@[simp]
lemma deletes_write : (tx.write codec k v).deletes = tx.deletes.erase k := rfl

@[simp]
lemma writes_erase : (tx.erase k).writes = tx.writes.erase k := rfl

@[simp]
lemma deletes_erase : (tx.erase k).deletes = tx.deletes.write k () := rfl

lemma deleted_write {k' : DbKey} : (tx.write codec k v).deleted k' = if k' = k then false else tx.deleted k' := by
  unfold deleted
  rw [deletes_write, get_erase]
  split <;> rfl

lemma deleted_erase {k' : DbKey} : (tx.erase k).deleted k' = if k' = k then true else tx.deleted k' := by
  unfold deleted
  rw [deletes_erase, get_write]
  split <;> rfl

lemma wf_empty : Wf codec ({} : CDBTransaction V) :=
  ⟨by simp [OrderedStore.get], by simp [OrderedStore.get], rfl⟩

/-- Memory used by a written key. -/
def writeSize (codec : Codec T V) (k : DbKey) (holder : ValueHolder V) : ℤ :=
  ((k.length + codec.getSerializeSize holder.value : ℕ) : ℤ)

/-- Memory used by a deleted key. -/
def deleteSize (k : DbKey) (_ : Unit) : ℤ := k.length

lemma pendingSize_eq : tx.pendingSize codec = tx.writes.sumBy (writeSize codec) + tx.deletes.sumBy deleteSize := rfl

lemma deleted_part : tx.deletes.part deleteSize k = if tx.deleted k then (k.length : ℤ) else 0 := by
  unfold part deleted
  cases tx.deletes.get k <;> rfl

section

variable (h : Wf codec tx)

include h

lemma memoryUsage_write : (tx.write codec k v).memoryUsage =
    tx.memoryUsage - tx.deletes.part deleteSize k - tx.writes.part (writeSize codec) k +
      (k.length + codec.getSerializeSize v) := by
  unfold write
  rw [deleted_part]
  unfold part
  cases hw : tx.writes.get k with
  | none => cases tx.deleted k <;> simp
  | some holder => cases tx.deleted k <;> simp [writeSize, h.holder k holder hw]

lemma memoryUsage_erase : (tx.erase k).memoryUsage =
    tx.memoryUsage - tx.writes.part (writeSize codec) k + (k.length - tx.deletes.part deleteSize k) := by
  unfold erase
  rw [deleted_part]
  unfold part
  cases hw : tx.writes.get k with
  | none => cases tx.deleted k <;> simp
  | some holder => cases tx.deleted k <;> simp [writeSize, h.holder k holder hw]

lemma Wf.write (k : DbKey) (v : V) : Wf codec (tx.write codec k v) where
  disjoint k' hk' := by
    rw [deleted_write] at hk'
    rw [writes_write, get_write]
    split_ifs at hk' ⊢ with hk
    exact h.disjoint k' hk'
  holder k' holder hget := by
    rw [writes_write, get_write] at hget
    split_ifs at hget with hk
    · cases hget
      rfl
    · exact h.holder k' holder hget
  memoryUsage := by
    rw [memoryUsage_write h, h.memoryUsage, pendingSize_eq, pendingSize_eq, writes_write, deletes_write,
      sumBy_write, sumBy_erase, writeSize]
    push_cast
    ring

lemma Wf.erase (k : DbKey) : Wf codec (tx.erase k) where
  disjoint k' hk' := by
    rw [deleted_erase] at hk'
    rw [writes_erase, get_erase]
    split_ifs at hk' ⊢ with hk
    · rfl
    · exact h.disjoint k' hk'
  holder k' holder hget := by
    rw [writes_erase, get_erase] at hget
    split_ifs at hget with hk
    exact h.holder k' holder hget
  memoryUsage := by
    rw [memoryUsage_erase h, h.memoryUsage, pendingSize_eq, pendingSize_eq, writes_erase, deletes_erase,
      sumBy_write, sumBy_erase]
    unfold deleteSize
    ring

end

/-! ### Reading through a transaction -/

variable {parent : DbKey → Option V} {k k' : DbKey}

lemma change_write : (tx.write codec k v).change k' = if k' = k then some (some v) else tx.change k' := by
  unfold change
  rw [deleted_write, writes_write, get_write]
  by_cases hk : k' = k <;> simp [hk]

lemma change_erase : (tx.erase k).change k' = if k' = k then some none else tx.change k' := by
  unfold change
  rw [deleted_erase, writes_erase, get_erase]
  by_cases hk : k' = k <;> simp [hk]

lemma overlay_write : (tx.write codec k v).overlay parent k' = if k' = k then some v else tx.overlay parent k' := by
  unfold overlay
  rw [change_write]
  split <;> rfl

lemma overlay_erase : (tx.erase k).overlay parent k' = if k' = k then none else tx.overlay parent k' := by
  unfold overlay
  rw [change_erase]
  split <;> rfl

lemma isClean_write : (tx.write codec k v).isClean = false := by
  simp [isClean, writes_write, OrderedStore.write]

lemma isClean_erase : (tx.erase k).isClean = false := by
  simp [isClean, deletes_erase, OrderedStore.write]

lemma overlay_empty : ({} : CDBTransaction V).overlay parent = parent := rfl

/-- `Read` through a transaction whose values have the type that is asked for. -/
lemma read_eq [DecidableEq T] {parentRead : DbKey → T → Except DbException (Option V)} {type : T}
    (hparent : parentRead k type = .ok (parent k))
    (htype : ∀ holder, tx.writes.get k = some holder → codec.typeOf holder.value = type) :
    tx.read codec parentRead k type = .ok (tx.overlay parent k) := by
  unfold read overlay change
  split
  · rfl
  · cases hget : tx.writes.get k with
    | none => exact hparent
    | some holder =>
      dsimp only
      rw [if_pos (htype holder hget)]
      rfl

lemma existsKey_eq {parentExists : DbKey → Bool} (hparent : parentExists k = (parent k).isSome) :
    tx.existsKey parentExists k = (tx.overlay parent k).isSome := by
  unfold existsKey overlay change written
  split
  · rfl
  · cases tx.writes.get k with
    | none => exact hparent
    | some holder => rfl

/-! ### One type for each key -/

variable {ty : DbKey → T}

/-- The pending values have the types of their keys. -/
def Typed (codec : Codec T V) (ty : DbKey → T) (tx : CDBTransaction V) : Prop :=
  ∀ k holder, tx.writes.get k = some holder → codec.typeOf holder.value = ty k

lemma typed_empty : ({} : CDBTransaction V).Typed codec ty := by
  simp [Typed, OrderedStore.get]

lemma Typed.write (h : tx.Typed codec ty) (hv : codec.typeOf v = ty k) : (tx.write codec k v).Typed codec ty := by
  intro k' holder hget
  rw [writes_write, get_write] at hget
  split_ifs at hget with hk
  · cases hget
    rw [hk]
    exact hv
  · exact h k' holder hget

lemma Typed.erase (h : tx.Typed codec ty) : (tx.erase k).Typed codec ty := by
  intro k' holder hget
  rw [writes_erase, get_erase] at hget
  split_ifs at hget with hk
  exact h k' holder hget

/-! ### Passing the changes on -/

/-- After `Commit` the target has the changes, whatever it had before. -/
lemma get_commit {R : Type} (h : Wf codec tx) {targetErase : R → DbKey → R} {targetWrite : R → DbKey → V → R}
    (get : R → DbKey → Option V) (good : R → Prop) (herase : ∀ target k, good target → good (targetErase target k) ∧
      ∀ k', get (targetErase target k) k' = if k' = k then none else get target k')
    (hwrite : ∀ target k holder, tx.writes.get k = some holder → good target →
      good (targetWrite target k holder.value) ∧
      ∀ k', get (targetWrite target k holder.value) k' = if k' = k then some holder.value else get target k')
    {target : R} (hgood : good target) :
    good (tx.commit targetErase targetWrite target) ∧
      get (tx.commit targetErase targetWrite target) = tx.overlay (get target) := by
  -- both loops set the keys of their entries, in the second one to what the writes hold
  have hsets : ∀ {E : Type} (set : R → E → R) (key : E → DbKey) (value : DbKey → Option V) (es : List E),
      (∀ e ∈ es, ∀ target, good target → good (set target e) ∧
        ∀ k', get (set target e) k' = if k' = key e then value k' else get target k') →
      ∀ target, good target → good (es.foldl set target) ∧
        ∀ k', get (es.foldl set target) k' = if k' ∈ es.map key then value k' else get target k' := by
    intro E set key value es hset
    induction es with
    | nil => exact fun target hgood => ⟨hgood, by simp⟩
    | cons e es ih =>
      intro target hgood
      obtain ⟨hgood', hget⟩ := hset e mem_cons_self target hgood
      obtain ⟨hgood'', hget'⟩ := ih (fun e' he' => hset e' (mem_cons_of_mem _ he')) _ hgood'
      refine ⟨hgood'', fun k' => ?_⟩
      rw [foldl_cons, hget', hget]
      by_cases hk : k' = key e <;> simp [hk]
  obtain ⟨hgood', hget⟩ := hsets targetErase id (fun _ => none) tx.deletes.keys 
    (fun k _ target => herase target k) target hgood
  obtain ⟨hgood'', hget'⟩ := hsets _ Prod.fst (fun k => (tx.writes.get k).map (·.value)) tx.writes.entries
    (fun e he target hgood => by
      have hget := get_eq_some_iff.mpr he
      refine ⟨(hwrite target e.1 e.2 hget hgood).1, fun k' => ?_⟩
      rw [(hwrite target e.1 e.2 hget hgood).2]
      by_cases hk : k' = e.1 <;> simp [hk, hget]) _ hgood'
  refine ⟨hgood'', funext fun k => ?_⟩
  have hwritten : k ∈ tx.writes.entries.map Prod.fst ↔ (tx.writes.get k).isSome = true := OrderedStore.mem_keys
  rw [show get (tx.commit targetErase targetWrite target) k = _ from hget' k, hget]
  unfold overlay change deleted
  simp only [hwritten, map_id, OrderedStore.mem_keys]
  cases hd : tx.deletes.get k with
  | some u =>
    have hnone := h.disjoint k (by simp [deleted, hd])
    simp [hnone]
  | none => cases tx.writes.get k <;> simp

end CDBTransaction

end Blocx
