import Blocx.Db.TransactionIterator
import Blocx.Lib.Machine

/-!
# The evo database

`CEvoDB` (`evo/evodb.h`, `evo/evodb.cpp`): a database with two transactions over it. The current transaction takes the
writes; a scoped committer passes them on to the root transaction, or drops them; `CommitRootTransaction` writes the
root transaction to disk in one batch.

The database is compared with `NestedMap`: a map that clients see, the map as it was at the last commit, and whether
anything was written or erased since. In every run in which each key is used with one type, whatever typed content the
disk has at the start, both give the same answers and fail the same assertions; and the iterator of the current
transaction visits the map that clients see.
-/

namespace Blocx.EvoDb

open CDBTransaction

variable {T V : Type} {db : OrderedStore DbKey (List UInt8)}

/-! ### The database -/

/-- `CDBBatch`: what was put in, in order; no value is a deletion. -/
abbrev CDBBatch : Type := List (DbKey × Option (List UInt8))

/-- `CDBWrapper::WriteBatch`, which succeeds. -/
def writeBatch (db : OrderedStore DbKey (List UInt8)) (batch : CDBBatch) : OrderedStore DbKey (List UInt8) :=
  batch.foldl (fun db entry => match entry.2 with
    | none => db.erase entry.1
    | some bytes => db.write entry.1 bytes) db

/-- `CEvoDB`, with the scoped committers that were made. -/
structure CEvoDB (V : Type) where
  /-- The database on disk. -/
  db : OrderedStore DbKey (List UInt8)
  /-- The batch for the disk. -/
  rootBatch : CDBBatch := []
  /-- The transaction over the disk. -/
  rootDBTransaction : CDBTransaction V := {}
  /-- The transaction over the root transaction. -/
  curDBTransaction : CDBTransaction V := {}
  /-- `didCommitOrRollback` of each scoped committer. -/
  committers : List Bool := []

/-- What is asked of the database. -/
inductive EvoDbRequest (T V : Type) where
  | write (key : DbKey) (value : V)
  | erase (key : DbKey)
  | read (key : DbKey) (type : T)
  | existsKey (key : DbKey)
  /-- A new scoped committer. -/
  | beginTransaction
  | commit (committer : ℕ)
  | rollback (committer : ℕ)
  | destroy (committer : ℕ)
  | commitRootTransaction

/-- What the database answers. -/
inductive EvoDbAnswer (V : Type) where
  | done
  /-- The value that was read, if there is one, or what was thrown. -/
  | value (result : Except DbException (Option V))
  | exists_ (result : Bool)

namespace CEvoDB

variable (codec : Codec T V)

/-- `CDBWrapper::Read`. -/
def dbRead (evoDb : CEvoDB V) (key : DbKey) (type : T) : Except DbException (Option V) :=
  .ok ((evoDb.db.get key).bind (codec.unserialize type))

/-- `Read` of the root transaction. -/
def rootRead [DecidableEq T] (evoDb : CEvoDB V) : DbKey → T → Except DbException (Option V) :=
  evoDb.rootDBTransaction.read codec (evoDb.dbRead codec)

def read [DecidableEq T] (evoDb : CEvoDB V) : DbKey → T → Except DbException (Option V) :=
  evoDb.curDBTransaction.read codec (evoDb.rootRead codec)

def existsKey (evoDb : CEvoDB V) : DbKey → Bool :=
  evoDb.curDBTransaction.existsKey (evoDb.rootDBTransaction.existsKey fun key => (evoDb.db.get key).isSome)

def commitCurTransaction (evoDb : CEvoDB V) : CEvoDB V :=
  { evoDb with
    rootDBTransaction := evoDb.curDBTransaction.commit .erase (fun root => root.write codec) evoDb.rootDBTransaction
    curDBTransaction := {} }

def rollbackCurTransaction (evoDb : CEvoDB V) : CEvoDB V := { evoDb with curDBTransaction := {} }

/-- `CommitRootTransaction`, after its assertion. -/
def commitRootTransaction (evoDb : CEvoDB V) : CEvoDB V :=
  let rootBatch := evoDb.rootDBTransaction.commit (fun batch key => batch ++ [(key, none)])
    (fun batch key v => batch ++ [(key, some (codec.serialize v))]) evoDb.rootBatch
  { evoDb with
    rootDBTransaction := {}
    db := writeBatch evoDb.db rootBatch
    rootBatch := [] }

/-- A request. The database aborts if an assertion fails. -/
def step [DecidableEq T] (evoDb : CEvoDB V) : EvoDbRequest T V → Option (CEvoDB V × EvoDbAnswer V)
  | .write key value =>
    some ({ evoDb with curDBTransaction := evoDb.curDBTransaction.write codec key value }, .done)
  | .erase key => some ({ evoDb with curDBTransaction := evoDb.curDBTransaction.erase key }, .done)
  | .read key type => some (evoDb, .value (evoDb.read codec key type))
  | .existsKey key => some (evoDb, .exists_ (evoDb.existsKey key))
  | .beginTransaction => some ({ evoDb with committers := evoDb.committers ++ [false] }, .done)
  | .commit committer =>
    if evoDb.committers.getD committer true then none
    else some ({ evoDb.commitCurTransaction codec with committers := evoDb.committers.set committer true }, .done)
  | .rollback committer =>
    if evoDb.committers.getD committer true then none
    else some ({ evoDb.rollbackCurTransaction with committers := evoDb.committers.set committer true }, .done)
  | .destroy committer =>
    if evoDb.committers.getD committer true then some (evoDb, .done)
    else some ({ evoDb.rollbackCurTransaction with committers := evoDb.committers.set committer true }, .done)
  | .commitRootTransaction =>
    if evoDb.curDBTransaction.isClean then some (evoDb.commitRootTransaction codec, .done) else none

/-- The iterator of the database. -/
def dbIterOps (evoDb : CEvoDB V) : IterOps DbKey (List (DbKey × List UInt8)) := evoDb.db.iterOps []

/-- The iterator of the root transaction. -/
def rootIterOps (evoDb : CEvoDB V) := evoDb.rootDBTransaction.iterOps evoDb.dbIterOps

/-- The iterator of the current transaction. -/
def curIterOps (evoDb : CEvoDB V) := evoDb.curDBTransaction.iterOps evoDb.rootIterOps

/-- `GetValue` of the iterator of the current transaction. -/
def getValue [DecidableEq T] (evoDb : CEvoDB V) := evoDb.curDBTransaction.getValue evoDb.rootIterOps (evoDb.read codec)

end CEvoDB

/-! ### The map -/

/-- A map with a transaction. -/
structure NestedMap (V : Type) where
  /-- The map that clients see. -/
  visible : OrderedStore DbKey V
  /-- The map at the last commit. -/
  committed : OrderedStore DbKey V
  /-- Nothing was written or erased since the last commit or rollback. -/
  clean : Bool := true
  /-- The scoped committers that are done. -/
  committers : List Bool := []

namespace NestedMap

/-- Back to the last commit. -/
def rollback (map : NestedMap V) (committer : ℕ) : NestedMap V :=
  { visible := map.committed, committed := map.committed, clean := true,
    committers := map.committers.set committer true }

def step (map : NestedMap V) : EvoDbRequest T V → Option (NestedMap V × EvoDbAnswer V)
  | .write key value => some ({ map with visible := map.visible.write key value, clean := false }, .done)
  | .erase key => some ({ map with visible := map.visible.erase key, clean := false }, .done)
  | .read key _ => some (map, .value (.ok (map.visible.get key)))
  | .existsKey key => some (map, .exists_ (map.visible.get key).isSome)
  | .beginTransaction => some ({ map with committers := map.committers ++ [false] }, .done)
  | .commit committer =>
    if map.committers.getD committer true then none
    else some ({ map with
      committed := map.visible, clean := true, committers := map.committers.set committer true }, .done)
  | .rollback committer =>
    if map.committers.getD committer true then none else some (map.rollback committer, .done)
  | .destroy committer =>
    if map.committers.getD committer true then some (map, .done) else some (map.rollback committer, .done)
  | .commitRootTransaction => if map.clean then some (map, .done) else none

end NestedMap

/-! ### One type for each key -/

variable {codec : Codec T V} {ty : DbKey → T} {tx : CDBTransaction V} {k : DbKey} {batch : CDBBatch} {v : V}

/-- The request uses the type of its key. -/
def EvoDbRequest.Typed (codec : Codec T V) (ty : DbKey → T) : EvoDbRequest T V → Prop
  | .write key value => codec.typeOf value = ty key
  | .read key type => type = ty key
  | _ => True

/-- The values on disk have the types of their keys. -/
def DiskTyped (codec : Codec T V) (ty : DbKey → T) (db : OrderedStore DbKey (List UInt8)) : Prop :=
  ∀ k bytes, db.get k = some bytes → ∃ v, codec.unserialize (ty k) bytes = some v

/-- The values on disk. -/
def decode (codec : Codec T V) (ty : DbKey → T) (db : OrderedStore DbKey (List UInt8)) : OrderedStore DbKey V :=
  db.filterMap fun k bytes => codec.unserialize (ty k) bytes

lemma get_decode :
    (decode codec ty db).get k = (db.get k).bind (codec.unserialize (ty k)) := OrderedStore.get_filterMap _

lemma DiskTyped.isSome_decode (h : DiskTyped codec ty db) :
    ((decode codec ty db).get k).isSome = (db.get k).isSome := by
  rw [get_decode]
  cases hget : db.get k with
  | none => rfl
  | some bytes =>
    obtain ⟨v, hv⟩ := h k bytes hget
    simp [hv]

/-! ### Committing a transaction -/

lemma writeBatch_erase : writeBatch db (batch ++ [(k, none)]) = (writeBatch db batch).erase k := by
  simp [writeBatch]

lemma writeBatch_write {bytes : List UInt8} :
    writeBatch db (batch ++ [(k, some bytes)]) = (writeBatch db batch).write k bytes := by
  simp [writeBatch]

lemma DiskTyped.erase (h : DiskTyped codec ty db) : DiskTyped codec ty (db.erase k) := by
  intro k' bytes hget
  rw [OrderedStore.get_erase] at hget
  split_ifs at hget
  exact h k' bytes hget

lemma DiskTyped.write (h : DiskTyped codec ty db) (hlawful : codec.Lawful) (hv : codec.typeOf v = ty k) :
    DiskTyped codec ty (db.write k (codec.serialize v)) := by
  intro k' bytes hget
  rw [OrderedStore.get_write] at hget
  split_ifs at hget with hk
  · cases hget
    rw [hk, ← hv]
    exact ⟨v, hlawful.unserialize_serialize v⟩
  · exact h k' bytes hget

lemma get_decode_writeBatch (hlawful : codec.Lawful)
    (hdisk : DiskTyped codec ty db) (hwf : tx.Wf codec) (htyped : tx.Typed codec ty) :
    let batch := tx.commit (fun batch key => batch ++ [(key, none)])
      (fun batch key v => batch ++ [(key, some (codec.serialize v))]) []
    DiskTyped codec ty (writeBatch db batch) ∧
      (decode codec ty (writeBatch db batch)).get = tx.overlay (decode codec ty db).get := by
  refine get_commit hwf (fun batch => (decode codec ty (writeBatch db batch)).get)
    (fun batch => DiskTyped codec ty (writeBatch db batch)) ?_ ?_ hdisk
  · intro batch k hgood
    rw [writeBatch_erase]
    refine ⟨hgood.erase, fun k' => ?_⟩
    rw [get_decode, OrderedStore.get_erase, get_decode]
    split <;> rfl
  · intro batch k holder hget hgood
    have hv := htyped k holder hget
    rw [writeBatch_write]
    refine ⟨hgood.write hlawful hv, fun k' => ?_⟩
    rw [get_decode, OrderedStore.get_write, get_decode]
    split_ifs with hk
    · rw [hk, ← hv]
      exact hlawful.unserialize_serialize holder.value
    · rfl

lemma overlay_commit {root cur : CDBTransaction V} {f : DbKey → Option V} (hroot : root.Wf codec)
    (hrootTyped : root.Typed codec ty) (hcur : cur.Wf codec) (hcurTyped : cur.Typed codec ty) :
    let root' := cur.commit erase (fun root => root.write codec) root
    (root'.Wf codec ∧ root'.Typed codec ty) ∧ root'.overlay f = cur.overlay (root.overlay f) := by
  refine get_commit hcur (fun root : CDBTransaction V => root.overlay f)
    (fun root => root.Wf codec ∧ root.Typed codec ty) ?_ ?_ ⟨hroot, hrootTyped⟩
  · rintro root k ⟨hwf, htyped⟩
    exact ⟨⟨hwf.erase k, htyped.erase⟩, fun k' => overlay_erase⟩
  · rintro root k holder hget ⟨hwf, htyped⟩
    exact ⟨⟨hwf.write k _, htyped.write (hcurTyped k holder hget)⟩, fun k' => overlay_write⟩

/-! ### The database shows the map -/

/-- The states of the database that stand for a state of the map. -/
structure ShowsMap (codec : Codec T V) (ty : DbKey → T) (evoDb : CEvoDB V) (map : NestedMap V) : Prop where
  disk : DiskTyped codec ty evoDb.db
  rootBatch : evoDb.rootBatch = []
  root : evoDb.rootDBTransaction.Wf codec
  rootTyped : evoDb.rootDBTransaction.Typed codec ty
  cur : evoDb.curDBTransaction.Wf codec
  curTyped : evoDb.curDBTransaction.Typed codec ty
  committed : map.committed.get = evoDb.rootDBTransaction.overlay (decode codec ty evoDb.db).get
  visible : map.visible.get = evoDb.curDBTransaction.overlay map.committed.get
  clean : map.clean = evoDb.curDBTransaction.isClean
  committers : evoDb.committers = map.committers

variable {evoDb : CEvoDB V} {map : NestedMap V}

namespace ShowsMap

section

variable (h : ShowsMap codec ty evoDb map)

include h

lemma read_eq [DecidableEq T] : evoDb.read codec k (ty k) = .ok (map.visible.get k) := by
  rw [h.visible]
  apply CDBTransaction.read_eq _ (h.curTyped k)
  rw [h.committed]
  apply CDBTransaction.read_eq _ (h.rootTyped k)
  rw [get_decode]
  rfl

lemma existsKey_eq : evoDb.existsKey k = (map.visible.get k).isSome := by
  rw [h.visible]
  apply CDBTransaction.existsKey_eq
  rw [h.committed]
  apply CDBTransaction.existsKey_eq
  exact h.disk.isSome_decode.symm

lemma write (hv : codec.typeOf v = ty k) :
    ShowsMap codec ty { evoDb with curDBTransaction := evoDb.curDBTransaction.write codec k v }
      { map with visible := map.visible.write k v, clean := false } :=
  { h with
    cur := h.cur.write k v
    curTyped := h.curTyped.write hv
    visible := by
      funext k'
      rw [OrderedStore.get_write, overlay_write, h.visible]
      split_ifs <;> rfl
    clean := isClean_write.symm }

lemma erase : ShowsMap codec ty { evoDb with curDBTransaction := evoDb.curDBTransaction.erase k }
      { map with visible := map.visible.erase k, clean := false } :=
  { h with
    cur := h.cur.erase k
    curTyped := h.curTyped.erase
    visible := by
      funext k'
      rw [OrderedStore.get_erase, overlay_erase, h.visible]
      split_ifs <;> rfl
    clean := isClean_erase.symm }

lemma commit (committer : ℕ) :
    ShowsMap codec ty { evoDb.commitCurTransaction codec with committers := evoDb.committers.set committer true }
      { map with committed := map.visible, clean := true, committers := map.committers.set committer true } := by
  obtain ⟨⟨hwf, htyped⟩, hoverlay⟩ := overlay_commit (f := (decode codec ty evoDb.db).get) h.root h.rootTyped h.cur
    h.curTyped
  exact
    { h with
      root := hwf
      rootTyped := htyped
      cur := wf_empty
      curTyped := typed_empty
      committed := by
        rw [h.visible, h.committed]
        exact hoverlay.symm
      visible := overlay_empty.symm
      clean := rfl
      committers := by
        rw [h.committers] }

lemma rollback (committer : ℕ) :
    ShowsMap codec ty { evoDb.rollbackCurTransaction with committers := evoDb.committers.set committer true }
      (map.rollback committer) :=
  { h with
    cur := wf_empty
    curTyped := typed_empty
    visible := overlay_empty.symm
    clean := rfl
    committers := by
      rw [h.committers]
      rfl }

lemma commitRootTransaction (hlawful : codec.Lawful) : ShowsMap codec ty (evoDb.commitRootTransaction codec) map := by
  obtain ⟨hdisk, hdecode⟩ := get_decode_writeBatch hlawful h.disk h.root h.rootTyped
  refine
    { h with
      disk := ?_
      rootBatch := rfl
      root := wf_empty
      rootTyped := typed_empty
      committed := ?_ }
  · unfold CEvoDB.commitRootTransaction
    rw [h.rootBatch]
    exact hdisk
  · unfold CEvoDB.commitRootTransaction
    rw [h.rootBatch, h.committed, overlay_empty]
    exact hdecode.symm

lemma beginTransaction : ShowsMap codec ty { evoDb with committers := evoDb.committers ++ [false] }
      { map with committers := map.committers ++ [false] } :=
  { h with
    committers := by
      rw [h.committers] }

end

/-- A request of a typed client gets the same answer. -/
lemma step [DecidableEq T] (hlawful : codec.Lawful) (evoDb : CEvoDB V) (map : NestedMap V) (request : EvoDbRequest T V)
    (h : ShowsMap codec ty evoDb map) (htyped : request.Typed codec ty) :
    SameAnswer (ShowsMap codec ty) (evoDb.step codec request) (map.step request) := by
  cases request with
  | write key value => exact .some ⟨rfl, h.write htyped⟩
  | erase key => exact .some ⟨rfl, h.erase⟩
  | read key type =>
    obtain rfl : type = ty key := htyped
    exact .some ⟨congrArg _ h.read_eq, h⟩
  | existsKey key => exact .some ⟨congrArg _ h.existsKey_eq, h⟩
  | beginTransaction => exact .some ⟨rfl, h.beginTransaction⟩
  | commit committer =>
    simp only [CEvoDB.step, NestedMap.step, ← h.committers]
    split
    · exact .none
    · exact .some ⟨rfl, h.committers ▸ h.commit committer⟩
  | rollback committer =>
    simp only [CEvoDB.step, NestedMap.step, ← h.committers]
    split
    · exact .none
    · exact .some ⟨rfl, h.rollback committer⟩
  | destroy committer =>
    simp only [CEvoDB.step, NestedMap.step, ← h.committers]
    split
    · exact .some ⟨rfl, h⟩
    · exact .some ⟨rfl, h.rollback committer⟩
  | commitRootTransaction =>
    simp only [CEvoDB.step, NestedMap.step, h.clean]
    split
    · exact .some ⟨rfl, h.commitRootTransaction hlawful⟩
    · exact .none

variable (h : ShowsMap codec ty evoDb map)

include h

/-- The iterator of the current transaction visits the map that clients see. -/
lemma iterates : evoDb.curIterOps.Iterates map.visible := by
  refine CDBTransaction.iterates map.committed ?_ (fun k => rfl) h.cur.disjoint (congrFun h.visible)
  exact CDBTransaction.iterates evoDb.db (evoDb.db.iterates []) (fun k => h.disk.isSome_decode) h.root.disjoint
    (congrFun h.committed)

lemma visits [DecidableEq T] (it : CDBTransactionIterator V _) (k : DbKey) :
    ∃ it', evoDb.curIterOps.seek it k = some it' ∧
      evoDb.curIterOps.Visits (fun it k => evoDb.getValue codec it (ty k) = .ok (map.visible.get k)) it'
        (map.visible.keysFrom k) := by
  obtain ⟨it', hseek, hvisits⟩ := h.iterates it k
  refine ⟨it', hseek, hvisits.imp fun it k hvalid hkey _ => ?_⟩
  have hread : evoDb.getValue codec it (ty k) = evoDb.read codec (evoDb.curIterOps.getKey it) (ty k) :=
    if_neg (by simpa [CEvoDB.curIterOps] using hvalid)
  rw [hread, hkey, h.read_eq]

end ShowsMap

lemma showsMap_open {disk : OrderedStore DbKey (List UInt8)} (h : DiskTyped codec ty disk) :
    ShowsMap codec ty { db := disk } { visible := decode codec ty disk, committed := decode codec ty disk } where
  disk := h
  rootBatch := rfl
  root := wf_empty
  rootTyped := typed_empty
  cur := wf_empty
  curTyped := typed_empty
  committed := overlay_empty.symm
  visible := overlay_empty.symm
  clean := rfl
  committers := rfl

/-! ### Every run -/

/-- Whatever typed content the disk has, in every run of typed requests the database answers as the map does and fails
the same assertions. At the end of the run the iterator of the current transaction, sent to a key, visits the keys of
the map from there on in order, with their values, and both transactions have counted the memory of their pending keys
and values. -/
theorem evoDb_nested_map [DecidableEq T] (codec : Codec T V) (hlawful : codec.Lawful) (ty : DbKey → T)
    (disk : OrderedStore DbKey (List UInt8)) (hdisk : DiskTyped codec ty disk) (requests : List (EvoDbRequest T V))
    (hrequests : ∀ request ∈ requests, request.Typed codec ty) :
    let map : NestedMap V := { visible := decode codec ty disk, committed := decode codec ty disk }
    let run := runRequests (CEvoDB.step codec) { db := disk } requests
    let mapRun := runRequests NestedMap.step map requests
    run.1 = mapRun.1 ∧
      Option.Rel (fun evoDb map =>
        (∀ it k, ∃ it', evoDb.curIterOps.seek it k = some it' ∧
          evoDb.curIterOps.Visits (fun it k => evoDb.getValue codec it (ty k) = .ok (map.visible.get k)) it'
            (map.visible.keysFrom k)) ∧
        evoDb.curDBTransaction.memoryUsage = evoDb.curDBTransaction.pendingSize codec ∧
        evoDb.rootDBTransaction.memoryUsage = evoDb.rootDBTransaction.pendingSize codec) run.2 mapRun.2 := by
  intro map run mapRun
  obtain ⟨hanswers, hend⟩ := runRequests_sim (ShowsMap.step hlawful) (showsMap_open hdisk) hrequests
  refine ⟨hanswers, ?_⟩
  have hend' : Option.Rel (ShowsMap codec ty) run.2 mapRun.2 := hend
  generalize run.2 = evoDb, mapRun.2 = map at hend'
  rcases hend' with hshows | _
  · exact .some ⟨hshows.visits, hshows.cur.memoryUsage, hshows.root.memoryUsage⟩
  · exact .none

/-- Values of two types, stored as they are. -/
def taggedCodec : Codec Bool (Bool × List UInt8) where
  typeOf v := v.1
  serialize v := v.2
  unserialize type bytes := some (type, bytes)
  getSerializeSize v := v.2.length

/-- A disk with two keys. -/
def twoKeys : OrderedStore DbKey (List UInt8) where
  entries := [([1], [10]), ([2], [20])]
  sorted := by decide

/-- A transaction that is committed and written to disk, and changes after it. -/
def committedRequests : List (EvoDbRequest Bool (Bool × List UInt8)) :=
  [.write [3] (true, [30]), .beginTransaction, .erase [1], .existsKey [1], .commit 0, .commitRootTransaction,
    .write [2] (false, [21]), .read [2] false]

theorem evoDb_nested_map_committedRequests :
    let ty : DbKey → Bool := fun k => k == [3]
    let map : NestedMap (Bool × List UInt8) :=
      { visible := decode taggedCodec ty twoKeys, committed := decode taggedCodec ty twoKeys }
    (runRequests (CEvoDB.step taggedCodec) { db := twoKeys } committedRequests).2.isSome = true ∧
      (runRequests (CEvoDB.step taggedCodec) { db := twoKeys } committedRequests).1 =
        (runRequests NestedMap.step map committedRequests).1 := by
  intro ty map
  refine ⟨by decide, (evoDb_nested_map taggedCodec ⟨fun v => rfl, ?_⟩ ty twoKeys ?_ committedRequests ?_).1⟩
  · rintro type bytes v hv
    cases hv
    rfl
  · exact fun k bytes _ => ⟨_, rfl⟩
  · intro request hrequest
    simp only [committedRequests, List.mem_cons, List.not_mem_nil, or_false] at hrequest
    rcases hrequest with rfl | rfl | rfl | rfl | rfl | rfl | rfl | rfl <;> trivial

end Blocx.EvoDb
