import Blocx.Evo.DmnListRuns
import Blocx.Lib.Runs

/-!
# Lazily decoded keys and signatures

`CBLSLazyWrapper` holds the bytes of a key, the decoded key, or both, and reading methods fill in what is missing. An
object stands for the key that was set last, or for the one that the bytes read last decode to (`Stands`), and every
method but one keeps it: `Serialize` in the other scheme takes the decoded key from `obj` also when the bytes have not
been decoded yet. Then `obj` is reset or holds an older key, and its encoding replaces the bytes that were read.
-/

namespace Blocx

open Function

/-- The class that is wrapped, with its two encodings. Zero bytes are kept for an object without a key. -/
structure BLSObject (K : Type) (n : ℕ) where
  serialize : Bool → K → BitVec n
  /-- `ImplType::FromBytes`, which may throw. -/
  fromBytes : Bool → BitVec n → Option K
  fromBytes_serialize : ∀ legacy k, fromBytes legacy (serialize legacy k) = some k
  serialize_ne_zero : ∀ legacy k, serialize legacy k ≠ 0

/-- The public keys of a scheme. -/
def Bls.publicKeys {G : Type} (bls : Bls G) : BLSObject G 384 :=
  ⟨bls.serialize, bls.fromBytes, bls.fromBytes_serialize, bls.serialize_ne_zero⟩

section Object

variable {K : Type} {n : ℕ} (cls : BLSObject K n) {vecBytes : BitVec n}

namespace BLSObject

def toByteVector (legacy : Bool) : Option K → BitVec n
  | none => 0
  | some k => cls.serialize legacy k

/-- What `SetByteVector` leaves in the object. -/
def setByteVector (vecBytes : BitVec n) (legacy : Bool) : Option K :=
  if vecBytes = 0 then none else cls.fromBytes legacy vecBytes

def checkMalleable (obj : Option K) (vecBytes : BitVec n) (legacy : Bool) : Bool :=
  vecBytes = cls.toByteVector legacy obj

/-- The key that bytes stand for: they decode to it, and it is encoded as them. -/
def decode (legacy : Bool) (vecBytes : BitVec n) : Option K :=
  (cls.setByteVector vecBytes legacy).filter fun k => cls.checkMalleable (some k) vecBytes legacy

variable {cls} {legacy : Bool} {k : K}

lemma decode_toByteVector (obj : Option K) : cls.decode legacy (cls.toByteVector legacy obj) = obj := by
  cases obj with
  | none => simp [decode, setByteVector, toByteVector]
  | some k =>
    rw [toByteVector, decode, setByteVector, if_neg (cls.serialize_ne_zero legacy k), cls.fromBytes_serialize]
    simp [checkMalleable, toByteVector]

lemma serialize_of_decode (h : cls.decode legacy vecBytes = some k) : vecBytes = cls.serialize legacy k := by
  obtain ⟨-, hmalleable⟩ := Option.filter_eq_some_iff.mp h
  exact of_decide_eq_true hmalleable

end BLSObject

/-- `CBLSLazyWrapper`. The object is a key, or none if it is not valid. -/
structure CBLSLazyWrapper (K : Type) (n : ℕ) where
  vecBytes : BitVec n := 0
  /-- The bytes are those of the key. -/
  bufValid : Bool := false
  bufLegacyScheme : Bool := true
  obj : Option K := none
  /-- The object is the decoded key. -/
  objInitialized : Bool := false
  /-- The hash of the bytes, or null. -/
  hash : Uint256 := 0

namespace CBLSLazyWrapper

variable (a r : CBLSLazyWrapper K n)

/-- `operator=`, and what the copy constructor does. -/
def assign : CBLSLazyWrapper K n where
  bufValid := r.bufValid
  bufLegacyScheme := r.bufLegacyScheme
  vecBytes := if r.bufValid then r.vecBytes else 0
  objInitialized := r.objInitialized
  obj := if r.objInitialized then r.obj else none
  hash := r.hash

/-- `Serialize`: the bytes that are written. -/
def serialize (specificLegacyScheme : Bool) : BitVec n × CBLSLazyWrapper K n :=
  let a :=
    if !a.objInitialized && !a.bufValid then { a with vecBytes := 0 }
    else if !a.bufValid || a.bufLegacyScheme != specificLegacyScheme then
      { a with
        vecBytes := cls.toByteVector specificLegacyScheme a.obj
        bufValid := true
        bufLegacyScheme := specificLegacyScheme
        hash := 0 }
    else a
  (a.vecBytes, a)

def unserialize (vecBytes : BitVec n) (specificLegacyScheme : Bool) : CBLSLazyWrapper K n :=
  { a with
    vecBytes, bufValid := true, bufLegacyScheme := specificLegacyScheme, objInitialized := false, hash := 0 }

def set (obj : Option K) (specificLegacyScheme : Bool) : CBLSLazyWrapper K n :=
  { a with bufValid := false, bufLegacyScheme := specificLegacyScheme, objInitialized := true, obj, hash := 0 }

def get : Option K × CBLSLazyWrapper K n :=
  if !a.bufValid && !a.objInitialized then (none, a)
  else if !a.objInitialized then
    let obj := cls.setByteVector a.vecBytes a.bufLegacyScheme
    if obj.isNone then (none, { a with obj, bufValid := false })
    else if !cls.checkMalleable obj a.vecBytes a.bufLegacyScheme then (none, { a with obj, bufValid := false })
    else (obj, { a with obj, objInitialized := true })
  else (a.obj, a)

def getHash (sha256 : BitVec n → Uint256) : Uint256 × CBLSLazyWrapper K n :=
  let a :=
    if !a.objInitialized && !a.bufValid then { a with vecBytes := 0, hash := 0 }
    else if !a.bufValid then
      { a with vecBytes := cls.toByteVector a.bufLegacyScheme a.obj, bufValid := true, hash := 0 }
    else a
  let hash := if a.hash = 0 then sha256 a.vecBytes else a.hash
  (hash, { a with hash })

/-! ### What an object stands for -/

/-- The object stands for the key, or for none. -/
structure Stands (a : CBLSLazyWrapper K n) (key : Option K) : Prop where
  obj : a.objInitialized = true → a.obj = key
  buf : a.bufValid = true → cls.decode a.bufLegacyScheme a.vecBytes = key
  unset : a.objInitialized = false → a.bufValid = false → key = none

/-- `Serialize` in this scheme finds the key: the bytes are in this scheme or have been decoded. -/
def Decoded (specificLegacyScheme : Bool) : Prop :=
  a.bufValid = true → a.objInitialized = false → a.bufLegacyScheme = specificLegacyScheme

namespace Stands

variable {cls a r} {key key' : Option K} {scheme : Bool}

lemma assign (h : Stands cls r key) : Stands cls r.assign key where
  obj hobj := (if_pos hobj).trans (h.obj hobj)
  buf hbuf := by simpa [CBLSLazyWrapper.assign, show r.bufValid = true from hbuf] using h.buf hbuf
  unset := h.unset

lemma nothing {obj : Option K} {hash : Uint256} : Stands cls ⟨vecBytes, false, scheme, obj, false, hash⟩ none :=
  ⟨nofun, nofun, fun _ _ => rfl⟩

variable (h : Stands cls a key)

include h

lemma encode (hobj : a.objInitialized = true) (scheme : Bool) (hash : Uint256) : Stands cls { a with
      vecBytes := cls.toByteVector scheme a.obj, bufValid := true, bufLegacyScheme := scheme, hash := hash } key where
  obj := h.obj
  buf _ := by
    rw [BLSObject.decode_toByteVector]
    exact h.obj hobj
  unset := nofun

lemma rehash (hash : Uint256) : Stands cls { a with hash := hash } key := ⟨h.obj, h.buf, h.unset⟩

lemma serialize (hdecoded : a.Decoded scheme) :
    (∀ k, key = some k → (a.serialize cls scheme).1 = cls.serialize scheme k) ∧
      Stands cls (a.serialize cls scheme).2 key := by
  unfold CBLSLazyWrapper.serialize
  cases hobj : a.objInitialized with
  | true =>
    by_cases hsame : a.bufValid = true ∧ a.bufLegacyScheme = scheme
    · refine ⟨fun k hk => ?_, ?_⟩
      · subst hk
        simpa [hsame.1, hsame.2] using BLSObject.serialize_of_decode (h.buf hsame.1)
      · simpa [hsame.1, hsame.2] using h
    · have hother : (!a.bufValid || a.bufLegacyScheme != scheme) = true := by
        cases hbuf : a.bufValid <;> simp_all
      refine ⟨fun k hk => ?_, ?_⟩
      · simp [hother, h.obj hobj, hk, BLSObject.toByteVector]
      · simpa [hother, hobj] using h.encode hobj scheme 0
  | false =>
    cases hbuf : a.bufValid with
    | true =>
      obtain rfl := hdecoded hbuf hobj
      exact ⟨fun k hk => by simpa using BLSObject.serialize_of_decode ((h.buf hbuf).trans hk), by simpa using h⟩
    | false =>
      obtain rfl := h.unset hobj hbuf
      exact ⟨nofun, by simpa using nothing⟩

lemma get : (a.get cls).1 = key ∧ Stands cls (a.get cls).2 key := by
  unfold CBLSLazyWrapper.get
  cases hobj : a.objInitialized with
  | true => simpa using ⟨h.obj hobj, h⟩
  | false =>
    cases hbuf : a.bufValid with
    | false => simpa using ⟨(h.unset hobj hbuf).symm, h⟩
    | true =>
      have hkey := h.buf hbuf
      cases hset : cls.setByteVector a.vecBytes a.bufLegacyScheme with
      | none =>
        obtain rfl : none = key := by simpa [BLSObject.decode, hset] using hkey
        exact ⟨by simp, by simpa using nothing⟩
      | some k =>
        cases hmalleable : cls.checkMalleable (some k) a.vecBytes a.bufLegacyScheme with
        | true =>
          obtain rfl : some k = key := by simpa [BLSObject.decode, hset, Option.filter, hmalleable] using hkey
          refine ⟨by simp [hmalleable], ?_⟩
          simpa [hmalleable] using ⟨fun _ => rfl, fun _ => hkey, nofun⟩
        | false =>
          obtain rfl : none = key := by simpa [BLSObject.decode, hset, Option.filter, hmalleable] using hkey
          exact ⟨by simp [hmalleable], by simpa [hmalleable] using nothing⟩

lemma getHash (sha256 : BitVec n → Uint256) : Stands cls (a.getHash cls sha256).2 key := by
  unfold CBLSLazyWrapper.getHash
  cases hobj : a.objInitialized with
  | true =>
    cases hbuf : a.bufValid with
    | true => simpa using h.rehash _
    | false => simpa [hobj] using (h.encode hobj a.bufLegacyScheme 0).rehash _
  | false =>
    cases hbuf : a.bufValid with
    | true => simpa using h.rehash _
    | false =>
      obtain rfl := h.unset hobj hbuf
      simpa using nothing

end Stands

end CBLSLazyWrapper

/-! ### Runs -/

/-- Some objects, and the keys that they are to stand for. -/
structure LazyObjects (ι K : Type) (n : ℕ) where
  objs : ι → CBLSLazyWrapper K n
  /-- The keys that were set or read last. -/
  keys : ι → Option K := fun _ => none

/-- A call. Copy construction is `assign` to a new object. -/
inductive LazyCall (ι K : Type) (n : ℕ) where
  | unserialize (i : ι) (vecBytes : BitVec n) (scheme : Bool)
  | set (i : ι) (obj : Option K) (scheme : Bool)
  | get (i : ι)
  | serialize (i : ι) (scheme : Bool)
  | getHash (i : ι)
  /-- `operator=`. -/
  | assign (i r : ι)
  /-- `operator==`. -/
  | eq (i r : ι)

namespace LazyObjects

variable {ι : Type} [DecidableEq ι] [DecidableEq K] (sha256 : BitVec n → Uint256) (s : LazyObjects ι K n)

/-- New objects, each made while one of the schemes was in use. -/
def start (legacy : ι → Bool) : LazyObjects ι K n := { objs := fun i => { bufLegacyScheme := legacy i } }

/-- `operator==`. -/
def eq (i r : ι) : Bool × (ι → CBLSLazyWrapper K n) :=
  let a := s.objs i
  let b := s.objs r
  if a.bufValid && b.bufValid && a.bufLegacyScheme == b.bufLegacyScheme then (a.vecBytes == b.vecBytes, s.objs)
  else if a.objInitialized && b.objInitialized then (a.obj == b.obj, s.objs)
  else
    let objs := update s.objs i (a.get cls).2
    ((a.get cls).1 == ((objs r).get cls).1, update objs r ((objs r).get cls).2)

/-- What a call does, and which key its object stands for then. -/
def call : LazyCall ι K n → LazyObjects ι K n
  | .unserialize i vecBytes scheme =>
    ⟨update s.objs i ((s.objs i).unserialize vecBytes scheme), update s.keys i (cls.decode scheme vecBytes)⟩
  | .set i obj scheme => ⟨update s.objs i ((s.objs i).set obj scheme), update s.keys i obj⟩
  | .get i => { s with objs := update s.objs i ((s.objs i).get cls).2 }
  | .serialize i scheme => { s with objs := update s.objs i ((s.objs i).serialize cls scheme).2 }
  | .getHash i => { s with objs := update s.objs i ((s.objs i).getHash cls sha256).2 }
  | .assign i r => ⟨update s.objs i (s.objs r).assign, update s.keys i (s.keys r)⟩
  | .eq i r => { s with objs := (s.eq cls i r).2 }

/-- No object is written in the other scheme before the bytes that it has read were decoded. -/
def DecodedFirst : LazyCall ι K n → Prop
  | .serialize i scheme => (s.objs i).Decoded scheme
  | _ => True

/-- Every object stands for its key. -/
def AllStand : Prop := ∀ i, (s.objs i).Stands cls (s.keys i)

variable {cls sha256 s} {i : ι}

section

variable (h : AllStand cls s)

include h

omit [DecidableEq K] in
lemma AllStand.update {a : CBLSLazyWrapper K n} {key : Option K} (ha : a.Stands cls key) :
    AllStand cls ⟨Function.update s.objs i a, Function.update s.keys i key⟩ := by
  intro j
  by_cases hj : j = i
  · subst hj
    simpa using ha
  · simpa [hj] using h j

omit [DecidableEq K] in
lemma AllStand.keep {a : CBLSLazyWrapper K n} (ha : a.Stands cls (s.keys i)) :
    AllStand cls { s with objs := Function.update s.objs i a } := by
  simpa using h.update (i := i) ha

lemma AllStand.eq (i r : ι) : AllStand cls { s with objs := (s.eq cls i r).2 } := by
  unfold LazyObjects.eq
  dsimp only
  split_ifs
  · exact h
  · exact h
  · have hi := h.keep (h i).get.2
    exact hi.keep (hi r).get.2

/-- Objects are equal if and only if their keys are. -/
lemma AllStand.fst_eq {r : ι} {k k' : K} (hi : s.keys i = some k) (hr : s.keys r = some k') :
    (s.eq cls i r).1 = true ↔ k = k' := by
  unfold LazyObjects.eq
  dsimp only
  split_ifs with hbuf hobj
  · simp only [Bool.and_eq_true, beq_iff_eq] at hbuf
    have hbytes := BLSObject.serialize_of_decode (((h i).buf hbuf.1.1).trans hi)
    have hbytes' := BLSObject.serialize_of_decode (((h r).buf hbuf.1.2).trans hr)
    rw [beq_iff_eq, hbytes, hbytes', hbuf.2]
    refine ⟨fun heq => ?_, fun heq => heq ▸ rfl⟩
    have hk := cls.fromBytes_serialize (s.objs r).bufLegacyScheme k
    rw [heq, cls.fromBytes_serialize] at hk
    exact (Option.some.inj hk).symm
  · rw [Bool.and_eq_true] at hobj
    simp [(h i).obj hobj.1, (h r).obj hobj.2, hi, hr]
  · have hkeep := h.keep (h i).get.2
    simp [(h i).get.1, (hkeep r).get.1, hi, hr]

lemma AllStand.call {c : LazyCall ι K n} (hc : s.DecodedFirst c) : AllStand cls (s.call cls sha256 c) := by
  cases c with
  | unserialize i vecBytes scheme => exact h.update ⟨nofun, fun _ => rfl, nofun⟩
  | set i obj scheme => exact h.update ⟨fun _ => rfl, nofun, nofun⟩
  | get i => exact h.keep (h i).get.2
  | serialize i scheme => exact h.keep ((h i).serialize hc).2
  | getHash i => exact h.keep ((h i).getHash sha256)
  | assign i r => exact h.update (h r).assign
  | eq i r => exact h.eq i r

end

/-- In every run in which no object is written in the other scheme before its bytes were decoded, every object keeps its
key: it is what `Get` returns and `Serialize` writes, in any scheme, and objects with equal keys are equal. -/
theorem lazyWrapper_keepsKeys (cls : BLSObject K n) (sha256 : BitVec n → Uint256) (legacy : ι → Bool)
    (calls : List (LazyCall ι K n)) (hcalls : Along (call cls sha256) DecodedFirst (start legacy) calls) :
    let s := calls.foldl (call cls sha256) (start legacy)
    (∀ i, ((s.objs i).get cls).1 = s.keys i) ∧
      (∀ i scheme k, s.DecodedFirst (.serialize i scheme) → s.keys i = some k →
        ((s.objs i).serialize cls scheme).1 = cls.serialize scheme k) ∧
      ∀ i r k k', s.keys i = some k → s.keys r = some k' → ((s.eq cls i r).1 = true ↔ k = k') := by
  intro s
  have hs : AllStand cls s := hcalls.inv (fun _ _ h hc => h.call hc) fun i => .nothing
  exact ⟨fun i => (hs i).get.1, fun i scheme k hfirst hk => ((hs i).serialize hfirst).1 k hk,
    fun i r k k' hi hr => hs.fst_eq hi hr⟩

end LazyObjects

end Object

/-- A key is set, and written in both schemes. -/
theorem lazyWrapper_keepsKeys_both :
    let s₀ := LazyObjects.start fun _ => true
    let calls := [.set () (some 1) true, .serialize () true, .serialize () false]
    let s := calls.foldl (LazyObjects.call toyBls.publicKeys fun b => b.setWidth 256) s₀
    Along (LazyObjects.call toyBls.publicKeys fun b => b.setWidth 256) LazyObjects.DecodedFirst s₀ calls ∧
      s.keys () = some 1 ∧ ((s.objs ()).get toyBls.publicKeys).1 = s.keys () := by
  intro s₀ calls s
  have hcalls : Along (LazyObjects.call toyBls.publicKeys fun b => b.setWidth 256) LazyObjects.DecodedFirst s₀ calls :=
    ⟨trivial, nofun, nofun, trivial⟩
  refine ⟨hcalls, by decide +kernel, ?_⟩
  exact (LazyObjects.lazyWrapper_keepsKeys toyBls.publicKeys (fun b => b.setWidth 256)
    (fun _ => true) calls hcalls).1 ()

/-- The same key is written before it was decoded: the bytes are zero, and the key is lost. If the object held another
key before, that one is written. -/
theorem serialize_undecoded :
    let cls := toyBls.publicKeys
    let a : CBLSLazyWrapper (Fin 4) 384 := ({} : CBLSLazyWrapper (Fin 4) 384).unserialize (cls.serialize true 1) true
    let a' := (({} : CBLSLazyWrapper (Fin 4) 384).set (some 2) true).unserialize (cls.serialize true 1) true
    (a.get cls).1 = some 1 ∧ (a.serialize cls false).1 = 0 ∧ ((a.serialize cls false).2.get cls).1 = none ∧
      (a'.serialize cls false).1 = cls.serialize false 2 := by
  decide +kernel

end Blocx
