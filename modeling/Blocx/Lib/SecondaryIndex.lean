import Mathlib.Data.List.Basic

/-!
# Secondary indexes

A table holds records under their ids. A record has keys, and a secondary index maps a key to the id of the record that
has it (`Indexes`). A cache in front of the index may be out of date where no record has the key; where one has it, the
cached id must be right (`Serves`).
-/

namespace Blocx

open Function Option

variable {Id R K : Type}

/-- The index maps the keys of the records to their ids, and nothing else. -/
def Indexes (keys : R → List K) (records : Id → Option R) (index : K → Option Id) : Prop :=
  ∀ k id, index k = some id ↔ ∃ r, records id = some r ∧ k ∈ keys r

/-- What the cache says about a key of a record is right. -/
def Serves (keys : R → List K) (records : Id → Option R) (cache : K → Option Id) : Prop :=
  ∀ k id, cache k = some id → ∀ id' r, records id' = some r → k ∈ keys r → id' = id

variable {keys : R → List K} {records records' : Id → Option R} {index index' cache cache' : K → Option Id}
  {id id' : Id} {r r' : R} {k : K}

namespace Indexes

variable (h : Indexes keys records index)

include h

lemma unique (hr : records id = some r) (hr' : records id' = some r')
    (hk : k ∈ keys r) (hk' : k ∈ keys r') : id = id' :=
  some.inj (((h k id).mpr ⟨r, hr, hk⟩).symm.trans ((h k id').mpr ⟨r', hr', hk'⟩))

variable [DecidableEq Id] [DecidableEq K]

/-- A record is erased with its keys. It need not be there, provided that no other record has one of its keys. -/
lemma erase (hsame : ∀ r', records id = some r' → r' = r)
    (hshares : ∀ id' r', records id' = some r' → ∀ k ∈ keys r', k ∈ keys r → id' = id)
    (hindex : ∀ k, index' k = if k ∈ keys r then none else index k) : Indexes keys (update records id none) index' := by
  intro k id'
  rw [hindex]
  split_ifs with hk
  · constructor
    · intro heq
      cases heq
    · rintro ⟨r', hr', hk'⟩
      by_cases hid : id' = id
      · rw [hid, update_self] at hr'
        cases hr'
      · rw [update_of_ne hid] at hr'
        exact absurd (hshares id' r' hr' k hk' hk) hid
  · rw [h k id']
    by_cases hid : id' = id
    · rw [hid, update_self]
      refine ⟨fun ⟨r', hr', hk'⟩ => ?_, fun ⟨_, hr', _⟩ => (nomatch hr')⟩
      exact absurd (hsame r' hr' ▸ hk') hk
    · rw [update_of_ne hid]

/-- A record is entered with its keys, which no other record has. -/
lemma write (hid : records id = none) (hnew : ∀ id' r', records id' = some r' → ∀ k ∈ keys r', k ∉ keys r)
    (hindex : ∀ k, index' k = if k ∈ keys r then some id else index k) :
    Indexes keys (update records id (some r)) index' := by
  intro k id'
  rw [hindex]
  by_cases hid' : id' = id
  · subst hid'
    rw [update_self]
    split_ifs with hk
    · exact ⟨fun _ => ⟨r, rfl, hk⟩, fun _ => rfl⟩
    · rw [h k id', hid]
      exact ⟨fun ⟨_, hr', _⟩ => (nomatch hr'), fun ⟨r', hr', hk'⟩ => absurd (some.inj hr' ▸ hk') hk⟩
  · rw [update_of_ne hid']
    split_ifs with hk
    · refine ⟨fun heq => absurd (some.inj heq).symm hid', fun ⟨r', hr', hk'⟩ => ?_⟩
      exact absurd hk (hnew id' r' hr' k hk')
    · exact h k id'

end Indexes

namespace Serves

variable (h : Serves keys records cache)

include h

lemma mono (hrecords : ∀ id r, records' id = some r → records id = some r) : Serves keys records' cache :=
  fun k id hcache id' r hr => h k id hcache id' r (hrecords id' r hr)

lemma insert (hindex : Indexes keys records index)
    (hcache : ∀ k id, cache' k = some id → cache k = some id ∨ index k = some id) : Serves keys records cache' := by
  intro k id hk id' r hr hkr
  obtain hold | hnew := hcache k id hk
  · exact h k id hold id' r hr hkr
  · exact some.inj (((hindex k id').mpr ⟨r, hr, hkr⟩).symm.trans hnew)

/-- A record is entered, and no entry of its keys stays. -/
lemma write [DecidableEq Id] (hnew : ∀ id' r', records id' = some r' → ∀ k ∈ keys r', k ∉ keys r)
    (hcache : ∀ k id', cache' k = some id' → k ∈ keys r ∧ id' = id ∨ k ∉ keys r ∧ cache k = some id') :
    Serves keys (update records id (some r)) cache' := by
  intro k id₁ hk id₂ r₂ hr₂ hkr
  by_cases hid : id₂ = id
  · rw [hid, update_self] at hr₂
    obtain ⟨-, rfl⟩ | ⟨hnot, -⟩ := hcache k id₁ hk
    · exact hid
    · exact absurd (some.inj hr₂ ▸ hkr) hnot
  · rw [update_of_ne hid] at hr₂
    obtain ⟨hmem, -⟩ | ⟨-, hold⟩ := hcache k id₁ hk
    · exact absurd hmem (hnew id₂ r₂ hr₂ k hkr)
    · exact h k id₁ hold id₂ r₂ hr₂ hkr

end Serves

end Blocx
