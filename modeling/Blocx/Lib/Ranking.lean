import Mathlib.Data.List.Sort

/-!
# Sorting by a comparison

Comparisons that order their values strictly and completely, as the `operator<` of a type should. Such comparisons
combine by comparing second parts where first parts agree (`StrictTotal.lex`). A list that is sorted by a comparison of
keys has keys that do not depend on the order it came in (`ranked_map_eq`), whatever algorithm sorts it.
-/

namespace Blocx

open List

variable {α β κ ι : Type} {less : κ → κ → Bool} {key : α → κ} {l : List α} {key' : β → κ} {l' : List β}

/-- A strict and total comparison. -/
structure StrictTotal (less : κ → κ → Bool) : Prop where
  irrefl : ∀ a, less a a = false
  trans : ∀ a b c, less a b → less b c → less a c
  /-- Two values neither of which is less are the same. -/
  connected : ∀ a b, less a b = false → less b a = false → a = b

/-- Compare first parts, and second parts where these agree. -/
def lexLess [DecidableEq κ] (less : κ → κ → Bool) (less' : ι → ι → Bool) (a b : κ × ι) : Bool :=
  if a.1 = b.1 then less' a.2 b.2 else less a.1 b.1

lemma StrictTotal.lex [DecidableEq κ] {less' : ι → ι → Bool} (h : StrictTotal less)
    (h' : StrictTotal less') : StrictTotal (lexLess less less') where
  irrefl a := by
    rw [lexLess, if_pos rfl]
    exact h'.irrefl a.2
  trans a b c hab hbc := by
    unfold lexLess at hab hbc ⊢
    by_cases hac : a.1 = c.1
    · rw [if_pos hac]
      by_cases hb : a.1 = b.1
      · rw [if_pos hb] at hab
        rw [if_pos (hb.symm.trans hac)] at hbc
        exact h'.trans _ _ _ hab hbc
      · -- the first parts of `a` and `b` would be less than each other
        rw [if_neg hb] at hab
        rw [if_neg fun hbc' => hb (hac.trans hbc'.symm), ← hac] at hbc
        have hself := h.trans _ _ _ hab hbc
        rw [h.irrefl] at hself
        cases hself
    · rw [if_neg hac]
      by_cases hb : a.1 = b.1
      · rw [if_neg fun hbc' => hac (hb.trans hbc'), ← hb] at hbc
        exact hbc
      · rw [if_neg hb] at hab
        by_cases hc : b.1 = c.1
        · rwa [hc] at hab
        · rw [if_neg hc] at hbc
          exact h.trans _ _ _ hab hbc
  connected a b hab hba := by
    unfold lexLess at hab hba
    have hfst : a.1 = b.1 := by
      by_contra hne
      rw [if_neg hne] at hab
      rw [if_neg fun heq => hne heq.symm] at hba
      exact hne (h.connected _ _ hab hba)
    rw [if_pos hfst] at hab
    rw [if_pos hfst.symm] at hba
    exact Prod.ext hfst (h'.connected _ _ hab hba)

/-- A list sorted by its keys, the greatest first. -/
def ranked (less : κ → κ → Bool) (key : α → κ) (l : List α) : List α :=
  l.insertionSort fun a b => less (key a) (key b) = false

variable (less key l) in
lemma perm_ranked : (ranked less key l).Perm l :=
  perm_insertionSort _ l

lemma mem_ranked {a : α} : a ∈ ranked less key l ↔ a ∈ l :=
  (perm_ranked less key l).mem_iff

lemma pairwise_ranked (h : StrictTotal less) :
    (ranked less key l).Pairwise fun a b => less (key a) (key b) = false := by
  have htotal : Std.Total fun a b : α => less (key a) (key b) = false := ⟨fun a b => by
    by_contra hne
    rw [not_or, Bool.not_eq_false, Bool.not_eq_false] at hne
    have hself := h.trans _ _ _ hne.1 hne.2
    rw [h.irrefl] at hself
    cases hself⟩
  have htrans : IsTrans α fun a b => less (key a) (key b) = false := ⟨fun a b c hab hbc => by
    by_contra hac
    rw [Bool.not_eq_false] at hac
    -- `b` is comparable to both ends of `a < c`
    cases hba : less (key b) (key a) with
    | true =>
      rw [h.trans _ _ _ hba hac] at hbc
      cases hbc
    | false =>
      rw [h.connected _ _ hab hba, hbc] at hac
      cases hac⟩
  exact pairwise_insertionSort _ l

variable (less key) in
lemma ranked_map (f : β → α) (l : List β) : ranked less key (l.map f) = (ranked less (key ∘ f) l).map f :=
  (map_insertionSort _ _ f l fun _ _ _ _ => Iff.rfl).symm

lemma ranked_map_eq (h : StrictTotal less) (hperm : (l.map key).Perm (l'.map key')) :
    (ranked less key l).map key = (ranked less key' l').map key' := by
  refine List.Perm.eq_of_pairwise (fun a b _ _ hab hba => h.connected a b hab hba) ?_ ?_ ?_
  · exact pairwise_map.mpr (pairwise_ranked h)
  · exact pairwise_map.mpr (pairwise_ranked h)
  · exact ((perm_ranked less key l).map key).trans (hperm.trans ((perm_ranked less key' l').map key').symm)

lemma map_eq_of_map_eq {f : α → ι} {f' : β → ι} (hdet : ∀ a ∈ l, ∀ b ∈ l', key a = key' b → f a = f' b)
    (h : l.map key = l'.map key') : l.map f = l'.map f' := by
  induction l generalizing l' with
  | nil =>
    obtain rfl := map_eq_nil_iff.mp h.symm
    rfl
  | cons a l ih =>
    cases l' with
    | nil => cases h
    | cons b l' =>
      rw [map_cons, map_cons, cons.injEq] at h
      rw [map_cons, map_cons, hdet a mem_cons_self b mem_cons_self h.1,
        ih (fun a ha b hb => hdet a (mem_cons_of_mem _ ha) b (mem_cons_of_mem _ hb)) h.2]

end Blocx
