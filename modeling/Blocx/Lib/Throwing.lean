import Mathlib.Tactic.Common

/-!
# Programs that throw

`EStateM ε σ` keeps the state that a program has reached when it throws, which is what a C++ method that changes its
object and then throws does. `wp x Q E s` is the weakest precondition of such a program: started in `s` it ends with
`Q` when it returns and with `E` when it throws. The rules below compute it along the structure of a program, and a
loop is handled by an invariant.

A sequence of checks that stops at the first one that fails is a program in `Except`; it succeeds exactly when every
check does.

`Parallel R x y S` is the relational counterpart: started in states related by `R`, the two programs both throw, or
both return and then `S` holds of the results and states. It has a rule for each construct as well.
-/

namespace Blocx

variable {ε σ τ α β γ δ : Type} {a : α} {e : ε} {b : β} {s : σ} {f : α → EStateM ε σ PUnit} {x : EStateM ε σ α}
  {as : List α}

/-! ### Checks -/

/-- A check that fails with an error. -/
def require (c : Bool) (e : ε) : Except ε Unit := if c then .ok () else .error e

/-- A check that is only made on a condition. -/
def onlyWhen (c : Bool) (x : Except ε Unit) : Except ε Unit := if c then x else .ok ()

/-- A value that must be there. -/
def getOr (o : Option α) (e : ε) : Except ε α :=
  match o with
  | some a => .ok a
  | none => .error e

@[simp]
lemma require_eq_ok {c : Bool} {u : Unit} : require c e = .ok u ↔ c = true := by
  unfold require
  split_ifs with h <;> simp [h]

@[simp]
lemma onlyWhen_eq_ok {c : Bool} {x : Except ε Unit} {u : Unit} : onlyWhen c x = .ok u ↔ (c = true → x = .ok u) := by
  unfold onlyWhen
  split_ifs with h <;> simp [h]

@[simp]
lemma getOr_eq_ok {o : Option α} : getOr o e = .ok a ↔ o = some a := by
  cases o <;> simp [getOr]

lemma except_bind_eq_ok {x : Except ε α} {f : α → Except ε β} : x >>= f = .ok b ↔ ∃ a, x = .ok a ∧ f a = .ok b := by
  constructor
  · intro h
    cases x with
    | ok a => exact ⟨a, rfl, h⟩
    | error e => cases h
  · rintro ⟨a, rfl, h⟩
    exact h

/-! ### Weakest preconditions -/

/-- Started in `s`, the program ends with `Q` when it returns and with `E` when it throws. -/
def wp (x : EStateM ε σ α) (Q : α → σ → Prop) (E : ε → σ → Prop) (s : σ) : Prop :=
  match x.run s with
  | .ok a t => Q a t
  | .error e t => E e t

instance (x : EStateM ε σ α) (Q : α → σ → Prop) (E : ε → σ → Prop) (s : σ) [∀ a t, Decidable (Q a t)]
    [∀ e t, Decidable (E e t)] : Decidable (wp x Q E s) :=
  match h : x.run s with
  | .ok a t => decidable_of_iff (Q a t) (by unfold wp; rw [h])
  | .error e t => decidable_of_iff (E e t) (by unfold wp; rw [h])

/-- Started in `s`, the program ends with `Q` when it returns. -/
abbrev wlp (x : EStateM ε σ α) (Q : α → σ → Prop) : σ → Prop := wp x Q fun _ _ => True

/-- The state in which a program ends. -/
def finalState (x : EStateM ε σ α) (s : σ) : σ :=
  match x.run s with
  | .ok _ t => t
  | .error _ t => t

/-- The program returns. -/
def returns (x : EStateM ε σ α) (s : σ) : Bool :=
  match x.run s with
  | .ok _ _ => true
  | .error _ _ => false

lemma run_of_returns {x : EStateM ε σ Unit} (h : returns x s) : x.run s = .ok () (finalState x s) := by
  unfold returns at h
  unfold finalState
  generalize x.run s = r at *
  cases r with
  | ok a t => rfl
  | error e t => cases h

section Rules

variable {Q Q' : α → σ → Prop} {E E' : ε → σ → Prop} {t : σ}

@[simp]
lemma wp_pure (a : α) : wp (pure a : EStateM ε σ α) Q E s ↔ Q a s := Iff.rfl

@[simp]
lemma wp_throw (e : ε) : wp (throw e : EStateM ε σ α) Q E s ↔ E e s := Iff.rfl

@[simp]
lemma wp_get {Q : σ → σ → Prop} : wp (get : EStateM ε σ σ) Q E s ↔ Q s s := Iff.rfl

@[simp]
lemma wp_modify {Q : Unit → σ → Prop} (f : σ → σ) : wp (modify f : EStateM ε σ Unit) Q E s ↔ Q () (f s) := Iff.rfl

@[simp]
lemma wp_modifyGet (f : σ → α × σ) : wp (modifyGet f : EStateM ε σ α) Q E s ↔ Q (f s).1 (f s).2 := Iff.rfl

@[simp]
lemma wp_bind (x : EStateM ε σ α) (f : α → EStateM ε σ β) (Q : β → σ → Prop) :
    wp (x >>= f) Q E s ↔ wp x (fun a => wp (f a) Q E) E s := by
  unfold wp EStateM.run
  change (match EStateM.bind x f s with | .ok a t => Q a t | .error e t => E e t) ↔ _
  unfold EStateM.bind
  cases x s with
  | ok a t | error e t => rfl

lemma wp_ite {c : Prop} [Decidable c] (x y : EStateM ε σ α) :
    wp (if c then x else y) Q E s ↔ (c → wp x Q E s) ∧ (¬c → wp y Q E s) := by
  by_cases hc : c
  · simp [hc]
  · simp [hc]

lemma wp_tryCatch (x : EStateM ε σ α) (handle : ε → EStateM ε σ α) :
    wp (tryCatch x handle) Q E s ↔ wp x Q (fun e => wp (handle e) Q E) s := by
  unfold wp EStateM.run
  change (match EStateM.tryCatch x handle s with | .ok a t => Q a t | .error e t => E e t) ↔ _
  unfold EStateM.tryCatch
  cases x s with
  | ok a t | error e t => rfl

lemma wp_ite_throw {c : Prop} [Decidable c] (h : ¬c → wlp x Q s) : wlp (if c then throw e else x) Q s :=
  (wp_ite _ _).mpr ⟨fun _ => trivial, h⟩

lemma wlp_of_forall (h : ∀ a t, Q a t) : wlp x Q s := by
  unfold wlp wp
  split
  · exact h _ _
  · trivial

section

variable (h : wp x Q E s)

include h

section

variable (hQ : ∀ a t, Q a t → Q' a t)

include hQ

lemma wp_mono (hE : ∀ e t, E e t → E' e t) : wp x Q' E' s := by
  unfold wp at *
  generalize x.run s = r at *
  cases r with
  | ok a t => exact hQ a t h
  | error e t => exact hE e t h

lemma wp.imp : wp x Q' E s :=
  wp_mono h hQ fun _ _ => id

lemma wp.imp_true : wlp x Q' s :=
  wp_mono h hQ fun _ _ _ => trivial

end

lemma wp_seq {f : α → EStateM ε σ β} {Q' : β → σ → Prop} (hf : ∀ a t, Q a t → wp (f a) Q' E t) :
    wp (x >>= f) Q' E s :=
  (wp_bind x f Q').mpr (h.imp hf)

lemma wp.ok (hx : x.run s = .ok a t) : Q a t := by
  unfold wp at h
  rwa [hx] at h

lemma wp.error (hx : x.run s = .error e t) : E e t := by
  unfold wp at h
  rwa [hx] at h

end

lemma run_bind_eq_ok {f : α → EStateM ε σ β} :
    (x >>= f).run s = .ok b t ↔ ∃ a u, x.run s = .ok a u ∧ (f a).run u = .ok b t := by
  change EStateM.bind x f s = _ ↔ ∃ a u, x s = _ ∧ f a u = _
  unfold EStateM.bind
  cases x s with
  | ok a u =>
    refine ⟨fun h => ⟨a, u, rfl, h⟩, ?_⟩
    rintro ⟨a', u', heq, h⟩
    cases heq
    exact h
  | error e u =>
    refine ⟨nofun, ?_⟩
    rintro ⟨a', u', heq, -⟩
    cases heq

lemma wp.exists_ok (h : wp x Q (fun _ _ => False) s) : ∃ a t, x.run s = .ok a t ∧ Q a t := by
  unfold wp at h
  generalize x.run s = r at *
  cases r with
  | ok a t => exact ⟨a, t, rfl, h⟩
  | error e t => exact h.elim

lemma wp.exists_finalState (h : wp x Q (fun _ _ => False) s) :
    ∃ a, x.run s = .ok a (finalState x s) ∧ Q a (finalState x s) := by
  obtain ⟨a, t, hx, hQ⟩ := h.exists_ok
  unfold finalState
  rw [hx]
  exact ⟨a, rfl, hQ⟩

lemma wp_of_ok (hx : x.run s = .ok a t) : wp x Q E s ↔ Q a t := by
  unfold wp
  rw [hx]

lemma wp.and (h : wp x Q E s) (h' : wp x Q' E' s) :
    wp x (fun a t => Q a t ∧ Q' a t) (fun e t => E e t ∧ E' e t) s := by
  unfold wp at *
  generalize x.run s = r at *
  cases r with
  | ok a t | error e t => exact ⟨h, h'⟩

/-- A loop over a list keeps an invariant of what is still to be done. -/
lemma wp_forM {I : List α → σ → Prop} (step : ∀ a as s, I (a :: as) s → wp (f a) (fun _ => I as) E s) (h : I as s) :
    wp (as.forM f) (fun _ => I []) E s := by
  induction as generalizing s with
  | nil => exact h
  | cons a as ih =>
    refine (wp_bind (f a) (fun _ => as.forM f) _).mpr ?_
    exact wp_mono (step a as s h) (fun _ t ht => ih ht) (fun _ _ => id)

end Rules

/-! ### Two programs in step -/

/-- Started in related states, both programs throw, or both return and the results are related. -/
def Parallel (R : σ → τ → Prop) (x : EStateM ε σ α) (y : EStateM ε τ β) (S : α → β → σ → τ → Prop) : Prop :=
  ∀ s t, R s t → match x.run s, y.run t with
    | .ok a s', .ok b t' => S a b s' t'
    | .error _ _, .error _ _ => True
    | _, _ => False

namespace Parallel

variable {R R' : σ → τ → Prop} {S : α → β → σ → τ → Prop} {y : EStateM ε τ β} {S' : γ → δ → σ → τ → Prop}

lemma pure (h : ∀ s t, R s t → S a b s t) : Parallel R (pure a : EStateM ε σ α) (pure b : EStateM ε τ β) S := h

lemma throw (e e' : ε) : Parallel R (throw e : EStateM ε σ α) (throw e' : EStateM ε τ β) S := fun _ _ _ => trivial

lemma modify {f : σ → σ} {g : τ → τ} {S : PUnit → PUnit → σ → τ → Prop} (h : ∀ s t, R s t → S () () (f s) (g t)) :
    Parallel R (modify f : EStateM ε σ PUnit) (modify g : EStateM ε τ PUnit) S := h

lemma bind {f : α → EStateM ε σ γ} {g : β → EStateM ε τ δ} (hx : Parallel R x y S)
    (hf : ∀ a b, Parallel (S a b) (f a) (g b) S') : Parallel R (x >>= f) (y >>= g) S' := by
  intro s t hst
  have h := hx s t hst
  change match EStateM.bind x f s, EStateM.bind y g t with
    | .ok a s', .ok b t' => S' a b s' t'
    | .error _ _, .error _ _ => True
    | _, _ => False
  unfold EStateM.run at h
  unfold EStateM.bind
  generalize x s = r at *
  generalize y t = r' at *
  cases r with
  | ok a s' =>
    cases r' with
    | ok b t' => exact hf a b s' t' h
    | error e t' => exact h.elim
  | error e s' =>
    cases r' with
    | ok b t' => exact h.elim
    | error e t' => trivial

lemma modifyGet {f : σ → α × σ} {g : τ → β × τ} (h : ∀ s t, R s t → S (f s).1 (g t).1 (f s).2 (g t).2) :
    Parallel R (modifyGet f : EStateM ε σ α) (modifyGet g : EStateM ε τ β) S := h

lemma bind_same {y : EStateM ε τ α} {f : α → EStateM ε σ γ} {g : α → EStateM ε τ δ}
    (hx : Parallel R x y fun a b s t => a = b ∧ R' s t) (hf : ∀ a, Parallel R' (f a) (g a) S') :
    Parallel R (x >>= f) (y >>= g) S' := by
  refine bind hx fun a b s t hst => ?_
  obtain ⟨rfl, h⟩ := hst
  exact hf a s t h

lemma get {f : σ → EStateM ε σ α} {g : τ → EStateM ε τ β}
    (h : ∀ s t, R s t → Parallel (fun s' t' => s' = s ∧ t' = t ∧ R s t) (f s) (g t) S) :
    Parallel R (get >>= f) (get >>= g) S := fun s t hst => h s t hst s t ⟨rfl, rfl, hst⟩

lemma weaken {S' : α → β → σ → τ → Prop} (h : Parallel R x y S) (hR : ∀ s t, R' s t → R s t)
    (hS : ∀ a b s t, S a b s t → S' a b s t) : Parallel R' x y S' := by
  intro s t hst
  have h' := bind h (fun a b => pure (hS a b)) s t (hR s t hst)
  rwa [bind_pure, bind_pure] at h'

lemma of_pinned {t : τ} (h : R s t → Parallel R x y S) : Parallel (fun s' t' => s' = s ∧ t' = t ∧ R s t) x y S := by
  rintro s' t' ⟨rfl, rfl, hst⟩
  exact h hst s' t' hst

lemma forM {P : α → β → Prop} {g : β → EStateM ε τ PUnit} (step : ∀ a b, P a b → Parallel R (f a) (g b) fun _ _ => R)
    {bs : List β} (h : List.Forall₂ P as bs) : Parallel R (as.forM f) (bs.forM g) fun _ _ => R := by
  induction h with
  | nil => exact pure fun _ _ => id
  | cons hab _ ih => exact bind (step _ _ hab) fun _ _ => ih

end Parallel

end Blocx
