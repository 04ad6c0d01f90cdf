/-!
# Properties along a run

A run is a list of events that a step function takes a state through. A property of a state and the event that comes
next holds along a run if it holds at each of its events. Two properties that say the same in the states of an
invariant, which one of them keeps, hold along the same runs (`along_congr`).
-/

namespace Blocx

variable {S E : Type} {step : S → E → S} {P Q F : S → E → Prop} {es : List E} {s : S} {I : S → Prop}

/-- The property holds of the state before each event and the event. -/
def Along (step : S → E → S) (P : S → E → Prop) : S → List E → Prop
  | _, [] => True
  | s, e :: es => P s e ∧ Along step P (step s e) es

instance Along.instDecidable [∀ s e, Decidable (P s e)] (s : S) : (es : List E) → Decidable (Along step P s es)
  | [] => isTrue trivial
  | e :: es => @instDecidableAnd _ _ _ (Along.instDecidable (step s e) es)

theorem along_of_forall (h : ∀ s e, P s e) : Along step P s es := by
  induction es generalizing s with
  | nil => trivial
  | cons e es ih => exact ⟨h s e, ih⟩

/-- A property of the events alone. -/
theorem along_of_mem {P : E → Prop} (h : ∀ e ∈ es, P e) : Along step (fun _ e => P e) s es := by
  induction es generalizing s with
  | nil => trivial
  | cons e es ih => exact ⟨h e List.mem_cons_self, ih fun e' he => h e' (List.mem_cons_of_mem e he)⟩

/-- What every event keeps where the property holds is kept by the run. -/
theorem Along.inv (hkeep : ∀ s e, I s → P s e → I (step s e)) (hs : I s) (h : Along step P s es) :
    I (es.foldl step s) := by
  induction es generalizing s with
  | nil => exact hs
  | cons e es ih => exact ih (hkeep s e hs h.1) h.2

theorem Along.and (hP : Along step P s es) (hQ : Along step Q s es) : Along step (fun s e => P s e ∧ Q s e) s es := by
  induction es generalizing s with
  | nil => trivial
  | cons e es ih => exact ⟨⟨hP.1, hQ.1⟩, ih hP.2 hQ.2⟩

/-- The last event of a run. -/
theorem Along.last {e : E} (h : Along step P s (es ++ [e])) : P (es.foldl step s) e := by
  induction es generalizing s with
  | nil => exact h.1
  | cons e es ih => exact ih h.2

/-- A property that follows from another one in the states of an invariant, which the other one keeps. -/
theorem Along.imp (himp : ∀ s e, I s → P s e → Q s e) (hkeep : ∀ s e, I s → P s e → I (step s e)) (hs : I s)
    (h : Along step P s es) : Along step Q s es := by
  induction es generalizing s with
  | nil => trivial
  | cons e es ih => exact ⟨himp s e hs h.1, ih (hkeep s e hs h.1) h.2⟩

/-- Two properties that are the same in every state of an invariant which one of them keeps, in runs along which `F`
holds. -/
theorem along_congr (hiff : ∀ s e, I s → F s e → (P s e ↔ Q s e)) (hkeep : ∀ s e, I s → F s e → Q s e → I (step s e))
    (hs : I s) (hF : Along step F s es) : Along step P s es ↔ Along step Q s es := by
  induction es generalizing s with
  | nil => exact Iff.rfl
  | cons e es ih =>
    constructor
    · rintro ⟨hP, hPs⟩
      have hQ := (hiff s e hs hF.1).mp hP
      exact ⟨hQ, (ih (hkeep s e hs hF.1 hQ) hF.2).mp hPs⟩
    · rintro ⟨hQ, hQs⟩
      exact ⟨(hiff s e hs hF.1).mpr hQ, (ih (hkeep s e hs hF.1 hQ) hF.2).mpr hQs⟩

end Blocx
