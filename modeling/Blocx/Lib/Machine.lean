import Mathlib.Data.Option.Basic

/-!
# Machines that answer

A machine takes requests one after another. A request is answered, and the machine goes on in a new state, or it stops
the machine. Two machines that answer alike, request by request, in related states, give the same answers in every run
and stop at the same place (`runRequests_sim`).
-/

namespace Blocx

variable {S S' E A : Type}

/-- The answers of a run, and the state at its end unless a request has stopped the machine. -/
def runRequests (step : S → E → Option (S × A)) (s : S) : List E → List A × Option S
  | [] => ([], some s)
  | e :: es =>
    match step s e with
    | none => ([], none)
    | some (s', a) => (a :: (runRequests step s' es).1, (runRequests step s' es).2)

/-- Both machines stop, or they give the same answer and go on in related states. -/
def SameAnswer (R : S → S' → Prop) : Option (S × A) → Option (S' × A) → Prop :=
  Option.Rel fun r r' => r.2 = r'.2 ∧ R r.1 r'.1

/-- A simulation, request by request, gives one of runs. -/
lemma runRequests_sim {step : S → E → Option (S × A)} {step' : S' → E → Option (S' × A)} {R : S → S' → Prop}
    {ok : E → Prop} (hstep : ∀ s s' e, R s s' → ok e → SameAnswer R (step s e) (step' s' e)) {s : S} {s' : S'}
    (hs : R s s') {es : List E} (hes : ∀ e ∈ es, ok e) :
    (runRequests step s es).1 = (runRequests step' s' es).1 ∧
      Option.Rel R (runRequests step s es).2 (runRequests step' s' es).2 := by
  induction es generalizing s s' with
  | nil => exact ⟨rfl, .some hs⟩
  | cons e es ih =>
    have hsame := hstep s s' e hs (hes e List.mem_cons_self)
    unfold runRequests
    generalize step s e = r, step' s' e = r' at hsame
    rcases hsame with ⟨hanswer, hnext⟩ | _
    · obtain ⟨hanswers, hend⟩ := ih hnext fun e' he' => hes e' (List.mem_cons_of_mem e he')
      exact ⟨congrArg₂ _ hanswer hanswers, hend⟩
    · exact ⟨rfl, .none⟩

end Blocx
