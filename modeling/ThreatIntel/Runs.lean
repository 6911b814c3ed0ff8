import Mathlib.Data.List.Basic

/-!
# Runs of a step function

A system is a step function over events, `step : S → E → S`. An event
that is not enabled in a state leaves it unchanged, so every list of
events is a run and quantifying over lists is quantifying over
interleavings.

Two judgements about a run are kept apart. `Meets P` speaks about its
*steps* (a condition on the state before the step and on the event);
`Always Q` speaks about the *states* it goes through. `run_invariant`
goes from the first to the second, and `always_iff_meets` says when the
two coincide, which is how an exact condition on the steps is stated.
-/

namespace ThreatIntel

namespace Runs

variable {S E : Type*} {step : S → E → S}

/-- The state a run of `es` from `s` ends in. -/
def run (step : S → E → S) (s : S) (es : List E) : S := es.foldl step s

/-- Every step of the run meets `P`, read on the state before the step. -/
def Meets (step : S → E → S) (P : S → E → Prop) : S → List E → Prop
  | _, [] => True
  | s, e :: es => P s e ∧ Meets step P (step s e) es

/-- `Q` holds in every state of the run, the first and the last included. -/
def Always (step : S → E → S) (Q : S → Prop) : S → List E → Prop
  | s, [] => Q s
  | s, e :: es => Q s ∧ Always step Q (step s e) es

instance decidableMeets (P : S → E → Prop) [∀ s e, Decidable (P s e)] :
    ∀ (s : S) (es : List E), Decidable (Meets step P s es)
  | _, [] => inferInstanceAs (Decidable True)
  | s, e :: es =>
      have := decidableMeets P (step s e) es
      inferInstanceAs (Decidable (P s e ∧ Meets step P (step s e) es))

@[simp] theorem run_nil (s : S) : run step s [] = s := rfl

@[simp] theorem run_cons (s : S) (e : E) (es : List E) :
    run step s (e :: es) = run step (step s e) es := rfl

theorem meets_congr {P P' : S → E → Prop} {es : List E} (h : ∀ e ∈ es, ∀ s, P s e ↔ P' s e)
    (s : S) : Meets step P s es ↔ Meets step P' s es := by
  induction es generalizing s with
  | nil => exact Iff.rfl
  | cons e es ih =>
      obtain ⟨hhead, htail⟩ := List.forall_mem_cons.mp h
      rw [Meets, Meets, hhead s, ih htail]

/-! ## The invariant rule -/

/-- The invariant rule under a condition on the steps: what one step that
meets `P` preserves, a run whose steps all meet `P` preserves. -/
theorem run_invariant {P : S → E → Prop} {I : S → Prop}
    (hstep : ∀ s e, I s → P s e → I (step s e)) {es : List E} {s : S}
    (hI : I s) (hP : Meets step P s es) : I (run step s es) := by
  induction es generalizing s with
  | nil => exact hI
  | cons e es ih => exact ih (hstep s e hI hP.1) hP.2

/-- The invariant rule for a property every step preserves. -/
theorem run_preserves {I : S → Prop} (hstep : ∀ s e, I s → I (step s e))
    {s : S} (hI : I s) (es : List E) : I (run step s es) := by
  induction es generalizing s with
  | nil => exact hI
  | cons e es ih => exact ih (hstep s e hI)

/-! ## States against steps -/

theorem Always.head {Q : S → Prop} {s : S} {es : List E}
    (h : Always step Q s es) : Q s := by
  cases es with
  | nil => exact h
  | cons e es => exact h.1

theorem Always.last {Q : S → Prop} {s : S} {es : List E}
    (h : Always step Q s es) : Q (run step s es) := by
  induction es generalizing s with
  | nil => exact h
  | cons e es ih => exact ih h.2

/-- What an invariant implies holds all along a run. -/
theorem always_of_invariant {I Q : S → Prop} (hstep : ∀ s e, I s → I (step s e))
    (hQ : ∀ s, I s → Q s) {s : S} (hI : I s) (es : List E) : Always step Q s es := by
  induction es generalizing s with
  | nil => exact hQ s hI
  | cons e es ih => exact ⟨hQ s hI, ih (hstep s e hI)⟩

/-- When, under an invariant `I` that needs no condition, a step leads
from a `Q`-state to a `Q`-state exactly if it meets `P`, then `Q` holds
all along a run exactly if every step of it meets `P`. -/
theorem always_iff_meets {P : S → E → Prop} {I Q : S → Prop}
    (hinv : ∀ s e, I s → I (step s e))
    (hstep : ∀ s e, I s → Q s → (Q (step s e) ↔ P s e)) :
    ∀ {es : List E} {s : S}, I s → Q s →
      (Always step Q s es ↔ Meets step P s es)
  | [], _, _, hQ => ⟨fun _ => trivial, fun _ => hQ⟩
  | e :: es, s, hI, hQ => by
      have hone := hstep s e hI hQ
      constructor
      · rintro ⟨-, hrest⟩
        have hQ' : Q (step s e) := hrest.head
        exact ⟨hone.mp hQ', (always_iff_meets hinv hstep (hinv s e hI) hQ').mp hrest⟩
      · rintro ⟨hP, hrest⟩
        have hQ' : Q (step s e) := hone.mpr hP
        exact ⟨hQ, (always_iff_meets hinv hstep (hinv s e hI) hQ').mpr hrest⟩

/-- The same for the last state, when what is broken stays broken. -/
theorem run_iff_meets {P : S → E → Prop} {I Q : S → Prop}
    (hinv : ∀ s e, I s → I (step s e))
    (hstep : ∀ s e, I s → Q s → (Q (step s e) ↔ P s e))
    (hbroken : ∀ s e, I s → ¬ Q s → ¬ Q (step s e)) {es : List E} {s : S} (hI : I s) (hQ : Q s) :
    Q (run step s es) ↔ Meets step P s es := by
  induction es generalizing s with
  | nil => exact ⟨fun _ => trivial, fun _ => hQ⟩
  | cons e es ih =>
      rw [run_cons, Meets]
      by_cases hP : P s e
      · rw [ih (hinv s e hI) ((hstep s e hI hQ).mpr hP)]
        simp [hP]
      · have hlost : (I (step s e) ∧ ¬ Q (step s e)) := ⟨hinv s e hI, mt (hstep s e hI hQ).mp hP⟩
        have hstay : ∀ s e, I s ∧ ¬ Q s → I (step s e) ∧ ¬ Q (step s e) :=
          fun s e h => ⟨hinv s e h.1, hbroken s e h.1 h.2⟩
        have hkept := run_preserves hstay hlost es
        simp [hP, hkept.2]

/-- What holds after a run held before it, or a step of the run has brought
it about. -/
theorem became {Q : S → Prop} {s : S} {es : List E} (h : Q (run step s es)) :
    Q s ∨ ∃ before e after, es = before ++ e :: after ∧ ¬ Q (run step s before) ∧
      Q (step (run step s before) e) := by
  induction es generalizing s with
  | nil => exact .inl h
  | cons e es ih =>
      rcases ih h with hnext | ⟨before, e', after, rfl, hnot, hthen⟩
      · by_cases hs : Q s
        · exact .inl hs
        · exact .inr ⟨[], e, es, rfl, hs, hnext⟩
      · exact .inr ⟨e :: before, e', after, rfl, hnot, hthen⟩

end Runs

end ThreatIntel
