import Mathlib.Data.List.Basic

/-!
# Runs of a step function

A system that takes one event after another. What every step keeps, under a condition on the event and the state before
it, holds in every state of a run whose steps all meet the condition. -/

namespace StepRun
variable {σ ε : Type*} (step : σ → ε → σ)

/-- Every step of the run meets the condition, in the state before it. -/
def Meets (cond : σ → ε → Prop) : σ → List ε → Prop
  | _, [] => True
  | s, e :: es => cond s e ∧ Meets cond (step s e) es

/-- Every state of the run has the property, the first one too. -/
def Always (p : σ → Prop) : σ → List ε → Prop
  | s, [] => p s
  | s, e :: es => p s ∧ Always p (step s e) es

variable {step} {cond : σ → ε → Prop} {p : σ → Prop} {s : σ}

section
variable {es : List ε}

theorem Meets.always (hstep : ∀ s e, p s → cond s e → p (step s e)) (h : Meets step cond s es) (hs : p s) :
    Always step p s es := by
  induction es generalizing s with
  | nil => exact hs
  | cons e es ih => exact ⟨hs, ih h.2 (hstep s e hs h.1)⟩

theorem Always.last (h : Always step p s es) : p (es.foldl step s) := by
  induction es generalizing s with
  | nil => exact h
  | cons e es ih => exact ih h.2

theorem Always.first (h : Always step p s es) : p s := by
  cases es with
  | nil => exact h
  | cons e es => exact h.1

/-- Where the condition says exactly which steps keep the property. -/
theorem always_iff_meets (hstep : ∀ s e, p s → (p (step s e) ↔ cond s e)) (hs : p s) :
    Always step p s es ↔ Meets step cond s es := by
  refine ⟨fun h => ?_, fun h => h.always (fun s e hs hc => (hstep s e hs).mpr hc) hs⟩
  induction es generalizing s with
  | nil => trivial
  | cons e es ih => exact ⟨(hstep s e hs).mp h.2.first, ih h.2.first h.2⟩

theorem meets_true : Meets step (fun _ _ => True) s es := by
  induction es generalizing s with
  | nil => trivial
  | cons e es ih => exact ⟨trivial, ih⟩

/-- Where the condition is exact for states with an invariant, and `env` holds of every event. -/
theorem always_iff_meets_of {I : σ → Prop} {env : σ → ε → Prop} (hstep : ∀ s e, I s → env s e → cond s e → I (step s e))
    (hinv : ∀ s, I s → p s) (hcond : ∀ s e, I s → p (step s e) → cond s e) (hs : I s) (henv : Meets step env s es) :
    Always step p s es ↔ Meets step cond s es := by
  induction es generalizing s with
  | nil => exact ⟨fun _ => trivial, fun _ => hinv s hs⟩
  | cons e es ih =>
    refine ⟨fun h => ?_, fun h => ⟨hinv s hs, (ih (hstep s e hs henv.1 h.1) henv.2).mpr h.2⟩⟩
    have hc := hcond s e hs h.2.first
    exact ⟨hc, (ih (hstep s e hs henv.1 hc) henv.2).mp h.2⟩

end

end StepRun
