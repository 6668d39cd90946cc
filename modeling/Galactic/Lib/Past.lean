import Mathlib.Data.List.Basic

/-!
# The past of a run

A history lists what has happened, the latest event first. Two questions are asked of it: did one kind of event come
after another, and is a demand still open, not answered by a later event. -/

namespace Past

variable {ε : Type}

/-- Some event `ψ` came after some event `φ`. -/
def after (φ ψ : ε → Bool) : List ε → Bool
  | [] => false
  | e :: rest => ψ e && rest.any φ || after φ ψ rest

def unanswered (asks answers : ε → Bool) : List ε → Bool
  | [] => false
  | e :: rest => !answers e && (asks e || unanswered asks answers rest)

variable {φ ψ asks answers : ε → Bool} {e : ε} {log : List ε}

theorem any_of_after (h : after φ ψ log) : log.any φ := by
  induction log with
  | nil => cases h
  | cons e rest ih =>
    rw [List.any_cons, Bool.or_eq_true]
    rcases (Bool.or_eq_true _ _).mp h with hnow | hrest
    · exact .inr ((Bool.and_eq_true _ _).mp hnow).2
    · exact .inr (ih hrest)

theorem after_eq_false (h : log.any φ = false) : after φ ψ log = false := by
  rw [Bool.eq_false_iff] at h ⊢
  exact fun hafter => h (any_of_after hafter)

theorem after_cons_of_not (h : ψ e = false) : after φ ψ (e :: log) = after φ ψ log := by
  rw [after, h]
  rfl

theorem after_append {log' : List ε} (hψ : log.any ψ) (hφ : log'.any φ) : after φ ψ (log ++ log') := by
  induction log with
  | nil => exact nomatch hψ
  | cons e rest ih =>
    rw [List.cons_append, after, Bool.or_eq_true, Bool.and_eq_true, List.any_append, hφ, Bool.or_true]
    rcases (Bool.or_eq_true _ _).mp hψ with hnow | hrest
    · exact .inl ⟨hnow, rfl⟩
    · exact .inr (ih hrest)

theorem unanswered_cons_of_not (hasks : asks e = false) (hanswers : answers e = false) :
    unanswered asks answers (e :: log) = unanswered asks answers log := by
  rw [unanswered, hasks, hanswers]
  rfl

theorem unanswered_cons_of_answers (h : answers e) : unanswered asks answers (e :: log) = false := by
  rw [unanswered, h]
  rfl

end Past
