import Mathlib.Tactic

/-!
# Loops that stop at the first error

A loop over a list whose body may fail, in the two shapes programs write it: one that appends what each element gives,
and one that updates a state. -/

namespace FallibleLoop
open List

variable {ε α β σ : Type}

theorem bind_eq_ok {x : Except ε α} {f : α → Except ε β} {b : β} :
    (x >>= f) = .ok b ↔ ∃ a, x = .ok a ∧ f a = .ok b := by
  cases x with
  | error e => exact ⟨fun h => (nomatch h), fun ⟨_, h, _⟩ => (nomatch h)⟩
  | ok a => exact ⟨fun h => ⟨a, rfl, h⟩, fun ⟨_, h, hf⟩ => by cases h; exact hf⟩

theorem exists_ok {x : Except ε α} {p : α → Prop} [DecidablePred p] (h : x.toOption.any p) : ∃ a, x = .ok a ∧ p a := by
  cases x with
  | error e => cases h
  | ok a => exact ⟨a, rfl, of_decide_eq_true h⟩

/-! ### Appending -/

/-- What the elements give, one after the other. -/
def collect (f : α → Except ε (List β)) : List α → Except ε (List β)
  | [] => .ok []
  | x :: xs => do
    let ys ← f x
    let zs ← collect f xs
    return ys ++ zs

section Collect
variable {f : α → Except ε (List β)} {xs : List α} {out : List β}

theorem collect_cons_eq_ok {x : α} (h : collect f (x :: xs) = .ok out) :
    ∃ ys zs, f x = .ok ys ∧ collect f xs = .ok zs ∧ out = ys ++ zs := by
  obtain ⟨ys, hys, h⟩ := bind_eq_ok.mp h
  obtain ⟨zs, hzs, h⟩ := bind_eq_ok.mp h
  exact ⟨ys, zs, hys, hzs, (Except.ok.inj h).symm⟩

theorem collect_elem (h : collect f xs = .ok out) {x : α} (hx : x ∈ xs) : ∃ ys, f x = .ok ys ∧ ∀ y ∈ ys, y ∈ out := by
  induction xs generalizing out with
  | nil => cases hx
  | cons x' xs ih =>
    obtain ⟨ys, zs, hys, hzs, rfl⟩ := collect_cons_eq_ok h
    rcases mem_cons.mp hx with rfl | hx
    · exact ⟨ys, hys, fun y hy => mem_append_left _ hy⟩
    · obtain ⟨ys', hys', hsub⟩ := ih hzs hx
      exact ⟨ys', hys', fun y hy => mem_append_right _ (hsub y hy)⟩

theorem mem_collect (h : collect f xs = .ok out) {y : β} (hy : y ∈ out) : ∃ x ∈ xs, ∃ ys, f x = .ok ys ∧ y ∈ ys := by
  induction xs generalizing out with
  | nil =>
    cases h
    cases hy
  | cons x xs ih =>
    obtain ⟨ys, zs, hys, hzs, rfl⟩ := collect_cons_eq_ok h
    rcases mem_append.mp hy with hy | hy
    · exact ⟨x, mem_cons_self, ys, hys, hy⟩
    · obtain ⟨x', hx', ys', hys', hmem⟩ := ih hzs hy
      exact ⟨x', mem_cons_of_mem _ hx', ys', hys', hmem⟩

end Collect

/-! ### Updating -/

theorem foldlM_invariant {step : σ → α → Except ε σ} {P : List α → σ → Prop} {s s' : σ} {xs : List α}
    (h : xs.foldlM step s = .ok s') (hnil : P [] s)
    (hstep : ∀ seen x s s', x ∈ xs → P seen s → step s x = .ok s' → P (seen ++ [x]) s') : P xs s' := by
  suffices hgen : ∀ (rest seen : List α) (s : σ), (∀ x ∈ rest, x ∈ xs) → P seen s → rest.foldlM step s = .ok s' →
      P (seen ++ rest) s' from hgen xs [] s (fun _ => id) hnil h
  intro rest
  induction rest with
  | nil =>
    intro seen s _ hP hrun
    rw [append_nil]
    cases hrun
    exact hP
  | cons x rest ih =>
    intro seen s hmem hP hrun
    rw [foldlM_cons] at hrun
    obtain ⟨s₁, hs₁, hrun⟩ := bind_eq_ok.mp hrun
    have hx := hmem x mem_cons_self
    have := ih (seen ++ [x]) s₁ (fun y hy => hmem y (mem_cons_of_mem _ hy)) (hstep seen x s s₁ hx hP hs₁) hrun
    rwa [append_assoc, singleton_append] at this

end FallibleLoop
