import Mathlib.Data.List.Basic

/-!
# First-match walks

A walk down a list that stops at the first element with an outcome is `List.findSome?`. Expanding every
element into several, of which some have the element's own outcome and the others none, leaves the walk's
outcome as it is. -/

namespace FirstMatch
open List
variable {α β γ : Type*}

theorem findSome?_flatMap (f : β → Option γ) (expand : α → List β) (l : List α) :
    (l.flatMap expand).findSome? f = l.findSome? fun a => (expand a).findSome? f := by
  induction l with
  | nil => rfl
  | cons a l ih => rw [flatMap_cons, findSome?_append, ih, findSome?_cons]; cases (expand a).findSome? f <;> rfl

variable {f g : α → Option γ} {l : List α}

theorem findSome?_congr (h : ∀ a ∈ l, f a = g a) : l.findSome? f = l.findSome? g := by
  induction l with
  | nil => rfl
  | cons a l ih =>
    rw [findSome?_cons, findSome?_cons, h a (by simp), ih fun b hb => h b (by simp [hb])]

/-- Two walks that part only where the first one stops with a `bad` outcome. -/
theorem findSome?_agree {B : γ → Prop} (h : ∀ a ∈ l, f a = g a ∨ ∃ c, f a = some c ∧ B c) :
    l.findSome? f = l.findSome? g ∨ ∃ c, l.findSome? f = some c ∧ B c := by
  induction l with
  | nil => exact .inl rfl
  | cons a l ih =>
    rw [findSome?_cons, findSome?_cons]
    rcases h a (by simp) with heq | ⟨c, hc, hbad⟩
    · rw [heq]
      cases g a with
      | none => exact ih fun b hb => h b (by simp [hb])
      | some _ => exact .inl rfl
    · exact .inr ⟨c, by rw [hc], hbad⟩

theorem findSome?_uniform {f : β → Option γ} {l : List β} {out : Option γ} {hit : β → Prop} [DecidablePred hit]
    (h : ∀ b ∈ l, f b = if hit b then out else none) [Decidable (∃ b ∈ l, hit b)] :
    l.findSome? f = if ∃ b ∈ l, hit b then out else none := by
  rename_i hdec
  revert hdec
  induction l with
  | nil => simp
  | cons a l ih =>
    classical
    rw [findSome?_cons, h a mem_cons_self, ih fun b hb => h b (mem_cons_of_mem a hb)]
    by_cases hhit : hit a <;> cases out <;> simp [hhit]

theorem findSome?_range {f : Nat → Option α} {n : Nat} {b : α} (h : (List.range n).findSome? f = some b) :
    ∃ i < n, f i = some b ∧ ∀ j < i, f j = none := by
  rw [range_eq_range'] at h
  obtain ⟨before, i, after, hsplit, hfound, hbefore⟩ := findSome?_eq_some_iff.mp h
  obtain ⟨k, hk, rfl, htail⟩ := range'_eq_append_iff.mp hsplit
  obtain ⟨rfl, hpos, -⟩ := range'_eq_cons_iff.mp htail.symm
  exact ⟨0 + k * 1, by omega, hfound, fun j hj => hbefore j (by simpa using hj)⟩

end FirstMatch
