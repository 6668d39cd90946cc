import Mathlib.Data.List.Induction
import Mathlib.Data.List.Sort

/-!
# Greedy choice

Elements come one after the other, and each is kept unless it conflicts with one kept before. What is kept is free of
conflicts, and what is not kept conflicts with something kept earlier. -/

namespace Greedy
open List

variable {α : Type} (conflict : α → α → Bool)

def step (kept : List α) (x : α) : List α := if kept.any (conflict x) then kept else kept ++ [x]

/-- The elements kept. -/
def greedy (xs : List α) : List α := xs.foldl (step conflict) []

theorem greedy_snoc (xs : List α) (x : α) : greedy conflict (xs ++ [x]) = step conflict (greedy conflict xs) x := by
  rw [greedy, foldl_append]
  rfl

variable {conflict}

theorem mem_greedy_append {xs : List α} {x : α} (h : x ∈ greedy conflict xs) (ys : List α) :
    x ∈ greedy conflict (xs ++ ys) := by
  induction ys using List.reverseRecOn with
  | nil => rwa [append_nil]
  | append_singleton ys y ih =>
    rw [← append_assoc, greedy_snoc, step]
    split_ifs
    · exact ih
    · exact mem_append_left _ ih

theorem greedy_subset (xs : List α) : ∀ x ∈ greedy conflict xs, x ∈ xs := by
  induction xs using List.reverseRecOn with
  | nil => exact fun x hx => hx
  | append_singleton xs y ih =>
    intro x hx
    rw [greedy_snoc, step] at hx
    split_ifs at hx
    · exact mem_append_left _ (ih x hx)
    · exact (mem_append.mp hx).elim (fun h => mem_append_left _ (ih x h)) (mem_append_right _)

theorem greedy_pairwise (xs : List α) : (greedy conflict xs).Pairwise fun a b => conflict b a = false := by
  induction xs using List.reverseRecOn with
  | nil => exact .nil
  | append_singleton xs y ih =>
    rw [greedy_snoc, step]
    split_ifs with hany
    · exact ih
    · refine pairwise_append.mpr ⟨ih, pairwise_singleton _ _, fun a ha b hb => ?_⟩
      rw [mem_singleton.mp hb]
      exact Bool.not_eq_true _ ▸ fun h => hany (any_eq_true.mpr ⟨a, ha, h⟩)

theorem blocked_of_notMem {xs ys : List α} {x : α} (h : x ∉ greedy conflict (xs ++ x :: ys)) :
    ∃ y ∈ greedy conflict xs, conflict x y := by
  have hstep : x ∉ greedy conflict (xs ++ [x]) := fun hx => h (by
    rw [append_cons]
    exact mem_greedy_append hx ys)
  rw [greedy_snoc, step] at hstep
  split_ifs at hstep with hany
  · exact any_eq_true.mp hany
  · exact absurd (mem_append_right _ (mem_singleton_self x)) hstep

theorem greedy_filter {p : α → Bool} (hp : ∀ x y, conflict x y → p x = p y) (xs : List α) :
    (greedy conflict xs).filter p = greedy conflict (xs.filter p) := by
  induction xs using List.reverseRecOn with
  | nil => rfl
  | append_singleton xs y ih =>
    rw [greedy_snoc, filter_append, step]
    cases hy : p y with
    | false =>
      rw [filter_cons_of_neg (by simp [hy]), filter_nil, append_nil, ← ih]
      split_ifs
      · rfl
      · rw [filter_append, filter_cons_of_neg (by simp [hy]), filter_nil, append_nil]
    | true =>
      have hany : (greedy conflict (xs.filter p)).any (conflict y) = (greedy conflict xs).any (conflict y) := by
        rw [← ih, any_filter]
        congr 1
        funext x
        cases hx : conflict y x with
        | false => rw [Bool.and_false]
        | true => rw [← hp y x hx, hy, Bool.true_and]
      rw [filter_cons_of_pos (by simp [hy]), filter_nil, greedy_snoc, step, hany]
      split_ifs
      · exact ih
      · rw [filter_append, filter_cons_of_pos (by simp [hy]), filter_nil, ih]

/-! ### Sorting by a rank -/

section Sorting

variable {β : Type} [LinearOrder β] (rank : α → β) {le : α → α → Prop} [DecidableRel le]
  (hle : ∀ a b, le a b ↔ rank a ≤ rank b)

include hle

theorem pairwise_insertionSort (l : List α) : (l.insertionSort le).Pairwise fun a b => rank a ≤ rank b := by
  have : Std.Total le := ⟨fun a b => by simpa only [hle] using le_total (rank a) (rank b)⟩
  have : IsTrans α le := ⟨fun a b c hab hbc => by
    rw [hle] at hab hbc ⊢
    exact hab.trans hbc⟩
  exact (List.pairwise_insertionSort le l).imp fun h => (hle _ _).mp h

theorem insertionSort_eq_of_perm {l l' : List α} (h : l.Perm l') (hinj : ∀ a ∈ l, ∀ b ∈ l, rank a = rank b → a = b) :
    l.insertionSort le = l'.insertionSort le := by
  refine @List.Perm.eq_of_pairwise _ (fun a b => rank a ≤ rank b) _ _ (fun a b ha hb hab hba => ?_)
    (pairwise_insertionSort rank hle l) (pairwise_insertionSort rank hle l')
    (((perm_insertionSort _ _).trans h).trans (perm_insertionSort _ _).symm)
  exact hinj a ((perm_insertionSort _ _).subset ha) b (h.symm.subset ((perm_insertionSort _ _).subset hb))
    (le_antisymm hab hba)

end Sorting

end Greedy
