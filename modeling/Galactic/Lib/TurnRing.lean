import Mathlib.Data.List.Rotate

/-!
# Rings served in turn

A ring is a list with a cursor, and its members are served in the order of the list rotated to the cursor. The lemmas
say how who comes before a given member changes when a member is served, leaves, or joins at the end of the list. -/

namespace TurnRing
open List

variable {α : Type}

section Ahead
variable [DecidableEq α] {q p : α} {l a : List α}

/-- The members before `q`. -/
def ahead (q : α) (l : List α) : List α := l.takeWhile (· ≠ q)

theorem ahead_cons_self (q : α) (l : List α) : ahead q (q :: l) = [] := by
  unfold ahead
  simp

theorem ahead_cons_of_ne (h : p ≠ q) (l : List α) : ahead q (p :: l) = p :: ahead q l := by
  unfold ahead
  simp [h]

theorem ahead_subset (q : α) (l : List α) : ahead q l ⊆ l := (takeWhile_sublist _).subset

theorem ahead_append_of_mem (h : q ∈ a) (b : List α) : ahead q (a ++ b) = ahead q a := by
  induction a with
  | nil => simp at h
  | cons x a ih =>
    by_cases hx : x = q
    · rw [hx, cons_append, ahead_cons_self, ahead_cons_self]
    · rw [cons_append, ahead_cons_of_ne hx, ahead_cons_of_ne hx, ih (mem_of_ne_of_mem (Ne.symm hx) h)]

theorem ahead_append_of_not_mem (h : q ∉ a) (b : List α) : ahead q (a ++ b) = a ++ ahead q b := by
  induction a with
  | nil => rfl
  | cons x a ih =>
    have hx : x ≠ q := fun heq => h (heq ▸ mem_cons_self)
    rw [cons_append, ahead_cons_of_ne hx, ih fun hmem => h (mem_cons_of_mem _ hmem), cons_append]

theorem ahead_erase_subset (h : p ≠ q) (l : List α) : ahead q (l.erase p) ⊆ ahead q l := by
  induction l with
  | nil => exact fun _ hx => hx
  | cons x l ih =>
    by_cases hx : x = p
    · rw [hx, erase_cons_head, ahead_cons_of_ne h]
      exact subset_cons_self _ _
    rw [erase_cons_tail (by simpa using hx)]
    by_cases hq : x = q
    · rw [hq, ahead_cons_self]
      exact nil_subset _
    · rw [ahead_cons_of_ne hq, ahead_cons_of_ne hq]
      exact cons_subset_cons _ ih

theorem ahead_drop_subset (hl : l.Nodup) {i : Nat} (hq : q ∈ l.drop i) : ahead q (l.drop i) ⊆ ahead q l := by
  have hnot : q ∉ l.take i := fun hmem =>
    (nodup_append'.mp ((take_append_drop i l).symm ▸ hl)).2.2 hmem hq
  have hsplit : ahead q l = l.take i ++ ahead q (l.drop i) := by
    rw [← ahead_append_of_not_mem hnot, take_append_drop]
  rw [hsplit]
  exact subset_append_right _ _

end Ahead

/-! ### The cursor -/

variable {i : Nat}

theorem rotate_served (ring : List α) (next : Nat) (hi : i < ring.length) : ring.rotate ((next + i) % ring.length + 1) =
      (ring.rotate next).drop (i + 1) ++ (ring.rotate next).take (i + 1) := by
  have hlen : i + 1 ≤ (ring.rotate next).length := by
    rw [length_rotate]
    omega
  calc ring.rotate ((next + i) % ring.length + 1)
      = (ring.rotate ((next + i) % ring.length)).rotate 1 := (rotate_rotate _ _ _).symm
    _ = (ring.rotate next).rotate (i + 1) := by
        rw [rotate_mod, rotate_rotate, rotate_rotate, Nat.add_assoc]
    _ = _ := rotate_eq_drop_append_take hlen

theorem rotate_eraseIdx (ring : List α) (hi : i < ring.length) :
    (ring.eraseIdx i).rotate i ++ [ring[i]] = ring.rotate (i + 1) := by
  have herase := rotate_append_length_eq (ring.take i) (ring.drop (i + 1))
  rw [length_take_of_le hi.le] at herase
  rw [eraseIdx_eq_take_drop_succ, herase, rotate_eq_drop_append_take hi, take_succ_eq_append_getElem hi, append_assoc]

variable {next : Nat} {ring : List α}

theorem rotate_concat (hnext : next ≤ ring.length) (p : α) :
    (ring ++ [p]).rotate next = ring.drop next ++ p :: ring.take next := by
  rw [rotate_eq_drop_append_take (by simp; omega), drop_append_of_le_length hnext, take_append_of_le_length hnext,
    append_assoc, singleton_append]

theorem rotate_erase [DecidableEq α] {p : α} (hnodup : ring.Nodup) (hnext : next ≤ ring.length) (hp : p ∈ ring) :
    (ring.erase p).rotate (if ring.idxOf p < next then next - 1 else next) = (ring.rotate next).erase p := by
  obtain ⟨a, b, rfl⟩ := append_of_mem hp
  have ha : p ∉ a := fun hmem => (nodup_append'.mp hnodup).2.2 hmem mem_cons_self
  have hb : p ∉ b := (nodup_cons.mp (nodup_append'.mp hnodup).2.1).1
  have hidx : (a ++ p :: b).idxOf p = a.length := by
    rw [idxOf_append_of_notMem ha, idxOf_cons_self, Nat.add_zero]
  rw [hidx, erase_append_right _ ha, erase_cons_head, rotate_eq_drop_append_take hnext]
  have hlen : (a ++ p :: b).length = a.length + b.length + 1 := by
    rw [length_append, length_cons]
    omega
  by_cases hlt : a.length < next
  · -- the cursor is after it, and moves back
    obtain ⟨k, rfl⟩ : ∃ k, next = a.length + (k + 1) := ⟨next - a.length - 1, by omega⟩
    have hk : a.length + k ≤ (a ++ b).length := by
      rw [length_append]
      omega
    rw [if_pos hlt, show a.length + (k + 1) - 1 = a.length + k by omega, rotate_eq_drop_append_take hk,
      drop_length_add_append, take_length_add_append, drop_length_add_append, take_length_add_append,
      drop_succ_cons, take_succ_cons, erase_append_right _ fun hmem => hb (mem_of_mem_drop hmem),
      erase_append_right _ ha, erase_cons_head]
  · have hle : next ≤ a.length := by omega
    have hk : next ≤ (a ++ b).length := by
      rw [length_append]
      omega
    rw [if_neg hlt, rotate_eq_drop_append_take hk, drop_append_of_le_length hle, take_append_of_le_length hle,
      drop_append_of_le_length hle, take_append_of_le_length hle, append_assoc, append_assoc,
      erase_append_right _ fun hmem => ha (mem_of_mem_drop hmem), cons_append, erase_cons_head]

end TurnRing
