import Mathlib.Tactic

/-!
# End-around carry

One's-complement addition at a width of `w` bits: add, and fold the carry back in until none is left.
The sum is kept modulo `2 ^ w - 1`, but zero has two words there, `0` and `2 ^ w - 1`, so adding a word
and then its complement gives the first operand back only if that operand is neither of them. -/

namespace EndAround
open Nat

/-- One turn of the loop: the carry is added to the low word. -/
def foldOnce (w s : Nat) : Nat := s % 2 ^ w + s / 2 ^ w

/-- The loop, for at most `n` turns. -/
def fold (w : Nat) : Nat → Nat → Nat
  | 0, s => s
  | n + 1, s => if s / 2 ^ w = 0 then s else fold w n (foldOnce w s)

/-- One's-complement addition of two words. Two turns are enough for the sum of two. -/
def add (w a b : Nat) : Nat := fold w 2 (a + b)

def complement (w a : Nat) : Nat := 2 ^ w - 1 - a

/-! ### The loop keeps the residue and the sign -/

theorem foldOnce_modEq (w s : Nat) : foldOnce w s ≡ s [MOD 2 ^ w - 1] := by
  have hpow : 1 ≤ 2 ^ w := Nat.one_le_two_pow
  have hone : 2 ^ w ≡ 1 [MOD 2 ^ w - 1] := by
    conv_lhs => rw [← Nat.sub_add_cancel hpow]
    simp [Nat.ModEq]
  calc foldOnce w s = s % 2 ^ w + 1 * (s / 2 ^ w) := by rw [foldOnce, one_mul]
    _ ≡ s % 2 ^ w + 2 ^ w * (s / 2 ^ w) [MOD 2 ^ w - 1] := (hone.symm.mul_right _).add_left _
    _ = s := mod_add_div s (2 ^ w)

variable {w s : Nat}

theorem foldOnce_pos (hs : 0 < s) : 0 < foldOnce w s := by
  rw [Nat.pos_iff_ne_zero, foldOnce, Ne, Nat.add_eq_zero_iff]
  rintro ⟨hmod, hdiv⟩
  have hparts := mod_add_div s (2 ^ w)
  rw [hmod, hdiv] at hparts
  omega

theorem fold_modEq (w n s : Nat) : fold w n s ≡ s [MOD 2 ^ w - 1] := by
  induction n generalizing s with
  | zero => rfl
  | succ n ih =>
    rw [fold]
    split_ifs
    · rfl
    · exact (ih _).trans (foldOnce_modEq w s)

variable {n : Nat}

theorem fold_pos (hs : 0 < s) : 0 < fold w n s := by
  induction n generalizing s with
  | zero => exact hs
  | succ n ih =>
    rw [fold]
    split_ifs
    · exact hs
    · exact ih (foldOnce_pos hs)

theorem fold_of_lt (hs : s < 2 ^ w) : fold w n s = s := by
  cases n with
  | zero => rfl
  | succ n => rw [fold, if_pos (div_eq_of_lt hs)]

theorem fold_two_lt (hs : s < 2 ^ w * 2 ^ w) : fold w 2 s < 2 ^ w := by
  have hpow : 0 < 2 ^ w := Nat.two_pow_pos w
  have hmod : ∀ x, x % 2 ^ w < 2 ^ w := fun x => Nat.mod_lt x hpow
  have hdiv : s / 2 ^ w < 2 ^ w := Nat.div_lt_of_lt_mul hs
  have hfirst : foldOnce w s ≤ 2 ^ w - 1 + (2 ^ w - 1) := by
    have := hmod s
    rw [foldOnce]
    omega
  rw [fold]
  split_ifs with h0
  · exact (div_eq_zero_iff_lt hpow).mp h0
  rw [fold]
  split_ifs with h1
  · exact (div_eq_zero_iff_lt hpow).mp h1
  -- the second carry is one, and the low word then leaves room for it
  have hparts := mod_add_div (foldOnce w s) (2 ^ w)
  have hcarry : foldOnce w s / 2 ^ w = 1 := by
    have : foldOnce w s / 2 ^ w < 2 := Nat.div_lt_of_lt_mul (by omega)
    exact Nat.le_antisymm (Nat.le_of_lt_succ this) (Nat.pos_of_ne_zero h1)
  rw [hcarry, mul_one] at hparts
  change foldOnce w s % 2 ^ w + foldOnce w s / 2 ^ w < 2 ^ w
  rw [hcarry]
  generalize foldOnce w s % 2 ^ w = low at hparts
  omega

/-! ### Addition -/

variable {a b : Nat}

theorem add_lt (ha : a < 2 ^ w) (hb : b < 2 ^ w) : add w a b < 2 ^ w := by
  rcases Nat.eq_zero_or_pos w with rfl | hw
  · have : a = 0 ∧ b = 0 := by simp at ha hb; omega
    simp [add, fold, this]
  refine fold_two_lt ?_
  have htwo : 2 ≤ 2 ^ w := by
    calc 2 = 2 ^ 1 := rfl
      _ ≤ 2 ^ w := Nat.pow_le_pow_right (by omega) hw
  calc a + b < 2 * 2 ^ w := by omega
    _ ≤ 2 ^ w * 2 ^ w := mul_le_mul_right _ htwo

theorem add_modEq (w a b : Nat) : add w a b ≡ a + b [MOD 2 ^ w - 1] := fold_modEq w 2 (a + b)

theorem add_pos (h : 0 < a + b) : 0 < add w a b := fold_pos h

theorem complement_lt (w a : Nat) : complement w a < 2 ^ w := by
  have : 0 < 2 ^ w := Nat.two_pow_pos w
  rw [complement]
  omega

variable {k : Nat}

theorem add_complement_zero (hk : k < 2 ^ w) : add w (add w 0 k) (complement w k) = 2 ^ w - 1 := by
  have hsum : k + complement w k = 2 ^ w - 1 := by rw [complement]; omega
  have hlast : 2 ^ w - 1 < 2 ^ w := by omega
  rw [add, add, zero_add, fold_of_lt hk, hsum, fold_of_lt hlast]

theorem add_complement_cancel (ha : 0 < a) (ha' : a < 2 ^ w - 1) (hk : k < 2 ^ w) :
    add w (add w a k) (complement w k) = a := by
  have hpos : 0 < add w (add w a k) (complement w k) := add_pos (Nat.add_pos_left (add_pos (by omega)) _)
  have hlt : add w (add w a k) (complement w k) < 2 ^ w := add_lt (add_lt (by omega) hk) (complement_lt w k)
  have hmod : add w (add w a k) (complement w k) ≡ a [MOD 2 ^ w - 1] :=
    calc add w (add w a k) (complement w k) ≡ add w a k + complement w k [MOD 2 ^ w - 1] := add_modEq _ _ _
      _ ≡ a + k + complement w k [MOD 2 ^ w - 1] := (add_modEq w a k).add_right _
      _ = a + (2 ^ w - 1) := by rw [complement]; omega
      _ ≡ a [MOD 2 ^ w - 1] := by simp [Nat.ModEq]
  rw [Nat.ModEq, mod_eq_of_lt ha'] at hmod
  -- the residue decides the word, for the last word has residue zero
  rcases lt_or_ge (add w (add w a k) (complement w k)) (2 ^ w - 1) with h | h
  · rwa [mod_eq_of_lt h] at hmod
  · have heq : add w (add w a k) (complement w k) = 2 ^ w - 1 := by omega
    rw [heq, mod_self] at hmod
    omega

end EndAround
