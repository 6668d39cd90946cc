import Galactic.Lib.ByteWord
import Galactic.Net.IP

/-!
# Addresses as numbers

An address counts as the number of its bytes, the first one the most significant. Under a mask of length `n` the
number loses its remainder modulo the size of the network, so that a network is an interval of numbers. -/

namespace Galactic.Net
open IP ByteWord List

def IP.number (ip : IP) : Nat := value ip.reverse

theorem IP.number_lt (ip : IP) : ip.number < 256 ^ ip.length := by
  simpa [number] using value_lt ip.reverse

@[simp] theorem IP.number_nil : number [] = 0 := rfl

theorem IP.number_cons (b : UInt8) (ip : IP) : number (b :: ip) = 256 ^ ip.length * b.toNat + number ip := by
  unfold number
  rw [reverse_cons, value_append, length_reverse]
  simp [value]
  omega

theorem IP.number_inj {a b : IP} (hlen : a.length = b.length) (h : a.number = b.number) : a = b :=
  reverse_injective (value_inj (by simpa using hlen) h)

/-! ### Masks -/

theorem number_zeros (l : IP) : (maskWith l (maskBytes l.length 0)).number = 0 := by
  induction l with
  | nil => rfl
  | cons b l ih =>
    change number ((b &&& maskByte 0) :: maskWith l (maskBytes l.length 0)) = 0
    rw [number_cons, ih, maskByte_zero, UInt8.and_zero]
    rfl

theorem toNat_and_maskByte (b : UInt8) {n : Nat} (hn : n < 8) :
    (b &&& maskByte n).toNat = b.toNat / 2 ^ (8 - n) * 2 ^ (8 - n) := by
  have hall : ∀ n : Fin 8, ∀ b : Fin 256, ((UInt8.ofNat b) &&& maskByte n).toNat = b / 2 ^ (8 - n.val) * 2 ^
    (8 - n.val) := by
    decide +kernel
  have hb := hall ⟨n, hn⟩ ⟨b.toNat, b.toNat_lt⟩
  simpa using hb

theorem number_maskWith (ip : IP) {n : Nat} (hn : n ≤ 8 * ip.length) :
    (ip.maskWith (maskBytes ip.length n)).number = ip.number / 2 ^ (8 * ip.length - n) * 2 ^ (8 * ip.length - n) := by
  induction ip generalizing n with
  | nil =>
    obtain rfl : n = 0 := by simpa using hn
    rfl
  | cons b ip ih =>
    have hmasked : (maskWith ip (maskBytes ip.length (n - 8))).length = ip.length := by simp [maskWith]
    change number ((b &&& maskByte n) :: maskWith ip (maskBytes ip.length (n - 8))) = _
    rw [number_cons, number_cons, hmasked, length_cons]
    by_cases hfull : 8 ≤ n
    · -- the whole byte is kept, and the rest is cut as a shorter address
      rw [length_cons] at hn
      rw [maskByte_full hfull, show b &&& 255 = b from UInt8.and_neg_one, ih (by omega),
        show 8 * ip.length - (n - 8) = 8 * (ip.length + 1) - n by omega]
      obtain ⟨k, hk⟩ : ∃ k, 8 * ip.length = 8 * (ip.length + 1) - n + k := ⟨n - 8, by omega⟩
      rw [show (256 : Nat) ^ ip.length = 2 ^ (8 * (ip.length + 1) - n) * 2 ^ k by
        rw [← pow_add, ← hk, pow_mul]; norm_num, mul_assoc, Nat.mul_add_div (by positivity), Nat.add_mul,
          Nat.mul_comm (2 ^ _) (2 ^ k * _)]
    · -- the byte is cut, and nothing of the rest is left
      rw [show n - 8 = 0 by omega, number_zeros, toNat_and_maskByte b (by omega),
        show 8 * (ip.length + 1) - n = 8 * ip.length + (8 - n) by omega, pow_add, pow_mul,
        show (2 : Nat) ^ 8 = 256 by norm_num, ← Nat.div_div_eq_div_mul, Nat.mul_add_div (by positivity),
        Nat.div_eq_of_lt (number_lt ip), Nat.add_zero, Nat.add_zero, Nat.mul_left_comm]

end Galactic.Net
