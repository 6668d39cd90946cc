import Galactic.Net.Addr
import Galactic.Net.Number
import Mathlib.Data.String.Basic

/-!
# IPv6 prefixes as ranges of numbers

Among IPv6 addresses a prefix of length `n` is the set of those whose number has the same quotient by `2 ^ (128 - n)`.
Prefixes of one length are equal or disjoint, and a longer one lies inside a shorter one when the quotients agree. -/

namespace Galactic.Net
open Addr

/-- `Addr.Prefix` of two addresses gives the same address: they agree under the mask of length `n`. -/
def Addr.agree (a b : Addr) (n : Nat) : Bool :=
  IP.maskWith a.bytes (maskBytes a.bytes.length n) = IP.maskWith b.bytes (maskBytes b.bytes.length n)

def Prefix.overlaps (p o : Prefix) : Bool :=
  match p.bits?, o.bits? with
  | some n, some m => p = o ∨ p.addr.is4 = o.addr.is4 ∧ (min n m = 0 ∨ p.addr.agree o.addr (min n m))
  | _, _ => false

def Addr.number (a : Addr) : Nat := IP.number a.bytes

def Addr.compare (a b : Addr) : Ordering :=
  (Ord.compare a.bitLen b.bitLen).then ((Ord.compare a.number b.number).then (Ord.compare a.zone b.zone))

/-- Where an address stands in the order of `Addr.Compare`. -/
def Addr.rank (a : Addr) : ℕ ×ₗ ℕ ×ₗ String := toLex (a.bitLen, toLex (a.number, a.zone))

theorem Addr.compare_eq (a b : Addr) : a.compare b = Ord.compare a.rank b.rank := by
  unfold compare rank
  rw [Prod.Lex.compare_def, compareLex, compareOn, compareOn, Prod.Lex.compare_def]
  rfl

theorem Addr.rank_injective : Function.Injective rank := by
  intro a b h
  have hlen : a.bitLen = b.bitLen := congrArg (fun r => (ofLex r).1) h
  have hnum : a.number = b.number := congrArg (fun r => (ofLex (ofLex r).2).1) h
  have hzone : a.zone = b.zone := congrArg (fun r => (ofLex (ofLex r).2).2) h
  have hbytes : a.bytes = b.bytes := IP.number_inj (by have := a.bytes_length; have := b.bytes_length; omega) hnum
  rcases a with _ | a | ⟨a, z⟩ <;> rcases b with _ | b | ⟨b, y⟩ <;> simp [bitLen] at hlen
  · rfl
  · exact congrArg v4 (List.Vector.toList_injective hbytes)
  · obtain rfl : z = y := hzone
    exact congrArg (v6 · z) (List.Vector.toList_injective hbytes)

section
variable {n : Nat} {a : Addr} {p o : Prefix}

theorem maskWith_eq_iff {a b : IP} (hlen : a.length = b.length) (hn : n ≤ 8 * a.length) :
    a.maskWith (maskBytes a.length n) = b.maskWith (maskBytes b.length n) ↔
      a.number / 2 ^ (8 * a.length - n) = b.number / 2 ^ (8 * a.length - n) := by
  have hpos : 0 < 2 ^ (8 * a.length - n) := by positivity
  constructor
  · intro h
    have hnum := congrArg IP.number h
    rw [number_maskWith a hn, number_maskWith b (by omega), ← hlen] at hnum
    exact Nat.eq_of_mul_eq_mul_right hpos hnum
  · intro h
    refine IP.number_inj (by simp [IP.maskWith, hlen]) ?_
    rw [number_maskWith a hn, number_maskWith b (by omega), ← hlen, h]

theorem Prefix.contains_iff (hbits : p.bits? = some n) (h6 : p.addr.is6) :
    p.contains a ↔ a.zone = "" ∧ a.is6 ∧ a.number / 2 ^ (128 - n) = p.addr.number / 2 ^ (128 - n) := by
  obtain ⟨hne, hle⟩ := p.bits_le n hbits
  rcases hp : p.addr with _ | b | ⟨b, z⟩
  · exact absurd hp hne
  · rw [hp] at h6
    exact nomatch h6
  rw [hp] at hle
  rw [Prefix.contains, hbits, hp]
  simp only [decide_eq_true_eq]
  refine and_congr_right fun _ => ?_
  cases a with
  | zero => simp [bitLen, is6]
  | v4 c => simp [bitLen, is6]
  | v6 c y =>
    refine and_congr (by simp [bitLen, is6]) ?_
    have hc : (v6 c y).bytes.length = 16 := c.2
    have hb : (v6 b z).bytes.length = 16 := b.2
    have hmask := maskWith_eq_iff (a := (v6 c y).bytes) (b := (v6 b z).bytes) (hc.trans hb.symm) (n := n)
      (by rw [hc]; exact hle)
    rw [hc, hb] at hmask
    rw [hc]
    exact hmask

theorem Prefix.disjoint_of_number (hp : p.bits? = some n) (ho : o.bits? = some n) (hp6 : p.addr.is6) (ho6 : o.addr.is6)
    (hne : p.addr.number / 2 ^ (128 - n) ≠ o.addr.number / 2 ^ (128 - n)) (a : Addr) :
    ¬ (p.contains a ∧ o.contains a) := by
  rw [contains_iff hp hp6, contains_iff ho ho6]
  rintro ⟨⟨-, -, hap⟩, -, -, hao⟩
  exact hne (hap.symm.trans hao)

theorem Prefix.inside_of_number {n m : Nat} (hp : p.bits? = some n) (ho : o.bits? = some m) (hp6 : p.addr.is6)
    (ho6 : o.addr.is6) (hmn : m ≤ n) (heq : p.addr.number / 2 ^ (128 - m) = o.addr.number / 2 ^ (128 - m))
    (ha : p.contains a) : o.contains a := by
  rw [contains_iff hp hp6] at ha
  rw [contains_iff ho ho6]
  refine ⟨ha.1, ha.2.1, ?_⟩
  obtain ⟨k, hk⟩ : ∃ k, 128 - m = 128 - n + k := ⟨(128 - m) - (128 - n), by omega⟩
  rw [hk, pow_add] at heq ⊢
  rw [← Nat.div_div_eq_div_mul, ha.2.2, Nat.div_div_eq_div_mul, heq]

theorem Prefix.number_of_masked (hbits : p.bits? = some n) (h6 : p.addr.is6) (hmasked : p = p.masked) :
    2 ^ (128 - n) ∣ p.addr.number := by
  obtain ⟨-, hle⟩ := p.bits_le n hbits
  rcases hp : p.addr with _ | b | ⟨b, z⟩
  · rw [hp] at h6
    exact nomatch h6
  · rw [hp] at h6
    exact nomatch h6
  rw [hp] at hle
  have hb : b.toList.length = 16 := b.2
  have haddr := congrArg Prefix.addr hmasked
  rw [Prefix.masked, hbits, hp] at haddr
  have hnum := congrArg number haddr
  change IP.number b.toList = IP.number (IP.maskWith b.toList (maskBytes 16 n)) at hnum
  have hcut := number_maskWith b.toList (n := n) (by rw [hb]; exact hle)
  rw [hb] at hcut
  change 2 ^ (128 - n) ∣ IP.number b.toList
  rw [hnum, hcut]
  exact Dvd.intro_left _ rfl

end

end Galactic.Net
