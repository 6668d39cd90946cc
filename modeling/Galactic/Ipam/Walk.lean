import Galactic.Ipam.Pool

/-!
# The walk over a pool

`Allocate` tries the addresses that `incSubnet` gives one after the other. With subnets of length 96 the boundary byte
is byte 12, the first one behind the prefix, so that each step adds `2 ^ 24` to the address and not the size of a
subnet, `2 ^ 32`. -/

namespace Galactic.Ipam
open List Net IPNet

/-! ### Subnets of length 96 -/

def mask96 : IPMask := cidrMask 96 128

variable {ip : IP}

theorem maskWith_mask96 (hlen : ip.length = 16) : ip.maskWith mask96 = ip.take 12 ++ [0, 0, 0, 0] := by
  refine IP.ext_getD (by simp [IP.maskWith, mask96, hlen]) (by simp [hlen]) fun i hi => ?_
  rw [IP.getD_maskWith, mask96, getD_cidrMask 96 i (by omega) hi]
  by_cases hfront : i < 12
  · rw [maskByte_full (by omega), getD_append _ _ _ _ (by simp [hlen, hfront])]
    simp [getD_eq_getElem?_getD, hfront, show (255 : UInt8) = -1 from rfl]
  have htail : (ip.take 12 ++ [0, 0, 0, 0]).getD i 0 = 0 := by
    rw [getD_append_right _ _ _ _ (by simp [hlen]; omega)]
    have hall : ∀ j : Fin 4, ([0, 0, 0, 0] : List UInt8).getD j 0 = 0 := by decide
    simpa [hlen] using hall ⟨i - 12, by omega⟩
  rw [htail, show 96 - 8 * i = 0 by omega, show maskByte 0 = 0 by decide, UInt8.and_zero]

variable {start : IP}

theorem contains_mask96 {x : IP} (hstart : start.length = 16) (h4 : start.to4 = none) (hx : x.length = 16) :
    (mk start mask96).contains x ↔ x.to4 = none ∧ x.take 12 = start.take 12 := by
  have hnn : (mk start mask96).networkNumberAndMask = some (start, mask96) := by
    have hmask : mask96.length = 16 := by decide
    simp [IPNet.networkNumberAndMask, h4, hstart, hmask, ipv6Len]
  rw [IPNet.contains, hnn]
  simp only [Bool.decide_and, Bool.and_eq_true, decide_eq_true_eq]
  cases hx4 : x.to4 with
  | none =>
    rw [Option.getD_none, maskWith_mask96 hstart, maskWith_mask96 hx, hstart, hx]
    simp [eq_comm]
  | some ip4 => simp [hstart, IP.length_to4 hx4]

/-! ### Texts -/

theorem string_mask96 (hstart : start.length = 16) (h4 : start.to4 = none) :
    (mk start mask96).string = string6 start ++ "/96".toList := by
  have hmask : mask96.length = 16 := by decide
  have hlen : simpleMaskLength mask96 = some 96 := by decide
  have htext : start.string = string6 start := by simp [IP.string, h4, hstart, ipv4Len, ipv6Len]
  rw [string, networkNumberAndMask, h4]
  simp only [hstart, hmask, ipv6Len, and_self, if_true, hlen, htext]
  rfl

theorem string_mask96_mapped (hstart : start.length = 16) (h4 : start.take 12 = v4InV6Prefix) :
    (mk start mask96).string = string4 (start.drop 12) ++ "/0".toList := by
  have hto4 : start.to4 = some (start.drop 12) := by simp [IP.to4, hstart, h4, ipv4Len, ipv6Len]
  have hnn : (mk start mask96).networkNumberAndMask = some (start.drop 12, mask96.drop 12) := by
    have hmask : mask96.length = 16 := by decide
    simp [networkNumberAndMask, hto4, hmask, ipv4Len, ipv6Len]
  have htext : IP.string (start.drop 12) = string4 (start.drop 12) := by
    have hdrop : (start.drop 12).length = 4 := by simp [hstart]
    simp [IP.string, IP.to4, hdrop, ipv4Len]
  rw [string, hnn]
  dsimp only
  rw [show simpleMaskLength (mask96.drop 12) = some 0 by decide, htext]
  rfl

variable {a b : List UInt8}

theorem string6_inj (ha : a.length = 16) (hb : b.length = 16) (h : string6 a = string6 b) : a = b := by
  have hparse := parse6_string6 a ha
  rw [h, parse6_string6 b hb] at hparse
  exact (Option.some.inj hparse).symm

theorem string4_inj (ha : a.length = 4) (hb : b.length = 4) (h : string4 a = string4 b) : a = b := by
  have hparse := parseAddr_string4 ⟨a, ha⟩
  have hparse' := parseAddr_string4 ⟨b, hb⟩
  rw [List.Vector.toList_mk] at hparse hparse'
  rw [h, hparse'] at hparse
  exact (congrArg List.Vector.toList (Net.Addr.v4.inj (Option.some.inj hparse))).symm

theorem text_cases {a : IP} (ha : a.length = 16) :
    (a.to4 = none ∧ (mk a mask96).string = string6 a ++ "/96".toList) ∨
      (a.take 12 = v4InV6Prefix ∧ (mk a mask96).string = string4 (a.drop 12) ++ "/0".toList) := by
  by_cases h4 : a.take 12 = v4InV6Prefix
  · exact Or.inr ⟨h4, string_mask96_mapped ha h4⟩
  · have hnone := (IP.to4_eq_none_iff ha).mpr h4
    exact Or.inl ⟨hnone, string_mask96 ha hnone⟩

theorem text_kinds_ne (s t : List Char) : s ++ "/96".toList ≠ t ++ "/0".toList := by
  intro h
  have hlast := congrArg getLast? h
  simp at hlast

theorem string_mask96_inj {a b : IP} (ha : a.length = 16) (hb : b.length = 16)
    (h : (mk a mask96).string = (mk b mask96).string) : a = b := by
  rcases text_cases ha with ⟨-, hta⟩ | ⟨h4a, hta⟩
  · rcases text_cases hb with ⟨-, htb⟩ | ⟨-, htb⟩
    · rw [hta, htb] at h
      exact string6_inj ha hb (append_cancel_right h)
    · rw [hta, htb] at h
      exact absurd h (text_kinds_ne _ _)
  rcases text_cases hb with ⟨-, htb⟩ | ⟨h4b, htb⟩
  · rw [hta, htb] at h
    exact absurd h.symm (text_kinds_ne _ _)
  · rw [hta, htb] at h
    have htail := string4_inj (by simp [ha]) (by simp [hb]) (append_cancel_right h)
    rw [← take_append_drop 12 a, ← take_append_drop 12 b, h4a, h4b, htail]

/-! ### Steps -/

theorem incSubnet_96 (hlen : ip.length = 16) :
    incSubnet ip 96 = (ByteWord.inc (ip.take 13).reverse).reverse ++ [0, 0, 0] := by
  simp [incSubnet, hlen]

theorem length_incSubnet (hlen : ip.length = 16) : (incSubnet ip 96).length = 16 := by
  rw [incSubnet_96 hlen]
  simp [hlen]

end Galactic.Ipam
