import Mathlib.Tactic

/-!
# IP addresses and networks as byte slices

The part of Go's package `net` that the control plane computes with: an address is a slice of 4 or 16 bytes, a mask one
of the same length, a network a pair of both. An IPv4 address has two spellings, 4 bytes or 16 bytes behind the
`::ffff:0:0/96` prefix, and `to4` and `to16` move between them. -/

namespace Galactic.Net
open List

/-- `net.IP`: 4 or 16 bytes when it is an address. -/
abbrev IP := List UInt8

abbrev IPMask := List UInt8

structure IPNet where
  ip : IP
  mask : IPMask
deriving DecidableEq, Repr

def ipv4Len : Nat := 4
def ipv6Len : Nat := 16

/-- The leading 12 bytes of an IPv4 address in its 16-byte form. -/
def v4InV6Prefix : List UInt8 := [0, 0, 0, 0, 0, 0, 0, 0, 0, 0, 0xff, 0xff]

def IP.to4 (ip : IP) : Option IP :=
  if ip.length = ipv4Len then some ip
  else if ip.length = ipv6Len ∧ ip.take 12 = v4InV6Prefix then some (ip.drop 12)
  else none

def IP.to16 (ip : IP) : Option IP :=
  if ip.length = ipv4Len then some (v4InV6Prefix ++ ip)
  else if ip.length = ipv6Len then some ip
  else none

/-! ### Masks -/

/-- The byte that starts with `n` one bits. -/
def maskByte (n : Nat) : UInt8 := if 8 ≤ n then 0xff else ~~~((0xff : UInt8) >>> n.toUInt8)

/-- The loop of `net.CIDRMask`: `l` bytes, the first `n` bits set. -/
def maskBytes : Nat → Nat → IPMask
  | 0, _ => []
  | l + 1, n => maskByte n :: maskBytes l (n - 8)

/-- `net.CIDRMask`; an impossible length is the nil mask. -/
def cidrMask (ones bits : Nat) : IPMask :=
  if bits ≠ 8 * ipv4Len ∧ bits ≠ 8 * ipv6Len then []
  else if bits < ones then []
  else maskBytes (bits / 8) ones

def shiftOnes : Nat → UInt8 → Nat × UInt8
  | 0, v => (0, v)
  | fuel + 1, v =>
    if v &&& 0x80 ≠ 0 then ((shiftOnes fuel (v <<< 1)).1 + 1, (shiftOnes fuel (v <<< 1)).2) else (0, v)

/-- `simpleMaskLength`: the number of leading ones, `none` when a one follows a zero. -/
def simpleMaskLength : IPMask → Option Nat
  | [] => some 0
  | v :: rest =>
    if v = 0xff then (simpleMaskLength rest).map (· + 8)
    else if (shiftOnes 8 v).2 = 0 ∧ rest.all (· == 0) then some (shiftOnes 8 v).1
    else none

def maskSize (m : IPMask) : Nat × Nat :=
  match simpleMaskLength m with
  | none => (0, 0)
  | some ones => (ones, m.length * 8)

@[simp] theorem length_maskBytes (l n : Nat) : (maskBytes l n).length = l := by
  induction l generalizing n with
  | zero => rfl
  | succ l ih => simp [maskBytes, ih]

theorem getD_maskBytes (l n i : Nat) (hi : i < l) : (maskBytes l n).getD i 0 = maskByte (n - 8 * i) := by
  induction l generalizing n i with
  | zero => omega
  | succ l ih =>
    cases i with
    | zero => simp [maskBytes]
    | succ i =>
      rw [maskBytes, getD_cons_succ, ih _ _ (by omega)]
      congr 1
      omega

theorem cidrMask_128 (n : Nat) (hn : n ≤ 128) : cidrMask n 128 = maskBytes 16 n := by
  simp [cidrMask, ipv4Len, ipv6Len, Nat.not_lt.mpr hn]

@[simp] theorem length_cidrMask_128 (n : Nat) (hn : n ≤ 128) : (cidrMask n 128).length = 16 := by
  rw [cidrMask_128 n hn, length_maskBytes]

theorem cidrMask_32 (n : Nat) (hn : n ≤ 32) : cidrMask n 32 = maskBytes 4 n := by
  simp [cidrMask, ipv4Len, ipv6Len, Nat.not_lt.mpr hn]

theorem getD_cidrMask (n i : Nat) (hn : n ≤ 128) (hi : i < 16) : (cidrMask n 128).getD i 0 = maskByte (n - 8 * i) := by
  rw [cidrMask_128 n hn, getD_maskBytes 16 n i hi]

@[simp] theorem maskByte_zero : maskByte 0 = 0 := by decide

theorem maskByte_full {n : Nat} (hn : 8 ≤ n) : maskByte n = 0xff := if_pos hn

theorem simpleMaskLength_maskBytes (l n : Nat) (hn : n ≤ 8 * l) : simpleMaskLength (maskBytes l n) = some n := by
  induction l generalizing n with
  | zero => simp only [maskBytes, simpleMaskLength]; congr 1; omega
  | succ l ih =>
    by_cases hfull : 8 ≤ n
    · rw [maskBytes, maskByte_full hfull, simpleMaskLength, if_pos rfl, ih (n - 8) (by omega)]
      simp only [Option.map_some]
      congr 1
      omega
    have hzero : (maskBytes l (n - 8)).all (· == 0) := by
      rw [show n - 8 = 0 by omega]
      clear ih hn
      induction l with
      | zero => rfl
      | succ l ih => simp [maskBytes, ih]
    rw [maskBytes, simpleMaskLength]
    have hbyte : ∀ k : Fin 8, maskByte k ≠ 0xff ∧ (shiftOnes 8 (maskByte k)).2 = 0 ∧
        (shiftOnes 8 (maskByte k)).1 = k := by decide
    obtain ⟨hne, hrest, hones⟩ := hbyte ⟨n, by omega⟩
    simp only at hne hrest hones
    rw [if_neg hne, if_pos ⟨hrest, hzero⟩, hones]

theorem maskSize_cidrMask (n : Nat) (hn : n ≤ 128) : maskSize (cidrMask n 128) = (n, 128) := by
  rw [maskSize, cidrMask_128 n hn, simpleMaskLength_maskBytes 16 n (by omega)]
  simp

/-! ### Masking and containment -/

/-- `IP.Mask` on an address and a mask of the same length. -/
def IP.maskWith (ip : IP) (m : IPMask) : IP := List.zipWith (· &&& ·) ip m

/-- `networkNumberAndMask`: the network's address in its shortest form with the mask to match. -/
def IPNet.networkNumberAndMask (n : IPNet) : Option (IP × IPMask) :=
  match n.ip.to4 with
  | some ip4 =>
    if n.mask.length = ipv4Len then some (ip4, n.mask)
    else if n.mask.length = ipv6Len then some (ip4, n.mask.drop 12)
    else none
  | none =>
    if n.ip.length = ipv6Len ∧ n.mask.length = ipv6Len then some (n.ip, n.mask) else none

def IPNet.contains (n : IPNet) (ip : IP) : Bool :=
  match n.networkNumberAndMask with
  | none => (ip.to4.getD ip).isEmpty
  | some (nn, m) => nn.length = (ip.to4.getD ip).length ∧ nn.maskWith m = (ip.to4.getD ip).maskWith m

/-- An IPv6 network as `net.ParseCIDR` returns one: a 16-byte address, the mask of its prefix length,
and no host bit set. -/
structure IPNet.IsPrefix6 (n : IPNet) (len : Nat) : Prop where
  le : len ≤ 128
  length : n.ip.length = 16
  mask : n.mask = cidrMask len 128
  masked : n.ip.maskWith n.mask = n.ip

/-- An IPv4 network as `net.ParseCIDR` returns one. -/
structure IPNet.IsPrefix4 (n : IPNet) (len : Nat) : Prop where
  le : len ≤ 32
  length : n.ip.length = 4
  mask : n.mask = cidrMask len 32
  masked : n.ip.maskWith n.mask = n.ip

variable {ip : IP}

theorem IP.to4_eq_none_iff (hlen : ip.length = 16) : ip.to4 = none ↔ ip.take 12 ≠ v4InV6Prefix := by
  simp [IP.to4, hlen, ipv4Len, ipv6Len]

theorem IP.length_to4 {ip4 : IP} (h : ip.to4 = some ip4) : ip4.length = 4 := by
  rw [IP.to4] at h
  split_ifs at h with hv4 hv6
  · cases h
    exact hv4
  · cases h
    simp [hv6.1, ipv6Len]

theorem IP.to4_eq_none_of_byte (hlen : ip.length = 16) {i : Nat} (hi : i < 10) (hbyte : ip.getD i 0 ≠ 0) :
    ip.to4 = none := by
  rw [IP.to4_eq_none_iff hlen]
  intro htake
  apply hbyte
  have hget : (ip.take 12).getD i 0 = ip.getD i 0 := by
    simp [getD_eq_getElem?_getD, show i < 12 by omega]
  rw [← hget, htake]
  have hzero : ∀ k : Fin 10, v4InV6Prefix.getD k 0 = 0 := by decide
  exact hzero ⟨i, hi⟩

theorem IP.to16_of_length (hlen : ip.length = 16) : ip.to16 = some ip := by
  simp [IP.to16, hlen, ipv4Len, ipv6Len]

theorem IP.eq_of_to16 {ip16 : IP} (h : ip.to16 = some ip16) (h4 : ip.to4 = none) : ip16 = ip := by
  rw [IP.to16] at h
  split_ifs at h with hv4 hv6
  · simp [IP.to4, hv4] at h4
  · exact (Option.some.inj h).symm

theorem IP.getD_maskWith (ip : IP) (m : IPMask) (i : Nat) : (ip.maskWith m).getD i 0 = ip.getD i 0 &&& m.getD i 0 := by
  simp only [IP.maskWith, getD_eq_getElem?_getD, getElem?_zipWith]
  cases ip[i]? <;> cases m[i]? <;> simp

theorem IP.ext_getD {a b : IP} (ha : a.length = 16) (hb : b.length = 16) (h : ∀ i < 16, a.getD i 0 = b.getD i 0) :
    a = b := by
  refine ext_getElem (by omega) fun i hia hib => ?_
  have := h i (by omega)
  simpa [getD_eq_getElem?_getD, getElem?_eq_getElem hia, getElem?_eq_getElem hib] using this

namespace IPNet.IsPrefix6
variable {n : IPNet} {len : Nat}

section
variable (h : n.IsPrefix6 len)

include h

theorem getD_eq_zero {i : Nat} (hi : i < 16) (hlen : len ≤ 8 * i) : n.ip.getD i 0 = 0 := by
  rw [← h.masked, IP.getD_maskWith, h.mask, getD_cidrMask len i h.le hi, show len - 8 * i = 0 by omega]
  simp

theorem notV4 (hlen : len ≤ 88) : n.ip.to4 = none := by
  rw [IP.to4_eq_none_iff h.length]
  intro htake
  have hzero := h.getD_eq_zero (i := 11) (by omega) (by omega)
  have hget : (n.ip.take 12).getD 11 0 = n.ip.getD 11 0 := by
    simp [getD_eq_getElem?_getD]
  rw [← hget, htake] at hzero
  exact absurd hzero (by decide)

theorem networkNumberAndMask (h4 : n.ip.to4 = none) : n.networkNumberAndMask = some (n.ip, n.mask) := by
  simp [IPNet.networkNumberAndMask, h4, h.length, h.mask, ipv6Len, h.le]

theorem contains_iff (h4 : n.ip.to4 = none) {ip : IP} (hlen : ip.length = 16) :
    n.contains ip ↔ ip.to4 = none ∧ ip.maskWith (cidrMask len 128) = n.ip := by
  rw [IPNet.contains, h.networkNumberAndMask h4]
  simp only [Bool.decide_and, Bool.and_eq_true, decide_eq_true_eq, h.mask, h.length]
  cases hip : ip.to4 with
  | none =>
    simp only [Option.getD_none, hlen, true_and]
    rw [← h.mask, h.masked]
    exact eq_comm
  | some ip4 =>
    simp [IP.length_to4 hip]

end

end IPNet.IsPrefix6

end Galactic.Net
