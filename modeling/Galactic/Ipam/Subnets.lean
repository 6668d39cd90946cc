import Galactic.Ipam.Walk

/-!
# The first two subnets of a pool

What `NewPoolAllocator` establishes for the default subnet length, and what that says about the first two addresses of
the walk: both have the first twelve bytes of the pool's, so that their subnets consist of the same addresses. -/

namespace Galactic.Ipam
open List Net IPNet IP

/-! ### Pools -/

/-- What the constructor establishes for subnets of length 96. -/
structure Pool96 (a : PoolAllocator) (len : Nat) : Prop where
  len_le : len ≤ 96
  isPrefix : a.pool.IsPrefix6 len
  notV4 : a.pool.ip.to4 = none
  subnetLen : a.subnetLen = 96
  gateway_length : a.gateway.length = 16
  gateway_mem : a.pool.contains a.gateway = true
  reserved : a.reserved = (mk (a.gateway.maskWith mask96) mask96).string

def gatewayInFirst (a : PoolAllocator) : Bool := (a.subnet a.pool.ip).contains a.gateway

variable {x y : IP}

theorem byte_eq_of_take (h : x.take 12 = y.take 12) {i : Nat} (hi : i < 12) : x.getD i 0 = y.getD i 0 := by
  have hget := congrArg (fun l => l.getD i 0) h
  simpa [getD_eq_getElem?_getD, getElem?_take, hi] using hget

theorem to4_eq_none_of_take (hx : x.length = 16) (hy : y.length = 16) (h : x.take 12 = y.take 12) (h4 : y.to4 = none) :
    x.to4 = none := by
  rw [to4_eq_none_iff hx, h]
  exact (to4_eq_none_iff hy).mp h4

variable {pool : IPNet} {len : Nat}

theorem mem_of_take (h : pool.IsPrefix6 len) (hle : len ≤ 96) (h4 : pool.ip.to4 = none) (hx : x.length = 16)
    (htake : x.take 12 = pool.ip.take 12) : pool.contains x := by
  refine (h.contains_iff h4 hx).mpr ⟨to4_eq_none_of_take hx h.length htake h4, ?_⟩
  have hmask := h.masked
  rw [h.mask] at hmask
  refine ext_getD (by simp [maskWith, hx, h.le]) h.length fun i hi => ?_
  rw [getD_maskWith]
  by_cases hfront : i < 12
  · rw [byte_eq_of_take htake hfront, ← getD_maskWith, hmask]
  · rw [getD_cidrMask len i h.le hi, show len - 8 * i = 0 by omega, show maskByte 0 = 0 by decide,
      UInt8.and_zero, h.getD_eq_zero hi (by omega)]

namespace Pool96
variable {a : PoolAllocator} {len : Nat}

section
variable (h : Pool96 a len)

include h

theorem ip_eq : a.pool.ip = a.pool.ip.take 12 ++ [0, 0, 0, 0] := by
  have hlen := h.isPrefix.length
  rw [← maskWith_mask96 hlen]
  refine ext_getD hlen (by simp [maskWith, mask96, hlen]) fun i hi => ?_
  rw [getD_maskWith, mask96, getD_cidrMask 96 i (by omega) hi]
  by_cases hfront : i < 12
  · rw [maskByte_full (by omega)]
    simp [show (255 : UInt8) = -1 from rfl]
  · rw [h.isPrefix.getD_eq_zero hi (by have := h.len_le; omega), UInt8.zero_and]

theorem second_eq : incSubnet a.pool.ip 96 = a.pool.ip.take 12 ++ [1, 0, 0, 0] := by
  have hlen := h.isPrefix.length
  have htake : a.pool.ip.take 13 = a.pool.ip.take 12 ++ [0] := by
    have hcut := congrArg (List.take 13) h.ip_eq
    rw [take_append] at hcut
    simpa [hlen, take_take] using hcut
  rw [incSubnet_96 hlen, htake]
  simp [ByteWord.inc]

theorem take_second : (incSubnet a.pool.ip 96).take 12 = a.pool.ip.take 12 := by
  rw [h.second_eq]
  exact take_left' (by simp [h.isPrefix.length])

theorem second_ne : incSubnet a.pool.ip 96 ≠ a.pool.ip := by
  intro heq
  have htail := append_cancel_left (h.second_eq.symm.trans (heq.trans h.ip_eq))
  simp at htail

variable {start : IP}

theorem contains_near {x : IP} (hstart : start.length = 16) (htake : start.take 12 = a.pool.ip.take 12)
    (hx : x.length = 16) : (IPNet.mk start mask96).contains x ↔ x.to4 = none ∧ x.take 12 = a.pool.ip.take 12 := by
  rw [contains_mask96 hstart (to4_eq_none_of_take hstart h.isPrefix.length htake h.notV4) hx, htake]

theorem subnet_eq (start : IP) : a.subnet start = ⟨start, mask96⟩ := by
  rw [PoolAllocator.subnet, h.subnetLen]
  rfl

theorem gateway_notV4 : a.gateway.to4 = none :=
  ((h.isPrefix.contains_iff h.notV4 h.gateway_length).mp h.gateway_mem).1

theorem gatewayInFirst_iff : gatewayInFirst a ↔ a.gateway.take 12 = a.pool.ip.take 12 := by
  rw [gatewayInFirst, h.subnet_eq, h.contains_near h.isPrefix.length rfl h.gateway_length]
  simp [h.gateway_notV4]

theorem reserved_inj (hstart : start.length = 16) (heq : (a.subnet start).string = a.reserved) :
    start = a.gateway.take 12 ++ [0, 0, 0, 0] := by
  rw [h.subnet_eq, h.reserved, maskWith_mask96 h.gateway_length] at heq
  exact string_mask96_inj hstart (by simp [h.gateway_length]) heq

theorem first_reserved_iff : (a.subnet a.pool.ip).string = a.reserved ↔ gatewayInFirst a := by
  rw [h.gatewayInFirst_iff]
  constructor
  · intro heq
    rw [h.reserved_inj h.isPrefix.length heq]
    exact (take_left' (by simp [h.gateway_length])).symm
  · intro htake
    rw [h.subnet_eq, h.reserved, maskWith_mask96 h.gateway_length, htake, ← h.ip_eq]

/-- The second is never the reserved one: the text of the reserved subnet has no bytes behind the prefix. -/
theorem second_not_reserved : (a.subnet (incSubnet a.pool.ip 96)).string ≠ a.reserved := by
  intro heq
  have hstart := h.reserved_inj (length_incSubnet h.isPrefix.length) heq
  rw [h.second_eq] at hstart
  have htail := congrArg (List.drop 12) hstart
  rw [drop_left' (by simp [h.isPrefix.length]), drop_left' (by simp [h.gateway_length])] at htail
  simp at htail

end

end Pool96

/-! ### The constructor -/

variable {poolCIDR gateway : List Char}

theorem poolGateway_mem {gw : IP} (hpool : pool.IsPrefix6 len) (hle : len ≤ 96) (h4 : pool.ip.to4 = none)
    (h : poolGateway pool poolCIDR gateway = .ok gw) : gw.length = 16 ∧ pool.contains gw := by
  unfold poolGateway at h
  split_ifs at h with hgiven
  · split at h
    · cases h
    next ip hparse =>
    split_ifs at h with hin
    cases h
    exact ⟨parseIP_length hparse, by simpa using hin⟩
  · -- the default gateway differs from the pool's address in its last byte
    cases h
    have hlen : (pool.ip.set 15 1).length = 16 := by rw [length_set, hpool.length]
    have htake : (pool.ip.set 15 1).take 12 = pool.ip.take 12 := take_set_of_le (by omega)
    exact ⟨hlen, mem_of_take hpool hle h4 hlen htake⟩

variable {s : List Char}

theorem isPrefix6_of_notV4 {ip : IP} {n : IPNet} (h : parseCIDR s = some (ip, n)) (h4 : n.ip.to4 = none) :
    ∃ len, n.IsPrefix6 len := by
  obtain ⟨-, ⟨-, _, hpre⟩ | ⟨len, hpre, -⟩⟩ := parseCIDR_cases h
  · simp [to4, hpre.length, ipv4Len] at h4
  · exact ⟨len, hpre⟩

theorem newPoolAllocator_pool96 {subnetLen : Nat} {lockDir : String} {a : PoolAllocator}
    (hsub : subnetLen = 0 ∨ subnetLen = 96) (h : newPoolAllocator poolCIDR gateway subnetLen lockDir = .ok a) :
    ∃ len, Pool96 a len := by
  have hsub96 : (if subnetLen = 0 then defaultSubnetLen else subnetLen) = 96 := by
    rcases hsub with rfl | rfl <;> rfl
  unfold newPoolAllocator at h
  split at h
  · cases h
  next ip pool hparse =>
  rw [hsub96] at h
  dsimp only at h
  split_ifs at h with hv4 hlong hdir
  have h4 : pool.ip.to4 = none := by simpa using hv4
  obtain ⟨len, hpre⟩ := isPrefix6_of_notV4 hparse h4
  rw [hpre.mask, maskSize_cidrMask len hpre.le] at hlong
  have hle : len ≤ 96 := by omega
  split at h
  · cases h
  next gw hgw =>
  cases h
  obtain ⟨hlen, hmem⟩ := poolGateway_mem hpre hle h4 hgw
  refine ⟨len, hle, hpre, h4, rfl, hlen, hmem, ?_⟩
  change (mk ((mask gw mask96).getD []) mask96).string = _
  rw [mask_of_length hlen (by decide), Option.getD_some]

/-! ### Marker names -/

def markerSubnet (name : List Char) : Option IPNet := (parseAllocatedSubnet (desanitizeMarkerName name)).toOption

theorem sanitize_append_text (h : '/' ∉ s) : sanitizePoolDirName (s ++ "/96".toList) = s ++ "-96".toList := by
  have hs : s.map (fun c => if c = '/' then '-' else c) = s := by
    conv_rhs => rw [← map_id s]
    refine map_congr_left fun c hc => if_neg ?_
    intro hslash
    exact h (hslash ▸ hc)
  rw [sanitizePoolDirName, map_append, hs]
  rfl

section
variable {start : IP} (hstart : start.length = 16) (h4 : start.to4 = none)

include hstart h4

theorem desanitize_text :
    desanitizeMarkerName (sanitizePoolDirName (mk start mask96).string) = (mk start mask96).string := by
  have hslash : '/' ∉ string6 start := fun hmem => absurd (mem_string6 hmem) (by decide)
  have hdash : '-' ∉ string6 start := fun hmem => absurd (mem_string6 hmem) (by decide)
  rw [string_mask96 hstart h4, sanitize_append_text hslash, desanitizeMarkerName]
  have hcut : cut '-' (string6 start ++ "-96".toList) = some (string6 start, ['9', '6']) := cut_append hdash
  rw [hcut]
  rfl

theorem parseIP_string6 : parseIP (string6 start) = some start := by
  have hparse := parseAddr_string16 ⟨start, hstart⟩
  rw [List.Vector.toList_mk, string16, if_neg ((to4_eq_none_iff hstart).mp h4)] at hparse
  rw [parseIP, hparse]
  rfl

theorem markerSubnet_text : markerSubnet (sanitizePoolDirName (mk start mask96).string) = some ⟨start, mask96⟩ := by
  have hslash : '/' ∉ string6 start := fun hmem => absurd (mem_string6 hmem) (by decide)
  have hatoi : atoi ['9', '6'] = some 96 := by decide
  rw [markerSubnet, desanitize_text hstart h4, string_mask96 hstart h4, parseAllocatedSubnet]
  have hcut : cut '/' (string6 start ++ "/96".toList) = some (string6 start, ['9', '6']) := cut_append hslash
  rw [hcut]
  dsimp only
  rw [parseIP_string6 hstart h4]
  dsimp only
  rw [hatoi]
  rfl

end

end Galactic.Ipam
