import Galactic.Net.Addr

/-!
# Texts of addresses and networks

The string side of `net` and `net/netip`: `ParseAddr`, `ParsePrefix`, `ParseCIDR` and the printers of
`net.IP` and `net.IPNet`. -/

namespace Galactic.Net
open IP Option List

/-- `strings.Cut` around the first `c`. -/
def cut (c : Char) (s : List Char) : Option (List Char × List Char) :=
  match s.dropWhile (· ≠ c) with
  | [] => none
  | _ :: rest => some (s.takeWhile (· ≠ c), rest)

/-- The text before and behind the last `c`. -/
def cutLast (c : Char) (s : List Char) : Option (List Char × List Char) :=
  (cut c s.reverse).map fun r => (r.2.reverse, r.1.reverse)

def isDigit (c : Char) : Bool := '0' ≤ c ∧ c ≤ '9'

def decFold (ds : List Char) : Nat := ds.foldl (fun acc c => acc * 10 + (c.toNat - '0'.toNat)) 0

def parseDec (s : List Char) : Option Nat := if s ≠ [] ∧ s.all isDigit then some (decFold s) else none

def dec (n : Nat) : List Char := Nat.toDigits 10 n

/-- `parseIPv6`: the zone is what follows the first percent sign, and must not be empty. -/
def parseIPv6 (s : List Char) : Option Addr :=
  match cut '%' s with
  | none => (parse6 s).bind Addr.ofBytes
  | some (addr, zone) =>
    if zone = [] then none
    else
      (parse6 addr).bind fun b =>
        if h : b.length = 16 then some (.v6 ⟨b, h⟩ (String.ofList zone)) else none

/-- `ParseAddr`: the first of a dot, a colon and a percent sign decides the family. -/
def parseAddr (s : List Char) : Option Addr :=
  match s.find? (fun c => c = '.' ∨ c = ':' ∨ c = '%') with
  | some '.' => (parse4 s).bind Addr.ofBytes
  | some ':' => parseIPv6 s
  | _ => none

/-- `ParsePrefix`: an address without a zone, a slash, and a length without a sign or a leading zero. -/
def parsePrefix (s : List Char) : Option Prefix :=
  (cutLast '/' s).bind fun (addr, bitsStr) =>
    (parseAddr addr).bind fun ip =>
      if ip.zone ≠ "" then none
      else if 1 < bitsStr.length ∧ bitsStr.head?.any (fun c => c < '1' ∨ '9' < c) then none
      else
        (parseDec bitsStr).bind fun bits =>
          if ip.bitLen < bits then none else some (.ofAddr ip bits)

def IP.mask (ip : IP) (m : IPMask) : Option IP :=
  let m := if m.length = ipv6Len ∧ ip.length = ipv4Len ∧ (m.take 12).all (· == 0xff) then m.drop 12 else m
  let ip := if m.length = ipv4Len ∧ ip.length = ipv6Len ∧ ip.take 12 = v4InV6Prefix then ip.drop 12 else ip
  if ip.length ≠ m.length then none else some (maskWith ip m)

/-- `ParseCIDR`: the address, and the network it is in. The length may have leading zeros. -/
def parseCIDR (s : List Char) : Option (IP × IPNet) :=
  (cut '/' s).bind fun (addr, mask) =>
    (parseAddr addr).bind fun ipAddr =>
      if ipAddr.zone ≠ "" then none
      else
        (parseDec mask).bind fun n =>
          if ipAddr.bitLen < n then none
          else
            let m := cidrMask n ipAddr.bitLen
            some (ipAddr.as16, ⟨(IP.mask ipAddr.as16 m).getD [], m⟩)

def hexString (b : List UInt8) : List Char :=
  b.flatMap fun x => [Nat.digitChar (x.toNat / 16), Nat.digitChar (x.toNat % 16)]

/-- `IP.String`: the dotted form for an IPv4 address, mapped or not. -/
def IP.string (ip : IP) : List Char :=
  if ip.length = 0 then "<nil>".toList
  else if ip.length ≠ ipv4Len ∧ ip.length ≠ ipv6Len then '?' :: hexString ip
  else
    match ip.to4 with
    | some ip4 => string4 ip4
    | none => string6 ip

/-- `IPNet.String`: the length when the mask has one, its bytes otherwise. -/
def IPNet.string (n : IPNet) : List Char :=
  match n.networkNumberAndMask with
  | none => "<nil>".toList
  | some (nn, m) =>
    match simpleMaskLength m with
    | none => nn.string ++ '/' :: hexString m
    | some l => nn.string ++ '/' :: dec l

/-! ### Facts about accepted texts -/

section
variable {a : Addr} {s : List Char}

theorem Addr.ofBytes_ne_zero {b : List UInt8} (h : Addr.ofBytes b = some a) : a ≠ .zero := by
  rw [Addr.ofBytes] at h
  split_ifs at h
  all_goals cases h; simp

theorem parseIPv6_ne_zero (h : parseIPv6 s = some a) : a ≠ .zero := by
  rw [parseIPv6] at h
  split at h
  · obtain ⟨b, -, hb⟩ := bind_eq_some_iff.mp h
    exact Addr.ofBytes_ne_zero hb
  split_ifs at h
  obtain ⟨b, -, hb⟩ := bind_eq_some_iff.mp h
  split_ifs at hb
  cases hb
  simp

theorem parseAddr_ne_zero (h : parseAddr s = some a) : a ≠ .zero := by
  rw [parseAddr] at h
  split at h
  · obtain ⟨b, -, hb⟩ := bind_eq_some_iff.mp h
    exact Addr.ofBytes_ne_zero hb
  · exact parseIPv6_ne_zero h
  · cases h

theorem Prefix.isValid_ofAddr {n : Nat} (ha : a ≠ .zero) (hn : n ≤ a.bitLen) : (Prefix.ofAddr a n).isValid := by
  simp [Prefix.isValid, Prefix.ofAddr, ha, hn]

theorem parsePrefix_isValid {p : Prefix} (h : parsePrefix s = some p) : p.isValid := by
  rw [parsePrefix] at h
  obtain ⟨⟨addr, bitsStr⟩, -, h⟩ := bind_eq_some_iff.mp h
  obtain ⟨ip, hip, h⟩ := bind_eq_some_iff.mp h
  split_ifs at h
  obtain ⟨bits, -, h⟩ := bind_eq_some_iff.mp h
  split_ifs at h with hlen
  cases h
  exact Prefix.isValid_ofAddr (parseAddr_ne_zero hip) (by omega)

end

def parseIP (s : List Char) : Option IP :=
  (parseAddr s).bind fun a => if a.zone ≠ "" then none else some a.as16

section
variable {s : List Char} {ip : IP} {m : IPMask}

theorem parseIP_length (h : parseIP s = some ip) : ip.length = 16 := by
  unfold parseIP at h
  obtain ⟨addr, -, h⟩ := bind_eq_some_iff.mp h
  split_ifs at h
  rw [← some.inj h]
  exact addr.length_as16

theorem IP.mask_of_length (hip : ip.length = 16) (hm : m.length = 16) : mask ip m = some (ip.maskWith m) := by
  simp [mask, hip, hm, ipv4Len, ipv6Len]

theorem IP.mask_mapped {b : List UInt8} (hb : b.length = 4) (hm : m.length = 4) :
    mask (v4InV6Prefix ++ b) m = some (maskWith b m) := by
  have htake : (v4InV6Prefix ++ b).take 12 = v4InV6Prefix := take_left' rfl
  have hdrop : (v4InV6Prefix ++ b).drop 12 = b := drop_left' rfl
  have hlen : (v4InV6Prefix ++ b).length = 16 := by simp [hb, v4InV6Prefix]
  simp [mask, hm, hb, htake, hdrop, hlen, ipv4Len, ipv6Len]

theorem maskWith_maskWith (ip : IP) (m : IPMask) : (ip.maskWith m).maskWith m = ip.maskWith m := by
  unfold maskWith
  induction ip generalizing m with
  | nil => rfl
  | cons x ip ih =>
    cases m with
    | nil => rfl
    | cons y m => rw [zipWith_cons_cons, zipWith_cons_cons, ih, UInt8.and_assoc, UInt8.and_self]

theorem Prefix.masked_masked (p : Prefix) : p.masked.masked = p.masked := by
  rcases p with ⟨addr, _ | n, hzone, hbits⟩
  · rfl
  have hle := (hbits n rfl).2
  cases addr <;> simp_all [masked, ofAddr, Addr.withoutZone, Addr.bitLen, maskWith_maskWith, invalid]

theorem parseCIDR_cases {n : IPNet} (h : parseCIDR s = some (ip, n)) :
    ip.length = 16 ∧ ((ip.take 12 = v4InV6Prefix ∧ ∃ len, n.IsPrefix4 len) ∨
      ∃ len, n.IsPrefix6 len ∧ n.ip = ip.maskWith (cidrMask len 128)) := by
  unfold parseCIDR at h
  obtain ⟨⟨addr, mask⟩, -, h⟩ := bind_eq_some_iff.mp h
  obtain ⟨a, ha, h⟩ := bind_eq_some_iff.mp h
  dsimp only at h
  split_ifs at h with hzone
  obtain ⟨len, -, h⟩ := bind_eq_some_iff.mp h
  split_ifs at h with hbig
  cases h
  refine ⟨a.length_as16, ?_⟩
  rcases a with _ | b | ⟨b, z⟩
  · exact absurd rfl (parseAddr_ne_zero ha)
  · have hle : len ≤ 32 := by
      rw [Addr.bitLen] at hbig
      omega
    have hmask : (cidrMask len 32).length = 4 := by simp [cidrMask_32 len hle]
    have hip : (IP.mask (v4InV6Prefix ++ b.toList) (cidrMask len 32)).getD [] = IP.maskWith b.toList
      (cidrMask len 32) := by
      rw [IP.mask_mapped b.toList_length hmask, getD_some]
    refine Or.inl ⟨take_left' rfl, len, hle, ?_, rfl, ?_⟩
    · change ((IP.mask (v4InV6Prefix ++ b.toList) (cidrMask len 32)).getD []).length = 4
      rw [hip]
      simp [IP.maskWith, hmask]
    · change IP.maskWith ((IP.mask (v4InV6Prefix ++ b.toList) (cidrMask len 32)).getD []) (cidrMask len 32) = _
      rw [hip, maskWith_maskWith]
      exact hip.symm
  have hle : len ≤ 128 := by
    rw [Addr.bitLen] at hbig
    omega
  have hmask : (cidrMask len 128).length = 16 := by simp [cidrMask_128 len hle]
  have hip : (IP.mask b.toList (cidrMask len 128)).getD [] = IP.maskWith b.toList (cidrMask len 128) := by
    rw [IP.mask_of_length b.toList_length hmask, getD_some]
  refine Or.inr ⟨len, ⟨hle, ?_, rfl, ?_⟩, hip⟩
  · change ((IP.mask b.toList (cidrMask len 128)).getD []).length = 16
    rw [hip]
    simp [IP.maskWith, hmask]
  · change IP.maskWith ((IP.mask b.toList (cidrMask len 128)).getD []) (cidrMask len 128) = _
    rw [hip, maskWith_maskWith]
    exact hip.symm

end

end Galactic.Net
