import Galactic.Lib.EndAround
import Galactic.Net.Parse

/-!
# NPTv6 prefix translation

The stateless translation of `internal/plumbing/nptv6`: the prefix bits of an address are replaced, and
the word behind a 48-bit prefix takes up the difference of the two prefixes' checksums. -/

namespace Galactic.Nptv6
open Net UInt8 List

def maxSupportedPrefixLen : Nat := 48

def adjustmentWordOffset : Nat := 6

/-- One VRF's translation. Either network may be unset. -/
structure Mapping where
  ulaPrefix : Option IPNet
  publicPrefix : Option IPNet

inductive Error
  | required
  | notIPv6CIDRs
  | lengthMismatch (ulaOnes pubOnes : Nat)
  | lengthUnsupported (ones : Nat)
  | notIPv6 (addr : IP)
  | notWithin (addr : IP) (source : IPNet)
  deriving DecidableEq

/-- The nil check that `prefixLen` starts with: the ULA network and the public one. -/
def Mapping.networks (m : Mapping) : Except Error (IPNet × IPNet) :=
  match m.ulaPrefix, m.publicPrefix with
  | some ula, some pub => .ok (ula, pub)
  | _, _ => .error .required

def Mapping.prefixLen (m : Mapping) : Except Error Nat := do
  let (ula, pub) ← m.networks
  let (ulaOnes, ulaBits) := maskSize ula.mask
  let (pubOnes, pubBits) := maskSize pub.mask
  if ulaBits ≠ 128 ∨ pubBits ≠ 128 then throw .notIPv6CIDRs
  else if ulaOnes ≠ pubOnes then throw (.lengthMismatch ulaOnes pubOnes)
  else if maxSupportedPrefixLen < ulaOnes then throw (.lengthUnsupported ulaOnes)
  else pure ulaOnes

/-- `binary.BigEndian.Uint16` at a byte offset. -/
def uint16At (b : List UInt8) (i : Nat) : UInt16 :=
  UInt16.ofNat ((b.getD i 0).toNat * 256 + (b.getD (i + 1) 0).toNat)

/-- `binary.BigEndian.PutUint16` at a byte offset. -/
def putUint16 (b : List UInt8) (i : Nat) (x : UInt16) : List UInt8 :=
  (b.set i (ofNat (x.toNat / 256))).set (i + 1) (ofNat x.toNat)

/-- One's-complement addition. Two turns of the carry loop end it (`EndAround.fold_two_lt`). -/
def onesComplementAdd (a b : UInt16) : UInt16 := UInt16.ofNat (EndAround.add 16 a.toNat b.toNat)

/-- The complement of the one's-complement sum of the first three words. The address is of a parsed
CIDR, so it has four or sixteen bytes. -/
def prefixChecksum (address : IP) : UInt16 :=
  let ip := address.to16.getD []
  let sum := (uint16At ip 0).toNat + (uint16At ip 2).toNat + (uint16At ip 4).toNat
  ~~~UInt16.ofNat (EndAround.fold 16 2 sum)

def Mapping.adjustment (m : Mapping) : Except Error UInt16 := do
  let _ ← m.prefixLen
  let (ula, pub) ← m.networks
  let intChecksum := prefixChecksum ula.ip
  let pubChecksum := prefixChecksum pub.ip
  pure (onesComplementAdd pubChecksum (~~~intChecksum))

/-- Overwrites the first `prefixLen` bits of `dst` with those of `src`. -/
def copyPrefixBits (dst src : IP) (prefixLen : Nat) : IP :=
  let fullBytes := prefixLen / 8
  let remBits := prefixLen % 8
  let mask : UInt8 := ofNat (0xFF <<< (8 - remBits))
  dst.mapIdx fun i d =>
    if i < fullBytes then src.getD i 0
    else if i = fullBytes ∧ remBits ≠ 0 then (src.getD i 0 &&& mask) ||| (d &&& ~~~mask)
    else d

/-- What `Translate` makes of an address that passed its checks: the prefix bits of `target`, and
`adjustment` added at the adjustment word. -/
def rewrite (target : IP) (length : Nat) (adjustment : UInt16) (addr16 : IP) : IP :=
  let result := copyPrefixBits addr16 target length
  let word := uint16At result adjustmentWordOffset
  putUint16 result adjustmentWordOffset (onesComplementAdd word adjustment)

/-- `Translate`: outbound from the ULA network to the public one, or back. -/
def translate (m : Mapping) (addr : IP) (outbound : Bool) : Except Error IP := do
  let length ← m.prefixLen
  let (ula, pub) ← m.networks
  match addr.to16, addr.to4 with
  | some addr16, none =>
    let (source, target) := if outbound then (ula, pub) else (pub, ula)
    if ¬source.contains addr16 then throw (.notWithin addr source)
    else do
      let adjustment ← m.adjustment
      pure (rewrite target.ip length (if outbound then adjustment else ~~~adjustment) addr16)
  | _, _ => throw (.notIPv6 addr)

/-! ### Words -/

theorem onesComplementAdd_toNat (a b : UInt16) : (onesComplementAdd a b).toNat = EndAround.add 16 a.toNat b.toNat := by
  rw [onesComplementAdd, UInt16.toNat_ofNat']
  exact Nat.mod_eq_of_lt (EndAround.add_lt a.toNat_lt b.toNat_lt)

theorem toNat_not (a : UInt16) : (~~~a).toNat = EndAround.complement 16 a.toNat := by
  rw [UInt16.toNat_not, EndAround.complement]
  rfl

theorem onesComplementAdd_cancel {a : UInt16} (k : UInt16) (ha : a ≠ 0) (ha' : a ≠ 0xFFFF) :
    onesComplementAdd (onesComplementAdd a k) (~~~k) = a := by
  have hpos : 0 < a.toNat := Nat.pos_of_ne_zero fun h => ha (UInt16.toNat_inj.mp h)
  have hlt : a.toNat < 2 ^ 16 - 1 := by
    have := a.toNat_lt
    have : a.toNat ≠ 65535 := fun h => ha' (UInt16.toNat_inj.mp h)
    omega
  rw [← UInt16.toNat_inj, onesComplementAdd_toNat, onesComplementAdd_toNat, toNat_not]
  exact EndAround.add_complement_cancel hpos hlt k.toNat_lt

theorem onesComplementAdd_zero (k : UInt16) : onesComplementAdd (onesComplementAdd 0 k) (~~~k) = 0xFFFF := by
  rw [← UInt16.toNat_inj, onesComplementAdd_toNat, onesComplementAdd_toNat, toNat_not]
  exact EndAround.add_complement_zero k.toNat_lt

theorem onesComplementAdd_ne_zero {a : UInt16} (k : UInt16) (ha : a ≠ 0) : onesComplementAdd a k ≠ 0 := by
  have hpos : 0 < a.toNat := Nat.pos_of_ne_zero fun h => ha (UInt16.toNat_inj.mp h)
  intro hzero
  have hsum : 0 < EndAround.add 16 a.toNat k.toNat := EndAround.add_pos (by omega)
  rw [← onesComplementAdd_toNat, hzero] at hsum
  simp at hsum

theorem uint16At_putUint16 {b : List UInt8} {i : Nat} (hi : i + 1 < b.length) (x : UInt16) :
    uint16At (putUint16 b i x) i = x := by
  have hx := x.toNat_lt
  have hhi : (putUint16 b i x).getD i 0 = ofNat (x.toNat / 256) := by
    simp [putUint16, getD_eq_getElem?_getD, show i < b.length by omega]
  have hlo : (putUint16 b i x).getD (i + 1) 0 = ofNat x.toNat := by
    simp [putUint16, getD_eq_getElem?_getD, hi]
  rw [uint16At, hhi, hlo, ← UInt16.toNat_inj, UInt16.toNat_ofNat', toNat_ofNat', toNat_ofNat']
  omega

theorem getD_putUint16 (b : List UInt8) {i j : Nat} (x : UInt16) (hj : j ≠ i) (hj' : j ≠ i + 1) :
    (putUint16 b i x).getD j 0 = b.getD j 0 := by
  simp [putUint16, getD_eq_getElem?_getD, getElem?_set_ne hj.symm, getElem?_set_ne hj'.symm]

@[simp] theorem length_putUint16 (b : List UInt8) (i : Nat) (x : UInt16) : (putUint16 b i x).length = b.length := by
  simp [putUint16]

theorem getD_of_uint16At {b c : List UInt8} {i : Nat} (h : uint16At b i = uint16At c i) :
    b.getD i 0 = c.getD i 0 ∧ b.getD (i + 1) 0 = c.getD (i + 1) 0 := by
  have := (b.getD i 0).toNat_lt
  have := (b.getD (i + 1) 0).toNat_lt
  have := (c.getD i 0).toNat_lt
  have := (c.getD (i + 1) 0).toNat_lt
  rw [uint16At, uint16At, ← UInt16.toNat_inj, UInt16.toNat_ofNat', UInt16.toNat_ofNat'] at h
  rw [← UInt8.toNat_inj, ← UInt8.toNat_inj]
  omega

end Galactic.Nptv6
