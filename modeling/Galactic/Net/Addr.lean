import Galactic.Net.Text

/-!
# Addresses and prefixes of `net/netip`

An `Addr` is the zero value, four bytes, or sixteen bytes with a zone. A `Prefix` is only built by `PrefixFrom`, which
strips the zone and marks a length that does not fit as invalid, so what a valid prefix promises is a field. -/

namespace Galactic.Net

/-- An address: `z0`, `z4` or one of the IPv6 forms. -/
inductive Addr
  | zero
  | v4 (b : List.Vector UInt8 4)
  | v6 (b : List.Vector UInt8 16) (zone : String)
  deriving DecidableEq

namespace Addr

def is4 : Addr → Bool
  | v4 _ => true
  | _ => false

def is6 : Addr → Bool
  | v6 _ _ => true
  | _ => false

def zone : Addr → String
  | v6 _ z => z
  | _ => ""

def bitLen : Addr → Nat
  | zero => 0
  | v4 _ => 32
  | v6 _ _ => 128

def bytes : Addr → List UInt8
  | zero => []
  | v4 b => b.toList
  | v6 b _ => b.toList

def is4In6 : Addr → Bool
  | v6 b _ => b.toList.take 12 = v4InV6Prefix
  | _ => false

/-- `As16`; the zero address is all zeros, an IPv4 address is mapped. -/
def as16 : Addr → List UInt8
  | zero => List.replicate 16 0
  | v4 b => v4InV6Prefix ++ b.toList
  | v6 b _ => b.toList

def withoutZone : Addr → Addr
  | v6 b _ => v6 b ""
  | a => a

/-- `Unmap`: the IPv4 address in a mapped one. -/
def unmap : Addr → Addr
  | v6 b z => if b.toList.take 12 = v4InV6Prefix then v4 ⟨b.toList.drop 12, by simp⟩ else v6 b z
  | a => a

/-- The address of four or of sixteen bytes, as `AddrFromSlice` has it. -/
def ofBytes (b : List UInt8) : Option Addr :=
  if h4 : b.length = 4 then some (v4 ⟨b, h4⟩)
  else if h6 : b.length = 16 then some (v6 ⟨b, h6⟩ "")
  else none

def string : Addr → String
  | zero => "invalid IP"
  | v4 b => String.ofList (string4 b.toList)
  | v6 b z =>
    String.ofList (if b.toList.take 12 = v4InV6Prefix then "::ffff:".toList ++ string4 (b.toList.drop 12)
      else string6 b.toList) ++ (if z = "" then "" else "%" ++ z)

theorem bytes_length (a : Addr) : 8 * a.bytes.length = a.bitLen := by
  cases a with
  | zero => rfl
  | v4 b | v6 b z => simp [bytes, bitLen]

@[simp] theorem length_as16 (a : Addr) : a.as16.length = 16 := by
  cases a <;> simp [as16, v4InV6Prefix]

@[simp] theorem zone_withoutZone (a : Addr) : a.withoutZone.zone = "" := by cases a <;> rfl

@[simp] theorem bitLen_withoutZone (a : Addr) : a.withoutZone.bitLen = a.bitLen := by cases a <;> rfl

end Addr

structure Prefix where
  addr : Addr
  bits? : Option Nat
  zoneless : addr.zone = ""
  bits_le : ∀ n ∈ bits?, addr ≠ .zero ∧ n ≤ addr.bitLen

namespace Prefix

instance : DecidableEq Prefix := fun p q =>
  decidable_of_iff (p.addr = q.addr ∧ p.bits? = q.bits?) <| by
    cases p
    cases q
    simp

/-- The zero `Prefix`, which is not valid. -/
def invalid : Prefix := ⟨.zero, none, rfl, by simp⟩

def isValid (p : Prefix) : Bool := p.bits?.isSome

/-- `PrefixFrom`. -/
def ofAddr (ip : Addr) (bits : Nat) : Prefix where
  addr := ip.withoutZone
  bits? := if ip ≠ .zero ∧ bits ≤ ip.bitLen then some bits else none
  zoneless := ip.zone_withoutZone
  bits_le := by
    intro n hn
    split_ifs at hn with h
    · rw [Option.mem_some_iff] at hn
      subst hn
      refine ⟨?_, by simpa using h.2⟩
      cases ip <;> simp_all [Addr.withoutZone]
    · simp at hn

/-- `Prefix.Contains`: an address of the prefix's length, without a zone, that agrees with it under the mask. -/
def contains (p : Prefix) (ip : Addr) : Bool :=
  match p.bits? with
  | none => false
  | some n =>
    ip.zone = "" ∧ p.addr.bitLen = ip.bitLen ∧
      IP.maskWith ip.bytes (maskBytes ip.bytes.length n) = IP.maskWith p.addr.bytes (maskBytes ip.bytes.length n)

def masked (p : Prefix) : Prefix :=
  match p.bits?, p.addr with
  | some n, .v4 b => ofAddr (.v4 ⟨IP.maskWith b.toList (maskBytes 4 n), by simp [IP.maskWith]⟩) n
  | some n, .v6 b _ => ofAddr (.v6 ⟨IP.maskWith b.toList (maskBytes 16 n), by simp [IP.maskWith]⟩ "") n
  | _, _ => invalid

def string (p : Prefix) : String :=
  match p.bits? with
  | none => "invalid Prefix"
  | some n => p.addr.string ++ "/" ++ String.ofList (Nat.toDigits 10 n)

@[simp] theorem isValid_invalid : invalid.isValid = false := rfl

theorem is4_of_contains {p : Prefix} {ip : Addr} (h : p.contains ip) : p.addr.is4 = ip.is4 := by
  rw [contains] at h
  split at h
  · simp at h
  · simp only [Bool.decide_and, Bool.and_eq_true, decide_eq_true_eq] at h
    have hlen := h.2.1
    cases hp : p.addr <;> cases ip <;> simp_all [Addr.bitLen, Addr.is4]

end Prefix

end Galactic.Net
