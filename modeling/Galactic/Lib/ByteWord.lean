import Mathlib.Data.List.Basic
import Mathlib.Data.Nat.Bitwise
import Mathlib.Tactic.Ring

/-!
# Words loaded from bytes

A word read from memory is a numeral to the base 256, whichever end comes first. Bitwise operations on such
words are operations on their bytes, so comparing two words under a mask compares the bytes under it. -/

namespace ByteWord
open List Nat

def value : List UInt8 → Nat
  | [] => 0
  | b :: rest => 256 * value rest + b.toNat

theorem value_lt (l : List UInt8) : value l < 256 ^ l.length := by
  induction l with
  | nil => simp [value]
  | cons b l ih =>
    have := b.toNat_lt
    rw [value, length_cons, pow_succ]
    omega

theorem value_append (a b : List UInt8) : value (a ++ b) = value a + 256 ^ a.length * value b := by
  induction a with
  | nil => simp [value]
  | cons x a ih =>
    rw [cons_append, value, value, ih, length_cons, pow_succ]
    ring

section
variable {a b : List UInt8}

theorem value_inj (hlen : a.length = b.length) (h : value a = value b) : a = b := by
  induction a generalizing b with
  | nil => exact (length_eq_zero_iff.mp hlen.symm).symm
  | cons x a ih =>
    obtain ⟨y, b, rfl⟩ := exists_cons_of_length_eq_add_one (by simpa using hlen.symm)
    have hx := x.toNat_lt
    have hy := y.toNat_lt
    rw [value, value] at h
    have hxy : x = y := UInt8.toNat_inj.mp (by omega)
    rw [hxy, ih (by simpa using hlen) (by omega)]

theorem testBit_value_cons (b : UInt8) (l : List UInt8) (j : Nat) :
    (value (b :: l)).testBit j = if j < 8 then b.toNat.testBit j else (value l).testBit (j - 8) :=
  testBit_two_pow_mul_add (i := 8) (value l) b.toNat_lt j

theorem value_zipWith {op : Nat → Nat → Nat} {opByte : UInt8 → UInt8 → UInt8} {f : Bool → Bool → Bool}
    (hop : ∀ x y j, (op x y).testBit j = f (x.testBit j) (y.testBit j))
    (hbyte : ∀ x y j, (opByte x y).toNat.testBit j = f (x.toNat.testBit j) (y.toNat.testBit j))
    (hzero : f false false = false) (hlen : a.length = b.length) :
    value (List.zipWith opByte a b) = op (value a) (value b) := by
  induction a generalizing b with
  | nil =>
    obtain rfl : b = [] := by simpa using hlen.symm
    refine eq_of_testBit_eq fun j => ?_
    simp [value, hop, hzero]
  | cons x a ih =>
    obtain ⟨y, b, rfl⟩ := exists_cons_of_length_eq_add_one (by simpa using hlen.symm)
    refine eq_of_testBit_eq fun j => ?_
    rw [zipWith_cons_cons, hop, testBit_value_cons, testBit_value_cons, testBit_value_cons, ih (by simpa using hlen)]
    split_ifs
    · exact hbyte x y j
    · exact hop _ _ _

theorem value_xor (hlen : a.length = b.length) : value (List.zipWith (· ^^^ ·) a b) = value a ^^^ value b :=
  value_zipWith (f := Bool.xor) testBit_xor (fun x y j => by rw [UInt8.toNat_xor, testBit_xor]) rfl hlen

theorem value_and (hlen : a.length = b.length) : value (List.zipWith (· &&& ·) a b) = value a &&& value b :=
  value_zipWith (f := Bool.and) testBit_and (fun x y j => by rw [UInt8.toNat_and, testBit_and]) rfl hlen

end

theorem value_eq_zero_iff (l : List UInt8) : value l = 0 ↔ ∀ b ∈ l, b = 0 := by
  induction l with
  | nil => simp [value]
  | cons b l ih =>
    rw [value, forall_mem_cons, ← ih, ← UInt8.toNat_inj]
    simp only [UInt8.toNat_zero]
    omega

/-- Adds one, the least significant byte first; a byte that wraps carries into the next. -/
def inc : List UInt8 → List UInt8
  | [] => []
  | b :: rest => if b + 1 ≠ 0 then (b + 1) :: rest else (b + 1) :: inc rest

@[simp] theorem length_inc (l : List UInt8) : (inc l).length = l.length := by
  induction l with
  | nil => rfl
  | cons b l ih =>
    rw [inc]
    split_ifs <;> simp [ih]

def maskedDiff (a b m : List UInt8) : List UInt8 := List.zipWith (· &&& ·) (List.zipWith (· ^^^ ·) a b) m

variable {a b m : List UInt8}

theorem value_maskedDiff (hab : a.length = b.length) (hm : a.length = m.length) :
    value (maskedDiff a b m) = (value a ^^^ value b) &&& value m := by
  rw [maskedDiff, value_and (by simp [hab, ← hm]), value_xor hab]

/-- Which byte of a word comes first in memory. -/
inductive Endian
  | little
  | big
  deriving DecidableEq, Repr

/-- The bytes, the least significant first. -/
def Endian.order : Endian → List UInt8 → List UInt8
  | little, b => b
  | big, b => b.reverse

/-- A native load of eight bytes. -/
def Endian.uint64 (o : Endian) (b : List UInt8) : UInt64 := UInt64.ofNat (value (o.order b))

/-- The eight bytes of a word, the most significant first. -/
def bigEndian64 (x : UInt64) : List UInt8 :=
  [(x >>> 56).toUInt8, (x >>> 48).toUInt8, (x >>> 40).toUInt8, (x >>> 32).toUInt8,
    (x >>> 24).toUInt8, (x >>> 16).toUInt8, (x >>> 8).toUInt8, x.toUInt8]

/-- The four bytes of a word, the most significant first. -/
def bigEndian32 (x : UInt32) : List UInt8 :=
  [(x >>> 24).toUInt8, (x >>> 16).toUInt8, (x >>> 8).toUInt8, x.toUInt8]

/-- The two bytes of a half-word, the most significant first. -/
def bigEndian16 (x : UInt16) : List UInt8 := [(x >>> 8).toUInt8, x.toUInt8]

/-- The half-word of two bytes, the most significant first. -/
def uint16 (hi lo : UInt8) : UInt16 := hi.toUInt16 <<< 8 ||| lo.toUInt16

theorem value_bigEndian64 (x : UInt64) : value (bigEndian64 x).reverse = x.toNat := by
  have hx := x.toNat_lt
  simp only [bigEndian64, reverse_cons, reverse_nil, nil_append, cons_append, value,
    UInt64.toNat_toUInt8, UInt64.toNat_shiftRight, UInt64.reduceToNat, shiftRight_eq_div_pow, reduceMod,
    reducePow]
  omega

@[simp] theorem Endian.length_order (o : Endian) (b : List UInt8) : (o.order b).length = b.length := by
  cases o <;> simp [order]

theorem Endian.order_maskedDiff (o : Endian) (hab : a.length = b.length) (hm : a.length = m.length) :
    maskedDiff (o.order a) (o.order b) (o.order m) = o.order (maskedDiff a b m) := by
  cases o with
  | little => rfl
  | big =>
    simp only [order, maskedDiff]
    rw [← reverse_zipWith hab, ← reverse_zipWith (by simp [hab, ← hm])]

theorem Endian.toNat_uint64 (o : Endian) (hb : b.length = 8) : (o.uint64 b).toNat = value (o.order b) := by
  have hlt := value_lt (o.order b)
  rw [length_order, hb] at hlt
  rw [uint64, UInt64.toNat_ofNat']
  exact mod_eq_of_lt hlt

/-- **Masked comparison.** Two loaded words agree under a loaded mask exactly when all bytes do, on machines of
either byte order. -/
theorem Endian.masked_eq_zero_iff (o : Endian) (ha : a.length = 8) (hb : b.length = 8) (hm : m.length = 8) :
    (o.uint64 a ^^^ o.uint64 b) &&& o.uint64 m = 0 ↔ ∀ x ∈ maskedDiff a b m, x = 0 := by
  rw [← UInt64.toNat_inj, UInt64.toNat_and, UInt64.toNat_xor, o.toNat_uint64 ha, o.toNat_uint64 hb,
    o.toNat_uint64 hm, ← value_maskedDiff (by simp [ha, hb]) (by simp [ha, hm]),
    o.order_maskedDiff (by rw [ha, hb]) (by rw [ha, hm])]
  refine (value_eq_zero_iff _).trans ?_
  cases o <;> simp [order]

def fnv32a (bytes : List UInt8) : UInt32 := bytes.foldl (fun h b => (h ^^^ b.toUInt32) * 16777619) 2166136261

def fnv64a (bytes : List UInt8) : UInt64 :=
  bytes.foldl (fun h b => (h ^^^ b.toUInt64) * 1099511628211) 14695981039346656037

end ByteWord
