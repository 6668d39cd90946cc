import Galactic.Nptv6.RoundTrip

/-!
# Checksum neutrality, and the datapath's translation

A translation changes the sum of an address's words by what the two prefixes differ in, and the adjustment takes it
back. The datapath's `apply_nptv6` does the same. -/

namespace Galactic.Nptv6
open Net Nat List UInt8

/-! ### The datapath -/

structure Nptv6Value where
  ulaPrefix : List UInt8
  publicPrefix : List UInt8
  prefixLen : UInt8
  adjustment : UInt16

/-- `toValue`, of the two networks of a mapping. -/
def toValue (ula pub : IPNet) (adjustment : UInt16) : Except (List Char) Nptv6Value :=
  match ula.ip.to16, pub.ip.to16 with
  | none, _ => .error ("ULAPrefix ".toList ++ ula.string ++ " is not a valid IPv6 CIDR".toList)
  | some _, none => .error ("PublicPrefix ".toList ++ pub.string ++ " is not a valid IPv6 CIDR".toList)
  | some ulaIP, some pubIP => .ok ⟨ulaIP, pubIP, UInt8.ofNat (maskSize ula.mask).1, adjustment⟩

/-- The loop of `apply_nptv6`, which writes byte `i` of the address in turn `i` and reads no other. -/
def applyPrefix (addr newPrefix : List UInt8) (prefixLen : Nat) : List UInt8 :=
  let fullBytes := prefixLen / 8
  let remBits := prefixLen % 8
  addr.mapIdx fun i b =>
    if 6 ≤ i then b
    else if i < fullBytes then newPrefix.getD i 0
    else if i = fullBytes ∧ remBits ≠ 0 then
      let mask : UInt8 := UInt8.ofNat (0xFF <<< (8 - remBits))
      (newPrefix.getD i 0 &&& mask) ||| (b &&& ~~~mask)
    else b

def applyNptv6 (addr : List UInt8) (v : Nptv6Value) (outbound : Bool) : List UInt8 :=
  let addr := applyPrefix addr (if outbound then v.publicPrefix else v.ulaPrefix) v.prefixLen.toNat
  let cur := (uint16At addr 6).toNat
  let sum := if outbound then cur + v.adjustment.toNat else cur + (~~~v.adjustment).toNat
  let sum := if sum / 2 ^ 16 ≠ 0 then sum % 2 ^ 16 + sum / 2 ^ 16 else sum
  putUint16 addr 6 (UInt16.ofNat sum)

/-- One turn of the carry is enough for two words. -/
theorem onesComplementAdd_eq (a b : UInt16) : onesComplementAdd a b =
    UInt16.ofNat (if (a.toNat + b.toNat) / 2 ^ 16 ≠ 0 then
      (a.toNat + b.toNat) % 2 ^ 16 + (a.toNat + b.toNat) / 2 ^ 16 else a.toNat + b.toNat) := by
  have := a.toNat_lt
  have := b.toNat_lt
  rw [onesComplementAdd, EndAround.add, EndAround.fold]
  by_cases h : (a.toNat + b.toNat) / 2 ^ 16 = 0
  · rw [if_pos h, if_neg (not_not.mpr h)]
  · rw [if_neg h, if_pos h, EndAround.foldOnce, EndAround.fold_of_lt (by omega)]

theorem applyPrefix_eq {len : Nat} (hlen : len ≤ 48) (addr src : IP) :
    applyPrefix addr src len = copyPrefixBits addr src len := by
  unfold applyPrefix copyPrefixBits
  dsimp only
  congr 1
  funext i b
  split_ifs <;> first | rfl | omega

theorem applyNptv6_eq_rewrite {addr : IP} {v : Nptv6Value} (hlen : v.prefixLen.toNat ≤ 48) (outbound : Bool) :
    applyNptv6 addr v outbound = rewrite (if outbound then v.publicPrefix else v.ulaPrefix) v.prefixLen.toNat
      (if outbound then v.adjustment else ~~~v.adjustment) addr := by
  unfold applyNptv6 rewrite
  dsimp only
  rw [applyPrefix_eq hlen, onesComplementAdd_eq]
  cases outbound <;> rfl

/-! ### Sums of words -/

def wordSum (a : IP) : Nat := ((List.range 8).map fun i => (uint16At a (2 * i)).toNat).sum

theorem toNat_uint16At (b : List UInt8) (i : Nat) :
    (uint16At b i).toNat = (b.getD i 0).toNat * 256 + (b.getD (i + 1) 0).toNat := by
  have := (b.getD i 0).toNat_lt
  have := (b.getD (i + 1) 0).toNat_lt
  rw [uint16At, UInt16.toNat_ofNat', mod_eq_of_lt (by omega)]

theorem and_not_mask_of_copied (s d m : UInt8) : (s &&& m ||| d &&& ~~~m) &&& ~~~m = d &&& ~~~m := by
  have := (copied_bits d s (~~~m)).1
  rwa [UInt8.not_not, UInt8.or_comm] at this

theorem toNat_copied (s d m : UInt8) : (s &&& m ||| d &&& ~~~m).toNat = (s &&& m).toNat + (d &&& ~~~m).toNat := by
  have hdisjoint : (s &&& m).toBitVec &&& (d &&& ~~~m).toBitVec = 0#8 := by
    ext i
    simp only [UInt8.toBitVec_and, UInt8.toBitVec_not, BitVec.getElem_and, BitVec.getElem_not, BitVec.getElem_zero]
    cases m.toBitVec[i] <;> simp
  have := BitVec.toNat_add_of_and_eq_zero hdisjoint
  rw [BitVec.add_eq_or_of_and_eq_zero _ _ hdisjoint] at this
  exact this

/-- The sum of the first three words, modulo `0xFFFF`. -/
def prefixSum (a : IP) : ZMod 65535 := (uint16At a 0).toNat + (uint16At a 2).toNat + (uint16At a 4).toNat

theorem cast_onesComplementAdd (a b : UInt16) : ((onesComplementAdd a b).toNat : ZMod 65535) = a.toNat + b.toNat := by
  rw [onesComplementAdd_toNat, ← cast_add]
  exact (ZMod.natCast_eq_natCast_iff _ _ _).mpr (EndAround.add_modEq 16 _ _)

theorem cast_not (a : UInt16) : ((~~~a).toNat : ZMod 65535) = -a.toNat := by
  have := a.toNat_lt
  rw [toNat_not, EndAround.complement, cast_sub (by omega), show ((2 ^ 16 - 1 : Nat) : ZMod 65535) = 0 from rfl]
  ring

theorem prefixChecksum_cast {a : IP} (ha : a.length = 16) : ((prefixChecksum a).toNat : ZMod 65535) = -prefixSum a := by
  have hlt : ∀ i, (uint16At a i).toNat < 65536 := fun i => (uint16At a i).toNat_lt
  have := hlt 0
  have := hlt 2
  have := hlt 4
  unfold prefixChecksum
  dsimp only
  rw [IP.to16_of_length ha, Option.getD_some, cast_not, UInt16.toNat_ofNat',
    mod_eq_of_lt (EndAround.fold_two_lt (by omega)), prefixSum, ← cast_add, ← cast_add]
  exact congrArg Neg.neg ((ZMod.natCast_eq_natCast_iff _ _ _).mpr (EndAround.fold_modEq 16 2 _))

namespace ValidMapping
variable (v : ValidMapping) {outbound : Bool} {a : IP}

/-- The word that is added is what the prefixes differ in. -/
theorem step_cast : ((v.step outbound).toNat : ZMod 65535) =
    prefixSum (v.source outbound).ip - prefixSum (v.source (!outbound)).ip := by
  have hout : ((v.step true).toNat : ZMod 65535) = prefixSum v.ula.ip - prefixSum v.pub.ip := by
    rw [step, if_pos rfl, cast_onesComplementAdd, cast_not, prefixChecksum_cast v.pub_isPrefix.length,
      prefixChecksum_cast v.ula_isPrefix.length]
    ring
  cases outbound with
  | true => exact hout
  | false =>
    rw [show v.step false = ~~~v.step true from v.step_not true, cast_not, hout]
    exact neg_sub _ _

theorem byte_rewrite (hin : (v.source outbound).contains a) (k : UInt16) {i : Nat} (hi : i < 16) (h6 : i ≠ 6)
  (h7 : i ≠ 7) :
    (((rewrite (v.source (!outbound)).ip v.length k a).getD i 0).toNat : ZMod 65535) +
      ((v.source outbound).ip.getD i 0).toNat = (a.getD i 0).toNat + ((v.source (!outbound)).ip.getD i 0).toNat := by
  obtain ⟨hlen, -, hpfx⟩ := v.contains_inv hin
  have hdst := v.source_isPrefix (!outbound)
  have htarget : (v.source (!outbound)).ip.getD i 0 &&& maskByte (v.length - 8 * i) =
    (v.source (!outbound)).ip.getD i 0 := by
    rw [← getD_cidrMask v.length i hdst.le hi, ← IP.getD_maskWith, ← hdst.mask, hdst.masked]
  have hsource : (v.source outbound).ip.getD i 0 = a.getD i 0 &&& maskByte (v.length - 8 * i) := by
    rw [← hpfx, IP.getD_maskWith, getD_cidrMask v.length i hdst.le hi]
  have hself := (copied_bits (a.getD i 0) (a.getD i 0) (maskByte (v.length - 8 * i))).2
  rw [and_not_mask_of_copied] at hself
  have hsplit := congrArg toNat hself
  rw [toNat_copied] at hsplit
  rw [getD_rewrite k hlen hi h6 h7, toNat_copied, htarget, hsource, ← hsplit]
  push_cast
  ring

theorem prefixSum_rewrite (hin : (v.source outbound).contains a) (k : UInt16) :
    prefixSum (rewrite (v.source (!outbound)).ip v.length k a) + prefixSum (v.source outbound).ip =
      prefixSum a + prefixSum (v.source (!outbound)).ip := by
  have hbyte := fun i (hi : i < 6) => v.byte_rewrite hin k (show i < 16 by omega) (by omega) (by omega)
  simp only [prefixSum, toNat_uint16At]
  push_cast
  linear_combination 256 * hbyte 0 (by decide) + hbyte 1 (by decide) + 256 * hbyte 2 (by decide) + hbyte 3 (by decide) +
    256 * hbyte 4 (by decide) + hbyte 5 (by decide)

end ValidMapping

theorem cast_wordSum (a : IP) : (wordSum a : ZMod 65535) = prefixSum a + (uint16At a 6).toNat +
    ((uint16At a 8).toNat + (uint16At a 10).toNat + (uint16At a 12).toNat + (uint16At a 14).toNat) := by
  simp only [wordSum, prefixSum, range_succ, range_zero, nil_append, cons_append, map_cons,
    map_nil, sum_cons, sum_nil]
  push_cast
  ring

/-- **Neutrality.** A translation within a valid mapping stays in the bits it may change, keeps the sum of the words,
and is the one of the datapath. -/
theorem translate_neutral (v : ValidMapping) (outbound : Bool) {a : IP} (hin : (v.source outbound).contains a = true) :
    ∃ b, translate v.mapping a outbound = .ok b ∧ b.maskWith (cidrMask v.length 128) = (v.source (!outbound)).ip ∧
      (∀ i, 8 ≤ i → i < 16 → b.getD i 0 = a.getD i 0) ∧
      (∀ i < 6, b.getD i 0 &&& ~~~maskByte (v.length - 8 * i) = a.getD i 0 &&& ~~~maskByte (v.length - 8 * i)) ∧
      wordSum b % 0xFFFF = wordSum a % 0xFFFF ∧
      ∃ adjustment value, v.mapping.adjustment = .ok adjustment ∧ toValue v.ula v.pub adjustment = .ok value ∧
        applyNptv6 a value outbound = b := by
  obtain ⟨hlen, -, -⟩ := v.contains_inv hin
  have hle : v.length ≤ 48 := v.length_le
  have hdst := v.source_isPrefix (!outbound)
  have hkeep : ∀ i, 8 ≤ i → i < 16 →
      (rewrite (v.source (!outbound)).ip v.length (v.step outbound) a).getD i 0 = a.getD i 0 := by
    intro i h8 hi
    rw [getD_rewrite _ hlen hi (by omega) (by omega), show v.length - 8 * i = 0 by omega, maskByte_zero]
    simp
  refine ⟨_, v.translate_of_contains hin, maskWith_rewrite _ hdst hle hlen, hkeep, fun i hi => ?_, ?_, _,
    ⟨v.ula.ip, v.pub.ip, UInt8.ofNat v.length, v.step true⟩, v.adjustment_mapping, ?_, ?_⟩
  · rw [getD_rewrite _ hlen (by omega) (by omega) (by omega), and_not_mask_of_copied]
  · have htail : ∀ i, 8 ≤ i → i < 15 →
        uint16At (rewrite (v.source (!outbound)).ip v.length (v.step outbound) a) i = uint16At a i := by
      intro i h8 hi
      rw [uint16At, hkeep i h8 (by omega), hkeep (i + 1) (by omega) (by omega), uint16At]
    rw [← ZMod.natCast_eq_natCast_iff', cast_wordSum, cast_wordSum, htail 8, htail 10, htail 12, htail 14]
    · have hword : uint16At (rewrite (v.source (!outbound)).ip v.length (v.step outbound) a) 6 =
          onesComplementAdd (uint16At a 6) (v.step outbound) := uint16At_rewrite _ hle hlen
      rw [hword, cast_onesComplementAdd, v.step_cast]
      linear_combination v.prefixSum_rewrite hin (v.step outbound)
    all_goals decide
  · rw [toValue, IP.to16_of_length v.ula_isPrefix.length, IP.to16_of_length v.pub_isPrefix.length, v.ula_isPrefix.mask,
      maskSize_cidrMask v.length v.ula_isPrefix.le]
  · have hlength : (UInt8.ofNat v.length).toNat = v.length := by rw [UInt8.toNat_ofNat', Nat.mod_eq_of_lt (by omega)]
    rw [applyNptv6_eq_rewrite (by rw [hlength]; exact hle), hlength]
    cases outbound with
    | true => rfl
    | false => exact congrArg (rewrite v.ula.ip v.length · a) (v.step_not true).symm

theorem translate_neutral_rfcAddress : (rfcMapping.source true).contains rfcAddress = true ∧
    ∃ b, translate rfcMapping.mapping rfcAddress true = .ok b ∧ wordSum b % 0xFFFF = wordSum rfcAddress % 0xFFFF := by
  obtain ⟨b, hb, -, -, -, hsum, -⟩ :=
    translate_neutral rfcMapping true (show (rfcMapping.source true).contains rfcAddress = true by decide)
  exact ⟨by decide, b, hb, hsum⟩

/-- **No collisions.** Two addresses of the source network whose adjustment words are not `0xFFFF` are never translated
to the same address, not even in subnet zero, in either direction. -/
theorem translate_apart (v : ValidMapping) (outbound : Bool) {a a' : IP} (hin : (v.source outbound).contains a = true)
    (hin' : (v.source outbound).contains a' = true) (hword : uint16At a adjustmentWordOffset ≠ 0xFFFF)
    (hword' : uint16At a' adjustmentWordOffset ≠ 0xFFFF) (hne : a ≠ a') :
    translate v.mapping a outbound ≠ translate v.mapping a' outbound := by
  intro hsame
  obtain ⟨hlen, -, hpfx⟩ := v.contains_inv hin
  obtain ⟨hlen', -, hpfx'⟩ := v.contains_inv hin'
  rw [v.translate_of_contains hin, v.translate_of_contains hin'] at hsame
  have hrewrite := Except.ok.inj hsame
  have hwords : uint16At a adjustmentWordOffset = uint16At a' adjustmentWordOffset := by
    have hsum := congrArg (fun b => ((uint16At b adjustmentWordOffset).toNat : ZMod 65535)) hrewrite
    simp only [uint16At_rewrite _ v.length_le hlen, uint16At_rewrite _ v.length_le hlen', cast_onesComplementAdd,
      add_left_inj] at hsum
    rw [ZMod.natCast_eq_natCast_iff'] at hsum
    have hlt : ∀ {w : UInt16}, w ≠ 0xFFFF → w.toNat < 65535 := fun {w} hw => by
      have := w.toNat_lt
      have : w.toNat ≠ 65535 := fun h => hw (UInt16.toNat_inj.mp h)
      omega
    rw [Nat.mod_eq_of_lt (hlt hword), Nat.mod_eq_of_lt (hlt hword')] at hsum
    exact UInt16.toNat_inj.mp hsum
  obtain ⟨h6, h7⟩ := getD_of_uint16At hwords
  refine hne (IP.ext_getD hlen hlen' fun i hi => ?_)
  by_cases hi6 : i = 6
  · exact hi6 ▸ h6
  by_cases hi7 : i = 7
  · exact hi7 ▸ h7
  have hle : v.length ≤ 128 := v.length_le.trans (by decide)
  rw [← getD_rewrite_rewrite (v.step outbound) 0 hle hlen hpfx hi hi6 hi7, hrewrite,
    getD_rewrite_rewrite (v.step outbound) 0 hle hlen' hpfx' hi hi6 hi7]

theorem translate_apart_rfc :
    translate rfcMapping.mapping rfcAddress true ≠ translate rfcMapping.mapping subnetZeroAddress true :=
  translate_apart rfcMapping true (by decide) (by decide) (by decide) (by decide) (by decide)

end Galactic.Nptv6
