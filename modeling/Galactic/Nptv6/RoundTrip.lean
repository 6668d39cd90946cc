import Galactic.Nptv6.Mapping

/-!
# What translating there and back does

Both directions rewrite the same bits: the prefix of one network takes the place of the other's, and the adjustment word
takes a word and later its complement. It comes back unless it is zero, of which one's-complement arithmetic has two. -/

namespace Galactic.Nptv6
open Net Bool

/-! ### Bytes -/

theorem getD_copyPrefixBits {dst src : IP} {len i : Nat} (hdst : dst.length = 16) (hi : i < 16) :
    (copyPrefixBits dst src len).getD i 0 =
      (src.getD i 0 &&& maskByte (len - 8 * i)) ||| (dst.getD i 0 &&& ~~~maskByte (len - 8 * i)) := by
  have hmask : ∀ rem < 8, UInt8.ofNat (0xFF <<< (8 - rem)) = maskByte rem := by decide
  have hget : dst[i]? = some (dst.getD i 0) := by
    simp [List.getD_eq_getElem?_getD, List.getElem?_eq_getElem (show i < dst.length by omega)]
  rw [copyPrefixBits, List.getD_eq_getElem?_getD, List.getElem?_mapIdx, hget, Option.map_some, Option.getD_some]
  split_ifs with hfull hrem
  · rw [maskByte_full (by omega), show (~~~0xff : UInt8) = 0 from rfl, UInt8.and_zero, UInt8.or_zero]
    exact (UInt8.and_neg_one).symm
  · rw [hmask _ (Nat.mod_lt _ (by decide)), show len - 8 * i = len % 8 by omega]
  · rw [show len - 8 * i = 0 by omega, maskByte_zero]
    simp

theorem copied_bits (s d m : UInt8) :
    (s &&& m ||| d &&& ~~~m) &&& m = s &&& m ∧ d &&& m ||| (s &&& m ||| d &&& ~~~m) &&& ~~~m = d := by
  rw [← UInt8.toBitVec_inj, ← UInt8.toBitVec_inj]
  constructor
  all_goals
    ext i
    simp only [UInt8.toBitVec_and, UInt8.toBitVec_or, UInt8.toBitVec_not, BitVec.getElem_and, BitVec.getElem_or,
      BitVec.getElem_not]
    cases m.toBitVec[i] <;> simp

theorem length_copyPrefixBits (dst src : IP) (len : Nat) : (copyPrefixBits dst src len).length = dst.length := by
  simp [copyPrefixBits]

section Rewrite
variable {target addr : IP} {len : Nat} (k : UInt16)

theorem length_rewrite (target addr : IP) (len : Nat) : (rewrite target len k addr).length = addr.length := by
  simp [rewrite, length_copyPrefixBits]

theorem uint16At_copyPrefixBits (hlen : len ≤ 48) (haddr : addr.length = 16) :
    uint16At (copyPrefixBits addr target len) adjustmentWordOffset = uint16At addr adjustmentWordOffset := by
  have hbyte : ∀ i, 6 ≤ i → i < 16 → (copyPrefixBits addr target len).getD i 0 = addr.getD i 0 := by
    intro i hi hi'
    rw [getD_copyPrefixBits haddr hi', show len - 8 * i = 0 by omega, maskByte_zero]
    simp
  simp only [uint16At, adjustmentWordOffset]
  rw [hbyte 6 (by omega) (by omega), hbyte 7 (by omega) (by omega)]

theorem uint16At_rewrite (hlen : len ≤ 48) (haddr : addr.length = 16) :
    uint16At (rewrite target len k addr) adjustmentWordOffset =
      onesComplementAdd (uint16At addr adjustmentWordOffset) k := by
  rw [rewrite, uint16At_putUint16 (by rw [length_copyPrefixBits, haddr]; decide), uint16At_copyPrefixBits hlen haddr]

theorem getD_rewrite (haddr : addr.length = 16) {i : Nat} (hi : i < 16) (h6 : i ≠ 6) (h7 : i ≠ 7) :
    (rewrite target len k addr).getD i 0 =
      (target.getD i 0 &&& maskByte (len - 8 * i)) ||| (addr.getD i 0 &&& ~~~maskByte (len - 8 * i)) :=
  (getD_putUint16 _ _ h6 h7).trans (getD_copyPrefixBits haddr hi)

theorem maskWith_rewrite {n : IPNet} (hn : n.IsPrefix6 len) (hlen : len ≤ 48) (haddr : addr.length = 16) :
    (rewrite n.ip len k addr).maskWith (cidrMask len 128) = n.ip := by
  have hmasked : ∀ i < 16, n.ip.getD i 0 &&& maskByte (len - 8 * i) = n.ip.getD i 0 := by
    intro i hi
    rw [← getD_cidrMask len i hn.le hi, ← IP.getD_maskWith, ← hn.mask, hn.masked]
  refine IP.ext_getD ?_ hn.length fun i hi => ?_
  · simp [IP.maskWith, length_rewrite, haddr, length_cidrMask_128, hn.le]
  rw [IP.getD_maskWith, getD_cidrMask len i hn.le hi]
  by_cases hword : i = 6 ∨ i = 7
  · -- behind the prefix both sides are zero
    rw [show len - 8 * i = 0 by omega, maskByte_zero, hn.getD_eq_zero hi (by omega)]
    simp
  · rw [getD_rewrite k haddr hi (by omega) (by omega), (copied_bits _ _ _).1, hmasked i hi]

theorem getD_rewrite_rewrite {n : IPNet} (k' : UInt16) (hle : len ≤ 128) (haddr : addr.length = 16)
    (hin : addr.maskWith (cidrMask len 128) = n.ip) {i : Nat} (hi : i < 16) (h6 : i ≠ 6) (h7 : i ≠ 7) :
    (rewrite n.ip len k' (rewrite target len k addr)).getD i 0 = addr.getD i 0 := by
  have hbyte : n.ip.getD i 0 = addr.getD i 0 &&& maskByte (len - 8 * i) := by
    rw [← hin, IP.getD_maskWith, getD_cidrMask len i hle hi]
  rw [getD_rewrite k' (by rw [length_rewrite, haddr]) hi h6 h7, getD_rewrite k haddr hi h6 h7, hbyte]
  rw [UInt8.and_assoc, UInt8.and_self, (copied_bits _ _ _).2]

theorem rewrite_rewrite_eq_iff (target : IP) {n : IPNet} (k' : UInt16) (hlen : len ≤ 48) (haddr : addr.length = 16)
    (hin : addr.maskWith (cidrMask len 128) = n.ip) : rewrite n.ip len k' (rewrite target len k addr) = addr ↔
      onesComplementAdd (onesComplementAdd (uint16At addr adjustmentWordOffset) k) k' =
        uint16At addr adjustmentWordOffset := by
  have hlen' : (rewrite target len k addr).length = 16 := by rw [length_rewrite, haddr]
  rw [← uint16At_rewrite k hlen haddr, ← uint16At_rewrite k' hlen hlen']
  constructor
  · intro h
    rw [h]
  intro hword
  obtain ⟨h6, h7⟩ := getD_of_uint16At hword
  refine IP.ext_getD (by rw [length_rewrite, hlen']) haddr fun i hi => ?_
  by_cases hi6 : i = 6
  · exact hi6 ▸ h6
  by_cases hi7 : i = 7
  · exact hi7 ▸ h7
  exact getD_rewrite_rewrite k k' (by omega) haddr hin hi hi6 hi7

theorem to4_eq_none_of_word (haddr : addr.length = 16) (hword : uint16At addr adjustmentWordOffset ≠ 0) :
    addr.to4 = none := by
  by_contra h4
  have hzero : ∀ i < 10, addr.getD i 0 = 0 := by
    intro i hi
    by_contra hbyte
    exact h4 (IP.to4_eq_none_of_byte haddr hi hbyte)
  apply hword
  simp only [uint16At, adjustmentWordOffset]
  rw [hzero 6 (by decide), hzero 7 (by decide)]
  rfl

end Rewrite

/-! ### Valid mappings -/

structure ValidMapping where
  ula : IPNet
  pub : IPNet
  length : Nat
  length_le : length ≤ maxSupportedPrefixLen
  ula_isPrefix : ula.IsPrefix6 length
  pub_isPrefix : pub.IsPrefix6 length

namespace ValidMapping
variable (v : ValidMapping)

def mapping : Mapping := ⟨some v.ula, some v.pub⟩

/-- The network a translation starts from. -/
def source (outbound : Bool) : IPNet := if outbound then v.ula else v.pub

/-- The word that a translation adds. -/
def step (outbound : Bool) : UInt16 :=
  let adjustment := onesComplementAdd (prefixChecksum v.pub.ip) (~~~prefixChecksum v.ula.ip)
  if outbound then adjustment else ~~~adjustment

theorem source_isPrefix (outbound : Bool) : (v.source outbound).IsPrefix6 v.length := by
  cases outbound
  · exact v.pub_isPrefix
  · exact v.ula_isPrefix

theorem step_not (outbound : Bool) : v.step (!outbound) = ~~~v.step outbound := by
  cases outbound <;> simp [step]

theorem prefixLen_mapping : v.mapping.prefixLen = .ok v.length := by
  have hula := maskSize_cidrMask v.length v.ula_isPrefix.le
  have hlen := v.length_le
  simp [Mapping.prefixLen, Mapping.networks, mapping, v.ula_isPrefix.mask, v.pub_isPrefix.mask, hula,
    Nat.not_lt.mpr hlen, bind, Except.bind, pure, Except.pure]

theorem adjustment_mapping : v.mapping.adjustment = .ok (v.step true) := by
  rw [Mapping.adjustment, v.prefixLen_mapping]
  rfl

section
variable {outbound : Bool} {a : IP}

theorem contains_inv (h : (v.source outbound).contains a) :
    a.length = 16 ∧ a.to4 = none ∧ a.maskWith (cidrMask v.length 128) = (v.source outbound).ip := by
  have hpfx := v.source_isPrefix outbound
  have hnot4 := hpfx.notV4 (by have := v.length_le; simp only [maxSupportedPrefixLen] at this; omega)
  have hlen : a.length = 16 := by
    rw [IPNet.contains, hpfx.networkNumberAndMask hnot4] at h
    simp only [decide_and, and_eq_true, decide_eq_true_eq, hpfx.length] at h
    cases h4 : a.to4 with
    | none => rw [h4, Option.getD_none] at h; exact h.1.symm
    | some ip4 =>
      rw [h4, Option.getD_some] at h
      have := IP.length_to4 h4
      omega
  exact ⟨hlen, (hpfx.contains_iff hnot4 hlen).mp h⟩

theorem translate_of_contains (h : (v.source outbound).contains a) :
    translate v.mapping a outbound = .ok (rewrite (v.source (!outbound)).ip v.length (v.step outbound) a) := by
  obtain ⟨hlen, h4, -⟩ := v.contains_inv h
  have hnot : v.step false = ~~~v.step true := v.step_not true
  rw [translate, v.prefixLen_mapping]
  simp only [bind, Except.bind, Mapping.networks, mapping, IP.to16_of_length hlen, h4]
  cases outbound
  all_goals
    simp only [source, Bool.false_eq_true, if_true, if_false] at h
    simp only [h, not_true_eq_false, if_false, if_true, Bool.false_eq_true, Bool.not_false, Bool.not_true,
      source, hnot]
    rw [show Mapping.mk (some v.ula) (some v.pub) = v.mapping from rfl, v.adjustment_mapping]
    rfl

theorem translate_of_not_contains (h : ¬(v.source outbound).contains a) (b : IP) :
    translate v.mapping a outbound ≠ .ok b := by
  rw [translate, v.prefixLen_mapping]
  simp only [bind, Except.bind, Mapping.networks, mapping]
  split
  · rename_i addr16 h16 h4
    rw [IP.eq_of_to16 h16 h4]
    cases outbound
    all_goals
      simp only [source, false_eq_true, if_true, if_false] at h
      simp [h, throw, throwThe, MonadExceptOf.throw]
  · simp [throw, throwThe, MonadExceptOf.throw]

theorem contains_rewrite (outbound : Bool) (hlen : a.length = 16)
    (h4 : (rewrite (v.source outbound).ip v.length (v.step (!outbound)) a).to4 = none) :
    (v.source outbound).contains (rewrite (v.source outbound).ip v.length (v.step (!outbound)) a) := by
  have hle : v.length ≤ 48 := v.length_le
  have hpfx := v.source_isPrefix outbound
  rw [hpfx.contains_iff (hpfx.notV4 (by omega)) (by rw [length_rewrite, hlen])]
  exact ⟨h4, maskWith_rewrite _ hpfx hle hlen⟩

end

end ValidMapping

/-- Translating there and back: outbound first for `true`, inbound first for `false`. -/
def roundTrip (m : Mapping) (addr : IP) (outbound : Bool) : Except Error IP := do
  let there ← translate m addr outbound
  translate m there (!outbound)

section RoundTrip
variable (v : ValidMapping) (outbound : Bool) {a : IP}

theorem roundTrip_of_word (hin : (v.source outbound).contains a) (hword : uint16At a adjustmentWordOffset ≠ 0) :
    roundTrip v.mapping a outbound = .ok (rewrite (v.source outbound).ip v.length (v.step (!outbound))
        (rewrite (v.source (!outbound)).ip v.length (v.step outbound) a)) := by
  obtain ⟨hlen, -, -⟩ := v.contains_inv hin
  have hthere : uint16At (rewrite (v.source (!outbound)).ip v.length (v.step outbound) a)
      adjustmentWordOffset ≠ 0 := by
    rw [uint16At_rewrite _ v.length_le hlen]
    exact onesComplementAdd_ne_zero _ hword
  have hback := v.contains_rewrite (!outbound) hlen
    (to4_eq_none_of_word (by rw [length_rewrite, hlen]) (by rwa [Bool.not_not]))
  rw [Bool.not_not] at hback
  rw [roundTrip, v.translate_of_contains hin]
  simp only [bind, Except.bind]
  rw [v.translate_of_contains hback, Bool.not_not]

theorem roundTrip_inv (hin : (v.source outbound).contains a) {b : IP} (h : roundTrip v.mapping a outbound = .ok b) :
    b = rewrite (v.source outbound).ip v.length (v.step (!outbound))
      (rewrite (v.source (!outbound)).ip v.length (v.step outbound) a) := by
  rw [roundTrip, v.translate_of_contains hin] at h
  simp only [bind, Except.bind] at h
  by_cases hback : (v.source (!outbound)).contains (rewrite (v.source (!outbound)).ip v.length (v.step outbound) a)
  · rw [v.translate_of_contains hback, Bool.not_not] at h
    exact (Except.ok.inj h).symm
  · exact absurd h (v.translate_of_not_contains hback _)

/-- **The round trip.** For a valid mapping and an address of the source network whose adjustment word is
not `0xFFFF`, translating there and back gives the address again exactly when the word is not zero, in
either direction. -/
theorem roundTrip_eq_iff_word_ne_zero (hin : (v.source outbound).contains a = true)
    (hword : uint16At a adjustmentWordOffset ≠ 0xFFFF) :
    roundTrip v.mapping a outbound = .ok a ↔ uint16At a adjustmentWordOffset ≠ 0 := by
  obtain ⟨hlen, -, hpfx⟩ := v.contains_inv hin
  have hiff := rewrite_rewrite_eq_iff (v.step outbound) (v.source (!outbound)).ip
    (v.step (!outbound)) v.length_le hlen hpfx
  rw [v.step_not] at hiff
  constructor
  · intro htrip hzero
    have hsame := (roundTrip_inv v outbound hin htrip).symm
    rw [v.step_not, hiff, hzero, onesComplementAdd_zero] at hsame
    simp at hsame
  · intro hne
    rw [roundTrip_of_word v outbound hin hne, v.step_not, hiff.mpr (onesComplementAdd_cancel _ hne hword)]

end RoundTrip

/-! ### The mapping of the RFC's example -/

/-- `fd01:203:405::/48` to `2001:db8:1::/48`. -/
def rfcMapping : ValidMapping where
  ula := ⟨[0xfd, 0x01, 0x02, 0x03, 0x04, 0x05, 0, 0, 0, 0, 0, 0, 0, 0, 0, 0], cidrMask 48 128⟩
  pub := ⟨[0x20, 0x01, 0x0d, 0xb8, 0, 0x01, 0, 0, 0, 0, 0, 0, 0, 0, 0, 0], cidrMask 48 128⟩
  length := 48
  length_le := by decide
  ula_isPrefix := ⟨by decide, by decide, rfl, by decide⟩
  pub_isPrefix := ⟨by decide, by decide, rfl, by decide⟩

/-- `fd01:203:405:1::1234`. -/
def rfcAddress : IP := [0xfd, 0x01, 0x02, 0x03, 0x04, 0x05, 0, 0x01, 0, 0, 0, 0, 0, 0, 0x12, 0x34]

theorem roundTrip_rfcAddress :
    roundTrip rfcMapping.mapping rfcAddress true = .ok rfcAddress ∧ uint16At rfcAddress adjustmentWordOffset = 1 := by
  refine ⟨?_, by decide⟩
  exact (roundTrip_eq_iff_word_ne_zero rfcMapping true (by decide) (by decide)).mpr (by decide)

/-- `fd01:203:405::1`, of subnet zero. -/
def subnetZeroAddress : IP := [0xfd, 0x01, 0x02, 0x03, 0x04, 0x05, 0, 0, 0, 0, 0, 0, 0, 0, 0, 0x01]

/-- The subnet word `0` goes out as `d54f` and comes back as `ffff`. -/
theorem roundTrip_subnetZero : (rfcMapping.source true).contains subnetZeroAddress = true ∧
      uint16At subnetZeroAddress adjustmentWordOffset ≠ 0xFFFF ∧ roundTrip rfcMapping.mapping subnetZeroAddress true =
        .ok [0xfd, 0x01, 0x02, 0x03, 0x04, 0x05, 0xff, 0xff, 0, 0, 0, 0, 0, 0, 0, 0x01] ∧
      roundTrip rfcMapping.mapping subnetZeroAddress true ≠ .ok subnetZeroAddress := by
  decide

end Galactic.Nptv6
