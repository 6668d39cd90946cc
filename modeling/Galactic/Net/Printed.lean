import Galactic.Net.Parse

/-!
# Printed addresses read back

`ParseAddr` undoes `Addr.String` on every address without a zone, and `ParsePrefix` undoes `Prefix.String` on every
valid prefix. -/

namespace Galactic.Net
open List Addr

/-- The characters `ParseAddr` tells the family by. -/
def isMark (c : Char) : Bool := c = '.' ∨ c = ':' ∨ c = '%'

variable {c : Char}

theorem isMark_of_isHex (h : isHex c) : isMark c = false := by
  by_contra hmark
  rw [Bool.not_eq_false, isMark, decide_eq_true_eq] at hmark
  rcases hmark with rfl | rfl | rfl <;> exact absurd h (by decide)

variable {s : List Char}

theorem find?_isMark {d : Char} (hd : d ∈ s) (hmark : isMark d) (hall : ∀ c ∈ s, isHex c ∨ c = d) :
    s.find? isMark = some d := by
  obtain ⟨c, hc⟩ := Option.isSome_iff_exists.mp (find?_isSome.mpr ⟨d, hd, hmark⟩)
  rcases hall c (mem_of_find?_eq_some hc) with hhex | rfl
  · have hcmark := find?_some hc
    rw [isMark_of_isHex hhex] at hcmark
    cases hcmark
  · exact hc

/-! ### The characters of a printed address -/

theorem mem_intercalate_singleton {α : Type} {sep c : α} (ls : List (List α)) (h : c ∈ List.intercalate [sep] ls) :
    c = sep ∨ ∃ l ∈ ls, c ∈ l := by
  induction ls with
  | nil => simp [intercalate] at h
  | cons l ls ih =>
    cases ls with
    | nil => exact .inr ⟨l, by simp, by simpa [intercalate] using h⟩
    | cons l' ls =>
      rw [intercalate, intersperse_cons_cons, flatten_cons, flatten_cons, mem_append, mem_append, mem_singleton] at h
      rcases h with hc | hc | hc
      · exact .inr ⟨l, mem_cons_self, hc⟩
      · exact .inl hc
      · exact (ih hc).imp_right fun ⟨m, hm, hcm⟩ => ⟨m, mem_cons_of_mem l hm, hcm⟩

section
variable {c : Char} {b : List UInt8}

theorem mem_joinGroups {gs : List Nat} (h : c ∈ joinGroups gs) : isHex c ∨ c = ':' := by
  rcases mem_intercalate_singleton _ h with hc | ⟨l, hl, hc⟩
  · exact .inr hc
  · obtain ⟨g, -, rfl⟩ := mem_map.mp hl
    exact .inl (isHex_of_mem_toDigits g c hc)

theorem mem_string6 (h : c ∈ string6 b) : isHex c ∨ c = ':' := by
  unfold string6 at h
  split at h
  · exact mem_joinGroups h
  simp only [mem_append, mem_cons] at h
  rcases h with hc | hc | hc | hc
  · exact mem_joinGroups hc
  · exact .inr hc
  · exact .inr hc
  · exact mem_joinGroups hc

theorem colon_mem_string6 (hb : b.length = 16) : ':' ∈ string6 b := by
  unfold string6
  split
  · have hlen : (groupsOf b).length = 8 := by rw [length_groupsOf, hb]
    obtain ⟨g, g', gs, hgs⟩ : ∃ g g' gs, groupsOf b = g :: g' :: gs := by
      rcases hcases : groupsOf b with _ | ⟨g, _ | ⟨g', gs⟩⟩
      · simp [hcases] at hlen
      · simp [hcases] at hlen
      · exact ⟨g, g', gs, rfl⟩
    rw [hgs, joinGroups_cons g (by simp)]
    simp
  · simp

theorem isHex_octet (x : UInt8) : ∀ c ∈ Nat.toDigits 10 x.toNat, isHex c := by
  have hall : ((List.range 256).all fun n => (Nat.toDigits 10 n).all isHex) := by decide +kernel
  exact all_eq_true.mp (all_eq_true.mp hall x.toNat (mem_range.mpr x.toNat_lt))

theorem mem_string4 (h : c ∈ string4 b) : isHex c ∨ c = '.' := by
  rcases mem_intercalate_singleton _ h with hc | ⟨l, hl, hc⟩
  · exact .inr hc
  · obtain ⟨x, -, rfl⟩ := mem_map.mp hl
    exact .inl (isHex_octet x c hc)

end

theorem string4_cons (x y : UInt8) (b : List UInt8) :
    string4 (x :: y :: b) = Nat.toDigits 10 x.toNat ++ '.' :: string4 (y :: b) := by
  simp [string4, intercalate]

/-! ### Reading back addresses -/

theorem parse6_mapped (x y z w : UInt8) :
    parse6 ("::ffff:".toList ++ string4 [x, y, z, w]) = some (v4InV6Prefix ++ [x, y, z, w]) := by
  have htext : "::ffff:".toList ++ string4 [x, y, z, w] =
      ':' :: ':' :: (Nat.toDigits 16 0xffff ++ ':' :: string4 [x, y, z, w]) := rfl
  obtain ⟨d, ds, hd⟩ := exists_cons_of_ne_nil (Nat.toDigits_ne_nil (n := x.toNat) (b := 10))
  have hdhex : isHex d := isHex_octet x d (by simp [hd])
  have hdots : string4 [x, y, z, w] = d :: (ds ++ '.' :: string4 [y, z, w]) := by
    rw [string4_cons, hd, cons_append]
  rw [htext, parse6_of_ellipsis (by simp), hdots,
    parse6Loop_group 7 [] (some 0) (by omega) (ne_colon_of_isHex hdhex), ← hdots]
  -- the loop stops at the dotted part and hands it to the IPv4 parser
  have hspan : (string4 [x, y, z, w]).takeWhile isHex = Nat.toDigits 10 x.toNat ∧
      (string4 [x, y, z, w]).dropWhile isHex = '.' :: string4 [y, z, w] := by
    rw [string4_cons, takeWhile_append_of_pos (isHex_octet x), dropWhile_append_of_pos (isHex_octet x)]
    simp [show isHex '.' = false by decide]
  have hlen : ¬((Nat.toDigits 10 x.toNat).length = 0 ∨ 4 < (Nat.toDigits 10 x.toNat).length) := by
    have hall : ∀ n < 256, ¬((Nat.toDigits 10 n).length = 0 ∨ 4 < (Nat.toDigits 10 n).length) := by decide +kernel
    exact hall x.toNat x.toNat_lt
  rw [parse6Loop, hspan.1, hspan.2, if_neg hlen]
  simp [parse4_string4, length_bytesOfGroup, expandEllipsis, v4InV6Prefix]
  rfl

theorem parseAddr_eq (s : List Char) :
    parseAddr s = match s.find? isMark with
      | some '.' => (parse4 s).bind ofBytes
      | some ':' => parseIPv6 s
      | _ => none := rfl

theorem cut_eq_none (h : c ∉ s) : cut c s = none := by
  have hdrop : s.dropWhile (· ≠ c) = [] := by
    rw [dropWhile_eq_nil_iff]
    intro d hd
    rw [decide_eq_true_eq]
    rintro rfl
    exact h hd
  rw [cut, hdrop]

theorem cut_append {t : List Char} (h : c ∉ s) : cut c (s ++ c :: t) = some (s, t) := by
  have hall : ∀ d ∈ s, decide (d ≠ c) := by
    intro d hd
    rw [decide_eq_true_eq]
    rintro rfl
    exact h hd
  rw [cut, dropWhile_append_of_pos hall, takeWhile_append_of_pos hall]
  simp

theorem parseAddr_string4 (b : List.Vector UInt8 4) : parseAddr (string4 b.toList) = some (.v4 b) := by
  obtain ⟨l, hl⟩ := b
  obtain ⟨x, y, z, w, rfl⟩ : ∃ x y z w, l = [x, y, z, w] := by
    rcases l with _ | ⟨x, _ | ⟨y, _ | ⟨z, _ | ⟨w, _ | ⟨v, l⟩⟩⟩⟩⟩ <;> simp at hl
    exact ⟨x, y, z, w, rfl⟩
  have hdot : '.' ∈ string4 [x, y, z, w] := by rw [string4_cons]; simp
  rw [parseAddr_eq, List.Vector.toList_mk, find?_isMark hdot (by decide) fun c => mem_string4]
  change (parse4 (string4 [x, y, z, w])).bind ofBytes = _
  rw [parse4_string4]
  rfl

/-- The text of sixteen bytes without a zone. -/
def string16 (b : List UInt8) : List Char :=
  if b.take 12 = v4InV6Prefix then "::ffff:".toList ++ string4 (b.drop 12) else string6 b

theorem parse6_string16 (b : List UInt8) (hb : b.length = 16) : parse6 (string16 b) = some b := by
  unfold string16
  split_ifs with hmapped
  · obtain ⟨x, y, z, w, hdrop⟩ : ∃ x y z w, b.drop 12 = [x, y, z, w] := by
      have hlen : (b.drop 12).length = 4 := by rw [length_drop, hb]
      rcases hcases : b.drop 12 with _ | ⟨x, _ | ⟨y, _ | ⟨z, _ | ⟨w, _ | ⟨v, l⟩⟩⟩⟩⟩ <;> simp [hcases] at hlen
      exact ⟨x, y, z, w, rfl⟩
    rw [hdrop, parse6_mapped, ← hmapped, ← hdrop, take_append_drop]
  · exact parse6_string6 b hb

variable {b : List UInt8}

theorem mem_string16 (h : c ∈ string16 b) : isHex c ∨ c = ':' ∨ c = '.' := by
  unfold string16 at h
  split_ifs at h
  · rcases mem_append.mp h with hc | hc
    · have hall : ("::ffff:".toList.all fun c => isHex c || c == ':' || c == '.') := by decide +kernel
      simpa [or_assoc] using all_eq_true.mp hall c hc
    · exact (mem_string4 hc).elim .inl fun hdot => .inr (.inr hdot)
  · exact (mem_string6 h).elim .inl fun hcolon => .inr (.inl hcolon)

theorem find?_isMark_string16 (hb : b.length = 16) : (string16 b).find? isMark = some ':' := by
  unfold string16
  split_ifs
  · rfl
  · exact find?_isMark (colon_mem_string6 hb) (by decide) fun c => mem_string6

theorem parseAddr_string16 (b : List.Vector UInt8 16) : parseAddr (string16 b.toList) = some (.v6 b "") := by
  have hpercent : '%' ∉ string16 b.toList := fun hmem => by
    rcases mem_string16 hmem with h | h | h <;> exact absurd h (by decide)
  rw [parseAddr_eq, find?_isMark_string16 b.toList_length]
  change parseIPv6 (string16 b.toList) = _
  rw [parseIPv6, cut_eq_none hpercent, parse6_string16 _ b.toList_length, Option.bind_some, ofBytes, dif_neg (by simp),
    dif_pos (by simp)]
  congr 1

theorem Addr.string_v6 (b : List.Vector UInt8 16) : (v6 b "").string = String.ofList (string16 b.toList) := by
  rw [string, if_pos rfl, String.append_empty]
  rfl

variable {a : Addr}

/-- **Addresses.** `ParseAddr` undoes `Addr.String` on every address without a zone. -/
theorem parseAddr_string (hne : a ≠ .zero) (hzone : a.zone = "") : parseAddr a.string.toList = some a := by
  rcases a with _ | b | ⟨b, z⟩
  · exact absurd rfl hne
  · rw [string, String.toList_ofList, parseAddr_string4]
  · obtain rfl : z = "" := hzone
    rw [string_v6, String.toList_ofList, parseAddr_string16]

theorem Addr.string_inj {b : Addr} (hane : a ≠ .zero) (ha : a.zone = "") (hb : b.zone = "") (h : a.string = b.string) :
    a = b := by
  by_cases hbne : b = .zero
  · have hparse := parseAddr_string hane ha
    have hnone : parseAddr Addr.zero.string.toList = none := by decide
    rw [h, hbne, hnone] at hparse
    cases hparse
  · have hparse := parseAddr_string hane ha
    rw [h, parseAddr_string hbne hb] at hparse
    exact (Option.some.inj hparse).symm

/-! ### Reading back prefixes -/

section
variable {n : Nat} {p : Prefix}

theorem dec_length (hn : n ≤ 128) : '/' ∉ dec n ∧
    ¬(1 < (dec n).length ∧ (dec n).head?.any (fun c => c < '1' ∨ '9' < c)) ∧ parseDec (dec n) = some n := by
  have hall : ∀ n < 129, '/' ∉ dec n ∧
      ¬(1 < (dec n).length ∧ (dec n).head?.any (fun c => c < '1' ∨ '9' < c)) ∧ parseDec (dec n) = some n := by
    decide +kernel
  exact hall n (by omega)

theorem cutLast_append {c : Char} {s t : List Char} (h : c ∉ t) : cutLast c (s ++ c :: t) = some (s, t) := by
  have hrev : (s ++ c :: t).reverse = t.reverse ++ c :: s.reverse := by simp
  rw [cutLast, hrev, cut_append (by simpa using h)]
  simp

theorem Addr.bitLen_le (a : Addr) : a.bitLen ≤ 128 := by
  cases a <;> simp [bitLen]

theorem Addr.withoutZone_of_zone {a : Addr} (h : a.zone = "") : a.withoutZone = a := by
  rcases a with _ | b | ⟨b, z⟩
  · rfl
  · rfl
  · obtain rfl : z = "" := h
    rfl

theorem Prefix.ofAddr_addr (h : p.bits? = some n) : Prefix.ofAddr p.addr n = p := by
  obtain ⟨hne, hle⟩ := p.bits_le n h
  rcases p with ⟨a, bits, hzone, hbits⟩
  obtain rfl : bits = some n := h
  simp only [Prefix.ofAddr, withoutZone_of_zone hzone, if_pos (And.intro hne hle)]

theorem Prefix.toList_string (h : p.bits? = some n) : p.string.toList = p.addr.string.toList ++ '/' :: dec n := by
  rw [Prefix.string, h]
  simp [dec]

/-- **Prefixes.** `ParsePrefix` undoes `Prefix.String` on every valid prefix. -/
theorem parsePrefix_string (hvalid : p.isValid) : parsePrefix p.string.toList = some p := by
  obtain ⟨n, hn⟩ := Option.isSome_iff_exists.mp hvalid
  obtain ⟨hne, hle⟩ := p.bits_le n hn
  obtain ⟨hslash, hzero, hdec⟩ := dec_length (le_trans hle p.addr.bitLen_le)
  rw [parsePrefix, Prefix.toList_string hn, cutLast_append hslash, Option.bind_some]
  dsimp only
  rw [parseAddr_string hne p.zoneless, Option.bind_some, if_neg (by simp [p.zoneless]), if_neg hzero, hdec,
    Option.bind_some, if_neg (by omega), Prefix.ofAddr_addr hn]

end

theorem Prefix.string_inj {p q : Prefix} (hp : p.isValid) (h : p.string = q.string) : p = q := by
  by_cases hq : q.isValid
  · have hparse := parsePrefix_string hp
    rw [h, parsePrefix_string hq] at hparse
    exact (Option.some.inj hparse).symm
  have hparse := parsePrefix_string hp
  have htext : q.string = "invalid Prefix" := by
    rw [Prefix.string, show q.bits? = none by simpa [Prefix.isValid] using hq]
  have hnone : parsePrefix "invalid Prefix".toList = none := by decide
  rw [h, htext, hnone] at hparse
  cases hparse

end Galactic.Net
