import Galactic.TrafficPolicy.Entries

/-!
# The compiled entries decide as the policy does

A rule accepts a packet exactly when one of the entries that it expands to does (`exists_accepts_iff`), and all of its
entries return what the rule returns (`outcome_of_mem_expandRule`). -/

namespace Galactic.TrafficPolicy
open Net List Entry

/-! ### The shared part of a rule's entries -/

namespace Entry
variable (e : Entry) (k : EntryFlag)

theorem has_start (index : UInt16) (allow : Bool) : (start index allow).has k = (allow && decide (.allow = k)) := by
  rw [Bool.eq_iff_iff]
  cases allow <;> simp [start, has, bit_and_bit]

theorem has_withPath? (o : Option Path) : (e.withPath? o).has k = (e.has k || (o.isSome && decide (.path = k))) := by
  cases o <;> simp [withPath?]

theorem has_withFamily? (o : Option Family) :
    (e.withFamily? o).has k = (e.has k || (o.isSome && decide (.family = k))) := by
  cases o <;> simp [withFamily?]

theorem has_withProto? (o : Option Proto) : (e.withProto? o).has k =
      (e.has k || (o.isSome && decide (.proto = k)) || ((protoFamily o).isSome && decide (.family = k))) := by
  cases o with
  | none => simp [withProto?, protoFamily]
  | some p => simp [withProto?, has_withFamily?]

theorem has_withICMP? (o : Option ICMP) : (e.withICMP? o).has k =
      (e.has k || (o.isSome && decide (.icmpType = k)) || (o.any (·.hasCode) && decide (.icmpCode = k))) := by
  cases o with
  | none => simp [withICMP?]
  | some i => cases h : i.hasCode <;> simp [withICMP?, h]

end Entry

section Base
variable {index : UInt16} {r : Rule} {pkt : Packet}

theorem has_baseEntry (k : EntryFlag) : (baseEntry index r).has k =
      (((((r.allow && decide (.allow = k)) || (r.matching.path.isSome && decide (.path = k))) ||
          (r.matching.family.isSome && decide (.family = k))) || (r.matching.proto.isSome && decide (.proto = k)) ||
          ((protoFamily r.matching.proto).isSome && decide (.family = k))) ||
        (r.matching.icmp.isSome && decide (.icmpType = k)) ||
          (r.matching.icmp.any (·.hasCode) && decide (.icmpCode = k))) := by
  simp only [baseEntry, has_withICMP?, has_withProto?, has_withFamily?, has_withPath?, has_start]

theorem family_eq_protoFamily {m : Match} (hfam : ruleFamily m ≠ some 0) {f g : Family}
    (hf : m.family = some f) (hg : protoFamily m.proto = some g) : f = g := by
  by_contra hne
  exact hfam (by simp [ruleFamily, hf, hg, hne])

theorem accepts_start (allow : Bool) : (start index allow).Accepts pkt := by
  intro k hk
  rw [has_start, Bool.and_eq_true, decide_eq_true_eq] at hk
  exact hk.2 ▸ trivial

variable {e : Entry}

theorem accepts_withPath? (o : Option Path) : (e.withPath? o).Accepts pkt ↔ e.Accepts pkt := by
  cases o with
  | none => rfl
  | some v => exact accepts_withPath v

theorem accepts_withFamily? {o : Option Family} (h : ∀ v ∈ o, e.has .family → e.family = v) :
    (e.withFamily? o).Accepts pkt ↔ e.Accepts pkt ∧ ∀ v ∈ o, v = pkt.family := by
  cases o with
  | none => simp [withFamily?]
  | some v =>
    rw [withFamily?, Option.elim_some, accepts_withFamily (h v rfl)]
    simp

theorem accepts_withProto? {o : Option Proto} (hproto : e.has .proto = false)
    (hfamily : ∀ v ∈ protoFamily o, e.has .family → e.family = v) : (e.withProto? o).Accepts pkt ↔
      e.Accepts pkt ∧ (∀ p ∈ o, p = pkt.proto) ∧ ∀ v ∈ protoFamily o, v = pkt.family := by
  cases o with
  | none => simp [withProto?, protoFamily]
  | some p =>
    have hcompat : ∀ v ∈ protoFamily (some p), (e.withProto p).has .family → (e.withProto p).family = v :=
      fun v hv hhas => hfamily v hv (by simpa using hhas)
    rw [withProto?, accepts_withFamily? hcompat, accepts_withProto hproto]
    simp [and_assoc]

theorem accepts_withICMP? {o : Option ICMP} (htype : e.has .icmpType = false) (hcode : e.has .icmpCode = false) :
    (e.withICMP? o).Accepts pkt ↔ e.Accepts pkt ∧ ∀ i ∈ o, i.type = pkt.icmpType ∧
    (i.hasCode → i.code = pkt.icmpCode) := by
  cases o with
  | none => simp [withICMP?]
  | some i =>
    cases hhas : i.hasCode
    · simp [withICMP?, hhas, accepts_withICMPType htype]
    · rw [withICMP?, if_pos hhas, accepts_withICMPCode (by simp [hcode]), accepts_withICMPType htype]
      simp [hhas, and_assoc]

structure BaseAccepts (m : Match) (pkt : Packet) : Prop where
  family : ∀ f ∈ m.family, f = pkt.family
  proto : ∀ p ∈ m.proto, p = pkt.proto
  protoFamily : ∀ f ∈ protoFamily m.proto, f = pkt.family
  icmp : ∀ i ∈ m.icmp, i.type = pkt.icmpType ∧ (i.hasCode = true → i.code = pkt.icmpCode)

theorem accepts_baseEntry (index : UInt16) (hfam : ruleFamily r.matching ≠ some 0) :
    (baseEntry index r).Accepts pkt ↔ BaseAccepts r.matching pkt := by
  have hpath : ∀ k, k ≠ .allow → k ≠ .path → ((start index r.allow).withPath? r.matching.path).has k = false := by
    intro k hallow hpath
    simp [has_withPath?, has_start, hallow.symm, hpath.symm]
  have hcompat : ∀ v ∈ protoFamily r.matching.proto,
      (((start index r.allow).withPath? r.matching.path).withFamily? r.matching.family).has .family →
      (((start index r.allow).withPath? r.matching.path).withFamily? r.matching.family).family = v := by
    intro v hv hhas
    cases hf : r.matching.family with
    | none => simp [has_withFamily?, hpath, hf] at hhas
    | some f => exact family_eq_protoFamily hfam hf hv
  rw [baseEntry, accepts_withICMP? (by simp [has_withProto?, has_withFamily?, hpath])
    (by simp [has_withProto?, has_withFamily?, hpath]),
    accepts_withProto? (by simp [has_withFamily?, hpath]) hcompat,
    accepts_withFamily? (by simp [hpath]), accepts_withPath?]
  constructor
  · rintro ⟨⟨⟨-, hfamily⟩, hproto, hpf⟩, hicmp⟩
    exact ⟨hfamily, hproto, hpf, hicmp⟩
  · rintro ⟨hfamily, hproto, hpf, hicmp⟩
    exact ⟨⟨⟨accepts_start r.allow, hfamily⟩, hproto, hpf⟩, hicmp⟩

end Base

/-! ### Address pairs -/

section Pairs
variable {base e : Entry} {ap : AddressPair} {pkt : Packet}

structure PairAccepts (ap : AddressPair) (pkt : Packet) : Prop where
  src : ap.src.isValid = true → ap.src.contains pkt.src = true
  dst : ap.dst.isValid = true → ap.dst.contains pkt.dst = true
  family : ∀ f ∈ pairFamily ap, f = pkt.family

theorem has_withPair (k : EntryFlag) : (e.withPair ap).has k =
      (e.has k || (ap.src.isValid && decide (.source = k)) || (ap.dst.isValid && decide (.destination = k))) := by
  cases hs : ap.src.isValid <;> cases hd : ap.dst.isValid <;> simp [withPair, hs, hd]

theorem family_withPair : (e.withPair ap).family = e.family := by
  cases hs : ap.src.isValid <;> cases hd : ap.dst.isValid <;> simp [withPair, hs, hd] <;> rfl

theorem accepts_withPair (ap : AddressPair) (pkt : Packet) (hsrc : e.has .source = false)
    (hdst : e.has .destination = false) : (e.withPair ap).Accepts pkt ↔ e.Accepts pkt ∧
    (ap.src.isValid → ap.src.contains pkt.src) ∧ (ap.dst.isValid → ap.dst.contains pkt.dst) := by
  have hdst' : (e.withSource ap.src).has .destination = false := by simp [hdst]
  cases hs : ap.src.isValid <;> cases hd : ap.dst.isValid <;>
    simp [withPair, hs, hd, accepts_withSource hsrc, accepts_withDestination hdst,
      accepts_withDestination hdst', and_assoc]

theorem accepts_pairEntry (hsrc : base.has .source = false) (hdst : base.has .destination = false)
    (he : pairEntry base ap = some e) : e.Accepts pkt ↔ base.Accepts pkt ∧ PairAccepts ap pkt := by
  have hpair := accepts_withPair ap pkt hsrc hdst
  rw [pairEntry] at he
  split at he
  · rename_i hnone
    cases he
    rw [hpair]
    exact ⟨fun ⟨hb, hs, hd⟩ => ⟨hb, hs, hd, by simp [hnone]⟩, fun ⟨hb, hs, hd, _⟩ => ⟨hb, hs, hd⟩⟩
  rename_i fam hsome
  split_ifs at he with hcontra
  cases he
  have hsame : (base.withPair ap).has .family → (base.withPair ap).family = fam := by
    intro hhas
    rw [family_withPair]
    by_contra hne
    exact hcontra ⟨by simpa [has_withPair] using hhas, hne⟩
  rw [accepts_withFamily hsame, hpair]
  exact ⟨fun ⟨⟨hb, hs, hd⟩, hf⟩ => ⟨hb, hs, hd, by simpa [hsome] using hf⟩,
    fun ⟨hb, hs, hd, hf⟩ => ⟨⟨hb, hs, hd⟩, hf fam hsome⟩⟩

theorem pairEntry_isSome (hbase : base.Accepts pkt) (hpair : PairAccepts ap pkt) : ∃ e, pairEntry base ap = some e := by
  rw [pairEntry]
  split
  · exact ⟨_, rfl⟩
  rename_i fam hsome
  rw [if_neg]
  · exact ⟨_, rfl⟩
  · rintro ⟨hhas, hne⟩
    exact hne ((hbase .family hhas).trans (hpair.family fam hsome).symm)

variable {ps : List Prefix}

theorem mem_orInvalid {p : Prefix} : p ∈ orInvalid ps ↔ (ps = [] ∧ p = .invalid) ∨ p ∈ ps := by
  rw [orInvalid]
  split_ifs with h <;> simp [h]

variable {m : Match}

theorem mem_addressPairs : ap ∈ addressPairs m ↔ ap.src ∈ orInvalid m.source ∧ ap.dst ∈ orInvalid m.destination ∧
      ¬(ap.src.isValid ∧ ap.dst.isValid ∧ ap.src.addr.is4 ≠ ap.dst.addr.is4) := by
  simp only [addressPairs, mem_flatMap, mem_filterMap]
  constructor
  · rintro ⟨s, hs, d, hd, h⟩
    split_ifs at h with hmixed
    cases h
    exact ⟨hs, hd, hmixed⟩
  · rintro ⟨hs, hd, hmixed⟩
    exact ⟨ap.src, hs, ap.dst, hd, if_neg hmixed⟩

theorem exists_side_iff (hvalid : ∀ p ∈ ps, p.isValid) (a : Addr) :
    (∃ p ∈ orInvalid ps, p.isValid → p.contains a) ↔ ps = [] ∨ anyContains ps a := by
  simp only [mem_orInvalid, anyContains, any_eq_true]
  constructor
  · rintro ⟨p, ⟨hnil, -⟩ | hp, hcontains⟩
    · exact .inl hnil
    · exact .inr ⟨p, hp, hcontains (hvalid p hp)⟩
  · rintro (hnil | ⟨p, hp, hcontains⟩)
    · exact ⟨.invalid, .inl ⟨hnil, rfl⟩, fun h => absurd h (by simp)⟩
    · exact ⟨p, .inr hp, fun _ => hcontains⟩

theorem familyOf_eq_of_is4 {a b : Addr} (h : a.is4 = b.is4) : familyOf a = familyOf b := by
  rw [familyOf, familyOf, h]

theorem pairAccepts_of_sides {s d : Prefix} (hone : pkt.src.is4 = pkt.dst.is4)
    (hs : s.isValid → s.contains pkt.src) (hd : d.isValid → d.contains pkt.dst) :
    PairAccepts ⟨s, d⟩ pkt ∧ ¬(s.isValid ∧ d.isValid ∧ s.addr.is4 ≠ d.addr.is4) := by
  refine ⟨⟨hs, hd, ?_⟩, ?_⟩
  · intro f hf
    simp only [pairFamily] at hf
    split_ifs at hf with hsv hdv
    · exact (Option.some.inj hf).symm.trans (familyOf_eq_of_is4 (Prefix.is4_of_contains (hs hsv)))
    · exact (Option.some.inj hf).symm.trans (familyOf_eq_of_is4 ((Prefix.is4_of_contains (hd hdv)).trans hone.symm))
    · simp at hf
  · rintro ⟨hsv, hdv, hne⟩
    exact hne ((Prefix.is4_of_contains (hs hsv)).trans (hone.trans (Prefix.is4_of_contains (hd hdv)).symm))

theorem exists_pairAccepts_iff (hsource : ∀ p ∈ m.source, p.isValid)
    (hdest : ∀ p ∈ m.destination, p.isValid) (hone : pkt.src.is4 = pkt.dst.is4) :
    (∃ ap ∈ addressPairs m, PairAccepts ap pkt) ↔
      (m.source = [] ∨ anyContains m.source pkt.src) ∧ (m.destination = [] ∨ anyContains m.destination pkt.dst) := by
  rw [← exists_side_iff hsource, ← exists_side_iff hdest]
  constructor
  · rintro ⟨ap, hap, hpair⟩
    obtain ⟨hs, hd, -⟩ := mem_addressPairs.mp hap
    exact ⟨⟨ap.src, hs, hpair.src⟩, ⟨ap.dst, hd, hpair.dst⟩⟩
  · rintro ⟨⟨s, hs, hsc⟩, ⟨d, hd, hdc⟩⟩
    obtain ⟨hpair, hkept⟩ := pairAccepts_of_sides hone hsc hdc
    exact ⟨⟨s, d⟩, mem_addressPairs.mpr ⟨hs, hd, hkept⟩, hpair⟩

end Pairs

/-! ### Ports -/

section Ports
variable {e : Entry} {m : Match} {pkt : Packet}

theorem accepts_portEntry (hsp : e.has .sourcePorts = false) (hdp : e.has .destPorts = false) (sp dp : PortRange) :
    (portEntry m e sp dp).Accepts pkt ↔ e.Accepts pkt ∧ (m.sourcePorts ≠ [] → sp.contains pkt.srcPort) ∧
        (m.destPorts ≠ [] → dp.contains pkt.dstPort) := by
  have hdp' : (e.withSourcePorts sp).has .destPorts = false := by simp [hdp]
  by_cases hs : m.sourcePorts = [] <;> by_cases hd : m.destPorts = [] <;>
    simp [portEntry, hs, hd, accepts_withSourcePorts hsp, accepts_withDestPorts hdp,
      accepts_withDestPorts hdp', and_assoc]

theorem exists_port_iff (rs : List PortRange) (port : UInt16) :
    (∃ r ∈ orNoPorts rs, rs ≠ [] → r.contains port) ↔ rs = [] ∨ anyPort rs port := by
  by_cases h : rs = [] <;> simp [orNoPorts, anyPort, h]

end Ports

/-! ### Rules and their entries -/

section Rules
variable {index : UInt16} {r : Rule} {pkt : Packet}

theorem protoFamily_mem_iff {proto : Option Proto} {fam : Family} : (∀ f ∈ protoFamily proto, f = fam) ↔
      ∀ p ∈ proto, ¬((p = protoICMP ∧ fam ≠ familyIPv4) ∨ (p = protoICMPv6 ∧ fam ≠ familyIPv6)) := by
  cases proto with
  | none => simp [protoFamily]
  | some p =>
    have hne : protoICMPv6 ≠ protoICMP := by decide
    by_cases h4 : p = protoICMP
    · subst h4
      simp [protoFamily, hne.symm, eq_comm]
    by_cases h6 : p = protoICMPv6
    · subst h6
      simp [protoFamily, hne, eq_comm]
    · simp [protoFamily, h4, h6]

variable {α : Type}

theorem not_any_iff {o : Option α} {p : α → Prop} [DecidablePred p] :
    ¬o.any (fun a => decide (p a)) ↔ ∀ a ∈ o, ¬p a := by
  cases o <;> simp

theorem not_ne_nil_and {l : List α} {b : Bool} : ¬(l ≠ [] ∧ ¬b) ↔ l = [] ∨ b := by
  by_cases h : l = [] <;> simp [h]

theorem matchesExceptPath_iff (m : Match) : matchesExceptPath m pkt ↔ BaseAccepts m pkt ∧ ((m.source = [] ∨
      anyContains m.source pkt.src) ∧ (m.destination = [] ∨ anyContains m.destination pkt.dst)) ∧ (m.sourcePorts = [] ∨
      anyPort m.sourcePorts pkt.srcPort) ∧ (m.destPorts = [] ∨ anyPort m.destPorts pkt.dstPort) := by
  have hicmp : ∀ i : ICMP, ¬(pkt.icmpType ≠ i.type ∨ (i.hasCode ∧ pkt.icmpCode ≠ i.code)) ↔
      i.type = pkt.icmpType ∧ (i.hasCode → i.code = pkt.icmpCode) := by
    intro i
    simp only [not_or, not_and, not_not, eq_comm]
  simp only [matchesExceptPath, ite_false_eq_true, not_any_iff, not_ne_nil_and, hicmp, ← protoFamily_mem_iff,
    not_not, and_true]
  constructor
  · rintro ⟨hfamily, hproto, hpf, hs, hd, hsp, hdp, hi⟩
    exact ⟨⟨hfamily, hproto, hpf, hi⟩, ⟨hs, hd⟩, hsp, hdp⟩
  · rintro ⟨⟨hfamily, hproto, hpf, hi⟩, ⟨hs, hd⟩, hsp, hdp⟩
    exact ⟨hfamily, hproto, hpf, hs, hd, hsp, hdp, hi⟩

theorem not_baseAccepts {m : Match} (hfam : ruleFamily m = some 0) : ¬BaseAccepts m pkt := by
  have hpkt : pkt.family ≠ 0 := by
    rw [Packet.family, familyOf]
    split_ifs <;> decide
  rintro ⟨hfamily, -, hpf, -⟩
  have hzero : protoFamily m.proto ≠ some 0 := fun h => hpkt (hpf 0 h).symm
  rw [ruleFamily] at hfam
  split at hfam
  · rename_i f pf hf hpf'
    split_ifs at hfam with hne
    · exact hne ((hfamily f hf).trans (hpf pf hpf').symm)
    · exact hpkt ((hfamily f hf).symm.trans (Option.some.inj hfam))
  · rename_i f hf _
    exact hpkt ((hfamily f hf).symm.trans (Option.some.inj hfam))
  · exact hzero hfam

variable {e : Entry}

theorem mem_expandRule : e ∈ expandRule index r ↔ ruleFamily r.matching ≠ some 0 ∧
      ∃ ap ∈ addressPairs r.matching, ∃ pe, pairEntry (baseEntry index r) ap = some pe ∧
        ∃ sp ∈ orNoPorts r.matching.sourcePorts, ∃ dp ∈ orNoPorts r.matching.destPorts,
          portEntry r.matching pe sp dp = e := by
  rw [expandRule]
  split_ifs with hfam
  · simp [hfam]
  simp only [mem_flatMap, mem_filterMap, mem_map, ne_eq, hfam, not_false_eq_true, true_and]
  constructor
  · rintro ⟨pe, ⟨ap, hap, hpe⟩, hports⟩
    exact ⟨ap, hap, pe, hpe, hports⟩
  · rintro ⟨ap, hap, pe, hpe, hports⟩
    exact ⟨pe, ⟨ap, hap, hpe⟩, hports⟩

variable {pe : Entry} {ap : AddressPair}

theorem has_pairEntry (h : pairEntry (baseEntry index r) ap = some pe) :
    pe.has .sourcePorts = false ∧ pe.has .destPorts = false := by
  rw [pairEntry] at h
  split at h
  · cases h
    simp [has_withPair, has_baseEntry]
  · split_ifs at h
    cases h
    simp [has_withPair, has_baseEntry]

/-- **Expansion.** One of a rule's entries accepts a packet of one family exactly when the rule does. -/
theorem exists_accepts_iff (hsource : ∀ p ∈ r.matching.source, p.isValid)
    (hdest : ∀ p ∈ r.matching.destination, p.isValid) (hone : pkt.src.is4 = pkt.dst.is4) :
    (∃ e ∈ expandRule index r, e.Accepts pkt) ↔ matchesExceptPath r.matching pkt := by
  have hno : ∀ k, k = .source ∨ k = .destination → (baseEntry index r).has k = false := by
    rintro k (rfl | rfl) <;> simp [has_baseEntry]
  rw [matchesExceptPath_iff, ← exists_pairAccepts_iff hsource hdest hone, ← exists_port_iff, ← exists_port_iff]
  constructor
  · rintro ⟨e, he, hacc⟩
    obtain ⟨hfam, ap, hap, pe, hpe, sp, hsp, dp, hdp, rfl⟩ := mem_expandRule.mp he
    rw [accepts_portEntry (has_pairEntry hpe).1 (has_pairEntry hpe).2,
      accepts_pairEntry (hno _ (.inl rfl)) (hno _ (.inr rfl)) hpe, accepts_baseEntry index hfam] at hacc
    obtain ⟨⟨hbase, hpair⟩, hs, hd⟩ := hacc
    exact ⟨hbase, ⟨ap, hap, hpair⟩, ⟨sp, hsp, hs⟩, ⟨dp, hdp, hd⟩⟩
  rintro ⟨hbase, ⟨ap, hap, hpair⟩, ⟨sp, hsp, hs⟩, ⟨dp, hdp, hd⟩⟩
  have hfam : ruleFamily r.matching ≠ some 0 := fun h => not_baseAccepts h hbase
  have hacc := (accepts_baseEntry index hfam).mpr hbase
  obtain ⟨pe, hpe⟩ := pairEntry_isSome hacc hpair
  refine ⟨portEntry r.matching pe sp dp, mem_expandRule.mpr ⟨hfam, ap, hap, pe, hpe, sp, hsp, dp, hdp, rfl⟩, ?_⟩
  rw [accepts_portEntry (has_pairEntry hpe).1 (has_pairEntry hpe).2,
    accepts_pairEntry (hno _ (.inl rfl)) (hno _ (.inr rfl)) hpe]
  exact ⟨⟨hacc, hpair⟩, hs, hd⟩

/-! ### Outcomes -/

def Rule.outcome (r : Rule) (i : Nat) (pkt : Packet) : Option Verdict :=
  match r.matching.path with
  | none => some ⟨r.allow, i, .rule⟩
  | some path =>
    if pkt.path = .unknown then some .classificationError
    else if path ≠ pkt.path then none
    else some ⟨r.allow, i, .rule⟩

theorem sameOutcome_withFamily (e : Entry) (f : Family) : Entry.SameOutcome e (e.withFamily f) :=
  ⟨by simp, by simp, rfl, rfl⟩

theorem sameOutcome_baseEntry :
    Entry.SameOutcome ((start index r.allow).withPath? r.matching.path) (baseEntry index r) := by
  have hfamily : ∀ (e : Entry) o, Entry.SameOutcome e (e.withFamily? o) := by
    rintro e (- | f)
    · exact .refl e
    · exact sameOutcome_withFamily e f
  have hproto : ∀ (e : Entry) o, Entry.SameOutcome e (e.withProto? o) := by
    rintro e (- | p)
    · exact .refl e
    · have hset : Entry.SameOutcome e (e.withProto p) := ⟨by simp, by simp, rfl, rfl⟩
      exact hset.trans (hfamily (e.withProto p) _)
  have hicmp : ∀ (e : Entry) o, Entry.SameOutcome e (e.withICMP? o) := by
    rintro e (- | i)
    · exact .refl e
    · cases h : i.hasCode <;> simp only [withICMP?, h, Bool.false_eq_true, if_true, if_false]
      all_goals exact ⟨by simp, by simp, rfl, rfl⟩
  exact ((hfamily _ _).trans (hproto _ _)).trans (hicmp _ _)

theorem sameOutcome_pairEntry {base : Entry} (h : pairEntry base ap = some pe) : Entry.SameOutcome base pe := by
  have hpair : Entry.SameOutcome base (base.withPair ap) := by
    cases hs : ap.src.isValid <;> cases hd : ap.dst.isValid <;>
      simp only [withPair, hs, hd, Bool.false_eq_true, if_true, if_false] <;>
      exact ⟨by simp, by simp, rfl, rfl⟩
  rw [pairEntry] at h
  split at h
  · cases h
    exact hpair
  · split_ifs at h
    cases h
    exact hpair.trans (sameOutcome_withFamily _ _)

theorem sameOutcome_portEntry (m : Match) (e : Entry) (sp dp : PortRange) :
    Entry.SameOutcome e (portEntry m e sp dp) := by
  rw [portEntry]
  by_cases hs : m.sourcePorts = [] <;> by_cases hd : m.destPorts = [] <;>
    simp only [hs, hd, ne_eq, not_true_eq_false, not_false_eq_true, if_true, if_false] <;>
    exact ⟨by simp, by simp, rfl, rfl⟩

theorem outcome_of_mem_expandRule (he : e ∈ expandRule index r) : e.outcome pkt = r.outcome index.toNat pkt := by
  obtain ⟨-, ap, -, pe, hpe, sp, -, dp, -, rfl⟩ := mem_expandRule.mp he
  have hsame := (sameOutcome_baseEntry.trans (sameOutcome_pairEntry hpe)).trans
    (sameOutcome_portEntry r.matching pe sp dp)
  have hallow : ((start index r.allow).withPath? r.matching.path).has .allow = r.allow := by
    simp [has_withPath?, has_start]
  have hpath : ((start index r.allow).withPath? r.matching.path).has .path = r.matching.path.isSome := by
    simp [has_withPath?, has_start]
  have hrule : (start index r.allow).rule = index := by
    cases hr : r.allow <;> rfl
  rw [hsame.outcome_eq, outcome, hallow, hpath, Rule.outcome]
  cases hp : r.matching.path with
  | none => simp [withPath?, hrule]
  | some path => simp [withPath?, withPath, hrule]

theorem Rule.verdict_eq (r : Rule) (i : Nat) (pkt : Packet) :
    r.verdict i pkt = if matchesExceptPath r.matching pkt then r.outcome i pkt else none := by
  cases h : matchesExceptPath r.matching pkt with
  | false => simp [Rule.verdict, h]
  | true =>
    simp only [Rule.verdict, h, not_true_eq_false, if_false, if_true]
    rfl

end Rules

/-! ### Policies -/

def Policy.PrefixesValid (p : Policy) : Prop :=
  ∀ r ∈ p.rules, (∀ q ∈ r.matching.source, q.isValid = true) ∧ ∀ q ∈ r.matching.destination, q.isValid = true

instance (p : Policy) : Decidable p.PrefixesValid := by
  unfold Policy.PrefixesValid
  infer_instance

theorem findSome?_expandRule {index : UInt16} {r : Rule} {pkt : Packet} (hsource : ∀ p ∈ r.matching.source, p.isValid)
    (hdest : ∀ p ∈ r.matching.destination, p.isValid) (hone : pkt.src.is4 = pkt.dst.is4) :
    (expandRule index r).findSome? (·.verdict pkt) = r.verdict index.toNat pkt := by
  have hentry : ∀ e ∈ expandRule index r,
      e.verdict pkt = if e.Accepts pkt then r.outcome index.toNat pkt else none := by
    intro e he
    rw [verdict_eq, outcome_of_mem_expandRule he]
  rw [FirstMatch.findSome?_uniform hentry, Rule.verdict_eq]
  simp only [exists_accepts_iff hsource hdest hone]

/-- **Compiled-policy correctness.** On a packet whose addresses are of one family, the compiled entries give
the verdict of the policy: the decision, the rule's index and the reason. -/
theorem evaluateEntries_compile {p : Policy} {entries : List Entry} {pkt : Packet} (hvalid : p.PrefixesValid)
    (hcompile : compile p = .ok entries) (hone : pkt.src.is4 = pkt.dst.is4) :
    evaluateEntries entries pkt = evaluate p pkt := by
  rw [compile] at hcompile
  split_ifs at hcompile with hrules hcount
  cases hcompile
  rw [evaluateEntries, evaluate, FirstMatch.findSome?_flatMap]
  congr 1
  apply FirstMatch.findSome?_congr
  rintro ⟨r, i⟩ hmem
  obtain ⟨-, hi, hr⟩ := mem_zipIdx hmem
  have hmem : r ∈ p.rules := hr ▸ getElem_mem _
  have hindex : (UInt16.ofNat i).toNat = i := by
    rw [UInt16.toNat_ofNat']
    simp only [maxRules] at hrules
    omega
  obtain ⟨hsource, hdest⟩ := hvalid r hmem
  rw [findSome?_expandRule hsource hdest hone, hindex]

/-- Allows web traffic on the private path from two networks of different families, and denies the rest. -/
def webPolicy : Policy :=
  ⟨[⟨"web", true, { Match.any with
      path := some .priv, proto := some protoTCP,
      source := [.ofAddr (.v4 ⟨[10, 0, 0, 0], rfl⟩) 8,
        .ofAddr (.v6 ⟨[0xfd, 0, 0, 0, 0, 0, 0, 0, 0, 0, 0, 0, 0, 0, 0, 0], rfl⟩ "") 8],
      destPorts := [⟨80, 80⟩, ⟨443, 443⟩] }⟩,
    ⟨"deny-all", false, .any⟩]⟩

def webPacket : Packet :=
  ⟨.priv, .v4 ⟨[10, 1, 2, 3], rfl⟩, .v4 ⟨[192, 0, 2, 1], rfl⟩, protoTCP, 40000, 443, 0, 0⟩

theorem evaluateEntries_webPolicy : ∃ entries, compile webPolicy = .ok entries ∧ entries.length = 5 ∧
    evaluateEntries entries webPacket = evaluate webPolicy webPacket ∧
    evaluate webPolicy webPacket = ⟨true, 0, .rule⟩ := by
  refine ⟨_, rfl, by decide, ?_, by decide⟩
  exact evaluateEntries_compile (p := webPolicy) (by decide) rfl rfl

end Galactic.TrafficPolicy
