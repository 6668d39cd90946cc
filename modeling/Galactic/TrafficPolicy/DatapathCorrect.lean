import Galactic.TrafficPolicy.Correct
import Galactic.TrafficPolicy.Datapath
import Galactic.TrafficPolicy.FromAPI

/-!
# The datapath decides as the evaluator does

The masked word comparison of the datapath is `Prefix.Contains` for addresses of the prefix's own family
(`tpPrefixMatch_eq_contains`). It never looks at the family, and ports are only there for TCP and UDP, so the walk
relies on what the compiler puts into every entry of an accepted policy (`Entry.Ready`). -/

namespace Galactic.TrafficPolicy
open Net ByteWord List Addr IP Option

/-! ### Prefixes -/

section
variable {n : Nat} {p b m : List UInt8} {s : Scratch}

theorem prefixMask_eq (hn : n ≤ 128) : prefixMask n = maskBytes 16 n := by
  have hall : ∀ n : Fin 129, prefixMask n = maskBytes 16 n := by decide +kernel
  exact hall ⟨n, by omega⟩

theorem masked_xor_eq_zero_iff (p b m : UInt8) : ((p &&& m) ^^^ b) &&& m = 0 ↔ b &&& m = p &&& m := by
  have hdist : ((p &&& m) ^^^ b) &&& m = (p &&& m) ^^^ (b &&& m) := by
    rw [← UInt8.toBitVec_inj]
    ext i
    simp only [UInt8.toBitVec_and, UInt8.toBitVec_xor, BitVec.getElem_and, BitVec.getElem_xor]
    cases m.toBitVec[i] <;> simp
  rw [hdist, UInt8.xor_eq_zero_iff]
  exact eq_comm

theorem maskedDiff_eq_zero_iff (hp : p.length = m.length) (hb : b.length = m.length) :
    (∀ x ∈ maskedDiff (zipWith (· &&& ·) p m) b m, x = 0) ↔ maskWith b m = maskWith p m := by
  induction m generalizing p b with
  | nil =>
    simp [maskedDiff, maskWith]
  | cons y m ih =>
    obtain ⟨x, p, rfl⟩ := exists_cons_of_length_eq_add_one hp
    obtain ⟨z, b, rfl⟩ := exists_cons_of_length_eq_add_one hb
    have hrest := ih (p := p) (b := b) (by simpa using hp) (by simpa using hb)
    simp only [maskedDiff, maskWith, zipWith_cons_cons, forall_mem_cons, List.cons.injEq] at hrest ⊢
    rw [masked_xor_eq_zero_iff, hrest]

theorem loadWords_masked_iff (o : Endian) (hp : p.length = 16) (hb : b.length = 16) (hm : m.length = 16) :
    (((loadWords o (zipWith (· &&& ·) p m)).1 ^^^ (loadWords o b).1) &&& (loadWords o m).1) |||
        (((loadWords o (zipWith (· &&& ·) p m)).2 ^^^ (loadWords o b).2) &&& (loadWords o m).2) = 0 ↔
      maskWith b m = maskWith p m := by
  rw [← maskedDiff_eq_zero_iff (by rw [hp, hm]) (by rw [hb, hm]), UInt64.or_eq_zero_iff]
  simp only [loadWords]
  rw [o.masked_eq_zero_iff (by simp [hp, hm]) (by simp [hb]) (by simp [hm]),
    o.masked_eq_zero_iff (by simp [hp, hm]) (by simp [hb]) (by simp [hm])]
  simp only [maskedDiff, ← take_zipWith, ← drop_zipWith]
  rw [← forall_mem_append, take_append_drop]

theorem maskBytes_append (hn : n ≤ 32) : maskBytes 16 n = maskBytes 4 n ++ replicate 12 0 := by
  have hall : ∀ n : Fin 33, maskBytes 16 n = maskBytes 4 n ++ replicate 12 0 := by decide +kernel
  exact hall ⟨n, by omega⟩

theorem maskWith_v4_iff (hn : n ≤ 32) (a : List.Vector UInt8 16) (b : List.Vector UInt8 4) :
    maskWith a.toList (maskBytes 16 n) = maskWith (b.toList ++ replicate 12 0) (maskBytes 16 n) ↔
      maskWith (a.toList.take 4) (maskBytes 4 n) = maskWith b.toList (maskBytes 4 n) := by
  have hsplit : a.toList = a.toList.take 4 ++ a.toList.drop 4 := (take_append_drop 4 _).symm
  have hzero : ∀ l : List UInt8, zipWith (· &&& ·) l (replicate l.length (0 : UInt8)) = replicate l.length 0 := by
    intro l
    induction l with
    | nil => rfl
    | cons x l ih => simp [replicate_succ, ih]
  have htail := hzero (a.toList.drop 4)
  rw [show (a.toList.drop 4).length = 12 by simp] at htail
  rw [maskBytes_append hn, hsplit]
  simp only [maskWith]
  rw [zipWith_append (by simp), zipWith_append (by simp), htail,
    show zipWith (· &&& ·) (replicate 12 (0 : UInt8)) (replicate 12 0) = replicate 12 0 from rfl,
    append_left_inj]
  simp

theorem tpPrefixMatch_eq_contains (o : Endian) {p : Prefix} (hp : p.isValid) (hfam : familyOf p.addr = s.family)
    (b : List.Vector UInt8 16) : tpPrefixMatch o (sideWords o p).1 (sideWords o p).2 b = p.contains (s.addr b) := by
  obtain ⟨n, hn⟩ := isSome_iff_exists.mp hp
  obtain ⟨hzero, hle⟩ := p.bits_le n hn
  have hle128 : n ≤ 128 := hle.trans (by cases p.addr <;> simp [bitLen])
  have hlen : (prefixAddr p).length = 16 := by
    rw [prefixAddr]
    cases p.addr <;> simp [as16]
  rw [Bool.eq_iff_iff, tpPrefixMatch, sideWords, if_pos hp]
  simp only [prefixWords, hn, getD_some, prefixMask_eq hle128, decide_eq_true_eq]
  rw [loadWords_masked_iff o hlen b.toList_length (length_maskBytes 16 n), Prefix.contains, hn]
  simp only [Bool.decide_and, Bool.and_eq_true, decide_eq_true_eq]
  have h46 : familyIPv6 ≠ familyIPv4 := by decide
  cases haddr : p.addr with
  | zero => exact absurd haddr hzero
  | v4 q =>
    have h4 : s.family = familyIPv4 := by rw [← hfam, haddr]; rfl
    have hle32 : n ≤ 32 := by rwa [haddr] at hle
    simp only [prefixAddr, haddr, maskWith_v4_iff hle32, Scratch.addr, h4, if_true, zone, bitLen, bytes, true_and]
    simp [List.Vector.toList]
  | v6 q z =>
    have h6 : s.family = familyIPv6 := by rw [← hfam, haddr]; rfl
    simp [prefixAddr, haddr, Scratch.addr, h6, h46, zone, bitLen, bytes, as16]

theorem family_packet (hs : s.Captured) (path : Path) : (s.packet path).family = s.family := by
  have h46 : familyIPv6 ≠ familyIPv4 := by decide
  rcases hs.family with h | h <;> simp [Packet.family, Scratch.packet, Scratch.addr, familyOf, h, h46, is4]

end

theorem is4_packet (s : Scratch) (path : Path) : (s.packet path).src.is4 = (s.packet path).dst.is4 := by
  simp only [Scratch.packet, Scratch.addr]
  split_ifs <;> rfl

/-! ### Entries of accepted policies -/

structure Entry.Ready (e : Entry) : Prop where
  source : e.has .source = true →
    e.source.isValid = true ∧ e.has .family = true ∧ e.family = familyOf e.source.addr
  destination : e.has .destination = true →
    e.destination.isValid = true ∧ e.has .family = true ∧ e.family = familyOf e.destination.addr
  sourcePorts : e.has .sourcePorts = true → e.has .proto = true ∧ isTransport (some e.proto) = true
  destPorts : e.has .destPorts = true → e.has .proto = true ∧ isTransport (some e.proto) = true

section Ready
variable {index : UInt16} {r : Rule}

theorem proto_withICMP? (e : Entry) (o : Option ICMP) : (e.withICMP? o).proto = e.proto := by
  cases o with
  | none => rfl
  | some i => cases h : i.hasCode <;> simp only [Entry.withICMP?, h] <;> rfl

theorem proto_withProto? (e : Entry) (p : Proto) : (e.withProto? (some p)).proto = p := by
  rw [Entry.withProto?, Entry.withFamily?]
  cases protoFamily (some p) <;> rfl

section
variable {e : Entry} {ap : AddressPair}

theorem proto_of_mem_expandRule (he : e ∈ expandRule index r) :
    (e.has .proto ↔ r.matching.proto.isSome) ∧ ∀ p ∈ r.matching.proto, e.proto = p := by
  obtain ⟨-, ap, -, pe, hpe, sp, -, dp, -, rfl⟩ := mem_expandRule.mp he
  have hport : (portEntry r.matching pe sp dp).has .proto = pe.has .proto ∧
      (portEntry r.matching pe sp dp).proto = pe.proto := by
    rw [portEntry]
    split_ifs <;> exact ⟨by simp, rfl⟩
  have hpair : pe.has .proto = (baseEntry index r).has .proto ∧ pe.proto = (baseEntry index r).proto := by
    have hsides : ((baseEntry index r).withPair ap).proto = (baseEntry index r).proto := by
      simp only [Entry.withPair]
      split_ifs <;> rfl
    rw [pairEntry] at hpe
    split at hpe
    · cases hpe
      exact ⟨by simp [has_withPair], hsides⟩
    · split_ifs at hpe
      cases hpe
      exact ⟨by simp [has_withPair], hsides⟩
  rw [hport.1, hport.2, hpair.1, hpair.2]
  refine ⟨by simp [has_baseEntry], fun p hp => ?_⟩
  rw [mem_def] at hp
  rw [baseEntry, proto_withICMP?, hp, proto_withProto?]

theorem source_withPair (e : Entry) (h : ap.src.isValid) : (e.withPair ap).source = ap.src := by
  simp only [Entry.withPair, h, if_true]
  split_ifs <;> rfl

theorem destination_withPair (e : Entry) (h : ap.dst.isValid) : (e.withPair ap).destination = ap.dst := by
  simp only [Entry.withPair, h, if_true]
  rfl

theorem addresses_pairEntry {base pe : Entry} (hsrc : base.has .source = false)
    (hdst : base.has .destination = false) (hpe : pairEntry base ap = some pe)
    (hkept : ¬(ap.src.isValid ∧ ap.dst.isValid ∧ ap.src.addr.is4 ≠ ap.dst.addr.is4)) :
    (pe.has .source → pe.source.isValid ∧ pe.has .family ∧ pe.family = familyOf pe.source.addr) ∧
      (pe.has .destination → pe.destination.isValid ∧ pe.has .family ∧ pe.family = familyOf pe.destination.addr) := by
  rw [pairEntry] at hpe
  split at hpe
  · rename_i hnone
    cases hpe
    cases hs : ap.src.isValid <;> cases hd : ap.dst.isValid <;> simp [pairFamily, hs, hd] at hnone
    simp [has_withPair, hsrc, hdst, hs, hd]
  rename_i fam hsome
  split_ifs at hpe with hcontra
  cases hpe
  have hfamily : ((base.withPair ap).withFamily fam).has .family := by simp
  constructor
  · intro hhas
    have hs : ap.src.isValid := by simpa [has_withPair, hsrc] using hhas
    change (base.withPair ap).source.isValid ∧ _ ∧ fam = familyOf (base.withPair ap).source.addr
    rw [source_withPair base hs]
    refine ⟨hs, hfamily, ?_⟩
    simpa [pairFamily, hs, eq_comm] using hsome
  intro hhas
  have hd : ap.dst.isValid := by simpa [has_withPair, hdst] using hhas
  change (base.withPair ap).destination.isValid ∧ _ ∧ fam = familyOf (base.withPair ap).destination.addr
  rw [destination_withPair base hd]
  refine ⟨hd, hfamily, ?_⟩
  cases hs : ap.src.isValid with
  | false => simpa [pairFamily, hs, hd, eq_comm] using hsome
  | true =>
    -- both sides are constrained: the family is the source's, and the pair has one family
    have hsame : ap.src.addr.is4 = ap.dst.addr.is4 := by
      by_contra hne
      exact hkept ⟨hs, hd, hne⟩
    rw [← familyOf_eq_of_is4 hsame]
    simpa [pairFamily, hs, eq_comm] using hsome

theorem ready_of_mem_expandRule (hr : r.matching.Admitted) (he : e ∈ expandRule index r) : e.Ready := by
  have hproto := proto_of_mem_expandRule he
  have htransport : isTransport r.matching.proto → e.has .proto ∧ isTransport (some e.proto) := by
    intro h
    cases hp : r.matching.proto with
    | none => simp [hp, isTransport] at h
    | some p => exact ⟨hproto.1.mpr (by simp [hp]), by rw [hproto.2 p hp, ← hp]; exact h⟩
  obtain ⟨-, ap, hap, pe, hpe, sp, -, dp, -, rfl⟩ := mem_expandRule.mp he
  obtain ⟨-, -, hkept⟩ := mem_addressPairs.mp hap
  obtain ⟨hsource, hdest⟩ := addresses_pairEntry (by simp [has_baseEntry]) (by simp [has_baseEntry]) hpe hkept
  have hports := has_pairEntry hpe
  have hkeep : ∀ k, k ≠ .sourcePorts → k ≠ .destPorts → (portEntry r.matching pe sp dp).has k = pe.has k := by
    intro k h1 h2
    rw [portEntry]
    split_ifs <;> simp [h1.symm, h2.symm]
  have hfields : (portEntry r.matching pe sp dp).source = pe.source ∧
      (portEntry r.matching pe sp dp).destination = pe.destination ∧
      (portEntry r.matching pe sp dp).family = pe.family := by
    rw [portEntry]
    split_ifs <;> exact ⟨rfl, rfl, rfl⟩
  constructor
  · rw [hkeep .source (by simp) (by simp), hkeep .family (by simp) (by simp), hfields.1, hfields.2.2]
    exact hsource
  · rw [hkeep .destination (by simp) (by simp), hkeep .family (by simp) (by simp), hfields.2.1, hfields.2.2]
    exact hdest
  · intro hhas
    refine htransport (hr.sourcePorts fun hnil => ?_)
    rw [portEntry] at hhas
    split_ifs at hhas <;> simp_all
  · intro hhas
    refine htransport (hr.destPorts fun hnil => ?_)
    rw [portEntry] at hhas
    split_ifs at hhas <;> simp_all

end

end Ready

/-! ### One slot -/

theorem tpFlag_eq (k : EntryFlag) : tpFlag k = k.bit := by cases k <;> decide

theorem has_encodeEntry (o : Endian) (e : Entry) (k : EntryFlag) : (encodeEntry o e).has k = e.has k := by
  rw [TpEntry.has, tpFlag_eq]
  rfl

theorem Path.code_inj {p q : Path} : p.code = q.code ↔ p = q := by
  cases p <;> cases q <;> decide

theorem port_iff {s : Scratch} (hs : s.Captured) (hproto : s.proto = protoTCP ∨ s.proto = protoUDP) (r : PortRange)
    (port : UInt16) : (¬s.hasPorts ∨ port < r.start ∨ r.stop < port) ↔ ¬r.contains port := by
  have hports : s.hasPorts := hs.hasPorts.mpr hproto
  simp only [hports, not_true_eq_false, false_or, PortRange.contains, Bool.decide_and, Bool.and_eq_true,
    decide_eq_true_eq, not_and_or, UInt16.not_le]

section Slot
variable {o : Endian} {e : Entry} {s : Scratch} {path : Path}

theorem tpFieldsMatch_iff (path : Path) (he : e.Ready) (hs : s.Captured) :
    tpFieldsMatch o (encodeEntry o e) s ↔ e.Accepts (s.packet path) := by
  have hfamily := family_packet hs path
  have hsrc : e.has .source → e.family = s.family →
      tpPrefixMatch o (sideWords o e.source).1 (sideWords o e.source).2 s.src = e.source.contains (s.addr s.src) :=
    fun h hf => tpPrefixMatch_eq_contains o (he.source h).1 ((he.source h).2.2.symm.trans hf) s.src
  have hdst : e.has .destination → e.family = s.family →
      tpPrefixMatch o (sideWords o e.destination).1 (sideWords o e.destination).2 s.dst =
        e.destination.contains (s.addr s.dst) :=
    fun h hf => tpPrefixMatch_eq_contains o (he.destination h).1 ((he.destination h).2.2.symm.trans hf) s.dst
  have htransport : isTransport (some e.proto) → e.proto = s.proto → s.proto = protoTCP ∨ s.proto = protoUDP := by
    intro h heq
    simpa [isTransport, heq] using h
  rw [← Entry.matchesExceptPath_iff, entryMatchesExceptPath, tpFieldsMatch]
  simp only [ite_false_eq_true, has_encodeEntry]
  simp only [encodeEntry, and_true, not_and, not_not, ne_eq, hfamily]
  -- the addresses are compared in the family that matched, the ports under the protocol
  refine and_congr_right fun h1 => and_congr_right fun h2 => ?_
  refine and_congr (forall_congr' fun hk => ?_) (and_congr (forall_congr' fun hk => ?_)
    (and_congr (forall_congr' fun hk => ?_) (and_congr (forall_congr' fun hk => ?_) Iff.rfl)))
  · rw [hsrc hk (h1 (he.source hk).2.1)]
    rfl
  · rw [hdst hk (h1 (he.destination hk).2.1)]
    rfl
  · obtain ⟨hp, ht⟩ := he.sourcePorts hk
    rw [port_iff hs (htransport ht (h2 hp)), not_not]
    rfl
  · obtain ⟨hp, ht⟩ := he.destPorts hk
    rw [port_iff hs (htransport ht (h2 hp)), not_not]
    rfl

theorem tpMatchEntry_eq (he : e.Ready) (hs : s.Captured) (hpath : s.path = path.code) {idx : Nat} (h0 : idx ≠ 0)
    (hcount : idx ≤ s.count) :
    tpMatchEntry o idx (encodeEntry o e) s =
      if e.Accepts (s.packet path) then
        if e.has .path ∧ path = .unknown then (true, { s with result := .classificationError })
        else if e.has .path ∧ e.path ≠ path then (false, s)
        else (true, { s with result := .matched, rule := e.rule.toUInt32, allow := e.has .allow })
      else (false, s) := by
  have hiff := tpFieldsMatch_iff (o := o) path he hs
  have hcode : (encodeEntry o e).path = e.path.code := rfl
  have hrule : (encodeEntry o e).rule = e.rule := rfl
  rw [tpMatchEntry, if_neg h0, if_neg (Nat.not_lt.mpr hcount)]
  simp only [has_encodeEntry, hpath, hcode, hrule, ne_eq, Path.code_inj]
  by_cases hacc : e.Accepts (s.packet path)
  · rw [if_neg (not_not.mpr (hiff.mpr hacc)), if_pos hacc]
  · rw [if_pos fun h => hacc (hiff.mp h), if_neg hacc]

theorem outcome_packet : e.outcome (s.packet path) = if e.has .path ∧ path = .unknown then some .classificationError
    else if e.has .path ∧ e.path ≠ path then none
    else some ⟨e.has .allow, e.rule.toNat, .rule⟩ := rfl

section
variable (he : e.Ready) (hs : s.Captured) (hpath : s.path = path.code) {idx : Nat} (h0 : idx ≠ 0)
  (hcount : idx ≤ s.count)

include he hs hpath h0 hcount

theorem tpMatchEntry_of_none (hv : e.verdict (s.packet path) = none) :
    tpMatchEntry o idx (encodeEntry o e) s = (false, s) := by
  rw [tpMatchEntry_eq he hs hpath h0 hcount]
  rw [Entry.verdict_eq, outcome_packet] at hv
  split_ifs at hv ⊢ <;> rfl

theorem tpMatchEntry_of_some {v : Verdict} (hv : e.verdict (s.packet path) = some v) :
    ∃ s', tpMatchEntry o idx (encodeEntry o e) s = (true, s') ∧ s'.verdict = v := by
  rw [tpMatchEntry_eq he hs hpath h0 hcount]
  rw [Entry.verdict_eq, outcome_packet] at hv
  split_ifs at hv ⊢
  · exact ⟨_, rfl, some.inj hv⟩
  · refine ⟨_, rfl, ?_⟩
    simpa [Scratch.verdict] using hv

end

end Slot

/-! ### The walk -/

/-- The walk over the encoded entries, from index `idx` on, is the walk over the entries. The slots behind
the count are never looked at. -/
theorem tpWalk_entries (o : Endian) (path : Path) (entries : List Entry) (hready : ∀ e ∈ entries, e.Ready)
    (rest : List TpEntry) (idx : Nat) (h0 : idx ≠ 0) (s : Scratch) (hs : s.Captured) (hpath : s.path = path.code)
    (hresult : s.result = .none) (hcount : idx + entries.length = s.count + 1) :
    (tpWalk o idx (entries.map (encodeEntry o) ++ rest) s).verdict = evaluateEntries entries (s.packet path) := by
  induction entries generalizing idx with
  | nil =>
    have hdone : s.verdict = .noMatch := by rw [Scratch.verdict, hresult]
    cases rest with
    | nil => exact hdone
    | cons e rest =>
      have hstop : tpMatchEntry o idx e s = (true, s) := by
        rw [tpMatchEntry, if_neg h0, if_pos (by simp at hcount; omega)]
      rw [map_nil, nil_append, tpWalk, hstop]
      exact hdone
  | cons e entries ih =>
    have hready_e := hready e (by simp)
    have hidx : idx ≤ s.count := by simp at hcount; omega
    rw [map_cons, cons_append, tpWalk, evaluateEntries, findSome?_cons]
    cases hv : e.verdict (s.packet path) with
    | none =>
      rw [tpMatchEntry_of_none hready_e hs hpath h0 hidx hv]
      exact ih (fun e' he' => hready e' (by simp [he'])) (idx + 1) (by omega) (by simp at hcount; omega)
    | some v =>
      obtain ⟨s', hstop, hverdict⟩ := tpMatchEntry_of_some (o := o) hready_e hs hpath h0 hidx hv
      rw [hstop]
      exact hverdict

/-- **The datapath evaluates what the control plane compiled.** An accepted policy compiles, and for every
captured packet and path, walking a snapshot that holds the encoded entries behind its header ends with the
evaluator's verdict. -/
theorem tpDecideWalk_eq_evaluate (o : Endian) {spec : Api.TrafficPolicySpec} {fieldPath : FieldPath} {p : Policy}
    (hp : fromAPI spec fieldPath = .ok p) :
    ∃ entries, compile p = .ok entries ∧ ∀ (header : TpEntry) (rest : List TpEntry) (s : Scratch) (path : Path),
      s.Captured → (tpDecideWalk o (header :: entries.map (encodeEntry o) ++ rest) entries.length path s).verdict =
        evaluate p (s.packet path) := by
  obtain ⟨entries, hentries, hcompile⟩ : ∃ entries, entries = _ ∧ compile p = .ok entries :=
    ⟨_, rfl, compile_of_fromAPI hp⟩
  obtain ⟨-, -, hadmitted⟩ := fromAPI_inv hp
  have hready : ∀ e ∈ entries, e.Ready := by
    intro e he
    rw [hentries] at he
    obtain ⟨⟨r, i⟩, hmem, he⟩ := mem_flatMap.mp he
    obtain ⟨-, -, hr⟩ := mem_zipIdx hmem
    exact ready_of_mem_expandRule (hadmitted r (hr ▸ getElem_mem _)) he
  refine ⟨entries, hcompile, fun header rest s path hs => ?_⟩
  have hvalid : p.PrefixesValid := fun r hr => ⟨(hadmitted r hr).source, (hadmitted r hr).destination⟩
  have hheader : ∀ s : Scratch, tpMatchEntry o 0 header s = (false, s) := fun s => if_pos rfl
  have hwalk := tpWalk_entries o path _ hready rest 1 (by omega)
    { s with count := _, path := path.code, result := .none } ⟨hs.family, hs.hasPorts⟩ rfl rfl (Nat.add_comm _ _)
  rw [tpDecideWalk, cons_append, tpWalk, hheader]
  exact hwalk.trans (evaluateEntries_compile hvalid hcompile (is4_packet s path))

def webSpec : Api.TrafficPolicySpec :=
  ⟨[⟨"web", "Allow", some {
      path := some "Private", protocol := some "TCP",
      sourceCIDRs := some ["10.0.0.0/8", "fd00::/8"],
      destinationPorts := some [⟨80, 80⟩, ⟨443, 443⟩] }⟩]⟩

/-- A captured TCP packet from 10.1.2.3 to 192.0.2.1, port 443. -/
def webScratch : Scratch where
  family := 4
  proto := 6
  hasPorts := true
  icmpType := 0
  icmpCode := 0
  path := 0
  result := .none
  sport := 40000
  dport := 443
  count := 0
  rule := 0
  allow := false
  src := ⟨[10, 1, 2, 3, 0, 0, 0, 0, 0, 0, 0, 0, 0, 0, 0, 0], rfl⟩
  dst := ⟨[192, 0, 2, 1, 0, 0, 0, 0, 0, 0, 0, 0, 0, 0, 0, 0], rfl⟩

theorem tpDecideWalk_webSpec :
    ∃ p entries, fromAPI webSpec "spec" = .ok p ∧ compile p = .ok entries ∧ webScratch.Captured ∧
      ∀ header, (tpDecideWalk .little (header :: entries.map (encodeEntry .little) ++ []) entries.length .priv
        webScratch).verdict = ⟨true, 0, .rule⟩ := by
  obtain ⟨p, hp, hallow⟩ : ∃ p, fromAPI webSpec "spec" = .ok p ∧
      evaluate p (webScratch.packet .priv) = ⟨true, 0, .rule⟩ := ⟨_, rfl, rfl⟩
  have hcaptured : webScratch.Captured := ⟨by decide, by decide⟩
  obtain ⟨entries, hcompile, hwalk⟩ := tpDecideWalk_eq_evaluate .little hp
  refine ⟨p, entries, hp, hcompile, hcaptured, fun header => ?_⟩
  rw [hwalk header [] webScratch .priv hcaptured, hallow]

end Galactic.TrafficPolicy
