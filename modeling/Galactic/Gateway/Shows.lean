import Galactic.Gateway.Spares

/-!
# Maps that show a set of rules

The abstract view of the maps: a partial function from names to rules, whose rows and ranges are in the maps, each with
its own rule's tables. -/

namespace Galactic.Gateway

open Net FallibleProg List Function Datapath

/-! ### Rules that the datapath takes -/

/-- The datapath has numbers for the rule's words, addresses for its keys, a table for each family that it has an
address of, and a range only of UDP ports of IPv6 addresses. -/
def Accepted (rule : DesiredRule) : Prop :=
  (protoNumber rule).isOk = true ∧ (affinityNumber rule).isOk = true ∧
  (∀ vip ∈ rule.vipAddresses, (toWireAddr vip).isSome = true ∧ vip.zone = "" ∧
    (buildMaglevTable rule (rule.backendsFor vip) >>= fun fam => toWireBackends 0 fam.backends).isOk = true) ∧
  (rule.portEnd ≠ 0 → rule.protocol = protocolUDP ∧ rule.port ≠ 0 ∧ rule.port ≤ rule.portEnd ∧
    ∀ vip ∈ rule.vipAddresses, vip.is6 = true ∧ vip.is4In6 = false)

instance (rule : DesiredRule) : Decidable (Accepted rule) := by unfold Accepted; infer_instance

def ruleKeys (rule : DesiredRule) : List VIPKey := (vipKeysForRule rule).toOption.getD []

variable {r r' rule : DesiredRule} {key key' : VIPKey} {raw wk : WireKey}

theorem exists_of_isOk {ε α : Type} {x : Except ε α} (h : x.isOk) : ∃ a, x = .ok a := by
  rcases x with e | a
  · cases h
  · exact ⟨a, rfl⟩

theorem Accepted.keys (h : Accepted rule) :
    ∃ proto, protoNumber rule = .ok proto ∧ vipKeysForRule rule = .ok (ruleKeys rule) ∧
      ruleKeys rule = rule.vipAddresses.map fun vip => ⟨proto, rule.port, vip⟩ := by
  obtain ⟨proto, hproto⟩ := exists_of_isOk h.1
  have hkeys : vipKeysForRule rule = .ok (rule.vipAddresses.map fun vip => ⟨proto, rule.port, vip⟩) := by
    unfold vipKeysForRule
    rw [hproto]
  have hrule : ruleKeys rule = rule.vipAddresses.map fun vip => ⟨proto, rule.port, vip⟩ := by
    unfold ruleKeys
    rw [hkeys]
    rfl
  exact ⟨proto, hproto, hrule ▸ hkeys, hrule⟩

theorem Accepted.mem_keys (h : Accepted rule) (hkey : key ∈ ruleKeys rule) :
    protoNumber rule = .ok key.proto ∧ key.vport = rule.port ∧ key.vip ∈ rule.vipAddresses := by
  obtain ⟨proto, hproto, -, hrule⟩ := h.keys
  rw [hrule] at hkey
  obtain ⟨vip, hvip, rfl⟩ := mem_map.mp hkey
  exact ⟨hproto, rfl, hvip⟩

theorem Accepted.wireable (h : Accepted rule) (hkey : key ∈ ruleKeys rule) : (toWireKey key).isSome := by
  rw [toWireKey_isSome]
  exact (h.2.2.1 _ (h.mem_keys hkey).2.2).1

theorem Accepted.port_le (h : Accepted rule) : rule.port ≤ lastPort rule := by
  unfold lastPort
  split_ifs with hend
  · exact (h.2.2.2 hend).2.2.1
  · exact UInt16.le_refl _

/-! ### Keys in common -/

theorem beU16_beU16 (v : UInt16) : beU16 (beU16 v) = v := by
  unfold beU16
  apply UInt16.toBitVec_inj.mp
  simp only [UInt16.toBitVec_or, UInt16.toBitVec_shiftLeft, UInt16.toBitVec_shiftRight]
  ext i hi
  simp
  grind

theorem toWireAddr_inj {a b : Addr} {bytes : List UInt8} (ha : toWireAddr a = some bytes)
    (hb : toWireAddr b = some bytes) (hza : a.zone = "") (hzb : b.zone = "") : a = b := by
  have hmapped : ∀ (b4 : List.Vector UInt8 4) (b6 : List.Vector UInt8 16), v4InV6Prefix ++ b4.toList = b6.toList →
      b6.toList.take 12 = v4InV6Prefix := by
    intro b4 b6 h
    rw [← h]
    rfl
  unfold toWireAddr at ha hb
  rcases a with _ | a4 | ⟨a6, za⟩ <;> rcases b with _ | b4 | ⟨b6, zb⟩ <;>
    simp only [Addr.is4, Addr.is6, Addr.is4In6, Addr.as16, Bool.false_eq_true, if_false, if_true, false_and, true_and,
      decide_eq_true_eq] at ha hb
  · cases ha
  · cases ha
  · cases ha
  · cases hb
  · have := Option.some.inj (ha.trans hb.symm)
    rw [append_cancel_left_eq] at this
    rw [List.Vector.eq _ _ this]
  · split_ifs at hb with hnot
    exact absurd (hmapped a4 b6 (Option.some.inj (ha.trans hb.symm))) hnot
  · cases hb
  · split_ifs at ha with hnot
    exact absurd (hmapped b4 a6 (Option.some.inj (hb.trans ha.symm))) hnot
  · split_ifs at ha hb
    have := Option.some.inj (ha.trans hb.symm)
    have hz : za = zb := hza.trans hzb.symm
    rw [List.Vector.eq _ _ this, hz]

theorem rangeKey_of_toWireKey (h : toWireKey key = some wk) (h' : toWireKey key' = some wk) :
    key.vport = key'.vport ∧ ∃ raw, rangeKey key = some raw ∧ rangeKey key' = some raw := by
  unfold rangeKey
  unfold toWireKey at h h' ⊢
  obtain ⟨a, ha, rfl⟩ := Option.map_eq_some_iff.mp h
  obtain ⟨a', ha', heq⟩ := Option.map_eq_some_iff.mp h'
  obtain ⟨hproto, hport, rfl⟩ : key'.proto = key.proto ∧ beU16 key'.vport = beU16 key.vport ∧ a' = a := by
    simpa using heq
  refine ⟨?_, ⟨key.proto, beU16 0, a'⟩, ?_, ?_⟩
  · rw [← beU16_beU16 key.vport, ← hport, beU16_beU16]
  · rw [ha]
    rfl
  · rw [ha', hproto]
    rfl

theorem protocol_eq {proto : UInt8} (h : protoNumber r = .ok proto) (h' : protoNumber r' = .ok proto) :
    r.protocol = r'.protocol := by
  unfold protoNumber at h h'
  split_ifs at h h' with htcp htcp' hudp' hudp htcp' hudp'
  · exact htcp.trans htcp'.symm
  · have := (Except.ok.inj h).trans (Except.ok.inj h').symm
    simp at this
  · have := (Except.ok.inj h).trans (Except.ok.inj h').symm
    simp at this
  · exact hudp.trans hudp'.symm

section
variable (hr : Accepted r) (hr' : Accepted r')

include hr hr'

theorem overlap_of_common (hkey : key ∈ ruleKeys r) (hkey' : key' ∈ ruleKeys r') (hraw : rangeKey key = some raw)
    (hraw' : rangeKey key' = some raw) (hle : r.port ≤ lastPort r') (hle' : r'.port ≤ lastPort r) :
    rulesOverlap r r' := by
  obtain ⟨hproto, -, hvip⟩ := hr.mem_keys hkey
  obtain ⟨hproto', -, hvip'⟩ := hr'.mem_keys hkey'
  unfold rangeKey toWireKey at hraw hraw'
  obtain ⟨a, ha, hwk⟩ := Option.map_eq_some_iff.mp hraw
  obtain ⟨a', ha', hwk'⟩ := Option.map_eq_some_iff.mp hraw'
  obtain ⟨hpeq, haeq⟩ : key.proto = key'.proto ∧ a = a' := by simpa using hwk.trans hwk'.symm
  have hsame : key.vip = key'.vip := toWireAddr_inj ha (haeq ▸ ha') (hr.2.2.1 _ hvip).2.1 (hr'.2.2.1 _ hvip').2.1
  have hprotocol : r.protocol = r'.protocol := protocol_eq hproto (hpeq ▸ hproto')
  unfold rulesOverlap
  rw [if_neg]
  · rw [any_eq_true]
    exact ⟨key.vip, hvip, decide_eq_true (hsame ▸ hvip')⟩
  rintro (h | h | h)
  · exact h hprotocol
  · exact UInt16.not_lt.mpr hle h
  · exact UInt16.not_lt.mpr hle' h

section
variable (hapart : rulesOverlap r r' = false) (hkey : key ∈ ruleKeys r) (hkey' : key' ∈ ruleKeys r')

include hapart hkey hkey'

theorem no_common_key (hwk : toWireKey key = some wk) : toWireKey key' ≠ some wk := by
  intro hwk'
  obtain ⟨hport, raw, hraw, hraw'⟩ := rangeKey_of_toWireKey hwk hwk'
  rw [(hr.mem_keys hkey).2.1, (hr'.mem_keys hkey').2.1] at hport
  rw [overlap_of_common hr hr' hkey hkey' hraw hraw' (hport ▸ hr'.port_le) (hport ▸ hr.port_le)] at hapart
  cases hapart

theorem no_common_start (hraw : rangeKey key = some raw) (hraw' : rangeKey key' = some raw) : r.port ≠ r'.port := by
  intro hport
  rw [overlap_of_common hr hr' hkey hkey' hraw hraw' (hport ▸ hr'.port_le) (hport ▸ hr.port_le)] at hapart
  cases hapart

end

theorem toWireKey_inj (hkey : key ∈ ruleKeys r) (hkey' : key' ∈ ruleKeys r')
    (hwk : toWireKey key = some wk) (hwk' : toWireKey key' = some wk) : key = key' := by
  have hport := (rangeKey_of_toWireKey hwk hwk').1
  unfold toWireKey at hwk hwk'
  obtain ⟨a, ha, heq⟩ := Option.map_eq_some_iff.mp hwk
  obtain ⟨a', ha', heq'⟩ := Option.map_eq_some_iff.mp hwk'
  obtain ⟨hproto, -, haeq⟩ : key.proto = key'.proto ∧ beU16 key.vport = beU16 key'.vport ∧ a = a' := by
    simpa using heq.trans heq'.symm
  have hvip : key.vip = key'.vip := toWireAddr_inj ha (haeq ▸ ha') (hr.2.2.1 _ (hr.mem_keys hkey).2.2).2.1
    (hr'.2.2.1 _ (hr'.mem_keys hkey').2.2).2.1
  rcases key with ⟨p, v, i⟩
  rcases key' with ⟨p', v', i'⟩
  simp only at hproto hport hvip
  rw [hproto, hport, hvip]

end

/-! ### The view -/

def Carries (rule : DesiredRule) (key : VIPKey) (v : VipValue) : Prop :=
  ∃ fam, buildMaglevTable rule (rule.backendsFor key.vip) = .ok fam ∧ toWireBackends 0 fam.backends = .ok v.backends ∧
    v.maglevTable = fam.table ∧ affinityNumber rule = .ok v.affinity

def RuleRow (rule : DesiredRule) (t : Which) (wk : WireKey) : Prop :=
  rule.which = t ∧ ∃ key ∈ ruleKeys rule, toWireKey key = some wk

def RuleRange (rule : DesiredRule) (raw : WireKey) (rg : VipRange) : Prop :=
  rule.portEnd ≠ 0 ∧ rg.first = rule.port ∧ rg.last = rule.portEnd ∧ ∃ key ∈ ruleKeys rule, rangeKey key = some raw

structure Shown (rule : DesiredRule) (d : Datapath) : Prop where
  rows : ∀ key ∈ ruleKeys rule, ∀ wk, toWireKey key = some wk →
    ∃ v, (d.rows rule.which).lookup wk = some v ∧ Carries rule key v
  ranges : rule.portEnd ≠ 0 → ∀ key ∈ ruleKeys rule, ∀ raw wk v, rangeKey key = some raw → toWireKey key = some wk →
    (d.rows .range).lookup wk = some v → ⟨rule.port, rule.portEnd, v.generation⟩ ∈ d.rangesAt raw

/-- The maps show the rules of `m`, and beside them at most the rows `X` and the ranges `Y`. -/
structure Shows (m : String → Option DesiredRule) (X : Which → WireKey → Prop) (Y : WireKey → VipRange → Prop)
    (d : Datapath) : Prop where
  shown : ∀ k r, m k = some r → Shown r d
  rows : ∀ t wk v, (d.rows t).lookup wk = some v → (∃ k r, m k = some r ∧ RuleRow r t wk) ∨ X t wk
  ranges : ∀ raw rg, rg ∈ d.rangesAt raw → (∃ k r, m k = some r ∧ RuleRange r raw rg) ∨ Y raw rg
  distinct : ∀ raw, ((d.rangesAt raw).map (·.first)).Nodup
  stored : ∀ raw value, d.ranges.lookup raw = some value → value.ranges ≠ [] ∧ value.ranges.length ≤ maxRangesPerVIP

def NoRow : Which → WireKey → Prop := fun _ _ => False
def NoRange : WireKey → VipRange → Prop := fun _ _ => False

/-- The rules are ones that the datapath takes, under their keys, and do not overlap. -/
structure Compatible (m : String → Option DesiredRule) : Prop where
  accepted : ∀ k r, m k = some r → r.key = k ∧ Accepted r
  apart : ∀ k k' r r', m k = some r → m k' = some r' → k ≠ k' → rulesOverlap r r' = false

section Shows
variable {m : String → Option DesiredRule} {X X' : Which → WireKey → Prop} {Y Y' : WireKey → VipRange → Prop}
  {R : Which → WireKey → Prop} {G : WireKey → UInt16 → Prop} {d d' : Datapath} {k : String}

theorem Shows.mono (h : Shows m X Y d) (hX : ∀ t wk, X t wk → X' t wk) (hY : ∀ raw rg, Y raw rg → Y' raw rg) :
    Shows m X' Y' d :=
  ⟨h.shown, fun t wk v hv => (h.rows t wk v hv).imp_right (hX t wk),
    fun raw rg hrg => (h.ranges raw rg hrg).imp_right (hY raw rg), h.distinct, h.stored⟩

theorem Shows.congr (h : Shows m X Y d) (hrows : d'.rows = d.rows) (hranges : d'.ranges = d.ranges) :
    Shows m X Y d' := by
  have hat : ∀ raw, d'.rangesAt raw = d.rangesAt raw := fun raw => by unfold rangesAt; rw [hranges]
  refine ⟨fun k r hr => ⟨?_, ?_⟩, ?_, ?_, ?_, ?_⟩
  · rw [hrows]
    exact (h.shown k r hr).rows
  · simp only [hrows, hat]
    exact (h.shown k r hr).ranges
  · rw [hrows]
    exact h.rows
  · simp only [hat]
    exact h.ranges
  · simp only [hat]
    exact h.distinct
  · rw [hranges]
    exact h.stored

theorem Shown.spared (h : Shown r d) (hd : Fewer d d') (hs : Spares R G d d')
    (hR : ∀ wk, RuleRow r r.which wk → ¬R r.which wk) (hG : ∀ raw rg, RuleRange r raw rg → ¬G raw rg.first) :
    Shown r d' := by
  refine ⟨fun key hkey wk hwk => ?_, fun hend key hkey raw wk v hraw hwk hv => ?_⟩
  · obtain ⟨v, hv, hcarries⟩ := h.rows key hkey wk hwk
    rcases hs.rows r.which wk v hv with hhit | hv'
    · exact absurd hhit (hR wk ⟨rfl, key, hkey, hwk⟩)
    · exact ⟨v, hv', hcarries⟩
  have hrg := h.ranges hend key hkey raw wk v hraw hwk (hd.rows _ _ _ hv)
  rcases hs.ranges raw _ hrg with hhit | hrg'
  · exact absurd hhit (hG raw _ ⟨hend, rfl, rfl, key, hkey, hraw⟩)
  · exact hrg'

theorem Shows.fewer (h : Shows m X Y d) (hd : Fewer d d') (hs : Spares R G d d')
    (hR : ∀ k r, m k = some r → ∀ wk, RuleRow r r.which wk → ¬R r.which wk)
    (hG : ∀ k r, m k = some r → ∀ raw rg, RuleRange r raw rg → ¬G raw rg.first)
    (hX : ∀ t wk v, (d'.rows t).lookup wk = some v → X t wk → X' t wk)
    (hY : ∀ raw rg, rg ∈ d'.rangesAt raw → Y raw rg → Y' raw rg) : Shows m X' Y' d' := by
  refine ⟨fun k r hr => (h.shown k r hr).spared hd hs (hR k r hr) (hG k r hr), fun t wk v hv => ?_,
    fun raw rg hrg => ?_,
    fun raw => ?_, fun raw value hvalue => ?_⟩
  · exact (h.rows t wk v (hd.rows t wk v hv)).imp_right (hX t wk v hv)
  · exact (h.ranges raw rg (hd.rangesAt hrg)).imp_right (hY raw rg hrg)
  · rcases hlookup : d'.ranges.lookup raw with _ | value
    · simp [rangesAt, hlookup]
    have hat : d'.rangesAt raw = value.ranges := by simp [rangesAt, hlookup]
    rw [hat]
    rcases hd.ranges raw value hlookup with hsame | ⟨old, hold, hsub, -⟩
    · have : d.rangesAt raw = value.ranges := by simp [rangesAt, hsame]
      exact this ▸ h.distinct raw
    · have : d.rangesAt raw = old.ranges := by simp [rangesAt, hold]
      exact (hsub.map _).nodup (this ▸ h.distinct raw)
  · rcases hd.ranges raw value hvalue with hsame | ⟨old, hold, hsub, hne⟩
    · exact h.stored raw value hsame
    · exact ⟨hne, hsub.length_le.trans (h.stored raw old hold).2⟩

theorem Shows.setRow (h : Shows m X Y d) {t : Which} {wk : WireKey} {v : VipValue}
    {addrs : AList fun _ : List UInt8 => Nat} (hfree : ∀ k r, m k = some r → ¬RuleRow r t wk) :
    Shows m (fun t' wk' => X t' wk' ∨ (t' = t ∧ wk' = wk)) Y { d.setRow t wk v with addrs := addrs } := by
  have hother : ∀ k r, m k = some r → ∀ key ∈ ruleKeys r, ∀ wk', toWireKey key = some wk' →
      ((d.setRow t wk v).rows r.which).lookup wk' = (d.rows r.which).lookup wk' := by
    intro k r hr key hkey wk' hwk'
    rw [lookup_setRow, if_neg]
    rintro ⟨ht, rfl⟩
    exact hfree k r hr ⟨ht, key, hkey, hwk'⟩
  refine ⟨fun k r hr => ⟨fun key hkey wk' hwk' => ?_, fun hend key hkey raw wk' v' hraw hwk' hv' => ?_⟩,
    fun t' wk' v' hv' => ?_, h.ranges, h.distinct, h.stored⟩
  · exact (hother k r hr key hkey wk' hwk').symm ▸ (h.shown k r hr).rows key hkey wk' hwk'
  · have hwhich : r.which = .range := if_pos hend
    have := hother k r hr key hkey wk' hwk'
    rw [hwhich] at this
    exact (h.shown k r hr).ranges hend key hkey raw wk' v' hraw hwk' (this ▸ hv')
  have hv' := lookup_setRow.symm.trans hv'
  split_ifs at hv' with heq
  · exact .inr (.inr heq)
  · exact (h.rows t' wk' v' hv').imp_right .inl

/-- **Writing a range** in the place of those that begin where it does, of which no rule of `m` has one. -/
theorem Shows.setRange (h : Shows m X Y d) {raw : WireKey} (new : VipRange) {value : RangeValue}
    (hvalue : value.ranges.Perm (((d.rangesAt raw).filter fun r => r.first ≠ new.first) ++ [new]))
    (hroom : ((d.rangesAt raw).filter fun r => r.first ≠ new.first).length < maxRangesPerVIP)
    (hfree : ∀ k r, m k = some r → ∀ rg, RuleRange r raw rg → rg.first ≠ new.first) (hnew : Y raw new) :
    Shows m X Y { d with ranges := d.ranges.insert raw value } := by
  have hself : rangesAt { d with ranges := d.ranges.insert raw value } raw = value.ranges := by
    unfold rangesAt
    rw [AList.lookup_insert]
    rfl
  have hother : ∀ raw', raw' ≠ raw →
      rangesAt { d with ranges := d.ranges.insert raw value } raw' = d.rangesAt raw' := by
    intro raw' hne
    unfold rangesAt
    rw [AList.lookup_insert_ne hne]
  refine ⟨fun k r hr => ⟨(h.shown k r hr).rows, fun hend key hkey raw' wk v hraw' hwk hv => ?_⟩, h.rows,
    fun raw' rg hrg => ?_, fun raw' => ?_, fun raw' value' hvalue' => ?_⟩
  · have hrg := (h.shown k r hr).ranges hend key hkey raw' wk v hraw' hwk hv
    by_cases heq : raw' = raw
    · subst heq
      rw [hself]
      refine hvalue.symm.subset (mem_append_left _ (mem_filter.mpr ⟨hrg, decide_eq_true ?_⟩))
      exact hfree k r hr _ ⟨hend, rfl, rfl, key, hkey, hraw'⟩
    · rw [hother raw' heq]
      exact hrg
  · by_cases heq : raw' = raw
    · subst heq
      rw [hself] at hrg
      rcases mem_append.mp (hvalue.subset hrg) with hold | hlast
      · exact h.ranges raw' rg (mem_of_mem_filter hold)
      · rw [mem_singleton.mp hlast]
        exact .inr hnew
    · rw [hother raw' heq] at hrg
      exact h.ranges raw' rg hrg
  · by_cases heq : raw' = raw
    · subst heq
      rw [hself, (hvalue.map _).nodup_iff, map_append, nodup_append]
      refine ⟨(filter_sublist.map _).nodup (h.distinct raw'), by simp, fun a ha b hb => ?_⟩
      obtain ⟨rg, hrg, rfl⟩ := mem_map.mp ha
      have hb : b = new.first := by simpa using hb
      rw [hb]
      simpa using (mem_filter.mp hrg).2
    · rw [hother raw' heq]
      exact h.distinct raw'
  · by_cases heq : raw' = raw
    · subst heq
      rw [AList.lookup_insert] at hvalue'
      cases hvalue'
      have hlen := hvalue.length_eq
      rw [length_append, length_singleton] at hlen
      refine ⟨fun hnil => ?_, by omega⟩
      rw [hnil, length_nil] at hlen
      omega
    · rw [AList.lookup_insert_ne heq] at hvalue'
      exact h.stored raw' value' hvalue'

theorem of_update_none {k' : String} (h : update m k none k' = some r') : k' ≠ k ∧ m k' = some r' := by
  by_cases heq : k' = k
  · rw [heq, update_self] at h
    cases h
  · rw [update_of_ne heq] at h
    exact ⟨heq, h⟩

theorem Shows.split (h : Shows m NoRow NoRange d) (hr : m k = some r) :
    Shows (update m k none) (RuleRow r) (RuleRange r) d := by
  have hsup : ∀ {k' r'}, m k' = some r' → r' = r ∨ update m k none k' = some r' := by
    intro k' r' hr'
    by_cases heq : k' = k
    · rw [heq, hr] at hr'
      exact .inl (Option.some.inj hr').symm
    · exact .inr (by rw [update_of_ne heq, hr'])
  refine ⟨fun k' r' hr' => h.shown k' r' (of_update_none hr').2, fun t wk v hv => ?_,
    fun raw rg hrg => ?_, h.distinct, h.stored⟩
  · rcases h.rows t wk v hv with ⟨k', r', hr', hrow⟩ | hfalse
    · rcases hsup hr' with rfl | hr'
      · exact .inr hrow
      · exact .inl ⟨k', r', hr', hrow⟩
    · exact hfalse.elim
  rcases h.ranges raw rg hrg with ⟨k', r', hr', hrange⟩ | hfalse
  · rcases hsup hr' with rfl | hr'
    · exact .inr hrange
    · exact .inl ⟨k', r', hr', hrange⟩
  · exact hfalse.elim

theorem Shows.join (h : Shows (update m k none) (RuleRow rule) (RuleRange rule) d) (hshown : Shown rule d) :
    Shows (update m k (some rule)) NoRow NoRange d := by
  have hself : update m k (some rule) k = some rule := update_self ..
  have hsup : ∀ {k' r'}, update m k none k' = some r' → update m k (some rule) k' = some r' := by
    intro k' r' hr'
    obtain ⟨heq, hr'⟩ := of_update_none hr'
    rw [update_of_ne heq, hr']
  refine ⟨Entries.forall_update (fun r' hr' => ?_) fun k' heq r' hr' => ?_, fun t wk v hv => .inl ?_,
    fun raw rg hrg => .inl ?_,
    h.distinct, h.stored⟩
  · exact Option.some.inj hr' ▸ hshown
  · exact h.shown k' r' (by rw [update_of_ne heq, hr'])
  · rcases h.rows t wk v hv with ⟨k', r', hr', hrow⟩ | hrow
    · exact ⟨k', r', hsup hr', hrow⟩
    · exact ⟨k, rule, hself, hrow⟩
  · rcases h.ranges raw rg hrg with ⟨k', r', hr', hrange⟩ | hrange
    · exact ⟨k', r', hsup hr', hrange⟩
    · exact ⟨k, rule, hself, hrange⟩

end Shows

end Galactic.Gateway
