import Galactic.Gateway.Recording
import Galactic.Gateway.Shows

/-!
# One rule removed, one rule applied

What `RemoveRule` and `ApplyRule` do when nothing fails, in terms of the rules that the maps show. -/

namespace Galactic.Gateway

open Net FallibleProg List Function Datapath Option

/-- The maps and the records are those of the rules of `m`. -/
structure Represents (m : String → Option DesiredRule) (d : Datapath) : Prop where
  view : Shows m NoRow NoRange d
  keys : ∀ k, d.vipKeysByName.lookup k = (m k).map ruleKeys
  kinds : ∀ k, d.rangeRules.lookup k = (m k).map fun r => decide (r.portEnd ≠ 0)

def Quiet (w : World) : Prop := ∀ site op, (w site).fails op = false

def OldRow (m : String → Option DesiredRule) (k : String) (t : Which) (wk : WireKey) : Prop :=
  ∃ r, m k = some r ∧ RuleRow r t wk

def OldRange (m : String → Option DesiredRule) (k : String) (raw : WireKey) (rg : VipRange) : Prop :=
  ∃ r, m k = some r ∧ RuleRange r raw rg

variable {m : String → Option DesiredRule} {d d' : Datapath} {w : World} {k : String} {r rule : DesiredRule}

theorem Shows.start (h : Shows m NoRow NoRange d) (k : String) :
    Shows (update m k none) (OldRow m k) (OldRange m k) d := by
  rcases hr : m k with _ | r
  · rw [← hr, update_eq_self]
    exact h.mono (fun _ _ h => h.elim) fun _ _ h => h.elim
  · exact (h.split hr).mono (fun _ _ hrow => ⟨r, hr, hrow⟩) fun _ _ hrange => ⟨r, hr, hrange⟩

variable {key : VIPKey}

theorem Represents.mem_keysOf (h : Represents m d) (hkey : key ∈ d.keysOf k) :
    ∃ r, m k = some r ∧ key ∈ ruleKeys r := by
  unfold keysOf at hkey
  rw [h.keys] at hkey
  rcases hr : m k with _ | r <;> rw [hr] at hkey
  · cases hkey
  · exact ⟨r, rfl, hkey⟩

theorem Represents.keysOf_eq (h : Represents m d) (hr : m k = some r) : d.keysOf k = ruleKeys r := by
  unfold keysOf
  rw [h.keys, hr]
  rfl

theorem Represents.tableOf_eq (h : Represents m d) (hr : m k = some r) : d.tableOf k = r.which := by
  unfold tableOf DesiredRule.which
  rw [h.kinds, hr]
  simp

section
variable (hm : Compatible m) {k' : String} {r' : DesiredRule} {keys : List VIPKey}

include hm

theorem Compatible.wireable (h : Represents m d) {key : VIPKey} (hkey : key ∈ d.keysOf k) : (toWireKey key).isSome := by
  obtain ⟨r, hr, hkey⟩ := h.mem_keysOf hkey
  exact (hm.accepted k r hr).2.wireable hkey

theorem Compatible.others (hr' : update m k none k' = some r') : m k' = some r' ∧ Accepted r' ∧
      ∀ r, m k = some r → Accepted r ∧ rulesOverlap r r' = false := by
  obtain ⟨heq, hr'⟩ := of_update_none hr'
  exact ⟨hr', (hm.accepted k' r' hr').2, fun r hr => ⟨(hm.accepted k r hr).2, hm.apart k k' r r' hr hr' (Ne.symm heq)⟩⟩

section
variable (h : Represents m d) (hkeys : ∀ key ∈ keys, key ∈ d.keysOf k) (hr' : update m k none k' = some r')

include h hkeys hr'

theorem Compatible.spares_rows {t : Which} {wk : WireKey} (hrow : RuleRow r' r'.which wk) :
    ¬∃ key ∈ keys, RowOf t key r'.which wk := by
  rintro ⟨key, hkey, -, hwk⟩
  obtain ⟨-, haccepted', hothers⟩ := hm.others hr'
  obtain ⟨r, hr, hkey⟩ := h.mem_keysOf (hkeys key hkey)
  obtain ⟨haccepted, hapart⟩ := hothers r hr
  obtain ⟨-, key', hkey', hwk'⟩ := hrow
  exact no_common_key haccepted haccepted' hapart hkey hkey' hwk hwk'

theorem Compatible.spares_ranges {raw : WireKey} {rg : VipRange} (hrange : RuleRange r' raw rg) :
    ¬∃ key ∈ keys, RangeOf key raw rg.first := by
  rintro ⟨key, hkey, hraw, hfirst⟩
  obtain ⟨-, haccepted', hothers⟩ := hm.others hr'
  obtain ⟨r, hr, hkey⟩ := h.mem_keysOf (hkeys key hkey)
  obtain ⟨haccepted, hapart⟩ := hothers r hr
  obtain ⟨-, hfirst', -, key', hkey', hraw'⟩ := hrange
  refine no_common_start haccepted haccepted' hapart hkey hkey' hraw hraw' ?_
  rw [← (haccepted.mem_keys hkey).2.1, ← hfirst, hfirst']

end

end

theorem Shows.counts {X : Which → WireKey → Prop} {Y : WireKey → VipRange → Prop} (h : Shows m X Y d)
    (hd : Fewer d d') : ∀ raw value, d'.ranges.lookup raw = some value → value.ranges.length ≤ maxRangesPerVIP := by
  intro raw value hvalue
  rcases hd.ranges raw value hvalue with hsame | ⟨old, hold, hsub, -⟩
  · exact (h.stored raw value hsame).2
  · exact hsub.length_le.trans (h.stored raw old hold).2

theorem forKeys_taken {step : Nat → VIPKey → M Unit} (Gone : VIPKey → Datapath → Prop)
    (RK : VIPKey → Which → WireKey → Prop) (GK : VIPKey → WireKey → UInt16 → Prop)
    (hmono : ∀ {key d d'}, Gone key d → Fewer d d' → Gone key d') (hfewer : ∀ i key d', Fewer d d' →
      From d' (step i key) (fun _ d'' => Fewer d' d'' ∧ Gone key d'') fun _ d'' => Fewer d' d'' ∧ toWireKey key = none)
    (hspares : ∀ i key d,
      From d (step i key) (fun _ d' => Spares (RK key) (GK key) d d') fun _ d' => Spares (RK key) (GK key) d d')
    {keys : List VIPKey} (hkeys : ∀ key ∈ keys, (toWireKey key).isSome) :
    From d (forKeys step 0 keys) (fun _ d' => (Fewer d d' ∧ ∀ key ∈ keys, Gone key d') ∧
      Spares (fun t wk => ∃ key ∈ keys, RK key t wk) (fun raw first => ∃ key ∈ keys, GK key raw first) d d')
      fun _ _ => False := by
  have htaken := forKeys_fewer Gone (fun _ key => toWireKey key = none) hmono hfewer 0 keys (Fewer.refl d)
  refine .weaken (htaken.and (forKeys_spares RK GK hspares 0 keys)) (fun _ h => ⟨h, h⟩) (fun _ _ h => h) ?_
  rintro _ d' ⟨⟨-, i, key, hkey, hnone⟩, -⟩
  have hwire := hkeys key hkey
  rw [hnone] at hwire
  cases hwire

theorem Quiet.elim (hw : Quiet w) {site : Site} {p : Prop} (h : ∃ op, (w site).fails op) : p := by
  obtain ⟨op, hop⟩ := h
  rw [hw] at hop
  cases hop

/-! ### RemoveRule -/

variable {f : Faults} {t : Which}

theorem removeStep_spares {d : Datapath} :
    From d (do removeRange f key; unregister f t key)
      (fun _ d' => Spares (RowOf t key) (RangeOf key) d d') fun _ d' => Spares (RowOf t key) (RangeOf key) d d' := by
  refine .bind removeRange_spares fun _ => .named fun d₁ hd₁ => ?_
  exact .imp unregister_spares (fun _ _ h => hd₁.trans h) fun _ _ h => hd₁.trans h

variable {raw : WireKey}

theorem Compatible.no_range (hm : Compatible m) (h : Represents m d) (hgone : ∀ key ∈ d.keysOf k, GoneRange key d')
    {rg : VipRange} (hrg : rg ∈ d'.rangesAt raw) : ¬OldRange m k raw rg := by
  rintro ⟨r, hr, -, hfirst, -, key, hkey, hraw⟩
  obtain ⟨raw', hraw', hnot⟩ := hgone key (h.keysOf_eq hr ▸ hkey)
  rw [hraw] at hraw'
  cases hraw'
  refine hnot rg hrg ?_
  rw [hfirst, ((hm.accepted k r hr).2.mem_keys hkey).2.1]

theorem removeRule_ok (hm : Compatible m) (hw : Quiet w) (h : Represents m d) :
    From d (removeRule w k) (fun _ => Represents (update m k none)) fun _ _ => False := by
  refine .get_from ?_
  have hloop := forKeys_taken (fun key d' => GoneRow (d.tableOf k) key d' ∧ GoneRange key d')
    (RowOf (d.tableOf k)) RangeOf
    (fun hgone hd => ⟨hgone.1.fewer hd, hgone.2.fewer hd⟩)
    (fun i key _ hd => .onError (removeStep_spec (f := w (.remove i)) (t :=
      d.tableOf k) (h.view.counts hd)) fun _ _ h => ⟨h.1, h.2.elim hw.elim id⟩)
    (fun i key _ => removeStep_spares (f := w (.remove i))) (fun key (hkey : key ∈ d.keysOf k) => hm.wireable h hkey)
  refine .bind hloop fun _ => .modify fun d' hd => ?_
  obtain ⟨⟨hfewer, hgone⟩, hspares⟩ := hd
  have hview : Shows (update m k none) NoRow NoRange d' := by
    refine (h.view.start k).fewer hfewer hspares (fun _ _ hr' _ hrow => hm.spares_rows h (fun _ hkey => hkey) hr' hrow)
      (fun _ _ hr' _ _ hrange => hm.spares_ranges h (fun _ hkey => hkey) hr' hrange) ?_
      fun raw rg hrg hold => hm.no_range h (fun key hkey => (hgone key hkey).2) hrg hold
    rintro t wk v hv ⟨r, hr, ht, key, hkey, hwk⟩
    obtain ⟨⟨wk', hwk', hnone⟩, -⟩ := hgone key (h.keysOf_eq hr ▸ hkey)
    rw [hwk] at hwk'
    cases hwk'
    rw [h.tableOf_eq hr, ht, hv] at hnone
    cases hnone
  refine ⟨hview.congr rfl rfl, fun k' => ?_, fun k' => ?_⟩
  · simp [Entries.lookup_erased, hfewer.keys, h.keys, update_apply, apply_ite (Option.map _)]
  · simp [Entries.lookup_erased, hfewer.kinds, h.kinds, update_apply, apply_ite (Option.map _)]

/-! ### ApplyRule before its writes -/

theorem retireCoverage_ok (hm : Compatible m) (hw : Quiet w) (h : Represents m d) (hrule : Accepted rule) :
    From d (retireCoverage w rule)
      (fun _ d' => Fewer d d' ∧ Shows (update m rule.key none) (OldRow m rule.key) NoRange d') fun _ _ => False := by
  refine .guard_bind (fun hbad => ?_) fun _ => .get_bind fun d' hd' => ?_
  · obtain ⟨hend, hbad⟩ := of_decide_eq_true hbad
    obtain ⟨hudp, -, hle, -⟩ := hrule.2.2.2 hend
    exact absurd hbad (not_or.mpr ⟨fun h => h hudp, UInt16.not_lt.mpr hle⟩)
  subst hd'
  refine .imp (forKeys_taken GoneRange (fun _ _ _ => False) RangeOf (fun hgone hd => hgone.fewer hd)
    (fun i key d hd => .onError removeRange_spec ?_)
    (fun i key _ => removeRange_spares) fun key hkey => hm.wireable h hkey) ?_ fun _ _ h => h
  · rintro _ d'' ⟨hd'', hfault | hnone | ⟨raw, value, hvalue, hlen⟩⟩
    · exact hw.elim hfault
    · exact ⟨hd'', hnone⟩
    · exact absurd (h.view.counts hd raw value hvalue) (Nat.not_le.mpr hlen)
  rintro _ d ⟨⟨hfewer, hgone⟩, hspares⟩
  refine ⟨hfewer, (h.view.start rule.key).fewer hfewer hspares (fun _ _ _ _ _ ⟨_, _, hfalse⟩ => hfalse)
    (fun _ _ hr' _ _ hrange => hm.spares_ranges h (fun _ hkey => hkey) hr' hrange) (fun _ _ _ _ hold => hold) ?_⟩
  exact fun raw rg hrg hold => hm.no_range h hgone hrg hold

theorem leaveOldTable_ok (hm : Compatible m) (hw : Quiet w) (h : Represents m d) (hfewer : Fewer d d')
    (hview : Shows (update m rule.key none) (OldRow m rule.key) NoRange d') :
    From d' (leaveOldTable w rule) (fun _ d'' => Fewer d d'' ∧ Shows (update m rule.key none)
        (fun t wk => t = rule.which ∧ OldRow m rule.key t wk) NoRange d'') fun _ _ => False := by
  refine .get_from ?_
  have hkeys : d'.keysOf rule.key = d.keysOf rule.key := hfewer.keysOf _
  have hlookup : d'.rangeRules.lookup rule.key = (m rule.key).map fun r => decide (r.portEnd ≠ 0) := by
    rw [hfewer.kinds, h.kinds]
  rcases hr : m rule.key with _ | r <;> rw [hr] at hlookup
  · rw [hlookup]
    refine .pure fun d'' hd'' => ⟨hd'' ▸ hfewer, hd'' ▸ hview.mono ?_ fun _ _ hno => hno⟩
    rintro t wk ⟨r, hr', -⟩
    rw [hr] at hr'
    cases hr'
  rw [hlookup]
  dsimp only [Option.map]
  have honly : ∀ {t wk}, OldRow m rule.key t wk → RuleRow r t wk := by
    rintro t wk ⟨r', hr', hrow⟩
    rw [hr] at hr'
    exact Option.some.inj hr' ▸ hrow
  have htable : (if decide (r.portEnd ≠ 0) then Which.range else Which.scalar) = r.which := by
    unfold DesiredRule.which
    simp only [decide_eq_true_eq]
  rw [htable, hkeys]
  split_ifs with hsame
  · have hwhich : r.which = rule.which := by
      unfold DesiredRule.which
      simp only [decide_eq_decide] at hsame
      simp only [hsame]
    refine .pure fun d'' hd'' => ⟨hd'' ▸ hfewer, hd'' ▸ hview.mono (fun t wk hold => ⟨?_, hold⟩) fun _ _ hno => hno⟩
    rw [← (honly hold).1, hwhich]
  refine .imp (forKeys_taken (GoneRow r.which) (RowOf r.which) (fun _ _ _ => False) (fun hgone hd => hgone.fewer hd)
    (fun i key d _ => .onError unregister_spec fun _ _ h => ⟨h.1, h.2.elim hw.elim id⟩)
    (fun i key _ => unregister_spares) fun key hkey => hm.wireable h hkey) ?_ fun _ _ h => h
  rintro _ d'' ⟨⟨hfewer', hgone⟩, hspares⟩
  refine ⟨hfewer.trans hfewer', hview.fewer hfewer' hspares
    (fun _ _ hr' _ hrow => hm.spares_rows h (fun _ hkey => hkey) hr' hrow) (fun _ _ _ _ _ _ ⟨_, _, hfalse⟩ => hfalse) ?_
    fun _ _ _ hno => hno⟩
  -- every row of the old version was in the table that was emptied
  intro t wk v hv hold
  obtain ⟨ht, key, hkey, hwk⟩ := honly hold
  obtain ⟨wk', hwk', hnone⟩ := hgone key (h.keysOf_eq hr ▸ hkey)
  rw [hwk] at hwk'
  cases hwk'
  rw [ht, hv] at hnone
  cases hnone

/-! ### The rows -/

/-- The rows of the rule's keys in `done` are there. -/
def Rows (rule : DesiredRule) (done : List VIPKey) (d : Datapath) : Prop :=
  ∀ key ∈ done, ∀ wk, toWireKey key = some wk → ∃ v, (d.rows rule.which).lookup wk = some v ∧ Carries rule key v

/-- The state while the keys are registered, of which `done` are, beside the records of `d`. -/
structure Writing (m : String → Option DesiredRule) (rule : DesiredRule) (d : Datapath) (done : List VIPKey)
    (d' : Datapath) : Prop where
  view : Shows (update m rule.key none) (fun t wk => (t = rule.which ∧ OldRow m rule.key t wk) ∨ RuleRow rule t wk)
    NoRange d'
  keys : d'.vipKeysByName = d.vipKeysByName
  kinds : d'.rangeRules = d.rangeRules.insert rule.key (decide (rule.portEnd ≠ 0))
  done : Rows rule done d'

section
variable {k' : String} {r' : DesiredRule} {key : VIPKey} {wk : WireKey}

theorem Compatible.beside (hnext : Compatible (update m rule.key (some rule)))
    (hr' : update m rule.key none k' = some r') : Accepted rule ∧ Accepted r' ∧ rulesOverlap rule r' = false := by
  have hself : update m rule.key (some rule) rule.key = some rule := update_self ..
  obtain ⟨heq, hr'⟩ := of_update_none hr'
  have hother : update m rule.key (some rule) k' = some r' := by rw [update_of_ne heq, hr']
  exact ⟨(hnext.accepted _ _ hself).2, (hnext.accepted _ _ hother).2, hnext.apart _ _ _ _ hself hother (Ne.symm heq)⟩

theorem Compatible.free_row (hnext : Compatible (update m rule.key (some rule))) (hkey : key ∈ ruleKeys rule)
    (hwk : toWireKey key = some wk) {t : Which} (hr' : update m rule.key none k' = some r') : ¬RuleRow r' t wk := by
  rintro ⟨-, key', hkey', hwk'⟩
  obtain ⟨haccepted, haccepted', hapart⟩ := hnext.beside hr'
  exact no_common_key haccepted haccepted' hapart hkey hkey' hwk hwk'

theorem Rows.setRow {done : List VIPKey} {v : VipValue} {addrs : AList fun _ : List UInt8 => Nat} (h : Rows rule done d)
    (hrule : Accepted rule) (hdone : ∀ key ∈ done, key ∈ ruleKeys rule) (hkey : key ∈ ruleKeys rule)
    (hwk : toWireKey key = some wk) (hv : Carries rule key v) :
    Rows rule (done ++ [key]) { d.setRow rule.which wk v with addrs := addrs } := by
  intro key' hkey' wk' hwk'
  have hset : (rows { d.setRow rule.which wk v with addrs := addrs } rule.which).lookup wk' =
      if rule.which = rule.which ∧ wk' = wk then some v else (d.rows rule.which).lookup wk' := lookup_setRow
  rw [hset]
  have hmem : key' ∈ ruleKeys rule := (mem_append.mp hkey').elim (hdone key') fun h => mem_singleton.mp h ▸ hkey
  by_cases heq : wk' = wk
  · -- one wire form is one key, also when the rule has an address twice
    subst heq
    rw [if_pos ⟨rfl, rfl⟩, toWireKey_inj hrule hrule hmem hkey hwk' hwk]
    exact ⟨v, rfl, hv⟩
  rw [if_neg fun h => heq h.2]
  rcases mem_append.mp hkey' with hold | hlast
  · exact h key' hold wk' hwk'
  · rw [mem_singleton.mp hlast, hwk] at hwk'
    exact absurd (some.inj hwk').symm heq

end

theorem registerLoop_ok (hnext : Compatible (update m rule.key (some rule))) (hrule : Accepted rule) (hw : Quiet w)
    {affinity : UInt8} (haffinity : affinityNumber rule = .ok affinity) {fs : Bool → Option Family}
    (hfs : ∀ key ∈ ruleKeys rule, ∃ fam, fs key.vip.is4 = some fam ∧
      buildMaglevTable rule (rule.backendsFor key.vip) = .ok fam) (all : List VIPKey) (i : Nat)
    (keys done : List VIPKey) (hkeys : ∀ key ∈ done ++ keys, key ∈ ruleKeys rule) :
    Triple (Writing m rule d done) (registerLoop w rule affinity fs all i keys) (fun _ =>
      Writing m rule d (done ++ keys)) fun _ _ => False := by
  induction keys generalizing i done with
  | nil =>
    rw [append_nil]
    exact .pure fun _ h => h
  | cons key keys ih =>
    have hkey : key ∈ ruleKeys rule := hkeys key (by simp)
    obtain ⟨fam, hfam, hbuild⟩ := hfs key hkey
    obtain ⟨hne, hlen⟩ := length_of_buildMaglevTable hbuild
    obtain ⟨wk, hwk⟩ := isSome_iff_exists.mp (hrule.wireable hkey)
    obtain ⟨bs, hbs⟩ : ∃ bs, toWireBackends 0 fam.backends = .ok bs := by
      have := (hrule.2.2.1 _ (hrule.mem_keys hkey).2.2).2.2
      rw [hbuild] at this
      exact exists_of_isOk this
    refine .named fun d₁ hd₁ => ?_
    unfold registerLoop
    simp only [hfam, getD_some]
    refine .sure (register_ok (hw _) (affinityNumber_le haffinity) hne hlen hwk hbs) fun _ => ?_
    have hstep := ih (i + 1) (done ++ [key]) (by rw [append_assoc]; exact hkeys)
    rw [append_assoc] at hstep
    refine .given hstep ?_
    rintro d₂ ⟨addrs, rfl⟩
    refine ⟨(hd₁.view.setRow fun _ _ hr' => hnext.free_row hkey hwk hr').mono ?_ fun _ _ h => h, hd₁.keys, hd₁.kinds,
      hd₁.done.setRow hrule (fun key' hkey' => hkeys key' (mem_append_left _ hkey')) hkey hwk
        ⟨fam, hbuild, hbs, rfl, haffinity⟩⟩
    rintro t wk' (hold | ⟨rfl, rfl⟩)
    · exact hold
    · exact .inr ⟨rfl, key, hkey, hwk⟩

theorem pruneLoop_ok (hm : Compatible m) (hw : Quiet w) (h : Represents m d) (hrule : Accepted rule)
    (hd' : Writing m rule d (ruleKeys rule) d') :
    From d' (pruneLoop w rule (ruleKeys rule) 0 (d.keysOf rule.key))
      (fun _ d'' => Fewer d' d'' ∧ Shows (update m rule.key none) (RuleRow rule) NoRange d'' ∧
        Rows rule (ruleKeys rule) d'') fun _ _ => False := by
  refine .imp (forKeys_taken (fun old d => old ∈ ruleKeys rule ∨ GoneRow rule.which old d)
    (fun old t wk => old ∉ ruleKeys rule ∧ RowOf rule.which old t wk) (fun _ _ _ => False)
    (fun hgone hd => hgone.imp_right fun h => h.fewer hd) (fun i old d₁ _ => ?_) (fun i old d₁ => ?_)
    fun key (hkey : key ∈ d.keysOf rule.key) => hm.wireable h hkey) ?_ fun _ _ h => h
  · split_ifs with hin
    · exact .pure fun d₂ hd₂ => ⟨hd₂ ▸ Fewer.refl d₁, .inl hin⟩
    · exact .imp unregister_spec (fun _ _ h => ⟨h.1, .inr h.2⟩) fun _ _ h => ⟨h.1, h.2.elim hw.elim id⟩
  · split_ifs with hin
    · exact .pure fun d₂ hd₂ => Spares.of_eq hd₂
    have hmono : ∀ d₂, Spares (RowOf rule.which old) (fun _ _ => False) d₁ d₂ →
        Spares (fun t wk => old ∉ ruleKeys rule ∧ RowOf rule.which old t wk) (fun _ _ => False) d₁ d₂ :=
      fun d₂ hd₂ => hd₂.mono (fun _ _ hrow => ⟨hin, hrow⟩) fun _ _ h => h
    exact .imp unregister_spares (fun _ => hmono) fun _ => hmono
  rintro _ d'' ⟨⟨hfewer, hgone⟩, hspares⟩
  refine ⟨hfewer, hd'.view.fewer hfewer hspares ?_ (fun _ _ _ _ _ _ ⟨_, _, hfalse⟩ => hfalse) ?_ fun _ _ _ hno => hno,
    fun key hkey wk hwk => ?_⟩
  · rintro k' r' hr' wk hrow ⟨old, hold, -, hhit⟩
    exact hm.spares_rows h (fun _ hkey => hkey) hr' hrow ⟨old, hold, hhit⟩
  · -- a row of the old version that is still there is one of a key that the rule keeps
    rintro t wk v hv (⟨rfl, r, hr, -, key, hkey, hwk⟩ | hnew)
    · rcases hgone key (h.keysOf_eq hr ▸ hkey) with hin | ⟨wk', hwk', hnone⟩
      · exact ⟨rfl, key, hin, hwk⟩
      rw [hwk] at hwk'
      cases hwk'
      rw [hv] at hnone
      cases hnone
    · exact hnew
  · obtain ⟨v, hv, hcarries⟩ := hd'.done key hkey wk hwk
    rcases hspares.rows rule.which wk v hv with ⟨old, hold, hnot, -, hwk'⟩ | hv'
    · obtain ⟨r, hr, hold⟩ := h.mem_keysOf hold
      rw [toWireKey_inj (hm.accepted _ r hr).2 hrule hold hkey hwk' hwk] at hnot
      exact absurd hkey hnot
    · exact ⟨v, hv', hcarries⟩

/-! ### The ranges -/

/-- Beside the rule, fewer than 16 of the rules of `m` have a range on each of its addresses. -/
def Room (m : String → Option DesiredRule) (rule : DesiredRule) : Prop :=
  ∀ key ∈ ruleKeys rule, ∀ raw, rangeKey key = some raw → ∃ names : List String, names.length < maxRangesPerVIP ∧
    ∀ k r, k ≠ rule.key → m k = some r → r.portEnd ≠ 0 → (∃ key ∈ ruleKeys r, rangeKey key = some raw) → k ∈ names

section
variable {X : Which → WireKey → Prop} (h : Shows (update m rule.key none) X (RuleRange rule) d) {raw : WireKey}

include h

theorem Shows.elsewhere {rg : VipRange} (hrg : rg ∈ d.rangesAt raw) (hfirst : rg.first ≠ rule.port) :
    ∃ k r, update m rule.key none k = some r ∧ RuleRange r raw rg := by
  rcases h.ranges raw rg hrg with hother | ⟨-, hself, -⟩
  · exact hother
  · exact absurd hself hfirst

theorem Shows.room (hroom : Room m rule) {key : VIPKey} (hkey : key ∈ ruleKeys rule) (hraw : rangeKey key = some raw) :
    ((d.rangesAt raw).filter fun r => r.first ≠ rule.port).length < maxRangesPerVIP := by
  obtain ⟨names, hnames, hall⟩ := hroom key hkey raw hraw
  have hnodup : (((d.rangesAt raw).filter fun r => r.first ≠ rule.port).map (·.first)).Nodup :=
    (filter_sublist.map _).nodup (h.distinct raw)
  -- each of them begins at the port of a rule in the list
  have hsub : (((d.rangesAt raw).filter fun r => r.first ≠ rule.port).map (·.first)) ⊆
      names.filterMap fun k => (m k).map (·.port) := by
    intro first hfirst
    obtain ⟨rg, hrg, rfl⟩ := mem_map.mp hfirst
    obtain ⟨hrg, hne⟩ := mem_filter.mp hrg
    obtain ⟨k, r, hr, hend, hstart, -, hkey⟩ := h.elsewhere hrg (of_decide_eq_true hne)
    obtain ⟨heq, hr⟩ := of_update_none hr
    exact mem_filterMap.mpr ⟨k, hall k r heq hr hend hkey, by rw [hr, hstart]; rfl⟩
  have hle := (subperm_of_subset hnodup hsub).length_le
  rw [length_map] at hle
  exact (hle.trans (length_filterMap_le _ _)).trans_lt hnames

end

/-- The state while the ranges are written, of which those of `done` are. -/
structure Activating (m : String → Option DesiredRule) (rule : DesiredRule) (d : Datapath) (done : List VIPKey)
    (d' : Datapath) : Prop where
  view : Shows (update m rule.key none) (RuleRow rule) (RuleRange rule) d'
  rows : d'.rows = d.rows
  keys : d'.vipKeysByName = d.vipKeysByName
  kinds : d'.rangeRules = d.rangeRules
  done : ∀ key ∈ done, ∀ raw wk v, rangeKey key = some raw → toWireKey key = some wk →
    (d.rows .range).lookup wk = some v → ⟨rule.port, rule.portEnd, v.generation⟩ ∈ d'.rangesAt raw

theorem getRow_ok (hf : ∀ op, f.fails op = false) {wk : WireKey} {v : VipValue}
    (hwk : toWireKey key = some wk) (hv : (d.rows t).lookup wk = some v) :
    From d (getRow f t key) (fun out d' => out = some v ∧ d' = d) fun _ _ => False := by
  refine orThrow_some hwk (.pass (hf _) (.get_from ?_))
  rw [hv]
  exact .pass (hf _) (.pure fun d hd => ⟨rfl, hd⟩)

theorem Accepted.key_of_range (hrule : Accepted rule) {key' : VIPKey} (hkey : key ∈ ruleKeys rule)
    (hkey' : key' ∈ ruleKeys rule) (hraw : rangeKey key = some raw) (hraw' : rangeKey key' = some raw) :
    key = key' := by
  obtain ⟨proto, -, -, heq⟩ := hrule.keys
  have hsame : toWireKey key = toWireKey key' := by
    rw [heq] at hkey hkey'
    obtain ⟨vip, -, rfl⟩ := mem_map.mp hkey
    obtain ⟨vip', -, rfl⟩ := mem_map.mp hkey'
    unfold toWireKey
    obtain ⟨a, ha, hwk⟩ := map_eq_some_iff.mp hraw
    obtain ⟨a', ha', hwk'⟩ := map_eq_some_iff.mp hraw'
    have haeq : a = a' := by simpa using hwk.trans hwk'.symm
    rw [ha, ha', haeq]
  obtain ⟨wk, hwk⟩ := isSome_iff_exists.mp (hrule.wireable hkey)
  exact toWireKey_inj hrule hrule hkey hkey' hwk (hsame ▸ hwk)

section
variable (hnext : Compatible (update m rule.key (some rule))) (hrule : Accepted rule) (hw : Quiet w)
  (hroom : rule.portEnd ≠ 0 → Room m rule)

include hnext hrule hw hroom

theorem activateOne_ok (hend : rule.portEnd ≠ 0) (hrows : Rows rule (ruleKeys rule) d) {all done : List VIPKey}
    {i : Nat} {key : VIPKey} (hdone : ∀ key ∈ done, key ∈ ruleKeys rule) (hkey : key ∈ ruleKeys rule) :
    Triple (Activating m rule d done) (activateOne w rule all i key) (fun _ =>
      Activating m rule d (done ++ [key])) fun _ _ => False := by
  refine .named fun d₁ hd₁ => ?_
  have hwhich : rule.which = .range := if_pos hend
  obtain ⟨hudp, hzero, hle, hv6⟩ := hrule.2.2.2 hend
  obtain ⟨hproto, hport, hvip⟩ := hrule.mem_keys hkey
  obtain ⟨wk, hwk⟩ := isSome_iff_exists.mp (hrule.wireable hkey)
  obtain ⟨v, hv, -⟩ := hrows key hkey wk hwk
  obtain ⟨raw, hraw⟩ : ∃ raw, rangeKey key = some raw :=
    isSome_iff_exists.mp ((rangeKey_isSome _).trans (hrule.wireable hkey))
  refine .bind (getRow_ok (hw _) hwk (hd₁.rows ▸ hv)) fun entry => .named fun d₂ hd₂ => ?_
  obtain ⟨rfl, rfl⟩ := hd₂
  have hvalid : ¬(key.proto ≠ 17 ∨ key.vport = 0 ∨ rule.portEnd < key.vport ∨ ¬key.vip.is6 ∨ key.vip.is4In6) := by
    obtain ⟨h6, hmapped⟩ := hv6 _ hvip
    have hproto17 : key.proto = 17 := by
      unfold protoNumber at hproto
      rw [hudp] at hproto
      exact (Except.ok.inj hproto).symm
    rw [hport]
    simp only [hproto17, h6, hmapped, hzero, UInt16.not_lt.mpr hle, ne_eq, not_true, Bool.false_eq_true, or_false,
      not_false_eq_true]
  have hcount : (d₂.rangesAt raw).length ≤ maxRangesPerVIP := by
    unfold rangesAt
    rcases hlookup : d₂.ranges.lookup raw with _ | value
    · exact Nat.zero_le _
    · exact (hd₁.view.stored raw value hlookup).2
  have hlt : ((d₂.rangesAt raw).filter fun r => r.first ≠ key.vport).length < maxRangesPerVIP := by
    rw [hport]
    exact hd₁.view.room (hroom hend) hkey hraw
  have hapart : ∀ r ∈ d₂.rangesAt raw, r.first ≠ key.vport → ¬(r.first ≤ rule.portEnd ∧ key.vport ≤ r.last) := by
    rw [hport]
    rintro rg hrg hne ⟨hfirst, hlast⟩
    obtain ⟨k', r', hr', hend', hstart', hlast', key', hkey', hraw'⟩ := hd₁.view.elsewhere hrg hne
    obtain ⟨-, haccepted', hapart⟩ := hnext.beside hr'
    have hlastPort : lastPort rule = rule.portEnd := if_pos hend
    have hlastPort' : lastPort r' = r'.portEnd := if_pos hend'
    rw [overlap_of_common hrule haccepted' hkey hkey' hraw hraw' (by rw [hlastPort', ← hlast']; exact hlast)
      (by rw [hlastPort, ← hstart']; exact hfirst)] at hapart
    cases hapart
  refine .sure (registerRange_ok (hw _) hvalid hraw hcount hlt.ne hapart) fun _ => ?_
  refine .pure ?_
  rintro d₃ ⟨value, rfl, hperm⟩
  refine ⟨hd₁.view.setRange ⟨key.vport, rule.portEnd, v.generation⟩ hperm hlt ?_ ?_, hd₁.rows, hd₁.keys, hd₁.kinds,
    fun key' hkey' raw' wk' v' hraw' hwk' hv' => ?_⟩
  · rintro k' r' hr' rg ⟨-, hstart', -, key', hkey', hraw'⟩
    obtain ⟨-, haccepted', hapart⟩ := hnext.beside hr'
    rw [hstart', hport]
    exact (no_common_start hrule haccepted' hapart hkey hkey' hraw hraw').symm
  · exact ⟨hend, hport, rfl, key, hkey, hraw⟩
  have hmem : key' ∈ ruleKeys rule := (mem_append.mp hkey').elim (hdone key') fun h => mem_singleton.mp h ▸ hkey
  by_cases heq : raw' = raw
  · subst heq
    obtain rfl := hrule.key_of_range hmem hkey hraw' hraw
    rw [hwk] at hwk'
    cases hwk'
    rw [hwhich, hv'] at hv
    cases hv
    unfold rangesAt
    rw [AList.lookup_insert]
    refine hperm.symm.subset (mem_append_right _ ?_)
    rw [hport]
    exact mem_singleton_self _
  · unfold rangesAt
    rw [AList.lookup_insert_ne heq]
    refine hd₁.done key' ((mem_append.mp hkey').resolve_right fun h => heq ?_) raw' wk' v' hraw' hwk' hv'
    rw [mem_singleton.mp h, hraw] at hraw'
    exact (some.inj hraw').symm

theorem activateRanges_ok (hview : Shows (update m rule.key none) (RuleRow rule) NoRange d)
    (hrows : Rows rule (ruleKeys rule) d) : From d (activateRanges w rule (ruleKeys rule))
      (fun _ d' => Shows (update m rule.key (some rule)) NoRow NoRange d' ∧ d'.vipKeysByName = d.vipKeysByName ∧
        d'.rangeRules = d.rangeRules) fun _ _ => False := by
  unfold activateRanges
  split_ifs with hend
  · refine .weaken (forKeys_rule (I := Activating m rule d) (fun i done key hpre =>
      activateOne_ok hnext hrule hw hroom hend hrows (fun key' hkey' => hpre.subset (mem_append_left _ hkey'))
        (hpre.subset mem_concat_self)) 0) ?_ ?_ fun _ _ h => h
    · rintro d' rfl
      exact ⟨hview.mono (fun _ _ h => h) fun _ _ h => h.elim, rfl, rfl, rfl, fun key hkey => nomatch hkey⟩
    intro _ d' hd'
    refine ⟨hd'.view.join ⟨?_, fun _ key hkey raw wk v hraw hwk hv => ?_⟩, hd'.keys, hd'.kinds⟩
    · rw [hd'.rows]
      exact hrows
    · exact hd'.done key hkey raw wk v hraw hwk (hd'.rows ▸ hv)
  · refine .pure ?_
    rintro d' rfl
    exact ⟨(hview.mono (fun _ _ h => h) fun _ _ h => h.elim).join ⟨hrows, fun h => absurd h hend⟩, rfl, rfl⟩

end

/-! ### ApplyRule -/

/-- **One rule applied.** Beside rules that neither version of it overlaps, with room for its ranges. -/
theorem applyRule_ok (hm : Compatible m) (hnext : Compatible (update m rule.key (some rule))) (hw : Quiet w)
    (hroom : rule.portEnd ≠ 0 → Room m rule) (h : Represents m d) :
    From d (applyRule w rule) (fun _ => Represents (update m rule.key (some rule))) fun _ _ => False := by
  have hrule : Accepted rule := (hnext.accepted rule.key rule (update_self ..)).2
  obtain ⟨-, -, hkeys, -⟩ := hrule.keys
  obtain ⟨affinity, haffinity⟩ := exists_of_isOk hrule.2.1
  unfold applyRule
  refine liftExcept_ok hkeys (.bind (retireCoverage_ok hm hw h hrule) fun _ => .named fun d₁ hd₁ => ?_)
  refine liftExcept_ok haffinity ?_
  refine .bind (leaveOldTable_ok hm hw h hd₁.1 hd₁.2) fun _ => ?_
  refine .bind (Q := fun _ => Writing m rule d []) (.modify fun d₂ hd₂ => ?_) fun _ => ?_
  · exact ⟨(hd₂.2.mono (fun _ _ h => .inl h) fun _ _ h => h).congr rfl rfl, hd₂.1.keys, by rw [← hd₂.1.kinds],
      fun key hkey => nomatch hkey⟩
  have hbuild : ∀ key ∈ ruleKeys rule, ∃ fam, buildMaglevTable rule (rule.backendsFor key.vip) = .ok fam := by
    intro key hkey
    have hok := (hrule.2.2.1 _ (hrule.mem_keys hkey).2.2).2.2
    rcases hb : buildMaglevTable rule (rule.backendsFor key.vip) with e | fam
    · rw [hb] at hok
      cases hok
    · exact ⟨fam, rfl⟩
  obtain ⟨fs, hfs, -, htables, hall⟩ := families_ok (ruleKeys rule) hbuild (fun _ => none) fun b fam h => nomatch h
  refine liftExcept_ok hfs ?_
  have hfamilies : ∀ key ∈ ruleKeys rule, ∃ fam, fs key.vip.is4 = some fam ∧
      buildMaglevTable rule (rule.backendsFor key.vip) = .ok fam := by
    intro key hkey
    obtain ⟨fam, hfam⟩ := isSome_iff_exists.mp (hall key hkey)
    exact ⟨fam, hfam, htables _ fam hfam⟩
  refine .bind (registerLoop_ok hnext hrule hw haffinity hfamilies (ruleKeys rule) 0 (ruleKeys rule) []
    fun _ hkey => hkey) fun _ => .get_bind fun d₃ hd₃ => ?_
  have hold : d₃.keysOf rule.key = d.keysOf rule.key := by
    unfold keysOf
    rw [hd₃.keys]
  rw [hold]
  refine .bind (pruneLoop_ok hm hw h hrule hd₃) fun _ => .named fun d₄ hd₄ => ?_
  obtain ⟨hfewer, hview, hrows⟩ := hd₄
  refine .bind (Q := fun _ d' => d' = d₄.setKeys rule.key (ruleKeys rule))
    (.modify fun d' hd' => by rw [hd']) fun _ => ?_
  have hset : Shows (update m rule.key none) (RuleRow rule) NoRange (d₄.setKeys rule.key (ruleKeys rule)) :=
    hview.congr rfl rfl
  refine .imp (activateRanges_ok hnext hrule hw hroom hset hrows) ?_ fun _ _ h => h
  rintro _ d₅ ⟨hview', hkeys', hkinds'⟩
  refine ⟨hview', fun k' => ?_, fun k' => ?_⟩
  · rw [hkeys']
    simp [setKeys, Entries.lookup_inserted, hfewer.keys, hd₃.keys, h.keys, update_apply, apply_ite (Option.map _)]
  rw [hkinds']
  change d₄.rangeRules.lookup k' = _
  simp [hfewer.kinds, hd₃.kinds, Entries.lookup_inserted, h.kinds, update_apply, apply_ite (Option.map _)]

end Galactic.Gateway
