import Galactic.Gateway.Engine
import Galactic.Gateway.Frames

/-!
# No row without its key

Every row and range that the process has written and that is still there has its key recorded for a rule. `ApplyRule`
records its keys late, so nothing may fail in its prune step, unless it adds no key or drops none. -/

namespace Galactic.Gateway

open Net FallibleProg Datapath

/-- A map as an earlier process may have left it, and no rule. -/
structure Fresh (d : Datapath) : Prop where
  keys : d.vipKeysByName = ∅
  kinds : d.rangeRules = ∅
  counts : ∀ raw value, d.ranges.lookup raw = some value → value.ranges.length ≤ maxRangesPerVIP

def Datapath.RecordsRow (d : Datapath) (t : Which) (wk : WireKey) (rule : String) : Prop :=
  d.tableOf rule = t ∧ ∃ key ∈ d.keysOf rule, toWireKey key = some wk

def Datapath.RecordsRange (d : Datapath) (raw : WireKey) (first : UInt16) (rule : String) : Prop :=
  ∃ key ∈ d.keysOf rule, rangeKey key = some raw ∧ key.vport = first

/-- What was not there at the start is recorded, or is the row of one of the keys `extra` that a call on `rule` has
written and not yet recorded. -/
structure Kept (d₀ : Datapath) (rule : String) (extra : List VIPKey) (d : Datapath) : Prop where
  rows : ∀ t wk v, (d.rows t).lookup wk = some v → (∃ r, d.RecordsRow t wk r) ∨
    (d.tableOf rule = t ∧ ∃ key ∈ extra, toWireKey key = some wk) ∨ (d₀.rows t).lookup wk = some v
  ranges : ∀ raw value, d.ranges.lookup raw = some value → value.ranges.length ≤ maxRangesPerVIP ∧
    (∀ rg ∈ value.ranges, (∃ r, d.RecordsRange raw rg.first r) ∨ rg ∈ d₀.rangesAt raw) ∧
    (value.ranges = [] → d₀.ranges.lookup raw = some value)
  wireable : ∀ r, ∀ key ∈ (d.keysOf r).dropLast, (toWireKey key).isSome = true
  kinds : ∀ r, d.rangeRules.lookup r = none → d.keysOf r = []

def Recorded (d₀ d : Datapath) : Prop := Kept d₀ "" [] d

variable {d₀ d d' : Datapath} {rule : String} {extra : List VIPKey}

theorem Kept.widen (h : Kept d₀ rule [] d) (rule' : String) (extra : List VIPKey) : Kept d₀ rule' extra d := by
  refine ⟨fun t wk v hv => ?_, h.ranges, h.wireable, h.kinds⟩
  rcases h.rows t wk v hv with hr | ⟨-, key, hkey, -⟩ | hold
  · exact .inl hr
  · cases hkey
  · exact .inr (.inr hold)

theorem Kept.recorded (h : Kept d₀ rule [] d) : Recorded d₀ d := h.widen "" []

theorem Recorded.kept (h : Recorded d₀ d) (rule : String) (extra : List VIPKey) : Kept d₀ rule extra d :=
  h.widen rule extra

theorem Fresh.recorded (h : Fresh d₀) : Recorded d₀ d₀ := by
  have hnil : ∀ r, d₀.keysOf r = [] := by
    intro r
    unfold keysOf
    rw [h.keys, AList.lookup_empty]
    rfl
  refine ⟨fun t wk v hv => .inr (.inr hv), fun raw value hvalue => ?_, fun r key hkey => ?_, fun r _ => hnil r⟩
  · exact ⟨h.counts raw value hvalue, fun rg hrg => .inr (mem_rangesAt.mpr ⟨value, hvalue, hrg⟩), fun _ => hvalue⟩
  · rw [hnil r] at hkey
    cases hkey

theorem Kept.of_records (h : Kept d₀ rule extra d) (hkeys : d'.vipKeysByName = d.vipKeysByName)
    (hkinds : d'.rangeRules = d.rangeRules) {extra' : List VIPKey} (hextra : extra ⊆ extra')
    (hrows : ∀ t wk v, (d'.rows t).lookup wk = some v → (d.rows t).lookup wk = some v ∨
      d.tableOf rule = t ∧ ∃ key ∈ extra', toWireKey key = some wk)
    (hranges : ∀ raw value, d'.ranges.lookup raw = some value → d.ranges.lookup raw = some value ∨
      value.ranges ≠ [] ∧ value.ranges.length ≤ maxRangesPerVIP ∧
        ∀ rg ∈ value.ranges, rg ∈ d.rangesAt raw ∨ ∃ r, d.RecordsRange raw rg.first r) : Kept d₀ rule extra' d' := by
  have hsame : ∀ r, d'.keysOf r = d.keysOf r := fun r => by unfold keysOf; rw [hkeys]
  have htable : ∀ r, d'.tableOf r = d.tableOf r := fun r => by unfold tableOf; rw [hkinds]
  have hrange : ∀ {raw first}, (∃ r, d.RecordsRange raw first r) → ∃ r, d'.RecordsRange raw first r := by
    rintro raw first ⟨r, key, hkey, hfirst⟩
    exact ⟨r, key, (hsame r).symm ▸ hkey, hfirst⟩
  refine ⟨fun t wk v hv => ?_, fun raw value hvalue => ?_, fun r => ?_, fun r hnone => ?_⟩
  · rcases hrows t wk v hv with hold | ⟨ht, hnew⟩
    · rcases h.rows t wk v hold with ⟨r, ht, key, hkey, hwk⟩ | ⟨ht, key, hkey, hwk⟩ | hstart
      · exact .inl ⟨r, (htable r).trans ht, key, (hsame r).symm ▸ hkey, hwk⟩
      · exact .inr (.inl ⟨(htable rule).trans ht, key, hextra hkey, hwk⟩)
      · exact .inr (.inr hstart)
    · exact .inr (.inl ⟨(htable rule).trans ht, hnew⟩)
  · rcases hranges raw value hvalue with hold | ⟨hne, hlen, hall⟩
    · obtain ⟨hlen, hall, hnil⟩ := h.ranges raw value hold
      exact ⟨hlen, fun rg hrg => (hall rg hrg).imp_left hrange, hnil⟩
    refine ⟨hlen, fun rg hrg => ?_, fun hnil => absurd hnil hne⟩
    rcases hall rg hrg with hold | hnew
    · obtain ⟨value', hvalue', hrg'⟩ := mem_rangesAt.mp hold
      exact ((h.ranges raw value' hvalue').2.1 rg hrg').imp_left hrange
    · exact .inl (hrange hnew)
  · rw [hsame]
    exact h.wireable r
  · rw [hsame]
    exact h.kinds r (hkinds ▸ hnone)

theorem Kept.fewer (h : Kept d₀ rule extra d) (hd : Fewer d d') : Kept d₀ rule extra d' := by
  refine h.of_records hd.keys hd.kinds (List.Subset.refl _) (fun t wk v hv => .inl (hd.rows t wk v hv))
    fun raw value hvalue => ?_
  refine (hd.ranges raw value hvalue).imp_right fun ⟨old, hold, hsub, hne⟩ => ?_
  exact ⟨hne, hsub.length_le.trans (h.ranges raw old hold).1,
    fun rg hrg => .inl (mem_rangesAt.mpr ⟨old, hold, hsub.subset hrg⟩)⟩

/-! ### Changes of the records -/

theorem keysOf_setKeys (d : Datapath) (rule r : String) (keys : List VIPKey) :
    (d.setKeys rule keys).keysOf r = if r = rule then keys else d.keysOf r := by
  simp only [setKeys, keysOf, Entries.lookup_inserted, Function.update_apply]
  split_ifs <;> rfl

section
variable {keys : List VIPKey} (hrows : ∀ key ∈ d.keysOf rule, key ∈ keys ∨ GoneRow (d.tableOf rule) key d)
  (hranges : ∀ key ∈ d.keysOf rule, key ∈ keys ∨ GoneRange key d) (hextra : ∀ key ∈ extra, key ∈ keys)
  (hwire : ∀ key ∈ keys.dropLast, (toWireKey key).isSome)

include hrows hranges hextra hwire

/-- The rule's record becomes `keys`: the rows and ranges of the keys that it loses are gone. -/
theorem Kept.rekey (h : Kept d₀ rule extra d) (hmaps : d'.rows = d.rows ∧ d'.ranges = d.ranges)
    (hself : d'.keysOf rule = keys) (htable : keys ≠ [] → d'.tableOf rule = d.tableOf rule)
    (hkind : d'.rangeRules.lookup rule = none → keys = []) (hother : ∀ r, r ≠ rule → d'.keysOf r = d.keysOf r ∧
      d'.tableOf r = d.tableOf r ∧ d'.rangeRules.lookup r = d.rangeRules.lookup r) : Recorded d₀ d' := by
  refine ⟨fun t wk v hv => ?_, fun raw value hvalue => ?_, fun r => ?_, fun r hnone => ?_⟩
  · rw [hmaps.1] at hv
    have hnew : ∀ key ∈ keys, d.tableOf rule = t → toWireKey key = some wk → ∃ r, d'.RecordsRow t wk r :=
      fun key hkey ht hwk => ⟨rule, (htable (List.ne_nil_of_mem hkey)).trans ht, key, by rw [hself]; exact hkey, hwk⟩
    rcases h.rows t wk v hv with ⟨r, ht, key, hkey, hwk⟩ | ⟨ht, key, hkey, hwk⟩ | hold
    · by_cases hr : r = rule
      · subst hr
        rcases hrows key hkey with hin | ⟨wk', hwk', hgone⟩
        · exact .inl (hnew key hin ht hwk)
        -- the row of a dropped key is not there
        rw [hwk] at hwk'
        cases hwk'
        rw [ht, hv] at hgone
        cases hgone
      · obtain ⟨hkeys, hsame, -⟩ := hother r hr
        exact .inl ⟨r, hsame.trans ht, key, by rw [hkeys]; exact hkey, hwk⟩
    · exact .inl (hnew key (hextra key hkey) ht hwk)
    · exact .inr (.inr hold)
  · rw [hmaps.2] at hvalue
    obtain ⟨hlen, hall, hnil⟩ := h.ranges raw value hvalue
    refine ⟨hlen, fun rg hrg => ?_, hnil⟩
    rcases hall rg hrg with ⟨r, key, hkey, hraw, hfirst⟩ | hold
    · by_cases hr : r = rule
      · subst hr
        rcases hranges key hkey with hin | ⟨raw', hraw', hgone⟩
        · exact .inl ⟨r, key, by rw [hself]; exact hin, hraw, hfirst⟩
        · rw [hraw] at hraw'
          cases hraw'
          exact absurd hfirst.symm (hgone rg (mem_rangesAt.mpr ⟨value, hvalue, hrg⟩))
      · exact .inl ⟨r, key, by rw [(hother r hr).1]; exact hkey, hraw, hfirst⟩
    · exact .inr hold
  · by_cases hr : r = rule
    · subst hr
      rw [hself]
      exact hwire
    · rw [(hother r hr).1]
      exact h.wireable r
  · by_cases hr : r = rule
    · subst hr
      exact hself.trans (hkind hnone)
    · obtain ⟨hkeys, -, hkinds⟩ := hother r hr
      rw [hkeys]
      exact h.kinds r (hkinds ▸ hnone)

theorem Kept.setKeys (h : Kept d₀ rule extra d) (hkind : d.rangeRules.lookup rule ≠ none) :
    Recorded d₀ (d.setKeys rule keys) := by
  refine h.rekey hrows hranges hextra hwire ⟨rfl, rfl⟩ ?_ (fun _ => rfl) (fun hnone => absurd hnone hkind) fun r hr =>
    ⟨?_, rfl, rfl⟩
  · rw [keysOf_setKeys, if_pos rfl]
  · rw [keysOf_setKeys, if_neg hr]

end

theorem Recorded.drop (h : Recorded d₀ d)
    (hgone : ∀ key ∈ d.keysOf rule, GoneRow (d.tableOf rule) key d ∧ GoneRange key d) :
    Recorded d₀ { d with vipKeysByName := d.vipKeysByName.erase rule, rangeRules := d.rangeRules.erase rule } := by
  have hrows : ∀ key ∈ d.keysOf rule, key ∈ [] ∨ GoneRow (d.tableOf rule) key d :=
    fun key hkey => .inr (hgone key hkey).1
  refine (h.kept rule []).rekey hrows (fun key hkey => .inr (hgone key hkey).2) (by simp) (by simp) ⟨rfl, rfl⟩ ?_
    (absurd rfl) (fun _ => rfl) fun r hr => ?_
  · simp [keysOf]
  · simp [keysOf, tableOf, AList.lookup_erase_ne hr]

/-! ### RemoveRule -/

theorem removeStep_spec {f : Faults} {t : Which} {key : VIPKey} {d : Datapath}
    (hcounts : ∀ raw value, d.ranges.lookup raw = some value → value.ranges.length ≤ maxRangesPerVIP) :
    From d (do removeRange f key; unregister f t key)
      (fun _ d' => Fewer d d' ∧ GoneRow t key d' ∧ GoneRange key d')
      fun _ d' => Fewer d d' ∧ ((∃ op, f.fails op) ∨ toWireKey key = none) := by
  refine .bind (.onError removeRange_spec ?_) fun _ => .named fun d₁ hd₁ => ?_
  · rintro _ d' ⟨hd', hop | hnone | ⟨raw, value, hvalue, hlong⟩⟩
    · exact ⟨hd', .inl hop⟩
    · exact ⟨hd', .inr hnone⟩
    · have := hcounts raw value hvalue
      omega
  obtain ⟨hfewer, hgone⟩ := hd₁
  refine .imp unregister_spec ?_ ?_
  · rintro _ d' ⟨hd', hrow⟩
    exact ⟨hfewer.trans hd', hrow, hgone.fewer hd'⟩
  · rintro _ d' ⟨hd', hwhy⟩
    exact ⟨hfewer.trans hd', hwhy⟩

theorem Recorded.counts (h : Recorded d₀ d) (hd : Fewer d d') :
    ∀ raw value, d'.ranges.lookup raw = some value → value.ranges.length ≤ maxRangesPerVIP :=
  fun raw value hvalue => ((Kept.fewer h hd).ranges raw value hvalue).1

theorem removeRule_spec {w : World} {rule : String} (h : Recorded d₀ d) :
    From d (removeRule w rule) (fun _ => Recorded d₀) fun _ => Recorded d₀ := by
  refine .get_from ?_
  refine .bind (.onError (forKeys_fewer (fun key d' => GoneRow (d.tableOf rule) key d' ∧ GoneRange key d')
    (fun _ _ => True) (fun hgone hd => ⟨hgone.1.fewer hd, hgone.2.fewer hd⟩)
    (fun i key _ hd => .onError (removeStep_spec (h.counts hd))
      fun _ _ h => ⟨h.1, trivial⟩) 0 (d.keysOf rule) (Fewer.refl d))
    fun _ _ hd => Kept.fewer h hd.1) fun _ => .modify fun d hd => ?_
  obtain ⟨hfewer, hgone⟩ := hd
  refine Recorded.drop (Kept.fewer h hfewer) fun key hkey => ?_
  rw [hfewer.tableOf]
  exact hgone key (hfewer.keysOf rule ▸ hkey)

end Galactic.Gateway
