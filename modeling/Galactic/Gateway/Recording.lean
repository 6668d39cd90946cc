import Galactic.Gateway.Inventory

/-!
# Recording of what is written

`ApplyRule` step by step: what it has written and not recorded is known at every point, and recorded before every exit,
but for a failure of the prune step. -/

namespace Galactic.Gateway

open Net FallibleProg List Datapath

variable {d₀ d d' : Datapath} {w : World} {rule : DesiredRule}

/-! ### Before the rows are written -/

theorem retireCoverage_spec : From d (retireCoverage w rule)
      (fun _ d' => Fewer d d' ∧ ∀ key ∈ d.keysOf rule.key, GoneRange key d') fun _ d' => Fewer d d' := by
  refine .check_bind (fun d' hd' => hd' ▸ Fewer.refl d) (.get_from ?_)
  refine .onError (forKeys_fewer GoneRange (fun _ _ => True) (fun hgone hd => hgone.fewer hd)
    (fun i key d _ => .onError removeRange_spec fun _ _ h => ⟨h.1, trivial⟩) 0
    (d.keysOf rule.key) (Fewer.refl d)) fun _ _ h => h.1

def KindChanged (rule : DesiredRule) (d d' : Datapath) : Prop :=
  ∀ old, d.rangeRules.lookup rule.key = some old → old = decide (rule.portEnd ≠ 0) ∨
    ∀ key ∈ d.keysOf rule.key, GoneRow (d.tableOf rule.key) key d'

theorem leaveOldTable_spec :
    From d (leaveOldTable w rule) (fun _ d' => Fewer d d' ∧ KindChanged rule d d')
      fun _ d' => Fewer d d' := by
  refine .get_from ?_
  rcases hlookup : d.rangeRules.lookup rule.key with _ | old
  · refine .pure fun _ hd => ⟨hd ▸ Fewer.refl d, fun old hold => ?_⟩
    rw [hlookup] at hold
    cases hold
  have htable : d.tableOf rule.key = if old then .range else .scalar := by
    unfold tableOf
    rw [hlookup]
    rfl
  by_cases hsame : old = decide (rule.portEnd ≠ 0)
  · simp only [if_pos hsame]
    refine .pure fun _ hd => ⟨hd ▸ Fewer.refl d, fun old' hold => .inl ?_⟩
    rw [hlookup] at hold
    rw [← Option.some.inj hold, hsame]
  simp only [if_neg hsame, ← htable]
  refine .imp (forKeys_fewer (GoneRow (d.tableOf rule.key)) (fun _ _ => True) (fun hgone hd => hgone.fewer hd)
    (fun i key d _ => .onError unregister_spec fun _ _ h => ⟨h.1, trivial⟩) 0
    (d.keysOf rule.key) (Fewer.refl d)) (fun _ _ hd => ⟨hd.1, fun _ _ => .inr hd.2⟩) fun _ _ h => h.1

theorem tableOf_setKind (d : Datapath) (rule r : String) (kind : Bool) :
    tableOf { d with rangeRules := d.rangeRules.insert rule kind } r =
      if r = rule then (if kind then .range else .scalar) else d.tableOf r := by
  simp only [tableOf, Entries.lookup_inserted, Function.update_apply]
  split_ifs <;> simp_all

theorem Recorded.setKind (h : Recorded d₀ d) {rule : String} {kind : Bool}
    (hgone : ∀ old, d.rangeRules.lookup rule = some old → old = kind ∨
      ∀ key ∈ d.keysOf rule, GoneRow (d.tableOf rule) key d) :
    Recorded d₀ { d with rangeRules := d.rangeRules.insert rule kind } := by
  refine ⟨fun t wk v hv => ?_, h.ranges, h.wireable, fun r hnone => ?_⟩
  · rcases h.rows t wk v hv with ⟨r, ht, key, hkey, hwk⟩ | ⟨-, key, hkey, -⟩ | hold
    · by_cases hr : r = rule
      · subst hr
        rcases hlookup : d.rangeRules.lookup r with _ | old
        · rw [h.kinds r hlookup] at hkey
          cases hkey
        rcases hgone old hlookup with rfl | hrows
        · refine .inl ⟨r, ?_, key, hkey, hwk⟩
          rw [tableOf_setKind, if_pos rfl, ← ht]
          unfold tableOf
          rw [hlookup]
          rfl
        obtain ⟨wk', hwk', hnone⟩ := hrows key hkey
        rw [hwk] at hwk'
        cases hwk'
        rw [ht, show (d.rows t).lookup wk = some v from hv] at hnone
        cases hnone
      · exact .inl ⟨r, by rw [tableOf_setKind, if_neg hr]; exact ht, key, hkey, hwk⟩
    · cases hkey
    · exact .inr (.inr hold)
  · by_cases hr : r = rule
    · subst hr
      simp at hnone
    · exact h.kinds r (by simpa [AList.lookup_insert_ne hr] using hnone)

/-! ### The rows -/

/-- The state while the keys are registered, of which `done` are, over the keys `old` recorded before. -/
structure Registering (d₀ : Datapath) (rule : DesiredRule) (old done : List VIPKey) (d : Datapath) : Prop where
  kept : Kept d₀ rule.key done d
  table : d.tableOf rule.key = rule.which
  kind : d.rangeRules.lookup rule.key ≠ none
  keys : d.keysOf rule.key = old
  retired : ∀ key ∈ old, GoneRange key d

section
variable {key : VIPKey} {old done : List VIPKey}

theorem Kept.wrote {rule : String} {extra : List VIPKey} {t : Which} (h : Kept d₀ rule extra d)
    (ht : d.tableOf rule = t) (hw : Wrote t key d d') : Kept d₀ rule (extra ++ [key]) d' := by
  refine h.of_records hw.keys hw.kinds (subset_append_left _ _) (fun t' wk v hv => ?_) fun raw value hvalue =>
    .inl (hw.ranges ▸ hvalue)
  exact (hw.rows t' wk v hv).imp_right fun ⟨heq, hwk⟩ => ⟨heq ▸ ht, key, by simp, hwk⟩

theorem Registering.wrote (h : Registering d₀ rule old done d) (hw : Wrote rule.which key d d') :
    Registering d₀ rule old (done ++ [key]) d' := by
  refine ⟨h.kept.wrote h.table hw, ?_, hw.kinds ▸ h.kind, ?_, fun key' hkey' => ?_⟩
  · rw [← h.table]
    unfold tableOf
    rw [hw.kinds]
  · rw [← h.keys]
    unfold keysOf
    rw [hw.keys]
  obtain ⟨raw, hraw, hgone⟩ := h.retired key' hkey'
  refine ⟨raw, hraw, ?_⟩
  unfold rangesAt
  rw [hw.ranges]
  exact hgone

theorem recordWritten_append (keys written more : List VIPKey) :
    recordWritten keys (written ++ more) = recordWritten (recordWritten keys written) more := by
  induction written generalizing keys with
  | nil => rfl
  | cons key written ih => exact ih _

theorem mem_recordWritten {keys written : List VIPKey} :
    key ∈ recordWritten keys written ↔ key ∈ keys ∨ key ∈ written := by
  induction written generalizing keys with
  | nil => simp [recordWritten]
  | cons key' written ih =>
    rw [recordWritten, ih, mem_cons]
    by_cases hin : key' ∈ keys
    · rw [if_pos hin]
      constructor
      · rintro (hkey | hkey)
        · exact .inl hkey
        · exact .inr (.inr hkey)
      rintro (hkey | rfl | hkey)
      · exact .inl hkey
      · exact .inl hin
      · exact .inr hkey
    · rw [if_neg hin, mem_append, mem_singleton, or_assoc]

theorem wireable_recordWritten (hold : ∀ k ∈ old, (toWireKey k).isSome) (hdone : ∀ k ∈ done, (toWireKey k).isSome) :
    ∀ k ∈ (recordWritten old (done ++ [key])).dropLast, (toWireKey k).isSome := by
  have hall : ∀ k ∈ recordWritten old done, (toWireKey k).isSome := fun k hk =>
    (mem_recordWritten.mp hk).elim (hold k) (hdone k)
  rw [recordWritten_append]
  intro k hk
  unfold recordWritten recordWritten at hk
  split_ifs at hk
  · exact hall k (mem_of_mem_dropLast hk)
  · rw [dropLast_concat] at hk
    exact hall k hk

end

variable {affinity : UInt8} {fs : Bool → Option Family} {all old : List VIPKey}

theorem registerLoop_spec (keys : List VIPKey)
    (done : List VIPKey) (hall : all = done ++ keys) (hdone : ∀ key ∈ done, (toWireKey key).isSome) :
    Triple (Registering d₀ rule old done) (registerLoop w rule affinity fs all done.length keys)
      (fun _ d => Registering d₀ rule old all d ∧ ∀ key ∈ all, (toWireKey key).isSome) fun _ => Recorded d₀ := by
  induction keys generalizing done with
  | nil =>
    rw [append_nil] at hall
    subst hall
    exact .pure fun d hd => ⟨hd, hdone⟩
  | cons key keys ih =>
    refine .named fun d hd => ?_
    refine .bind register_spec.attempt fun out => ?_
    rcases out with e | _
    · -- the keys that were written, with the one that failed, are recorded before the error goes out
      have htake : all.take (done.length + 1) = done ++ [key] := by
        rw [hall, take_length_add_append]
        rfl
      have hwritten : ∀ d', Wrote rule.which key d d' →
          Recorded d₀ (d'.setKeys rule.key (recordWritten (d'.keysOf rule.key) (all.take (done.length + 1)))) := by
        intro d' hd'
        have hnext := hd.wrote hd'
        rw [htake]
        refine hnext.kept.setKeys (fun k hk => .inl (mem_recordWritten.mpr (.inl hk)))
          (fun k hk => .inl (mem_recordWritten.mpr (.inl hk))) (fun k hk => mem_recordWritten.mpr (.inr hk)) ?_
          hnext.kind
        rw [hnext.keys]
        exact wireable_recordWritten (fun k hk => (hnext.retired k hk).wireable) hdone
      exact .bind (.modify hwritten) fun _ => .throw fun _ h => h
    · refine .named fun d' hd' => ?_
      obtain ⟨hwrote, hwire⟩ := hd'
      have hdone' : ∀ k ∈ done ++ [key], (toWireKey k).isSome :=
        forall_mem_append.mpr ⟨hdone, forall_mem_singleton.mpr hwire⟩
      have hnext := ih (done ++ [key]) (by rw [hall, append_assoc]; rfl) hdone'
      rw [length_append, length_singleton] at hnext
      exact .given hnext (fun d'' hd'' => hd'' ▸ hd.wrote hwrote)

/-! ### After the rows are written -/

variable {keys : List VIPKey}

theorem pruneLoop_spec : From d (pruneLoop w rule keys 0 old) (fun _ d' => Fewer d d' ∧ ∀ key ∈ old, key ∈ keys ∨
      GoneRow rule.which key d') fun _ d' => Fewer d d' ∧ ∃ i, ∃ key ∈ old, key ∉ keys ∧
    ((∃ op, (w (.prune i)).fails op) ∨ toWireKey key = none) := by
  refine forKeys_fewer (fun key d => key ∈ keys ∨ GoneRow rule.which key d) (fun i key => key ∉ keys ∧
    ((∃ op, (w (.prune i)).fails op) ∨ toWireKey key = none)) (fun hgone hd => hgone.imp_right fun h => h.fewer hd)
    (fun i key d _ => ?_) 0 old (Fewer.refl d)
  split_ifs with hkey
  · exact .pure fun d' hd' => ⟨hd' ▸ Fewer.refl d, .inl hkey⟩
  · exact .imp unregister_spec (fun _ d' hd' => ⟨hd'.1, .inr hd'.2⟩) fun _ d' hd' => ⟨hd'.1, hkey, hd'.2⟩

theorem cleanupRanges_spec {t : Which} {E : Err → Datapath → Prop} :
    From d (cleanupRanges w t 0 keys) (fun _ d' => Fewer d d') E := by
  refine .imp (forKeys_fewer (fun _ _ => True) (fun _ _ => False) (fun _ _ => trivial) (fun i key d _ => ?_) 0 keys
    (Fewer.refl d)) (fun _ _ h => h.1) fun _ _ h => ?_
  · refine .bind (Q := fun _ d' => Fewer d d') (.imp removeRange_spec.attempt ?_ fun _ _ h => h)
      fun _ => .named fun d₁ hd₁ => ?_
    · rintro (e | _) d' hd'
      · exact hd'.1
      · exact hd'.1
    refine .bind (Q := fun _ d' => Fewer d d') (.imp unregister_spec.attempt ?_
      fun _ _ h => h) fun _ => .pure fun d' hd' => ⟨hd', trivial⟩
    rintro (e | _) d' hd'
    · exact hd₁.trans hd'.1
    · exact hd₁.trans hd'.1
  · obtain ⟨-, -, -, -, hfalse⟩ := h
    exact hfalse.elim

variable {key : VIPKey}

theorem Recorded.wroteRange (h : Recorded d₀ d) {r : String} (hkey : key ∈ d.keysOf r) (hw : WroteRange key d d') :
    Recorded d₀ d' := by
  refine h.of_records hw.keys hw.kinds (Subset.refl _) (fun t wk v hv => .inl (hw.rows ▸ hv)) fun raw value hvalue => ?_
  refine (hw.ranges raw value hvalue).imp_right fun ⟨hraw, hne, hlen, hall⟩ => ⟨hne, hlen, fun rg hrg => ?_⟩
  exact (hall rg hrg).imp_right fun hfirst => ⟨r, key, hkey, hraw, hfirst.symm⟩

theorem activateOne_spec {i : Nat} (hkey : key ∈ all) :
    Triple (fun d => Recorded d₀ d ∧ d.keysOf rule.key = all) (activateOne w rule all i key)
      (fun _ d => Recorded d₀ d ∧ d.keysOf rule.key = all) fun _ => Recorded d₀ := by
  refine .bind (Q := fun _ d => Recorded d₀ d ∧ d.keysOf rule.key = all) ?_ fun entry => ?_
  · -- the row is only read
    refine orThrow_bind (fun _ d hd => hd.1) fun wk _ => .check_bind (fun d hd => hd.1) (.get_bind fun d hd => ?_)
    rcases hrow : (d.rows rule.which).lookup wk with _ | v
    · exact .pure fun d' hd' => hd' ▸ hd
    · exact .check_bind (fun d' hd' => hd' ▸ hd.1) (.pure fun d' hd' => hd' ▸ hd)
  rcases entry with _ | entry
  · exact .throw fun d hd => hd.1
  refine .named fun d hd => .bind registerRange_spec.attempt fun out => ?_
  rcases out with e | _
  · refine .bind (.weaken cleanupRanges_spec (fun _ h => h) (fun _ _ h => h) fun _ _ h => h) fun _ =>
      .throw fun d' hd' => Kept.fewer hd.1 hd'
  refine .pure fun d' hd' => ⟨hd.1.wroteRange (hd.2 ▸ hkey) hd', ?_⟩
  rw [← hd.2]
  unfold keysOf
  rw [hd'.keys]

theorem activateRanges_spec : Triple (fun d => Recorded d₀ d ∧ d.keysOf rule.key = keys) (activateRanges w rule keys)
      (fun _ d => Recorded d₀ d) fun _ => Recorded d₀ := by
  unfold activateRanges
  split_ifs
  · refine .imp (forKeys_rule (I := fun _ d => Recorded d₀ d ∧ d.keysOf rule.key = keys) (fun i done key hpre => ?_) 0)
      (fun _ d hd => hd.1) fun _ _ h => h
    exact activateOne_spec (hpre.subset mem_concat_self)
  · exact .pure fun d hd => hd.1

/-! ### ApplyRule -/

/-- The condition on a call: nothing fails in the prune step, or the rule has no key that is not recorded for it, or it
drops none that is. -/
def Covered (w : World) (rule : DesiredRule) (d : Datapath) : Prop :=
  (∀ i op, (w (.prune i)).fails op = false) ∨
    ∀ keys, vipKeysForRule rule = .ok keys →
      (∀ key ∈ keys, key ∈ d.keysOf rule.key) ∨ ∀ key ∈ d.keysOf rule.key, key ∈ keys

theorem applyRows_spec
    (hcovered : (∀ i op, (w (.prune i)).fails op = false) ∨ (∀ key ∈ keys, key ∈ old) ∨ ∀ key ∈ old, key ∈ keys) :
    Triple (Registering d₀ rule old [])
      (do
        registerLoop w rule affinity fs keys 0 keys
        let d ← get
        pruneLoop w rule keys 0 (d.keysOf rule.key)
        modify fun d => d.setKeys rule.key keys
        activateRanges w rule keys)
      (fun _ => Recorded d₀) fun _ => Recorded d₀ := by
  refine .bind (registerLoop_spec keys [] rfl fun key hkey => nomatch hkey) fun _ => .get_bind fun d hd => ?_
  obtain ⟨hreg, hwire⟩ := hd
  rw [hreg.keys]
  refine .bind (.onError pruneLoop_spec ?_) fun _ =>
    .bind (Q := fun _ d => Recorded d₀ d ∧ d.keysOf rule.key = keys) (.modify fun d' hd' => ?_) fun _ =>
      activateRanges_spec
  · rintro _ d' ⟨hd', i, key, hkey, hnot, hwhy⟩
    have hkept := hreg.kept.fewer hd'
    -- the prune has failed, so that the rule adds no key
    have hsub : ∀ key ∈ keys, key ∈ old := by
      rcases hcovered with hnone | hsub | hsup
      · rcases hwhy with ⟨op, hop⟩ | hbad
        · rw [hnone i op] at hop
          cases hop
        · have := (hreg.retired key hkey).wireable
          rw [hbad] at this
          cases this
      · exact hsub
      · exact absurd (hsup key hkey) hnot
    refine ⟨fun t wk v hv => ?_, hkept.ranges, hkept.wireable, hkept.kinds⟩
    rcases hkept.rows t wk v hv with hr | ⟨ht, key, hkey, hwk⟩ | hold
    · exact .inl hr
    · exact .inl ⟨rule.key, ht, key, by rw [hd'.keysOf, hreg.keys]; exact hsub key hkey, hwk⟩
    · exact .inr (.inr hold)
  · obtain ⟨hd', hgone⟩ := hd'
    have hkept := hreg.kept.fewer hd'
    have hkeys : d'.keysOf rule.key = old := (hd'.keysOf rule.key).trans hreg.keys
    refine ⟨hkept.setKeys (fun key hkey => ?_) (fun key hkey => .inr ?_) (fun key hkey => hkey)
      (fun key hkey => ?_) ?_, ?_⟩
    · rw [hd'.tableOf, hreg.table]
      exact hgone key (hkeys ▸ hkey)
    · exact (hreg.retired key (hkeys ▸ hkey)).fewer hd'
    · exact hwire key (mem_of_mem_dropLast hkey)
    · rw [hd'.kinds]
      exact hreg.kind
    · rw [keysOf_setKeys, if_pos rfl]

theorem applyRule_spec (h : Recorded d₀ d) (hcovered : Covered w rule d) :
    From d (applyRule w rule) (fun _ => Recorded d₀) fun _ => Recorded d₀ := by
  have hstart : ∀ d', d' = d → Recorded d₀ d' := fun d' hd' => hd' ▸ h
  refine liftExcept_bind (fun _ _ => hstart) fun keys hkeys => ?_
  refine .bind (.onError retireCoverage_spec fun _ d' hd' => Kept.fewer h hd') fun _ => .named fun d₁ hd₁ => ?_
  obtain ⟨hfewer₁, hretired⟩ := hd₁
  have hd₁ : Recorded d₀ d₁ := Kept.fewer h hfewer₁
  refine liftExcept_bind (fun _ _ d' hd' => hd' ▸ hd₁) fun affinity _ => ?_
  refine .bind (.onError leaveOldTable_spec fun _ d' hd' => Kept.fewer hd₁ hd') fun _ => .named fun d₂ hd₂ => ?_
  obtain ⟨hfewer₂, hkind⟩ := hd₂
  have hd₂ : Recorded d₀ d₂ := Kept.fewer hd₁ hfewer₂
  refine .bind (Q := fun _ => Registering d₀ rule (d.keysOf rule.key) []) (.modify fun d' hd' => ?_) fun _ => ?_
  · subst hd'
    have hset : Recorded d₀ { d' with rangeRules := d'.rangeRules.insert rule.key (decide (rule.portEnd ≠ 0)) } := by
      refine hd₂.setKind fun old hold => ?_
      rw [hfewer₂.kinds] at hold
      rw [hfewer₂.tableOf, hfewer₂.keysOf]
      exact hkind old hold
    refine ⟨hset.kept rule.key [], ?_, ?_, ?_, fun key hkey => ?_⟩
    · rw [tableOf_setKind, if_pos rfl]
      unfold DesiredRule.which
      simp only [decide_eq_true_eq]
    · simp
    · exact (hfewer₂.keysOf _).trans (hfewer₁.keysOf _)
    · obtain ⟨raw, hraw, hgone⟩ := (hretired key hkey).fewer hfewer₂
      exact ⟨raw, hraw, hgone⟩
  refine liftExcept_bind (fun _ _ d' hd' => hd'.kept.recorded) fun fs _ => applyRows_spec ?_
  exact hcovered.imp_right fun hsub => hsub keys hkeys

end Galactic.Gateway
