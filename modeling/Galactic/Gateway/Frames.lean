import Galactic.Gateway.KernelDatapath

/-!
# What the steps of the datapath do

A step either takes rows and ranges away, whatever fails in it, or writes one row or one range. -/

namespace Galactic.Gateway

open Net FallibleProg List AList Option

section Rules
variable {α β : Type} {P : Datapath → Prop} {R : β → Datapath → Prop} {E : Err → Datapath → Prop}

variable {f : α → M β}

theorem orThrow_bind {e : Err} {o : Option α} (hnone : o = none → ∀ d, P d → E e d)
    (hsome : ∀ a, o = some a → Triple P (f a) R E) : Triple P (orThrow e o >>= f) R E := by
  rcases o with _ | a
  · exact .bind (Q := fun _ _ => False) (.throw (hnone rfl)) fun a d hd => hd.elim
  · exact hsome a rfl

theorem liftExcept_bind {o : Except Err α} (herror : ∀ e, o = .error e → ∀ d, P d → E e d)
    (hok : ∀ a, o = .ok a → Triple P (f a) R E) : Triple P (liftExcept o >>= f) R E := by
  rcases o with e | a
  · exact .bind (Q := fun _ _ => False) (.throw (herror e rfl)) fun a d hd => hd.elim
  · exact hok a rfl

theorem orThrow_some {e : Err} {o : Option α} {a : α} (h : o = some a) (hf : Triple P (f a) R E) :
    Triple P (orThrow e o >>= f) R E := by
  rw [h]
  exact hf

theorem liftExcept_ok {o : Except Err α} {a : α} (h : o = .ok a) (hf : Triple P (f a) R E) :
    Triple P (liftExcept o >>= f) R E := by
  rw [h]
  exact hf

theorem mapOp_spec {f : Faults} {op : MapOp} {change : Datapath → Datapath} {Q : Unit → Datapath → Prop}
    (hQ : ∀ d, P d → Q () (change d)) (hE : f.fails op → ∀ d, P d → E .mapOperation d) :
    Triple P (mapOp f op change) Q E :=
  .guard_bind hE fun _ => .modify hQ

end Rules

/-! ### Steps that take away -/

/-- Some rows and ranges are gone, and nothing else has changed but the return addresses. -/
structure Fewer (d d' : Datapath) : Prop where
  keys : d'.vipKeysByName = d.vipKeysByName
  kinds : d'.rangeRules = d.rangeRules
  rows : ∀ t wk v, (d'.rows t).lookup wk = some v → (d.rows t).lookup wk = some v
  ranges : ∀ raw value, d'.ranges.lookup raw = some value → d.ranges.lookup raw = some value ∨
    ∃ old, d.ranges.lookup raw = some old ∧ value.ranges.Sublist old.ranges ∧ value.ranges ≠ []

theorem Fewer.refl (d : Datapath) : Fewer d d := ⟨rfl, rfl, fun _ _ _ h => h, fun _ _ h => .inl h⟩

variable {d : Datapath}

theorem Fewer.trans {d' d'' : Datapath} (h : Fewer d d') (h' : Fewer d' d'') : Fewer d d'' := by
  refine ⟨h'.keys.trans h.keys, h'.kinds.trans h.kinds, fun t wk v hv => h.rows t wk v (h'.rows t wk v hv),
    fun raw value hvalue => ?_⟩
  rcases h'.ranges raw value hvalue with hsame | ⟨old, hold, hsub, hne⟩
  · exact h.ranges raw value hsame
  · rcases h.ranges raw old hold with hsame | ⟨older, holder, hsub', -⟩
    · exact .inr ⟨old, hsame, hsub, hne⟩
    · exact .inr ⟨older, holder, hsub.trans hsub', hne⟩

section
variable {d d' : Datapath} {raw : WireKey} {rg : VipRange}

theorem Fewer.keysOf (h : Fewer d d') (rule : String) : d'.keysOf rule = d.keysOf rule := by
  unfold Datapath.keysOf
  rw [h.keys]

theorem Fewer.tableOf (h : Fewer d d') (rule : String) : d'.tableOf rule = d.tableOf rule := by
  unfold Datapath.tableOf
  rw [h.kinds]

theorem mem_rangesAt {d : Datapath} :
    rg ∈ d.rangesAt raw ↔ ∃ value, d.ranges.lookup raw = some value ∧ rg ∈ value.ranges := by
  unfold Datapath.rangesAt
  rcases d.ranges.lookup raw with _ | value
  · simp
  · simp

theorem Fewer.rangesAt (h : Fewer d d') (hrg : rg ∈ d'.rangesAt raw) : rg ∈ d.rangesAt raw := by
  obtain ⟨value, hvalue, hrg⟩ := mem_rangesAt.mp hrg
  rcases h.ranges raw value hvalue with hsame | ⟨old, hold, hsub, -⟩
  · exact mem_rangesAt.mpr ⟨value, hsame, hrg⟩
  · exact mem_rangesAt.mpr ⟨old, hold, hsub.subset hrg⟩

end

def GoneRow (t : Which) (key : VIPKey) (d : Datapath) : Prop :=
  ∃ wk, toWireKey key = some wk ∧ (d.rows t).lookup wk = none

def GoneRange (key : VIPKey) (d : Datapath) : Prop :=
  ∃ raw, rangeKey key = some raw ∧ ∀ rg ∈ d.rangesAt raw, rg.first ≠ key.vport

section
variable {key : VIPKey} {d d' : Datapath}

theorem GoneRow.fewer {t : Which} (h : GoneRow t key d) (hd : Fewer d d') : GoneRow t key d' := by
  obtain ⟨wk, hwk, hnone⟩ := h
  refine ⟨wk, hwk, eq_none_iff_forall_ne_some.mpr fun v hv => ?_⟩
  rw [hd.rows t wk v hv] at hnone
  cases hnone

theorem GoneRange.fewer (h : GoneRange key d) (hd : Fewer d d') : GoneRange key d' := by
  obtain ⟨raw, hraw, hgone⟩ := h
  exact ⟨raw, hraw, fun rg hrg => hgone rg (hd.rangesAt hrg)⟩

theorem toWireKey_isSome (key : VIPKey) : (toWireKey key).isSome = (toWireAddr key.vip).isSome := by
  unfold toWireKey
  rw [isSome_map]

theorem rangeKey_isSome (key : VIPKey) : (rangeKey key).isSome = (toWireKey key).isSome := by
  unfold rangeKey
  rw [toWireKey_isSome, toWireKey_isSome]

theorem GoneRange.wireable {d : Datapath} (h : GoneRange key d) : (toWireKey key).isSome := by
  obtain ⟨raw, hraw, -⟩ := h
  rw [← rangeKey_isSome, hraw]
  rfl

end

/-! ### Unregister and Remove -/

section
variable {d : Datapath} {f : Faults} {t : Which}

theorem lookup_delRow {t t' : Which} {wk wk' : WireKey} :
    ((d.delRow t wk).rows t').lookup wk' = if t' = t ∧ wk' = wk then none else (d.rows t').lookup wk' := by
  unfold Datapath.delRow
  by_cases ht : t' = t
  · subst ht
    simp [Entries.lookup_erased, Function.update_apply]
  · simp [ht]

theorem fewer_delRow (d : Datapath) (t : Which) (wk : WireKey) : Fewer d (d.delRow t wk) := by
  refine ⟨rfl, rfl, fun t' wk' v hv => ?_, fun raw value hvalue => .inl hvalue⟩
  rw [lookup_delRow] at hv
  split_ifs at hv
  exact hv

theorem releaseAddr_spec {vip : Addr} :
    From d (releaseAddr f t vip) (fun _ d' => ∃ addrs, d' = { d with addrs := addrs })
      fun _ d' => (∃ addrs, d' = { d with addrs := addrs }) ∧ ((∃ op, f.fails op) ∨ toWireAddr vip = none) := by
  have hstart : ∀ d', d' = d → ∃ addrs, d' = { d with addrs := addrs } := fun d' hd' => ⟨d.addrs, hd'⟩
  refine .get_bind fun d' hd' => ?_
  by_cases hpeer : d'.uses t.peer vip
  · rw [if_pos hpeer]
    exact .pure fun d'' hd'' => hstart d'' (hd''.trans hd')
  rw [if_neg hpeer]
  refine .weaken (P := fun d' => d' = d) ?_ (fun _ h => h.trans hd') (fun _ _ h => h) fun _ _ h => h
  refine .guard_bind (fun hf d'' hd'' => ⟨hstart d'' hd'', .inl ⟨_, hf⟩⟩) fun _ => ?_
  refine orThrow_bind (fun hnone d'' hd'' => ⟨hstart d'' hd'', .inr hnone⟩) fun addr _ => ?_
  split_ifs with huses
  · exact .pure hstart
  refine .guard_bind (fun hf d'' hd'' => ⟨hstart d'' hd'', .inl ⟨_, hf⟩⟩) fun _ => ?_
  refine .bind (Q := fun _ d' => ∃ addrs, d' = { d with addrs := addrs })
    (mapOp_spec (fun d'' hd'' => ⟨d.addrs.erase addr, by rw [hd'']⟩)
      fun hf d'' hd'' => ⟨hstart d'' hd'', .inl ⟨_, hf⟩⟩) fun _ => ?_
  exact .guard (fun hf d'' hd'' => ⟨hd'', .inl ⟨_, hf⟩⟩) fun _ d'' hd'' => hd''

theorem unregister_spec {key : VIPKey} :
    From d (unregister f t key) (fun _ d' => Fewer d d' ∧ GoneRow t key d')
      fun _ d' => Fewer d d' ∧ ((∃ op, f.fails op) ∨ toWireKey key = none) := by
  refine orThrow_bind (fun hnone d' hd' => ⟨hd' ▸ Fewer.refl d, .inr hnone⟩) fun wk hwk => ?_
  refine .bind (Q := fun _ d' => d' = d.delRow t wk) (mapOp_spec (fun d' hd' => by rw [hd'])
    fun hf d' hd' => ⟨hd' ▸ Fewer.refl d, .inl ⟨_, hf⟩⟩) fun _ => ?_
  have hfewer := fewer_delRow d t wk
  refine .guard_bind (fun hf d' hd' => ⟨hd' ▸ hfewer, .inl ⟨_, hf⟩⟩) fun _ => ?_
  have haddrs : ∀ d', (∃ addrs, d' = { d.delRow t wk with addrs := addrs }) → Fewer d d' ∧ GoneRow t key d' := by
    rintro d' ⟨addrs, rfl⟩
    refine ⟨⟨rfl, rfl, hfewer.rows, hfewer.ranges⟩, wk, hwk, ?_⟩
    exact lookup_delRow.trans (if_pos ⟨rfl, rfl⟩)
  refine .imp releaseAddr_spec (fun _ d' hd' => haddrs d' hd') ?_
  rintro _ d' ⟨hd', hop | hnone⟩
  · exact ⟨(haddrs d' hd').1, .inl hop⟩
  -- the address was a key above, so that it is one here
  have := toWireKey_isSome key
  rw [hwk, hnone] at this
  cases this

end

/-- Under `raw` the ranges that begin at the key's port are gone, with the row when it has no other. -/
structure CutAt (key : VIPKey) (raw : WireKey) (d d' : Datapath) : Prop where
  frame : d' = { d with ranges := d'.ranges }
  others : ∀ raw', raw' ≠ raw → d'.ranges.lookup raw' = d.ranges.lookup raw'
  kept : d'.rangesAt raw = (d.rangesAt raw).filter fun r => r.first ≠ key.vport
  filled : ∀ value, d'.ranges.lookup raw = some value → value.ranges ≠ []

variable {f : Faults} {key : VIPKey}

theorem removeRange_cuts :
    From d (removeRange f key) (fun _ d' => ∃ raw, rangeKey key = some raw ∧ CutAt key raw d d')
      fun _ d' => d' = d ∧ ((∃ op, f.fails op) ∨ toWireKey key = none ∨
        ∃ raw value, d.ranges.lookup raw = some value ∧ maxRangesPerVIP < value.ranges.length) := by
  refine orThrow_bind (fun hnone d' hd' => ⟨hd', .inr (.inl ?_)⟩) fun raw hraw => ?_
  · have := rangeKey_isSome key
    rw [hnone] at this
    simpa using this.symm
  refine .guard_bind (fun hf d' hd' => ⟨hd', .inl ⟨_, hf⟩⟩) fun _ => .get_from ?_
  rcases hlookup : d.ranges.lookup raw with _ | value
  · refine .pure ?_
    rintro _ rfl
    refine ⟨raw, hraw, rfl, fun _ _ => rfl, ?_, fun value hvalue => ?_⟩
    · simp [Datapath.rangesAt, hlookup]
    · cases hlookup.symm.trans hvalue
  refine .guard_bind (fun hcount d hd => ⟨hd, .inr (.inr ⟨raw, value, hlookup, by simpa using hcount⟩)⟩) fun _ => ?_
  dsimp only
  split_ifs with hnil
  · refine mapOp_spec ?_ fun hf d hd => ⟨hd, .inl ⟨_, hf⟩⟩
    rintro _ rfl
    refine ⟨raw, hraw, rfl, fun _ => lookup_erase_ne, ?_, fun value hvalue => ?_⟩
    · simpa [Datapath.rangesAt, hlookup] using hnil
    · cases (lookup_erase _ _).symm.trans hvalue
  refine mapOp_spec ?_ fun hf d hd => ⟨hd, .inl ⟨_, hf⟩⟩
  rintro _ rfl
  refine ⟨raw, hraw, rfl, fun _ => lookup_insert_ne, ?_, fun value hvalue => ?_⟩
  · simp [Datapath.rangesAt, hlookup]
  · exact some.inj ((lookup_insert _).symm.trans hvalue) ▸ hnil

theorem removeRange_spec : From d (removeRange f key) (fun _ d' => Fewer d d' ∧ GoneRange key d')
      fun _ d' => Fewer d d' ∧ ((∃ op, f.fails op) ∨ toWireKey key = none ∨
        ∃ raw value, d.ranges.lookup raw = some value ∧ maxRangesPerVIP < value.ranges.length) := by
  refine .imp removeRange_cuts ?_ fun _ d' hd' => ⟨hd'.1 ▸ Fewer.refl d, hd'.2⟩
  rintro _ d' ⟨raw, hraw, hcut⟩
  refine ⟨⟨hcut.frame ▸ rfl, hcut.frame ▸ rfl, fun t wk v hv => ?_, fun raw' value hvalue => ?_⟩, raw, hraw,
    fun rg hrg => ?_⟩
  · rwa [hcut.frame] at hv
  · by_cases heq : raw' = raw
    · subst heq
      have hkept := hcut.kept
      simp only [Datapath.rangesAt, hvalue, map_some, getD_some] at hkept
      rcases hold : d.ranges.lookup raw' with _ | old <;> rw [hold] at hkept
      · exact absurd hkept (hcut.filled value hvalue)
      · exact .inr ⟨old, rfl, hkept ▸ filter_sublist, hcut.filled value hvalue⟩
    · exact .inl ((hcut.others raw' heq).symm.trans hvalue)
  · rw [hcut.kept] at hrg
    simpa using (mem_filter.mp hrg).2

/-! ### Loops -/

/-- The rule for a loop, with an invariant on the keys done. -/
theorem forKeys_rule {step : Nat → VIPKey → M Unit} {I : List VIPKey → Datapath → Prop} {E : Err → Datapath → Prop}
    {keys : List VIPKey} (hstep : ∀ i done key, done ++ [key] <+: keys →
      Triple (I done) (step i key) (fun _ => I (done ++ [key])) E) (i : Nat) :
    Triple (I []) (forKeys step i keys) (fun _ => I keys) E := by
  suffices hrest : ∀ rest done i, done ++ rest = keys → Triple (I done) (forKeys step i rest) (fun _ => I keys) E from
    hrest keys [] i rfl
  intro rest
  induction rest with
  | nil =>
    rintro done i rfl
    rw [append_nil]
    exact .pure fun _ h => h
  | cons key rest ih =>
    intro done i hkeys
    have hsplit : done ++ [key] ++ rest = keys := by rwa [append_assoc]
    exact .bind (hstep i done key ⟨rest, hsplit⟩) fun _ => ih _ _ hsplit

/-- A loop whose steps only take away. `Gone` is what a step leaves for its key, `Fault` why it stopped. -/
theorem forKeys_fewer {step : Nat → VIPKey → M Unit} (Gone : VIPKey → Datapath → Prop) (Fault : Nat → VIPKey → Prop)
    (hmono : ∀ {key d d'}, Gone key d → Fewer d d' → Gone key d') {d₀ : Datapath} (hstep : ∀ i key d, Fewer d₀ d →
      From d (step i key) (fun _ d' => Fewer d d' ∧ Gone key d') fun _ d' => Fewer d d' ∧ Fault i key) (i : Nat)
    (keys : List VIPKey) (hd : Fewer d₀ d) : From d (forKeys step i keys) (fun _ d' => Fewer d d' ∧
      ∀ key ∈ keys, Gone key d') fun _ d' => Fewer d d' ∧ ∃ j, ∃ key ∈ keys, Fault j key := by
  refine .given (forKeys_rule (I :=
    fun done d' => Fewer d d' ∧ ∀ key ∈ done, Gone key d') (fun i done key hpre => ?_) i)
    fun d' hd' => ⟨hd' ▸ Fewer.refl d, fun key hkey => nomatch hkey⟩
  refine .named fun d₁ ⟨hfewer, hgone⟩ => .imp (hstep i key d₁ (hd.trans hfewer)) ?_ ?_
  · rintro _ d' ⟨hd', hkey⟩
    exact ⟨hfewer.trans hd', forall_mem_append.mpr ⟨fun k hk => hmono (hgone k hk) hd', forall_mem_singleton.mpr hkey⟩⟩
  · rintro _ d' ⟨hd', hfault⟩
    exact ⟨hfewer.trans hd', i, key, hpre.subset mem_concat_self, hfault⟩

/-! ### Steps that write -/

structure Wrote (t : Which) (key : VIPKey) (d d' : Datapath) : Prop where
  keys : d'.vipKeysByName = d.vipKeysByName
  kinds : d'.rangeRules = d.rangeRules
  ranges : d'.ranges = d.ranges
  rows : ∀ t' wk v, (d'.rows t').lookup wk = some v →
    (d.rows t').lookup wk = some v ∨ (t' = t ∧ toWireKey key = some wk)

theorem Wrote.refl (t : Which) (key : VIPKey) (d : Datapath) : Wrote t key d d :=
  ⟨rfl, rfl, rfl, fun _ _ _ h => .inl h⟩

variable {t : Which}

theorem lookup_setRow {t' : Which} {wk wk' : WireKey} {v : VipValue} :
    ((d.setRow t wk v).rows t').lookup wk' = if t' = t ∧ wk' = wk then some v else (d.rows t').lookup wk' := by
  unfold Datapath.setRow
  by_cases ht : t' = t
  · subst ht
    simp [Entries.lookup_inserted, Function.update_apply]
  · simp [ht]

theorem register_spec {affinity : UInt8} {backends : List Backend} {table : List UInt8} :
    From d (register f t key affinity backends table)
      (fun _ d' => Wrote t key d d' ∧ (toWireKey key).isSome) fun _ => Wrote t key d := by
  have hstart : ∀ d', d' = d → Wrote t key d d' := fun d' hd' => hd' ▸ Wrote.refl t key d
  refine .check_bind hstart (.check_bind hstart (.check_bind hstart ?_))
  refine orThrow_bind (fun _ => hstart) fun wk hwk => liftExcept_bind (fun _ _ => hstart) fun bs _ => ?_
  have hset : ∀ addrs, Wrote t key d { d.setRow t wk ⟨bs, table, affinity, f.clock⟩ with addrs := addrs } := by
    intro addrs
    refine ⟨rfl, rfl, rfl, fun t' wk' v hv => ?_⟩
    have hv := lookup_setRow.symm.trans hv
    split_ifs at hv with heq
    · exact .inr ⟨heq.1, by rw [heq.2, hwk]⟩
    · exact .inl hv
  refine .bind (Q := fun _ d' => d' = d.setRow t wk ⟨bs, table, affinity, f.clock⟩)
    (mapOp_spec (fun d' hd' => by rw [hd']) fun _ => hstart) fun _ => ?_
  refine orThrow_bind (fun _ d' hd' => hd' ▸ hset _) fun addr _ => mapOp_spec (fun d' hd' => ?_)
    fun _ d' hd' => hd' ▸ hset _
  subst hd'
  exact ⟨hset _, by rw [hwk]; rfl⟩

/-! ### Ranges that are written -/

variable {last : UInt16}

theorem keepRanges_spec {first : UInt16} (rs : List VipRange) : From d (keepRanges first last rs)
      (fun out d' => d' = d ∧ out = rs.filter fun r => r.first ≠ first)
      fun _ d' => d' = d ∧ ∃ r ∈ rs, r.first ≠ first ∧ r.first ≤ last ∧ first ≤ r.last := by
  induction rs with
  | nil => exact .pure fun d' hd' => ⟨hd', rfl⟩
  | cons r rs ih =>
    unfold keepRanges
    split_ifs with hfirst
    · refine .imp ih ?_ ?_
      · rintro out d' ⟨hd', rfl⟩
        exact ⟨hd', by simp [hfirst]⟩
      · rintro _ d' ⟨hd', r', hr', hrest⟩
        exact ⟨hd', r', mem_cons_of_mem _ hr', hrest⟩
    refine .guard_bind (fun hmeets d' hd' => ⟨hd', r, mem_cons_self, hfirst, by simpa using hmeets⟩) fun _ => ?_
    refine .bind (.onError ih ?_) fun out => .pure ?_
    · rintro _ d' ⟨hd', r', hr', hrest⟩
      exact ⟨hd', r', mem_cons_of_mem _ hr', hrest⟩
    · rintro d' ⟨hd', rfl⟩
      exact ⟨hd', by simp [hfirst]⟩

/-- At most the row of the key's address is new, and in it only a range that begins at the key's port. -/
structure WroteRange (key : VIPKey) (d d' : Datapath) : Prop where
  keys : d'.vipKeysByName = d.vipKeysByName
  kinds : d'.rangeRules = d.rangeRules
  rows : d'.rows = d.rows
  ranges : ∀ raw value, d'.ranges.lookup raw = some value → d.ranges.lookup raw = some value ∨
    (rangeKey key = some raw ∧ value.ranges ≠ [] ∧ value.ranges.length ≤ maxRangesPerVIP ∧
      ∀ rg ∈ value.ranges, rg ∈ d.rangesAt raw ∨ rg.first = key.vport)

theorem registerRange_spec {generation : Nat} :
    From d (registerRange f key last generation) (fun _ d' => WroteRange key d d') fun _ d' => d' = d := by
  refine .check_bind (fun _ h => h) (orThrow_bind (fun _ _ h => h) fun raw hraw => ?_)
  refine .check_bind (fun _ h => h) (.get_from ?_)
  refine .guard_bind (fun _ _ h => h) fun hcount => ?_
  refine .bind (.onError (keepRanges_spec _) fun _ _ h => h.1) fun out =>
    .named fun d₁ hd₁ => ?_
  obtain ⟨rfl, rfl⟩ := hd₁
  refine .guard_bind (fun _ _ h => h) fun hroom => mapOp_spec (fun d₂ hd₂ => ?_) fun _ _ h => h
  subst hd₂
  have hperm := perm_insertionSort (fun a b : VipRange => a.first ≤ b.first)
    ((d₂.rangesAt raw).filter (fun r => r.first ≠ key.vport) ++ [⟨key.vport, last, generation⟩])
  refine ⟨rfl, rfl, rfl, fun raw' value hvalue => ?_⟩
  by_cases heq : raw' = raw
  · subst heq
    rw [lookup_insert] at hvalue
    cases hvalue
    dsimp only
    refine .inr ⟨hraw, fun hnil => ?_, ?_, fun rg hrg => ?_⟩
    · rw [hnil] at hperm
      simpa using hperm.length_eq
    · have hfilter := length_filter_le (fun r : VipRange => decide (r.first ≠ key.vport)) (d₂.rangesAt raw')
      have hle : (d₂.rangesAt raw').length ≤ maxRangesPerVIP := by simpa using hcount
      have hne : ((d₂.rangesAt raw').filter fun r => r.first ≠ key.vport).length ≠ maxRangesPerVIP :=
        by simpa using hroom
      have hlen := hperm.length_eq
      rw [length_append, length_singleton] at hlen
      omega
    · rcases mem_append.mp (hperm.subset hrg) with hold | hnew
      · exact .inl (mem_of_mem_filter hold)
      · rw [mem_singleton.mp hnew]
        exact .inr rfl
  · rw [lookup_insert_ne heq] at hvalue
    exact .inl hvalue

end Galactic.Gateway
