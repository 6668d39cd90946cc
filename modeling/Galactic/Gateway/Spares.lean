import Galactic.Gateway.Frames
import Galactic.Maglev.Fill

/-!
# What the steps of the datapath leave alone

The other half of the relations of `Frames`: rows and ranges under other keys are kept. -/

namespace Galactic.Gateway

open Net FallibleProg List Function

/-- Rows outside `R` and ranges outside `G` are kept. -/
structure Spares (R : Which → WireKey → Prop) (G : WireKey → UInt16 → Prop) (d d' : Datapath) : Prop where
  rows : ∀ t wk v, (d.rows t).lookup wk = some v → R t wk ∨ (d'.rows t).lookup wk = some v
  ranges : ∀ raw rg, rg ∈ d.rangesAt raw → G raw rg.first ∨ rg ∈ d'.rangesAt raw

def RowOf (t : Which) (key : VIPKey) (t' : Which) (wk : WireKey) : Prop := t' = t ∧ toWireKey key = some wk

def RangeOf (key : VIPKey) (raw : WireKey) (first : UInt16) : Prop := rangeKey key = some raw ∧ first = key.vport

variable {R R' : Which → WireKey → Prop} {G G' : WireKey → UInt16 → Prop} {d d' d'' : Datapath}

theorem Spares.of_eq (h : d' = d) : Spares R G d d' := by
  subst h
  exact ⟨fun _ _ _ h => .inr h, fun _ _ h => .inr h⟩

theorem Spares.mono (h : Spares R G d d') (hR : ∀ t wk, R t wk → R' t wk)
    (hG : ∀ raw first, G raw first → G' raw first) : Spares R' G' d d' :=
  ⟨fun t wk v hv => (h.rows t wk v hv).imp_left (hR t wk),
    fun raw rg hrg => (h.ranges raw rg hrg).imp_left (hG raw rg.first)⟩

theorem Spares.trans (h : Spares R G d d') (h' : Spares R G d' d'') : Spares R G d d'' := by
  refine ⟨fun t wk v hv => ?_, fun raw rg hrg => ?_⟩
  · exact (h.rows t wk v hv).elim .inl fun hv' => h'.rows t wk v hv'
  · exact (h.ranges raw rg hrg).elim .inl fun hrg' => h'.ranges raw rg hrg'

theorem Spares.of_addrs {addrs : AList fun _ : List UInt8 => Nat} (h : Spares R G d d') :
    Spares R G d { d' with addrs := addrs } := ⟨h.rows, h.ranges⟩

variable {wk : WireKey}

theorem spares_delRow (d : Datapath) (t : Which) (key : VIPKey) (hwk : toWireKey key = some wk) :
    Spares (RowOf t key) G d (d.delRow t wk) := by
  refine ⟨fun t' wk' v hv => ?_, fun _ _ h => .inr h⟩
  by_cases heq : t' = t ∧ wk' = wk
  · obtain ⟨rfl, rfl⟩ := heq
    exact .inl ⟨rfl, hwk⟩
  · exact .inr (lookup_delRow.trans (if_neg heq |>.trans hv))

/-! ### Unregister and Remove -/

variable {f : Faults} {t : Which} {key : VIPKey}

theorem unregister_spares : From d (unregister f t key) (fun _ d' => Spares (RowOf t key) G d d')
      fun _ d' => Spares (RowOf t key) G d d' := by
  have hstart : ∀ d', d' = d → Spares (RowOf t key) G d d' := fun d' hd' => Spares.of_eq hd'
  refine orThrow_bind (fun _ => hstart) fun wk hwk => ?_
  have hdel := spares_delRow (G := G) d t key hwk
  refine .bind (Q := fun _ d' => d' = d.delRow t wk)
    (mapOp_spec (fun d' hd' => by rw [hd']) fun _ => hstart) fun _ => ?_
  refine .check_bind (fun d' hd' => hd' ▸ hdel) (.imp releaseAddr_spec ?_ ?_)
  · rintro _ d' ⟨addrs, rfl⟩
    exact hdel.of_addrs
  · rintro _ d' ⟨⟨addrs, rfl⟩, -⟩
    exact hdel.of_addrs

theorem removeRange_spares : From d (removeRange f key) (fun _ d' => Spares R (RangeOf key) d d')
      fun _ d' => Spares R (RangeOf key) d d' := by
  refine .imp removeRange_cuts ?_ fun _ _ hd' => Spares.of_eq hd'.1
  rintro _ d' ⟨raw, hraw, hcut⟩
  refine ⟨fun t wk v hv => .inr (hcut.frame ▸ hv), fun raw' rg hrg => ?_⟩
  -- the rows of other addresses stay, and in this one the ranges that begin elsewhere
  by_cases heq : raw' = raw
  · subst heq
    by_cases hfirst : rg.first = key.vport
    · exact .inl ⟨hraw, hfirst⟩
    · exact .inr (hcut.kept ▸ mem_filter.mpr ⟨hrg, decide_eq_true hfirst⟩)
  · obtain ⟨value, hvalue, hrg⟩ := mem_rangesAt.mp hrg
    exact .inr (mem_rangesAt.mpr ⟨value, (hcut.others raw' heq).trans hvalue, hrg⟩)

theorem forKeys_spares {step : Nat → VIPKey → M Unit} (RK : VIPKey → Which → WireKey → Prop)
    (GK : VIPKey → WireKey → UInt16 → Prop) (hstep : ∀ i key d,
      From d (step i key) (fun _ d' => Spares (RK key) (GK key) d d') fun _ d' => Spares (RK key) (GK key) d d')
    (i : Nat) (keys : List VIPKey) :
    From d (forKeys step i keys)
      (fun _ d' => Spares (fun t wk => ∃ key ∈ keys, RK key t wk)
        (fun raw first => ∃ key ∈ keys, GK key raw first) d d')
      fun _ d' => Spares (fun t wk => ∃ key ∈ keys, RK key t wk)
        (fun raw first => ∃ key ∈ keys, GK key raw first) d d' := by
  -- what is spared by all of the keys' steps is spared at each
  refine .given (forKeys_rule (I := fun _ d' => Spares (fun t wk => ∃ key ∈ keys, RK key t wk)
    (fun raw first => ∃ key ∈ keys, GK key raw first) d d') (fun i done key hpre => ?_) i)
    fun d' hd' => Spares.of_eq hd'
  have hkey : key ∈ keys := hpre.subset mem_concat_self
  refine .named fun d₁ hd₁ => ?_
  have hnext := fun d' (h : Spares (RK key) (GK key) d₁ d') =>
    hd₁.trans (h.mono (fun _ _ hr => ⟨key, hkey, hr⟩) fun _ _ hg => ⟨key, hkey, hg⟩)
  exact .imp (hstep i key d₁) (fun _ => hnext) fun _ => hnext

/-! ### Writes in which nothing fails -/

theorem register_ok (hf : ∀ op, f.fails op = false) {affinity : UInt8} {backends : List Backend} {table : List UInt8}
    {bs : List WireBackend} (haffinity : ¬2 < affinity) (hne : backends.length ≠ 0)
    (hlen : ¬maxBackends < backends.length) (hwk : toWireKey key = some wk) (hbs : toWireBackends 0 backends = .ok bs) :
    From d (register f t key affinity backends table)
      (fun _ d' => ∃ addrs, d' = { d.setRow t wk ⟨bs, table, affinity, f.clock⟩ with addrs := addrs })
      fun _ _ => False := by
  refine .pass (decide_eq_false haffinity) (.pass (decide_eq_false hne) (.pass (decide_eq_false hlen) ?_))
  refine orThrow_some hwk (liftExcept_ok hbs ?_)
  refine .bind (Q := fun _ d' => d' = d.setRow t wk ⟨bs, table, affinity, f.clock⟩)
    (mapOp_spec (fun d' hd' => by rw [hd']) fun h => by rw [hf] at h; cases h) fun _ => ?_
  refine orThrow_bind (fun hnone => ?_) fun addr _ => mapOp_spec (fun d' hd' => ?_) fun h => by rw [hf] at h; cases h
  · have := toWireKey_isSome key
    rw [hwk, hnone] at this
    cases this
  · exact ⟨(d.setRow t wk ⟨bs, table, affinity, f.clock⟩).addrs.insert addr f.clock, by rw [hd']⟩

theorem registerRange_ok (hf : ∀ op, f.fails op = false) {last : UInt16} {generation : Nat}
    {raw : WireKey} (hvalid : ¬(key.proto ≠ 17 ∨ key.vport = 0 ∨ last < key.vport ∨ ¬key.vip.is6 ∨ key.vip.is4In6))
    (hraw : rangeKey key = some raw) (hcount : (d.rangesAt raw).length ≤ maxRangesPerVIP)
    (hroom : ((d.rangesAt raw).filter fun r => r.first ≠ key.vport).length ≠ maxRangesPerVIP)
    (hapart : ∀ r ∈ d.rangesAt raw, r.first ≠ key.vport → ¬(r.first ≤ last ∧ key.vport ≤ r.last)) :
    From d (registerRange f key last generation)
      (fun _ d' => ∃ value : RangeValue, d' = { d with ranges := d.ranges.insert raw value } ∧
        value.ranges.Perm (((d.rangesAt raw).filter fun r => r.first ≠ key.vport) ++ [⟨key.vport, last, generation⟩]))
      fun _ _ => False := by
  refine .pass (decide_eq_false hvalid) (orThrow_some hraw (.pass (hf _) (.get_from ?_)))
  refine .pass (decide_eq_false (Nat.not_lt.mpr hcount)) ?_
  refine .bind (.onError (keepRanges_spec _) ?_) fun out =>
    .named fun d₁ hd₁ => ?_
  · rintro _ d' ⟨-, r, hr, hfirst, hmeets⟩
    exact hapart r hr hfirst hmeets
  obtain ⟨rfl, rfl⟩ := hd₁
  refine .pass (decide_eq_false hroom) (mapOp_spec (fun d' hd' => ?_) fun h => by rw [hf] at h; cases h)
  exact ⟨_, by rw [hd'], perm_insertionSort _ _⟩

/-! ### Tables of a rule -/

variable {rule : DesiredRule}

theorem length_of_buildMaglevTable {bs : List DesiredBackend} {fam : Family} (h : buildMaglevTable rule bs = .ok fam) :
    fam.backends.length ≠ 0 ∧ ¬maxBackends < fam.backends.length := by
  unfold buildMaglevTable at h
  split_ifs at h with hlen
  split at h
  · cases h
  split at h
  · cases h
  next hnew =>
  cases h
  obtain ⟨hne, -, -, rfl⟩ := Maglev.new_inv hnew
  rw [length_map, (Maglev.sortByKey_perm _ bs).length_eq]
  exact ⟨fun hnil => hne (length_eq_zero_iff.mp hnil), hlen⟩

theorem affinityNumber_le {a : UInt8} (h : affinityNumber rule = .ok a) : ¬2 < a := by
  unfold affinityNumber at h
  split_ifs at h
  · cases h
    decide
  · cases h
    decide
  · cases h
    decide

def DesiredRule.familyBackends (rule : DesiredRule) (v4 : Bool) : List DesiredBackend :=
  if v4 then rule.ipv4Backends else rule.backends

theorem families_ok (keys : List VIPKey)
    (hbuild : ∀ key ∈ keys, ∃ fam, buildMaglevTable rule (rule.backendsFor key.vip) = .ok fam)
    (fs : Bool → Option Family)
    (hfs : ∀ b fam, fs b = some fam → buildMaglevTable rule (rule.familyBackends b) = .ok fam) :
    ∃ fs', families rule keys fs = .ok fs' ∧ (∀ b, (fs b).isSome → (fs' b).isSome) ∧ (∀ b fam, fs' b = some fam →
      buildMaglevTable rule (rule.familyBackends b) = .ok fam) ∧ ∀ key ∈ keys, (fs' key.vip.is4).isSome := by
  induction keys generalizing fs with
  | nil => exact ⟨fs, rfl, fun _ h => h, hfs, fun key hkey => nomatch hkey⟩
  | cons key keys ih =>
    obtain ⟨⟨fam, hfam⟩, hrest⟩ := forall_mem_cons.mp hbuild
    unfold families
    rcases hhas : fs key.vip.is4 with _ | old
    · simp only [hfam]
      have hupdate : ∀ b fam', update fs key.vip.is4 (some fam) b = some fam' →
          buildMaglevTable rule (rule.familyBackends b) = .ok fam' :=
        Entries.forall_update (fun _ h => by cases h; exact hfam) fun b _ => hfs b
      obtain ⟨fs', hok, hmono, hall, hkeys⟩ := ih hrest _ hupdate
      have hself : (update fs key.vip.is4 (some fam) key.vip.is4).isSome := by
        rw [update_self]
        rfl
      refine ⟨fs', hok, fun b hb => hmono b ?_, hall, forall_mem_cons.mpr ⟨hmono _ hself, hkeys⟩⟩
      by_cases heq : b = key.vip.is4
      · subst heq
        exact hself
      · rw [update_of_ne heq]
        exact hb
    · obtain ⟨fs', hok, hmono, hall, hkeys⟩ := ih hrest _ hfs
      exact ⟨fs', hok, hmono, hall, forall_mem_cons.mpr ⟨hmono _ (by rw [hhas]; rfl), hkeys⟩⟩

end Galactic.Gateway
