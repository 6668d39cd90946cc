import Galactic.Gateway.Applied
import Galactic.Gateway.NoEscape

/-!
# Convergence of the gateway engine

After a `Reconcile` in which nothing fails the maps hold the rows of the desired rules, each with its rule's tables, and
no other. A call removes what is no longer desired first, and then applies the rules that changed in the order of their
keys, each with the prune of its own old keys. So a rule must not take a key from one that stays and is applied after
it: the prune of the other would take the row away. -/

namespace Galactic.Gateway

open Net FallibleProg List Function AList Engine

/-! ### The condition -/

/-- No operation that the call reaches fails, and the quota is never refused. -/
structure EngineWorld.Quiet (w : EngineWorld) : Prop where
  remove : ∀ key, Gateway.Quiet (w.remove key)
  apply : ∀ key, Gateway.Quiet (w.apply key)
  quota : ∀ key, w.quota key = some true
  release : ∀ key, w.removeReleaseFails key = false

def Apart (desired : Rules) : Prop :=
  ∀ k ∈ desired.keys, ∀ k' ∈ desired.keys, k ≠ k' → ∀ r ∈ desired.lookup k, ∀ r' ∈ desired.lookup k',
    rulesOverlap r r' = false

/-- A rule that stays does not overlap, as it was, what a rule before it in the order becomes. -/
def Steady (active desired : Rules) : Prop :=
  ∀ k ∈ desired.keys, ∀ k' ∈ desired.keys, k < k' → ∀ r ∈ desired.lookup k, ∀ r' ∈ active.lookup k',
    rulesOverlap r r' = false

def DesiredRule.rangeOn (r : DesiredRule) (vip : Addr) : Bool := r.portEnd ≠ 0 ∧ vip ∈ r.vipAddresses

/-- At most 16 rules that stay have a range on an address, before or after. -/
def Fits (active desired : Rules) : Prop :=
  ∀ k ∈ desired.keys, ∀ r ∈ desired.lookup k, ∀ vip ∈ r.vipAddresses,
    (desired.keys.filter fun k' => (desired.lookup k').any (·.rangeOn vip) || (active.lookup k').any
      (·.rangeOn vip)).length ≤
      maxRangesPerVIP

def Smooth (active desired : Rules) : Prop :=
  (∀ k ∈ desired.keys, ∀ r ∈ desired.lookup k, Accepted r) ∧ Apart desired ∧ Steady active desired ∧ Fits active desired

instance (desired : Rules) : Decidable (Apart desired) := by unfold Apart; infer_instance

instance (active desired : Rules) : Decidable (Steady active desired) := by unfold Steady; infer_instance

instance (active desired : Rules) : Decidable (Fits active desired) := by unfold Fits; infer_instance

instance (active desired : Rules) : Decidable (Smooth active desired) := by unfold Smooth; infer_instance

def SmoothRun : Rules → List (EngineWorld × EngineState) → Prop
  | _, [] => True
  | active, (w, desired) :: calls => w.Quiet ∧ Smooth active desired.rules ∧ SmoothRun desired.rules calls

/-! ### The result -/

/-- The maps hold a row for each key of each rule with the rule's backends and table, a range with the generation of its
row for each key of a rule with one, and nothing else. -/
structure Programmed (rules : Rules) (d : Datapath) : Prop where
  present : ∀ k r, rules.lookup k = some r → ∀ key ∈ ruleKeys r, ∃ wk v, toWireKey key = some wk ∧
    (d.rows r.which).lookup wk = some v ∧ Carries r key v ∧
    (r.portEnd ≠ 0 → ∃ raw, rangeKey key = some raw ∧ ⟨r.port, r.portEnd, v.generation⟩ ∈ d.rangesAt raw)
  rows : ∀ t wk v, (d.rows t).lookup wk = some v → ∃ k r, rules.lookup k = some r ∧ r.which = t ∧
    ∃ key ∈ ruleKeys r, toWireKey key = some wk ∧ Carries r key v
  ranges : ∀ raw value, d.ranges.lookup raw = some value → value.ranges ≠ [] ∧ (value.ranges.map (·.first)).Nodup ∧
    ∀ rg ∈ value.ranges, ∃ k r, rules.lookup k = some r ∧ RuleRange r raw rg

variable {m : String → Option DesiredRule} {e : Engine} {w : EngineWorld} {rules active desired : Rules}
  {key : String}

theorem Represents.programmed {d : Datapath} (hm : Compatible fun k => rules.lookup k)
    (h : Represents (fun k => rules.lookup k) d) : Programmed rules d := by
  refine ⟨fun k r hr key hkey => ?_, fun t wk v hv => ?_, fun raw value hvalue => ?_⟩
  · obtain ⟨wk, hwk⟩ := Option.isSome_iff_exists.mp ((hm.accepted k r hr).2.wireable hkey)
    obtain ⟨v, hv, hcarries⟩ := (h.view.shown k r hr).rows key hkey wk hwk
    refine ⟨wk, v, hwk, hv, hcarries, fun hend => ?_⟩
    obtain ⟨raw, hraw⟩ : ∃ raw, rangeKey key = some raw :=
      Option.isSome_iff_exists.mp ((rangeKey_isSome _).trans ((hm.accepted k r hr).2.wireable hkey))
    have hwhich : r.which = .range := if_pos hend
    exact ⟨raw, hraw, (h.view.shown k r hr).ranges hend key hkey raw wk v hraw hwk (hwhich ▸ hv)⟩
  · rcases h.view.rows t wk v hv with ⟨k, r, hr, ht, key, hkey, hwk⟩ | hfalse
    · obtain ⟨v', hv', hcarries⟩ := (h.view.shown k r hr).rows key hkey wk hwk
      rw [ht, hv] at hv'
      exact ⟨k, r, hr, ht, key, hkey, hwk, Option.some.inj hv' ▸ hcarries⟩
    · exact hfalse.elim
  · have hat : d.rangesAt raw = value.ranges := by simp [Datapath.rangesAt, hvalue]
    refine ⟨(h.view.stored raw value hvalue).1, hat ▸ h.view.distinct raw, fun rg hrg => ?_⟩
    rcases h.view.ranges raw rg (hat.symm ▸ hrg) with hother | hfalse
    · exact hother
    · exact hfalse.elim

/-! ### The engine between two steps -/

/-- Nothing is pending or dirty, the active rules are those of `m`, and so are the maps. -/
structure Phase (m : String → Option DesiredRule) (e : Engine) : Prop where
  active : ∀ k, e.active.lookup k = m k
  pending : ∀ k, e.pending.lookup k = none
  dirty : e.dirty = []
  represents : Represents m e.datapath

theorem onDatapath_ok {α : Type} {p : M α} {R : Datapath → Prop} {E : EngineErr → Engine → Prop}
    (h : From e.datapath p (fun _ => R) fun _ _ => False) :
    From e (onDatapath p) (fun out e' => (∃ a, out = .ok a) ∧ ∃ d, R d ∧ e' = { e with datapath := d })
      E := by
  have hrun := h e.datapath rfl
  refine .get_from ?_
  rcases hexec : exec p e.datapath with ⟨err | a, d⟩ <;> rw [hexec] at hrun
  · exact hrun.elim
  · rintro _ rfl
    exact ⟨⟨a, rfl⟩, d, hrun, rfl⟩

theorem removeOne_ok (hm : Compatible m) (hw : w.Quiet) (he : Phase m e) :
    From e (removeOne w key) (fun _ => Phase (update m key none)) fun _ _ => False := by
  have hlocked : From e (removeRuleLocked (w.remove key) (w.removeReleaseFails key) key)
      (fun _ e' => ∃ d, Represents (update m key none) d ∧
        e' = { e with datapath := d, pending := e.pending.erase key }) fun _ _ => False := by
    refine .bind (onDatapath_ok (removeRule_ok hm (hw.remove key) he.represents)) fun out => .named fun e₁ he₁ => ?_
    obtain ⟨⟨a, rfl⟩, d, hd, rfl⟩ := he₁
    refine .guard_bind (fun hfails => by rw [hw.release] at hfails; cases hfails) fun _ => .modify ?_
    rintro e₂ rfl
    exact ⟨d, hd, rfl⟩
  refine .sure hlocked fun _ => ?_
  refine .bind (.modify ?_) fun _ => .pure fun _ h => h
  rintro e₁ ⟨d, hd, rfl⟩
  refine ⟨fun k => ?_, fun k => ?_, ?_, hd⟩
  · rw [Entries.lookup_erased, funext he.active]
  · simp [Entries.lookup_erased, he.pending, update_apply]
  · simp [he.dirty]

section
variable {rule : DesiredRule} {toRemove : List String}

theorem Phase.not_conflicting (he : Phase m e) (hgone : ∀ removed ∈ toRemove, m removed = none) :
    e.ruleConflicts key rule toRemove = false := by
  unfold ruleConflicts
  simp only [Bool.or_eq_false_iff, any_eq_false]
  refine ⟨⟨fun removed hremoved => ?_, fun old hold => ?_⟩, fun old hold => ?_⟩
  · rw [he.active, hgone removed hremoved]
    simp
  · simp [he.dirty, he.pending]
  · simp [he.pending]

theorem applyOne_ok (hw : w.Quiet) (hrule : desired.lookup rule.key = some rule)
    (hgone : ∀ removed ∈ toRemove, m removed = none) (hm : Compatible m)
    (hnext : Compatible (update m rule.key (some rule))) (hroom : rule.portEnd ≠ 0 → Room m rule) (he : Phase m e) :
    From e (applyOne w desired toRemove rule.key)
      (fun _ => Phase (update m rule.key (some rule))) fun _ _ => False := by
  unfold applyOne
  rw [hrule]
  refine .get_from ?_
  rw [he.not_conflicting hgone]
  -- nothing is pending, so that nothing is cleared
  have hclear : From e (clearPending w rule.key) (fun _ e' => e' = e) fun _ _ => False := by
    refine .get_from ?_
    rw [if_pos (he.pending _)]
    exact .pure fun _ h => h
  refine .sure hclear fun _ => ?_
  have hlocked : From e (applyRuleLocked w rule)
      (fun _ e' => ∃ d, Represents (update m rule.key (some rule)) d ∧
        e' = { e with datapath := d, pending := (e.pending.insert rule.key rule).erase rule.key })
      fun _ _ => False := by
    unfold applyRuleLocked
    rw [hw.quota]
    refine .bind (Q := fun _ e' => e' = { e with pending := e.pending.insert rule.key rule })
      (.modify fun _ he => by rw [he]) fun _ => ?_
    have hd : From ({ e with pending := e.pending.insert rule.key rule } : Engine).datapath
        (applyRule (w.apply rule.key) rule) (fun _ => Represents (update m rule.key (some rule))) fun _ _ => False :=
      applyRule_ok hm hnext (hw.apply rule.key) hroom he.represents
    refine .bind (onDatapath_ok hd) fun out => .named fun e₁ he₁ => ?_
    obtain ⟨⟨a, rfl⟩, d, hd, rfl⟩ := he₁
    refine .modify ?_
    rintro e₂ rfl
    exact ⟨d, hd, rfl⟩
  refine .sure hlocked fun _ => ?_
  refine .bind (.modify ?_) fun _ => .pure fun _ h => h
  rintro e₁ ⟨d, hd, rfl⟩
  refine ⟨fun k => ?_, fun k => ?_, ?_, hd⟩
  · rw [Entries.lookup_inserted, funext he.active]
  · simp [Entries.lookup_erased, Entries.lookup_inserted, he.pending, update_apply]
  · simp [he.dirty]

end

/-! ### Rules between two desired states -/

theorem rulesOverlap_comm (a b : DesiredRule) : rulesOverlap a b = rulesOverlap b a := by
  unfold rulesOverlap
  have hiff : (a.protocol ≠ b.protocol ∨ a.port > lastPort b ∨ b.port > lastPort a) ↔
      (b.protocol ≠ a.protocol ∨ b.port > lastPort a ∨ a.port > lastPort b) := by
    rw [ne_comm, or_comm (a := a.port > lastPort b)]
  simp only [hiff]
  split_ifs
  · rfl
  · rw [Bool.eq_iff_iff]
    simp [and_comm]

variable {k : String} {r : DesiredRule}

theorem mem_keys_iff : k ∈ rules.keys ↔ ∃ r, rules.lookup k = some r := by
  rw [← AList.mem_keys, ← AList.lookup_isSome, Option.isSome_iff_exists]

/-- The rules while those of `rest` are still to be applied. -/
def mixed (active desired : Rules) (rest : List String) (k : String) : Option DesiredRule :=
  if k ∈ rest then active.lookup k else desired.lookup k

variable {rest : List String}

theorem of_mixed (hrest : ∀ key ∈ rest, key ∈ desired.keys) (hr : mixed active desired rest k = some r) :
    k ∈ desired.keys ∧ (k ∈ rest ∧ active.lookup k = some r ∨ k ∉ rest ∧ desired.lookup k = some r) := by
  unfold mixed at hr
  split_ifs at hr with hk
  · exact ⟨hrest k hk, .inl ⟨hk, hr⟩⟩
  · exact ⟨mem_keys_iff.mpr ⟨r, hr⟩, .inr ⟨hk, hr⟩⟩

/-- What is not in `rest` has not changed, or comes before it. -/
def Ordered (active desired : Rules) (rest : List String) : Prop :=
  ∀ k ∈ desired.keys, ∀ k' ∈ rest, k ∉ rest → active.lookup k = desired.lookup k ∨ k < k'

theorem mixed_compatible (rest : List String) (hsmooth : Smooth active desired)
    (hkeyed : ∀ k r, desired.lookup k = some r → r.key = k) (hactive : Compatible fun k => active.lookup k)
    (hrest : ∀ key ∈ rest, key ∈ desired.keys) (horder : Ordered active desired rest) :
    Compatible (mixed active desired rest) := by
  obtain ⟨haccepted, hapart, hsteady, -⟩ := hsmooth
  -- a rule that is applied beside one that is not
  have hcross : ∀ {k k' r r'}, k ∈ desired.keys → k' ∈ desired.keys → k ≠ k' → k ∉ rest → desired.lookup k = some r →
      k' ∈ rest → active.lookup k' = some r' → rulesOverlap r r' = false := by
    intro k k' r r' hk hk' hne hnot hd hin ha
    rcases horder k hk k' hin hnot with hsame | hlt
    · exact hactive.apart k k' r r' (hsame.trans hd) ha hne
    · exact hsteady k hk k' hk' hlt r hd r' ha
  refine ⟨fun k r hr => ?_, fun k k' r r' hr hr' hne => ?_⟩
  · obtain ⟨hk, ⟨-, ha⟩ | ⟨-, hd⟩⟩ := of_mixed hrest hr
    · exact hactive.accepted k r ha
    · exact ⟨hkeyed k r hd, haccepted k hk r hd⟩
  obtain ⟨hk, ⟨hin, ha⟩ | ⟨hnot, hd⟩⟩ := of_mixed hrest hr
  · obtain ⟨hk', ⟨-, ha'⟩ | ⟨hnot', hd'⟩⟩ := of_mixed hrest hr'
    · exact hactive.apart k k' r r' ha ha' hne
    · rw [rulesOverlap_comm]
      exact hcross hk' hk (Ne.symm hne) hnot' hd' hin ha
  · obtain ⟨hk', ⟨hin', ha'⟩ | ⟨-, hd'⟩⟩ := of_mixed hrest hr'
    · exact hcross hk hk' hne hnot hd hin' ha'
    · exact hapart k hk k' hk' hne r hd r' hd'

variable {rule : DesiredRule}

theorem update_mixed (hrule : desired.lookup key = some rule) (hnot : key ∉ rest) :
    update (mixed active desired (key :: rest)) key (some rule) = mixed active desired rest := by
  funext k
  unfold mixed
  by_cases heq : k = key
  · subst heq
    rw [update_self, if_neg hnot, hrule]
  · rw [update_of_ne heq]
    simp only [mem_cons, heq, false_or]

theorem mixed_room (hsmooth : Smooth active desired) (hcompatible : Compatible (mixed active desired rest))
    (hrest : ∀ key ∈ rest, key ∈ desired.keys) (hrule : desired.lookup rule.key = some rule) (hend : rule.portEnd ≠ 0) :
    Room (mixed active desired rest) rule := by
  intro key hkey raw hraw
  have hk := mem_keys_iff.mpr ⟨rule, hrule⟩
  have haccepted := hsmooth.1 _ hk _ hrule
  have hvip := (haccepted.mem_keys hkey).2.2
  let names := desired.keys.filter fun k' => (desired.lookup k').any (·.rangeOn key.vip) || (active.lookup k').any
    (·.rangeOn key.vip)
  have hfits : names.length ≤ maxRangesPerVIP := hsmooth.2.2.2 _ hk _ hrule key.vip hvip
  have hself : rule.key ∈ names := by
    refine mem_filter.mpr ⟨hk, ?_⟩
    rw [hrule]
    simp [DesiredRule.rangeOn, hend, hvip]
  refine ⟨names.erase rule.key, ?_, fun k r hne hr hend' ⟨key', hkey', hraw'⟩ => ?_⟩
  · rw [length_erase_of_mem hself]
    have hpos := length_pos_of_mem hself
    omega
  -- a rule with a range in the same row has the address
  have haccepted' := (hcompatible.accepted k r hr).2
  have hsame : key'.vip = key.vip := by
    obtain ⟨a, ha, hwk⟩ := Option.map_eq_some_iff.mp hraw
    obtain ⟨a', ha', hwk'⟩ := Option.map_eq_some_iff.mp hraw'
    have haeq : a' = a := by simpa using (congrArg WireKey.vip (hwk'.trans hwk.symm))
    exact toWireAddr_inj ha' (haeq ▸ ha) (haccepted'.2.2.1 _ (haccepted'.mem_keys hkey').2.2).2.1
      (haccepted.2.2.1 _ hvip).2.1
  have hon : r.rangeOn key.vip := by
    have := (haccepted'.mem_keys hkey').2.2
    rw [hsame] at this
    simp [DesiredRule.rangeOn, hend', this]
  obtain ⟨hmem, hfrom⟩ := of_mixed hrest hr
  refine (mem_erase_of_ne hne).mpr (mem_filter.mpr ⟨hmem, ?_⟩)
  rcases hfrom with ⟨-, ha⟩ | ⟨-, hd⟩
  · rw [ha]
    simp [hon]
  · rw [hd]
    simp [hon]

/-! ### Reconcile -/

theorem removeLoop_ok (hm : Compatible m) (hw : w.Quiet) (keys : List String) :
    Triple (Phase m) (forRules (removeOne w) keys) (fun _ => Phase fun k => if k ∈ keys then none else m k)
      fun _ _ => False := by
  induction keys generalizing m with
  | nil =>
    exact .pure fun _ h => h
  | cons key keys ih =>
    have hm' : Compatible (update m key none) := by
      exact ⟨fun k r hr => hm.accepted k r (of_update_none hr).2,
        fun k k' r r' hr hr' => hm.apart k k' r r' (of_update_none hr).2 (of_update_none hr').2⟩
    have hfun : (fun k => if k ∈ key :: keys then none else m k) =
        fun k => if k ∈ keys then none else update m key none k := by
      funext k
      by_cases heq : k = key <;> simp [heq]
    rw [hfun]
    refine .bind (Q := fun _ => Phase (update m key none)) (.named fun e he => removeOne_ok hm hw he)
      fun _ => .bind (ih hm') fun _ => .pure fun _ h => h

theorem applyLoop_ok (hsmooth : Smooth active desired) (hkeyed : ∀ k r, desired.lookup k = some r → r.key = k)
    (hactive : Compatible fun k => active.lookup k) (hw : w.Quiet) {toRemove : List String}
    (hgone : ∀ removed ∈ toRemove, desired.lookup removed = none) (rest : List String)
    (hrest : ∀ key ∈ rest, key ∈ desired.keys) (hsorted : rest.Pairwise (· < ·))
    (horder : Ordered active desired rest) :
    Triple (Phase (mixed active desired rest)) (forRules (applyOne w desired toRemove) rest) (fun _ => Phase fun k =>
      desired.lookup k) fun _ _ => False := by
  induction rest with
  | nil => exact .pure fun _ h => h
  | cons key rest ih =>
    obtain ⟨hfirst, hsorted'⟩ := pairwise_cons.mp hsorted
    obtain ⟨hkey, hrest'⟩ := forall_mem_cons.mp hrest
    obtain ⟨rule, hrule⟩ := mem_keys_iff.mp hkey
    obtain rfl := hkeyed key rule hrule
    have hnot : rule.key ∉ rest := fun hmem => lt_irrefl _ (hfirst _ hmem)
    have horder' : Ordered active desired rest := by
      intro k hk k' hk' hnot
      by_cases heq : k = rule.key
      · exact .inr (heq ▸ hfirst k' hk')
      · exact horder k hk k' (mem_cons_of_mem _ hk') (by simp [heq, hnot])
    have hremoved : ∀ removed ∈ toRemove, mixed active desired (rule.key :: rest) removed = none := by
      intro removed hremoved
      refine Option.eq_none_iff_forall_ne_some.mpr fun r hr => ?_
      obtain ⟨_, hd⟩ := mem_keys_iff.mp (of_mixed hrest hr).1
      cases (hgone removed hremoved).symm.trans hd
    have hcompatible := mixed_compatible _ hsmooth hkeyed hactive hrest horder
    have hnext := mixed_compatible _ hsmooth hkeyed hactive hrest' horder'
    rw [← update_mixed hrule hnot] at hnext
    refine .bind (Q := fun _ => Phase (mixed active desired rest)) (.named fun e he => ?_) fun _ =>
      .bind (ih hrest' hsorted' horder') fun _ => .pure fun _ h => h
    rw [← update_mixed hrule hnot]
    exact applyOne_ok hw hrule hremoved hcompatible hnext
      (fun hend => mixed_room hsmooth hcompatible hrest hrule hend) he

theorem Phase.inventory (he : Phase m e) (k : String) : e.inventory.lookup k = m k := by
  unfold Engine.inventory
  rw [lookup_union_right, he.active]
  intro hmem
  obtain ⟨_, hp⟩ := mem_keys_iff.mp hmem
  cases (he.pending k).symm.trans hp

variable {keys : List String}

theorem mem_sortKeys : key ∈ sortKeys keys ↔ key ∈ keys := (perm_insertionSort _ keys).mem_iff

theorem sorted_sortKeys (h : keys.Nodup) : (sortKeys keys).Pairwise (· < ·) := by
  have hle : (sortKeys keys).Pairwise (· ≤ ·) := pairwise_insertionSort (fun a b : String => a ≤ b) keys
  have hnodup : (sortKeys keys).Nodup := (perm_insertionSort _ keys).nodup_iff.mpr h
  exact (hle.and hnodup).imp fun h => lt_of_le_of_ne h.1 h.2

/-! The two lists of a call. -/

theorem Phase.mem_keysToRemove (he : Phase (fun k => active.lookup k) e) :
    key ∈ keysToRemove e desired ↔ active.lookup key ≠ none ∧ desired.lookup key = none := by
  unfold keysToRemove diffRuleKeys
  rw [mem_sortKeys, mem_filter, ← AList.mem_keys, ← AList.lookup_isSome, he.inventory, decide_eq_true_eq,
    Option.isSome_iff_ne_none]

theorem Phase.keysToApply_eq (he : Phase m e) :
    keysToApply e desired =
      sortKeys (sortKeys (desired.keys.filter fun key => ¬unchanged e.inventory desired key)) := by
  unfold keysToApply
  simp only [he.dirty, filter_nil, append_nil]
  rfl

theorem Phase.mem_keysToApply (he : Phase (fun k => active.lookup k) e) :
    key ∈ keysToApply e desired ↔ key ∈ desired.keys ∧ active.lookup key ≠ desired.lookup key := by
  rw [he.keysToApply_eq, mem_sortKeys, mem_sortKeys, mem_filter, decide_eq_true_eq]
  refine and_congr_right fun hk => not_congr ?_
  obtain ⟨r, hr⟩ := mem_keys_iff.mp hk
  unfold unchanged rulesEqual
  rw [he.inventory, hr]
  rcases active.lookup key with _ | r'
  · simp
  · simp

theorem Phase.sorted_keysToApply (he : Phase m e) : (keysToApply e desired).Pairwise (· < ·) := by
  rw [he.keysToApply_eq]
  have hnodup := sorted_sortKeys (desired.keys_nodup.filter fun key => ¬unchanged e.inventory desired key)
  exact sorted_sortKeys (hnodup.imp fun h => ne_of_lt h)

theorem Phase.removed_eq_mixed (he : Phase (fun k => active.lookup k) e) :
    (fun k => if k ∈ keysToRemove e desired then none else active.lookup k) =
      mixed active desired (keysToApply e desired) := by
  funext k
  unfold mixed
  by_cases hnone : desired.lookup k = none
  · have hnot : k ∉ keysToApply e desired := by
      intro hmem
      obtain ⟨_, hd⟩ := mem_keys_iff.mp (he.mem_keysToApply.mp hmem).1
      cases hnone.symm.trans hd
    rw [if_neg hnot, hnone]
    by_cases ha : active.lookup k = none
    · rw [ha, ite_self]
    · rw [if_pos (he.mem_keysToRemove.mpr ⟨ha, hnone⟩)]
  · rw [if_neg fun h => hnone (he.mem_keysToRemove.mp h).2]
    split_ifs with hk
    · rfl
    by_contra hne
    exact hk (he.mem_keysToApply.mpr ⟨mem_keys_iff.mpr (Option.ne_none_iff_exists'.mp hnone), hne⟩)

variable {desired : EngineState}

/-- **One call.** -/
theorem Engine.reconcile_ok (hsmooth : Smooth active desired.rules)
    (hactive : Compatible fun k => active.lookup k) (hw : w.Quiet) (he : Phase (fun k => active.lookup k) e) :
    Phase (fun k => desired.rules.lookup k) (e.reconcile w desired) ∧ Compatible fun k => desired.rules.lookup k := by
  refine ⟨?_, mixed_compatible [] hsmooth desired.keyed hactive (fun _ h => nomatch h) fun _ _ _ h => nomatch h⟩
  have horder : Ordered active desired.rules (keysToApply e desired.rules) := by
    intro k hk k' _ hnot
    by_contra hne
    exact hnot (he.mem_keysToApply.mpr ⟨hk, fun hsame => hne (.inl hsame)⟩)
  have hremoves := removeLoop_ok hactive hw (keysToRemove e desired.rules)
  rw [he.removed_eq_mixed] at hremoves
  have happlies := applyLoop_ok hsmooth desired.keyed hactive hw (fun k hk => (he.mem_keysToRemove.mp hk).2)
    (keysToApply e desired.rules) (fun k hk => (he.mem_keysToApply.mp hk).1) he.sorted_keysToApply horder
  have hcall : From e (reconcileM w desired) (fun _ => Phase fun k => desired.rules.lookup k)
      fun _ _ => False :=
    .get_from (.bind (.given hremoves (fun _ h => h ▸ he)) fun _ =>
      .bind happlies fun _ => .get_bind fun e' he' => .pure fun _ h => h ▸ he')
  exact Triple.state (.onError hcall fun _ _ hfalse => hfalse.elim) rfl

/-! ### Runs -/

theorem Engine.run_ok (calls : List (EngineWorld × EngineState)) (hrun : SmoothRun active (calls ++ [(w, desired)]))
    (hactive : Compatible fun k => active.lookup k) (he : Phase (fun k => active.lookup k) e) :
    Phase (fun k => desired.rules.lookup k) (e.run (calls ++ [(w, desired)])) ∧
      Compatible fun k => desired.rules.lookup k := by
  induction calls generalizing active e with
  | nil =>
    obtain ⟨hw, hsmooth, -⟩ := hrun
    exact reconcile_ok hsmooth hactive hw he
  | cons call calls ih =>
    obtain ⟨hw, hsmooth, hrest⟩ := hrun
    obtain ⟨hphase, hcompatible⟩ := reconcile_ok hsmooth hactive hw he
    exact ih hrest hcompatible hphase

theorem phase_empty : Phase (fun k => (∅ : Rules).lookup k) empty :=
  ⟨fun _ => rfl, fun _ => rfl, rfl, ⟨⟨nofun, nofun, nofun, fun _ => nodup_nil, nofun⟩, fun _ => rfl,
    fun _ => rfl⟩⟩

theorem Engine.run_programmed {calls : List (EngineWorld × EngineState)}
    (hrun : SmoothRun ∅ (calls ++ [(w, desired)])) :
    Phase (fun k => desired.rules.lookup k) (Engine.empty.run (calls ++ [(w, desired)])) ∧
      Programmed desired.rules (Engine.empty.run (calls ++ [(w, desired)])).datapath := by
  have hempty : Compatible fun k => (∅ : Rules).lookup k := ⟨nofun, nofun⟩
  obtain ⟨hphase, hcompatible⟩ := run_ok calls hrun hempty phase_empty
  exact ⟨hphase, hphase.represents.programmed hcompatible⟩

/-- **Convergence.** After every call of a run from empty maps in which nothing fails and each desired state can be
reached from the one before, the maps are those of the desired rules. -/
theorem maps_converge (calls : List (EngineWorld × EngineState)) (w : EngineWorld) (desired : EngineState)
    (hrun : SmoothRun ∅ (calls ++ [(w, desired)])) :
    Programmed desired.rules (Engine.empty.run (calls ++ [(w, desired)])).datapath :=
  (run_programmed hrun).2

/-- **No memory.** Two runs that end with the same rules leave the same rows in the maps, but for their generations, and
the same ranges of ports. -/
theorem maps_forget (calls calls' : List (EngineWorld × EngineState)) (w w' : EngineWorld)
    (desired desired' : EngineState) (hrun : SmoothRun ∅ (calls ++ [(w, desired)]))
    (hrun' : SmoothRun ∅ (calls' ++ [(w', desired')]))
    (hsame : ∀ k, desired'.rules.lookup k = desired.rules.lookup k) :
    let d := (Engine.empty.run (calls ++ [(w, desired)])).datapath
    let d' := (Engine.empty.run (calls' ++ [(w', desired')])).datapath
    (∀ t wk v, (d.rows t).lookup wk = some v → ∃ generation, (d'.rows t).lookup wk = some { v with generation }) ∧
      ∀ raw, ∀ rg ∈ d.rangesAt raw, ∃ generation, { rg with generation } ∈ d'.rangesAt raw := by
  obtain ⟨hphase, h⟩ := run_programmed hrun
  obtain ⟨-, h'⟩ := run_programmed hrun'
  refine ⟨fun t wk v hv => ?_, fun raw rg hrg => ?_⟩
  · obtain ⟨k, r, hr, rfl, key, hkey, hwk, fam, hfam, hback, htable, haff⟩ := h.rows t wk v hv
    obtain ⟨wk', v', hwk', hv', ⟨fam', hfam', hback', htable', haff'⟩, -⟩ :=
      h'.present k r ((hsame k).trans hr) key hkey
    refine ⟨v'.generation, ?_⟩
    rw [hwk] at hwk'
    rw [hfam] at hfam'
    cases hwk'
    cases hfam'
    rw [hv', Except.ok.inj (hback.symm.trans hback'), htable, ← htable', Except.ok.inj (haff.symm.trans haff')]
  · rcases hphase.represents.view.ranges raw rg hrg with ⟨k, r, hr, hend, hfirst, hlast, key, hkey, hraw⟩ | hno
    · obtain ⟨-, v', -, -, -, hrange⟩ := h'.present k r ((hsame k).trans hr) key hkey
      obtain ⟨raw', hraw', hmem⟩ := hrange hend
      rw [hraw] at hraw'
      cases hraw'
      exact ⟨v'.generation, by rwa [hfirst, hlast]⟩
    · exact hno.elim

/-! ### An address that moves -/

def bothRules : EngineState := .ofRules [webRule "a" [address 1], webRule "b" [address 2]]

/-- The rule `b` goes and its address becomes one of `a`. -/
def takenOver : EngineState := .ofRules [webRule "a" [address 2]]

def swapped : EngineState := .ofRules [webRule "a" [address 2], webRule "b" [address 1]]

def quietWorld : EngineWorld := {}

theorem quiet_quietWorld : quietWorld.Quiet := ⟨fun _ _ _ => rfl, fun _ _ _ => rfl, fun _ => rfl, fun _ => rfl⟩

theorem maps_converge_takenOver : SmoothRun ∅ ([(quietWorld, bothRules)] ++ [(quietWorld, takenOver)]) ∧
    Programmed takenOver.rules
      (Engine.empty.run ([(quietWorld, bothRules)] ++ [(quietWorld, takenOver)])).datapath := by
  have hrun : SmoothRun ∅ ([(quietWorld, bothRules)] ++ [(quietWorld, takenOver)]) :=
    ⟨quiet_quietWorld, by decide +kernel, quiet_quietWorld, by decide +kernel, trivial⟩
  exact ⟨hrun, maps_converge [(quietWorld, bothRules)] quietWorld takenOver hrun⟩

theorem maps_forget_takenOver :
    let d := (Engine.empty.run ([(quietWorld, bothRules)] ++ [(quietWorld, takenOver)])).datapath
    let d' := (Engine.empty.run ([] ++ [(quietWorld, takenOver)])).datapath
    ∀ t wk v, (d.rows t).lookup wk = some v → ∃ generation, (d'.rows t).lookup wk = some { v with generation } :=
  (maps_forget [_] [] _ _ _ _ ⟨quiet_quietWorld, by decide +kernel, quiet_quietWorld, by decide +kernel, trivial⟩
    ⟨quiet_quietWorld, by decide +kernel, trivial⟩ fun _ => rfl).1

/-- The rules of each call do not overlap and nothing fails, but one row is missing in the end. -/
theorem maps_diverge_swapped : Apart bothRules.rules ∧ Apart swapped.rules ∧
    swapped.rules.lookup "a" = some (webRule "a" [address 2]) ∧ ((Engine.empty.run [(quietWorld, bothRules),
      (quietWorld, swapped)]).datapath.rows .scalar).lookup ⟨6, beU16 80, (address 2).as16⟩ = none ∧
    ¬Programmed swapped.rules (Engine.empty.run [(quietWorld, bothRules), (quietWorld, swapped)]).datapath := by
  have hrule : swapped.rules.lookup "a" = some (webRule "a" [address 2]) := by decide +kernel
  have hnone : ((Engine.empty.run [(quietWorld, bothRules), (quietWorld, swapped)]).datapath.rows .scalar).lookup
      ⟨6, beU16 80, (address 2).as16⟩ = none := by decide +kernel
  refine ⟨by decide +kernel, by decide +kernel, hrule, hnone, fun h => ?_⟩
  obtain ⟨wk, v, hwk, hv, -⟩ := h.present "a" _ hrule ⟨6, 80, address 2⟩ (by decide +kernel)
  have hkey : toWireKey ⟨6, 80, address 2⟩ = some ⟨6, beU16 80, (address 2).as16⟩ := by decide +kernel
  cases hwk
  have hwhich : (webRule "a" [address 2]).which = .scalar := rfl
  rw [hwhich, hnone] at hv
  cases hv

end Galactic.Gateway
