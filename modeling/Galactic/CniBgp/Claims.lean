import Galactic.CniBgp.Argument

/-!
# Arguments are claimed once

While only claims write instances, the instances of the router always have distinct Arguments in range, and an instance
keeps its Argument. -/

namespace Galactic.CniBgp

open Client Threads List Nat

/-! ### What a call saw and did -/

def Moved (router : String) (before after : Instance) : Prop :=
  before.under router = true ∧ after.spec.vrfID ≠ before.spec.vrfID

def Cleared (m : RowMap) (argument : Nat) (own : Row) (later : List Entry) : Prop :=
  ∃ row, row ≠ some own ∧ .row m argument row ∈ later

def Released (vrfInterface : String) (argument : Nat) (later : List Entry) : Prop :=
  ∃ t, .table t ∈ later ∧ Cleared .vrf argument (.routes t) later ∧ Cleared .attribution argument
    (.names vrfInterface) later

/-- The call created the instance, or an earlier attempt created one and the call saw no other link in the VRF. -/
def Movable (earlier : Bool) (tr : List Entry) : Prop := (∃ i, .created i ∈ tr) ∨ earlier = true ∧ .alone ∈ tr

/-- Every move was of an instance that could be moved. -/
def Allowed (router : String) (earlier : Bool) (tr : List Entry) : Prop :=
  ∀ b a rest, .updated b a :: rest <:+ tr → Moved router b a → Movable earlier rest

/-- Every Argument a move left was released afterwards, or is the one given. -/
def FreedBut (v : Option Int) (site : Site) (vrfInterface : String) (tr : List Entry) : Prop :=
  ∀ blk, site.node = .block blk → ∀ later b a rest, tr = later ++ .updated b a :: rest → Moved site.routerName b a →
    some b.spec.vrfID = v ∨ Released vrfInterface (uint16 b.spec.vrfID) later

/-- The last thing the call saw were instances with the property. -/
def LastSaw (tr : List Entry) (seen : List Instance → Prop) : Prop := ∃ items rest, tr = .listed items :: rest ∧
  seen items

def AllHeld (router : String) (items : List Instance) : Prop :=
  ∀ v, argumentMin ≤ v → v ≤ argumentMax → ∃ i ∈ items, i.under router = true ∧ i.spec.vrfID = v

def NoOther (router name : String) (v : Int) (items : List Instance) : Prop :=
  ∀ i ∈ items, i.under router = true → i.name ≠ name → i.spec.vrfID ≠ v

variable {P : Type}

/-- A call that succeeds last saw its Argument held by no other instance; one that fails as exhausted last saw every
Argument held. -/
structure Honest (router : String) (f : Finished P) : Prop where
  unique : ∀ v, f.claimed.out = .ok v → LastSaw f.trace (NoOther router f.add.vrfName v)
  exhausted : f.claimed.out = .error .exhausted → LastSaw f.trace (AllHeld router)

/-- A call moves what it may move, and has released what it left when it succeeds. -/
structure Careful (site : Site) (f : Finished P) : Prop where
  moves : Allowed site.routerName f.earlier f.trace
  releases : ∀ v, f.claimed.out = .ok v → FreedBut none site f.add.vrfInterface f.trace

/-! ### Instances -/

def Named (items : List Instance) : Prop := ∀ i ∈ items, ∀ j ∈ items, i.name = j.name → i = j

structure Distinct (router : String) (items : List Instance) : Prop where
  distinct : ∀ i ∈ items, i.under router = true → NoOther router i.name i.spec.vrfID items
  range : ∀ i ∈ items, i.under router = true → argumentMin ≤ i.spec.vrfID ∧ i.spec.vrfID ≤ argumentMax

structure Lasting (router : String) (items : List Instance) (nextUID : Nat) (past : List (Nat × Int)) : Prop where
  uid_lt : ∀ i ∈ items, i.uid < nextUID
  uid_inj : ∀ i ∈ items, ∀ j ∈ items, i.uid = j.uid → i = j
  past_lt : ∀ u v, (u, v) ∈ past → u < nextUID
  recorded : ∀ i ∈ items, i.under router = true → (i.uid, i.spec.vrfID) ∈ past
  kept : ∀ i ∈ items, ∀ v, (i.uid, v) ∈ past → i.under router = true ∧ i.spec.vrfID = v
  once : ∀ u v v', (u, v) ∈ past → (u, v') ∈ past → v = v'

structure Inv (site : Site) (s : State P) : Prop where
  named : Named s.instances
  distinct : s.foreign = [] → Distinct site.routerName s.instances
  lasting : s.foreign = [] → Lasting site.routerName s.instances s.nextUID s.past
  honest : ∀ f ∈ s.done, Honest site.routerName f
  careful : ∀ f ∈ s.done, f.add.vrfName ∉ s.foreign → Careful site f

/-- What the surroundings may do to the instances: write those that are then foreign, and take away others. -/
structure Drift (s s' : State P) : Prop where
  foreign : s.foreign ⊆ s'.foreign
  own : ∀ name, name ∉ s'.foreign → s'.find name = s.find name ∨ s'.find name = none
  shrink : s'.foreign = [] → s'.instances ⊆ s.instances

/-- What a thread relies on: what its ADD created stays known, and in the lock only the surroundings move. -/
structure Rely (p : P) (s s' : State P) : Prop where
  made : s'.made p = s.made p
  foreign : s.foreign ⊆ s'.foreign
  drift : s.lock = some p → Drift s s'
  lock : s.lock = some p → s'.lock = s.lock
  trace : s.lock = some p → s'.trace = s.trace
  earlier : s.lock = some p → s'.earlier = s.earlier

def pact (site : Site) : Pact P (State P) where
  inv := Inv site
  assumes := fun _ => True
  rely := Rely

variable {s s' s'' : State P} {p : P} {site : Site} {items : List Instance} {i j : Instance} {name router : String}

theorem Drift.refl (s : State P) : Drift s s := ⟨fun _ h => h, fun _ _ => .inl rfl, fun _ _ h => h⟩

theorem Drift.foreign_nil (h : Drift s s') (hnil : s'.foreign = []) : s.foreign = [] :=
  eq_nil_of_subset_nil (hnil ▸ h.foreign)

theorem Drift.find_before (h : Drift s s') {name : String} (hname : name ∉ s'.foreign) {i : Instance}
    (hi : s'.find name = some i) : name ∉ s.foreign ∧ s.find name = some i := by
  refine ⟨fun hn => hname (h.foreign hn), ?_⟩
  rcases h.own name hname with heq | hnone
  · exact heq.symm.trans hi
  · cases hnone.symm.trans hi

theorem Drift.trans (h : Drift s s') (h' : Drift s' s'') : Drift s s'' where
  foreign := fun _ hn => h'.foreign (h.foreign hn)
  own := by
    intro name hname
    have hname' : name ∉ s'.foreign := fun hn => hname (h'.foreign hn)
    rcases h'.own name hname with heq | hnone
    · rcases h.own name hname' with heq' | hnone'
      · exact .inl (heq.trans heq')
      · exact .inr (heq.trans hnone')
    · exact .inr hnone
  shrink := by
    intro hnil i hi
    have hnil' := h'.foreign_nil hnil
    exact h.shrink hnil' (h'.shrink hnil hi)

theorem Rely.refl (p : P) (s : State P) : Rely p s s :=
  ⟨rfl, fun _ h => h, fun _ => .refl s, fun _ => rfl, fun _ => rfl, fun _ => rfl⟩

theorem Rely.trans (h : Rely p s s') (h' : Rely p s' s'') : Rely p s s'' where
  made := h'.made.trans h.made
  foreign := fun _ hn => h'.foreign (h.foreign hn)
  drift := fun hl => (h.drift hl).trans (h'.drift ((h.lock hl).trans hl))
  lock := fun hl => (h'.lock ((h.lock hl).trans hl)).trans (h.lock hl)
  trace := fun hl => (h'.trace ((h.lock hl).trans hl)).trans (h.trace hl)
  earlier := fun hl => (h'.earlier ((h.lock hl).trans hl)).trans (h.earlier hl)

/-! ### Finding and writing instances -/

theorem mem_of_find (h : s.find name = some i) : i ∈ s.instances ∧ i.name = name :=
  ⟨mem_of_find?_eq_some h, by simpa using find?_some h⟩

theorem mem_put : j ∈ put i items ↔ j = i ∨ j ∈ items ∧ j.name ≠ i.name := by
  rw [put, mem_cons, mem_filter, decide_eq_true_iff]

theorem Named.put (h : Named items) (i : Instance) : Named (put i items) := by
  intro j hj k hk hjk
  rcases mem_put.mp hj with rfl | ⟨hj', hji⟩ <;> rcases mem_put.mp hk with rfl | ⟨hk', hki⟩
  · rfl
  · exact absurd hjk.symm hki
  · exact absurd hjk hji
  · exact h j hj' k hk' hjk

section
variable {items' : List Instance} {past : List (Nat × Int)}

theorem Named.subset (h : Named items) (hsub : items' ⊆ items) : Named items' :=
  fun i hi j hj hij => h i (hsub hi) j (hsub hj) hij

theorem Distinct.subset (h : Distinct router items) (hsub : items' ⊆ items) : Distinct router items' where
  distinct := fun i hi hu j hj => h.distinct i (hsub hi) hu j (hsub hj)
  range := fun i hi => h.range i (hsub hi)

theorem Distinct.put (h : Distinct router items)
    (hrange : i.under router → argumentMin ≤ i.spec.vrfID ∧ i.spec.vrfID ≤ argumentMax)
    (hfree : i.under router → NoOther router i.name i.spec.vrfID items) : Distinct router (put i items) where
  distinct := by
    intro j hj hju k hk hku hne
    rcases mem_put.mp hj with rfl | ⟨hj', hji⟩ <;> rcases mem_put.mp hk with rfl | ⟨hk', hki⟩
    · exact absurd rfl hne
    · exact hfree hju k hk' hku hki
    · exact fun heq => hfree hku j hj' hju hji heq.symm
    · exact h.distinct j hj' hju k hk' hku hne
  range := by
    intro j hj hju
    rcases mem_put.mp hj with rfl | ⟨hj, -⟩
    · exact hrange hju
    · exact h.range j hj hju

theorem Lasting.subset {nextUID : Nat} (h : Lasting router items nextUID past) (hsub : items' ⊆ items) :
    Lasting router items' nextUID past where
  uid_lt := fun i hi => h.uid_lt i (hsub hi)
  uid_inj := fun i hi j hj => h.uid_inj i (hsub hi) j (hsub hj)
  past_lt := h.past_lt
  recorded := fun i hi => h.recorded i (hsub hi)
  kept := fun i hi => h.kept i (hsub hi)
  once := h.once

theorem mem_remember {u : Nat} {v : Int} :
    (u, v) ∈ remember router i past ↔ (i.under router ∧ u = i.uid ∧ v = i.spec.vrfID) ∨ (u, v) ∈ past := by
  unfold remember
  split_ifs with h
  · rw [mem_cons, Prod.mk.injEq]
    exact or_congr ⟨fun hp => ⟨h, hp⟩, fun hp => hp.2⟩ Iff.rfl
  · exact ⟨.inr, fun hp => hp.resolve_left fun hu => h hu.1⟩

theorem Lasting.put {nextUID nextUID' : Nat} (h : Lasting router items nextUID past)
    (hnext : nextUID ≤ nextUID') (hlt : i.uid < nextUID') (huid : ∀ j ∈ items, j.name ≠ i.name → j.uid ≠ i.uid)
    (hpast : ∀ v, (i.uid, v) ∈ past → i.under router ∧ i.spec.vrfID = v) :
    Lasting router (put i items) nextUID' (remember router i past) where
  uid_lt := by
    intro j hj
    rcases mem_put.mp hj with rfl | ⟨hj, -⟩
    · exact hlt
    · exact lt_of_lt_of_le (h.uid_lt j hj) hnext
  uid_inj := by
    intro j hj k hk hjk
    rcases mem_put.mp hj with rfl | ⟨hj', hji⟩ <;> rcases mem_put.mp hk with rfl | ⟨hk', hki⟩
    · rfl
    · exact absurd hjk.symm (huid k hk' hki)
    · exact absurd hjk (huid j hj' hji)
    · exact h.uid_inj j hj' k hk' hjk
  past_lt := by
    intro u v huv
    rcases mem_remember.mp huv with ⟨-, rfl, -⟩ | hold
    · exact hlt
    · exact lt_of_lt_of_le (h.past_lt u v hold) hnext
  recorded := by
    intro j hj hju
    rcases mem_put.mp hj with rfl | ⟨hj, -⟩
    · exact mem_remember.mpr (.inl ⟨hju, rfl, rfl⟩)
    · exact mem_remember.mpr (.inr (h.recorded j hj hju))
  kept := by
    intro j hj v hv
    rcases mem_put.mp hj with rfl | ⟨hj, hji⟩ <;> rcases mem_remember.mp hv with ⟨hu, heq, rfl⟩ | hold
    · exact ⟨hu, rfl⟩
    · exact hpast v hold
    · exact absurd heq (huid j hj hji)
    · exact h.kept j hj v hold
  once := by
    intro u v v' hv hv'
    rcases mem_remember.mp hv with ⟨-, rfl, rfl⟩ | hold <;> rcases mem_remember.mp hv' with ⟨-, heq, rfl⟩ | hold'
    · rfl
    · exact (hpast v' hold').2
    · exact (hpast v (heq ▸ hold)).2.symm
    · exact h.once u v v' hold hold'

end

/-! ### Choosing an Argument -/

variable {v : Int} {self : String}

theorem mem_arguments : v ∈ arguments ↔ argumentMin ≤ v ∧ v ≤ argumentMax := by
  simp only [arguments, mem_map, mem_range, argumentMin, argumentMax]
  constructor
  · rintro ⟨k, hk, rfl⟩
    omega
  · intro h
    exact ⟨(v - 1).toNat, by omega, by omega⟩

theorem notMem_used : v ∉ used items router self ↔ NoOther router self v items := by
  simp only [used, mem_map, mem_filter, Bool.and_eq_true, decide_eq_true_eq, NoOther, not_exists, not_and]
  constructor
  · exact fun h i hi hu hn => h i ⟨hi, hu, hn⟩
  · exact fun h i hi => h i hi.1 hi.2.1 hi.2.2

theorem of_lowestFreeArgument (h : lowestFreeArgument items router self = some v) :
    (argumentMin ≤ v ∧ v ≤ argumentMax) ∧ NoOther router self v items := by
  unfold lowestFreeArgument at h
  refine ⟨mem_arguments.mp (mem_of_find?_eq_some h), notMem_used.mp ?_⟩
  have := find?_some h
  simpa using this

theorem allHeld_of_lowestFreeArgument (h : lowestFreeArgument items router self = none) : AllHeld router items := by
  unfold lowestFreeArgument at h
  intro v hmin hmax
  have hused : v ∈ used items router self := by
    have := find?_eq_none.mp h v (mem_arguments.mpr ⟨hmin, hmax⟩)
    simpa using this
  simp only [used, mem_map, mem_filter, Bool.and_eq_true] at hused
  obtain ⟨i, ⟨hi, hu, -⟩, hv⟩ := hused
  exact ⟨i, hi, hu, hv⟩

theorem of_chosen (hitems : Distinct router items) (h : chosen items router self = some v) :
    (argumentMin ≤ v ∧ v ≤ argumentMax) ∧ NoOther router self v items := by
  unfold chosen at h
  rcases hfind : items.find? fun i => i.under router && i.name = self with _ | i <;> rw [hfind] at h
  · exact of_lowestFreeArgument h
  · cases h
    have hi := mem_of_find?_eq_some hfind
    have hself : i.under router ∧ i.name = self := by simpa using find?_some hfind
    obtain ⟨hu, rfl⟩ := hself
    exact ⟨hitems.range i hi hu, hitems.distinct i hi hu⟩

theorem chosen_own (hfind : items.find? (fun i => i.name = self) = some i) (hu : i.under router)
    (h : chosen items router self = some v) : i.spec.vrfID = v := by
  have hboth : items.find? (fun i => i.under router && i.name = self) = some i := by
    obtain ⟨hself, before, after, rfl, hbefore⟩ := find?_eq_some_iff_append.mp hfind
    refine find?_eq_some_iff_append.mpr ⟨?_, before, after, rfl, ?_⟩
    · rw [hu]
      exact hself
    intro j hj
    have := hbefore j hj
    simp only [Bool.not_eq_true', decide_eq_false_iff_not] at this
    simp [this]
  rw [chosen, hboth] at h
  exact Option.some.inj h

theorem allHeld_of_chosen (h : chosen items router self = none) : AllHeld router items := by
  unfold chosen at h
  rcases hfind : items.find? fun i => i.under router && i.name = self with _ | i <;> rw [hfind] at h
  · exact allHeld_of_lowestFreeArgument h
  · cases h

theorem noOther_iff_holderOf : holderOf items router self v = none ↔ NoOther router self v items := by
  rw [holderOf, Option.map_eq_none_iff, find?_eq_none]
  simp only [Bool.and_eq_true, decide_eq_true_eq, not_and, NoOther, ne_eq]
  exact ⟨fun h i hi hu hn => h i hi ⟨hu, hn⟩, fun h i hi hp => h i hi hp.1 hp.2⟩

/-! ### In the lock -/

/-- The thread has the lock, and has seen and done what is given. -/
structure At (site : Site) (p : P) (e : Bool) (tr : List Entry) (s : State P) : Prop where
  lock : s.lock = some p
  trace : s.trace = tr
  earlier : s.earlier = e
  still : e = true → s.made p = true
  marked : (∃ i, .created i ∈ tr) → s.made p = true
  inv : Inv site s

/-- Since the instances were listed, only the surroundings moved them. -/
structure Seen (site : Site) (a : Add) (items : List Instance) (s : State P) : Prop where
  own : a.vrfName ∉ s.foreign → ∀ i, s.find a.vrfName = some i → items.find? (fun i => i.name = a.vrfName) = some i
  shrink : s.foreign = [] → s.instances ⊆ items
  distinct : s.foreign = [] → Distinct site.routerName items

/-- The instance, if still there, is as the call wrote it, and while only claims write no other has its Argument. -/
structure Owns (site : Site) (a : Add) (v : Int) (s : State P) : Prop where
  own : a.vrfName ∉ s.foreign → ∀ i, s.find a.vrfName = some i → i.spec = build site a v
  others : s.foreign = [] → NoOther site.routerName a.vrfName v s.instances

variable {a : Add} {e : Bool} {tr : List Entry}

theorem At.next (h : At site p e tr s) (hrely : Rely p s s') (hinv : Inv site s') : At site p e tr s' where
  lock := (hrely.lock h.lock).trans h.lock
  trace := (hrely.trace h.lock).trans h.trace
  earlier := (hrely.earlier h.lock).trans h.earlier
  still := fun he => hrely.made.trans (h.still he)
  marked := fun hc => hrely.made.trans (h.marked hc)
  inv := hinv

theorem Seen.next (h : Seen site a items s) (hd : Drift s s') : Seen site a items s' where
  own := by
    intro hname i hi
    obtain ⟨hbefore, hfind⟩ := hd.find_before hname hi
    exact h.own hbefore i hfind
  shrink := fun hnil => fun _ hi => h.shrink (hd.foreign_nil hnil) (hd.shrink hnil hi)
  distinct := fun hnil => h.distinct (hd.foreign_nil hnil)

theorem Owns.next (h : Owns site a v s) (hd : Drift s s') : Owns site a v s' where
  own := by
    intro hname i hi
    obtain ⟨hbefore, hfind⟩ := hd.find_before hname hi
    exact h.own hbefore i hfind
  others := fun hnil i hi => h.others (hd.foreign_nil hnil) i (hd.shrink hnil hi)

theorem Inv.seen (h : Inv site s) (a : Add) : Seen site a s.instances s where
  own := fun _ _ hi => hi
  shrink := fun _ _ hi => hi
  distinct := h.distinct

theorem keeps (h : s.lock = some p) (hinv : Inv site s') (hmade : ∀ p', p' ≠ p → s'.made p' = s.made p')
    (hforeign : s'.foreign = s.foreign) : (pact site).Keeps p s s' where
  inv := hinv
  others := by
    intro p' hne
    have hnot : s.lock ≠ some p' := fun hl => hne (Option.mem_unique hl h)
    exact ⟨hmade p' hne, fun _ hn => hforeign ▸ hn, fun hl => absurd hl hnot, fun hl => absurd hl hnot,
      fun hl => absurd hl hnot, fun hl => absurd hl hnot⟩

/-! ### Writes -/

/-- The argument `v` may be written for the VRF. -/
abbrev Fits (site : Site) (a : Add) (v : Int) (s : State P) : Prop :=
  s.foreign = [] → (argumentMin ≤ v ∧ v ≤ argumentMax) ∧ NoOther site.routerName a.vrfName v s.instances

theorem Inv.create [DecidableEq P] (h : Inv site s) (p : P) (hfits : Fits site a v s) :
    Inv site (s.create site.routerName p a.vrfName (build site a v)) where
  named := h.named.put _
  distinct := fun hnil => (h.distinct hnil).put (fun _ => (hfits hnil).1) fun _ => (hfits hnil).2
  lasting := by
    intro hnil
    have hlast := h.lasting hnil
    refine hlast.put (le_succ _) (lt_succ_self _) ?_ ?_
    · intro j hj _ heq
      exact absurd (hlast.uid_lt j hj) (heq ▸ lt_irrefl _)
    · intro v' hv'
      exact absurd (hlast.past_lt _ v' hv') (lt_irrefl _)
  honest := h.honest
  careful := h.careful

theorem Inv.update (h : Inv site s) (hfind : s.find a.vrfName = some i) (hfits : Fits site a v s)
    (hsame : s.foreign = [] → i.under site.routerName → i.spec.vrfID = v) :
    Inv site (s.update site.routerName i (build site a v)) where
  named := h.named.put _
  distinct := by
    intro hnil
    obtain ⟨hi, hname⟩ := mem_of_find hfind
    refine (h.distinct hnil).put (fun _ => (hfits hnil).1) fun _ => ?_
    rw [show ({ i with spec := build site a v } : Instance).name = a.vrfName from hname]
    exact (hfits hnil).2
  lasting := by
    intro hnil
    have hlast := h.lasting hnil
    obtain ⟨hi, hname⟩ := mem_of_find hfind
    refine hlast.put (le_refl _) (hlast.uid_lt i hi) ?_ ?_
    · intro j hj hne heq
      obtain rfl := hlast.uid_inj j hj i hi heq
      exact hne rfl
    · intro v' hv'
      obtain ⟨hu, hv⟩ := hlast.kept i hi v' hv'
      exact ⟨decide_eq_true rfl, (hsame hnil hu).symm.trans hv⟩
  honest := h.honest
  careful := h.careful

end Galactic.CniBgp
