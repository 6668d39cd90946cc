import Galactic.CniBgp.Requests

/-!
# Every claim

The claim, the attempts of an ADD, and all runs. -/

namespace Galactic.CniBgp

open Client Threads List Function Pact Option Prod

variable {P : Type} {s s' : State P} {p : P} {site : Site} {items : List Instance} {i j : Instance} {a : Add} {e : Bool}
  {tr : List Entry} {v : Int}

/-! ### The surroundings -/

variable {name n : String}

theorem find_filter :
    (items.filter fun i => i.name ≠ n).find? (fun i => i.name = name) = items.find? (fun i => i.name = name) ∨
      (items.filter fun i => i.name ≠ n).find? (fun i => i.name = name) = none := by
  by_cases hn : name = n
  · refine .inr (find?_eq_none.mpr fun i hi => ?_)
    have := (mem_filter.mp hi).2
    subst hn
    simpa using this
  refine .inl ?_
  rw [find?_filter]
  congr 1
  funext i
  by_cases hi : i.name = name
  · simp [hi, hn]
  · simp [hi]

theorem find_put_ne (hne : i.name ≠ name) :
    (put i items).find? (fun j => j.name = name) = items.find? (fun j => j.name = name) := by
  rw [put, find?_cons_of_neg (by simpa using hne), find?_filter]
  congr 1
  funext j
  by_cases hj : j.name = name
  · simp [hj, hne.symm]
  · simp [hj]

theorem inv_overwrite (h : Inv site s) (hinstances : s'.instances = put i s.instances) (hname : i.name = n)
    (hforeign : s'.foreign = n :: s.foreign) (hdone : s'.done = s.done) : Inv site s' ∧ Drift s s' := by
  have hsome : s'.foreign ≠ [] := hforeign ▸ cons_ne_nil _ _
  have hsub : s.foreign ⊆ s'.foreign := hforeign ▸ subset_cons_self ..
  refine ⟨⟨hinstances ▸ h.named.put i, fun hnil => absurd hnil hsome, fun hnil => absurd hnil hsome, ?_, ?_⟩,
    ⟨hsub, fun name hn => .inl ?_, fun hnil => absurd hnil hsome⟩⟩
  · exact fun f hf => h.honest f (hdone ▸ hf)
  · exact fun f hf hn => h.careful f (hdone ▸ hf) fun hold => hn (hsub hold)
  rw [State.find, hinstances]
  refine find_put_ne fun heq => hn ?_
  rw [hforeign, ← hname, heq]
  exact mem_cons_self ..

theorem inv_moved (h : Inv site s) (m : Move) : Inv site (s.moved m) ∧ Drift s (s.moved m) := by
  cases m with
  | delete n =>
    have hsub : (s.instances.filter fun i => i.name ≠ n) ⊆ s.instances := filter_sublist.subset
    refine ⟨⟨h.named.subset hsub, fun hnil => (h.distinct hnil).subset hsub,
      fun hnil => (h.lasting hnil).subset hsub, h.honest,
      h.careful⟩, ⟨fun _ hn => hn, fun _ _ => find_filter, fun _ => hsub⟩⟩
  | write n spec =>
    dsimp only [State.moved, State.overwrite]
    cases hfind : s.find n with
    | none => exact inv_overwrite h rfl rfl rfl rfl
    | some i => exact inv_overwrite (i := { i with spec := spec }) h rfl (mem_of_find hfind).2 rfl rfl
  | enslave vrf links | setTable vrf t =>
    exact ⟨h.of_same rfl rfl rfl rfl rfl, ⟨fun _ hn => hn, fun _ _ => .inl rfl, fun _ _ hi => hi⟩⟩
  | setRow m b arg row => exact ⟨h.of_same rfl rfl rfl rfl rfl, (Drift.refl s).setRow m b arg row⟩

theorem moved_same (s : State P) (m : Move) : (s.moved m).made = s.made ∧ (s.moved m).lock = s.lock ∧
    (s.moved m).trace = s.trace ∧ (s.moved m).earlier = s.earlier ∧ (s.moved m).past = s.past := by
  cases m with
  | write n spec =>
    dsimp only [State.moved, State.overwrite]
    cases s.find n <;> exact ⟨rfl, rfl, rfl, rfl, rfl⟩
  | delete n | enslave vrf links | setTable vrf t | setRow m b arg row => exact ⟨rfl, rfl, rfl, rfl, rfl⟩

theorem foreign_moved (s : State P) (m : Move) : s.foreign ⊆ (s.moved m).foreign := by
  cases m with
  | write n spec =>
    dsimp only [State.moved, State.overwrite]
    cases s.find n <;> exact subset_cons_self ..
  | delete n | enslave vrf links | setTable vrf t | setRow m b arg row => exact List.Subset.refl _

/-! ### The claim -/

section Claim

theorem At.stops {tr' : List Entry} {u : Option Int} {f : Failure} (h : At site p e tr' s) (hmore : tr ⊆ tr')
    (hfine : Fine site a e u tr' s) (hf : f ≠ .exhausted) : ∃ tr', Stops site p a e tr s f tr' :=
  ⟨tr', h, hmore, fun hname => (hfine hname).1, fun heq => absurd heq hf⟩

variable [DecidableEq P]

theorem safe_allocateArgument (h : At site p e [] s) :
    Safe site p a (fun s v => ∃ items, At site p e [.listed items] s ∧ Seen site a items s ∧
        chosen items site.routerName a.vrfName = some v)
      (fun s f => ∃ tr, Stops site p a e [] s f tr) (allocateArgument site.routerName a.vrfName) s := by
  refine safe_except_bind (safe_list h (fun s' _ h' => ?_) fun s' _ h' =>
    ⟨[], h', List.Subset.refl _, fun _ => allowed_nil _ _, fun hf => nomatch hf⟩)
  cases hc : chosen s'.instances site.routerName a.vrfName with
  | none =>
    refine ⟨_, h', nil_subset _, fun _ => (allowed_nil _ _).cons fun _ _ heq => (nomatch heq), fun _ => ?_⟩
    exact ⟨s'.instances, [], rfl, allHeld_of_chosen hc⟩
  | some v => exact ⟨s'.instances, h', h'.inv.seen a, hc⟩

section
variable (h : Stands site p a e tr s v tr)

include h

theorem safe_nextFreeArgument :
    Safe site p a (fun s' _ => ∃ tr', Stands site p a e tr s' v (tr' ++ tr) ∧ Quiet tr' ∧ s.foreign ⊆ s'.foreign)
      (fun s f => ∃ tr', Stops site p a e tr s f tr') (nextFreeArgument site.routerName a.vrfName) s := by
  refine safe_except_bind (safe_list h.at_ (fun s' hd h' => ?_) fun s' hd h' =>
    h'.stops (Subset.refl _) (h.fine.next hd) nofun)
  have hfine : Fine site a e none (.listed s'.instances :: tr) s' := (h.fine.next hd).quiet fun _ _ => by simp
  cases hc : lowestFreeArgument s'.instances site.routerName a.vrfName with
  | none =>
    refine ⟨_, h', subset_cons_self .., fun hname => (hfine hname).1, fun _ => ?_⟩
    exact ⟨s'.instances, tr, rfl, allHeld_of_lowestFreeArgument hc⟩
  | some next =>
    exact ⟨[.listed s'.instances], ⟨h', subset_cons_self .., hfine, h.owns.next hd⟩, fun _ _ hm => by simp at hm,
      hd.foreign⟩

theorem safe_mayMove {createdBefore ours : Bool} (hours : ours → Movable e tr) (hbefore : createdBefore → e) :
    Safe site p a (fun s' out => ∃ tr', (out = none → Succeeds site p a e tr s' v tr') ∧
        (out ≠ none → Stands site p a e tr s' v tr' ∧ Movable e tr' ∧ s'.foreign ≠ []))
      (fun s f => ∃ tr', Stops site p a e tr s f tr') (mayMove site a createdBefore v ours) s := by
  refine safe_except_bind (safe_except_bind (safe_list h.at_ (fun s' hd h' => ?_) fun s' hd h' =>
    h'.stops (Subset.refl _) (h.fine.next hd) nofun))
  have hfine : Fine site a e none (.listed s'.instances :: tr) s' := (h.fine.next hd).quiet fun _ _ => by simp
  have howns := h.owns.next hd
  have hmore : tr ⊆ .listed s'.instances :: tr := subset_cons_self ..
  show (pact site).safe _ p a _
    (onHolder a createdBefore v ours (holderOf s'.instances site.routerName a.vrfName v)).run s'
  cases hc : holderOf s'.instances site.routerName a.vrfName v with
  | none =>
    exact ⟨_, fun _ => ⟨h', hmore, hfine, s'.instances, tr, rfl, noOther_iff_holderOf.mp hc⟩, fun hne => absurd rfl hne⟩
  | some holder =>
    have hforeign : s'.foreign ≠ [] := by
      intro hnil
      rw [noOther_iff_holderOf.mpr (howns.others hnil)] at hc
      cases hc
    cases ours with
    | true =>
      exact ⟨_, fun heq => (nomatch heq), fun _ => ⟨⟨h', hmore, hfine, howns⟩, (hours rfl).cons _, hforeign⟩⟩
    | false =>
      cases createdBefore with
      | false => exact h'.stops hmore hfine nofun
      | true =>
        refine safe_except_bind (safe_siblings h' (fun s₂ hd₂ h₂ => ?_) (fun s₂ l hl hd₂ h₂ => ?_) fun s₂ hd₂ h₂ =>
          h₂.stops hmore (hfine.next hd₂) nofun)
        · refine ⟨_, fun heq => (nomatch heq),
            fun _ => ⟨⟨h₂, subset_cons_of_subset _ hmore, ?_, howns.next hd₂⟩, ?_, ?_⟩⟩
          · exact (hfine.next hd₂).quiet fun _ _ => by simp
          · exact .inr ⟨hbefore rfl, mem_cons_self ..⟩
          · exact fun hnil => hforeign (hd₂.foreign_nil hnil)
        · rcases l with _ | ⟨link, links⟩
          · exact absurd rfl hl
          · exact h₂.stops hmore (hfine.next hd₂) nofun

theorem safe_move (hmovable : Movable e tr) (hforeign : s.foreign ≠ []) :
    Safe site p a (fun s' next => ∃ tr', Stands site p a e tr s' next tr' ∧ Movable e tr')
      (fun s f => ∃ tr', Stops site p a e tr s f tr') (move site a v) s := by
  refine safe_except_bind (safe_mono (safe_nextFreeArgument h) ?_)
  rintro s₁ (f | next) hnext
  · exact hnext
  obtain ⟨tr₁, h₁, hquiet, hsub⟩ := hnext
  have hmovable₁ : Movable e (tr₁ ++ tr) := hmovable.append tr₁
  have hf : ∀ s', Drift s₁ s' → s'.foreign ≠ [] := fun s' hd hnil =>
    hforeign (eq_nil_of_subset_nil fun n hn => hnil ▸ hd.foreign (hsub hn))
  -- The instance, if it is there, has the Argument the move leaves.
  have hwrote : ∀ {s' : State P} {tr' c}, Wrote site a next (fun i => i.spec = build site a v) s' (tr₁ ++ tr) tr' c →
      s₁.foreign ⊆ s'.foreign → tr ⊆ tr' ∧ Movable e tr' ∧ Fine site a e (some v) tr' s' := by
    intro s' tr' c hw hs
    have hfine : Fine site a e (some v) (tr₁ ++ tr) s' := fun hname =>
      ⟨(h₁.fine fun hn => hname (hs hn)).1, ((h₁.fine fun hn => hname (hs hn)).2).but _⟩
    cases hw with
    | same => exact ⟨h₁.more, hmovable₁, hfine⟩
    | created i => exact ⟨subset_cons_of_subset _ h₁.more, hmovable₁.cons _, hfine.quiet fun _ _ => by simp⟩
    | updated i hi =>
      refine ⟨subset_cons_of_subset _ h₁.more, hmovable₁.cons _, hfine.cons fun hname b c heq _ => ⟨hmovable₁, ?_⟩⟩
      cases heq
      rw [hi hname]
      rfl
  refine safe_except_bind (safe_createOrUpdate h₁.at_ (fun s' hd hnil => absurd hnil (hf s' hd))
    (fun s' i hd _ hnil => absurd hnil (hf s' hd)) (fun s' i hd hi hname => (h₁.owns.next hd).own hname i hi)
    (fun s₂ tr₂ c hs h₂ howns hw => ?_) fun s₂ tr₂ c hs h₂ hw => ?_)
  · obtain ⟨hmore, hmovable₂, hfine⟩ := hwrote hw hs
    refine safe_except_bind (safe_releaseArgument h₂ (fun s₃ rel hd h₃ hquiet hrel => ?_) fun s₃ rel hd h₃ hquiet => ?_)
    · have hrel₃ : Fine site a e none (rel ++ tr₂) s₃ := fun hname =>
        ⟨(hfine.next hd hname).1.append hquiet, (hfine.next hd hname).2.release hrel hquiet⟩
      exact ⟨rel ++ tr₂, ⟨h₃, subset_append_of_subset_right _ hmore, hrel₃, howns.next hd⟩, hmovable₂.append rel⟩
    · exact ⟨rel ++ tr₂, h₃, subset_append_of_subset_right _ hmore,
        fun hname => (hfine.next hd hname).1.append hquiet, fun hx => nomatch hx⟩
  · obtain ⟨hmore, -, hfine⟩ := hwrote hw hs
    exact h₂.stops hmore hfine nofun

end

section
variable {createdBefore : Bool}

theorem safe_rounds (hbefore : createdBefore → e) (left : Nat) {ours : Bool}
    (h : Stands site p a e tr s v tr) (hours : ours → Movable e tr) :
    Safe site p a (fun s' v' => ∃ tr', Succeeds site p a e tr s' v' tr') (fun s f => ∃ tr', Stops site p a e tr s f tr')
      (rounds site a createdBefore left v ours) s := by
  induction left generalizing tr s v ours
  all_goals
    unfold rounds
    refine safe_except_bind (safe_mono (safe_mayMove h hours hbefore) ?_)
    rintro s' (f | _ | holder) hout
    · exact hout
    · obtain ⟨tr', hdone, -⟩ := hout
      exact ⟨tr', hdone rfl⟩
    obtain ⟨tr₁, -, hmove⟩ := hout
    obtain ⟨h₁, hmovable, hforeign⟩ := hmove (by simp)
  case zero => exact h₁.at_.stops h₁.more h₁.fine nofun
  case succ left ih =>
    have hbase : Stands site p a e tr₁ s' v tr₁ := ⟨h₁.at_, List.Subset.refl _, h₁.fine, h₁.owns⟩
    refine safe_except_bind (safe_mono (safe_move hbase hmovable hforeign) ?_)
    rintro s'' (f | next) hout
    · obtain ⟨tr₂, hstops⟩ := hout
      exact ⟨tr₂, { hstops with more := List.Subset.trans h₁.more hstops.more }⟩
    obtain ⟨tr₂, h₂, hmovable₂⟩ := hout
    have hbase₂ : Stands site p a e tr₂ s'' next tr₂ := ⟨h₂.at_, List.Subset.refl _, h₂.fine, h₂.owns⟩
    have hmore : tr ⊆ tr₂ := List.Subset.trans h₁.more h₂.more
    refine safe_mono (ih hbase₂ fun _ => hmovable₂) ?_
    rintro s₃ (f | v') ⟨tr₃, h₃⟩
    all_goals exact ⟨tr₃, { h₃ with more := List.Subset.trans hmore h₃.more }⟩

theorem safe_claimLocked (hbefore : createdBefore = true → e = true) (h : At site p e [] s) :
    (pact site).safe (machine P site) p a (fun s claimed => ∃ tr, Concludes site p a e s claimed tr)
      (claimLocked site a createdBefore) s := by
  refine safe_bind (safe_mono (safe_allocateArgument h) ?_)
  rintro s₁ (f | v) hout
  · obtain ⟨tr, hstops⟩ := hout
    exact ⟨tr, hstops.concludes fun hc => nomatch hc⟩
  obtain ⟨items, h₁, hseen, hchosen⟩ := hout
  have hown : ∀ s' i, Drift s₁ s' → s'.find a.vrfName = some i → a.vrfName ∉ s'.foreign →
      i.under site.routerName = true → i.spec.vrfID = v := fun s' i hd hi hname hu =>
    chosen_own ((hseen.next hd).own hname i hi) hu hchosen
  have hfits : ∀ s', Drift s₁ s' → Fits site a v s' := by
    intro s' hd hnil
    have hs' := hseen.next hd
    have hv := of_chosen (hs'.distinct hnil) hchosen
    exact ⟨hv.1, fun i hi => hv.2 i (hs'.shrink hnil hi)⟩
  have hwrite : Safe site p a (fun s c => ∃ tr, Stands site p a e tr s v tr ∧ (c = true → ∃ i, .created i ∈ tr))
      (fun s f => ∃ tr, Stops site p a e [] s f tr) (createOrUpdate a.vrfName (build site a v) .apply) s₁ := by
    refine safe_createOrUpdate h₁ hfits (fun s' i hd hi hnil => hown s' i hd hi (by rw [hnil]; exact not_mem_nil)) hown
      (fun s' tr' c _ h' howns hw => ⟨tr', ⟨h', List.Subset.refl _, hw.fine.1, howns⟩, (hw.fine (e := e)).2⟩) ?_
    intro s' tr' c _ h' hw
    exact h'.stops (nil_subset _) hw.fine.1 nofun
  refine safe_bind (safe_mono hwrite ?_)
  rintro s₂ (f | created) hout
  · obtain ⟨tr, hstops⟩ := hout
    exact ⟨tr, hstops.concludes fun hc => nomatch hc⟩
  obtain ⟨tr, h₂, hcreated⟩ := hout
  have hours : created = true → Movable e tr := fun hc => .inl (hcreated hc)
  refine safe_bind (safe_mono (safe_rounds hbefore maxArgumentReallocations h₂ hours) ?_)
  rintro s₃ (f | v') ⟨tr', h₃⟩
  all_goals exact ⟨tr', h₃.concludes hcreated⟩

theorem safe_claimArgument (hbefore : createdBefore → s.made p) :
    (pact site).safe (machine P site) p a (fun s claimed => (createdBefore || claimed.created) → s.made p)
      (claimArgument site a createdBefore) s := by
  rintro s₁ hrely hinv ⟨fine, lands⟩ r s₂ hserve -
  have hbefore₁ : createdBefore → s₁.made p := fun hb => hrely.made.trans (hbefore hb)
  cases fine with
  | false =>
    cases hserve
    refine ⟨⟨hinv, fun p' _ => Rely.refl p' _⟩, fun hc => ?_⟩
    rw [Bool.or_false] at hc
    exact hbefore₁ hc
  | true =>
    by_cases hfree : s₁.lock = none
    · obtain ⟨rfl, rfl⟩ := mk.inj (some.inj ((if_pos hfree).symm.trans hserve))
      have hat : At site p (s₁.made p) [] { s₁ with lock := some p, trace := [], earlier := s₁.made p } :=
        ⟨rfl, rfl, rfl, fun he => he, fun ⟨_, hi⟩ => (nomatch hi), hinv.of_same rfl rfl rfl rfl rfl⟩
      have hnot : ∀ p', s₁.lock ≠ some p' := fun p' => by
        rw [hfree]
        exact (some_ne_none p').symm
      refine ⟨⟨hat.inv, fun p' _ => ⟨rfl, fun _ h => h, fun hl => absurd hl (hnot p'), fun hl => absurd hl (hnot p'),
        fun hl => absurd hl (hnot p'), fun hl => absurd hl (hnot p')⟩⟩, ?_⟩
      refine safe_bind (safe_mono (safe_claimLocked hbefore₁ hat) ?_)
      rintro s₂ claimed ⟨tr, h₂⟩
      rintro s₃ hrely₃ hinv₃ ch r s₄ hserve -
      have h₃ := h₂.at_.next hrely₃ hinv₃
      cases hserve
      refine ⟨CniBgp.keeps h₃.lock ⟨hinv₃.named, hinv₃.distinct, hinv₃.lasting, ?_, ?_⟩ (fun _ _ => rfl) rfl, ?_⟩
      · refine forall_mem_cons.mpr ⟨?_, hinv₃.honest⟩
        rw [h₃.trace, h₃.earlier]
        exact h₂.honest
      · refine forall_mem_cons.mpr ⟨fun hname => ?_, hinv₃.careful⟩
        rw [h₃.trace, h₃.earlier]
        exact h₂.careful fun hn => hname (hrely₃.foreign hn)
      · intro hc
        rcases (Bool.or_eq_true _ _).mp hc with hb | hc
        · exact h₃.still (hbefore₁ hb)
        · exact hrely₃.made.trans (h₂.made hc)
    · exact absurd ((if_neg hfree).symm.trans hserve) (by simp)

theorem safe_publishBGPState (tries : Nat) (hbefore : createdBefore → s.made p) :
    (pact site).safe (machine P site) p a (fun _ _ => True) (publishBGPState site a tries createdBefore) s := by
  induction tries generalizing s createdBefore with
  | zero => exact safe_bind (safe_mono (safe_claimArgument hbefore) fun _ _ _ => trivial)
  | succ tries ih =>
    refine safe_bind (safe_mono (safe_claimArgument hbefore) ?_)
    intro s₁ claimed hmade
    rintro s₂ hrely hinv ⟨again, lands⟩ r s₃ hserve -
    cases hserve
    refine ⟨⟨hinv, fun p' _ => Rely.refl p' _⟩, ?_⟩
    cases again with
    | true => exact ih fun hc => hrely.made.trans (hmade hc)
    | false => trivial

end

theorem sound : Pact.Sound (machine P site) (Add.body site) (pact site) where
  refl := Rely.refl
  trans := fun _ _ _ _ h h' => h.trans h'
  call := fun p a s _ => by
    refine safe_mono (safe_publishBGPState maxRetries fun hb => nomatch hb) ?_
    intro s₁ _ _ s₂ _ hinv _
    refine ⟨hinv.of_same rfl rfl rfl rfl rfl, fun p' hne => ⟨update_of_ne hne _ _, fun _ h => h, fun _ => ?_,
      fun _ => rfl, fun _ => rfl, fun _ => rfl⟩⟩
    exact ⟨fun _ h => h, fun _ _ => .inl rfl, fun _ _ h => h⟩
  die := fun p a s hinv => by
    refine ⟨hinv.of_same rfl rfl rfl rfl rfl, fun p' hne => ⟨update_of_ne hne _ _, fun _ h => h, fun _ => ?_, ?_,
      fun _ => rfl, fun _ => rfl⟩⟩
    · exact ⟨fun _ h => h, fun _ _ => .inl rfl, fun _ _ h => h⟩
    · intro hl
      show (if s.lock = some p then none else s.lock) = s.lock
      rw [if_neg fun hp => hne (some.inj (hl.symm.trans hp))]
  move := fun m s hinv => by
    obtain ⟨hinv', hdrift⟩ := inv_moved hinv m
    obtain ⟨hmade, hlock, htrace, hearlier, -⟩ := moved_same s m
    exact ⟨hinv', fun p => ⟨congrFun hmade p, hdrift.foreign, fun _ => hdrift, fun _ => hlock, fun _ => htrace,
      fun _ => hearlier⟩⟩
  back := ⟨fun _ _ => trivial, fun _ _ _ _ _ _ => trivial, fun _ _ _ _ _ _ _ _ _ => trivial, fun _ _ _ _ _ => trivial,
    fun _ _ _ _ => trivial, fun _ _ _ => trivial⟩

theorem subset_remember (router : String) (i : Instance) (past : List (Nat × Int)) : past ⊆ remember router i past :=
  fun _ h => mem_remember.mpr (.inr h)

theorem grows {ch : Choice} {q : Req} {r : Reply q} (hserve : serve site s p ch q = some (r, s')) :
    s.past ⊆ s'.past ∧ s.foreign ⊆ s'.foreign := by
  have hsame : s.past ⊆ s.past ∧ s.foreign ⊆ s.foreign := ⟨List.Subset.refl _, List.Subset.refl _⟩
  cases q with
  | lock =>
    dsimp only [serve] at hserve
    split_ifs at hserve <;> cases hserve <;> exact hsame
  | create name spec | update read spec =>
    obtain hout := congrArg snd (some.inj hserve)
    split_ifs at hout <;> subst hout
    · exact ⟨subset_remember .., hsame.2⟩
    · exact hsame
  | tableID vrf =>
    dsimp only [serve] at hserve
    cases ht : s.table vrf with
    | none =>
      rw [ht] at hserve
      cases hserve
      exact hsame
    | some t =>
      rw [ht] at hserve
      obtain hout := congrArg snd (some.inj hserve)
      split_ifs at hout <;> subst hout <;> exact hsame
  | _ =>
    obtain hout := congrArg snd (some.inj hserve)
    first
      | (subst hout; exact hsame)
      | (split_ifs at hout <;> subst hout <;> exact hsame)

theorem past_follows : (machine P site).Follows fun s s' => s.past ⊆ s'.past ∧ s.foreign ⊆ s'.foreign where
  refl := fun _ => ⟨List.Subset.refl _, List.Subset.refl _⟩
  trans := fun _ _ _ h h' => ⟨List.Subset.trans h.1 h'.1, List.Subset.trans h.2 h'.2⟩
  serves := fun _ _ _ _ _ _ _ hserve => grows hserve
  finishes := fun _ _ _ _ => ⟨List.Subset.refl _, List.Subset.refl _⟩
  dies := fun _ _ _ => ⟨List.Subset.refl _, List.Subset.refl _⟩
  moves := fun s m => by
    show s.past ⊆ (s.moved m).past ∧ s.foreign ⊆ (s.moved m).foreign
    rw [(moved_same s m).2.2.2.2]
    exact ⟨List.Subset.refl _, foreign_moved s m⟩

end Claim

/-! ### Every run -/

abbrev Happening (P : Type) [DecidableEq P] (site : Site) := Event P Add (machine P site).Choice (machine P site).Move

def pastOf (router : String) (items : List Instance) : List (Nat × Int) :=
  (items.filter (·.under router)).map fun i => (i.uid, i.spec.vrfID)

def initial (P : Type) (site : Site) (items : List Instance) (nextUID : Nat) : Config P Add (State P) Req Reply Unit :=
  ⟨{ instances := items, nextUID := nextUID, past := pastOf site.routerName items }, fun _ => none⟩

theorem mem_pastOf {router : String} {u : Nat} {v : Int} :
    (u, v) ∈ pastOf router items ↔ ∃ i ∈ items, i.under router ∧ i.uid = u ∧ i.spec.vrfID = v := by
  simp only [pastOf, List.mem_map, mem_filter, Prod.mk.injEq]
  exact ⟨fun ⟨i, ⟨hi, hu⟩, heq⟩ => ⟨i, hi, hu, heq⟩, fun ⟨i, hi, hu, heq⟩ => ⟨i, ⟨hi, hu⟩, heq⟩⟩

theorem inv_initial {nextUID : Nat} (hnamed : Named items) (hlt : ∀ i ∈ items, i.uid < nextUID)
    (hinj : ∀ i ∈ items, ∀ j ∈ items, i.uid = j.uid → i = j) (hdistinct : Distinct site.routerName items) :
    Inv site (initial P site items nextUID).shared where
  named := hnamed
  distinct := fun _ => hdistinct
  lasting := fun _ => by
    refine ⟨hlt, hinj, ?_, fun i hi hu => mem_pastOf.mpr ⟨i, hi, hu, rfl, rfl⟩, ?_, ?_⟩
    · intro u v huv
      obtain ⟨i, hi, -, rfl, -⟩ := mem_pastOf.mp huv
      exact hlt i hi
    · intro i hi v hv
      obtain ⟨j, hj, hu, huid, rfl⟩ := mem_pastOf.mp hv
      obtain rfl := hinj j hj i hi huid
      exact ⟨hu, rfl⟩
    intro u v v' hv hv'
    obtain ⟨i, hi, -, huid, rfl⟩ := mem_pastOf.mp hv
    obtain ⟨j, hj, -, huid', rfl⟩ := mem_pastOf.mp hv'
    rw [hinj i hi j hj (huid.trans huid'.symm)]
  honest := fun _ hf => nomatch hf
  careful := fun _ hf => nomatch hf

/-- In every run of a node's ADDs, from instances of the router with distinct Arguments in range: as long as nobody
writes instances without the lock, the router's instances have distinct Arguments in range and an instance keeps its
Argument. A call that succeeds last saw no other instance with its Argument, and one that fails as exhausted last saw
every Argument held. A call on an instance that nobody else has written moves it only if it created it, or if an earlier
attempt of its ADD created an instance and the call saw no other link in the VRF, and it succeeds only after the
datapath was seen without the VRF's rows for every Argument it left. -/
theorem arguments_unique (P : Type) [DecidableEq P] (site : Site) (items : List Instance) (nextUID : Nat)
    (hnamed : Named items) (hlt : ∀ i ∈ items, i.uid < nextUID) (hinj : ∀ i ∈ items, ∀ j ∈ items, i.uid = j.uid → i = j)
    (hdistinct : Distinct site.routerName items) (evs evs' : List (Happening P site))
    (c c' : Config P Add (State P) Req Reply Unit)
    (hrun : (machine P site).run (Add.body site) (initial P site items nextUID) evs = some c)
    (hrun' : (machine P site).run (Add.body site) c evs' = some c') :
    (c'.shared.foreign = [] → Distinct site.routerName c'.shared.instances ∧
      ∀ i ∈ c.shared.instances, i.under site.routerName = true → ∀ i' ∈ c'.shared.instances, i'.uid = i.uid →
        i'.under site.routerName = true ∧ i'.spec.vrfID = i.spec.vrfID) ∧
    ∀ f ∈ c'.shared.done, Honest site.routerName f ∧ (f.add.vrfName ∉ c'.shared.foreign → Careful site f) := by
  have hkept : Pact.Kept (machine P site) (pact site) c :=
    sound.kept ⟨inv_initial hnamed hlt hinj hdistinct,
      fun _ _ _ hm => absurd hm (Option.some_ne_none _).symm⟩ hrun trivial
  have hinv : Inv site c.shared := hkept.inv
  have hinv' : Inv site c'.shared := (sound.kept hkept hrun' trivial).inv
  refine ⟨fun hnil => ⟨hinv'.distinct hnil, ?_⟩, fun f hf => ⟨hinv'.honest f hf, hinv'.careful f hf⟩⟩
  intro i hi hu i' hi' huid
  have hgrows := past_follows.run hrun'
  have hback : c.shared.foreign = [] := eq_nil_of_subset_nil (hnil ▸ hgrows.2)
  have hpast : (i.uid, i.spec.vrfID) ∈ c'.shared.past := hgrows.1 ((hinv.lasting hback).recorded i hi hu)
  exact (hinv'.lasting hnil).kept i' hi' _ (huid ▸ hpast)

/-! ### Runs -/

/-- A node whose router has no SRv6 identity yet. -/
def plainSite : Site := ⟨"r", .unconfigured⟩

def addX : Add := ⟨"x", "1:1", "vrf-x", "link-1"⟩
def addX' : Add := ⟨"x", "1:1", "vrf-x", "link-2"⟩
def addY : Add := ⟨"y", "1:2", "vrf-y", "link-3"⟩

def succeeds (p : Bool) (n : Nat) : List (Happening Bool plainSite) :=
  List.replicate n (.request p (⟨true, true⟩ : Choice))

def stopsThere (p : Bool) : List (Happening Bool plainSite) := [.request p (⟨false, false⟩ : Choice), .ends p]

def oneClaim (p : Bool) (a : Add) : List (Happening Bool plainSite) := .call p a :: succeeds p 6

theorem distinct_nil (router : String) : Distinct router [] := ⟨fun _ hi => (nomatch hi), fun _ hi => (nomatch hi)⟩

/-- An ADD whose first attempt created an instance that was deleted since reuses the one another ADD created under the
name, and moves it. -/
def reuse : List (Happening Bool plainSite) :=
  oneClaim true addX ++ succeeds true 1 ++ [.moves (Move.delete "x")] ++ oneClaim false addX' ++ stopsThere false ++
  [.moves (Move.write "y" ⟨some "r", 1, "1:2"⟩)] ++ succeeds true 10

/-- Two claims; and one that meets a writer who ignores the lock and moves its instance out of the way. -/
theorem arguments_unique_moved :
    (∃ c c',
      (machine Bool plainSite).run (Add.body plainSite) (initial Bool plainSite [] 0) (oneClaim true addX) = some c ∧
      (machine Bool plainSite).run (Add.body plainSite) c (oneClaim false addY) = some c' ∧
      c'.shared.instances = [⟨"y", 1, build plainSite addY 2⟩, ⟨"x", 0, build plainSite addX 1⟩] ∧
      Distinct "r" c'.shared.instances) ∧
    ∃ c, (machine Bool plainSite).run (Add.body plainSite) (initial Bool plainSite [] 0) reuse = some c ∧
      c.shared.foreign = ["y"] ∧ ∃ f ∈ c.shared.done,
        .updated ⟨"x", 1, build plainSite addX' 1⟩ ⟨"x", 1, build plainSite addX 2⟩ ∈ f.trace ∧
        Honest "r" f ∧ Careful plainSite f := by
  have hunique := arguments_unique Bool plainSite [] 0 (fun _ hi => nomatch hi) (fun _ hi => nomatch hi)
    (fun _ hi => nomatch hi) (distinct_nil _)
  constructor
  · obtain ⟨c, hc, hnext⟩ := exists_some
      (o := (machine Bool plainSite).run (Add.body plainSite) (initial Bool plainSite [] 0) (oneClaim true addX))
      (p := fun c => ((machine Bool plainSite).run (Add.body plainSite) c (oneClaim false addY)).any fun c' =>
        c'.shared.instances = [⟨"y", 1, build plainSite addY 2⟩, ⟨"x", 0, build plainSite addX 1⟩] ∧
          c'.shared.foreign = []) (by decide +kernel)
    obtain ⟨c', hc', hinstances, hforeign⟩ := exists_some hnext
    exact ⟨c, c', hc, hc', hinstances, ((hunique _ _ c c' hc hc').1 hforeign).1⟩
  · obtain ⟨c, hc, hforeign, f, hf, hadd, hmoved⟩ := exists_some
      (o := (machine Bool plainSite).run (Add.body plainSite) (initial Bool plainSite [] 0) reuse)
      (p := fun c => c.shared.foreign = ["y"] ∧ ∃ f ∈ c.shared.done, f.add = addX ∧
        .updated ⟨"x", 1, build plainSite addX' 1⟩ ⟨"x", 1, build plainSite addX 2⟩ ∈ f.trace) (by decide +kernel)
    obtain ⟨hhonest, hcareful⟩ := (hunique reuse [] c c hc rfl).2 f hf
    exact ⟨c, hc, hforeign, f, hf, hmoved, hhonest, hcareful (by rw [hadd, hforeign]; decide)⟩

theorem moves_reused :
    ∃ c, (machine Bool plainSite).run (Add.body plainSite) (initial Bool plainSite [] 0) reuse = some c ∧
      c.shared.foreign = ["y"] ∧ ∃ f ∈ c.shared.done, ∃ g ∈ c.shared.done,
        f.thread ≠ g.thread ∧ f.add = addX ∧ g.add = addX' ∧
        .created ⟨"x", 1, build plainSite addX' 1⟩ ∈ g.trace ∧
        .updated ⟨"x", 1, build plainSite addX' 1⟩ ⟨"x", 1, build plainSite addX 2⟩ ∈ f.trace :=
  exists_some (by decide +kernel)

end Galactic.CniBgp
