import Galactic.CniBgp.Claims

/-!
# The requests of a claim

What each request of a claim needs and leaves, for the thread that has the lock. -/

namespace Galactic.CniBgp

open Client Threads List Function Option

variable {P : Type} {s s' : State P} {p : P} {site : Site} {items : List Instance} {i j : Instance} {a : Add} {e : Bool}
  {tr : List Entry} {v w : Int} {x : Entry}

/-! ### Traces -/

theorem Movable.append (h : Movable e tr) (l : List Entry) : Movable e (l ++ tr) :=
  h.imp (fun ⟨i, hi⟩ => ⟨i, mem_append_right l hi⟩) fun h => ⟨h.1, mem_append_right l h.2⟩

theorem Movable.cons (h : Movable e tr) (x : Entry) : Movable e (x :: tr) := h.append [x]

theorem Allowed.cons {router : String} (h : Allowed router e tr)
    (hx : ∀ b c, x = .updated b c → Moved router b c → Movable e tr) : Allowed router e (x :: tr) := by
  intro b c rest hsuffix hmoved
  rcases suffix_cons_iff.mp hsuffix with heq | hold
  · obtain ⟨hentry, rfl⟩ := List.cons.inj heq
    exact hx b c hentry.symm hmoved
  · exact h b c rest hold hmoved

/-- Nothing in the part of the trace is a write of an instance. -/
def Quiet (rel : List Entry) : Prop := ∀ b c, .updated b c ∉ rel

theorem Quiet.append {l l' : List Entry} (h : Quiet l) (h' : Quiet l') : Quiet (l ++ l') :=
  fun b c hm => (mem_append.mp hm).elim (h b c) (h' b c)

section
variable {rel : List Entry} {vrfInterface : String}

theorem Allowed.append {router : String} (h : Allowed router e tr) (hquiet : Quiet rel) :
    Allowed router e (rel ++ tr) := by
  induction rel with
  | nil => exact h
  | cons x rel ih =>
    refine (ih fun b c hm => hquiet b c (mem_cons_of_mem x hm)).cons fun b c heq _ => ?_
    exact absurd (heq ▸ mem_cons_self ..) (hquiet b c)

theorem Released.subset {arg : Nat} {tr' : List Entry} (h : Released vrfInterface arg tr) (hsub : tr ⊆ tr') :
    Released vrfInterface arg tr' := by
  obtain ⟨t, ht, ⟨row, hrow, hr⟩, ⟨row', hrow', hr'⟩⟩ := h
  exact ⟨t, hsub ht, ⟨row, hrow, hsub hr⟩, ⟨row', hrow', hsub hr'⟩⟩

theorem FreedBut.cons {u : Option Int} (h : FreedBut u site vrfInterface tr)
    (hx : ∀ b c, x = .updated b c → Moved site.routerName b c → some b.spec.vrfID = u) :
    FreedBut u site vrfInterface (x :: tr) := by
  intro blk hblk later b c rest heq hmoved
  rcases later with _ | ⟨y, later⟩
  · cases heq
    exact .inl (hx b c rfl hmoved)
  · cases heq
    exact (h blk hblk later b c rest rfl hmoved).imp id fun hr => hr.subset (subset_cons_self ..)

theorem FreedBut.but (h : FreedBut none site vrfInterface tr) (u : Option Int) : FreedBut u site vrfInterface tr :=
  fun blk hblk later b c rest heq hmoved => .inr ((h blk hblk later b c rest heq hmoved).resolve_left (by simp))

theorem FreedBut.release (h : FreedBut (some v) site vrfInterface tr)
    (hrel : ∀ blk, site.node = .block blk → Released vrfInterface (uint16 v) rel) (hquiet : Quiet rel) :
    FreedBut none site vrfInterface (rel ++ tr) := by
  intro blk hblk later b c rest heq hmoved
  have hsplit : ∃ mid, later = rel ++ mid ∧ tr = mid ++ .updated b c :: rest := by
    rcases append_eq_append_iff.mp heq with ⟨mid, hlater, htr⟩ | ⟨mid, hrel', hrest⟩
    · exact ⟨mid, hlater, htr⟩
    rcases mid with _ | ⟨y, mid⟩
    · rw [append_nil] at hrel'
      exact ⟨[], by rw [hrel', append_nil], hrest.symm⟩
    · cases hrest
      exact absurd (hrel' ▸ mem_append_right _ (mem_cons_self ..)) (hquiet b c)
  obtain ⟨mid, rfl, htr⟩ := hsplit
  rcases h blk hblk mid b c rest htr hmoved with hv | hr
  · exact .inr ((some.inj hv ▸ hrel blk hblk : Released _ _ rel).subset (subset_append_left ..))
  · exact .inr (hr.subset (subset_append_right ..))

end

/-- The trace of a call on an instance nobody else has written: every move allowed, and every Argument left released but
the one given. -/
def Fine (site : Site) (a : Add) (e : Bool) (u : Option Int) (tr : List Entry) (s : State P) : Prop :=
  a.vrfName ∉ s.foreign → Allowed site.routerName e tr ∧ FreedBut u site a.vrfInterface tr

section
variable {u : Option Int} (h : Fine site a e u tr s)

include h

theorem Fine.next (hd : Drift s s') : Fine site a e u tr s' := fun hname => h fun hn => hname (hd.foreign hn)

theorem Fine.cons (hx : a.vrfName ∉ s.foreign → ∀ b c, x = .updated b c → Moved site.routerName b c →
      Movable e tr ∧ some b.spec.vrfID = u) : Fine site a e u (x :: tr) s :=
  fun hname => ⟨(h hname).1.cons fun b c heq hm => (hx hname b c heq hm).1,
    (h hname).2.cons fun b c heq hm => (hx hname b c heq hm).2⟩

theorem Fine.quiet (hx : ∀ b c, x ≠ .updated b c) : Fine site a e u (x :: tr) s :=
  h.cons fun _ b c heq => absurd heq (hx b c)

end

theorem allowed_nil (router : String) (e : Bool) : Allowed router e [] :=
  fun _ _ _ hsuffix => absurd (suffix_nil.mp hsuffix) (cons_ne_nil _ _)

theorem fine_nil : Fine site a e none [] s :=
  fun _ => ⟨allowed_nil _ _, fun _ _ later b c rest heq => absurd heq (by simp)⟩

/-! ### Requests in the lock -/

theorem Inv.of_same (h : Inv site s) (hi : s'.instances = s.instances) (hu : s'.nextUID = s.nextUID)
    (hp : s'.past = s.past) (hf : s'.foreign = s.foreign) (hd : s'.done = s.done) : Inv site s' where
  named := hi ▸ h.named
  distinct := fun hnil => hi ▸ h.distinct (hf ▸ hnil)
  lasting := fun hnil => by
    rw [hi, hu, hp]
    exact h.lasting (hf ▸ hnil)
  honest := fun f hmem => h.honest f (hd ▸ hmem)
  careful := fun f hmem hname => h.careful f (hd ▸ hmem) (hf ▸ hname)

theorem At.note (h : At site p e tr s) (hx : ∀ i, x ≠ .created i) : At site p e (x :: tr) (s.note x) where
  lock := h.lock
  trace := congrArg (x :: ·) h.trace
  earlier := h.earlier
  still := h.still
  marked := by
    rintro ⟨i, hi⟩
    rcases mem_cons.mp hi with heq | hi
    · exact absurd heq.symm (hx i)
    · exact h.marked ⟨i, hi⟩
  inv := h.inv.of_same rfl rfl rfl rfl rfl

theorem Drift.note (h : Drift s s') (x : Entry) : Drift s (s'.note x) := ⟨h.foreign, h.own, h.shrink⟩

theorem Drift.setRow (h : Drift s s') (m : RowMap) (b arg : Nat) (row : Option Row) : Drift s (s'.setRow m b arg row) :=
  ⟨h.foreign, h.own, h.shrink⟩

theorem At.setRow (h : At site p e tr s) (m : RowMap) (b arg : Nat) (row : Option Row) :
    At site p e tr (s.setRow m b arg row) :=
  ⟨h.lock, h.trace, h.earlier, h.still, h.marked, h.inv.of_same rfl rfl rfl rfl rfl⟩

theorem At.created [DecidableEq P] (h : At site p e tr s) (a : Add) (v : Int) (hfits : Fits site a v s) :
    At site p e (.created ⟨a.vrfName, s.nextUID, build site a v⟩ :: tr)
      (s.create site.routerName p a.vrfName (build site a v)) where
  lock := h.lock
  trace := congrArg (Entry.created _ :: ·) h.trace
  earlier := h.earlier
  still := fun _ => update_self ..
  marked := fun _ => update_self ..
  inv := h.inv.create p hfits

theorem At.updated (h : At site p e tr s) (hfind : s.find a.vrfName = some i) (hfits : Fits site a v s)
    (hsame : s.foreign = [] → i.under site.routerName → i.spec.vrfID = v) :
    At site p e (.updated i { i with spec := build site a v } :: tr) (s.update site.routerName i (build site a v)) where
  lock := h.lock
  trace := congrArg (Entry.updated i _ :: ·) h.trace
  earlier := h.earlier
  still := h.still
  marked := by
    rintro ⟨j, hj⟩
    rcases mem_cons.mp hj with heq | hj
    · cases heq
    · exact h.marked ⟨j, hj⟩
  inv := h.inv.update hfind hfits hsame

theorem At.keeps (h : s.lock = some p) (h' : At site p e tr s') (hmade : s'.made = s.made)
    (hforeign : s'.foreign = s.foreign) : (pact site).Keeps p s s' :=
  CniBgp.keeps h h'.inv (fun _ _ => by rw [hmade]) hforeign

/-- What `createOrUpdate` adds to the trace, and whether it says it created the instance. -/
inductive Wrote (site : Site) (a : Add) (v : Int) (known : Instance → Prop) (s : State P) (tr : List Entry) :
    List Entry → Bool → Prop
  | same : Wrote site a v known s tr tr false
  | created (i : Instance) : Wrote site a v known s tr (.created i :: tr) true
  | updated (i : Instance) (h : a.vrfName ∉ s.foreign → known i) :
    Wrote site a v known s tr (.updated i { i with spec := build site a v } :: tr) false

theorem find_put (hname : i.name = a.vrfName) : (put i items).find? (fun j => j.name = a.vrfName) = some i := by
  rw [put, find?_cons_of_pos (by simpa using hname)]

theorem Owns.written (hinstances : s'.instances = put i items) (hname : i.name = a.vrfName)
    (hspec : i.spec = build site a v) (hfree : s'.foreign = [] → NoOther site.routerName a.vrfName v items) :
    Owns site a v s' where
  own := by
    intro _ j hj
    rw [State.find, hinstances, find_put hname] at hj
    cases hj
    exact hspec
  others := by
    intro hnil j hj hu hne
    rw [hinstances] at hj
    rcases mem_put.mp hj with rfl | ⟨hj, -⟩
    · exact absurd hname hne
    · exact hfree hnil j hj hu hne

/-! ### Where a claim may stand -/

/-- How a part of a claim may stop with an error, from a trace on. -/
structure Stops (site : Site) (p : P) (a : Add) (e : Bool) (tr : List Entry) (s : State P) (f : Failure)
    (tr' : List Entry) : Prop where
  at_ : At site p e tr' s
  more : tr ⊆ tr'
  allowed : a.vrfName ∉ s.foreign → Allowed site.routerName e tr'
  exhausted : f = .exhausted → LastSaw tr' (AllHeld site.routerName)

structure Succeeds (site : Site) (p : P) (a : Add) (e : Bool) (tr : List Entry) (s : State P) (v : Int)
    (tr' : List Entry) : Prop where
  at_ : At site p e tr' s
  more : tr ⊆ tr'
  fine : Fine site a e none tr' s
  unique : LastSaw tr' (NoOther site.routerName a.vrfName v)

structure Stands (site : Site) (p : P) (a : Add) (e : Bool) (tr : List Entry) (s : State P) (v : Int)
    (tr' : List Entry) : Prop where
  at_ : At site p e tr' s
  more : tr ⊆ tr'
  fine : Fine site a e none tr' s
  owns : Owns site a v s

/-- What holds when a claim lets go of the lock. -/
structure Concludes (site : Site) (p : P) (a : Add) (e : Bool) (s : State P) (claimed : Claimed)
    (tr : List Entry) : Prop where
  at_ : At site p e tr s
  honest : Honest site.routerName ⟨p, a, e, tr, claimed⟩
  careful : a.vrfName ∉ s.foreign → Careful site ⟨p, a, e, tr, claimed⟩
  made : claimed.created = true → s.made p = true

section
variable {tr' : List Entry} {c : Bool}

theorem Stops.concludes {f : Failure} (h : Stops site p a e tr s f tr') (hc : c → ∃ i, .created i ∈ tr) :
    Concludes site p a e s ⟨c, .error f⟩ tr' where
  at_ := h.at_
  honest := ⟨fun _ hv => (nomatch hv), fun hf => h.exhausted (Except.error.inj hf)⟩
  careful := fun hname => ⟨h.allowed hname, fun _ hv => nomatch hv⟩
  made := fun hc' => h.at_.marked ((hc hc').imp fun _ hi => h.more hi)

theorem Succeeds.concludes (h : Succeeds site p a e tr s v tr') (hc : c → ∃ i, .created i ∈ tr) :
    Concludes site p a e s ⟨c, .ok v⟩ tr' where
  at_ := h.at_
  honest := ⟨fun _ hv => Except.ok.inj hv ▸ h.unique, fun hf => nomatch hf⟩
  careful := fun hname => ⟨(h.fine hname).1, fun _ _ => (h.fine hname).2⟩
  made := fun hc' => h.at_.marked ((hc hc').imp fun _ hi => h.more hi)

theorem Wrote.fine (hw : Wrote site a v (fun i => i.under site.routerName → i.spec.vrfID = v) s [.listed items] tr' c) :
    Fine site a e none tr' s ∧ (c → ∃ i, .created i ∈ tr') := by
  have hfine : Fine site a e none [.listed items] s := fine_nil.quiet fun _ _ => by simp
  cases hw with
  | same => exact ⟨hfine, fun hc => nomatch hc⟩
  | created i => exact ⟨hfine.quiet fun _ _ => by simp, fun _ => ⟨i, mem_cons_self ..⟩⟩
  | updated i hi =>
    refine ⟨hfine.cons fun hname b c heq hmoved => ?_, fun hc => nomatch hc⟩
    cases heq
    exact absurd (hi hname hmoved.1).symm hmoved.2

end

section Rules

variable [DecidableEq P] {β : Type} {err : State P → Failure → Prop}

/-- A part of a claim is safe, with a condition for its result and one for its error. -/
abbrev Safe (site : Site) (p : P) (a : Add) (ok : State P → β → Prop) (err : State P → Failure → Prop) (m : Call β)
    (s : State P) : Prop :=
  (pact site).safe (machine P site) p a (Pact.Outcome ok err) m.run s

section
variable (h : At site p e tr s) {vrfInterface : String} {ok : State P → Unit → Prop}

include h

theorem safe_list {ok : State P → List Instance → Prop}
    (hok : ∀ s', Drift s s' → At site p e (.listed s'.instances :: tr) s' → ok s' s'.instances)
    (herr : ∀ s', Drift s s' → At site p e tr s' → err s' .list) : Safe site p a ok err list s := by
  rintro s₁ hrely hinv ⟨fine, lands⟩ r s₂ hserve -
  have h₁ := h.next hrely hinv
  have hdrift := hrely.drift h.lock
  cases fine with
  | true =>
    cases hserve
    have h₂ := h₁.note (x := .listed s₁.instances) (fun _ => by simp)
    exact ⟨At.keeps h₁.lock h₂ rfl rfl, hok _ (hdrift.note _) h₂⟩
  | false =>
    cases hserve
    exact ⟨At.keeps h₁.lock h₁ rfl rfl, herr _ hdrift h₁⟩

theorem safe_createOrUpdate {ok : State P → Bool → Prop} {f : Failure} {known : Instance → Prop}
    (hfits : ∀ s', Drift s s' → Fits site a v s')
    (hsame : ∀ s' i, Drift s s' → s'.find a.vrfName = some i → s'.foreign = [] → i.under site.routerName →
      i.spec.vrfID = v)
    (hknown : ∀ s' i, Drift s s' → s'.find a.vrfName = some i → a.vrfName ∉ s'.foreign → known i)
    (hok : ∀ s' tr' c, s.foreign ⊆ s'.foreign → At site p e tr' s' → Owns site a v s' →
      Wrote site a v known s' tr tr' c → ok s' c)
    (herr : ∀ s' tr' c, s.foreign ⊆ s'.foreign → At site p e tr' s' → Wrote site a v known s' tr tr' c → err s' f) :
    Safe site p a ok err (createOrUpdate a.vrfName (build site a v) f) s := by
  rintro s₁ hrely hinv ⟨fine, lands⟩ r s₂ hserve -
  have h₁ := h.next hrely hinv
  have hd₁ := hrely.drift h.lock
  cases fine with
  | false =>
    cases hserve
    exact ⟨At.keeps h₁.lock h₁ rfl rfl, herr _ _ _ hd₁.foreign h₁ .same⟩
  | true =>
    cases hserve
    refine ⟨At.keeps h₁.lock h₁ rfl rfl, ?_⟩
    show (pact site).safe (machine P site) p a _ (apply a.vrfName (build site a v) f (some (s₁.find a.vrfName))) s₁
    rcases hfind : s₁.find a.vrfName with _ | i
    · rintro s₂ hrely₂ hinv₂ ⟨fine, lands⟩ r s₃ hserve -
      have h₂ := h₁.next hrely₂ hinv₂
      have hd₂ := hd₁.trans (hrely₂.drift h₁.lock)
      by_cases hland : s₂.find a.vrfName = none ∧ (fine || lands)
      · cases (congrArg some (if_pos hland)).symm.trans hserve
        have h₃ := h₂.created a v (hfits s₂ hd₂)
        refine ⟨CniBgp.keeps h₂.lock h₃.inv (fun _ hne => update_of_ne hne _ _) rfl, ?_⟩
        cases fine with
        | true => exact hok _ _ _ hd₂.foreign h₃ (.written rfl rfl rfl fun hnil => (hfits s₂ hd₂ hnil).2) (.created _)
        | false => exact herr _ _ _ hd₂.foreign h₃ (.created _)
      · cases (congrArg some (if_neg hland)).symm.trans hserve
        exact ⟨At.keeps h₂.lock h₂ rfl rfl, herr _ _ _ hd₂.foreign h₂ .same⟩
    by_cases hspec : i.spec = build site a v
    · rw [apply, if_pos hspec]
      refine hok _ _ _ hd₁.foreign h₁ ⟨fun _ j hj => ?_, fun hnil => (hfits _ hd₁ hnil).2⟩ .same
      obtain rfl := mem_unique hfind hj
      exact hspec
    rw [apply, if_neg hspec]
    rintro s₂ hrely₂ hinv₂ ⟨fine, lands⟩ r s₃ hserve -
    have h₂ := h₁.next hrely₂ hinv₂
    have hd₂ := hd₁.trans (hrely₂.drift h₁.lock)
    obtain ⟨-, hname⟩ := mem_of_find hfind
    by_cases hland : s₂.find i.name = some i ∧ (fine || lands)
    · cases (congrArg some (if_pos hland)).symm.trans hserve
      have hfind₂ : s₂.find a.vrfName = some i := hname ▸ hland.1
      have h₃ := h₂.updated hfind₂ (hfits s₂ hd₂) (hsame s₂ i hd₂ hfind₂)
      refine ⟨CniBgp.keeps h₂.lock h₃.inv (fun _ _ => rfl) rfl, ?_⟩
      cases fine with
      | true =>
        exact hok _ _ _ hd₂.foreign h₃ (.written rfl hname rfl fun hnil => (hfits s₂ hd₂ hnil).2)
          (.updated i (hknown s₂ i hd₂ hfind₂))
      | false => exact herr _ _ _ hd₂.foreign h₃ (.updated i (hknown s₂ i hd₂ hfind₂))
    · cases (congrArg some (if_neg hland)).symm.trans hserve
      exact ⟨At.keeps h₂.lock h₂ rfl rfl, herr _ _ _ hd₂.foreign h₂ .same⟩

theorem safe_siblings {ok : State P → List String → Prop}
    (halone : ∀ s', Drift s s' → At site p e (.alone :: tr) s' → ok s' [])
    (hothers : ∀ s' l, l ≠ [] → Drift s s' → At site p e tr s' → ok s' l)
    (herr : ∀ s', Drift s s' → At site p e tr s' → err s' .siblings) : Safe site p a ok err (siblings a) s := by
  rintro s₁ hrely hinv ⟨fine, lands⟩ r s₂ hserve -
  have h₁ := h.next hrely hinv
  have hdrift := hrely.drift h.lock
  cases fine with
  | false =>
    cases hserve
    exact ⟨At.keeps h₁.lock h₁ rfl rfl, herr _ hdrift h₁⟩
  | true =>
    rcases hl : (s₁.enslaved a.vrfInterface).filter (· ≠ a.hostLink) with _ | ⟨link, links⟩
    · have hout := some.inj hserve
      rw [hl] at hout
      cases hout
      have h₂ := h₁.note (x := .alone) (fun _ => by simp)
      exact ⟨At.keeps h₁.lock h₂ rfl rfl, halone _ (hdrift.note _) h₂⟩
    · have hout := some.inj hserve
      rw [hl] at hout
      cases hout
      exact ⟨At.keeps h₁.lock h₁ rfl rfl, hothers _ _ (cons_ne_nil _ _) hdrift h₁⟩

theorem safe_tableID {ok : State P → Nat → Prop} (hok : ∀ s' t, Drift s s' → At site p e (.table t :: tr) s' → ok s' t)
    (herr : ∀ s', Drift s s' → At site p e tr s' → err s' .release) :
    Safe site p a ok err (tableID vrfInterface) s := by
  rintro s₁ hrely hinv ⟨fine, lands⟩ r s₂ hserve -
  have h₁ := h.next hrely hinv
  have hdrift := hrely.drift h.lock
  dsimp only [machine, serve] at hserve
  rcases ht : s₁.table vrfInterface with _ | t <;> rw [ht] at hserve
  · cases hserve
    exact ⟨At.keeps h₁.lock h₁ rfl rfl, herr _ hdrift h₁⟩
  cases fine with
  | false =>
    cases hserve
    exact ⟨At.keeps h₁.lock h₁ rfl rfl, herr _ hdrift h₁⟩
  | true =>
    cases hserve
    have h₂ := h₁.note (x := .table t) (fun _ => by simp)
    exact ⟨At.keeps h₁.lock h₂ rfl rfl, hok _ t (hdrift.note _) h₂⟩

theorem safe_openMaps (hok : ∀ s', Drift s s' → At site p e tr s' → ok s' ())
    (herr : ∀ s', Drift s s' → At site p e tr s' → err s' .release) : Safe site p a ok err openMaps s := by
  rintro s₁ hrely hinv ⟨fine, lands⟩ r s₂ hserve -
  have h₁ := h.next hrely hinv
  have hdrift := hrely.drift h.lock
  cases hserve
  refine ⟨At.keeps h₁.lock h₁ rfl rfl, ?_⟩
  cases fine with
  | true => exact hok _ hdrift h₁
  | false => exact herr _ hdrift h₁

theorem safe_releaseRow {m : RowMap} {blk arg : Nat} {own : Row}
    (hok : ∀ s' rel, Drift s s' → At site p e (rel ++ tr) s' → Quiet rel → Cleared m arg own rel → ok s' ())
    (herr : ∀ s' rel, Drift s s' → At site p e (rel ++ tr) s' → Quiet rel → err s' .release) :
    Safe site p a ok err (releaseRow m blk arg own) s := by
  rintro s₁ hrely hinv ⟨fine, lands⟩ r s₂ hserve -
  have h₁ := h.next hrely hinv
  have hd₁ := hrely.drift h.lock
  cases fine with
  | false =>
    cases hserve
    exact ⟨At.keeps h₁.lock h₁ rfl rfl, herr _ [] hd₁ h₁ (fun _ _ hm => nomatch hm)⟩
  | true =>
    cases hserve
    have h₂ := h₁.note (x := .row m arg (s₁.row m blk arg)) (fun _ => by simp)
    have hd₂ := hd₁.note (.row m arg (s₁.row m blk arg))
    refine ⟨At.keeps h₁.lock h₂ rfl rfl, ?_⟩
    show (pact site).safe (machine P site) p a _ (unregisterOwn m blk arg own (some (s₁.row m blk arg))) _
    have hquiet : Quiet [.row m arg (s₁.row m blk arg)] := fun _ _ hm => by simp at hm
    by_cases hrow : s₁.row m blk arg = some own
    · rw [unregisterOwn, if_pos hrow]
      rintro s₃ hrely₃ hinv₃ ⟨fine, lands⟩ r s₄ hserve -
      have h₃ := h₂.next hrely₃ hinv₃
      have hd₃ := hd₂.trans (hrely₃.drift h₂.lock)
      cases fine with
      | false =>
        cases hserve
        exact ⟨At.keeps h₃.lock h₃ rfl rfl, herr _ [_] hd₃ h₃ hquiet⟩
      | true =>
        cases hserve
        have h₄ := (h₃.setRow m blk arg none).note (x := .row m arg none) (fun _ => by simp)
        refine ⟨At.keeps h₃.lock h₄ rfl rfl, hok _ [_, _] ((hd₃.setRow m blk arg none).note _) h₄ ?_ ?_⟩
        · exact fun _ _ hm => by simp at hm
        · exact ⟨none, by simp, mem_cons_self ..⟩
    · rw [unregisterOwn, if_neg hrow]
      exact hok _ [_] hd₂ h₂ hquiet ⟨_, hrow, mem_cons_self ..⟩

theorem safe_releaseArgument (hok : ∀ s' rel, Drift s s' → At site p e (rel ++ tr) s' → Quiet rel →
      (∀ blk, site.node = .block blk → Released vrfInterface (uint16 v) rel) → ok s' ())
    (herr : ∀ s' rel, Drift s s' → At site p e (rel ++ tr) s' → Quiet rel → err s' .release) :
    Safe site p a ok err (releaseArgument site.node vrfInterface v) s := by
  have hnil : Quiet [] := fun _ _ hm => nomatch hm
  cases hnode : site.node with
  | unconfigured => exact hok s [] (.refl s) h hnil fun blk hblk => absurd (hnode.symm.trans hblk) (by simp)
  | invalid => exact herr s [] (.refl s) h hnil
  | block blk =>
    have htable : ∀ t, Quiet [.table t] := fun _ _ _ hm => by simp at hm
    refine Pact.safe_except_bind (safe_tableID h (fun s₁ t hd₁ h₁ => ?_) fun s' hd h' => herr s' [] hd h' hnil)
    refine Pact.safe_except_bind (safe_openMaps h₁ (fun s₂ hd₂ h₂ => ?_) fun s' hd h' =>
      herr s' [_] (hd₁.trans hd) h' (htable t))
    have hd₂' := hd₁.trans hd₂
    refine Pact.safe_except_bind (safe_releaseRow h₂ (fun s₃ rel hd₃ h₃ hquiet hrow => ?_) fun s' rel hd h' hq =>
      herr s' (rel ++ [_]) (hd₂'.trans hd) (by rw [append_assoc]; exact h') (hq.append (htable t)))
    have hd₃' := hd₂'.trans hd₃
    refine safe_releaseRow h₃ (fun s₄ rel' hd₄ h₄ hquiet' hrow' => ?_) fun s' rel' hd h' hq =>
      herr s' (rel' ++ (rel ++ [_])) (hd₃'.trans hd) (by rw [append_assoc, append_assoc]; exact h')
        (hq.append (hquiet.append (htable t)))
    refine hok s₄ (rel' ++ (rel ++ [.table t])) (hd₃'.trans hd₄) (by rw [append_assoc, append_assoc]; exact h₄)
      (hquiet'.append (hquiet.append (htable t))) fun _ _ => ?_
    obtain ⟨row, hne, hm⟩ := hrow
    obtain ⟨row', hne', hm'⟩ := hrow'
    exact ⟨t, by simp, ⟨row, hne, by simp [hm]⟩, ⟨row', hne', by simp [hm']⟩⟩

end

end Rules

end Galactic.CniBgp
