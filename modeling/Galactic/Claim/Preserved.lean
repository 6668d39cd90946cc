import Galactic.Claim.Invariant
import Galactic.Lib.Entries
import Mathlib.Data.List.Nodup
import Mathlib.Data.List.Pairwise

/-!
# Forwarding claims: every step keeps the invariant

The steps of one process shrink its stakes; what its method does next is checked against the reply it got
(`resume_spec`, where a takeover is shown to find all stakes quiet). -/

set_option linter.unusedSectionVars false

namespace Galactic.Claim

open Drift List Function Option

variable {P K : Type} [DecidableEq P] [Field K] [LinearOrder K] [IsStrictOrderedRing K]

namespace State
variable {sys : P → Instance K} {s s' : State P K}

/-! ### Consequences of the store's invariant -/

theorem StoreInv.of_same (h : s.StoreInv) (hrecords : s'.records = s.records) (hhistory : s'.history = s.history)
    (hinc : s'.incarnations = s.incarnations) (hacquired : s'.acquired = s.acquired) : s'.StoreInv := by
  obtain ⟨now', records', history', incarnations', orphans', acquired', proc'⟩ := s'
  subst hrecords hhistory hinc hacquired
  exact ⟨h.current, h.versions, h.incarnations, h.latest, h.written, h.ordered⟩

theorem StoreInv.eq_of_version (h : s.StoreInv) {r r' : Record K} (hr : r ∈ s.history) (hr' : r' ∈ s.history)
    (hversion : r.version = r'.version) : r = r' :=
  inj_on_of_nodup_map h.versions hr hr' hversion

theorem StoreInv.owner_unique (h : s.StoreInv) {p q : P} {key inc : String} {epoch : UInt64}
    (hp : ⟨p, key, inc, epoch⟩ ∈ s.acquired) (hq : ⟨q, key, inc, epoch⟩ ∈ s.acquired) : p = q := by
  let Distinct (a b : Acquired P) : Prop := a.key = b.key → a.incarnation = b.incarnation → a.epoch ≠ b.epoch
  have : Std.Symm Distinct := ⟨fun a b hab hk hi => (hab hk.symm hi.symm).symm⟩
  have hdistinct : s.acquired.Pairwise Distinct :=
    h.ordered.imp fun {a b} hlt hk hi (heq : a.epoch = b.epoch) => absurd (hlt hk hi) (heq ▸ UInt64.lt_irrefl _)
  by_contra hne
  exact hdistinct.forall hp hq (fun heq => hne (congrArg Acquired.owner heq)) rfl rfl rfl

theorem StoreInv.base_eq (h : s.StoreInv) {key : String} {base cur : Record K} (hbase : base ∈ s.history)
    (hcur : s.records key = some cur) (hversion : cur.version = base.version) : cur = base :=
  h.eq_of_version (h.current key cur hcur).1 hbase hversion

/-! ### Putting a state together -/

section Step
variable (hclock : ∀ p, Monotone (sys p).clock)
include hclock

theorem Inv.of_evolves (hinv : s.Inv sys) (h : Evolves s s') (hstore : s'.StoreInv)
    (hprocs : ∀ p, s'.proc p = s.proc p ∨ s'.ProcInv sys p)
    (horphans : ∀ o ∈ s'.orphans, o ∈ s.orphans ∨ s'.SentInv sys o.1 o.2.1 o.2.2)
    (hkeys : ∀ key, SameAt s s' key ∨ s'.KeyInv sys key) : s'.Inv sys := by
  refine ⟨hstore, fun p => ?_, fun o ho => ?_, fun key => ?_⟩
  · rcases hprocs p with hsame | hp
    · exact h.procInv hclock hsame (List.Subset.refl (s.proc p).holding) (hinv.procs p)
    · exact hp
  · rcases horphans o ho with hold | hnew
    · exact h.sentInv hclock (hinv.orphans o hold)
    · exact hnew
  · rcases hkeys key with hsame | hnew
    · exact (hinv.keys key).of_same hclock h.now hsame
    · exact hnew

/-! ### Steps of one process -/

/-- What a method must show before it goes on. -/
def ActInv (sys : P → Instance K) (s : State P K) (p : P) : Act K → Prop
  | .call f req => s.FrameInv p f ∧ s.SentInv sys p f req
  | .granted l began =>
    (s.proc p).HasStake (Granted.stake ⟨l, began⟩) ∧ l.deadline ≤ (sys p).clock began + (sys p).params.duration ∧
      ∃ r ∈ s.history, r.key = l.key ∧ r.version = l.version ∧ r.released = false ∧ r.incarnation = l.incarnation ∧
        r.epoch = l.epoch
  | .failed _ _ => True
  | .released _ => True

variable {a : Act K}

omit hclock in
theorem hasStake_act {q : Proc K} {observed : Observed K} {st : Stake K}
    (hgranted : ∀ l began, a = .granted l began → q.HasStake (Granted.stake ⟨l, began⟩))
    (h : (q.act observed a).HasStake st) : q.HasStake st := by
  cases a with
  | granted l began =>
    rcases h with ⟨g, hg, rfl⟩ | ⟨f', r, began', hpc, -⟩
    · rcases mem_cons.mp hg with rfl | hg
      · exact hgranted l began rfl
      · exact .inl ⟨g, hg, rfl⟩
    · cases hpc
  | call | failed | released =>
    rcases h with hheld | ⟨f', r, began, hpc, -⟩
    · exact .inl hheld
    · cases hpc

section
variable {p : P} {q : Proc K} (hsub : ∀ st, q.HasStake st → (s.proc p).HasStake st)
include hsub

omit hclock in
theorem sameAt_setProc (key : String) : SameAt s (s.setProc p q) key := by
  refine ⟨rfl, fun p' st _ hst => ?_⟩
  by_cases hp : p' = p
  · subst hp
    rw [proc_setProc_self] at hst
    exact hsub st hst
  · rw [proc_setProc_of_ne _ hp] at hst
    exact hst

omit hclock in
theorem evolves_setProc : Evolves s (s.setProc p q) :=
  ⟨le_refl _, fun _ hr => hr, fun _ ha => ha, fun key => .inl (sameAt_setProc hsub key)⟩

theorem Inv.setProc (hinv : s.Inv sys) (hproc : (s.setProc p q).ProcInv sys p) : (s.setProc p q).Inv sys := by
  refine hinv.of_evolves hclock (evolves_setProc hsub) (hinv.store.of_same rfl rfl rfl rfl) (fun p' => ?_)
    (fun o ho => .inl ho) fun key => .inl (sameAt_setProc hsub key)
  by_cases hp : p' = p
  · subst hp
    exact .inr hproc
  · exact .inl (proc_setProc_of_ne _ hp _)

end

theorem Inv.act (hinv : s.Inv sys) {p : P} {observed : Observed K} (hact : s.ActInv sys p a)
    (hobs : ∀ key o, observed key = some o → s.ObservedInv sys p key o) :
    (s.setProc p ((s.proc p).act observed a)).Inv sys := by
  have hgranted : ∀ l began, a = .granted l began → (s.proc p).HasStake (Granted.stake ⟨l, began⟩) := by
    rintro l began rfl
    exact hact.1
  have hsub : ∀ st, ((s.proc p).act observed a).HasStake st → (s.proc p).HasStake st :=
    fun st hst => hasStake_act hgranted hst
  have hev := evolves_setProc hsub
  have hself : (s.setProc p ((s.proc p).act observed a)).proc p = (s.proc p).act observed a := proc_setProc_self ..
  have hold := hinv.procs p
  refine Inv.setProc hclock hsub hinv ⟨?_, ?_, ?_, ?_, ?_, ?_, ?_⟩ <;> rw [hself]
  · intro g hg
    have hfrom : g ∈ (s.proc p).leases ∨ ∃ l began, a = .granted l began ∧ g = ⟨l, began⟩ := by
      cases a with
      | granted l began =>
        rcases mem_cons.mp hg with rfl | hg
        · exact .inr ⟨l, began, rfl, rfl⟩
        · exact .inl hg
      | call | failed | released => exact .inl hg
    rcases hfrom with hg | ⟨l, began, rfl, rfl⟩
    · exact hold.leases g hg
    · exact ⟨(hold.stakes _ hact.1).2, hact.2.2⟩
  · intro g hg
    cases a with
    | granted =>
      rcases mem_cons.mp hg with rfl | hg
      · exact hact.2.1
      · exact hold.holding g hg
    | call | failed | released => exact hold.holding g hg
  · exact fun st hst => hold.stakes st (hsub st hst)
  · intro f c hpc
    cases a <;> cases hpc
    exact hev.frameInv (fun _ st hst => hsub st (hself ▸ hst)) hact.1
  · intro f req hpc
    cases a <;> cases hpc
    exact hev.sentInv hclock hact.2
  · intro f r hpc
    cases a <;> cases hpc
  · intro key o ho
    refine hev.observedInv (hobs key o ?_)
    cases a <;> exact ho

end Step

/-! ### What a method does next -/

section Resume
variable {params : Params K} (hparams : ∀ p, (sys p).params = params) (hvalid : params.validate = none)
  (hdrift : ∀ p, Drifts params.maxDrift (sys p).clock)

theorem drift_of_validate {params : Params K} (h : params.validate = none) :
    0 ≤ params.maxDrift ∧ params.maxDrift < 1 ∧ 0 ≤ params.margin := by
  unfold Params.validate at h
  split_ifs at h with hduration hmax hmargin
  simp only [not_or, not_lt, not_le] at hmax hmargin
  exact ⟨hmax.1, hmax.2.trans (by linarith), hmargin.1⟩

section
variable {p : P} {observed : Observed K} {key : String}
  (hobs : ∀ key o, observed key = some o → s.ObservedInv sys p key o)

include hobs

theorem observedInv_update {o : Observation K} (ho : s.ObservedInv sys p key o) :
    ∀ key' o', update observed key (some o) key' = some o' → s.ObservedInv sys p key' o' :=
  Entries.forall_update (fun _ h => some.inj h ▸ ho) fun key' _ => hobs key'

theorem observedInv_delete : ∀ key' o', update observed key none key' = some o' → s.ObservedInv sys p key' o' :=
  Entries.forall_update nofun fun key' _ => hobs key'

end

theorem Inv.observedInv_new (hinv : s.Inv sys) (p : P) {r : Record K} (hr : r ∈ s.history) :
    s.ObservedInv sys p r.key ⟨r.version, (sys p).clock s.now⟩ :=
  ⟨s.now, le_refl _, rfl, r, hr, rfl, rfl, fun _ q st _ hst => ((hinv.procs q).stakes st hst).1⟩

include hparams hvalid hdrift in
theorem Inv.waited_spec (hinv : s.Inv sys) {p : P} {observed : Observed K}
    (hobs : ∀ key o, observed key = some o → s.ObservedInv sys p key o) {r : Record K} (hr : r ∈ s.history) :
    (∀ key o, ((sys p).waited s.now observed r).2 key = some o → s.ObservedInv sys p key o) ∧
      (((sys p).waited s.now observed r).1 → s.records r.key = some r → s.Quiet sys r.key) := by
  have hnew := observedInv_update hobs (hinv.observedInv_new p hr)
  unfold Instance.waited
  rcases ho : observed r.key with _ | o
  · exact ⟨hnew, fun h => nomatch h⟩
  dsimp only
  split_ifs with hversion
  · refine ⟨hobs, fun hwaited hcur q st hkey hst hlive => ?_⟩
    obtain ⟨seen, hseen, hread, base, hbase, -, hbv, hafter⟩ := hobs r.key o ho
    obtain rfl := hinv.store.eq_of_version hbase hr (hbv.trans hversion)
    obtain ⟨hδ, hδ', hmargin⟩ := drift_of_validate hvalid
    have hwait := of_decide_eq_true hwaited
    rw [hread, Params.takeoverWait, hparams p] at hwait
    have hover := (hdrift q).over_of_waited (hdrift p) hδ hδ' hmargin (hafter hcur q st hkey hst) hseen hwait
    unfold Instance.Live at hlive
    rw [hparams q] at hlive
    exact absurd hlive (not_lt.mpr hover)
  · exact ⟨hnew, fun h => nomatch h⟩

theorem deadline_le {i : Instance K} {now start d : K} (h : i.deadline now start = .ok d) :
    d ≤ start + i.params.duration := by
  unfold Instance.deadline at h
  rcases hc : i.ceiling with _ | ceiling
  · rw [hc] at h
    exact (Except.ok.inj h).ge
  rcases hw : i.wall with _ | wall
  · rw [hc, hw] at h
    cases h
  rw [hc, hw] at h
  dsimp only at h
  split_ifs at h with hremaining hlt
  · cases h
    exact hlt.le
  · exact (Except.ok.inj h).ge

theorem actInv_lease {p : P} {f : Frame K} {r : Record K} {began : K} (hreplied : s.RepliedInv p f r)
    (hgrants : f.grants = some began) (hpc : (s.proc p).pc = .waiting f (.replied (.ok r))) :
    s.ActInv sys p ((sys p).lease s.now r began) := by
  unfold Instance.lease
  rcases hd : (sys p).deadline s.now ((sys p).clock began) with e | d
  · trivial
  · exact ⟨.inr ⟨f, r, began, hpc, hgrants, rfl⟩, deadline_le hd, r, hreplied.1, rfl, rfl,
      (hreplied.2.2 began hgrants).1, rfl, rfl⟩

theorem actInv_takeover {p : P} {key : String} {began : K} {r : Record K} (hbegan : began ≤ s.now) (hr : r ∈ s.history)
    (hkey : r.key = key) (hquiet : s.records key = some r → s.Quiet sys key) :
    s.ActInv sys p (.call (.acquireUpdate key began) (.update ((sys p).takeover key began r))) :=
  ⟨hbegan, rfl, rfl, r, hr, hkey, rfl, rfl, rfl, hquiet⟩

theorem KeyInv.quiet_of_released {key : String} (h : s.KeyInv sys key) {r : Record K} (hcur : s.records key = some r)
    (hreleased : r.released) : s.Quiet sys key := by
  intro p st hkey hst hlive
  rw [(h.titled r hcur p st hkey hst hlive).1] at hreleased
  cases hreleased

include hparams hvalid hdrift in
theorem Inv.resume_spec (hinv : s.Inv sys) {p : P} {f : Frame K} {c : Call K} (hpc : (s.proc p).pc = .waiting f c)
    {reply : Except Err (Record K)} (hreply : ∀ r, reply = .ok r → c = .replied (.ok r)) (text : String) :
    s.ActInv sys p ((sys p).resume s.now text (s.proc p).observed f reply).1 ∧
      ∀ key o, ((sys p).resume s.now text (s.proc p).observed f reply).2 key = some o → s.ObservedInv sys p key o := by
  have hobs := (hinv.procs p).observed
  have hframe := (hinv.procs p).frame f c hpc
  rcases reply with e | r
  · cases f with
    | acquireGet => rcases e <;> first | exact ⟨trivial, hobs⟩ | exact ⟨⟨trivial, rfl, rfl, rfl⟩, hobs⟩
    | acquireCreate => exact ⟨trivial, observedInv_delete hobs⟩
    | renewUpdate => rcases e <;> first | exact ⟨trivial, hobs⟩ | exact ⟨⟨hframe, rfl⟩, hobs⟩
    | acquireUpdate | renewGet | renewRetry | releaseGet | releaseUpdate => exact ⟨trivial, hobs⟩
  obtain rfl := hreply r rfl
  have hreplied := (hinv.procs p).replied f r hpc
  have hr := hreplied.1
  have hkey := hreplied.2.1
  rcases f with ⟨key, began⟩ | key | ⟨key, began⟩ | ⟨l, began⟩ | ⟨l, began⟩ | ⟨l, began⟩ | l | l
  · simp only [Instance.resume]
    obtain rfl : r.key = key := hkey
    split_ifs with hreleased
    · exact ⟨actInv_takeover hframe hr rfl fun hcur => (hinv.keys _).quiet_of_released hcur hreleased, hobs⟩
    obtain ⟨hobs', hquiet⟩ := hinv.waited_spec hparams hvalid hdrift hobs hr
    rcases hw : (sys p).waited s.now (s.proc p).observed r with ⟨_ | _, observed⟩
    · rw [hw] at hobs'
      exact ⟨trivial, hobs'⟩
    · rw [hw] at hobs' hquiet
      exact ⟨actInv_takeover hframe hr rfl (hquiet rfl), hobs'⟩
  · exact ⟨trivial, (hinv.waited_spec hparams hvalid hdrift (observedInv_delete hobs) hr).1⟩
  · exact ⟨actInv_lease hreplied rfl hpc, observedInv_delete hobs⟩
  · exact ⟨actInv_lease hreplied rfl hpc, hobs⟩
  · simp only [Instance.resume]
    split_ifs with hlost
    · exact ⟨trivial, hobs⟩
    · simp only [not_or, ne_eq, not_not, Bool.not_eq_true] at hlost
      exact ⟨⟨hframe, hframe.2, rfl, rfl, rfl, rfl, r, hr, hkey, rfl, hlost.2.2.2, hlost.1, hlost.2.1⟩, hobs⟩
  · exact ⟨actInv_lease hreplied rfl hpc, hobs⟩
  · simp only [Instance.resume]
    split_ifs with hother
    · exact ⟨trivial, hobs⟩
    · simp only [not_or, ne_eq, not_not] at hother
      exact ⟨⟨hframe.1, hframe.1, r, hr, rfl, hkey, hother.1, hother.2.1, fun _ => hframe.2⟩, hobs⟩
  · exact ⟨trivial, hobs⟩

end Resume

/-! ### Writes of the store -/

/-- What the store did with a request: nothing, or it wrote the record under a new version. -/
inductive Handled (s : State P K) (p : P) (f : Frame K) (version : String) :
    Request K → Except Err (Record K) → State P K → Prop
  | read {key : String} {r : Record K} (hcur : s.records key = some r) : Handled s p f version (.get key) (.ok r) s
  | refused {req : Request K} {e : Err} : Handled s p f version req (.error e) s
  | created {r : Record K} (hnone : s.records r.key = none) (hfresh : version ∉ s.versions)
      (hinc : r.incarnation ∉ s.incarnations) :
      Handled s p f version (.create r) (.ok { r with version := version })
        { s.write { r with version := version } with incarnations := r.incarnation :: s.incarnations }
  | updated {r cur : Record K} (hcur : s.records r.key = some cur) (hversion : cur.version = r.version)
      (hfresh : version ∉ s.versions) :
      Handled s p f version (.update r) (.ok { r with version := version })
        { s.write { r with version := version } with
          acquired := if f.acquires then ⟨p, r.key, r.incarnation, r.epoch⟩ :: s.acquired else s.acquired }

theorem handled_of_handle {p : P} {f : Frame K} {version : String} {req : Request K} {reply : Except Err (Record K)}
    (h : s.handle p f version req = some (reply, s')) : Handled s p f version req reply s' := by
  revert h
  fun_cases handle s p f version req with
  | case1 key r hcur =>
    rintro ⟨⟩
    exact .read hcur
  | case2 | case3 | case6 | case7 =>
    rintro ⟨⟩
    exact .refused
  | case4 | case8 => nofun
  | case5 r hcur hused =>
    rintro ⟨⟩
    rw [not_or] at hused
    exact .created hcur hused.1 hused.2
  | case9 r cur hcur hversion hused =>
    rintro ⟨⟩
    exact .updated hcur (not_not.mp hversion) hused

section Write
variable {p : P} {f : Frame K} {version : String} {req : Request K} {reply : Except Err (Record K)}

variable {cur : Record K}

theorem Inv.sentInv_base (hinv : s.Inv sys) {r : Record K} (hsent : s.SentInv sys p f (.update r))
    (hcur : s.records r.key = some cur) (hversion : cur.version = r.version) :
    r.key = f.key ∧ r.incarnation = cur.incarnation ∧
    ((∃ began, f = .acquireUpdate r.key began ∧ r.released = false ∧ r.epoch = cur.epoch + 1 ∧ s.Quiet sys r.key) ∨
      (∃ l, f.acquires = false ∧ f.grants.isSome ∧ s.Titled p l ∧ l.key = r.key ∧
        l.incarnation = cur.incarnation ∧ l.epoch = cur.epoch ∧ r.released = false ∧ cur.released = false ∧
        r.epoch = cur.epoch) ∨
      (∃ l, f = .releaseUpdate l ∧ s.Titled p l ∧ l.key = r.key ∧ l.incarnation = cur.incarnation ∧
        l.epoch = cur.epoch ∧ r.epoch = cur.epoch ∧ ∀ st, st.key = r.key → ¬(s.proc p).HasStake st)) := by
  cases f with
  | acquireGet | acquireCreate | renewGet | releaseGet => exact hsent.elim
  | acquireUpdate key began =>
    obtain ⟨rfl, hrel, base, hbase, -, hbv, hinc, hepoch, hquiet⟩ := hsent
    obtain rfl := hinv.store.base_eq hbase hcur (hversion.trans hbv.symm)
    exact ⟨rfl, hinc, .inl ⟨began, rfl, hrel, hepoch, hquiet hcur⟩⟩
  | renewUpdate l | renewRetry l =>
    obtain ⟨htitle, hkey, hrel, hinc, hepoch, base, hbase, -, hbv, hbrel, hbinc, hbepoch⟩ := hsent
    obtain rfl := hinv.store.base_eq hbase hcur (hversion.trans hbv.symm)
    exact ⟨hkey, hinc.trans hbinc.symm, .inr (.inl ⟨l, rfl, rfl, htitle, hkey.symm, hbinc.symm, hbepoch.symm, hrel,
      hbrel, hepoch.trans hbepoch.symm⟩)⟩
  | releaseUpdate l =>
    obtain ⟨htitle, base, hbase, rfl, hkey, hbinc, hbepoch, hnone⟩ := hsent
    obtain rfl := hinv.store.base_eq hbase hcur hversion
    refine ⟨hkey, rfl, .inr (.inr ⟨l, rfl, htitle, hkey.symm, hbinc.symm, hbepoch.symm, rfl, ?_⟩)⟩
    intro st hst
    exact hnone (by rw [← hkey]; exact hcur) st (hst.trans hkey)

theorem Inv.owner_of_live (hinv : s.Inv sys) {key : String} (hcur : s.records key = some cur) {l : Lease K}
    (htitle : s.Titled p l) (hkey : l.key = key) (hinc : l.incarnation = cur.incarnation) (hepoch : l.epoch = cur.epoch)
    {q : P} {st : Stake K} (hst : st.key = key) (hhas : (s.proc q).HasStake st) (hlive : (sys q).Live s.now st) :
    q = p ∧ st.incarnation = cur.incarnation ∧ st.epoch = cur.epoch := by
  have hzero : cur.epoch ≠ 0 := by
    rw [← hepoch]
    exact (hinv.store.written _ htitle).1
  rcases ((hinv.keys key).titled cur hcur q st hst hhas hlive).2 with ⟨hi, he⟩ | h0
  · have hq := ((hinv.procs q).stakes st hhas).2
    unfold Titled at htitle
    rw [hst, hi, he] at hq
    rw [hkey, hinc, hepoch] at htitle
    exact ⟨hinv.store.owner_unique hq htitle, hi, he⟩
  · exact absurd h0 hzero

theorem lt_epoch_succ {e : UInt64} (h : e + 1 ≠ 0) : e < e + 1 := by
  rw [Ne, ← UInt64.toNat_inj] at h
  rw [UInt64.lt_iff_toNat_lt]
  simp only [UInt64.toNat_add, UInt64.toNat_one, UInt64.toNat_zero] at h ⊢
  have := e.toNat_lt
  omega

theorem Inv.epoch_le (hinv : s.Inv sys) {r : Record K} (hsent : s.SentInv sys p f (.update r))
    (hcur : s.records r.key = some cur) (hversion : cur.version = r.version) (hne : f.acquires → r.epoch ≠ 0) :
    cur.epoch ≤ r.epoch ∧ (f.acquires → cur.epoch < r.epoch) := by
  obtain ⟨-, -, ⟨began, rfl, -, hepoch, -⟩ | ⟨l, hacq, -, -, -, -, -, -, -, hepoch⟩ |
      ⟨l, rfl, -, -, -, -, hepoch, -⟩⟩ :=
    hinv.sentInv_base hsent hcur hversion
  · rw [hepoch] at hne ⊢
    have hlt := lt_epoch_succ (hne rfl)
    exact ⟨UInt64.le_of_lt hlt, fun _ => hlt⟩
  · rw [hepoch, hacq]
    exact ⟨UInt64.le_refl _, fun h => nomatch h⟩
  · rw [hepoch]
    exact ⟨UInt64.le_refl _, fun h => nomatch h⟩

theorem StoreInv.wrote (h : s.StoreInv) {r : Record K} (hrecords : s'.records = update s.records r.key (some r))
    (hhistory : s'.history = r :: s.history) (hfresh : r.version ∉ s.versions)
    (hincs : ∀ i ∈ s.incarnations, i ∈ s'.incarnations) (hinc : r.incarnation ∈ s'.incarnations)
    (hlatest : ∀ r' ∈ s.history, r'.key = r.key → r'.incarnation = r.incarnation → r'.epoch ≤ r.epoch)
    (hwritten : ∀ a ∈ s'.acquired, a ∈ s.acquired ∨ a.epoch ≠ 0 ∧ r.key = a.key ∧ r.incarnation = a.incarnation ∧
      r.epoch = a.epoch) (hordered : s'.acquired.Pairwise fun later earlier => later.key = earlier.key →
      later.incarnation = earlier.incarnation → earlier.epoch < later.epoch) : s'.StoreInv := by
  have hself : s'.records r.key = some r := by rw [hrecords, update_self]
  have hother : ∀ key, key ≠ r.key → s'.records key = s.records key := fun key hkey => by
    rw [hrecords, update_of_ne hkey]
  refine ⟨?_, ?_, ?_, ?_, ?_, hordered⟩
  · intro key r' hr'
    rw [hhistory]
    by_cases hkey : key = r.key
    · subst hkey
      obtain rfl := mem_unique hself hr'
      exact ⟨mem_cons_self, rfl⟩
    · rw [hother key hkey] at hr'
      exact ⟨mem_cons_of_mem _ (h.current key r' hr').1, (h.current key r' hr').2⟩
  · rw [State.versions, hhistory]
    exact nodup_cons.mpr ⟨hfresh, h.versions⟩
  · rw [hhistory]
    exact forall_mem_cons.mpr ⟨hinc, fun r' hr' => hincs _ (h.incarnations r' hr')⟩
  · intro key cur hcur r' hr' hkey' hinc'
    rw [hhistory] at hr'
    by_cases hkey : key = r.key
    · subst hkey
      obtain rfl := mem_unique hself hcur
      rcases mem_cons.mp hr' with rfl | hr'
      · exact UInt64.le_refl _
      · exact hlatest r' hr' hkey' hinc'
    · rw [hother key hkey] at hcur
      rcases mem_cons.mp hr' with rfl | hr'
      · exact absurd hkey'.symm hkey
      · exact h.latest key cur hcur r' hr' hkey' hinc'
  · intro a ha
    rw [hhistory]
    rcases hwritten a ha with ha | ⟨hne, hrest⟩
    · obtain ⟨hne, r', hr', hrest⟩ := h.written a ha
      exact ⟨hne, r', mem_cons_of_mem _ hr', hrest⟩
    · exact ⟨hne, r, mem_cons_self, hrest⟩

theorem Handled.storeInv (h : Handled s p f version req reply s') (hinv : s.Inv sys) (hsent : s.SentInv sys p f req)
    (hb : s'.Unwrapped) : s'.StoreInv := by
  rcases h with ⟨hcur⟩ | _ | ⟨hnone, hfresh, hinc⟩ | @⟨r, cur, hcur, hversion, hfresh⟩
  · exact hinv.store
  · exact hinv.store
  · refine hinv.store.wrote rfl rfl hfresh (fun i hi => mem_cons_of_mem _ hi) mem_cons_self ?_
      (fun a ha => .inl ha) hinv.store.ordered
    intro r' hr' _ hinc'
    exact absurd (hinc' ▸ hinv.store.incarnations r' hr') hinc
  have hne : f.acquires → r.epoch ≠ 0 := fun hacq => hb ⟨p, r.key, r.incarnation, r.epoch⟩ (by simp [hacq])
  obtain ⟨hle, hlt⟩ := hinv.epoch_le hsent hcur hversion hne
  have hinc := (hinv.sentInv_base hsent hcur hversion).2.1
  have hlatest : ∀ r' ∈ s.history, r'.key = r.key → r'.incarnation = r.incarnation → r'.epoch ≤ cur.epoch :=
    fun r' hr' hk hi => hinv.store.latest _ cur hcur r' hr' hk (hi.trans hinc)
  refine hinv.store.wrote rfl rfl hfresh (fun i hi => hi) ?_
    (fun r' hr' hk hi => UInt64.le_trans (hlatest r' hr' hk hi) hle) ?_ ?_
  · exact hinc ▸ hinv.store.incarnations cur (hinv.store.current _ cur hcur).1
  · intro a ha
    split_ifs at ha with hacq
    · rcases mem_cons.mp ha with rfl | ha
      · exact .inr ⟨hne hacq, rfl, rfl, rfl⟩
      · exact .inl ha
    · exact .inl ha
  split_ifs with hacq
  · -- the new epoch is above that of the record, and the record's above all that were acquired
    refine pairwise_cons.mpr ⟨fun b hb' hk hi => ?_, hinv.store.ordered⟩
    obtain ⟨-, r', hr', hk', hi', he'⟩ := hinv.store.written b hb'
    rw [← he']
    exact UInt64.lt_of_le_of_lt (hlatest r' hr' (hk'.trans hk.symm) (hi'.trans hi.symm)) (hlt hacq)
  · exact hinv.store.ordered

/-- The stakes after a request took effect: those before, and the one that its answer promises. -/
def StakesFrom (s s₂ : State P K) (p : P) (f : Frame K) (reply : Except Err (Record K)) : Prop :=
  ∀ q st, (s₂.proc q).HasStake st → (s.proc q).HasStake st ∨
    q = p ∧ ∃ r began, reply = .ok r ∧ f.grants = some began ∧ r.stake began = st

section
variable (h : Handled s p f version req reply s')

include h

theorem Handled.same : s'.proc = s.proc ∧ s'.now = s.now := by
  rcases h with _ | _ | _ | _ <;> exact ⟨rfl, rfl⟩

variable (hsent : s.SentInv sys p f req) {s₂ : State P K} (hrecords : s₂.records = s'.records)
  (hstakes : StakesFrom s s₂ p f reply)

include hsent hrecords hstakes

theorem Handled.key_cases (key : String) : SameAt s s₂ key ∨
    ∃ r, r.version = version ∧ version ∉ s.versions ∧ r.key = key ∧ s₂.records key = some r ∧ reply = .ok r := by
  have hwrote : ∀ r : Record K, r.version = version → version ∉ s.versions → reply = .ok r →
      s'.records = update s.records r.key (some r) →
      SameAt s s₂ key ∨
      ∃ r, r.version = version ∧ version ∉ s.versions ∧ r.key = key ∧ s₂.records key = some r ∧ reply = .ok r := by
    intro r hv hfresh hreply hupdate
    by_cases hkey : key = r.key
    · right
      subst hkey
      exact ⟨r, hv, hfresh, rfl, by rw [hrecords, hupdate, update_self], hreply⟩
    left
    refine ⟨by rw [hrecords, hupdate, update_of_ne hkey], fun q st hst hhas => ?_⟩
    rcases hstakes q st hhas with hold | ⟨-, r', began, hr', -, rfl⟩
    · exact hold
    · obtain rfl := Except.ok.inj (hreply.symm.trans hr')
      exact absurd hst.symm hkey
  rcases h with @⟨k, r, hcur⟩ | _ | ⟨hnone, hfresh, hinc⟩ | ⟨hcur, hversion, hfresh⟩
  · refine .inl ⟨by rw [hrecords], fun q st _ hhas => ?_⟩
    rcases hstakes q st hhas with hold | ⟨-, r', began, -, hgrants, -⟩
    · exact hold
    · rcases f <;> first | exact hsent.elim | cases hgrants
  · refine .inl ⟨by rw [hrecords], fun q st _ hhas => ?_⟩
    rcases hstakes q st hhas with hold | ⟨-, r', began, hr', -⟩
    · exact hold
    · cases hr'
  · exact hwrote _ rfl hfresh rfl rfl
  · exact hwrote _ rfl hfresh rfl rfl

theorem Handled.evolves (hnow : s₂.now = s.now) (hhistory : s₂.history = s'.history)
    (hacquired : s₂.acquired = s'.acquired) : Evolves s s₂ := by
  refine ⟨hnow.ge, ?_, ?_, fun key => ?_⟩
  · intro r hr
    rw [hhistory]
    rcases h with _ | _ | _ | _
    · exact hr
    · exact hr
    · exact mem_cons_of_mem _ hr
    · exact mem_cons_of_mem _ hr
  · intro a ha
    rw [hacquired]
    rcases h with _ | _ | _ | _
    · exact ha
    · exact ha
    · exact ha
    · split_ifs
      · exact mem_cons_of_mem _ ha
      · exact ha
  · rcases h.key_cases hsent hrecords hstakes key with hsame | ⟨r, hv, hfresh, -, hcur, -⟩
    · exact .inl hsame
    · refine .inr fun r' hr' heq => hfresh ?_
      obtain rfl := mem_unique hcur heq
      exact hv ▸ mem_map_of_mem hr'

theorem Handled.keyInv (hinv : s.Inv sys) (hnow : s₂.now = s.now) (key : String) :
    SameAt s s₂ key ∨ s₂.KeyInv sys key := by
  rcases h.key_cases hsent hrecords hstakes key with hsame | ⟨r', hv, hfresh, hkey, hcur', hreply⟩
  · exact .inl hsame
  right
  subst hkey
  rcases h with ⟨hcur⟩ | _ | @⟨r, hnone, -, hinc⟩ | @⟨r, cur, hcur, hversion, -⟩
  · cases hreply
    exact absurd (hv ▸ mem_map_of_mem (hinv.store.current _ _ hcur).1) hfresh
  · cases hreply
  · cases hreply
    rcases f with _ | key | _ | _ | _ | _ | _ | _ <;> try exact hsent.elim
    obtain ⟨-, hepoch, hrel⟩ := hsent
    have hold : ∀ q st, (s₂.proc q).HasStake st → (s.proc q).HasStake st := by
      intro q st hhas
      rcases hstakes q st hhas with hold | ⟨-, r', began', -, hgrants, -⟩
      · exact hold
      · cases hgrants
    refine ⟨fun cur hcur p st _ _ _ => ?_, fun p q st st' hk hk' hst hst' hlive hlive' => ?_⟩
    · obtain rfl := mem_unique hcur' hcur
      exact ⟨hrel, .inr hepoch⟩
    · rw [hnow] at hlive hlive'
      exact (hinv.keys _).exclusive p q st st' hk hk' (hold p st hst) (hold q st' hst') hlive hlive'
  · cases hreply
    -- every live stake is that of `p`, in the epoch of the record; a release leaves none
    have hlives : ∀ q st, st.key = r.key → (s₂.proc q).HasStake st → (sys q).Live s₂.now st →
        q = p ∧ r.released = false ∧ st.incarnation = r.incarnation ∧ st.epoch = r.epoch := by
      intro q st hk hhas hlive
      rw [hnow] at hlive
      obtain ⟨-, hinc, ⟨began, rfl, hrel, hepoch, hquiet⟩ | ⟨l, -, -, htitle, hlk, hli, hle, hrel, -, hepoch⟩ |
        ⟨l, rfl, htitle, hlk, hli, hle, hepoch, hnone⟩⟩ := hinv.sentInv_base hsent hcur hversion
      · rcases hstakes q st hhas with hold | ⟨rfl, r', began', hr', -, rfl⟩
        · exact absurd hlive (hquiet q st hk hold)
        · cases hr'
          exact ⟨rfl, hrel, rfl, rfl⟩
      · rcases hstakes q st hhas with hold | ⟨rfl, r', began', hr', -, rfl⟩
        · obtain ⟨rfl, hi, he⟩ := hinv.owner_of_live hcur htitle hlk hli hle hk hold hlive
          exact ⟨rfl, hrel, hi.trans hinc.symm, he.trans hepoch.symm⟩
        · cases hr'
          exact ⟨rfl, hrel, rfl, rfl⟩
      · rcases hstakes q st hhas with hold | ⟨-, r', began', -, hgrants, -⟩
        · obtain ⟨rfl, -, -⟩ := hinv.owner_of_live hcur htitle hlk hli hle hk hold hlive
          exact absurd hold (hnone st hk)
        · cases hgrants
    refine ⟨fun cur hcur p st hk hhas hlive => ?_, fun p q st st' hk hk' hst hst' hlive hlive' => ?_⟩
    · obtain rfl := mem_unique hcur' hcur
      obtain ⟨-, hrel, hi, he⟩ := hlives p st hk hhas hlive
      exact ⟨hrel, .inl ⟨hi, he⟩⟩
    · exact (hlives p st hk hst hlive).1.trans (hlives q st' hk' hst' hlive').1.symm

end

end Write

/-! ### All steps -/

theorem Inv.initial (t₀ : K) : (State.initial t₀ : State P K).Inv sys := by
  have hnone : ∀ (p : P) (st : Stake K), ¬((State.initial t₀ : State P K).proc p).HasStake st := by
    rintro p st (⟨g, hg, -⟩ | ⟨f, r, began, hpc, -⟩)
    · cases hg
    · cases hpc
  have hstore : (State.initial t₀ : State P K).StoreInv := by
    refine ⟨?_, nodup_nil, ?_, ?_, ?_, List.Pairwise.nil⟩ <;> intros <;> contradiction
  have hprocs : ∀ p, (State.initial t₀ : State P K).ProcInv sys p := by
    intro p
    refine ⟨?_, ?_, fun st hst => absurd hst (hnone p st), ?_, ?_, ?_, ?_⟩ <;> intros <;> contradiction
  refine ⟨hstore, hprocs, fun o ho => absurd ho not_mem_nil, fun key => ⟨?_, ?_⟩⟩
  · intro cur hcur
    cases hcur
  · intro p q st st' _ _ hst
    exact absurd hst (hnone p st)

section
variable {req : Request K} (hclock : ∀ p, Monotone (sys p).clock) (hinv : s.Inv sys)
include hclock hinv

theorem Inv.begin {p : P} {a : Act K} (hact : s.ActInv sys p a) : (s.begin p a).Inv sys :=
  hinv.act hclock hact (hinv.procs p).observed

theorem Inv.orphan {p : P} {f : Frame K} (hsent : s.SentInv sys p f req) :
    Inv sys { s with orphans := (p, f, req) :: s.orphans } := by
  have hev : Evolves s { s with orphans := (p, f, req) :: s.orphans } :=
    ⟨le_refl _, fun r h => h, fun a h => h, fun key => .inl ⟨rfl, fun _ _ _ h => h⟩⟩
  refine hinv.of_evolves hclock hev (hinv.store.of_same rfl rfl rfl rfl) (fun p => .inl rfl) (fun o ho => ?_)
    fun key => .inl ⟨rfl, fun _ _ _ h => h⟩
  rcases mem_cons.mp ho with rfl | ho
  · exact .inr (hev.sentInv hclock hsent)
  · exact .inl ho

theorem Inv.serve {p : P} {f : Frame K} {version : String} {reply : Except Err (Record K)}
    (hpc : (s.proc p).pc = .waiting f (.sent req)) (h : Handled s p f version req reply s') (hb : s'.Unwrapped) :
    (s'.setProc p { s'.proc p with pc := .waiting f (.replied reply) }).Inv sys := by
  have hold := hinv.procs p
  have hsent := hold.sent f req hpc
  have hframe := hold.frame f _ hpc
  obtain ⟨hproc, hnow⟩ := h.same
  have hself : (s'.setProc p { s'.proc p with pc := .waiting f (.replied reply) }).proc p =
      { s.proc p with pc := .waiting f (.replied reply) } := by
    rw [proc_setProc_self, hproc]
  have hstakes : StakesFrom s (s'.setProc p { s'.proc p with pc := .waiting f (.replied reply) }) p f reply := by
    intro q st hst
    by_cases hq : q = p
    · subst hq
      rw [hself] at hst
      rcases hst with hheld | ⟨f', r, began, hpc', hgrants, hstake⟩
      · exact .inl (.inl hheld)
      · cases hpc'
        exact .inr ⟨rfl, r, began, rfl, hgrants, hstake⟩
    · rw [proc_setProc_of_ne _ hq, hproc] at hst
      exact .inl hst
  have hev := h.evolves hsent (by rfl) hstakes hnow rfl rfl
  -- an answer that makes a lease is that of a write, which has the title
  have hreplied : ∀ r, reply = .ok r → s'.RepliedInv p f r := by
    rintro r rfl
    rcases h with @⟨key, r, hcur⟩ | _ | @⟨r, hnone, hfresh, hinc⟩ | @⟨r, cur, hcur, hversion, hfresh⟩
    · obtain ⟨hr, hkey⟩ := hinv.store.current key r hcur
      rcases f <;> first | exact hsent.elim | exact ⟨hr, hkey.trans hsent, fun began hgrants => nomatch hgrants⟩
    · rcases f with _ | key | _ | _ | _ | _ | _ | _ <;> try exact hsent.elim
      exact ⟨mem_cons_self, hsent.1, fun began hgrants => nomatch hgrants⟩
    obtain ⟨hkey, hinc, hcases⟩ := hinv.sentInv_base hsent hcur hversion
    refine ⟨mem_cons_self, hkey, fun began hgrants => ?_⟩
    rcases hcases with ⟨began', rfl, hrel, -⟩ | ⟨l, hacq, -, htitle, hlk, hli, hle, hrel, -, hepoch⟩ | ⟨l, rfl, -⟩
    · exact ⟨hrel, mem_cons_self⟩
    · refine ⟨hrel, ?_⟩
      rw [hacq, hinc, hepoch, ← hlk, ← hli, ← hle]
      exact htitle
    · cases hgrants
  refine hinv.of_evolves hclock hev ((h.storeInv hinv hsent hb).of_same rfl rfl rfl rfl) (fun q => ?_) (fun o ho => ?_)
    (h.keyInv hsent rfl hstakes hinv hnow)
  · by_cases hq : q = p
    · right
      subst hq
      refine ⟨?_, ?_, fun st hst => ?_, ?_, ?_, ?_, ?_⟩
      all_goals try rw [hself]
      · intro g hg
        obtain ⟨htitle, r, hr, hrest⟩ := hold.leases g hg
        exact ⟨hev.acquired _ htitle, r, hev.history _ hr, hrest⟩
      · exact hold.holding
      · rcases hstakes q st hst with hst | ⟨-, r, began, hr, hgrants, rfl⟩
        · exact ⟨(hold.stakes st hst).1.trans hev.now, hev.acquired _ (hold.stakes st hst).2⟩
        refine ⟨?_, ((hreplied r hr).2.2 began hgrants).2⟩
        refine le_trans ?_ hev.now
        rcases f <;> cases hgrants
        · exact hframe
        · exact hframe.1
        · exact hframe.1
      · intro f' c hpc'
        cases hpc'
        refine hev.frameInv (fun hgrants st hst => ?_) hframe
        rcases hstakes q st hst with hst | ⟨-, r, began, -, hgrants', -⟩
        · exact hst
        · cases hgrants.symm.trans hgrants'
      · intro f' req' hpc'
        cases hpc'
      · intro f' r hpc'
        cases hpc'
        exact hreplied r rfl
      · exact fun key o ho => hev.observedInv (hold.observed key o ho)
    · left
      rw [proc_setProc_of_ne _ hq, hproc]
  · left
    rcases h with _ | _ | _ | _ <;> exact ho

theorem Inv.land {p : P} {f : Frame K} {version : String} {reply : Except Err (Record K)} {i : Nat}
    (horphan : (p, f, req) ∈ s.orphans) (h : Handled s p f version req reply s') (hb : s'.Unwrapped) :
    Inv sys { s' with orphans := s'.orphans.eraseIdx i } := by
  have hsent := hinv.orphans _ horphan
  obtain ⟨hproc, hnow⟩ := h.same
  have hstakes : StakesFrom s { s' with orphans := s'.orphans.eraseIdx i } p f reply := by
    intro q st hst
    rw [hproc] at hst
    exact .inl hst
  refine hinv.of_evolves hclock (h.evolves hsent rfl hstakes hnow rfl rfl)
    ((h.storeInv hinv hsent hb).of_same rfl rfl rfl rfl) (fun q => .inl (congrFun hproc q)) (fun o ho => .inl ?_)
    (h.keyInv hsent rfl hstakes hinv hnow)
  have hmem := mem_of_mem_eraseIdx ho
  rcases h with _ | _ | _ | _ <;> exact hmem

theorem Inv.delete (key : String) : Inv sys { s with records := update s.records key none } := by
  have hself : update s.records key none key = none := update_self ..
  have hother : ∀ k, k ≠ key → update s.records key none k = s.records k := fun k hk => update_of_ne hk ..
  have hsub : ∀ k r, update s.records key none k = some r → s.records k = some r := by
    intro k r hr
    by_cases hk : k = key
    · subst hk
      cases hself.symm.trans hr
    · exact hother k hk ▸ hr
  refine hinv.of_evolves hclock ⟨le_refl _, fun r hr => hr, fun a ha => ha, fun k => ?_⟩ ?_
    (fun p => .inl rfl) (fun o ho => .inl ho) (fun k => ?_)
  · by_cases hk : k = key
    · subst hk
      exact .inr fun r _ heq => nomatch hself.symm.trans heq
    · exact .inl ⟨hother k hk, fun _ _ _ hst => hst⟩
  · obtain ⟨hcurrent, hversions, hincs, hlatest, hwritten, hordered⟩ := hinv.store
    exact ⟨fun k r hr => hcurrent k r (hsub k r hr), hversions, hincs,
      fun k cur hcur => hlatest k cur (hsub k cur hcur), hwritten, hordered⟩
  by_cases hk : k = key
  · subst hk
    exact .inr ⟨fun cur hcur => (nomatch hself.symm.trans hcur), (hinv.keys k).exclusive⟩
  · exact .inl ⟨hother k hk, fun _ _ _ hst => hst⟩

theorem Inv.stop (p : P) (key : String) :
    Inv sys (s.setProc p { s.proc p with holding := (s.proc p).holding.filter fun g => g.lease.key ≠ key }) := by
  have hfewer : (s.proc p).holding.filter (fun g => g.lease.key ≠ key) ⊆ (s.proc p).holding := filter_sublist.subset
  have hsub := (s.proc p).hasStake_of_holding hfewer
  exact Inv.setProc hclock hsub hinv
    ((evolves_setProc hsub).procInv hclock (proc_setProc_self ..) hfewer (hinv.procs p))

end

section All
variable {params : Params K} (hparams : ∀ p, (sys p).params = params) (hvalid : params.validate = none)
  (hdrift : ∀ p, Drifts params.maxDrift (sys p).clock)

include hvalid hdrift in
theorem clock_mono (p : P) : Monotone (sys p).clock :=
  fun _ _ hst => (hdrift p).mono (drift_of_validate hvalid).2.1.le hst

include hparams hvalid hdrift

theorem Inv.resume (hinv : s.Inv sys) {p : P} {f : Frame K} {c : Call K} (hpc : (s.proc p).pc = .waiting f c)
    {reply : Except Err (Record K)} (hreply : ∀ r, reply = .ok r → c = .replied (.ok r)) (text : String) :
    (s.resume sys p text f reply).Inv sys := by
  obtain ⟨hact, hobs⟩ := hinv.resume_spec hparams hvalid hdrift hpc hreply text
  exact hinv.act (clock_mono hvalid hdrift) hact hobs

/-- **Step.** -/
theorem Inv.step (hinv : s.Inv sys) {e : Event P K} (h : s.step sys e = some s') (hb : s'.Unwrapped) : s'.Inv sys := by
  have hclock := clock_mono hvalid hdrift
  rcases e with t | ⟨p, key⟩ | ⟨p, l⟩ | ⟨p, l⟩ | ⟨p, version⟩ | ⟨p, text⟩ | ⟨p, e, text⟩ |
      ⟨i, version⟩ | key | ⟨p, key⟩ <;>
    simp only [State.step] at h
  · split_ifs at h with ht
    cases h
    exact hinv.of_evolves hclock
      ⟨ht, fun r hr => hr, fun a ha => ha, fun key => .inl ⟨rfl, fun _ _ _ hst => hst⟩⟩
      (hinv.store.of_same rfl rfl rfl rfl) (fun p => .inl rfl) (fun o ho => .inl ho)
      (fun key => .inl ⟨rfl, fun _ _ _ hst => hst⟩)
  · split at h
    · cases h
      refine hinv.begin hclock ?_
      unfold Instance.acquire
      split
      · trivial
      · split
        · trivial
        · exact ⟨le_refl _, rfl⟩
    · cases h
  · split at h
    · split_ifs at h with hl
      cases h
      refine hinv.begin hclock ?_
      obtain ⟨g, hg, rfl⟩ := mem_map.mp hl
      obtain ⟨htitle, r, hr, hk, hv, hrel, hi, he⟩ := (hinv.procs p).leases g hg
      unfold Instance.renew
      split
      · trivial
      split_ifs
      · trivial
      · split
        · trivial
        · exact ⟨⟨le_refl _, htitle⟩, htitle, rfl, rfl, rfl, rfl, r, hr, hk, hv, hrel, hi, he⟩
    · cases h
  · split at h
    case h_1 hpc =>
      split_ifs at h with hl
      cases h
      refine hinv.begin hclock ?_
      obtain ⟨g, hg, rfl⟩ := mem_map.mp hl.1
      refine ⟨⟨((hinv.procs p).leases g hg).1, fun st hst hhas => ?_⟩, rfl⟩
      rcases hhas with ⟨g', hg', rfl⟩ | ⟨f, r, began, hpc', -⟩
      · exact hl.2 g' hg' hst
      · rw [hpc] at hpc'
        cases hpc'
    case h_2 => cases h
  · split at h
    case h_1 f req hpc =>
      obtain ⟨⟨reply, s₁⟩, hhandle, rfl⟩ := map_eq_some_iff.mp h
      exact hinv.serve hclock hpc (handled_of_handle hhandle) hb
    case h_2 => cases h
  · split at h
    case h_1 f reply hpc =>
      cases h
      exact hinv.resume hparams hvalid hdrift hpc (fun r hr => by rw [hr]) text
    case h_2 => cases h
  · split at h
    case h_1 f req hpc =>
      cases h
      have hinv' := hinv.orphan hclock ((hinv.procs p).sent f req hpc)
      exact hinv'.resume hparams hvalid hdrift hpc (fun r hr => by cases hr) text
    case h_2 f reply hpc =>
      cases h
      exact hinv.resume hparams hvalid hdrift hpc (fun r hr => by cases hr) text
    case h_3 => cases h
  · split at h
    case h_1 p f req horphan =>
      obtain ⟨⟨reply, s₁⟩, hhandle, rfl⟩ := map_eq_some_iff.mp h
      exact hinv.land hclock (mem_of_getElem? horphan) (handled_of_handle hhandle) hb
    case h_2 => cases h
  · cases h
    exact hinv.delete hclock key
  · cases h
    exact hinv.stop hclock p key

end All

end State

end Galactic.Claim
