import Galactic.Claim.Preserved
import Mathlib.Data.Fintype.EquivFin

/-!
# Forwarding claims: mutual exclusion

In every run of any number of processes no two of them hold a valid lease on one key at the same real instant, and the
epochs of the leases of one record increase, as long as no record reaches the last epoch. The epoch is a 64-bit counter:
one takeover later it is zero again. -/

set_option linter.unusedSectionVars false

namespace Galactic.Claim

open Drift List Function State UInt64

variable {P K : Type} [DecidableEq P] [Field K] [LinearOrder K] [IsStrictOrderedRing K]

namespace State
variable {sys : P → Instance K} {s s' : State P K}

theorem acquired_handle {p : P} {f : Frame K} {version : String} {req : Request K} {reply : Except Err (Record K)}
    (h : s.handle p f version req = some (reply, s')) : ∀ a ∈ s.acquired, a ∈ s'.acquired := by
  intro a ha
  rcases handled_of_handle h with _ | _ | _ | _
  · exact ha
  · exact ha
  · exact ha
  · dsimp only
    split_ifs
    · exact mem_cons_of_mem _ ha
    · exact ha

section
variable {e : Event P K} {events : List (Event P K)}

theorem acquired_step (h : s.step sys e = some s') : ∀ a ∈ s.acquired, a ∈ s'.acquired := by
  cases e <;> simp only [step] at h
  case serve | land =>
    split at h
    · obtain ⟨⟨reply, s₁⟩, hhandle, rfl⟩ := Option.map_eq_some_iff.mp h
      exact fun a ha => acquired_handle hhandle a ha
    · cases h
  case tick =>
    split_ifs at h
    cases h
    exact fun a ha => ha
  case renew | release =>
    split at h
    · split_ifs at h
      cases h
      exact fun a ha => ha
    · cases h
  case acquire | receive | fail => split at h <;> cases h <;> exact fun a ha => ha
  case delete | stop =>
    cases h
    exact fun a ha => ha

theorem run_cons (h : s.run sys (e :: events) = some s') : ∃ s₁, s.step sys e = some s₁ ∧ s₁.run sys events = some s' :=
  Option.bind_eq_some_iff.mp h

theorem acquired_run (h : s.run sys events = some s') : ∀ a ∈ s.acquired, a ∈ s'.acquired := by
  induction events generalizing s with
  | nil =>
    cases h
    exact fun a ha => ha
  | cons e events ih =>
    obtain ⟨s₁, hstep, hrun⟩ := run_cons h
    exact fun a ha => ih hrun a (acquired_step hstep a ha)

theorem Inv.run {params : Params K} (hparams : ∀ p, (sys p).params = params) (hvalid : params.validate = none)
    (hdrift : ∀ p, Drifts params.maxDrift (sys p).clock) (hinv : s.Inv sys)
    (h : s.run sys events = some s') (hb : s'.Unwrapped) : s'.Inv sys := by
  induction events generalizing s with
  | nil =>
    cases h
    exact hinv
  | cons e events ih =>
    obtain ⟨s₁, hstep, hrun⟩ := run_cons h
    exact ih (hinv.step hparams hvalid hdrift hstep fun a ha => hb a (acquired_run hrun a ha)) hrun

end

theorem Inv.mutualExclusion (hinv : s.Inv sys) : s.MutualExclusion sys := by
  rintro p q key ⟨g, hg, hkey, hvalid⟩ ⟨g', hg', hkey', hvalid'⟩
  refine (hinv.keys key).exclusive p q g.stake g'.stake hkey hkey' (Or.inl ⟨g, hg, rfl⟩) (Or.inl ⟨g', hg', rfl⟩) ?_ ?_
  · exact lt_of_lt_of_le hvalid ((hinv.procs p).holding g hg)
  · exact lt_of_lt_of_le hvalid' ((hinv.procs q).holding g' hg')

end State

/-- **Mutual exclusion.** For processes with equal valid parameters and clocks within the drift, whatever they call, the
store answers and the network loses. -/
theorem excludes_of_run {sys : P → Instance K} {params : Params K} (hparams : ∀ p, (sys p).params = params)
    (hvalid : params.validate = none) (hdrift : ∀ p, Drifts params.maxDrift (sys p).clock) {t₀ : K}
    {events : List (Event P K)} {s : State P K} (hrun : (initial t₀).run sys events = some s) (hb : s.Unwrapped) :
    s.MutualExclusion sys ∧ s.EpochsIncrease := by
  have hinit : (initial t₀ : State P K).Inv sys := State.Inv.initial t₀
  have hinv := hinit.run hparams hvalid hdrift hrun hb
  exact ⟨hinv.mutualExclusion, hinv.store.ordered, fun p g hg => ((hinv.procs p).leases g hg).1⟩

/-! ### Two processes of one instance -/

section Example

def tenPercent : Params ℚ where
  duration := 10
  maxDrift := 1 / 10
  margin := 1
  maxSkew := 0

/-- Two processes with the same ID, one with a clock that is fast by a tenth. -/
def twins (p : Bool) : Instance ℚ where
  id := "a"
  clock t := if p then 11 / 10 * t else t
  params := tenPercent

theorem drifts_twins (p : Bool) : Drifts tenPercent.maxDrift (twins p).clock := by
  intro s t hst
  rcases p with _ | _
  · simp only [twins, tenPercent, Bool.false_eq_true, if_false]
    constructor <;> linarith
  · simp only [twins, tenPercent, if_true]
    constructor <;> linarith

/-- The first process takes the key out of its quarantine. The second one sees that, waits, and takes it over. -/
def takeovers : List (Event Bool ℚ) :=
  [.acquire false "k", .serve false "", .receive false "i", .serve false "1", .receive false "",
    .tick 20, .acquire false "k", .serve false "", .receive false "", .serve false "2", .receive false "",
    .acquire true "k", .serve true "", .receive true "",
    .tick 35, .acquire true "k", .serve true "", .receive true "", .serve true "3", .receive true ""]

theorem takeovers_runs : ((initial 0).run twins takeovers).isSome := by decide +kernel

def takenOver : State Bool ℚ := ((initial 0).run twins takeovers).get takeovers_runs

/-- The second process holds a valid lease of the second epoch at the end. -/
theorem excludes_of_run_takeovers :
    ((takenOver.proc true).holding.any fun g =>
      g.lease.key = "k" ∧ g.lease.Valid ((twins true).clock takenOver.now)) = true ∧
    takenOver.MutualExclusion twins ∧ takenOver.EpochsIncrease := by
  have hrun : (initial 0).run twins takeovers = some takenOver := (Option.some_get takeovers_runs).symm
  have hb : takenOver.Unwrapped := by decide +kernel
  have hparams : ∀ p, (twins p).params = tenPercent := fun _ => rfl
  exact ⟨by decide +kernel, excludes_of_run hparams (by decide +kernel) drifts_twins hrun hb⟩

end Example

/-! ### The counter starts again -/

section Wrap

/-- One process whose clock shows real time. -/
def single (_ : Unit) : Instance ℚ where
  id := "a"
  clock t := t
  params := tenPercent

structure HeldAt (s : State Unit ℚ) (epoch : UInt64) (l : Lease ℚ) : Prop where
  pc : (s.proc ()).pc = .idle
  holding : ∀ g ∈ (s.proc ()).holding, g.lease.key = "k"
  lease : l ∈ (s.proc ()).leases.map (·.lease)
  fields : l.key = "k" ∧ l.incarnation = "i" ∧ l.epoch = epoch ∧ l.holder = "a"
  record : ∃ r, s.records "k" = some r ∧ r.key = "k" ∧ r.incarnation = "i" ∧ r.epoch = epoch ∧ r.holder = "a"

variable {s : State Unit ℚ} {epoch : UInt64}

theorem run_append {sys : P → Instance K} {s s₁ s₂ : State P K} {events events' : List (Event P K)}
    (h : s.run sys events = some s₁) (h' : s₁.run sys events' = some s₂) : s.run sys (events ++ events') = some s₂ := by
  induction events generalizing s with
  | nil =>
    cases h
    exact h'
  | cons e events ih =>
    obtain ⟨s', hstep, hrun⟩ := run_cons h
    rw [cons_append, run, hstep]
    exact ih hrun

/-- The process releases its lease and acquires the key again. -/
theorem heldAt_succ {l : Lease ℚ} (h : HeldAt s epoch l) :
    ∃ events s' l', s.run single events = some s' ∧ HeldAt s' (epoch + 1) l' ∧
      s'.acquired = ⟨(), "k", "i", epoch + 1⟩ :: s.acquired := by
  obtain ⟨hpc, hholding, hl, ⟨hlk, hli, hle, hlh⟩, r, hr, hkey, hinc, hepoch, hholder⟩ := h
  obtain ⟨v, hv⟩ := Infinite.exists_notMem_finset s.versions.toFinset
  obtain ⟨v', hv'⟩ := Infinite.exists_notMem_finset (v :: s.versions).toFinset
  rw [mem_toFinset] at hv hv'
  obtain ⟨hne, hv'⟩ := not_or.mp (mem_cons.not.mp hv')
  have hstopped : (s.proc ()).holding.filter (fun g => !decide (g.lease.key = "k")) = [] :=
    filter_eq_nil_iff.mpr fun g hg => by simp [hholding g hg]
  have hacquire : (single ()).acquire s.now "k" = .call (.acquireGet "k" s.now) (.get "k") := by
    have hvalid : (single ()).validate = none := by decide +kernel
    simp only [Instance.acquire, hvalid]
    rfl
  have hdeadline : ∀ now start, (single ()).deadline now start = .ok (start + 10) := fun _ _ => rfl
  have hid : (single ()).id = "a" := rfl
  have hclock : ∀ t, (single ()).clock t = t := fun _ => rfl
  let r₁ : Record ℚ := { r with released := true, version := v }
  let s₁ : State Unit ℚ :=
    { s with
      records := update s.records "k" (some r₁)
      history := r₁ :: s.history
      proc := update s.proc () { s.proc () with pc := .idle, holding := [] } }
  have hrelease : s.run single
      [.stop () "k", .release () l, .serve () "", .receive () "", .serve () v, .receive () ""] = some s₁ := by
    unfold versions at hv
    rw [mem_map] at hl hv
    simp [run, step, hpc, begin, Proc.act, handle, hr, setProc, resume, Instance.resume, write, versions,
      Frame.acquires, Instance.release, hkey, hinc, hepoch, hholder, hlk, hli, hle, hlh, hv, hl, hstopped, s₁, r₁]
  let r' : Record ℚ := ⟨"k", "a", "i", epoch + 1, 0, s.now, false, v'⟩
  let l' : Lease ℚ := ⟨"k", "a", epoch + 1, "i", s.now + 10, v', 0⟩
  have hrun : s₁.run single [.acquire () "k", .serve () "", .receive () "", .serve () v', .receive () ""] = some
      { s₁ with
        records := update s.records "k" (some r')
        history := r' :: s₁.history
        acquired := ⟨(), "k", "i", epoch + 1⟩ :: s.acquired
        proc := update s.proc ()
          { pc := .idle
            observed := update (s.proc ()).observed "k" none
            leases := ⟨l', s.now⟩ :: (s.proc ()).leases
            holding := [⟨l', s.now⟩] } } := by
    unfold versions at hv'
    rw [mem_map] at hv'
    simp [run, step, hacquire, begin, Proc.act, handle, setProc, resume, Instance.resume, Instance.takeover, write,
      versions, Frame.acquires, Instance.lease, hinc, hepoch, hdeadline, hid, hclock, hv', Ne.symm hne, s₁, r₁, r', l']
  refine ⟨_, _, l', run_append hrelease hrun, ⟨?_, ?_, ?_, ⟨rfl, rfl, rfl, rfl⟩, r', ?_, rfl, rfl, rfl, rfl⟩, rfl⟩
  · simp
  · simp [l']
  · simp
  · simp

def firstLease : List (Event Unit ℚ) :=
  [.acquire () "k", .serve () "", .receive () "i", .serve () "1", .receive () "",
    .tick 20, .acquire () "k", .serve () "", .receive () "", .serve () "2", .receive () ""]

theorem firstLease_runs : ((initial 0).run single firstLease).isSome := by decide +kernel

def firstHeld : State Unit ℚ := ((initial 0).run single firstLease).get firstLease_runs

theorem heldAt_firstHeld : HeldAt firstHeld 1 ⟨"k", "a", 1, "i", 30, "2", 0⟩ where
  pc := by decide +kernel
  holding := by decide +kernel
  lease := by decide +kernel
  fields := ⟨rfl, rfl, rfl, rfl⟩
  record := ⟨⟨"k", "a", "i", 1, 0, 20, false, "2"⟩, by decide +kernel, rfl, rfl, rfl, rfl⟩

theorem heldAt_reached (n : Nat) : ∃ events s l, (initial 0).run single events = some s ∧
    HeldAt s (ofNat (n + 1)) l ∧ s.acquired.head? = some ⟨(), "k", "i", ofNat (n + 1)⟩ := by
  induction n with
  | zero => exact ⟨firstLease, firstHeld, _, (Option.some_get firstLease_runs).symm, heldAt_firstHeld, by
      decide +kernel⟩
  | succ n ih =>
    obtain ⟨events, s, l, hrun, hheld, -⟩ := ih
    obtain ⟨events', s', l', hrun', hheld', hacquired⟩ := heldAt_succ hheld
    have hsucc : ofNat (n + 1) + 1 = ofNat (n + 1 + 1) := by
      rw [ofNat_add (n + 1) 1]
      rfl
    rw [hsucc] at hheld' hacquired
    exact ⟨_, s', l', run_append hrun hrun', hheld', by rw [hacquired]; rfl⟩

/-- After the last epoch comes epoch zero, of a later lease on the same record. -/
theorem epochs_wrap : tenPercent.validate = none ∧ (∀ p, (single p).params = tenPercent) ∧
    (∀ p, Drifts tenPercent.maxDrift (single p).clock) ∧ ∃ events s, (initial 0).run single events = some s ∧
    ¬s.EpochsIncrease := by
  refine ⟨by decide +kernel, fun _ => rfl, fun _ => drifts_twins false, ?_⟩
  obtain ⟨events, s, l, hrun, hheld, hhead⟩ := heldAt_reached (2 ^ 64 - 2)
  obtain ⟨events', s', l', hrun', -, hacquired⟩ := heldAt_succ hheld
  refine ⟨_, s', run_append hrun hrun', fun hincrease => ?_⟩
  obtain ⟨rest, hrest⟩ := head?_eq_some_iff.mp hhead
  have hpairs := hincrease.1
  rw [hacquired, hrest] at hpairs
  have hlt := (pairwise_cons.mp hpairs).1 _ mem_cons_self rfl rfl
  revert hlt
  decide

end Wrap

end Galactic.Claim
