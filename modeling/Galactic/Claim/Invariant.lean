import Galactic.Claim.System

/-!
# Forwarding claims: what every state keeps

A *stake* is what a process may forward on: a lease it holds, or a write of the store whose answer is on its way and
would become one. It is live until the duration has passed on the process's clock since the method began, which bounds
the deadline of the lease. A live stake belongs to the epoch of the current record, or the record is missing or in
quarantine. -/

set_option linter.unusedSectionVars false

namespace Galactic.Claim

structure Stake (K : Type) where
  key : String
  incarnation : String
  epoch : UInt64
  began : K

section
variable {K : Type}

/-- The start of the method, if an answer in this frame makes a lease. -/
def Frame.grants : Frame K → Option K
  | .acquireUpdate _ began => some began
  | .renewUpdate _ began => some began
  | .renewRetry _ began => some began
  | _ => none

def Frame.key : Frame K → String
  | .acquireGet key _ => key
  | .acquireCreate key => key
  | .acquireUpdate key _ => key
  | .renewUpdate l _ => l.key
  | .renewGet l _ => l.key
  | .renewRetry l _ => l.key
  | .releaseGet l => l.key
  | .releaseUpdate l => l.key

def Granted.stake (g : Granted K) : Stake K := ⟨g.lease.key, g.lease.incarnation, g.lease.epoch, g.began⟩

def Record.stake (r : Record K) (began : K) : Stake K := ⟨r.key, r.incarnation, r.epoch, began⟩

def Proc.HasStake (p : Proc K) (st : Stake K) : Prop :=
  (∃ g ∈ p.holding, g.stake = st) ∨
    ∃ f r began, p.pc = .waiting f (.replied (.ok r)) ∧ f.grants = some began ∧ r.stake began = st

theorem Proc.hasStake_of_holding (p : Proc K) {holding : List (Granted K)} (hsub : holding ⊆ p.holding)
    (st : Stake K) (h : HasStake { p with holding := holding } st) : p.HasStake st :=
  h.imp_left fun ⟨g, hg, hst⟩ => ⟨g, hsub hg, hst⟩

end

variable {P K : Type} [DecidableEq P] [Field K] [LinearOrder K]

def Instance.Live (i : Instance K) (now : K) (st : Stake K) : Prop :=
  i.clock now < i.clock st.began + i.params.duration

namespace State
variable (sys : P → Instance K)

def Quiet (s : State P K) (key : String) : Prop :=
  ∀ p st, st.key = key → (s.proc p).HasStake st → ¬(sys p).Live s.now st

def Titled (s : State P K) (p : P) (l : Lease K) : Prop :=
  ⟨p, l.key, l.incarnation, l.epoch⟩ ∈ s.acquired

/-- What a request relies on until it takes effect. -/
def SentInv (s : State P K) (p : P) : Frame K → Request K → Prop
  | .acquireGet key _, .get k => k = key
  | .renewGet l _, .get k => k = l.key
  | .releaseGet l, .get k => k = l.key
  | .acquireCreate key, .create r => r.key = key ∧ r.epoch = 0 ∧ r.released = false
  | .acquireUpdate key _, .update next =>
    next.key = key ∧ next.released = false ∧ ∃ base ∈ s.history, base.key = key ∧ base.version = next.version ∧
      next.incarnation = base.incarnation ∧ next.epoch = base.epoch + 1 ∧ (s.records key = some base → s.Quiet sys key)
  | .renewUpdate l _, .update next | .renewRetry l _, .update next =>
    s.Titled p l ∧ next.key = l.key ∧ next.released = false ∧ next.incarnation = l.incarnation ∧ next.epoch = l.epoch ∧
      ∃ base ∈ s.history, base.key = l.key ∧ base.version = next.version ∧ base.released = false ∧
        base.incarnation = l.incarnation ∧ base.epoch = l.epoch
  | .releaseUpdate l, .update next =>
    s.Titled p l ∧ ∃ base ∈ s.history, next = { base with released := true } ∧ base.key = l.key ∧
      base.incarnation = l.incarnation ∧ base.epoch = l.epoch ∧
      (s.records l.key = some base → ∀ st, st.key = l.key → ¬(s.proc p).HasStake st)
  | _, _ => False

/-- What a method relies on while it waits. -/
def FrameInv (s : State P K) (p : P) : Frame K → Prop
  | .acquireGet _ began => began ≤ s.now
  | .acquireCreate _ => True
  | .acquireUpdate _ began => began ≤ s.now
  | .renewUpdate l began => began ≤ s.now ∧ s.Titled p l
  | .renewGet l began => began ≤ s.now ∧ s.Titled p l
  | .renewRetry l began => began ≤ s.now ∧ s.Titled p l
  | .releaseGet l => s.Titled p l ∧ ∀ st, st.key = l.key → ¬(s.proc p).HasStake st
  | .releaseUpdate l => s.Titled p l

def RepliedInv (s : State P K) (p : P) (f : Frame K) (r : Record K) : Prop :=
  r ∈ s.history ∧ r.key = f.key ∧
    ∀ began, f.grants = some began → r.released = false ∧ ⟨p, r.key, r.incarnation, r.epoch⟩ ∈ s.acquired

/-- An observation was made after the record was written, and after all stakes began as long as the record stays. -/
def ObservedInv (s : State P K) (p : P) (key : String) (o : Observation K) : Prop :=
  ∃ seen ≤ s.now, o.seen = (sys p).clock seen ∧ ∃ base ∈ s.history, base.key = key ∧ base.version = o.version ∧
    (s.records key = some base → ∀ q st, st.key = key → (s.proc q).HasStake st → st.began ≤ seen)

structure ProcInv (s : State P K) (p : P) : Prop where
  leases : ∀ g ∈ (s.proc p).leases, s.Titled p g.lease ∧ ∃ r ∈ s.history, r.key = g.lease.key ∧
    r.version = g.lease.version ∧ r.released = false ∧ r.incarnation = g.lease.incarnation ∧ r.epoch = g.lease.epoch
  holding : ∀ g ∈ (s.proc p).holding, g.lease.deadline ≤ (sys p).clock g.began + (sys p).params.duration
  stakes : ∀ st, (s.proc p).HasStake st → st.began ≤ s.now ∧ ⟨p, st.key, st.incarnation, st.epoch⟩ ∈ s.acquired
  frame : ∀ f c, (s.proc p).pc = .waiting f c → s.FrameInv p f
  sent : ∀ f req, (s.proc p).pc = .waiting f (.sent req) → s.SentInv sys p f req
  replied : ∀ f r, (s.proc p).pc = .waiting f (.replied (.ok r)) → s.RepliedInv p f r
  observed : ∀ key o, (s.proc p).observed key = some o → s.ObservedInv sys p key o

structure StoreInv (s : State P K) : Prop where
  current : ∀ key r, s.records key = some r → r ∈ s.history ∧ r.key = key
  versions : s.versions.Nodup
  incarnations : ∀ r ∈ s.history, r.incarnation ∈ s.incarnations
  latest : ∀ key cur, s.records key = some cur → ∀ r ∈ s.history, r.key = key → r.incarnation = cur.incarnation →
    r.epoch ≤ cur.epoch
  written : ∀ a ∈ s.acquired, a.epoch ≠ 0 ∧ ∃ r ∈ s.history, r.key = a.key ∧ r.incarnation = a.incarnation ∧
    r.epoch = a.epoch
  ordered : s.acquired.Pairwise fun later earlier =>
    later.key = earlier.key → later.incarnation = earlier.incarnation → earlier.epoch < later.epoch

structure KeyInv (s : State P K) (key : String) : Prop where
  titled : ∀ cur, s.records key = some cur → ∀ p st, st.key = key → (s.proc p).HasStake st → (sys p).Live s.now st →
    cur.released = false ∧ (st.incarnation = cur.incarnation ∧ st.epoch = cur.epoch ∨ cur.epoch = 0)
  exclusive : ∀ p q st st', st.key = key → st'.key = key → (s.proc p).HasStake st → (s.proc q).HasStake st' →
    (sys p).Live s.now st → (sys q).Live s.now st' → p = q

structure Inv (s : State P K) : Prop where
  store : s.StoreInv
  procs : ∀ p, s.ProcInv sys p
  orphans : ∀ o ∈ s.orphans, s.SentInv sys o.1 o.2.1 o.2.2
  keys : ∀ key, s.KeyInv sys key

/-! ### Steps that leave a key alone -/

/-- What every step does: time passes, the histories grow, and for each key either the record is as before and no stake
is added, or the record is a new one or gone. -/
structure Evolves (s s' : State P K) : Prop where
  now : s.now ≤ s'.now
  history : ∀ r ∈ s.history, r ∈ s'.history
  acquired : ∀ a ∈ s.acquired, a ∈ s'.acquired
  key : ∀ key, (s'.records key = s.records key ∧
      ∀ p st, st.key = key → (s'.proc p).HasStake st → (s.proc p).HasStake st) ∨
    ∀ r ∈ s.history, s'.records key ≠ some r

/-- The record of `key` is as before, with no new stakes. -/
abbrev SameAt (s s₂ : State P K) (key : String) : Prop :=
  s₂.records key = s.records key ∧ ∀ q st, st.key = key → (s₂.proc q).HasStake st → (s.proc q).HasStake st

variable {sys} {s s' : State P K}

section Evolve
variable (hclock : ∀ p, Monotone (sys p).clock)

theorem Live.of_later {p : P} {now now' : K} {st : Stake K} (hclock : ∀ p, Monotone (sys p).clock) (hle : now ≤ now')
    (h : (sys p).Live now' st) : (sys p).Live now st :=
  lt_of_le_of_lt (hclock p hle) h

include hclock

theorem Evolves.quiet (h : Evolves s s') {key : String} {base : Record K} (hbase : base ∈ s.history)
    (hquiet : s.records key = some base → s.Quiet sys key) (hcur : s'.records key = some base) : s'.Quiet sys key := by
  rcases h.key key with ⟨hsame, hstakes⟩ | hnew
  · intro p st hkey hst hlive
    exact hquiet (hsame ▸ hcur) p st hkey (hstakes p st hkey hst) (Live.of_later hclock h.now hlive)
  · exact absurd hcur (hnew base hbase)

theorem Evolves.sentInv (h : Evolves s s') {p : P} {f : Frame K} {req : Request K} (hsent : s.SentInv sys p f req) :
    s'.SentInv sys p f req := by
  cases f <;> cases req <;> try exact hsent
  case acquireUpdate.update =>
    obtain ⟨hkey, hrel, base, hbase, hk, hv, hinc, hepoch, hquiet⟩ := hsent
    exact ⟨hkey, hrel, base, h.history _ hbase, hk, hv, hinc, hepoch, h.quiet hclock hbase hquiet⟩
  case renewUpdate.update | renewRetry.update =>
    obtain ⟨htitle, hkey, hrel, hinc, hepoch, base, hbase, hrest⟩ := hsent
    exact ⟨h.acquired _ htitle, hkey, hrel, hinc, hepoch, base, h.history _ hbase, hrest⟩
  case releaseUpdate.update l _ =>
    obtain ⟨htitle, base, hbase, hnext, hk, hinc, hepoch, hnone⟩ := hsent
    refine ⟨h.acquired _ htitle, base, h.history _ hbase, hnext, hk, hinc, hepoch, fun hcur st hst hhas => ?_⟩
    rcases h.key l.key with ⟨hsame, hstakes⟩ | hnew
    · exact hnone (hsame ▸ hcur) st hst (hstakes p st hst hhas)
    · exact absurd hcur (hnew base hbase)

omit hclock

section
variable (h : Evolves s s') {p : P} {f : Frame K}

include h

theorem Evolves.frameInv (hstakes : f.grants = none → ∀ st, (s'.proc p).HasStake st → (s.proc p).HasStake st)
    (hframe : s.FrameInv p f) : s'.FrameInv p f := by
  cases f with
  | acquireGet | acquireUpdate => exact hframe.trans h.now
  | acquireCreate => trivial
  | renewUpdate | renewGet | renewRetry => exact ⟨hframe.1.trans h.now, h.acquired _ hframe.2⟩
  | releaseGet => exact ⟨h.acquired _ hframe.1, fun st hst hhas => hframe.2 st hst (hstakes rfl st hhas)⟩
  | releaseUpdate => exact h.acquired _ hframe

theorem Evolves.repliedInv {r : Record K} (hreplied : s.RepliedInv p f r) : s'.RepliedInv p f r := by
  obtain ⟨hr, hkey, hgrants⟩ := hreplied
  exact ⟨h.history _ hr, hkey, fun began hb => ⟨(hgrants began hb).1, h.acquired _ (hgrants began hb).2⟩⟩

theorem Evolves.observedInv {key : String} {o : Observation K} (hobs : s.ObservedInv sys p key o) :
    s'.ObservedInv sys p key o := by
  obtain ⟨seen, hseen, hread, base, hbase, hk, hv, hafter⟩ := hobs
  refine ⟨seen, hseen.trans h.now, hread, base, h.history _ hbase, hk, hv, fun hcur q st hst hhas => ?_⟩
  rcases h.key key with ⟨hsame, hstakes⟩ | hnew
  · exact hafter (hsame ▸ hcur) q st hst (hstakes q st hst hhas)
  · exact absurd hcur (hnew base hbase)

end

include hclock

theorem Evolves.procInv (h : Evolves s s') {p : P} {holding : List (Granted K)}
    (hproc : s'.proc p = { s.proc p with holding := holding }) (hsub : holding ⊆ (s.proc p).holding)
    (hinv : s.ProcInv sys p) : s'.ProcInv sys p := by
  have hstakes := (s.proc p).hasStake_of_holding hsub
  refine ⟨?_, ?_, ?_, ?_, ?_, ?_, ?_⟩ <;> rw [hproc]
  · intro g hg
    obtain ⟨htitle, r, hr, hrest⟩ := hinv.leases g hg
    exact ⟨h.acquired _ htitle, r, h.history _ hr, hrest⟩
  · exact fun g hg => hinv.holding g (hsub hg)
  · intro st hst
    obtain ⟨hbegan, hwritten⟩ := hinv.stakes st (hstakes st hst)
    exact ⟨hbegan.trans h.now, h.acquired _ hwritten⟩
  · exact fun f c hpc => h.frameInv (fun _ st hst => hstakes st (hproc ▸ hst)) (hinv.frame f c hpc)
  · exact fun f req hpc => h.sentInv hclock (hinv.sent f req hpc)
  · exact fun f r hpc => h.repliedInv (hinv.replied f r hpc)
  · exact fun key o ho => h.observedInv (hinv.observed key o ho)

theorem KeyInv.of_same {key : String} (hinv : s.KeyInv sys key) (hnow : s.now ≤ s'.now) (h : SameAt s s' key) :
    s'.KeyInv sys key := by
  obtain ⟨hsame, hstakes⟩ := h
  refine ⟨fun cur hcur p st hk hst hlive => ?_, fun p q st st' hk hk' hst hst' hlive hlive' => ?_⟩
  · exact hinv.titled cur (hsame ▸ hcur) p st hk (hstakes p st hk hst) (Live.of_later hclock hnow hlive)
  · exact hinv.exclusive p q st st' hk hk' (hstakes p st hk hst) (hstakes q st' hk' hst')
      (Live.of_later hclock hnow hlive) (Live.of_later hclock hnow hlive')

end Evolve

end State

end Galactic.Claim
