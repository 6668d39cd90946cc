import Galactic.Claim.Instance
import Galactic.Lib.Drift

/-!
# Forwarding claims: instances that share a store

Any number of processes, each with an instance, a clock and the leases it was given, and one store. A call of the store
is sent, takes effect and is answered at three different instants, with steps of others in between. A caller may get any
error in place of the answer; if the call had not taken effect by then, it still may, as an orphan. Records can be
deleted by others.

`history` (every record that was written), `acquired` (the takeovers the store has applied, latest first) and the
instant at which a lease's method began are there for the proofs only. -/

namespace Galactic.Claim
open Function

inductive Call (K : Type)
  | sent (req : Request K)
  | replied (reply : Except Err (Record K))
  deriving DecidableEq

inductive Pc (K : Type)
  | idle
  | waiting (f : Frame K) (c : Call K)
  deriving DecidableEq

/-- A lease, with the instant at which the method that gave it began. -/
structure Granted (K : Type) where
  lease : Lease K
  began : K
  deriving DecidableEq

/-- A process. It forwards under the leases in `holding`, while they are valid; `leases` are all it was ever given. -/
structure Proc (K : Type) where
  pc : Pc K := .idle
  observed : Observed K := fun _ => none
  leases : List (Granted K) := []
  holding : List (Granted K) := []

structure Acquired (P : Type) where
  owner : P
  key : String
  incarnation : String
  epoch : UInt64
  deriving DecidableEq

structure State (P K : Type) where
  now : K
  records : String → Option (Record K)
  history : List (Record K)
  incarnations : List String
  orphans : List (P × Frame K × Request K)
  acquired : List (Acquired P)
  proc : P → Proc K

inductive Event (P K : Type)
  | tick (t : K)
  | acquire (p : P) (key : String)
  | renew (p : P) (l : Lease K)
  | release (p : P) (l : Lease K)
  /-- The call of `p` takes effect; a record that it writes gets `version`. -/
  | serve (p : P) (version : String)
  /-- The answer reaches `p`. -/
  | receive (p : P) (text : String)
  /-- `p` gets an error in place of the answer. -/
  | fail (p : P) (e : Err) (text : String)
  /-- A call that its caller has given up takes effect. -/
  | land (i : Nat) (version : String)
  | delete (key : String)
  /-- `p` stops forwarding for a key. -/
  | stop (p : P) (key : String)

def Frame.acquires {K : Type} : Frame K → Bool
  | .acquireUpdate _ _ => true
  | _ => false

section
variable {P K : Type} [DecidableEq P] [Field K] [LinearOrder K]

namespace State

def initial (t₀ : K) : State P K :=
  { now := t₀
    records := fun _ => none
    history := []
    incarnations := []
    orphans := []
    acquired := []
    proc := fun _ => {} }

def setProc (s : State P K) (p : P) (q : Proc K) : State P K :=
  { s with proc := update s.proc p q }

omit [Field K] [LinearOrder K] in
@[simp] theorem proc_setProc_self (s : State P K) (p : P) (q : Proc K) : (s.setProc p q).proc p = q := update_self ..

omit [Field K] [LinearOrder K] in
theorem proc_setProc_of_ne (s : State P K) {p p' : P} (h : p' ≠ p) (q : Proc K) : (s.setProc p q).proc p' = s.proc p' :=
  update_of_ne h ..

def write (s : State P K) (r : Record K) : State P K :=
  { s with
    records := update s.records r.key (some r)
    history := r :: s.history }

def versions (s : State P K) : List String := s.history.map (·.version)

/-- The store answers a request of `p`, unless a record would get a version or an incarnation that was used before. -/
def handle (s : State P K) (p : P) (f : Frame K) (version : String) :
    Request K → Option (Except Err (Record K) × State P K)
  | .get key =>
    match s.records key with
    | some r => some (.ok r, s)
    | none => some (.error .notFound, s)
  | .create r =>
    match s.records r.key with
    | some _ => some (.error .conflict, s)
    | none =>
      if version ∈ s.versions ∨ r.incarnation ∈ s.incarnations then none
      else
        some (.ok { r with version := version },
          { s.write { r with version := version } with incarnations := r.incarnation :: s.incarnations })
  | .update r =>
    match s.records r.key with
    | none => some (.error .conflict, s)
    | some current =>
      if current.version ≠ r.version then some (.error .conflict, s)
      else if version ∈ s.versions then none
      else
        some (.ok { r with version := version },
          { s.write { r with version := version } with
            acquired := if f.acquires then ⟨p, r.key, r.incarnation, r.epoch⟩ :: s.acquired else s.acquired })

end State

/-- A process after its method went on. -/
def Proc.act (p : Proc K) (observed : Observed K) : Act K → Proc K
  | .call f req => { p with pc := .waiting f (.sent req), observed := observed }
  | .granted l began =>
    { pc := .idle
      observed := observed
      leases := ⟨l, began⟩ :: p.leases
      holding := ⟨l, began⟩ :: p.holding }
  | .failed _ _ => { p with pc := .idle, observed := observed }
  | .released _ => { p with pc := .idle, observed := observed }

namespace State
variable (sys : P → Instance K)

def begin (s : State P K) (p : P) (a : Act K) : State P K :=
  s.setProc p ((s.proc p).act (s.proc p).observed a)

def resume (s : State P K) (p : P) (text : String) (f : Frame K) (reply : Except Err (Record K)) : State P K :=
  let (a, observed) := (sys p).resume s.now text (s.proc p).observed f reply
  s.setProc p ((s.proc p).act observed a)

/-- One step, `none` if the event cannot happen. A lease is renewed or released by the process it was given to, and
released after that process has stopped forwarding for the key. -/
def step (s : State P K) : Event P K → Option (State P K)
  | .tick t => if s.now ≤ t then some { s with now := t } else none
  | .acquire p key =>
    match (s.proc p).pc with
    | .idle => some (s.begin p ((sys p).acquire s.now key))
    | .waiting _ _ => none
  | .renew p l =>
    match (s.proc p).pc with
    | .idle => if l ∈ (s.proc p).leases.map (·.lease) then some (s.begin p ((sys p).renew s.now l)) else none
    | .waiting _ _ => none
  | .release p l =>
    match (s.proc p).pc with
    | .idle =>
      if l ∈ (s.proc p).leases.map (·.lease) ∧ ∀ g ∈ (s.proc p).holding, g.lease.key ≠ l.key then
        some (s.begin p (Instance.release l))
      else none
    | .waiting _ _ => none
  | .serve p version =>
    match (s.proc p).pc with
    | .waiting f (.sent req) =>
      (s.handle p f version req).map fun (reply, s) => s.setProc p { s.proc p with pc := .waiting f (.replied reply) }
    | _ => none
  | .receive p text =>
    match (s.proc p).pc with
    | .waiting f (.replied reply) => some (s.resume sys p text f reply)
    | _ => none
  | .fail p e text =>
    match (s.proc p).pc with
    | .waiting f (.sent req) => some (resume sys { s with orphans := (p, f, req) :: s.orphans } p text f (.error e))
    | .waiting f (.replied _) => some (s.resume sys p text f (.error e))
    | .idle => none
  | .land i version =>
    match s.orphans[i]? with
    | some (p, f, req) => (s.handle p f version req).map fun (_, s) => { s with orphans := s.orphans.eraseIdx i }
    | none => none
  | .delete key => some { s with records := update s.records key none }
  | .stop p key =>
    some (s.setProc p { s.proc p with holding := (s.proc p).holding.filter fun g => g.lease.key ≠ key })

def run (s : State P K) : List (Event P K) → Option (State P K)
  | [] => some s
  | e :: events => (s.step sys e).bind fun s => s.run events

/-- No acquisition has wrapped the epoch around. -/
def Unwrapped (s : State P K) : Prop := ∀ a ∈ s.acquired, a.epoch ≠ 0

instance (s : State P K) : Decidable s.Unwrapped := inferInstanceAs (Decidable (∀ a ∈ s.acquired, a.epoch ≠ 0))

def HoldsValid (s : State P K) (p : P) (key : String) : Prop :=
  ∃ g ∈ (s.proc p).holding, g.lease.key = key ∧ g.lease.Valid ((sys p).clock s.now)

/-- No two processes hold a valid lease on one key. -/
def MutualExclusion (s : State P K) : Prop :=
  ∀ p q key, s.HoldsValid sys p key → s.HoldsValid sys q key → p = q

/-- A later lease of the same record has a greater epoch, and every lease has the epoch of a takeover of its holder. -/
def EpochsIncrease (s : State P K) : Prop :=
  (s.acquired.Pairwise fun later earlier =>
    later.key = earlier.key → later.incarnation = earlier.incarnation → earlier.epoch < later.epoch) ∧
  ∀ p, ∀ g ∈ (s.proc p).leases, ⟨p, g.lease.key, g.lease.incarnation, g.lease.epoch⟩ ∈ s.acquired

end State
end

end Galactic.Claim
