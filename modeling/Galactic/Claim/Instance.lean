import Mathlib.Algebra.Order.Field.Basic

/-!
# Forwarding claims: the code of one instance

`claim.go` of `internal/edge/claim`. A method is cut at its calls of the store: `acquire`, `renew` and `release` run to
the first call, and `resume` from the reply of a call to the next one or to the end. Instants and durations are numbers
of any ordered field, `Clock` gives a reading at every real instant, and a `nil` wall clock or a zero ceiling is `none`.
-/

namespace Galactic.Claim
open Function

/-- What the methods and the store report. A `store` error is any other one. -/
inductive Err
  | notFound
  | conflict
  | held (owner : Option (String × UInt64))
  | lost (current : Option (String × UInt64 × String))
  | ceiling
  | duration
  | maxDrift
  | marginOrSkew
  | wallClock
  | store
  deriving DecidableEq

structure Record (K : Type) where
  key : String
  holder : String
  incarnation : String
  epoch : UInt64
  sequence : UInt64
  renewStart : K
  released : Bool
  version : String
  deriving DecidableEq

structure Params (K : Type) where
  duration : K
  maxDrift : K
  margin : K
  maxSkew : K
  deriving DecidableEq

structure Lease (K : Type) where
  key : String
  holder : String
  epoch : UInt64
  incarnation : String
  deadline : K
  version : String
  sequence : UInt64
  deriving DecidableEq

structure Instance (K : Type) where
  id : String
  clock : K → K
  params : Params K
  wall : Option (K → K) := none
  ceiling : Option K := none

structure Observation (K : Type) where
  version : String
  seen : K
  deriving DecidableEq

abbrev Observed (K : Type) := String → Option (Observation K)

/-- The calls of a `Store`. -/
inductive Request (K : Type)
  | get (key : String)
  | create (r : Record K)
  | update (r : Record K)
  deriving DecidableEq

/-- Where a method waits for the store. `began` is the real instant of its first clock reading. -/
inductive Frame (K : Type)
  | acquireGet (key : String) (began : K)
  | acquireCreate (key : String)
  | acquireUpdate (key : String) (began : K)
  | renewUpdate (l : Lease K) (began : K)
  | renewGet (l : Lease K) (began : K)
  | renewRetry (l : Lease K) (began : K)
  | releaseGet (l : Lease K)
  | releaseUpdate (l : Lease K)
  deriving DecidableEq

/-- What a method does next: it calls the store, or it returns. -/
inductive Act (K : Type)
  | call (f : Frame K) (req : Request K)
  | granted (l : Lease K) (began : K)
  | failed (l : Lease K) (e : Err)
  | released (e : Option Err)
  deriving DecidableEq

section
variable {K : Type} [Field K] [LinearOrder K]

def Params.validate (p : Params K) : Option Err :=
  if p.duration ≤ 0 then some .duration
  else if p.maxDrift < 0 ∨ 1 / 2 ≤ p.maxDrift then some .maxDrift
  else if p.margin < 0 ∨ p.maxSkew < 0 then some .marginOrSkew
  else none

def Params.takeoverWait (p : Params K) : K :=
  p.duration * (1 + p.maxDrift) / (1 - p.maxDrift) + p.margin

def Lease.Valid (l : Lease K) (now : K) : Prop := now < l.deadline

instance (l : Lease K) (now : K) : Decidable (l.Valid now) :=
  inferInstanceAs (Decidable (now < l.deadline))

def Lease.zero : Lease K := ⟨"", "", 0, "", 0, "", 0⟩

namespace Instance

def validate (i : Instance K) : Option Err :=
  match i.params.validate with
  | some e => some e
  | none => if i.ceiling.isSome ∧ i.wall.isNone then some .wallClock else none

/-- `deadline`, computed at the instant `now`. -/
def deadline (i : Instance K) (now start : K) : Except Err K :=
  let d := start + i.params.duration
  match i.ceiling, i.wall with
  | none, _ => .ok d
  | some _, none => .error .wallClock
  | some ceiling, some wall =>
    let remaining := ceiling - wall now - i.params.maxSkew
    if remaining ≤ 0 then .error .ceiling
    else
      let c := i.clock now + remaining
      .ok (if c < d then c else d)

/-- `lease`, as the end of a method that began at `began`. -/
def lease (i : Instance K) (now : K) (r : Record K) (began : K) : Act K :=
  match i.deadline now (i.clock began) with
  | .error e => .failed .zero e
  | .ok d => .granted ⟨r.key, r.holder, r.epoch, r.incarnation, d, r.version, r.sequence⟩ began

def waited (i : Instance K) (now : K) (observed : Observed K) (r : Record K) : Bool × Observed K :=
  match observed r.key with
  | some o =>
    if o.version = r.version then (decide (i.params.takeoverWait ≤ i.clock now - o.seen), observed)
    else (false, update observed r.key (some ⟨r.version, i.clock now⟩))
  | none => (false, update observed r.key (some ⟨r.version, i.clock now⟩))

/-- `Acquire`, to its first call. -/
def acquire (i : Instance K) (now : K) (key : String) : Act K :=
  match i.validate with
  | some e => .failed .zero e
  | none =>
    match i.deadline now (i.clock now) with
    | .error e => .failed .zero e
    | .ok _ => .call (.acquireGet key now) (.get key)

def takeover (i : Instance K) (key : String) (began : K) (r : Record K) : Record K :=
  { key := key
    holder := i.id
    incarnation := r.incarnation
    epoch := r.epoch + 1
    sequence := 0
    renewStart := i.clock began
    released := false
    version := r.version }

def renewal (i : Instance K) (began : K) (l : Lease K) : Record K :=
  { key := l.key
    holder := l.holder
    incarnation := l.incarnation
    epoch := l.epoch
    sequence := l.sequence + 1
    renewStart := i.clock began
    released := false
    version := l.version }

/-- The unheld record that `Acquire` creates for a key without one. -/
def quarantine (key text : String) : Record K :=
  { key := key
    holder := ""
    incarnation := text
    epoch := 0
    sequence := 0
    renewStart := 0
    released := false
    version := "" }

/-- `Renew`, to its first call. -/
def renew (i : Instance K) (now : K) (l : Lease K) : Act K :=
  match i.validate with
  | some e => .failed l e
  | none =>
    if ¬l.Valid (i.clock now) ∨ l.holder ≠ i.id then .failed .zero (.lost none)
    else
      match i.deadline now (i.clock now) with
      | .error e => .failed .zero e
      | .ok _ => .call (.renewUpdate l now) (.update (i.renewal now l))

/-- `Release`, to its first call. -/
def release (l : Lease K) : Act K := .call (.releaseGet l) (.get l.key)

/-- A method from the reply of its call on. `text` is what `rand.Text` gives. -/
def resume (i : Instance K) (now : K) (text : String) (observed : Observed K) :
    Frame K → Except Err (Record K) → Act K × Observed K
  | .acquireGet key _, .error .notFound => (.call (.acquireCreate key) (.create (quarantine key text)), observed)
  | .acquireGet _ _, .error e => (.failed .zero e, observed)
  | .acquireGet key began, .ok r =>
    if r.released then (.call (.acquireUpdate key began) (.update (i.takeover key began r)), observed)
    else
      match i.waited now observed r with
      | (false, observed) => (.failed .zero (.held (some (r.holder, r.epoch))), observed)
      | (true, observed) => (.call (.acquireUpdate key began) (.update (i.takeover key began r)), observed)
  | .acquireCreate key, .error e => (.failed .zero e, update observed key none)
  | .acquireCreate key, .ok created =>
    (.failed .zero (.held none), (i.waited now (update observed key none) created).2)
  | .acquireUpdate _ _, .error e => (.failed .zero e, observed)
  | .acquireUpdate key began, .ok updated => (i.lease now updated began, update observed key none)
  | .renewUpdate l began, .error .conflict => (.call (.renewGet l began) (.get l.key), observed)
  | .renewUpdate l _, .error e => (.failed l e, observed)
  | .renewUpdate _ began, .ok updated => (i.lease now updated began, observed)
  | .renewGet l _, .error _ => (.failed l .conflict, observed)
  | .renewGet l began, .ok current =>
    if current.incarnation ≠ l.incarnation ∨ current.epoch ≠ l.epoch ∨ current.holder ≠ l.holder ∨ current.released then
      (.failed .zero (.lost (some (l.key, current.epoch, current.holder))), observed)
    else
      (.call (.renewRetry l began)
        (.update { i.renewal began l with sequence := current.sequence + 1, version := current.version }), observed)
  | .renewRetry l _, .error e => (.failed l e, observed)
  | .renewRetry _ began, .ok updated => (i.lease now updated began, observed)
  | .releaseGet _, .error e => (.released (some e), observed)
  | .releaseGet l, .ok r =>
    if r.incarnation ≠ l.incarnation ∨ r.epoch ≠ l.epoch ∨ r.holder ≠ l.holder then (.released none, observed)
    else (.call (.releaseUpdate l) (.update { r with released := true }), observed)
  | .releaseUpdate _, .error e => (.released (some e), observed)
  | .releaseUpdate _, .ok _ => (.released none, observed)

end Instance
end

end Galactic.Claim
