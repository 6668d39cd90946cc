import Galactic.Lib.Threads

/-!
# The ownership authority

A scope's record lives in a file next to a lock file. A call takes the lock, reads the record, decides, and writes the
record back through a temporary file, as often as it has to; a commit runs its mutation between two writes. Calls of any
number of threads interleave, everything may fail, and a thread that dies lets go of its lock. -/

namespace Galactic.Ownership

open Client

/-- A scope's durable ownership state. -/
structure Record where
  owner : String := ""
  generation : UInt64 := 0
  revision : UInt64 := 0
  transitioning : Bool := false
  /-- Set while a commit's mutation runs and cleared when it succeeds. -/
  pending : Bool := false
  deriving DecidableEq, Repr

def Record.resync (r : Record) : Bool := r.pending

/-- Authorizes one commit against the scope state it was issued for. -/
structure Ticket where
  owner : String
  generation : UInt64
  revision : UInt64
  resync : Bool
  deriving DecidableEq, Repr

def ticket (r : Record) : Ticket := ⟨r.owner, r.generation, r.revision, r.resync⟩

/-- Operations that leave lock and record as they are: on the other files, and the check of an `Exclusive`. -/
inductive PlainOp
  | openLock | openTmp | writeTmp | syncTmp | closeTmp | openDir | syncDir | check
  deriving DecidableEq, Repr

inductive Failure
  | noOwner
  | transitioning
  | notOwner (holder caller : String)
  | stale (ticketGeneration ticketRevision generation revision : UInt64)
  | noTransfer (wanted generation : UInt64) (transitioning : Bool)
  | resyncRequired
  | plain (op : PlainOp)
  | flock
  | read
  | rename
  | mutate
  deriving DecidableEq, Repr

inductive Outcome
  | ticket (t : Ticket)
  | generation (g : UInt64)
  | done
  deriving DecidableEq, Repr

/-- What a call asks of the host. A mutation has a start and an end, since its thread may die in between. -/
inductive Req
  | plain (op : PlainOp)
  | flock
  | read
  | rename (r : Record)
  | mutateStart
  | mutateEnd
  | unlock (out : Except Failure Outcome)

/-- The host's answers: whether the operation succeeded, and for a read the record, if there is one. -/
def Reply : Req → Type
  | .plain _ | .flock | .rename _ | .mutateEnd => Bool
  | .read => Option (Option Record)
  | .mutateStart | .unlock _ => Unit

abbrev Call := ExceptT Failure (Prog Req Reply)

def judged (ok : Bool) (e : Failure) : Except Failure Unit := if ok then .ok () else .error e

def plainOp (op : PlainOp) : Call Unit :=
  .mk (.ask (.plain op) fun ok : Bool => .ret (judged ok (.plain op)))

def flock : Call Unit := .mk (.ask .flock fun ok : Bool => .ret (judged ok .flock))

def readFile : Call Record :=
  .mk (.ask .read fun answer : Option (Option Record) => .ret (answer.elim (.error .read) fun r => .ok (r.getD {})))

def rename (r : Record) : Call Unit :=
  .mk (.ask (.rename r) fun ok : Bool => .ret (judged ok .rename))

def mutate : Call Unit :=
  .mk (.ask .mutateStart fun _ => .ask .mutateEnd fun ok : Bool => .ret (judged ok .mutate))

def unlock (out : Except Failure Outcome) : Call Outcome := .mk (.ask (.unlock out) fun _ => .ret out)

def writeRecord (r : Record) : Call Unit := do
  plainOp .openTmp
  plainOp .writeTmp
  plainOp .syncTmp
  plainOp .closeTmp
  rename r
  plainOp .openDir
  plainOp .syncDir

/-- Runs `fn` with the scope's lock held, on the record as it is. -/
def lockedStaged (fn : Record → Call Outcome) : Call Outcome := do
  plainOp .openLock
  flock
  let out ← (ExceptT.lift (ExceptT.run (readFile >>= fn)) : Call (Except Failure Outcome))
  unlock out

/-- Runs `fn` with the lock held, and writes the record back when `fn` changed it. -/
def locked (fn : Record → Except Failure (Option Record × Outcome)) : Call Outcome :=
  lockedStaged fun r => match fn r with
    | .error e => throw e
    | .ok (none, out) => pure out
    | .ok (some r', out) => do
      writeRecord r'
      pure out

def checkOwner (owner : String) (r : Record) : Except Failure Unit :=
  if r.transitioning then .error .transitioning
  else if r.owner ≠ owner then .error (.notOwner r.owner owner)
  else .ok ()

def claim (owner : String) : Call Outcome :=
  if owner = "" then throw .noOwner
  else locked fun r =>
    if r.owner = "" ∧ r.transitioning = false then
      let r := { r with owner := owner, generation := r.generation + 1, pending := true }
      .ok (some r, .ticket (ticket r))
    else if r.owner = owner ∧ r.transitioning = false then .ok (none, .ticket (ticket r))
    else if r.transitioning then .error .transitioning
    else .error (.notOwner r.owner owner)

def begin (owner : String) : Call Outcome :=
  if owner = "" then throw .noOwner
  else locked fun r => (checkOwner owner r).map fun _ => (none, .ticket (ticket r))

def checkCommit (t : Ticket) (snapshot : Bool) (r : Record) : Except Failure Unit := do
  checkOwner t.owner r
  if r.generation ≠ t.generation ∨ r.revision ≠ t.revision then
    throw (.stale t.generation t.revision r.generation r.revision)
  if r.resync && !snapshot then throw .resyncRequired

def staged (r : Record) (pending : Bool) : Call Record := do
  writeRecord { r with pending := true }
  mutate
  let next := { r with pending := pending, revision := r.revision + 1 }
  writeRecord next
  pure next

def commit (t : Ticket) (snapshot : Bool) : Call Outcome :=
  if t.owner = "" then throw .noOwner
  else lockedStaged fun r => do
    ExceptT.mk (pure (checkCommit t snapshot r))
    let next ← staged r false
    pure (.ticket (ticket next))

def exclusive : Call Outcome :=
  lockedStaged fun r => do
    if r.transitioning then throw .transitioning
    plainOp .check
    let _ ← staged r r.pending
    pure .done

def fence : Call Outcome :=
  locked fun r => .ok (some { r with transitioning := true, generation :=
    r.generation + 1 }, .generation (r.generation + 1))

def adopt (owner : String) (generation : UInt64) : Call Outcome :=
  if owner = "" then throw .noOwner
  else locked fun r =>
    if r.transitioning = false ∨ r.generation ≠ generation then
      .error (.noTransfer generation r.generation r.transitioning)
    else
      let r := { r with owner := owner, transitioning := false, pending := true }
      .ok (some r, .ticket (ticket r))

/-- The calls of an authority's users on the scope. -/
inductive Op
  | claim (owner : String)
  | begin (owner : String)
  | commit (t : Ticket)
  | commitSnapshot (t : Ticket)
  | exclusive
  | fence
  | adopt (owner : String) (generation : UInt64)
  deriving DecidableEq, Repr

def Op.body : Op → Prog Req Reply (Except Failure Outcome)
  | .claim owner => (Ownership.claim owner).run
  | .begin owner => (Ownership.begin owner).run
  | .commit t => (Ownership.commit t false).run
  | .commitSnapshot t => (Ownership.commit t true).run
  | .exclusive => Ownership.exclusive.run
  | .fence => Ownership.fence.run
  | .adopt owner generation => (Ownership.adopt owner generation).run

/-! ### The host -/

/-- What a history records. A call is finished when it lets go of the lock: its outcome stands then, though the caller
sees it later. -/
inductive Entry
  | wrote (op : Op) (old r : Record)
  | started (op : Op)
  | ended (op : Op) (ok : Bool)
  | interrupted (op : Op)
  | finished (op : Op) (out : Except Failure Outcome)
  deriving DecidableEq

/-- The scope's record file and lock, whether a mutation is running, and the history, the latest entry first. -/
structure State (P : Type) where
  file : Option Record
  lock : Option P := none
  mutating : Bool := false
  log : List Entry := []
  deriving DecidableEq

variable {P : Type} [DecidableEq P]

/-- How the host answers: `ok` says whether the operation succeeds. The lock blocks while a thread has it. -/
def serve (s : State P) (p : P) (op : Op) (ok : Bool) : (q : Req) → Option (Reply q × State P)
  | .plain _ => some (ok, s)
  | .flock =>
    if ok then
      if s.lock = none then some (true, { s with lock := some p }) else none
    else some (false, s)
  | .read => some (if ok then some s.file else none, s)
  | .rename r => some (ok, if ok then { s with file := some r, log := .wrote op (s.file.getD {}) r :: s.log } else s)
  | .mutateStart => some ((), { s with mutating := true, log := .started op :: s.log })
  | .mutateEnd => some (ok, { s with mutating := false, log := .ended op ok :: s.log })
  | .unlock out =>
    some ((), { s with lock := if s.lock = some p then none else s.lock, log := .finished op out :: s.log })

/-- The death of a thread frees its lock and leaves its mutation where it was. -/
def die (s : State P) (p : P) (op : Op) : State P :=
  if s.lock = some p then
    { s with
      lock := none
      mutating := false
      log := if s.mutating then .interrupted op :: s.log else s.log }
  else s

def machine (P : Type) [DecidableEq P] : Threads.Machine P Op (State P) Req Reply (Except Failure Outcome) where
  Choice := Bool
  Move := Empty
  serve := serve
  finish := fun s _ _ _ => s
  die := die
  move := fun s _ => s

end Galactic.Ownership
