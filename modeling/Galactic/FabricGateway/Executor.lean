import Mathlib.Data.List.Basic

/-!
# The executor of node calls

`executor.go`: the budget of a cell for calls to nodes. Waiters queue per principal, and the principals that have one
are in a ring that is served in turn. Every entry point takes the mutex, so a run is a sequence of calls. Waiting times,
which are only observed, are left out. -/

namespace Galactic.FabricGateway
open Function

structure Waiter where
  id : Nat
  project : String
  expensive : Bool
  deriving DecidableEq

structure Executor where
  slots : Int
  expSlots : Int
  maxQueue : Int
  principalSlots : Int
  principalQueue : Int
  inUse : Int := 0
  expUse : Int := 0
  waiting : Int := 0
  reserved : Int := 0
  queues : String → List Waiter := fun _ => []
  active : String → Int := fun _ => 0
  held : String → Int := fun _ => 0
  ring : List String := []
  next : Nat := 0
  granted : List Waiter := []

/-- `NewExecutor`, with the bounds of a principal, which are set before use. -/
def newExecutor (slots expensiveSlots maxQueue principalSlots principalQueue : Int) : Executor :=
  let slots := if slots ≤ 0 then 8 else slots
  let expensiveSlots := if expensiveSlots ≤ 0 then 2 else expensiveSlots
  { slots := slots
    expSlots := min expensiveSlots slots
    maxQueue := if maxQueue ≤ 0 then 256 else maxQueue
    principalSlots := principalSlots
    principalQueue := principalQueue }

namespace Executor

/-- A map entry that is deleted when it is not positive. -/
def lower (m : String → Int) (project : String) (n : Int) : String → Int :=
  update m project (if m project - n ≤ 0 then 0 else m project - n)

def roomLocked (e : Executor) (project : String) (n : Int) : Bool :=
  if e.maxQueue < e.waiting + e.reserved + n then false
  else e.principalQueue ≤ 0 ∨ (e.queues project).length + e.held project + n ≤ e.principalQueue

def unholdLocked (e : Executor) (project : String) (n : Int) : Executor :=
  { e with reserved := e.reserved - n, held := lower e.held project n }

/-- The end of `removeLocked`, for a principal without waiters. -/
def leave (e : Executor) (project : String) : Executor :=
  let ring := e.ring.erase project
  let next := if e.ring.idxOf project < e.next ∧ project ∈ e.ring then e.next - 1 else e.next
  { e with ring := ring, next := if ring = [] then 0 else next % ring.length }

def removeLocked (e : Executor) (w : Waiter) : Executor :=
  let e' := if w ∈ e.queues w.project then
      { e with
        queues := update e.queues w.project ((e.queues w.project).erase w)
        waiting := e.waiting - 1 }
    else e
  if e'.queues w.project = [] then e'.leave w.project else e'

def allowed (e : Executor) (w : Waiter) : Bool := ¬(w.expensive ∧ e.expSlots ≤ e.expUse)

def pick (e : Executor) (project : String) : Option Waiter :=
  if 0 < e.principalSlots ∧ e.principalSlots ≤ e.active project then none else (e.queues project).find? e.allowed

def search (e : Executor) : Option (Nat × Waiter) :=
  (List.range e.ring.length).findSome? fun i =>
    let idx := (e.next + i) % e.ring.length
    (e.ring[idx]?.bind e.pick).map fun w => (idx, w)

/-- A grant, as far as the counters go. -/
def charge (e : Executor) (w : Waiter) : Executor :=
  { e with
    inUse := e.inUse + 1
    active := update e.active w.project (e.active w.project + 1)
    expUse := if w.expensive then e.expUse + 1 else e.expUse
    granted := w :: e.granted }

/-- Where the next pass starts: after the principal at `idx`, which may have left the ring. -/
def cursorAfter (e : Executor) (idx : Nat) (project : String) : Nat :=
  if e.queues project ≠ [] then (idx + 1) % e.ring.length
  else if e.ring ≠ [] then idx % e.ring.length
  else e.next

def grant (e : Executor) (idx : Nat) (w : Waiter) : Executor :=
  let e' := (e.charge w).removeLocked w
  { e' with next := e'.cursorAfter idx w.project }

/-- `dispatchLocked`: the grants that it makes, each with the state after it. It ends, at the latest, when the free
slots are used up. -/
def dispatch : Nat → Executor → List (Waiter × Executor)
  | 0, _ => []
  | free + 1, e =>
    if e.inUse < e.slots ∧ e.ring ≠ [] then
      match e.search with
      | none => []
      | some (idx, w) => (w, e.grant idx w) :: dispatch free (e.grant idx w)
    else []

def dispatchLocked (e : Executor) : List (Waiter × Executor) := e.dispatch (e.slots - e.inUse).toNat

/-- The part of `wait` before it dispatches. -/
def enqueue (e : Executor) (w : Waiter) : Executor :=
  { e with
    ring := if e.queues w.project = [] then e.ring ++ [w.project] else e.ring
    queues := update e.queues w.project (e.queues w.project ++ [w])
    waiting := e.waiting + 1 }

def release (e : Executor) (w : Waiter) : Executor :=
  { e with
    inUse := e.inUse - 1
    active := lower e.active w.project 1
    expUse := if w.expensive then e.expUse - 1 else e.expUse
    granted := e.granted.erase w }

end Executor

/-! ### Calls -/

/-- What happens at one moment of a run. -/
inductive Label
  | queued (project : String)
  | granted (project : String)
  | other
  deriving DecidableEq

structure Moment where
  label : Label
  state : Executor

/-- The executor with what its callers hold: the reservations, by their number, and the next waiter's identifier. -/
structure Cell where
  exec : Executor
  reservations : List (String × Int) := []
  fresh : Nat := 0

inductive Event
  | acquire (project : String) (expensive : Bool)
  | reserve (project : String) (n : Int)
  | acquireReserved (reservation : Nat) (expensive : Bool)
  | releaseReservation (reservation : Nat)
  | release (w : Waiter)
  | cancel (w : Waiter)

def grants (e : Executor) : List Moment := e.dispatchLocked.map fun g => ⟨.granted g.1.project, g.2⟩

/-- `wait`, to the point where the mutex is given back. -/
def waitMoments (e : Executor) (w : Waiter) : List Moment :=
  ⟨.queued w.project, e.enqueue w⟩ :: grants (e.enqueue w)

def releaseMoments (e : Executor) (w : Waiter) : List Moment := ⟨.other, e.release w⟩ :: grants (e.release w)

/-- The moments of one call. What no caller can do, as a release of what is not granted, has none. -/
def Cell.moments (c : Cell) : Event → List Moment
  | .acquire project expensive =>
    if c.exec.roomLocked project 1 then waitMoments c.exec ⟨c.fresh, project, expensive⟩ else []
  | .reserve project n =>
    if c.exec.roomLocked project n then
      [⟨.other, { c.exec with
        reserved := c.exec.reserved + n
        held := update c.exec.held project (c.exec.held project + n) }⟩]
    else []
  | .acquireReserved r expensive =>
    match c.reservations[r]? with
    | none => []
    | some (project, left) =>
      if left = 0 then []
      else ⟨.other, c.exec.unholdLocked project 1⟩ ::
        waitMoments (c.exec.unholdLocked project 1) ⟨c.fresh, project, expensive⟩
  | .releaseReservation r =>
    match c.reservations[r]? with
    | none => []
    | some (project, left) => [⟨.other, c.exec.unholdLocked project left⟩]
  | .release w => if w ∈ c.exec.granted then releaseMoments c.exec w else []
  | .cancel w =>
    if w ∈ c.exec.granted then releaseMoments c.exec w
    else if w ∈ c.exec.queues w.project then [⟨.other, c.exec.removeLocked w⟩]
    else []

def endState : Executor → List Moment → Executor
  | e, [] => e
  | _, m :: ms => endState m.state ms

def Cell.step (c : Cell) (ev : Event) : Cell where
  exec := endState c.exec (c.moments ev)
  fresh := c.fresh + 1
  reservations :=
    match ev with
    | .reserve project n => if c.exec.roomLocked project n then c.reservations ++ [(project, n)] else c.reservations
    | .acquireReserved r _ => c.reservations.modify r fun res => if res.2 = 0 then res else (res.1, res.2 - 1)
    | .releaseReservation r => c.reservations.modify r fun res => (res.1, 0)
    | _ => c.reservations

def Cell.trace : Cell → List Event → List Moment
  | _, [] => []
  | c, ev :: events => c.moments ev ++ Cell.trace (c.step ev) events

end Galactic.FabricGateway
