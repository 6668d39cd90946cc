import Galactic.Lib.Threads
import Mathlib.Algebra.Ring.Int.Defs

/-!
# Claiming a SID Argument

Every CNI ADD is its own process. To publish its VPC's state it claims the Argument of the VPC's BGPVRFInstance under
the node's Argument lock: it reads the instances, creates or updates its own, checks that no other instance of the
router holds the value, and moves a freshly created instance to another value if one does. The lock is let go between
the attempts of one ADD. -/

namespace Galactic.CniBgp

open Client

def argumentMin : Int := 0x001
def argumentMax : Int := 0xFFF

/-- How many times one call moves its freshly created instance. -/
def maxArgumentReallocations : Nat := 3

/-- How many further attempts follow an ADD's first. -/
def maxRetries : Nat := 2

structure Spec where
  routerRef : Option String
  vrfID : Int
  routeTarget : String
  deriving DecidableEq, Repr

/-- A BGPVRFInstance of the namespace. -/
structure Instance where
  name : String
  uid : Nat
  spec : Spec
  deriving DecidableEq, Repr

/-- The node's SRv6 identity: none, one that gives no block, or one with a block. -/
inductive Node
  | unconfigured
  | invalid
  | block (b : Nat)
  deriving DecidableEq

/-- The router of the node, and the node's SRv6 identity. -/
structure Site where
  routerName : String
  node : Node

/-- An ADD: the names of its VPC's instance and VRF, its route target and its own host link. -/
structure Add where
  vrfName : String
  routeTarget : String
  vrfInterface : String
  hostLink : String
  deriving DecidableEq

def Instance.under (router : String) (i : Instance) : Bool := i.spec.routerRef = some router

/-! ### Choosing an Argument -/

def arguments : List Int :=
  (List.range (argumentMax - argumentMin + 1).toNat).map fun k : Nat => argumentMin + (k : Int)

/-- The Arguments the router's instances hold, other than the one named `self`. -/
def used (items : List Instance) (router self : String) : List Int :=
  (items.filter fun i => i.under router && i.name ≠ self).map (·.spec.vrfID)

def lowestFreeArgument (items : List Instance) (router self : String) : Option Int :=
  arguments.find? fun arg => !(used items router self).contains arg

def chosen (items : List Instance) (router self : String) : Option Int :=
  match items.find? fun i => i.under router && i.name = self with
  | some i => some i.spec.vrfID
  | none => lowestFreeArgument items router self

def holderOf (items : List Instance) (router self : String) (vrfID : Int) : Option String :=
  (items.find? fun i => i.under router && i.name ≠ self && i.spec.vrfID = vrfID).map (·.name)

/-! ### The calls -/

inductive Failure
  | lock
  | list
  | exhausted
  | apply
  | siblings
  | collision (holder : String) (vrfID : Int)
  | collides (vrfID : Int) (holder : String) (moves : Nat)
  | reallocate
  | release
  deriving DecidableEq, Repr

/-- What `claimArgument` returns: whether this call created the instance, and the Argument or an error. -/
structure Claimed where
  created : Bool
  out : Except Failure Int
  deriving DecidableEq

/-- The datapath maps with rows for an Argument: `vrf_table` and `vpc_attribution_table`. -/
inductive RowMap
  | vrf
  | attribution
  deriving DecidableEq

inductive Row
  | routes (table : Nat)
  | names (vrfInterface : String)
  deriving DecidableEq

/-- What a call asks of the API server and the host. -/
inductive Req
  | lock
  | list
  | get (name : String)
  | create (name : String) (spec : Spec)
  | update (read : Instance) (spec : Spec)
  | siblings (vrfInterface hostLink : String)
  | tableID (vrfInterface : String)
  | openMaps
  | getRow (m : RowMap) (block argument : Nat)
  | unregister (m : RowMap) (block argument : Nat)
  | unlock (a : Add) (claimed : Claimed)
  | again

/-- The answers; an operation that fails answers false or nothing. -/
def Reply : Req → Type
  | .lock | .create _ _ | .update _ _ | .openMaps | .unregister _ _ _ | .again => Bool
  | .list => Option (List Instance)
  | .get _ => Option (Option Instance)
  | .siblings _ _ => Option (List String)
  | .tableID _ => Option Nat
  | .getRow _ _ _ => Option (Option Row)
  | .unlock _ _ => Unit

/-- A step that stops with an error. -/
abbrev Call := ExceptT Failure (Prog Req Reply)

def judged (ok : Bool) (e : Failure) : Except Failure Unit := if ok then .ok () else .error e

def answered {α : Type} (answer : Option α) (e : Failure) : Except Failure α := answer.elim (.error e) .ok

def list : Call (List Instance) := .mk (.ask .list fun items : Option (List Instance) => .ret (answered items .list))

def allocateArgument (router name : String) : Call Int := do
  let items ← list
  ExceptT.mk (pure (answered (chosen items router name) .exhausted))

def nextFreeArgument (router name : String) : Call Int := do
  let items ← list
  ExceptT.mk (pure (answered (lowestFreeArgument items router name) .exhausted))

def argumentHolder (router name : String) (vrfID : Int) : Call (Option String) := do
  let items ← list
  pure (holderOf items router name vrfID)

def apply (name : String) (spec : Spec) (e : Failure) : Option (Option Instance) → Prog Req Reply (Except Failure Bool)
  | none => .ret (.error e)
  | some none => .ask (.create name spec) fun ok : Bool => .ret ((judged ok e).map fun _ => true)
  | some (some i) =>
    if i.spec = spec then .ret (.ok false)
    else .ask (.update i spec) fun ok : Bool => .ret ((judged ok e).map fun _ => false)

/-- Reads the instance, then creates or updates it. -/
def createOrUpdate (name : String) (spec : Spec) (e : Failure) : Call Bool := .mk (.ask (.get name) (apply name spec e))

def siblings (a : Add) : Call (List String) :=
  .mk (.ask (.siblings a.vrfInterface a.hostLink) fun links : Option (List String) => .ret (answered links .siblings))

def tableID (vrfInterface : String) : Call Nat :=
  .mk (.ask (.tableID vrfInterface) fun t : Option Nat => .ret (answered t .release))

def openMaps : Call Unit := .mk (.ask .openMaps fun ok : Bool => .ret (judged ok .release))

def unregisterOwn (m : RowMap) (block argument : Nat) (own : Row) :
    Option (Option Row) → Prog Req Reply (Except Failure Unit)
  | none => .ret (.error .release)
  | some row =>
    if row = some own then .ask (.unregister m block argument) fun ok : Bool => .ret (judged ok .release)
    else .ret (.ok ())

def releaseRow (m : RowMap) (block argument : Nat) (own : Row) : Call Unit :=
  .mk (.ask (.getRow m block argument) (unregisterOwn m block argument own))

/-- Removes the Argument's `vrf_table` row if it routes to the VRF's table, and its `vpc_attribution_table` row if it
names the VRF. -/
def releaseArgumentRows (block argument table : Nat) (vrfInterface : String) : Call Unit := do
  releaseRow .vrf block argument (.routes table)
  releaseRow .attribution block argument (.names vrfInterface)

def uint16 (argument : Int) : Nat := (argument % 2 ^ 16).toNat

def releaseArgument (node : Node) (vrfInterface : String) (argument : Int) : Call Unit :=
  match node with
  | .unconfigured => pure ()
  | .invalid => throw .release
  | .block b => do
    let table ← tableID vrfInterface
    openMaps
    releaseArgumentRows b (uint16 argument) table vrfInterface

def build (site : Site) (a : Add) (vrfID : Int) : Spec := ⟨some site.routerName, vrfID, a.routeTarget⟩

/-- Whether a collision may be answered by a move: nothing without one, the holder if this call may move its instance,
and an error if it may not. -/
def onHolder (a : Add) (createdBefore : Bool) (vrfID : Int) (ours : Bool) : Option String → Call (Option String)
  | none => pure none
  | some holder =>
    if ours then pure (some holder)
    else if createdBefore then do
      let others ← siblings a
      if others.isEmpty then pure (some holder) else throw (.collision holder vrfID)
    else throw (.collision holder vrfID)

def mayMove (site : Site) (a : Add) (createdBefore : Bool) (vrfID : Int) (ours : Bool) : Call (Option String) := do
  let holder ← argumentHolder site.routerName a.vrfName vrfID
  onHolder a createdBefore vrfID ours holder

/-- One move: the next free Argument, the write, and the release of the Argument left. -/
def move (site : Site) (a : Add) (vrfID : Int) : Call Int := do
  let next ← nextFreeArgument site.routerName a.vrfName
  let _ ← createOrUpdate a.vrfName (build site a next) .reallocate
  releaseArgument site.node a.vrfInterface vrfID
  pure next

/-- The rounds of checks and moves, with the number of moves left. Who could move once can move again. -/
def rounds (site : Site) (a : Add) (createdBefore : Bool) (left : Nat) (vrfID : Int) (ours : Bool) : Call Int := do
  match ← mayMove site a createdBefore vrfID ours with
  | none => pure vrfID
  | some holder => match left with
    | 0 => throw (.collides vrfID holder maxArgumentReallocations)
    | left + 1 => do
      let next ← move site a vrfID
      rounds site a createdBefore left next true

def claimLocked (site : Site) (a : Add) (createdBefore : Bool) : Prog Req Reply Claimed := do
  match ← (allocateArgument site.routerName a.vrfName).run with
  | .error e => pure ⟨false, .error e⟩
  | .ok vrfID =>
    match ← (createOrUpdate a.vrfName (build site a vrfID) .apply).run with
    | .error e => pure ⟨false, .error e⟩
    | .ok created =>
      let out ← (rounds site a createdBefore maxArgumentReallocations vrfID created).run
      pure ⟨created, out⟩

def claimArgument (site : Site) (a : Add) (createdBefore : Bool) : Prog Req Reply Claimed :=
  .ask .lock fun ok : Bool =>
    if ok then do
      let claimed ← claimLocked site a createdBefore
      .ask (.unlock a claimed) fun _ => .ret claimed
    else .ret ⟨false, .error .lock⟩

/-- The attempts of an ADD, with the number of attempts that may follow. What comes after the claim is left to the
answer of `again`: whether the attempt failed, here or later, with an error worth another one. -/
def publishBGPState (site : Site) (a : Add) : Nat → Bool → Prog Req Reply Unit
  | 0, createdBefore => do
    let _ ← claimArgument site a createdBefore
    pure ()
  | tries + 1, createdBefore => do
    let claimed ← claimArgument site a createdBefore
    .ask .again fun again : Bool =>
      if again then publishBGPState site a tries (createdBefore || claimed.created) else .ret ()

/-! ### The API server and the host -/

/-- What a call saw and did, as the server and the host know it. -/
inductive Entry
  | listed (items : List Instance)
  | created (i : Instance)
  | updated (before after : Instance)
  | alone
  | table (t : Nat)
  | row (m : RowMap) (argument : Nat) (row : Option Row)
  deriving DecidableEq

/-- A call that has let go of the lock: whether an earlier attempt of its ADD had created an instance, what it saw and
did, the latest first, and its result. -/
structure Finished (P : Type) where
  thread : P
  add : Add
  earlier : Bool
  trace : List Entry
  claimed : Claimed
  deriving DecidableEq

structure State (P : Type) where
  instances : List Instance
  nextUID : Nat
  lock : Option P := none
  enslaved : String → List String := fun _ => []
  table : String → Option Nat := fun _ => none
  row : RowMap → Nat → Nat → Option Row := fun _ _ _ => none
  /-- What the call that has the lock saw and did, and whether an earlier attempt of its ADD created an instance. -/
  trace : List Entry := []
  earlier : Bool := false
  /-- Whether a thread's ADD has created an instance. -/
  made : P → Bool := fun _ => false
  done : List (Finished P) := []
  /-- The instances written without the lock. -/
  foreign : List String := []
  /-- Every Argument that an instance of the router has had. -/
  past : List (Nat × Int)

variable {P : Type} [DecidableEq P]

def State.find (s : State P) (name : String) : Option Instance := s.instances.find? fun i => i.name = name

def put (i : Instance) (items : List Instance) : List Instance := i :: items.filter fun j => j.name ≠ i.name

def remember (router : String) (i : Instance) (past : List (Nat × Int)) : List (Nat × Int) :=
  if i.under router then (i.uid, i.spec.vrfID) :: past else past

def State.note (s : State P) (e : Entry) : State P := { s with trace := e :: s.trace }

def State.update (s : State P) (router : String) (read : Instance) (spec : Spec) : State P :=
  { s with
    instances := put { read with spec := spec } s.instances
    trace := .updated read { read with spec := spec } :: s.trace
    past := remember router { read with spec := spec } s.past }

/-- A thread creates an instance, which takes the next UID. -/
def State.create (s : State P) (router : String) (p : P) (name : String) (spec : Spec) : State P :=
  { s with
    instances := put ⟨name, s.nextUID, spec⟩ s.instances
    nextUID := s.nextUID + 1
    trace := .created ⟨name, s.nextUID, spec⟩ :: s.trace
    made := Function.update s.made p true
    past := remember router ⟨name, s.nextUID, spec⟩ s.past }

def State.setRow (s : State P) (m : RowMap) (b arg : Nat) (row : Option Row) : State P :=
  { s with row := Function.update s.row m (Function.update (s.row m) b (Function.update (s.row m b) arg row)) }

/-- Whether an operation succeeds, and whether a write whose reply is lost took effect. -/
structure Choice where
  ok : Bool
  lands : Bool

def serve (site : Site) (s : State P) (p : P) (ch : Choice) : (q : Req) → Option (Reply q × State P)
  | .lock =>
    if ch.ok then
      if s.lock = none then some (true, { s with lock := some p, trace := [], earlier := s.made p }) else none
    else some (false, s)
  | .list => some (if ch.ok then (some s.instances, s.note (.listed s.instances)) else (none, s))
  | .get name => some (if ch.ok then some (s.find name) else none, s)
  | .create name spec =>
    some (if s.find name = none ∧ (ch.ok || ch.lands) = true then (ch.ok, s.create site.routerName p name spec)
      else (false, s))
  | .update read spec =>
    some (if s.find read.name = some read ∧ (ch.ok || ch.lands) = true then
        (ch.ok, s.update site.routerName read spec)
      else (false, s))
  | .siblings vrfInterface hostLink =>
    some (if ch.ok then
        (some ((s.enslaved vrfInterface).filter (· ≠ hostLink)),
          if ((s.enslaved vrfInterface).filter (· ≠ hostLink)).isEmpty then s.note .alone else s)
      else (none, s))
  | .tableID vrfInterface => match s.table vrfInterface with
    | some t => some (if ch.ok then (some t, s.note (.table t)) else (none, s))
    | none => some (none, s)
  | .openMaps => some (ch.ok, s)
  | .getRow m b arg => some (if ch.ok then (some (s.row m b arg), s.note (.row m arg (s.row m b arg))) else (none, s))
  | .unregister m b arg =>
    some (if ch.ok then (true, (s.setRow m b arg none).note (.row m arg none)) else (false, s))
  | .unlock a claimed =>
    some ((), { s with
      lock := if s.lock = some p then none else s.lock
      done := ⟨p, a, s.earlier, s.trace, claimed⟩ :: s.done })
  | .again => some (ch.ok, s)

/-- The death of a thread frees its lock. -/
def die (s : State P) (p : P) : State P :=
  { s with lock := if s.lock = some p then none else s.lock, made := Function.update s.made p false }

/-- What the surroundings do: delete an instance, write one without the lock, or change links, tables and rows. -/
inductive Move
  | delete (name : String)
  | write (name : String) (spec : Spec)
  | enslave (vrfInterface : String) (links : List String)
  | setTable (vrfInterface : String) (table : Option Nat)
  | setRow (m : RowMap) (block argument : Nat) (row : Option Row)

/-- An instance written without the lock: changed, or created. -/
def State.overwrite (s : State P) (name : String) (spec : Spec) : State P :=
  match s.find name with
  | some i => { s with instances := put { i with spec := spec } s.instances, foreign := name :: s.foreign }
  | none => { s with
      instances := put ⟨name, s.nextUID, spec⟩ s.instances
      nextUID := s.nextUID + 1
      foreign := name :: s.foreign }

def State.moved (s : State P) : Move → State P
  | .delete name => { s with instances := s.instances.filter fun i => i.name ≠ name }
  | .write name spec => s.overwrite name spec
  | .enslave vrfInterface links => { s with enslaved := Function.update s.enslaved vrfInterface links }
  | .setTable vrfInterface table => { s with table := Function.update s.table vrfInterface table }
  | .setRow m b arg row => s.setRow m b arg row

def machine (P : Type) [DecidableEq P] (site : Site) : Threads.Machine P Add (State P) Req Reply Unit where
  Choice := Choice
  Move := Move
  serve := fun s p _ ch q => serve site s p ch q
  finish := fun s p _ _ => { s with made := Function.update s.made p false }
  die := fun s p _ => die s p
  move := State.moved

def Add.body (site : Site) (a : Add) : Prog Req Reply Unit := publishBGPState site a maxRetries false

end Galactic.CniBgp
