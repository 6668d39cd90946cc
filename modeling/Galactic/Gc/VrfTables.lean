import Galactic.ServicePlan.Programming
import Galactic.Vrf.Node

/-!
# The sweep of VRF table reservations

`vrftables.go` of `internal/gc`, with the name functions of `gc.go` and `crdnames.go` that it uses. A sweep runs under
the VRF lock. It releases the host reservations that it has seen unreferenced for the grace, and removes the egress
routes of tables that nobody holds. -/

namespace Galactic.Gc

open FallibleProg Vrf Function

/-! ### Names -/

section Names

-- `intf.Base62ToHex` is a call to a library that converts bases
variable (base62ToHex : String → Option String)

def nameSegmentHashLen : Nat := 12

def nameSegment (id : String) : String :=
  let hashed := "x" ++ String.ofList
    ((ServicePlan.hexEncode (Sha256.sum256 id.toUTF8.toList).toList).toList.take nameSegmentHashLen)
  match base62ToHex id with
  | some encoded => if encoded ≠ "" then encoded else hashed
  | none => hashed

def vpcSegment (vpc : String) : String := nameSegment base62ToHex vpc

def vpcKeys (vpc : String) : List String :=
  if vpcSegment base62ToHex vpc = vpc then [vpc] else [vpc, vpcSegment base62ToHex vpc]

/-- The first group of `^G([A-Za-z0-9]{9})V$`, where the end of the name is what `tail` accepts. -/
def vpcGroup (tail : List Char → Bool) (name : String) : Option (List Char) :=
  match name.toList with
  | 'G' :: rest =>
    if (rest.take 9).length = 9 ∧ (rest.take 9).all Char.isAlphanum ∧ tail (rest.drop 9) then some
      (rest.take 9) else none
  | _ => none

def trimZeros (group : List Char) : String := String.ofList (group.dropWhile (· = '0'))

def parseVRFName (name : String) : Option String :=
  (vpcGroup (fun tail => tail = ['V']) name).map trimZeros

/-- `legacyVRFNameRegex`, with its three more characters. -/
def parseLegacyVRFName (name : String) : Option String :=
  (vpcGroup (fun tail => (tail.take 3).length = 3 ∧ (tail.take 3).all Char.isAlphanum ∧ tail.drop 3 = ['V']) name).map
    trimZeros

def vpcFromVRFName (name : String) : Option String :=
  match parseVRFName name with
  | some vpc => some vpc
  | none => parseLegacyVRFName name

def vrfNamedByInstance (vrfName nodeName : String) (instNames : List String) : Prop :=
  match vpcFromVRFName vrfName with
  | none => False
  | some vpc => ∃ key ∈ vpcKeys base62ToHex vpc, key ++ "-" ++ nodeName ∈ instNames

instance (vrfName nodeName : String) (instNames : List String) :
    Decidable (vrfNamedByInstance base62ToHex vrfName nodeName instNames) := by
  unfold vrfNamedByInstance
  split <;> infer_instance

end Names

/-! ### State -/

/-- An entry of `egress_route_table`, by its key. -/
structure EgressRoute where
  table : Nat
  route : String
  deriving DecidableEq

/-- A node and its sweeper. `rows` has the table of each `vrf_table` entry, `instNames` the names of the live
`BGPVRFInstance`s, `seen` is `unreferenced`, and `now` is the process's clock in nanoseconds. -/
structure State where
  node : Node
  rows : List Nat
  instNames : List String
  egress : List EgressRoute
  seen : Reservation → Option Nat
  now : Nat

/-- Which steps of a sweep fail. -/
structure World where
  lock : Bool := false
  load : Vrf.World := {}
  listLinks : Bool := false
  listRows : Bool := false
  notPinned : Bool := false
  openEgress : Bool := false
  prefixes : Bool := false
  unregister : Nat → String → Bool := fun _ _ => false
  release : Reservation → Vrf.World := fun _ => {}

inductive Err
  | lock
  | reservations (e : Vrf.Err)
  | listLinks
  | listRows
  | openEgress
  | prefixes
  | unregister (table : Nat) (route : String)
  | release (e : Vrf.Err)

structure CleanupResult where
  egressRouteTablesRemoved : Nat := 0
  vrfTableReservationsReleased : Nat := 0
  errors : Nat := 0
  deriving DecidableEq

def reservationReleaseGrace : Nat := 2 * 60 * 1000000000

abbrev M := Prog State Err

/-- `elapsed` of `unreferencedSince`. -/
def elapsed (r : Reservation) (now grace : Nat) : M Bool := do
  match (← get).seen r with
  | none =>
    modify fun s => { s with seen := update s.seen r (some now) }
    return false
  | some first => return grace ≤ now - first

def forget (r : Reservation) : M Unit := modify fun s => { s with seen := update s.seen r none }

def hostTable (table : Nat) : Prop := hostRange.Has table

instance (table : Nat) : Decidable (hostTable table) := by unfold hostTable; infer_instance

/-- A step on the file and the interfaces. -/
def onNode {α : Type} (wrap : Vrf.Err → Err) (m : Vrf.M α) : M α := do
  let s ← get
  set { s with node := (exec m s.node).2 }
  match (exec m s.node).1 with
  | .ok a => return a
  | .error e => throw (wrap e)

/-! ### The sweep -/

/-- `Prefixes`, grouped by table. -/
def prefixes (egress : List EgressRoute) : List (Nat × List String) :=
  (egress.map (·.table)).dedup.map fun table =>
    (table, ((egress.filter fun e => e.table = table).map (·.route)).dedup)

def routesOf (byTable : List (Nat × List String)) (table : Nat) : List String :=
  ((byTable.find? fun p => p.1 = table).map (·.2)).getD []

/-- `removeEgressTable`. The routes removed before a failure stay removed. -/
def removeEgressTable (w : World) (table : Nat) : List String → M Nat
  | [] => return 0
  | route :: routes => do
    check (w.unregister table route) (.unregister table route)
    modify fun s => { s with egress := s.egress.filter fun e => e ≠ ⟨table, route⟩ }
    let removed ← removeEgressTable w table routes
    return removed + 1

/-- The variables that the loops of `sweepVRFTableState` change. -/
structure Pass where
  byTable : List (Nat × List String)
  reserved : Nat → Nat
  result : CleanupResult

def Pass.failed (p : Pass) : Pass := { p with result := { p.result with errors := p.result.errors + 1 } }

def Pass.cleared (p : Pass) (table removed : Nat) : Pass :=
  { p with
    byTable := p.byTable.filter fun q => q.1 ≠ table
    result := if 0 < removed then
        { p.result with egressRouteTablesRemoved := p.result.egressRouteTablesRemoved + 1 }
      else p.result }

def Pass.released (p : Pass) (table : Nat) : Pass :=
  { p with
    reserved := update p.reserved table (p.reserved table - 1)
    result := { p.result with vrfTableReservationsReleased := p.result.vrfTableReservationsReleased + 1 } }

section Sweep
variable (base62ToHex : String → Option String) (nodeName : String)

def referenced (r : Reservation) (links : List VrfLink) (rowTables : List Nat) (instNames : List String) : Prop :=
  ¬hostTable r.table ∨ r.name ∈ links.map (·.name) ∨ r.table ∈ links.map (·.table) ∨ r.table ∈ rowTables ∨
    vrfNamedByInstance base62ToHex r.name nodeName instNames

instance (r : Reservation) (links : List VrfLink) (rowTables : List Nat) (instNames : List String) :
    Decidable (referenced base62ToHex nodeName r links rowTables instNames) := by unfold referenced; infer_instance

/-- The body of the first loop. -/
def releaseOne (w : World) (links : List VrfLink) (rowTables : List Nat) (instNames : List String) (now : Nat)
    (r : Reservation) (p : Pass) : M Pass := do
  if referenced base62ToHex nodeName r links rowTables instNames then
    forget r
    return p
  else
    match ← elapsed r now reservationReleaseGrace with
    | false => return p
    | true =>
      match ← attempt (removeEgressTable w r.table (routesOf p.byTable r.table)) with
      | .error _ => return p.failed
      | .ok removed =>
        match ← attempt (onNode .release (releaseLocked (w.release r) r.name r.table)) with
        | .error _ => return (p.cleared r.table removed).failed
        | .ok _ =>
          forget r
          return (p.cleared r.table removed).released r.table

def releaseLoop (w : World) (links : List VrfLink) (rowTables : List Nat) (instNames : List String) (now : Nat) :
    List Reservation → Pass → M Pass
  | [], p => return p
  | r :: res, p => do
    let p ← releaseOne base62ToHex nodeName w links rowTables instNames now r p
    releaseLoop w links rowTables instNames now res p

def removeLoop (w : World) (links : List VrfLink) (rowTables : List Nat) (reserved : Nat → Nat) :
    List (Nat × List String) → CleanupResult → M CleanupResult
  | [], result => return result
  | (table, routes) :: byTable, result => do
    if ¬hostTable table ∨ 0 < reserved table ∨ table ∈ links.map (·.table) ∨ table ∈ rowTables then
      removeLoop w links rowTables reserved byTable result
    else
      match ← attempt (removeEgressTable w table routes) with
      | .error _ => removeLoop w links rowTables reserved byTable { result with errors := result.errors + 1 }
      | .ok _ =>
        removeLoop w links rowTables reserved byTable
          { result with egressRouteTablesRemoved := result.egressRouteTablesRemoved + 1 }

/-- The function that `sweepVRFTableState` runs under the lock. -/
def sweepLocked (w : World) (result : CleanupResult) : M CleanupResult := do
  check w.lock .lock
  let reservations ← onNode .reservations (loadReservations w.load)
  check w.listLinks .listLinks
  check w.listRows .listRows
  if w.notPinned then return result
  else
    check w.openEgress .openEgress
    check w.prefixes .prefixes
    let s ← get
    let p ← releaseLoop base62ToHex nodeName w s.node.vrfs s.rows s.instNames s.now reservations
      ⟨prefixes s.egress, fun table => reservations.countP fun r => r.table = table, result⟩
    removeLoop w s.node.vrfs s.rows p.reserved p.byTable p.result

def sweepVRFTableState (w : World) (result : CleanupResult) : M CleanupResult :=
  tryCatch (sweepLocked base62ToHex nodeName w result) fun _ => return { result with errors := result.errors + 1 }

/-! ### Runs -/

/-- What can happen to a node: the file and the interfaces change, or the `vrf_table` entries, the instances or the
egress routes do; the process restarts; or it sweeps. -/
inductive Event
  | node (n : Node)
  | rows (tables : List Nat)
  | instances (names : List String)
  | routes (egress : List EgressRoute)
  | restart
  | sweep (w : World)

def State.wait (s : State) (delay : Nat) : State := { s with now := s.now + delay }

def State.sweep (s : State) (w : World) : State := (exec (sweepVRFTableState base62ToHex nodeName w {}) s).2

def Event.apply (s : State) : Event → State
  | .node n => { s with node := n }
  | .rows tables => { s with rows := tables }
  | .instances names => { s with instNames := names }
  | .routes egress => { s with egress := egress }
  | .restart => { s with seen := fun _ => none }
  | .sweep w => s.sweep base62ToHex nodeName w

def run : State → List (Nat × Event) → State
  | s, [] => s
  | s, (delay, e) :: events => run (e.apply base62ToHex nodeName (s.wait delay)) events

def history : State → List (Nat × Event) → List State
  | _, [] => []
  | s, (delay, e) :: events => s.wait delay :: history (e.apply base62ToHex nodeName (s.wait delay)) events

end Sweep

end Galactic.Gc
