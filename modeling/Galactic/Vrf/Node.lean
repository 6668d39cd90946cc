import Galactic.Lib.FallibleProg
import Galactic.Uformat.Codec
import Galactic.Vrf.Reservation

/-!
# VRFs of a node

`vrf.go` of `internal/plumbing/vrf`: the reservation file and the interfaces of a network namespace, and the calls that
change them. A call runs with the lock held, so calls do not interleave; each of its steps may fail, as `World` says,
and then the call ends with what was done before. What the steps do to routes and sysctls is left out. -/

namespace Galactic.Vrf

open FallibleProg

/-- A VRF interface. `range` is that of the call that created it; the kernel does not have it. -/
structure VrfLink where
  name : String
  table : Nat
  index : Nat
  range : Range
  deriving DecidableEq

/-- An interface of another type, with the index of the one it is enslaved to. -/
structure OtherLink where
  name : String
  type : String
  master : Nat
  deriving DecidableEq

/-- The file, which is `none` while there is none that can be read, and the interfaces of one network namespace. The
host and a sidecar share the file and not the interfaces: a call of the other one is not modelled. -/
structure Node where
  file : Option (List Reservation)
  vrfs : List VrfLink
  others : List OtherLink
  deriving DecidableEq

inductive Err
  | lock
  | notVRF (name type : String)
  | tableOutOfRange (name : String) (table minID maxID : Nat)
  | noTable (minID maxID : Nat)
  | inUse (name : String) (slaves : List String)
  | notFound (name : String)
  | read
  | save
  | listLinks
  | lookup
  | flush
  | linkAdd
  | sysctl
  | defaults
  | setUp
  | linkDel
  | enslave
  deriving DecidableEq

/-- Which steps of a call fail, and the index of an interface that it creates. -/
structure World where
  lock : Bool := false
  /-- The first `LinkByName` of an ADD fails though the interface may be there. -/
  addLookup : Bool := false
  listLinks : Bool := false
  readFile : Bool := false
  listSeed : Bool := false
  save : Bool := false
  flush : Bool := false
  linkAdd : Bool := false
  sysctl : Bool := false
  defaults : Bool := false
  setUp : Bool := false
  lookup : Bool := false
  linkDel : Bool := false
  enslave : Bool := false
  index : Nat := 0

def sidecarTableIDBase : Nat := 0x10000

def hostRange : Range := ⟨1, 0xEFFF⟩

def sidecarRange : Range := ⟨sidecarTableIDBase + 1, sidecarTableIDBase + Uformat.argumentMax.toNat⟩

/-- `GenerateInterfaceNameVRF`: the format `G%09s%s`. -/
def generateInterfaceNameVRF (vpc : String) : String :=
  "G" ++ String.ofList (List.replicate (9 - vpc.length) '0') ++ vpc ++ "V"

abbrev M := Prog Node Err

/-! ### The file -/

/-- `seedReservations`, of interfaces that could be listed. -/
def seedReservations (vrfs : List VrfLink) : List Reservation := vrfs.map fun l => ⟨l.name, l.table⟩

/-- What `loadReservations` reads. -/
def Node.reservations (s : Node) : List Reservation := s.file.getD (seedReservations s.vrfs)

def loadReservations (w : World) : M (List Reservation) := do
  check w.readFile .read
  let s ← get
  match s.file with
  | some res => return res
  | none =>
    check w.listSeed .listLinks
    return seedReservations s.vrfs

def saveReservations (w : World) (res : List Reservation) : M Unit := do
  check w.save .save
  modify fun s => { s with file := some (res.insertionSort fun a b => a.before b) }

def releaseLocked (w : World) (name : String) (table : Nat) : M Unit := do
  let res ← loadReservations w
  match releaseTable res name table with
  | (_, false) => return ()
  | (kept, true) => saveReservations w kept

def releaseNameLocked (w : World) (name : String) (rg : Range) : M Unit := do
  let res ← loadReservations w
  if (releaseName res name rg).length = res.length then return ()
  else saveReservations w (releaseName res name rg)

def recordExistingTable (w : World) (name : String) (table : Nat) (rg : Range) : M Unit := do
  let res ← loadReservations w
  match recordTable res name table rg with
  | (_, false) => return ()
  | (kept, true) => saveReservations w kept

/-- The map `live` of `reserveVRFTable`: a later interface overwrites an earlier one with its table. -/
def liveNames (vrfs : List VrfLink) (table : Nat) : Option String :=
  (vrfs.reverse.find? fun l => l.table = table).map (·.name)

def reserveVRFTable (w : World) (name : String) (rg : Range) : M Nat := do
  check w.listLinks .listLinks
  let s ← get
  let res ← loadReservations w
  match reserveTable res (s.vrfs.map (·.table)) (liveNames s.vrfs) name rg with
  | none => throw (.noTable rg.minID rg.maxID)
  | some (table, res) =>
    saveReservations w res
    return table

/-! ### Interfaces -/

def Node.vrf? (s : Node) (name : String) : Option VrfLink := s.vrfs.find? fun l => l.name = name

def Node.other? (s : Node) (name : String) : Option OtherLink := s.others.find? fun l => l.name = name

def linkAdd (w : World) (name : String) (table : Nat) (rg : Range) : M Unit := do
  check w.linkAdd .linkAdd
  let s ← get
  match s.vrf? name, s.other? name with
  | none, none => modify fun s => { s with vrfs := s.vrfs ++ [⟨name, table, w.index, rg⟩] }
  | _, _ => throw .linkAdd

def linkDel (w : World) (name : String) : M Unit := do
  check w.linkDel .linkDel
  modify fun s => { s with vrfs := s.vrfs.filter fun l => l.name ≠ name }

/-- The end of `addLocked`, which looks the new interface up. -/
def lookupCreated (w : World) (name : String) : M VrfLink := do
  check w.lookup .lookup
  let s ← get
  match s.vrf? name, s.other? name with
  | some l, _ => return l
  | none, some l => throw (.notVRF name l.type)
  | none, none => throw (.notFound name)

/-- The part of `addLocked` for a name that has no interface. -/
def create (w : World) (name : String) (rg : Range) : M VrfLink := do
  let vrfID ← reserveVRFTable w name rg
  check w.flush .flush
  linkAdd w name vrfID rg
  check w.sysctl .sysctl
  check w.defaults .defaults
  check w.setUp .setUp
  lookupCreated w name

/-- The part of `addLocked` for a VRF that exists. A failure to record its table is only logged. -/
def reuse (w : World) (existing : VrfLink) (rg : Range) : M VrfLink := do
  if rg.Has existing.table then
    tryCatch (recordExistingTable w existing.name existing.table rg) fun _ => pure ()
    check w.defaults .defaults
    return existing
  else throw (.tableOutOfRange existing.name existing.table rg.minID rg.maxID)

def addLocked (w : World) (vpc : String) (rg : Range) : M VrfLink := do
  let name := generateInterfaceNameVRF vpc
  let s ← get
  if w.addLookup then create w name rg
  else
    match s.vrf? name, s.other? name with
    | some existing, _ => reuse w existing rg
    | none, some l => throw (.notVRF name l.type)
    | none, none => create w name rg

def addInRange (w : World) (vpc : String) (rg : Range) : M VrfLink := do
  check w.lock .lock
  addLocked w vpc rg

/-- `EnsureAndEnslave`. What `enslave` does to other interfaces is a change of them between two calls. -/
def ensureAndEnslave (w : World) (vpc : String) : M VrfLink := do
  check w.lock .lock
  let l ← addLocked w vpc hostRange
  check w.enslave .enslave
  return l

def deleteInRange (w : World) (vpc : String) (rg : Range) : M Unit := do
  check w.lock .lock
  let name := generateInterfaceNameVRF vpc
  check w.listLinks .listLinks
  let s ← get
  match s.vrf? name with
  | none => releaseNameLocked w name rg
  | some _ =>
    check w.flush .flush
    check w.lookup .lookup
    linkDel w name
    releaseNameLocked w name rg

def enslavedTo (others : List OtherLink) (index : Nat) : List String :=
  (others.filter fun l => l.master = index).map (·.name)

def deleteIfUnused (w : World) (name : String) : M Bool := do
  check w.lock .lock
  check w.listLinks .listLinks
  let s ← get
  match s.vrf? name, s.other? name with
  | some l, _ =>
    if enslavedTo s.others l.index ≠ [] then throw (.inUse name (enslavedTo s.others l.index))
    else
      check w.flush .flush
      linkDel w name
      return true
  | none, some l => throw (.notVRF name l.type)
  | none, none => return false

/-! ### Runs -/

inductive Call
  | addInRange (w : World) (vpc : String) (rg : Range)
  | ensureAndEnslave (w : World) (vpc : String)
  | deleteInRange (w : World) (vpc : String) (rg : Range)
  | deleteIfUnused (w : World) (name : String)
  | releaseLocked (w : World) (name : String) (table : Nat)
  | others (links : List OtherLink)

def Call.step (s : Node) : Call → Node
  | .addInRange w vpc rg => (exec (Vrf.addInRange w vpc rg) s).2
  | .ensureAndEnslave w vpc => (exec (Vrf.ensureAndEnslave w vpc) s).2
  | .deleteInRange w vpc rg => (exec (Vrf.deleteInRange w vpc rg) s).2
  | .deleteIfUnused w name => (exec (Vrf.deleteIfUnused w name) s).2
  | .releaseLocked w name table => (exec (Vrf.releaseLocked w name table) s).2
  | .others links => { s with others := links }

/-- The ranges are those of the host and the sidecar, and an ADD sees an interface that is there. -/
def Call.Regular : Call → Prop
  | .addInRange w _ rg => w.addLookup = false ∧ (rg = hostRange ∨ rg = sidecarRange)
  | .ensureAndEnslave w _ => w.addLookup = false
  | .deleteInRange _ _ rg => rg = hostRange ∨ rg = sidecarRange
  | .deleteIfUnused _ _ => True
  | .releaseLocked _ _ _ => True
  | .others _ => True

def Call.Releases : Call → Reservation → Prop
  | .deleteInRange _ vpc rg, r => r.name = generateInterfaceNameVRF vpc ∧ rg.Has r.table
  | .releaseLocked _ name table, r => r.name = name ∧ r.table = table
  | _, _ => False

def Node.empty : Node := ⟨none, [], []⟩

def run : Node → List Call → Node
  | s, [] => s
  | s, c :: calls => run (c.step s) calls

end Galactic.Vrf
