import Galactic.Gateway.Rule
import Galactic.Lib.FallibleProg
import Galactic.Lib.Entries

/-!
# The edge maps

`viptable.go` and `ranges.go` of `internal/plumbing/ebpf/edgemap`, over the maps of a loaded program: the rows of single
ports and of ranges, the ranges of each address, and the addresses that return traffic is accepted for. The counters
that the program keeps are left out, but the calls that delete them may fail. -/

namespace Galactic.Gateway

open Net FallibleProg

/-! ### Wire forms -/

def beU16 (v : UInt16) : UInt16 := v <<< 8 ||| v >>> 8

def toWireAddr (addr : Addr) : Option (List UInt8) :=
  if addr.is4 then some addr.as16
  else if addr.is6 ∧ ¬addr.is4In6 then some addr.as16
  else none

structure WireKey where
  proto : UInt8
  port : UInt16
  vip : List UInt8
  deriving DecidableEq

def toWireKey (key : VIPKey) : Option WireKey := (toWireAddr key.vip).map fun vip => ⟨key.proto, beU16 key.vport, vip⟩

/-- `rangeKey`: the key of the ranges of an address. -/
def rangeKey (key : VIPKey) : Option WireKey := toWireKey { key with vport := 0 }

structure WireBackend where
  addr : List UInt8
  port : UInt16
  usid : List UInt8
  deriving DecidableEq

/-- `toWireBackends`, from the backend with number `i` on. -/
def toWireBackends : Nat → List Backend → Except Err (List WireBackend)
  | _, [] => .ok []
  | i, b :: bs =>
    match toWireAddr b.addr with
    | none => .error (.backendAddress i)
    | some addr =>
      if ¬b.usid.is6 ∨ b.usid.is4In6 then .error (.backendUSID i)
      else
        match toWireBackends (i + 1) bs with
        | .error e => .error e
        | .ok rest => .ok (⟨addr, beU16 b.port, b.usid.as16⟩ :: rest)

/-- A row of `vip_table` or `vip_range_backends`. -/
structure VipValue where
  backends : List WireBackend
  maglevTable : List UInt8
  affinity : UInt8
  generation : Nat
  deriving DecidableEq

structure VipRange where
  first : UInt16
  last : UInt16
  generation : Nat
  deriving DecidableEq

/-- A row of `vip_range_table`. -/
structure RangeValue where
  ranges : List VipRange
  generation : Nat
  deriving DecidableEq

def maxRangesPerVIP : Nat := 16

/-! ### Maps that may fail -/

/-- The two tables of rows: `vip_table` and `vip_range_backends`. -/
inductive Which
  | scalar
  | range
  deriving DecidableEq

def Which.peer : Which → Which
  | .scalar => .range
  | .range => .scalar

/-- The maps, and what `KernelDatapath` remembers about them. -/
structure Datapath where
  rows : Which → AList fun _ : WireKey => VipValue
  ranges : AList fun _ : WireKey => RangeValue
  addrs : AList fun _ : List UInt8 => Nat
  rangeRules : AList fun _ : String => Bool
  vipKeysByName : AList fun _ : String => List VIPKey

inductive MapOp
  | put
  | addrPut
  | delete
  | statsDelete
  | peerScan
  | scan
  | addrDelete
  | returnStatsDelete
  | lookup
  | statsLookup
  | rangeLookup
  | rangePut
  | rangeDelete

/-- Which operations of a step fail, and what the clock says when it is read. -/
structure Faults where
  fails : MapOp → Bool := fun _ => false
  clock : Nat := 0

abbrev M := Prog Datapath Err

def mapOp (f : Faults) (op : MapOp) (change : Datapath → Datapath) : M Unit := do
  check (f.fails op) .mapOperation
  modify change

def orThrow {α : Type} (e : Err) : Option α → M α
  | some a => return a
  | none => throw e

def liftExcept {α : Type} : Except Err α → M α
  | .ok a => return a
  | .error e => throw e

/-! ### Rows -/

def Datapath.setRow (d : Datapath) (t : Which) (key : WireKey) (v : VipValue) : Datapath :=
  { d with rows := Function.update d.rows t ((d.rows t).insert key v) }

def Datapath.delRow (d : Datapath) (t : Which) (key : WireKey) : Datapath :=
  { d with rows := Function.update d.rows t ((d.rows t).erase key) }

def claimAddr (f : Faults) (vip : Addr) (generation : Nat) : M Unit := do
  let addr ← orThrow (.vip vip) (toWireAddr vip)
  mapOp f .addrPut fun d => { d with addrs := d.addrs.insert addr generation }

/-- `Register` of a `VIPTable`. -/
def register (f : Faults) (t : Which) (key : VIPKey) (affinity : UInt8) (backends : List Backend) (table : List UInt8) :
    M Unit := do
  check (2 < affinity) (.unknownAffinity key affinity)
  check (backends.length = 0) (.noBackend key)
  check (maxBackends < backends.length) (.tooManyBackends "" backends.length)
  let wireKey ← orThrow (.vip key.vip) (toWireKey key)
  let wireBackends ← liftExcept (toWireBackends 0 backends)
  mapOp f .put fun d => d.setRow t wireKey ⟨wireBackends, table, affinity, f.clock⟩
  claimAddr f key.vip f.clock

/-- `fromWireAddr`: a row of the address, in its IPv4 form when it has one. -/
def fromWireAddr (raw : List UInt8) : Addr := ((Addr.ofBytes raw).getD .zero).unmap

def Datapath.uses (d : Datapath) (t : Which) (vip : Addr) : Bool :=
  (d.rows t).keys.any fun key => fromWireAddr key.vip = vip

def releaseAddr (f : Faults) (t : Which) (vip : Addr) : M Unit := do
  let d ← get
  if d.uses t.peer vip then return ()
  else
    check (f.fails .peerScan) .mapOperation
    let addr ← orThrow (.vip vip) (toWireAddr vip)
    if d.uses t vip then return ()
    else
      check (f.fails .scan) .mapOperation
      mapOp f .addrDelete fun d => { d with addrs := d.addrs.erase addr }
      check (f.fails .returnStatsDelete) .mapOperation

def unregister (f : Faults) (t : Which) (key : VIPKey) : M Unit := do
  let wireKey ← orThrow (.vip key.vip) (toWireKey key)
  mapOp f .delete fun d => d.delRow t wireKey
  check (f.fails .statsDelete) .mapOperation
  releaseAddr f t key.vip

/-- `Get`: the row, if there is one. -/
def getRow (f : Faults) (t : Which) (key : VIPKey) : M (Option VipValue) := do
  let wireKey ← orThrow (.vip key.vip) (toWireKey key)
  check (f.fails .lookup) .mapOperation
  let d ← get
  match (d.rows t).lookup wireKey with
  | none => return none
  | some v =>
    check (f.fails .statsLookup) .mapOperation
    return some v

/-! ### Ranges -/

def Datapath.rangesAt (d : Datapath) (raw : WireKey) : List VipRange := ((d.ranges.lookup raw).map (·.ranges)).getD []

/-- The loop of `Register` over the ranges that are there. -/
def keepRanges (first last : UInt16) : List VipRange → M (List VipRange)
  | [] => return []
  | r :: rs => do
    if r.first = first then keepRanges first last rs
    else
      check (r.first ≤ last ∧ first ≤ r.last) (.rangeIntersects r.first r.last)
      let rest ← keepRanges first last rs
      return r :: rest

/-- `Register` of a `RangeTable`. -/
def registerRange (f : Faults) (key : VIPKey) (last : UInt16) (generation : Nat) : M Unit := do
  check (key.proto ≠ 17 ∨ key.vport = 0 ∨ last < key.vport ∨ ¬key.vip.is6 ∨ key.vip.is4In6) (.invalidIPv6Range key last)
  let raw ← orThrow (.vip key.vip) (rangeKey key)
  check (f.fails .rangeLookup) .mapOperation
  let d ← get
  check (maxRangesPerVIP < (d.rangesAt raw).length) (.rangeCount (d.rangesAt raw).length)
  let intervals ← keepRanges key.vport last (d.rangesAt raw)
  check (intervals.length = maxRangesPerVIP) .rangeCapacity
  let next := (intervals ++ [(⟨key.vport, last, generation⟩ : VipRange)]).insertionSort fun a b => a.first ≤ b.first
  mapOp f .rangePut fun d => { d with ranges := d.ranges.insert raw ⟨next, f.clock⟩ }

/-- `Remove` of a `RangeTable`. -/
def removeRange (f : Faults) (key : VIPKey) : M Unit := do
  let raw ← orThrow (.vip key.vip) (rangeKey key)
  check (f.fails .rangeLookup) .mapOperation
  let d ← get
  match d.ranges.lookup raw with
  | none => return ()
  | some value =>
    check (maxRangesPerVIP < value.ranges.length) (.rangeCount value.ranges.length)
    let kept := value.ranges.filter fun r => r.first ≠ key.vport
    if kept = [] then mapOp f .rangeDelete fun d => { d with ranges := d.ranges.erase raw }
    else mapOp f .rangePut fun d => { d with ranges := d.ranges.insert raw ⟨kept, f.clock⟩ }

end Galactic.Gateway
