import Galactic.Limit.Limits
import Galactic.Net.Addr

/-!
# The token buckets of a cell

`Buckets` of `internal/fabric/gateway/limit`. The map of the source holds pointers: `cells` are all buckets that were
made, by number, and `buckets` says which of them a key has. A bucket that is evicted loses its key but stays in
`cells`, and a charge that already found it still debits it there.

An instant is a count of nanoseconds. Which of several buckets an eviction meets first is the order of a Go map; a
number `pick` stands for it. -/

namespace Galactic.Limit

inductive Scope
  | cell
  | project
  | destination
  | queue
  deriving DecidableEq, Repr

inductive Class
  | requestCell
  | requestProject
  | packetCell
  | packetPrincipal
  | packetHost
  | packetPrefix
  deriving DecidableEq, Repr

structure BucketKey where
  cls : Class
  id : String
  deriving DecidableEq, Repr

structure Bucket where
  tokens : ℚ
  since : Int
  deriving DecidableEq

/-- The key families that have a bound. -/
inductive Family
  | project
  | destination
  deriving DecidableEq, Repr

structure Buckets where
  limits : Limits
  start : Int
  cells : List Bucket
  buckets : List (BucketKey × Nat)
  projectKeys : Int
  destinationKeys : Int
  deriving DecidableEq

/-- The errors of a charge, with what `errcode.Retry` is given; the delay is in nanoseconds. -/
inductive ChargeError
  | throttled (scope : Scope) (retry : Int)
  | limiterUnavailable (scope : Scope) (retry : Int)
  deriving DecidableEq

def Class.scopeOf : Class → Scope
  | .requestCell | .packetCell => .cell
  | .requestProject | .packetPrincipal => .project
  | .packetHost | .packetPrefix => .destination

def Class.family : Class → Option Family
  | .requestProject | .packetPrincipal => some .project
  | .packetHost | .packetPrefix => some .destination
  | .requestCell | .packetCell => none

def seconds (d : Int) : ℚ := d / 1000000000

namespace Buckets

def reset (b : Buckets) (now : Int) : Buckets :=
  { b with start := now, cells := [], buckets := [], projectKeys := 0, destinationKeys := 0 }

def new (l : Limits) (now : Int) : Buckets := ⟨l, now, [], [], 0, 0⟩

def rate (b : Buckets) : Class → Rate
  | .requestCell => b.limits.requestCell
  | .requestProject => b.limits.requestProject
  | .packetCell => b.limits.packetCell
  | .packetPrincipal => b.limits.packetPrincipal
  | .packetHost => b.limits.packetHost
  | .packetPrefix => b.limits.packetPrefix

def level (b : Buckets) (k : BucketKey) (bk : Bucket) (now : Int) : ℚ :=
  let r := b.rate k.cls
  let elapsed := max (seconds (now - bk.since)) 0
  min r.burst (bk.tokens + r.perSecond * elapsed)

def cell (b : Buckets) (p : Nat) : Bucket := b.cells.getD p ⟨0, b.start⟩

def find (b : Buckets) (k : BucketKey) : Option Nat := (b.buckets.find? fun e => e.1 = k).map (·.2)

def count (b : Buckets) : Family → Int
  | .project => b.projectKeys
  | .destination => b.destinationKeys

def limit (b : Buckets) : Family → Int
  | .project => b.limits.projectKeys
  | .destination => b.limits.destinationKeys

def addCount (b : Buckets) (f : Family) (d : Int) : Buckets :=
  match f with
  | .project => { b with projectKeys := b.projectKeys + d }
  | .destination => { b with destinationKeys := b.destinationKeys + d }

def full (b : Buckets) (f : Family) (now : Int) : List (BucketKey × Nat) :=
  b.buckets.filter fun e => e.1.cls.family = some f ∧ (b.rate e.1.cls).burst ≤ b.level e.1 (b.cell e.2) now

/-- The key that `evict` discards. -/
def victim (b : Buckets) (f : Family) (now : Int) (pick : Nat) : Option BucketKey :=
  ((b.full f now)[pick % (b.full f now).length]?).map (·.1)

def evict (b : Buckets) (f : Family) (now : Int) (pick : Nat) : Option Buckets :=
  (b.victim f now pick).map fun k => addCount { b with buckets := b.buckets.filter fun e => e.1 ≠ k } f (-1)

def insert (b : Buckets) (k : BucketKey) : Buckets :=
  { b with cells := b.cells ++ [⟨0, b.start⟩], buckets := (k, b.cells.length) :: b.buckets }

def lookup (b : Buckets) (k : BucketKey) (now : Int) (pick : Nat) : Except ChargeError Nat × Buckets :=
  match b.find k with
  | some p => (.ok p, b)
  | none =>
    match k.cls.family with
    | none => (.ok b.cells.length, b.insert k)
    | some f =>
      if b.limit f ≤ b.count f then
        match b.evict f now pick with
        | none => (.error (.limiterUnavailable k.cls.scopeOf 1000000000), b)
        | some b' => (.ok b'.cells.length, (b'.insert k).addCount f 1)
      else (.ok b.cells.length, (b.insert k).addCount f 1)

/-- The first loop of `charge`: the buckets of all keys, the `i`th lookup with its own `pick`. -/
def lookupAll (now : Int) (picks : Nat → Nat) : List BucketKey → Nat → Buckets → Except ChargeError (List Nat) × Buckets
  | [], _, b => (.ok [], b)
  | k :: keys, i, b =>
    match b.lookup k now (picks i) with
    | (.error e, b) => (.error e, b)
    | (.ok p, b) =>
      match lookupAll now picks keys (i + 1) b with
      | (.error e, b) => (.error e, b)
      | (.ok ps, b) => (.ok (p :: ps), b)

def shortage (b : Buckets) (n : ℚ) (now : Int) : List (BucketKey × Nat) → ℚ × Option Scope → ℚ × Option Scope
  | [], acc => acc
  | (k, p) :: found, (wait, scope) =>
    let level := b.level k (b.cell p) now
    if level < n then
      let d := (n - level) / (b.rate k.cls).perSecond
      if wait < d then b.shortage n now found (d, some k.cls.scopeOf) else b.shortage n now found (wait, scope)
    else b.shortage n now found (wait, scope)

/-- The third loop. An older reading does not move the clock of a bucket back. -/
def debit (n : ℚ) (now : Int) : List (BucketKey × Nat) → Buckets → Buckets
  | [], b => b
  | (k, p) :: found, b =>
    let since := max now (b.cell p).since
    debit n now found { b with cells := b.cells.set p ⟨b.level k (b.cell p) since - n, since⟩ }

def charge (b : Buckets) (n : ℚ) (now : Int) (picks : Nat → Nat) (keys : List BucketKey) :
    Except ChargeError Unit × Buckets :=
  match lookupAll now picks keys 0 b with
  | (.error e, b) => (.error e, b)
  | (.ok ps, b) =>
    match b.shortage n now (keys.zip ps) (0, none) with
    | (wait, some scope) => (.error (.throttled scope ⌈wait * 1000000000⌉), b)
    | (_, none) => (.ok (), debit n now (keys.zip ps) b)

end Buckets

/-! ### Requests -/

/-- `DestinationKeys`: the host and the prefix that contains it. -/
def destinationKeys (dst : Net.Addr) : String × String :=
  let dst := dst.unmap
  let bits := if dst.is4 then 24 else 64
  ((Net.Prefix.ofAddr dst dst.bitLen).string, (Net.Prefix.ofAddr dst bits).masked.string)

/-- The calls of `ChargeRequest` and `ChargePackets`. -/
inductive Request
  | request (project : String)
  | packets (principal : String) (dst : Net.Addr) (packets : Int)
  deriving DecidableEq

def Request.keys : Request → List BucketKey
  | .request project => [⟨.requestCell, ""⟩, ⟨.requestProject, project⟩]
  | .packets principal dst _ =>
    [⟨.packetCell, ""⟩, ⟨.packetHost, (destinationKeys dst).1⟩, ⟨.packetPrefix, (destinationKeys dst).2⟩] ++
      if principal ≠ "" then [⟨.packetPrincipal, principal⟩] else []

def Request.tokens : Request → ℚ
  | .request _ => 1
  | .packets _ _ n => n

/-- A call, with the clock it reads and the order it meets the map in. -/
structure Charge where
  request : Request
  now : Int
  picks : Nat → Nat := fun _ => 0

def Charge.run (b : Buckets) (c : Charge) : Except ChargeError Unit × Buckets :=
  b.charge c.request.tokens c.now c.picks c.request.keys

end Galactic.Limit
