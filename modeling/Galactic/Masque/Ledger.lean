import Galactic.Lib.CasStore
import Galactic.Net.Parse
import Galactic.Net.Ranges

/-!
# The allocation ledger of `internal/edge/masque/authority`

A ledger holds every allocation of one VPC in one cell. `Allocate` gives a connector the next `/96` of the connector
range and the next `/120` of the pool range, `Retire` turns its entry into a tombstone. Both change a copy of the ledger
and write it back on the condition that nobody wrote in between, and start over after a conflict. `step` is one step of
any number of such calls: a call begins, reads and computes its write, the API server handles a write that was sent, or
a call gets a reply. -/

namespace Galactic.Masque

open Net

structure VPCRef where
  ns : String
  name : String
  uid : String
deriving DecidableEq, Repr

/-- One connector's allocation. -/
structure Entry where
  connector : String
  allocation : String
  pfx : Prefix
  pool : Prefix
  created : Int
  retired : Bool
deriving DecidableEq

structure Ledger where
  vpc : VPCRef
  cell : String
  connectors : Prefix
  pools : Prefix
  entries : List Entry
deriving DecidableEq

def maxEntries : Nat := 256

def maxLedgerBytes : Nat := 256 * 1024

def rangeBits : Nat := 80

def conflictRetries : Nat := 5

inductive LedgerError
  | cellName (cell : String)
  | readVPC (selector : String)
  | otherVPC (selector got want : String)
  | range (p : Prefix)
  | outside (p : Prefix) (selector : String)
  | rangesOverlap (connectors pools : Prefix)
  | listIssued
  | held (service selector : String)
  | listLedgers
  | otherCell (p : Prefix) (selector cell : String)
  | create
  | missing (vpcUID cell : String)
  | read
  | wrongLedger (vpcUID cell : String)
  | retiredConnector (connector : String)
  | full
  | encode
  | tooLarge (bytes : Nat)
  | write
  | keptChanging
deriving DecidableEq

def VPCRef.selector (v : VPCRef) : String := v.ns ++ "/" ++ v.name

def Ledger.lookup (l : Ledger) (connector : String) : Option Entry :=
  l.entries.find? (·.connector = connector)

/-! ### Creating a ledger -/

def isDNS1123Label (s : String) : Bool :=
  let alnum := fun c : Char => ('a' ≤ c ∧ c ≤ 'z') ∨ ('0' ≤ c ∧ c ≤ '9')
  s.length ≤ 63 ∧ s.toList.head?.any alnum ∧ s.toList.getLast?.any alnum ∧ s.toList.all fun c => alnum c ∨ c = '-'

def inNetworks (networks : List String) (p : Prefix) : Bool :=
  networks.any fun n =>
    match parsePrefix n.toList with
    | none => false
    | some np => np.addr.is6 ∧ (np.bits?.getD 0 ≤ p.bits?.getD 0) ∧ np.contains p.addr

/-- An EdgeService the authority issued, as far as `Init` reads it. -/
structure IssuedService where
  ns : String
  name : String
  vpcUID : String
  cell : String
deriving DecidableEq

/-- What `Init` reads: the VPC object's UID and networks, the issued services, the ledgers, and whether the
ledger's own ConfigMap can be created. Each read may fail. -/
structure InitWorld where
  vpc : Option (String × List String)
  issued : Option (List IssuedService)
  ledgers : Option (List Ledger)
  creates : Bool

/-- One of the two ranges: a masked IPv6 `/80` inside the VPC's networks. -/
def checkRange (networks : List String) (selector : String) (p : Prefix) : Except LedgerError Unit :=
  if p.isValid = false ∨ p.addr.is6 = false ∨ p.addr.is4In6 = true ∨ p.bits? ≠ some rangeBits ∨ p ≠ p.masked then
    .error (.range p)
  else if inNetworks networks p = false then .error (.outside p selector)
  else .ok ()

def checkOther (vpc : VPCRef) (cell : String) (connectors pools : Prefix) (ol : Ledger) : Except LedgerError Unit :=
  if ol.vpc.uid ≠ vpc.uid ∨ ol.cell = cell then .ok ()
  else match [connectors, pools].find? fun p => p.overlaps ol.connectors ∨ p.overlaps ol.pools with
    | some p => .error (.otherCell p vpc.selector ol.cell)
    | none => .ok ()

/-- The checks of `Init` against what exists: no issued service has an allocation, no ledger of the VPC overlaps. -/
def checkExisting (w : InitWorld) (vpc : VPCRef) (cell : String) (connectors pools : Prefix) :
  Except LedgerError Unit := do
  let some issued := w.issued | throw .listIssued
  if let some svc := issued.find? fun svc => svc.vpcUID = vpc.uid ∧ svc.cell = cell then
    throw (.held (svc.ns ++ "/" ++ svc.name) vpc.selector)
  let some ledgers := w.ledgers | throw .listLedgers
  ledgers.forM (checkOther vpc cell connectors pools)

/-- `Init` from the check of the ranges on; `vpc` names the live VPC. -/
def initRanges (w : InitWorld) (networks : List String) (vpc : VPCRef) (cell : String) (connectors pools : Prefix) :
    Except LedgerError Ledger := do
  checkRange networks vpc.selector connectors
  checkRange networks vpc.selector pools
  if connectors.overlaps pools then .error (.rangesOverlap connectors pools)
  else do
    checkExisting w vpc cell connectors pools
    if w.creates = false then .error .create else .ok ⟨vpc, cell, connectors, pools, []⟩

def VPCRef.withUID (v : VPCRef) (uid : String) : VPCRef := if v.uid = "" then { v with uid := uid } else v

def init (w : InitWorld) (vpc : VPCRef) (cell : String) (connectors pools : Prefix) : Except LedgerError Ledger :=
  if isDNS1123Label cell = false then .error (.cellName cell)
  else
    match w.vpc with
    | none => .error (.readVPC vpc.selector)
    | some (uid, networks) =>
      if uid ≠ (vpc.withUID uid).uid then .error (.otherVPC vpc.selector uid (vpc.withUID uid).uid)
      else initRanges w networks (vpc.withUID uid) cell connectors pools

/-! ### Changes of a ledger -/

/-- `withIndex`: adds `n` to the low 64 bits. -/
def withIndex (base : Addr) (n : UInt64) : Addr :=
  let b := base.as16
  let lo := ByteWord.Endian.big.uint64 (b.drop 8) + n
  .v6 ⟨b.take 8 ++ ByteWord.bigEndian64 lo, by simp [b, ByteWord.bigEndian64]⟩ ""

/-- What `uuid.NewString` and `Now` give, in nanoseconds. -/
structure Stamp where
  uuid : String
  now : Int
deriving DecidableEq, Repr

/-- `Truncate(time.Second)`. -/
def truncateSecond (t : Int) : Int := t - t % 1000000000

def Ledger.newEntry (l : Ledger) (connector : String) (t : Stamp) : Entry :=
  let n := UInt64.ofNat (l.entries.length + 1)
  { connector, allocation := t.uuid
    pfx := Prefix.ofAddr (withIndex l.connectors.addr (n <<< 32)) 96
    pool := Prefix.ofAddr (withIndex l.pools.addr (n <<< 8)) 120
    created := truncateSecond t.now, retired := false }

/-- The change `Allocate` makes: the changed ledger, if it is changed, and the entry it answers. -/
def Ledger.allocate (l : Ledger) (connector : String) (t : Stamp) : Except LedgerError (Option Ledger × Option Entry) :=
  match l.lookup connector with
  | some e => if e.retired then .error (.retiredConnector connector) else .ok (none, some e)
  | none =>
    if maxEntries ≤ l.entries.length then .error .full
    else .ok (some { l with entries := l.entries ++ [l.newEntry connector t] }, some (l.newEntry connector t))

/-- Marks the first live entry of `connector`. -/
def retireFirst (connector : String) : List Entry → Option (List Entry)
  | [] => none
  | e :: es =>
    if e.connector = connector ∧ e.retired = false then some ({ e with retired := true } :: es)
    else (retireFirst connector es).map (e :: ·)

def Ledger.retire (l : Ledger) (connector : String) : Option Ledger × Option Entry :=
  ((retireFirst connector l.entries).map fun es => { l with entries := es }, none)

inductive Op
  | allocate (vpcUID cell connector : String)
  | retire (vpcUID cell connector : String)
deriving DecidableEq, Repr

def Op.vpcUID : Op → String
  | allocate u _ _ => u
  | retire u _ _ => u

def Op.cell : Op → String
  | allocate _ c _ => c
  | retire _ c _ => c

/-- The callback the call hands to `update`. -/
def Op.change (t : Stamp) (l : Ledger) : Op → Except LedgerError (Option Ledger × Option Entry)
  | allocate _ _ connector => l.allocate connector t
  | retire _ _ connector => .ok (l.retire connector)

section Calls

-- the length of the ledger's JSON text, when it can be encoded
variable (encoded : Ledger → Option Nat)

def encodeLedger (l : Ledger) : Except LedgerError Unit :=
  match encoded l with
  | none => .error .encode
  | some n => if maxLedgerBytes < n then .error (.tooLarge n) else .ok ()

/-- One turn of `update` up to its write: `Read`, the change, and the encoding. -/
def Op.attempt (failure : Option LedgerError) (t : Stamp) (l : Ledger) (op : Op) :
    Except LedgerError (Option Ledger × Option Entry) :=
  match failure with
  | some e => .error e
  | none =>
    if l.vpc.uid ≠ op.vpcUID ∨ l.cell ≠ op.cell then .error (.wrongLedger l.vpc.uid l.cell)
    else
      match op.change t l with
      | .error e => .error e
      | .ok (none, out) => .ok (none, out)
      | .ok (some l', out) => (encodeLedger encoded l').map fun _ => (some l', out)

/-- Where a call is: about to read, waiting for the reply to its write, or done. -/
inductive Phase
  | reading
  | waiting (request : Nat) (out : Option Entry)
  | done (result : Except LedgerError (Option Entry))

structure Call where
  op : Op
  left : Nat
  phase : Phase

/-- The stored ledger with the writes on their way, and the calls. -/
structure System where
  store : Cas.Store Ledger
  calls : List Call

/-- What a call hears about its write. -/
inductive Reply
  | ok
  | conflict
  | failed
deriving DecidableEq, Repr

inductive Event
  | call (op : Op)
  | read (i : Nat) (failure : Option LedgerError) (t : Stamp)
  | deliver (request : Nat)
  | reply (i : Nat) (r : Reply)

def System.start (l : Ledger) : System := ⟨⟨⟨0, l⟩, []⟩, []⟩

def System.setPhase (s : System) (i : Nat) (c : Call) (p : Phase) : System :=
  { s with calls := s.calls.set i { c with phase := p } }

def System.read (s : System) (i : Nat) (failure : Option LedgerError) (t : Stamp) (c : Call) : System :=
  match c.op.attempt encoded failure t s.store.cell.value with
  | .error e => s.setPhase i c (.done (.error e))
  | .ok (none, out) => s.setPhase i c (.done (.ok out))
  | .ok (some l, out) => { s.setPhase i c (.waiting s.store.requests.length out) with store := s.store.send l }

def System.reply (s : System) (i : Nat) (c : Call) (request : Nat) (out : Option Entry) : Reply → Option System
  | .ok => if s.store.committed request then some (s.setPhase i c (.done (.ok out))) else none
  | .conflict =>
    if c.left ≤ 1 then some (s.setPhase i c (.done (.error .keptChanging)))
    else some (s.setPhase i { c with left := c.left - 1 } .reading)
  | .failed => some (s.setPhase i c (.done (.error .write)))

def System.step (s : System) : Event → Option System
  | .call op => some { s with calls := s.calls ++ [⟨op, conflictRetries, .reading⟩] }
  | .deliver k => some { s with store := s.store.deliver k }
  | .read i failure t =>
    match s.calls[i]? with
    | some c =>
      match c.phase with
      | .reading => some (s.read encoded i failure t c)
      | _ => none
    | none => none
  | .reply i r =>
    match s.calls[i]? with
    | some c =>
      match c.phase with
      | .waiting k out => s.reply i c k out r
      | _ => none
    | none => none

def System.run (s : System) : List Event → Option System
  | [] => some s
  | e :: es => (s.step encoded e).bind fun s' => System.run s' es

end Calls

def System.entries (s : System) : List Entry := s.store.cell.value.entries

/-- What the call number `i` returned, if it has returned. -/
def System.result (s : System) (i : Nat) : Option (Op × Except LedgerError (Option Entry)) :=
  match s.calls[i]? with
  | some ⟨op, _, .done r⟩ => some (op, r)
  | _ => none

end Galactic.Masque
