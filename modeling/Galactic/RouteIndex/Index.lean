import Galactic.Lib.BinaryHeap
import Galactic.Lib.Entries
import Galactic.Net.Ranges
import Galactic.RouteIndex.Attrs
import Mathlib.Data.List.AList

/-!
# The route index

The index of selected BGP routes that the BMP station feeds and fabric-api searches. Sets of attributes are objects that
routes share: `heap` holds them by address, `attrs` finds them by key, and each counts the routes that point to it. -/

namespace Galactic.RouteIndex

open Net

inductive Family
  | v4
  | v6
  deriving DecidableEq

def famOf (p : Prefix) : Family := if p.addr.is4 then .v4 else .v6

/-- A set of attributes as the index keeps it: with the routes that use it, its key, and the last search's verdict. -/
structure Object where
  attrs : Attrs := {}
  refs : Int := 0
  key : String := ""
  matchEpoch : UInt64 := 0
  matched : Bool := false

abbrev Routes := AList fun _ : Prefix => Nat

/-- `Index`. An instant is `none` when it is the zero time. -/
structure Index where
  maxRoutes : Int
  heap : Nat → Object := fun _ => {}
  next : Nat := 0
  v4 : Routes := ∅
  v6 : Routes := ∅
  attrs : AList (fun _ : String => Nat) := ∅
  eor4 : Bool := false
  eor6 : Bool := false
  connected : Bool := false
  syncedAt : Option Int := none
  lastUpdate : Option Int := none
  version : UInt64 := 0
  overflow : UInt64 := 0
  epoch : UInt64 := 0

namespace Index

variable (ix : Index)

def routes : Family → Routes
  | .v4 => ix.v4
  | .v6 => ix.v6

def setRoutes (f : Family) (t : Routes) : Index :=
  match f with
  | .v4 => { ix with v4 := t }
  | .v6 => { ix with v6 := t }

def held : Nat := ix.v4.entries.length + ix.v6.entries.length

def setObject (o : Nat) (ob : Object) : Index := { ix with heap := Function.update ix.heap o ob }

def addRefs (o : Nat) (n : Int) : Index := ix.setObject o { ix.heap o with refs := (ix.heap o).refs + n }

/-! ### Sessions -/

def reset : Index := { ix with v4 := ∅, v6 := ∅, attrs := ∅, eor4 := false, eor6 := false, syncedAt := none }

def beginSession : Index := { ix.reset with connected := true }

def endSession : Index := { ix with connected := false, eor4 := false, eor6 := false, syncedAt := none }

/-- `EndOfRIB`, once the family's flag is set. -/
def sync (now : Int) : Index :=
  if ix.eor4 = true ∧ ix.eor6 = true ∧ ix.syncedAt = none then { ix with syncedAt := some now } else ix

def endOfRIB (ipv4 : Bool) (now : Int) : Index :=
  if ipv4 then sync { ix with eor4 := true } now else sync { ix with eor6 := true } now

/-! ### Routes -/

def touch (now : Int) : Index := { ix with version := ix.version + 1, lastUpdate := some now }

def release (o : Nat) : Index :=
  let ix := ix.addRefs o (-1)
  if (ix.heap o).refs = 0 then { ix with attrs := ix.attrs.erase (ix.heap o).key } else ix

def alloc (a : Attrs) : Index :=
  { ix.setObject ix.next { attrs := a, key := a.computeKey } with
    next := ix.next + 1, attrs := ix.attrs.insert a.computeKey ix.next }

/-- The object with the attributes' key, a new one if there is none. -/
def intern (a : Attrs) : Index × Nat :=
  match ix.attrs.lookup a.computeKey with
  | some o => (ix, o)
  | none => (ix.alloc a, ix.next)

def point (p : Prefix) (o : Nat) : Index :=
  (ix.addRefs o 1).setRoutes (famOf p) ((ix.routes (famOf p)).insert p o)

/-- Releases the object a prefix pointed to before, if there is one. -/
def releaseOld : Option Nat → Index
  | none => ix
  | some o => ix.release o

/-- `Update`: a new prefix beyond `MaxRoutes` is dropped and counted. -/
def update (p : Prefix) (a : Attrs) (now : Int) : Index :=
  let old := (ix.routes (famOf p)).lookup p
  if old = none ∧ 0 < ix.maxRoutes ∧ ix.maxRoutes ≤ ix.held then { ix with overflow := ix.overflow + 1 }
  else (((ix.intern a).1.point p (ix.intern a).2).releaseOld old).touch now

def withdraw (p : Prefix) (now : Int) : Index :=
  match (ix.routes (famOf p)).lookup p with
  | none => ix.touch now
  | some old => ((ix.setRoutes (famOf p) ((ix.routes (famOf p)).erase p)).release old).touch now

end Index

/-! ### UPDATE messages -/

/-- `bgp.NLRI`, as far as `prefixOf` tells them apart. -/
inductive NLRI
  | ip (p : Prefix)
  | other

def prefixOf : NLRI → Option Prefix
  | .ip p => if p.isValid then some p.masked else none
  | .other => none

/-- A path attribute, as far as `ApplyUpdate` tells them apart. -/
inductive PathAttribute
  | origin (value : UInt8)
  | asPath (value : List AsPathParam)
  | nextHop (value : Addr)
  | multiExitDisc (value : UInt32)
  | localPref (value : UInt32)
  | communities (value : List UInt32)
  | largeCommunities (values : List LargeCommunity)
  | mpReachNLRI (nextHop : Addr) (value : List NLRI)
  | mpUnreachNLRI (value : List NLRI)
  | other

structure Update where
  withdrawnRoutes : List NLRI
  pathAttributes : List PathAttribute
  nlri : List NLRI

def Attrs.add (attrs : Attrs) : PathAttribute → Attrs
  | .origin v => { attrs with origin := originName v }
  | .asPath v => { attrs with asPath := (asPathOf v).1, originASN := (asPathOf v).2 }
  | .nextHop v => { attrs with nextHop := v }
  | .multiExitDisc v => { attrs with med := some v }
  | .localPref v => { attrs with localPref := some v }
  | .communities v => { attrs with community := v }
  | .largeCommunities vs => { attrs with large := attrs.large ++ vs }
  | .mpReachNLRI nh _ => { attrs with nextHop := nh }
  | .mpUnreachNLRI _ => attrs
  | .other => attrs

namespace Index

def withdrawAll (ix : Index) (ns : List NLRI) (now : Int) : Index :=
  ns.foldl (fun ix n => ((prefixOf n).map fun p => ix.withdraw p now).getD ix) ix

def updateAll (ix : Index) (ns : List NLRI) (attrs : Attrs) (now : Int) : Index :=
  ns.foldl (fun ix n => ((prefixOf n).map fun p => ix.update p attrs now).getD ix) ix

/-- One round of `ApplyUpdate`'s loop over the path attributes: the index, attributes and reachable NLRI so far. -/
def applyAttribute (now : Int) (acc : Index × Attrs × List NLRI) (pa : PathAttribute) : Index × Attrs × List NLRI :=
  match pa with
  | .mpReachNLRI _ value => (acc.1, acc.2.1.add pa, acc.2.2 ++ value)
  | .mpUnreachNLRI value => (acc.1.withdrawAll value now, acc.2.1, acc.2.2)
  | _ => (acc.1, acc.2.1.add pa, acc.2.2)

def applyUpdate (ix : Index) (u : Update) (now : Int) : Index :=
  let ix := ix.withdrawAll u.withdrawnRoutes now
  let (ix, attrs, reach) := u.pathAttributes.foldl (applyAttribute now) (ix, {}, [])
  ix.updateAll (reach ++ u.nlri) attrs now

end Index

/-- What `IsEndOfRib` reports for an UPDATE. -/
inductive EndOfRib
  | no
  | ipv4
  | ipv6
  | other
  deriving DecidableEq

inductive Message
  | routeMonitoring (eor : EndOfRib) (locRib : Bool) (u : Update)
  | other

def Index.apply (ix : Index) (now : Int) : Message → Index
  | .other => ix
  | .routeMonitoring .ipv4 _ _ => ix.endOfRIB true now
  | .routeMonitoring .ipv6 _ _ => ix.endOfRIB false now
  | .routeMonitoring .other _ _ => ix
  | .routeMonitoring .no locRib u => if locRib then ix.applyUpdate u now else ix

/-! ### Searches -/

structure State where
  synced : Bool
  syncedAt : Option Int
  lastUpdate : Option Int
  version : UInt64
  routes : Nat
  connected : Bool
  deriving DecidableEq

def Index.state (ix : Index) : State where
  synced := ix.connected && ix.syncedAt.isSome
  syncedAt := ix.syncedAt
  lastUpdate := ix.lastUpdate
  version := ix.version
  routes := ix.held
  connected := ix.connected

def bitsOf (p : Prefix) : Int := (p.bits?.map Int.ofNat).getD (-1)

def prefixLess (a b : Prefix) : Bool :=
  match a.addr.compare b.addr with
  | .lt => true
  | .gt => false
  | .eq => bitsOf a < bitsOf b

structure Route where
  cidr : String
  paths : List Path
  deriving DecidableEq

structure Result where
  routes : List Route
  matched : Nat
  state : State
  deriving DecidableEq

abbrev Entry := Σ _ : Prefix, Nat

/-- The order of the heap's entries. -/
def entryLess (a b : Entry) : Bool := prefixLess a.1 b.1

namespace Index

/-- The verdict of a search on every set of attributes. -/
def mark (ix : Index) (m : Attrs → Bool) : Index :=
  { ix with
    epoch := ix.epoch + 1
    heap := fun o =>
      if o ∈ ix.attrs.entries.map (·.2) then
        { ix.heap o with matchEpoch := ix.epoch + 1, matched := m (ix.heap o).attrs }
      else ix.heap o }

def hit (ix : Index) (e : Entry) : Bool := (ix.heap e.2).matched && (ix.heap e.2).matchEpoch == ix.epoch

/-- One round of `Search`'s loop over the routes. -/
def visit (ix : Index) (limit : Int) (acc : Array Entry × Nat) (e : Entry) : Array Entry × Nat :=
  if ix.hit e = false then acc
  else if limit ≤ 0 then (acc.1, acc.2 + 1)
  else (BinaryHeap.offer entryLess limit.toNat acc.1 e, acc.2 + 1)

/-- The answer of `Search` when the routes come in the given order. -/
def answer (ix : Index) (limit : Int) (order : List Entry) : Result :=
  let (h, matched) := order.foldl (ix.visit limit) (#[], 0)
  let out := BinaryHeap.drain entryLess h.size h
  { routes := out.map fun e => ⟨e.1.string, [pathOf (ix.heap e.2).attrs]⟩, matched, state := ix.state }

end Index

def Query.family (q : Query) : Family := if q.addressFamily = .ipv6 then .v6 else .v4

/-- `Search`, when the map of routes is iterated in the order given. -/
def Index.search (posix : String → Option (String → Bool)) (ix : Index) (q : Query) (limit : Int) (order : List Entry) :
    Except SearchError Result × Index :=
  match compile posix q with
  | .error e => (.error e, ix)
  | .ok m =>
    if ix.state.synced = false then (.error .notSynced, ix)
    else (.ok ((ix.mark m).answer limit order), ix.mark m)

/-! ### Runs -/

/-- What happens to an index: a BMP session begins or ends, carries a message, or its updates have settled, which counts
as the end of both tables; or it is searched. -/
inductive Event
  | up
  | down
  | message (now : Int) (m : Message)
  | settled (now : Int)
  | search (q : Query) (limit : Int)

def Index.step (posix : String → Option (String → Bool)) (ix : Index) : Event → Index
  | .up => ix.beginSession
  | .down => ix.endSession
  | .message now m => ix.apply now m
  | .settled now => (ix.endOfRIB true now).endOfRIB false now
  | .search q limit => (ix.search posix q limit (ix.routes q.family).entries).2

def run (posix : String → Option (String → Bool)) (maxRoutes : Int) (evs : List Event) : Index :=
  evs.foldl (Index.step posix) { maxRoutes }

end Galactic.RouteIndex
