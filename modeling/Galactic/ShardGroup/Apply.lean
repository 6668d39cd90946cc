import Galactic.Lib.SlotAssign
import Galactic.Maglev.Table
import Galactic.ShardGroup.Snapshot

/-!
# Building and publishing snapshots

`ShardGroupTable` of `internal/plumbing/ebpf/egressroutemap/shardgroup.go`, for one group: `Apply` serves a set of
candidates under a policy, `Close` retires the group, `Disable` turns its traffic off. Each builds one snapshot and
publishes it as a whole, or not at all.

Outside of the code are the answers of the map and what a SID resolves to; an `Env` says so for one call. -/

namespace Galactic.ShardGroup

open Net (Addr Prefix)
open Uformat (Usid)

/-! ### Policies and candidates -/

inductive HashMode
  | source
  | flow
  deriving DecidableEq, Repr

/-- `GroupPolicy`. `pinIdle` is a duration in nanoseconds. -/
structure GroupPolicy where
  transl : TranslationClass
  hash : HashMode := .source
  pinIdle : Int := 0
  closing : Bool := false
  ineligible : Int := 0

def second : Int := 1000000000

structure ShardCandidate where
  sid : Net.IP
  draining : Bool := false
  isLocal : Bool := false
  standby : Bool := false

structure Candidate where
  sid : Usid
  draining : Bool
  isLocal : Bool
  standby : Bool
  deriving DecidableEq

def decodeSID (sid : Net.IP) : Except String Uformat.Fields :=
  match (Net.IP.to16 sid).bind Addr.ofBytes with
  | none => .error (String.ofList sid.string ++ " is not a 16-byte address")
  | some addr => Uformat.decode addr.unmap

/-- `BaseShardSID`: the SID with its Argument and Slot cleared. -/
def baseShardSID (sid : Net.IP) : Except String Usid :=
  match decodeSID sid with
  | .error e => .error ("egress shard SID " ++ String.ofList sid.string ++ ": " ++ e)
  | .ok fields =>
    match Uformat.encode { fields with argument := 0, slot := 0 } with
    | .error e => .error ("egress shard SID " ++ String.ofList sid.string ++ ": " ++ e)
    | .ok base => .ok base

/-- The entry of the map `bySID` for one more listing of a shard: it is draining, local or a standby if any
listing says so. -/
def mergeCandidate (bySID : List Candidate) (c : Candidate) : List Candidate :=
  match bySID with
  | [] => [c]
  | d :: rest =>
    if d.sid = c.sid then
      ⟨c.sid, d.draining || c.draining, d.isLocal || c.isLocal, d.standby || c.standby⟩ :: rest
    else d :: mergeCandidate rest c

/-- The order of `Addr.Less` on uSIDs, which are all IPv6 and without a zone. -/
def sidNumber (u : Usid) : Nat := ByteWord.value u.toList.reverse

/-- One turn of the loop of `canonicalCandidates`. -/
def gatherStep (bySID : List Candidate) (c : ShardCandidate) : Except String (List Candidate) :=
  match baseShardSID c.sid with
  | .error e => .error ("egressroutemap: " ++ e)
  | .ok base => .ok (mergeCandidate bySID ⟨base, c.draining, c.isLocal, c.standby⟩)

/-- `canonicalCandidates`: base SIDs, each once, in order. -/
def canonicalCandidates (candidates : List ShardCandidate) : Except String (List Candidate) :=
  match candidates.foldlM gatherStep [] with
  | .error e => .error e
  | .ok bySID => .ok (bySID.insertionSort fun a b => sidNumber a.sid ≤ sidNumber b.sid)

/-! ### Slots -/

def occupants (slots : Shards) : List (Usid × Nat) :=
  ((List.finRange maxShardsPerGroup).filter fun i => (slots i).occupied).map fun i => ((slots i).sid, i.val)

/-- `assignSlots`: a wanted shard in a slot keeps it, a new one takes the lowest slot no wanted shard holds. -/
def assignSlots (slots : Shards) (wanted : List Candidate) : List (Usid × Nat) :=
  SlotAssign.assign (occupants slots) (wanted.map (·.sid))

/-- The member of a slot. No slot is out of range here (`assignSlots_spec`); the code would stop. -/
def shardAt (slots : Shards) (slot : Nat) : Member := if h : slot < maxShardsPerGroup then slots ⟨slot, h⟩ else {}

def setShard (slots : Shards) (slot : Nat) (m : Member) : Shards := fun i => if i.val = slot then m else slots i

/-! ### Resolution -/

structure NextHop where
  link : Int := 0
  dmac : List UInt8 := []
  smac : List UInt8 := []

structure Resolution where
  hop : NextHop := {}
  err : Option String := none

/-- What happens outside of the table during one call. -/
structure Env where
  loadErr : Option String := none
  resolve : Usid → Resolution
  publishErr : Option String := none

/-- `resolveShards`: a local shard is not resolved, and reads as the zero resolution. -/
def resolveShard (env : Env) (c : Candidate) : Resolution := if c.isLocal then {} else env.resolve c.sid

def anyPrimaryAlive (env : Env) (wanted : List Candidate) : Bool :=
  wanted.any fun c => !c.standby && !c.isLocal && (resolveShard env c).err.isNone

/-- `copy` into a hardware address. -/
def copyMac (b : List UInt8) : Mac :=
  ⟨b.take 6 ++ List.replicate (6 - (b.take 6).length) 0, by simp⟩

/-! ### Building -/

/-- `allocator.take`: the generation handed out and the counter after it. -/
def take (next : UInt32) : UInt32 × UInt32 :=
  let g := if next = 0 then 1 else next
  (g, g + 1)

structure ShardState where
  sid : Usid
  slot : Nat
  generation : UInt32
  alive : Bool
  draining : Bool
  isLocal : Bool
  standby : Bool
  held : Bool
  err : Option String
  assigned : Bool

def ShardState.active (s : ShardState) : Bool := s.alive && !s.draining

structure ShardBackend where
  sid : Usid
  slot : Nat
  deriving DecidableEq

def ShardBackend.key (b : ShardBackend) : String := b.sid.addr.string

/-- What the loop of `Apply` builds: the allocator's counter, the members, their states and the Maglev backends. -/
structure Build where
  next : UInt32
  shards : Shards := fun _ => {}
  states : List ShardState := []
  backends : List ShardBackend := []

/-- The slot kept its shard and a generation, so that the shard's pins stay. -/
def keeps (before : Member) (sid : Usid) : Bool :=
  before.occupied && before.sid = sid && before.generation ≠ 0

/-- A standby that resolves while a primary serves the class. -/
def isHeld (hold : Bool) (c : Candidate) (res : Resolution) : Bool :=
  hold && c.standby && !c.isLocal && res.err.isNone

def isAlive (hold : Bool) (c : Candidate) (res : Resolution) : Bool :=
  !c.isLocal && res.err.isNone && !isHeld hold c res

def memberOf (nat64 hold : Bool) (c : Candidate) (res : Resolution) (generation : UInt32) : Member :=
  let alive := isAlive hold c res
  { sid := c.sid
    generation := generation
    flags := memberFlags alive c.draining c.isLocal (c.standby && nat64) (isHeld hold c res)
    linkIfindex := if alive then UInt32.ofInt res.hop.link else 0
    dmac := if alive then copyMac res.hop.dmac else zeroMac
    smac := if alive then copyMac res.hop.smac else zeroMac }

def slotGeneration (before : Member) (sid : Usid) (next : UInt32) : UInt32 × UInt32 :=
  if keeps before sid then (before.generation, next) else take next

/-- One turn of the loop of `Apply`. -/
def buildStep (env : Env) (nat64 hold : Bool) (previous : Shards) (assignment : List (Usid × Nat)) (b : Build)
    (c : Candidate) : Build :=
  let slot := (assignment.lookup c.sid).getD 0
  let res := resolveShard env c
  let before := shardAt previous slot
  let gen := slotGeneration before c.sid b.next
  let state : ShardState :=
    { sid := c.sid, slot, generation := gen.1, alive := isAlive hold c res, draining := c.draining,
      isLocal := c.isLocal, standby := c.standby && nat64, held := isHeld hold c res, err := res.err,
      assigned := !keeps before c.sid }
  { next := gen.2
    shards := setShard b.shards slot (memberOf nat64 hold c res gen.1)
    states := b.states ++ [state]
    backends := if state.active then b.backends ++ [⟨c.sid, slot⟩] else b.backends }

/-- The members of the published snapshot that may keep their slots: none when the class changes. -/
def previousShards (current : GroupValue) (policy : GroupPolicy) : Shards :=
  match decodeClass current with
  | some c => if c.string ≠ policy.transl.string then fun _ => {} else current.shards
  | none => current.shards

/-- The loop of `Apply`. -/
def build (env : Env) (policy : GroupPolicy) (current : GroupValue) (highWater : UInt32) (wanted : List Candidate) :
    Build :=
  let previous := previousShards current policy
  let hold := policy.transl.nat64 && anyPrimaryAlive env wanted
  wanted.foldl (buildStep env policy.transl.nat64 hold previous (assignSlots previous wanted))
    { next := max current.nextSlotGeneration highWater }

/-! ### The snapshot -/

def fillMaglev (backends : List ShardBackend) : Except String (Fin shardMaglevTableSize → UInt8) :=
  if backends.length = 0 then .ok fun _ => shardSlotNone
  else
    match Maglev.new ShardBackend.key backends shardMaglevTableSize with
    | .error e => .error ("egressroutemap: build shard Maglev table: " ++ e.text)
    | .ok t => .ok fun i =>
      match t.lookup i with
      | some b => UInt8.ofNat b.slot
      | none => shardSlotNone

def groupFlags (policy : GroupPolicy) : UInt32 :=
  groupFlagEnabled ||| (if policy.hash = .flow then groupFlagHashFlow else 0) |||
    (if policy.closing then groupFlagClosing else 0)

/-- `fillGroupValue`, on the members of the loop. -/
def fillGroupValue (policy : GroupPolicy) (candidates : Nat) (b : Build) : Except String GroupValue :=
  match fillMaglev b.backends with
  | .error e => .error e
  | .ok maglev =>
    .ok (policy.transl.encode
      { flags := groupFlags policy
        candidates := UInt16.ofNat candidates
        active := UInt16.ofNat b.backends.length
        ineligible := UInt16.ofInt (min policy.ineligible 65535)
        pinIdleSec := UInt32.ofInt (policy.pinIdle.tdiv second)
        maglev
        shards := b.shards })

/-! ### Calls -/

/-- One group: its published snapshot and this process's high-water mark. -/
structure Group where
  store : Option GroupValue := none
  highWater : UInt32 := 0

/-- What a call returns and leaves behind. `published` and `allocated` record the snapshot the call made visible
and the number of generations it took. -/
structure Outcome (α : Type) where
  result : α
  err : Option String
  group : Group
  published : Option GroupValue := none
  allocated : Nat := 0

structure GroupResult where
  changed : Bool := false
  generation : UInt32 := 0
  shards : List ShardState := []

/-- `load`: the snapshot, the zero value when there is none. -/
def load (loadErr : Option String) (groupID : Nat) (g : Group) : Except String (GroupValue × Bool) :=
  if maxShardGroups ≤ groupID then .error ("egressroutemap: shard group " ++ toString groupID ++ " out of range")
  else
    match loadErr with
    | some e => .error ("egressroutemap: read shard group " ++ toString groupID ++ ": " ++ e)
    | none => .ok (g.store.getD {}, g.store.isSome)

/-- The rest of `Apply`, under the lock, when the group reads as `current`. -/
def applyTo (env : Env) (groupID : Nat) (policy : GroupPolicy) (wanted : List Candidate) (current : GroupValue)
    (g : Group) : Outcome GroupResult :=
  let b := build env policy current g.highWater wanted
  let allocated := b.states.countP (·.assigned)
  -- the mark moves before publishing, whatever happens then
  let g := { g with highWater := b.next }
  match fillGroupValue policy wanted.length b with
  | .error e => { result := {}, err := some e, group := g, allocated }
  | .ok value =>
    let value := { value with nextSlotGeneration := b.next, generation := current.generation }
    let result : GroupResult := { generation := current.generation, shards := b.states }
    if value = current then { result, err := none, group := g, allocated }
    else
      let value := { value with generation := current.generation + 1 }
      match env.publishErr with
      | some e =>
        { result, err := some ("egressroutemap: publish shard group " ++ toString groupID ++ ": " ++ e), group := g,
          allocated }
      | none =>
        { result := { result with generation := value.generation, changed := true }, err := none,
          group := { g with store := some value }, published := some value, allocated }

def apply (env : Env) (groupID : Nat) (policy : GroupPolicy) (candidates : List ShardCandidate) (g : Group) :
    Outcome GroupResult :=
  match canonicalCandidates candidates with
  | .error e => { result := {}, err := some e, group := g }
  | .ok wanted =>
    if maxShardsPerGroup < wanted.length then
      { result := {}
        err := some ("egressroutemap: " ++ toString wanted.length ++ " egress shards exceed the group limit of " ++
          toString maxShardsPerGroup)
        group := g }
    else
      match load env.loadErr groupID g with
      | .error e => { result := {}, err := some e, group := g }
      | .ok (current, _) => applyTo env groupID policy wanted current g

/-- The policy `Close` applies. -/
def closePolicy (value : GroupValue) : GroupPolicy where
  transl := (decodeClass value).getD nat66Class
  hash := if value.hashFlow then .flow else .source
  pinIdle := value.pinIdleSec.toNat * second
  closing := true
  ineligible := value.ineligible.toNat

/-- The candidates `Close` applies: the members. -/
def closeCandidates (value : GroupValue) : List ShardCandidate :=
  ((List.finRange maxShardsPerGroup).filter fun i => (value.shards i).occupied).map fun i =>
    { sid := (value.shards i).sid.toList, draining := (value.shards i).draining,
      isLocal := (value.shards i).isLocal, standby := (value.shards i).standby }

/-- `Close`; `loadErr` is the answer to its own read. -/
def closeGroup (loadErr : Option String) (env : Env) (groupID : Nat) (g : Group) : Outcome Bool :=
  match load loadErr groupID g with
  | .error e => { result := false, err := some e, group := g }
  | .ok (value, ok) =>
    if !ok || !value.enabled then { result := false, err := none, group := g }
    else
      let out := apply env groupID (closePolicy value) (closeCandidates value) g
      { result := out.err.isNone, err := out.err, group := out.group, published := out.published,
        allocated := out.allocated }

/-- The snapshot `Disable` leaves behind: no members, traffic off, the class and the counter kept. -/
def disabledValue (current : GroupValue) (highWater : UInt32) : GroupValue :=
  { generation := current.generation
    nextSlotGeneration := max current.nextSlotGeneration highWater
    classKind := current.classKind
    classPrefix := current.classPrefix
    maglev := fun _ => shardSlotNone }

def disable (loadErr publishErr : Option String) (groupID : Nat) (g : Group) : Outcome Bool :=
  match load loadErr groupID g with
  | .error e => { result := false, err := some e, group := g }
  | .ok (current, ok) =>
    if !ok then { result := false, err := none, group := g }
    else
      let disabled := disabledValue current g.highWater
      if disabled = current then { result := false, err := none, group := g }
      else
        let disabled := { disabled with generation := current.generation + 1 }
        match publishErr with
        | some e =>
          { result := false, err := some ("egressroutemap: disable shard group " ++ toString groupID ++ ": " ++ e),
            group := g }
        | none =>
          { result := true, err := none, group := { g with store := some disabled }, published := some disabled }

end Galactic.ShardGroup
