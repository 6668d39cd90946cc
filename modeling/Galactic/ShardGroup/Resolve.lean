import Galactic.ShardGroup.Snapshot

/-!
# Placing a packet

`resolve_egress_group` of `prog/usid.c`: a packet that matches a group goes to the shard its pin names, while the pin is
live, and to the shard of its Maglev slot otherwise. Everything it reads about the group comes from one snapshot. -/

namespace Galactic.ShardGroup

open Uformat (Usid)

structure Pin where
  lastSeenNs : UInt64
  generation : UInt32
  shard : UInt8
  deriving DecidableEq, Repr

/-- The counters of `egress_shard_stats`. -/
inductive ShardStat
  | groupEmpty
  | pinStale
  | pinHit
  | maglev
  | shardDead
  | parseFailed
  deriving DecidableEq, Repr

/-- The route to encapsulate with: the shard's SID completed with the tenant's Argument, and its next hop. -/
structure Route where
  sid : List UInt8
  linkIfindex : UInt32
  dmac : Mac
  smac : Mac

/-- What one packet does: the counters it adds to, the slot and route it gets, and the pin it leaves. -/
structure Placement where
  stats : List ShardStat
  slot : Option (Fin maxShardsPerGroup) := none
  route : Option Route := none
  pin : Option Pin := none

def slotMask (x : UInt8) : Fin maxShardsPerGroup := ⟨x.toNat % 32, Nat.mod_lt _ (by decide)⟩

def completeSID (sid : Usid) (functionArgument : UInt32) : List UInt8 :=
  let b := sid.toList
  (b.set 8 ((b.getD 8 0 &&& (0xf0 : UInt8)) ||| ((functionArgument >>> 8).toUInt8 &&& (0x0f : UInt8)))).set 9
    functionArgument.toUInt8

def routeOf (g : GroupValue) (functionArgument : UInt32) (i : Fin maxShardsPerGroup) : Route :=
  { sid := completeSID (g.shards i).sid functionArgument
    linkIfindex := (g.shards i).linkIfindex
    dmac := (g.shards i).dmac
    smac := (g.shards i).smac }

def idleNs (g : GroupValue) : UInt64 := 1000000000 * g.pinIdleSec.toUInt64

/-- Another CPU may have stamped the pin after the clock was read. -/
def pinFresh (g : GroupValue) (now : UInt64) (pin : Pin) : Bool :=
  now < pin.lastSeenNs || now - pin.lastSeenNs ≤ idleNs g

def pinLive (g : GroupValue) (now : UInt64) (pin : Pin) : Bool :=
  let m := g.shards (slotMask pin.shard)
  m.alive && m.generation ≠ 0 && m.generation = pin.generation && pinFresh g now pin

def newPin (g : GroupValue) (now : UInt64) (i : Fin maxShardsPerGroup) : Option Pin :=
  if idleNs g ≠ 0 then some ⟨now, (g.shards i).generation, UInt8.ofNat i⟩ else none

/-- The Maglev table's choice, behind `stats`. With pins on, it is pinned. -/
def placeByTable (g : GroupValue) (hash : UInt32) (now : UInt64) (functionArgument : UInt32)
    (stats : List ShardStat) : Placement :=
  let member := g.maglev ⟨hash.toNat % shardMaglevTableSize, Nat.mod_lt _ (by decide)⟩
  if member = shardSlotNone then { stats := stats ++ [.groupEmpty] }
  else
    let i := slotMask member
    if !(g.shards i).alive then { stats := stats ++ [.shardDead] }
    else
      { stats := stats ++ [.maglev]
        slot := some i
        route := some (routeOf g functionArgument i)
        pin := newPin g now i }

def placeKey (g : GroupValue) (pin : Option Pin) (hash : UInt32) (now : UInt64) (functionArgument : UInt32) :
    Placement :=
  match pin with
  | none => placeByTable g hash now functionArgument []
  | some pin =>
    if pinLive g now pin then
      { stats := [.pinHit]
        slot := some (slotMask pin.shard)
        route := some (routeOf g functionArgument (slotMask pin.shard))
        pin := some { pin with lastSeenNs := now } }
    else placeByTable g hash now functionArgument [.pinStale]

/-- What the packet and the maps give: `loadKey` is `load_egress_shard_key`, which reads more of the packet when
the group hashes flows, `pins` is the map `egress_shard_pin` and `now` the boot clock. -/
structure Packet (κ : Type) where
  loadKey : Bool → Option κ
  hash : κ → UInt32
  pins : κ → Option Pin
  now : UInt64
  functionArgument : UInt32

def pinOf {κ : Type} (g : GroupValue) (pins : κ → Option Pin) (key : κ) : Option Pin :=
  if idleNs g ≠ 0 then pins key else none

/-- `resolve_egress_group`, on the snapshot the map holds for the group. -/
def resolveEgressGroup {κ : Type} (snapshots : Nat → Option GroupValue) (groupID : Nat) (p : Packet κ) : Placement :=
  if maxShardGroups ≤ groupID then { stats := [.groupEmpty] }
  else
    match snapshots groupID with
    | none => { stats := [.groupEmpty] }
    | some g =>
      if !g.enabled then { stats := [.groupEmpty] }
      else
        match p.loadKey g.hashFlow with
        | none => { stats := [.parseFailed] }
        | some key => placeKey g (pinOf g p.pins key) (p.hash key) p.now p.functionArgument

end Galactic.ShardGroup
