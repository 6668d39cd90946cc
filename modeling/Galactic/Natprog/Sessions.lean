import Mathlib.Data.Vector.Basic

/-!
# The session table of the NAT shard, `natprog/nat.c`

A session is two rows of one table: the forward row under the tenant's own tuple names the masquerade port, the reverse
row under the peer's tuple and that port names the flow replies go back to. `sessionPort` is what a forward leg does
with the table for one outbound packet, `replyRow` the row a return leg translates by. A packet is one step. -/

namespace Galactic.Natprog
open Function

abbrev Addr16 := List.Vector UInt8 16

/-- `struct conn_key`. Ports are in network order, as the code keeps them. -/
structure ConnKey where
  family : UInt8
  proto : UInt8
  tenantArg : UInt16
  sport : UInt16
  dport : UInt16
  saddr : Addr16
  daddr : Addr16
  encapSrc : Addr16
deriving DecidableEq

structure ConnValue where
  backendAddr : Addr16
  backendPort : UInt16
  destAddr : Addr16
  destPort : UInt16
  shardPort : UInt16
  backendUsid : Addr16
  proto : UInt8
  family : UInt8
  tenantArg : UInt16
  state : UInt8
  lastSeen : UInt32
deriving DecidableEq

/-- `nat_conn_table`, without its size. -/
abbrev Table := ConnKey → Option ConnValue

/-! ### Constants -/

def ipprotoTCP : UInt8 := 6
def ipprotoUDP : UInt8 := 17
def ipprotoICMPv6 : UInt8 := 58
def ipprotoICMP : UInt8 := 1
def familyV6 : UInt8 := 6
def familyV4 : UInt8 := 4
def patProbeLimit : Nat := 8
def patPortBase : UInt32 := 32768
def patPortRange : UInt32 := 28000
def timeoutUDP : UInt32 := 120
def timeoutUDPDNS : UInt32 := 30
def timeoutTCPEst : UInt32 := 7440
def timeoutTCPTrans : UInt32 := 240
def timeoutICMP : UInt32 := 60
def dnsPort : UInt16 := 53
def sessTCPEst : UInt8 := 0x1
def sessTCPClosing : UInt8 := 0x2
def tcpFin : UInt8 := 0x01
def tcpRst : UInt8 := 0x04
def tcpAck : UInt8 := 0x10

/-- `__builtin_bswap16`. -/
def bswap16 (x : UInt16) : UInt16 := x <<< 8 ||| x >>> 8

/-! ### Rows -/

/-- `now_sec`, of the monotonic clock in nanoseconds. -/
def nowSec (ns : Nat) : UInt32 := UInt32.ofNat (ns / 1000000000)

def sessionTimeout (v : ConnValue) : UInt32 :=
  if v.proto = ipprotoTCP then
    if v.state &&& (sessTCPEst ||| sessTCPClosing) = sessTCPEst then timeoutTCPEst else timeoutTCPTrans
  else if v.proto = ipprotoUDP then
    if v.destPort = bswap16 dnsPort then timeoutUDPDNS else timeoutUDP
  else timeoutICMP

/-- The age wraps with the 32-bit clock. -/
def sessionExpired (v : ConnValue) (now : UInt32) : Bool := sessionTimeout v < now - v.lastSeen

def touchState (state tcpFlags : UInt8) (inbound : Bool) : UInt8 :=
  if tcpFlags &&& (tcpFin ||| tcpRst) ≠ 0 then state ||| sessTCPClosing
  else if inbound = true ∧ tcpFlags &&& tcpAck ≠ 0 then state ||| sessTCPEst
  else state

def touchSession (v : ConnValue) (now : UInt32) (tcpFlags : UInt8) (inbound : Bool) : ConnValue :=
  { v with lastSeen := now, state := if v.proto ≠ ipprotoTCP then v.state else touchState v.state tcpFlags inbound }

def ownsSession (v : ConnValue) (fwd : ConnKey) : Bool :=
  v.backendPort = fwd.sport ∧ v.tenantArg = fwd.tenantArg ∧ v.backendAddr = fwd.saddr ∧
    v.backendUsid = fwd.encapSrc ∧ v.destAddr = fwd.daddr

/-- The forward key a value names, as `release_session` rebuilds it. -/
def ConnValue.forwardKey (v : ConnValue) : ConnKey where
  family := v.family
  proto := v.proto
  tenantArg := v.tenantArg
  sport := v.backendPort
  dport := v.destPort
  saddr := v.backendAddr
  daddr := v.destAddr
  encapSrc := v.backendUsid

/-- The forward row of the session at `rev`, deleted if it still names that port. -/
def dropForward (t : Table) (rev : ConnKey) (v : ConnValue) : Table :=
  match t v.forwardKey with
  | some f => if f.shardPort = rev.dport then update t v.forwardKey none else t
  | none => t

def releaseSession (t : Table) (rev : ConnKey) (v : ConnValue) : Table :=
  update (dropForward t rev v) rev none

/-! ### Claims -/

/-- One probe of `claim_masquerade_port`, at the reverse key `rev`: the table, and whether the port is taken. -/
def probe (t : Table) (fwd rev : ConnKey) (cv : ConnValue) (now : UInt32) : Table × Bool :=
  match t rev with
  | none => (update t rev (some cv), true)
  | some held =>
    if sessionExpired held now = false then
      if ownsSession held fwd then (update t rev (some { held with lastSeen := now }), true) else (t, false)
    else
      match releaseSession t rev held rev with
      | none => (update (releaseSession t rev held) rev (some cv), true)
      | some _ => (releaseSession t rev held, false)

def candidate (hashBase : UInt32) (i : Nat) : UInt16 :=
  bswap16 (patPortBase + (hashBase + UInt32.ofNat i) % patPortRange).toUInt16

/-- `claim_masquerade_port` with `n` probes left, the next one number `i`; port 0 when all collide. -/
def claimMasqueradePort (fwd rev : ConnKey) (cv : ConnValue) (hashBase now : UInt32) :
    Nat → Nat → Table → Table × UInt16
  | 0, _, t => (t, 0)
  | n + 1, i, t =>
    let port := candidate hashBase i
    let r := probe t fwd { rev with dport := port } { cv with shardPort := port } now
    if r.2 then (r.1, port) else claimMasqueradePort fwd rev cv hashBase now n (i + 1) r.1

/-- The value a new session is written with; the claim fills in its port. -/
def newSession (fwd : ConnKey) (now : UInt32) (tcpFlags : UInt8) : ConnValue where
  backendAddr := fwd.saddr
  backendPort := fwd.sport
  destAddr := fwd.daddr
  destPort := fwd.dport
  shardPort := 0
  backendUsid := fwd.encapSrc
  proto := fwd.proto
  family := fwd.family
  tenantArg := fwd.tenantArg
  state := if tcpFlags &&& (tcpFin ||| tcpRst) ≠ 0 then sessTCPClosing else 0
  lastSeen := now

/-- The reverse row the forward row leads to, when it is still the flow's. -/
def liveSession (t : Table) (fwd rev : ConnKey) (now : UInt32) : Option (UInt16 × ConnValue) :=
  match t fwd with
  | none => none
  | some existing =>
    match t { rev with dport := existing.shardPort } with
    | none => none
    | some rv => if ownsSession rv fwd ∧ sessionExpired rv now = false then some (existing.shardPort, rv) else none

def sessionPort (t : Table) (fwd rev : ConnKey) (hashBase now : UInt32) (tcpFlags : UInt8) : Table × UInt16 :=
  match liveSession t fwd rev now with
  | some (port, rv) => (update t { rev with dport := port } (some (touchSession rv now tcpFlags false)), port)
  | none =>
    let r := claimMasqueradePort fwd rev (newSession fwd now tcpFlags) hashBase now patProbeLimit 0 t
    if r.2 ≠ 0 then
      (update r.1 fwd (some { newSession fwd now tcpFlags with shardPort := r.2 }), r.2)
    else r

/-! ### The legs -/

inductive Family
  | v6
  | v4
deriving DecidableEq, Repr

/-- What a tenant may open a flow with; an Echo Request's Identifier is its source port. -/
inductive L4
  | tcp
  | udp
  | echo
deriving DecidableEq, Repr

/-- The public addresses of `struct shard_config`. -/
structure ShardConfig where
  pubAddr6 : Addr16
  pubAddr4 : List.Vector UInt8 4

/-- A tenant's flow, as a forward leg reads it from the outer and the inner header. -/
structure Flow where
  family : Family
  l4 : L4
  tenantArg : UInt16
  usid : Addr16
  saddr : Addr16
  sport : UInt16
  daddr : Addr16
  dport : UInt16
deriving DecidableEq

def Family.byte : Family → UInt8
  | v6 => familyV6
  | v4 => familyV4

/-- The protocol number of the tenant's packet. -/
def L4.proto : L4 → UInt8
  | tcp => ipprotoTCP
  | udp => ipprotoUDP
  | echo => ipprotoICMPv6

/-- The protocol number replies come with. -/
def L4.replyProto : Family → L4 → UInt8
  | .v4, .echo => ipprotoICMP
  | _, l4 => l4.proto

def zeroAddr : Addr16 := ⟨List.replicate 16 0, rfl⟩

def v4Mapped (a : List.Vector UInt8 4) : Addr16 := ⟨List.replicate 10 0 ++ [0xff, 0xff] ++ a.toList, by simp⟩

/-- The IPv4 address in the last four bytes. -/
def embedded4 (a : Addr16) : List.Vector UInt8 4 := ⟨a.toList.drop 12, by simp⟩

def ShardConfig.pubAddr (cfg : ShardConfig) : Family → Addr16
  | .v6 => cfg.pubAddr6
  | .v4 => v4Mapped cfg.pubAddr4

/-- The forward key of `nat66_forward_leg` and `nat64_forward_leg`. -/
def Flow.fwdKey (f : Flow) : ConnKey where
  family := f.family.byte
  proto := f.l4.proto
  tenantArg := f.tenantArg
  sport := f.sport
  dport := f.dport
  saddr := f.saddr
  daddr := f.daddr
  encapSrc := f.usid

def Flow.peer (f : Flow) : Addr16 :=
  match f.family with
  | .v6 => f.daddr
  | .v4 => v4Mapped (embedded4 f.daddr)

def Flow.revKey (f : Flow) (cfg : ShardConfig) (port : UInt16) : ConnKey where
  family := f.family.byte
  proto := f.l4.replyProto f.family
  tenantArg := 0
  sport := f.dport
  dport := port
  saddr := f.peer
  daddr := cfg.pubAddr f.family
  encapSrc := zeroAddr

def fnv1aFlow (addr : Addr16) (port : UInt16) : UInt32 :=
  (addr.toList ++ [port.toUInt8, (port >>> 8).toUInt8]).foldl (fun h b => (h ^^^ b.toUInt32) * 16777619) 2166136261

def Flow.hashBase (f : Flow) : UInt32 := fnv1aFlow f.saddr f.sport ^^^ f.dport.toUInt32 ^^^ f.tenantArg.toUInt32

/-- The session part of a forward leg. -/
def outbound (cfg : ShardConfig) (t : Table) (f : Flow) (now : UInt32) (tcpFlags : UInt8) : Table × UInt16 :=
  sessionPort t f.fwdKey (f.revKey cfg 0) f.hashBase now tcpFlags

/-- A packet from the internet to the shard's public address; `nat_ingress` hands no other to a return leg. -/
structure Inbound where
  family : Family
  proto : UInt8
  saddr : Addr16
  sport : UInt16
  dport : UInt16
deriving DecidableEq

def Inbound.key (p : Inbound) (cfg : ShardConfig) : ConnKey where
  family := p.family.byte
  proto := p.proto
  tenantArg := 0
  sport := p.sport
  dport := p.dport
  saddr := p.saddr
  daddr := cfg.pubAddr p.family
  encapSrc := zeroAddr

/-- The row a return leg translates by; an expired one translates nothing. -/
def replyRow (cfg : ShardConfig) (t : Table) (p : Inbound) (now : UInt32) : Option ConnValue :=
  (t (p.key cfg)).filter fun v => sessionExpired v now = false

/-- The session part of `nat66_return_leg` and `nat64_return_leg`. -/
def reply (cfg : ShardConfig) (t : Table) (p : Inbound) (now : UInt32) (tcpFlags : UInt8) : Table :=
  match replyRow cfg t p now with
  | some v => update t (p.key cfg) (some (touchSession v now tcpFlags true))
  | none => t

/-! ### Runs -/

/-- The table, the monotonic clock, and for each reverse key the flow that was last given its port. -/
structure Shard where
  table : Table
  clock : Nat
  holder : ConnKey → Option Flow

def Shard.start : Shard := ⟨fun _ => none, 0, fun _ => none⟩

/-- What happens at a shard. An ICMP error reads the table and refreshes nothing. -/
inductive Event
  | outbound (f : Flow) (tcpFlags : UInt8)
  | reply (p : Inbound) (tcpFlags : UInt8)
  | evict (k : ConnKey)
  | elapse (ns : Nat)

def Shard.outbound (cfg : ShardConfig) (s : Shard) (f : Flow) (tcpFlags : UInt8) : Shard × UInt16 :=
  let r := Natprog.outbound cfg s.table f (nowSec s.clock) tcpFlags
  ({ s with table := r.1, holder := if r.2 = 0 then s.holder else update s.holder (f.revKey cfg r.2) (some f) }, r.2)

def Shard.step (cfg : ShardConfig) (s : Shard) : Event → Shard
  | .outbound f tcpFlags => (s.outbound cfg f tcpFlags).1
  | .reply p tcpFlags => { s with table := Natprog.reply cfg s.table p (nowSec s.clock) tcpFlags }
  | .evict k => { s with table := update s.table k none }
  | .elapse ns => { s with clock := s.clock + ns }

def Shard.run (cfg : ShardConfig) (s : Shard) (events : List Event) : Shard := events.foldl (Shard.step cfg) s

end Galactic.Natprog
