import Galactic.Maglev.Table
import Galactic.Net.Addr

/-!
# Rules of the gateway

`types.go` of `internal/gateway` and the parts of `kerneldatapath.go`, `quota.go` and `engine.go` that only read a rule:
its row keys, its Maglev tables, and when two rules overlap. -/

namespace Galactic.Gateway

open Net

structure DesiredBackend where
  address : Addr
  port : UInt16
  usid : Addr
  deriving DecidableEq

/-- `Key`: the address and the port. -/
def DesiredBackend.key (b : DesiredBackend) : String := b.address.string ++ ":" ++ toString b.port.toNat

/-- `Key` of an `addressKeyed` backend. -/
def DesiredBackend.addressKey (b : DesiredBackend) : String := b.address.string

structure DesiredRule where
  key : String
  vpcRef : String
  vipAddresses : List Addr
  protocol : String
  port : UInt16
  portEnd : UInt16
  affinity : String
  backends : List DesiredBackend
  ipv4Backends : List DesiredBackend
  deriving DecidableEq

def protocolTCP : String := "tcp"
def protocolUDP : String := "udp"
def affinityNone : String := "None"
def affinityClientIP : String := "ClientIP"
def affinityClientIPAndProtocol : String := "ClientIPAndProtocol"

def DesiredRule.backendsFor (r : DesiredRule) (vip : Addr) : List DesiredBackend :=
  if vip.is4 then r.ipv4Backends else r.backends

/-- `portEnd` of a rule: its port when it has no range. -/
def lastPort (r : DesiredRule) : UInt16 := if r.portEnd ≠ 0 then r.portEnd else r.port

def rulesOverlap (a b : DesiredRule) : Bool :=
  if a.protocol ≠ b.protocol ∨ a.port > lastPort b ∨ b.port > lastPort a then false
  else a.vipAddresses.any fun addr => addr ∈ b.vipAddresses

/-- `rulesEqual` compares every field. -/
def rulesEqual (a b : DesiredRule) : Bool := a = b

/-! ### Keys and numbers -/

structure VIPKey where
  proto : UInt8
  vport : UInt16
  vip : Addr
  deriving DecidableEq

/-- What a call reports: a field of the rule that the datapath does not take, an address that is no key, a map
operation, or what the engine says. -/
inductive Err
  | protocol (rule : String) (protocol : String)
  | affinity (rule : String) (affinity : String)
  | tooManyBackends (rule : String) (n : Nat)
  | maglev (rule : String) (e : Maglev.Error)
  | invalidRange
  | unknownAffinity (key : VIPKey) (affinity : UInt8)
  | noBackend (key : VIPKey)
  | vip (vip : Addr)
  | backendAddress (i : Nat)
  | backendUSID (i : Nat)
  | invalidIPv6Range (key : VIPKey) (portEnd : UInt16)
  | rangeCount (n : Nat)
  | rangeIntersects (first last : UInt16)
  | rangeCapacity
  | mapOperation
  | noRow (key : VIPKey)
  | apply (rule : String) (e : Err)
  | activate (e : Err)

def protoNumber (rule : DesiredRule) : Except Err UInt8 :=
  if rule.protocol = protocolTCP then .ok 6
  else if rule.protocol = protocolUDP then .ok 17
  else .error (.protocol rule.key rule.protocol)

def affinityNumber (rule : DesiredRule) : Except Err UInt8 :=
  if rule.affinity = "" ∨ rule.affinity = affinityNone then .ok 0
  else if rule.affinity = affinityClientIP then .ok 1
  else if rule.affinity = affinityClientIPAndProtocol then .ok 2
  else .error (.affinity rule.key rule.affinity)

def vipKeysForRule (rule : DesiredRule) : Except Err (List VIPKey) :=
  match protoNumber rule with
  | .error e => .error e
  | .ok proto => .ok (rule.vipAddresses.map fun vip => ⟨proto, rule.port, vip⟩)

/-! ### Tables -/

structure Backend where
  addr : Addr
  port : UInt16
  usid : Addr
  deriving DecidableEq

def maxBackends : Nat := 64
def maglevTableSize : Nat := 1021

/-- What `buildMaglevTable` returns: the backends in the order of their keys, and for each slot a place in them. -/
structure Family where
  backends : List Backend
  table : List UInt8

def candidateKey (affinity : UInt8) : DesiredBackend → String :=
  if affinity = 0 then DesiredBackend.key else DesiredBackend.addressKey

/-- The byte of a slot: `indexByKey` of the backend that the table has there. -/
def slotByte (key : DesiredBackend → String) (t : Maglev.Table DesiredBackend) (slot : Nat) : UInt8 :=
  match t.lookup slot with
  | some b => (t.backends.findIdx fun c => key c = key b).toUInt8
  | none => 0

def buildMaglevTable (rule : DesiredRule) (backends : List DesiredBackend) : Except Err Family :=
  if maxBackends < backends.length then .error (.tooManyBackends rule.key backends.length)
  else
    match affinityNumber rule with
    | .error e => .error e
    | .ok affinity =>
      match Maglev.new (candidateKey affinity) backends maglevTableSize with
      | .error e => .error (.maglev rule.key e)
      | .ok t => .ok ⟨t.backends.map fun b => ⟨b.address, b.port, b.usid⟩,
          (List.range maglevTableSize).map (slotByte (candidateKey affinity) t)⟩

end Galactic.Gateway
