import Galactic.Lib.Greedy
import Galactic.Net.Ranges
import Galactic.ServicePlan.Objects

/-!
# The backends of a NetworkService

The gateway and the backend nodes derive a rule's backends from the same objects: the attachments its selector picks in
its VPC (`ruleCandidateBackends`), less those that an older rule owns for the VIP's family (`ruleBackendOwners`,
`selectRuleBackends`). -/

namespace Galactic.RuleBackends

open Net
open ServicePlan (NamespacedName LabelSelector LabelSet)

/-- `NetworkServiceProtocol`. -/
inductive Protocol
  | tcp
  | udp
  | other (name : String)
  deriving DecidableEq

/-- `PortRange`; the source's `End` is `stop`. -/
structure PortRange where
  start : Int
  stop : Int

/-- `NetworkService`, with the fields that the selection reads. An object has a name, and a namespace has no slash. -/
structure Rule where
  ns : String
  name : String
  creationTimestamp : Int
  vpcRef : String
  vipAddresses : List String
  protocol : Protocol
  port : Int
  backendPort : Int
  portRange : Option PortRange
  backendSelector : LabelSelector
  named : name ≠ ""
  slashless : '/' ∉ ns.toList

def Rule.key (r : Rule) : NamespacedName := ⟨r.ns, r.name⟩

/-- `VPCAttachmentInterfaceMode`. -/
inductive InterfaceMode
  | netns
  | hypervisor
  | hypervisorDeclared
  deriving DecidableEq

/-- `VPCAttachment`, with the fields that the selection reads. -/
structure Attachment where
  ns : String
  name : String
  uid : String
  labels : LabelSet
  vpc : String
  node : String
  addresses : List String
  mode : InterfaceMode
  slashless : '/' ∉ ns.toList

def Attachment.key (a : Attachment) : NamespacedName := ⟨a.ns, a.name⟩

structure Rules where
  items : List Rule
  distinct : (items.map Rule.key).Nodup

structure Attachments where
  items : List Attachment
  distinct : (items.map Attachment.key).Nodup

inductive AddrFamily
  | ipv6
  | ipv4
  deriving DecidableEq

def AddrFamily.has : AddrFamily → Addr → Bool
  | .ipv4, a => a.unmap.is4
  | .ipv6, a => a.is6 && !a.is4In6

/-- `ServiceVIPBindingEgressKind`. -/
inductive EgressKind
  | tap
  | veth
  deriving DecidableEq

def attachmentEgressKind : InterfaceMode → EgressKind
  | .hypervisor | .hypervisorDeclared => .tap
  | .netns => .veth

inductive RuleError
  | unservedProtocol (p : Protocol)
  | portRange
  | port (n : Int)
  | backendPort (n : Int)
  | emptySelector
  | selector (text : String)
  | vip (text : String)
  | tooManyVIPs (n : Nat)
  deriving DecidableEq

structure RuleBackend where
  attachment : NamespacedName
  uid : String
  node : String
  addr : Addr
  port : Nat
  egressKind : EgressKind
  deriving DecidableEq

/-! ### Ports, selectors and addresses -/

/-- `rulePorts`: the ingress port and the backend port. -/
def rulePorts (r : Rule) : Except RuleError (Nat × Nat) :=
  match r.protocol with
  | .other p => .error (.unservedProtocol (.other p))
  | _ =>
    match r.portRange with
    | some i =>
      if r.protocol ≠ .udp ∨ r.port ≠ 0 ∨ r.backendPort ≠ 0 ∨ i.start < 1 ∨ i.stop < i.start ∨ 65535 < i.stop then
        .error .portRange
      else .ok (i.start.toNat, i.start.toNat)
    | none =>
      if r.port < 1 ∨ 65535 < r.port then .error (.port r.port)
      else if r.backendPort < 1 ∨ 65535 < r.backendPort then .error (.backendPort r.backendPort)
      else .ok (r.port.toNat, r.backendPort.toNat)

/-- `metav1.LabelSelectorAsSelector`, with the `Matches` of the selector it gives. -/
abbrev SelectorOf := LabelSelector → Except String (LabelSet → Bool)

def ruleBackendSelector (selectorOf : SelectorOf) (r : Rule) : Except RuleError (LabelSet → Bool) :=
  if r.backendSelector.matchLabels = [] ∧ r.backendSelector.matchExpressions = [] then .error .emptySelector
  else
    match selectorOf r.backendSelector with
    | .error e => .error (.selector e)
    | .ok m => .ok m

def ruleIsTenant (r : Rule) (objNS : String) : Bool := objNS ≠ "" ∧ r.ns ≠ objNS

def parseInterfaceAddress (s : String) : Option Addr :=
  match parsePrefix s.toList with
  | some p => some p.addr
  | none => parseAddr s.toList

def attachmentIPv6Addresses (a : Attachment) : List Addr :=
  (a.addresses.filterMap parseInterfaceAddress).filter AddrFamily.ipv6.has

/-! ### Candidates -/

def backendSlot (addr : Addr) (port : Nat) : UInt16 :=
  let sum := ByteWord.fnv32a (addr.as16 ++ [UInt8.ofNat (port / 256), UInt8.ofNat port])
  let slot := (sum >>> 16).toUInt16 ^^^ sum.toUInt16
  if slot = 0 then 1 else slot

def RuleBackend.string (b : RuleBackend) : String :=
  match b.addr with
  | .zero => "invalid AddrPort"
  | .v4 _ => b.addr.string ++ ":" ++ toString b.port
  | .v6 _ _ => "[" ++ b.addr.string ++ "]:" ++ toString b.port

/-- `%#04x` of a slot. -/
def hexSlot (slot : UInt16) : String :=
  let digits := Nat.toDigits 16 slot.toNat
  "0x" ++ String.ofList (List.replicate (4 - digits.length) '0' ++ digits)

/-- One round of `dropConflictingBackends`: the backends kept so far, and why others were dropped. -/
def dropStep (acc : List RuleBackend × List String) (b : RuleBackend) : List RuleBackend × List String :=
  match acc.1.find? fun k => k.addr = b.addr with
  | some first =>
    (acc.1, acc.2 ++ [b.attachment.string ++ ": address " ++ b.addr.string ++ " is also claimed by " ++
      first.attachment.string])
  | none =>
    match acc.1.find? fun k => k.node = b.node ∧ backendSlot k.addr k.port = backendSlot b.addr b.port with
    | some first =>
      (acc.1, acc.2 ++ [b.attachment.string ++ ": backend " ++ b.string ++ " shares slot " ++
        hexSlot (backendSlot b.addr b.port) ++ " on node " ++ b.node ++ " with " ++ first.string])
    | none => (acc.1 ++ [b], acc.2)

def dropConflictingBackends (bs : List RuleBackend) : List RuleBackend × List String := bs.foldl dropStep ([], [])

def backendLess (a b : RuleBackend) : Bool :=
  match a.addr.compare b.addr with
  | .lt => true
  | .gt => false
  | .eq => a.attachment.string < b.attachment.string

def picks (m : LabelSet → Bool) (r : Rule) (objNS : String) (a : Attachment) : Bool :=
  a.vpc = r.vpcRef ∧ m a.labels = true ∧ ¬(ruleIsTenant r objNS = true ∧ a.ns ≠ r.ns)

def notYet (a : Attachment) : List String :=
  if a.node = "" then [a.key.string ++ ": status.node not set by datum-cloud/cloud"]
  else if attachmentIPv6Addresses a = [] then [a.key.string ++ ": no IPv6 address"]
  else []

def backendsOf (port : Nat) (a : Attachment) : List RuleBackend :=
  if a.node = "" then []
  else (attachmentIPv6Addresses a).map fun addr => ⟨a.key, a.uid, a.node, addr, port, attachmentEgressKind a.mode⟩

/-- `ruleCandidateBackends`: the backends, and the picked attachments that are not backends yet. -/
def ruleCandidateBackends (selectorOf : SelectorOf) (r : Rule) (attachments : List Attachment) (objNS : String) :
    Except RuleError (List RuleBackend × List String) :=
  match rulePorts r with
  | .error e => .error e
  | .ok (_, port) =>
    match ruleBackendSelector selectorOf r with
    | .error e => .error e
    | .ok m =>
      let picked := attachments.filter (picks m r objNS)
      let backends := (picked.flatMap (backendsOf port)).insertionSort fun a b => backendLess b a = false
      let (kept, rejected) := dropConflictingBackends backends
      .ok (kept, (picked.flatMap notYet ++ rejected).insertionSort fun s t => s ≤ t)

/-! ### Claims and owners -/

/-- `backendClaim`; the source's `end` is `stop`, and 0 for a claim of one port. -/
structure BackendClaim where
  vpc : String
  addr : Addr
  port : Nat
  stop : Nat
  protocol : Protocol
  vipFamily : AddrFamily
  deriving DecidableEq

def backendClaimFor (r : Rule) (b : RuleBackend) (f : AddrFamily) : BackendClaim where
  vpc := r.vpcRef
  addr := b.addr
  port := b.port
  stop := (r.portRange.map fun i => i.stop.toNat).getD 0
  protocol := r.protocol
  vipFamily := f

def intervalsIntersect (a endA b endB : Nat) : Bool :=
  let endA := if endA = 0 then a else endA
  let endB := if endB = 0 then b else endB
  a ≤ endB ∧ b ≤ endA

def BackendClaim.intersects (c o : BackendClaim) : Bool :=
  c.vpc = o.vpc ∧ c.addr = o.addr ∧ c.protocol = o.protocol ∧ c.vipFamily = o.vipFamily ∧
    intervalsIntersect c.port c.stop o.port o.stop = true

abbrev BackendOwners := List (BackendClaim × NamespacedName)

/-- One round of `owner`'s loop. -/
def ownerStep (c : BackendClaim) (owner : NamespacedName) (e : BackendClaim × NamespacedName) : NamespacedName :=
  if c.intersects e.1 = true ∧ (owner.name = "" ∨ e.2.string < owner.string) then e.2 else owner

/-- `owner`: of the rules with a claim that intersects, the one with the least name. -/
def BackendOwners.owner (owners : BackendOwners) (c : BackendClaim) : Option NamespacedName :=
  let o := owners.foldl (ownerStep c) .empty
  if o.name = "" then none else some o

/-- `ruleVIPs`, with the number of VIPs in the place of `v4Err`'s text. -/
structure RuleVIPs where
  v6 : Addr
  v4 : Addr
  v4Err : Option Nat

/-- `ruleVIPs.valid`: the families with a translated VIP, and the VIP. -/
def RuleVIPs.valid (v : RuleVIPs) : List (AddrFamily × Addr) :=
  (if v.v6 = .zero then [] else [(.ipv6, v.v6)]) ++ (if v.v4 = .zero then [] else [(.ipv4, v.v4)])

def parseVIPs : List String → Except RuleError (List Addr)
  | [] => .ok []
  | v :: vs =>
    match parseAddr v.toList with
    | none => .error (.vip v)
    | some a => (parseVIPs vs).map (a :: ·)

def ruleTranslatedVIPs (r : Rule) : Except RuleError RuleVIPs :=
  match parseVIPs r.vipAddresses with
  | .error e => .error e
  | .ok vips =>
    let v4 := (vips.filter AddrFamily.ipv4.has).map Addr.unmap
    let v6 := vips.filter fun a => !AddrFamily.ipv4.has a
    if 1 < v6.length then .error (.tooManyVIPs v6.length)
    else
      .ok { v6 := v6.head?.getD .zero
            v4 := if 1 < v4.length then .zero else v4.head?.getD .zero
            v4Err := if 1 < v4.length then some v4.length else none }

def ruleOlder (a b : Rule) : Bool :=
  if a.creationTimestamp ≠ b.creationTimestamp then a.creationTimestamp < b.creationTimestamp
  else if a.ns ≠ b.ns then a.ns < b.ns
  else a.name < b.name

def ruleClaims (selectorOf : SelectorOf) (attachments : List Attachment) (objNS : String) (r : Rule) :
    List (BackendClaim × NamespacedName) :=
  match ruleTranslatedVIPs r, ruleCandidateBackends selectorOf r attachments objNS with
  | .ok vips, .ok (backends, _) => vips.valid.flatMap fun tv => backends.map fun b => (backendClaimFor r b tv.1, r.key)
  | _, _ => []

/-- One round of `ruleBackendOwners`' loops. -/
def record (owners : BackendOwners) (e : BackendClaim × NamespacedName) : BackendOwners :=
  if (owners.owner e.1).isNone then owners ++ [e] else owners

def ruleBackendOwners (selectorOf : SelectorOf) (rules : List Rule) (attachments : List Attachment) (objNS : String) :
    BackendOwners :=
  let ordered := rules.insertionSort fun a b => ruleOlder b a = false
  (ordered.flatMap (ruleClaims selectorOf attachments objNS)).foldl record []

/-! ### The selection -/

structure RuleSelection where
  backends : List RuleBackend
  pending : List String
  claimed : List (RuleBackend × NamespacedName)
  deriving DecidableEq

/-- The rule that `owners` assigns a backend to, if that is another one. -/
def lostTo (owners : BackendOwners) (r : Rule) (f : AddrFamily) (b : RuleBackend) : Option NamespacedName :=
  (owners.owner (backendClaimFor r b f)).filter fun o => o ≠ r.key

def selectRuleBackends (selectorOf : SelectorOf) (r : Rule) (attachments : List Attachment) (owners : BackendOwners)
    (f : AddrFamily) (objNS : String) : Except RuleError RuleSelection :=
  match ruleCandidateBackends selectorOf r attachments objNS with
  | .error e => .error e
  | .ok (candidates, pending) =>
    .ok { pending
          backends := candidates.filter fun b => (lostTo owners r f b).isNone
          claimed := candidates.filterMap fun b => (lostTo owners r f b).map fun o => (b, o) }

end Galactic.RuleBackends
