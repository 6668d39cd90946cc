import Galactic.Lib.FallibleLoop
import Galactic.Lib.Sha256
import Galactic.ServicePlan.Select

/-!
# Compiling a policy for a node

`Compile` gives the halves of service paths that one node installs: for every selected consumer on the node its own
half, and for every producer on it a half for each remote consumer that some pairing sends to it. The deep copies of the
source are values here, and a nil address is the empty one. -/

namespace Galactic.ServicePlan

open Net (IP IPNet)
open FallibleLoop (collect)

inductive RouteIntentKind
  | loc
  | localSet
  | remoteConsumer
  | remoteProducer
  deriving DecidableEq, Repr

def RouteIntentKind.text : RouteIntentKind → String
  | loc => "Local"
  | localSet => "LocalSet"
  | remoteConsumer => "RemoteConsumer"
  | remoteProducer => "RemoteProducer"

abbrev ServiceGrantID := List.Vector UInt8 16

def ServiceGrantID.zero : ServiceGrantID := List.Vector.replicate 16 0

/-- One member of the producer set of a `LocalSet` intent. -/
structure ProducerTarget where
  attachment : NamespacedName
  device : String
  nextHop : IP
  draining : Bool
  healthSince : Time
  deriving DecidableEq

/-- One node's half of a service path. -/
structure RouteIntent where
  attachment : NamespacedName
  producerAttachment : NamespacedName := .empty
  kind : RouteIntentKind
  service : IPNet
  frontend : IPNet
  consumerDevice : String := ""
  serviceDevice : String := ""
  consumerNextHop : IP := []
  serviceNextHop : IP := []
  serviceSID : IP := []
  consumerSID : IP := []
  grantID : ServiceGrantID := .zero
  authorizationValidUntil : Time := Time.zero
  ports : List ProtocolPort
  producers : List ProducerTarget := []
  deriving DecidableEq

abbrev SIDResolver := Option (VPCAttachment → Except String IP)

/-! ### Fields of an intent -/

def hostPrefix (address : String) : Except PlanError IPNet :=
  match Net.parseIP address.toList with
  | none => .error (.invalid (quoted address ++ " is not an IP address"))
  | some ip =>
    match ip.to4 with
    | some ip4 => .ok ⟨ip4, Net.cidrMask 32 32⟩
    | none => .ok ⟨ip, Net.cidrMask 128 128⟩

def attachmentNextHop (a : VPCAttachment) (service : IP) : IP :=
  match Net.parseCIDR a.status.podSubnet.toList with
  | none => []
  | some (ip, _) => if ip.to4.isNone ≠ service.to4.isNone then [] else ip

def portLE (a b : ProtocolPort) : Bool :=
  if a.protocol ≠ b.protocol then a.protocol.text ≤ b.protocol.text else a.port ≤ b.port

def servicePorts (policy : ServiceRoutePolicy) (endpoint : ServiceEndpoint) : Except PlanError (List ProtocolPort) :=
  if policy.spec.protocolPorts = [] then .ok [⟨endpoint.spec.protocol, endpoint.spec.port⟩]
  else if policy.spec.protocolPorts.all fun p => p.protocol = endpoint.spec.protocol ∧ p.port = endpoint.spec.port then
    .ok (policy.spec.protocolPorts.insertionSort fun a b => portLE a b)
  else .error (.invalid ("policy protocolPorts must be a subset of endpoint " ++ endpoint.spec.protocol.text ++ "/" ++
    toString endpoint.spec.port))

def producerTargets (onNode : List VPCAttachment) (health : Health) (healthSince : String → Time) (service : IP) :
    List ProducerTarget :=
  onNode.map fun p =>
    { attachment := p.key
      device := p.status.hostInterface
      nextHop := attachmentNextHop p service
      draining := (health p.uid = .unhealthy ∧ !allUnhealthy onNode health) ∨
        (health p.uid = .unknown ∧ onNode.any fun q => health q.uid = .healthy)
      healthSince := healthSince p.uid }

/-! ### Grants -/

/-- A 32-bit number, reduced as Go converts an integer. -/
def uint32Bytes (n : Int) : List UInt8 := ByteWord.bigEndian32 (UInt32.ofNat (n % 2 ^ 32).toNat)

def uidBytes (uid : String) : List UInt8 := uint32Bytes (textBytes uid).length ++ textBytes uid

def grantInput (policy : ServiceRoutePolicy) (endpoint : ServiceEndpoint) (consumer producer : VPCAttachment)
    (ports : List ProtocolPort) : List UInt8 :=
  uidBytes policy.uid ++ uidBytes consumer.uid ++ uidBytes endpoint.uid ++ uidBytes producer.uid ++
  (if policy.spec.frontend.isSome ∨ policy.spec.consumerVPCRef.isSome ∨ policy.spec.authorization.isSome then
    textBytes ("|" ++ toString policy.generation ++ "|" ++ toString endpoint.generation ++ "|" ++
      toString consumer.generation ++ "|" ++ toString producer.generation ++ "|") ++
    textBytes endpoint.spec.address ++
    (match policy.spec.frontend with
      | some address => textBytes address
      | none => []) ++
    (match policy.spec.consumerVPCRef with
      | some ref => textBytes ref.name ++ textBytes ref.uid
      | none => [])
  else []) ++
  ports.flatMap fun p => textBytes p.protocol.text ++ uint32Bytes p.port

def consumerMatchesVPC (policy : ServiceRoutePolicy) (consumer : VPCAttachment) (identity : String) : Bool :=
  match policy.spec.consumerVPCRef with
  | some ref =>
    if consumer.ns ≠ policy.ns ∨ consumer.spec.vpcName ≠ ref.name then false
    else identity = "" ∨ consumer.status.vpc = identity
  | none => identity = "" ∨ consumer.status.vpc = identity

def authorize (policy : ServiceRoutePolicy) (i : RouteIntent) : RouteIntent :=
  match policy.spec.frontend, policy.spec.authorization with
  | some _, some auth => if auth.persistent then i else { i with authorizationValidUntil := auth.validUntil }
  | _, _ => i

def setIntentAuthorization (policy : ServiceRoutePolicy) (intents : List RouteIntent) : List RouteIntent :=
  intents.map (authorize policy)

def intentLE (a b : RouteIntent) : Bool :=
  if a.attachment ≠ b.attachment then a.attachment.string ≤ b.attachment.string
  else if a.kind ≠ b.kind then a.kind.text ≤ b.kind.text
  else a.producerAttachment.string ≤ b.producerAttachment.string

def serviceGrantID (policy : ServiceRoutePolicy) (endpoint : ServiceEndpoint) (consumer producer : VPCAttachment)
    (ports : List ProtocolPort) : Except PlanError ServiceGrantID :=
  if policy.uid = "" ∨ endpoint.uid = "" ∨ consumer.uid = "" ∨ producer.uid = "" then
    .error (.invalid "remote service grant requires policy, endpoint, consumer, and producer UIDs")
  else .ok ⟨(Sha256.sum256 (grantInput policy endpoint consumer producer ports)).toList.take 16, by simp⟩

/-! ### Compiling -/

section
variable (ext : External)

/-- What is the same for all consumers of a policy. -/
structure Route where
  policy : ServiceRoutePolicy
  endpoint : ServiceEndpoint
  selects : LabelSet → Bool
  service : IPNet
  frontend : IPNet
  ports : List ProtocolPort
  producers : List VPCAttachment
  health : Health
  healthSince : String → Time

def routeFrontend (policy : ServiceRoutePolicy) (service : IPNet) : Except PlanError IPNet :=
  match policy.spec.frontend with
  | none => .ok service
  | some address =>
    match hostPrefix address with
    | .error e => .error (.invalid ("parse service frontend address: " ++ e.text))
    | .ok frontend =>
      if frontend.ip.to4.isNone ≠ service.ip.to4.isNone then
        .error (.invalid "service frontend and endpoint address families must match")
      else .ok frontend

/-- The part of `compile` before its loop. -/
def prepare (policy : ServiceRoutePolicy) (endpoint : ServiceEndpoint) (attachments : List (Option VPCAttachment))
    (now : Time) : Except PlanError Route := do
  if policy.spec.region ≠ "" ∧ endpoint.spec.region ≠ "" ∧ policy.spec.region ≠ endpoint.spec.region then
    throw (.invalid ("policy region " ++ quoted policy.spec.region ++ " does not match endpoint region " ++
      quoted endpoint.spec.region))
  let selects ← (ext.labelSelectorAsSelector policy.spec.attachmentSelector).mapError fun e =>
    .invalid ("compile consumer attachment selector: " ++ e)
  let service ← (hostPrefix endpoint.spec.address).mapError fun e =>
    .invalid ("parse service endpoint address: " ++ e.text)
  let frontend ← routeFrontend policy service
  let ports ← servicePorts policy endpoint
  let producers ← producerCandidates ext endpoint attachments
  validateProducerTopology endpoint producers
  return ⟨policy, endpoint, selects, service, frontend, ports, producers, producersHealth endpoint producers now,
    producersHealthSince endpoint producers now⟩

/-- Whether the loop of `compile` passes over an attachment. -/
def Route.skips (r : Route) (identity : String) (consumer : VPCAttachment) : Bool :=
  consumer.status.hostInterface = "" ∨ !r.selects consumer.labels ∨ !consumerMatchesVPC r.policy consumer identity

def producerHalfIntent (r : Route) (consumer producer : VPCAttachment) (grantID : ServiceGrantID) (consumerSID : IP) :
    RouteIntent where
  attachment := consumer.key
  producerAttachment := producer.key
  kind := .remoteProducer
  service := r.service
  frontend := r.frontend
  serviceDevice := producer.status.hostInterface
  consumerSID := consumerSID
  grantID := grantID
  ports := r.ports
  serviceNextHop := attachmentNextHop producer r.service.ip

def producerHalf (r : Route) (consumer : VPCAttachment) (localNode : String)
    (resolveSID : VPCAttachment → Except String IP) (producer : VPCAttachment) : Except PlanError (List RouteIntent) :=
  if producer.status.node ≠ localNode then .ok []
  else do
    let grantID ← serviceGrantID r.policy r.endpoint consumer producer r.ports
    let consumerSID ← (resolveSID consumer).mapError fun e =>
      .dependencyNotReady ("resolve consumer attachment " ++ consumer.key.string ++ " SID: " ++ e)
    return [producerHalfIntent r consumer producer grantID consumerSID]

def producerHalves (r : Route) (consumer : VPCAttachment) (accepted : List VPCAttachment) (localNode : String)
    (resolveSID : VPCAttachment → Except String IP) : Except PlanError (List RouteIntent) :=
  collect (producerHalf r consumer localNode resolveSID) accepted

def consumerHalfIntent (r : Route) (consumer producer : VPCAttachment) (grantID : ServiceGrantID) (serviceSID : IP) :
    RouteIntent where
  attachment := consumer.key
  producerAttachment := producer.key
  kind := .remoteConsumer
  service := r.service
  frontend := r.frontend
  consumerDevice := consumer.status.hostInterface
  serviceSID := serviceSID
  grantID := grantID
  ports := r.ports
  consumerNextHop := attachmentNextHop consumer r.service.ip

def consumerHalf (r : Route) (consumer producer : VPCAttachment) (localNode : String) (grantID : ServiceGrantID)
    (resolveSID : VPCAttachment → Except String IP) : Except PlanError (List RouteIntent) :=
  if consumer.status.node ≠ localNode then .ok []
  else do
    let serviceSID ← (resolveSID producer).mapError fun e =>
      .dependencyNotReady ("resolve producer attachment " ++ producer.key.string ++ " SID: " ++ e)
    return [consumerHalfIntent r consumer producer grantID serviceSID]

/-- The intents of a consumer that is sent to `producer` on another node. -/
def remoteIntents (r : Route) (consumer producer : VPCAttachment) (localNode : String) (resolveSID : SIDResolver) :
    Except PlanError (List RouteIntent) :=
  match resolveSID with
  | none => .error (.invalid "remote service routing requires a SID resolver")
  | some resolve => do
    let grantID ← serviceGrantID r.policy r.endpoint consumer producer r.ports
    let own ← consumerHalf r consumer producer localNode grantID resolve
    let halves ← producerHalves r consumer (acceptedProducers r.endpoint consumer r.producers r.health producer)
      localNode resolve
    return own ++ halves

def localSetIntent (r : Route) (consumer : VPCAttachment) (onNode : List VPCAttachment) : RouteIntent where
  attachment := consumer.key
  kind := .localSet
  service := r.service
  frontend := r.frontend
  consumerDevice := consumer.status.hostInterface
  ports := r.ports
  consumerNextHop := attachmentNextHop consumer r.service.ip
  producers := producerTargets onNode r.health r.healthSince r.service.ip

def localIntent (r : Route) (consumer producer : VPCAttachment) : RouteIntent where
  attachment := consumer.key
  producerAttachment := producer.key
  kind := .loc
  service := r.service
  frontend := r.frontend
  consumerDevice := consumer.status.hostInterface
  serviceDevice := producer.status.hostInterface
  ports := r.ports
  consumerNextHop := attachmentNextHop consumer r.service.ip
  serviceNextHop := attachmentNextHop producer r.service.ip

/-- The body of the loop of `compile`: the intents of one consumer. -/
def consumerIntents (r : Route) (localNode : String) (resolveSID : SIDResolver) (identity : String)
    (pairing : SpreadPairing) (consumer : VPCAttachment) : Except PlanError (List RouteIntent) :=
  if r.skips identity consumer then .ok []
  else
    match selectProducers r.endpoint consumer r.producers r.health pairing with
    | ([], none) => .ok []
    | ([], some producer) =>
      if producer.status.node = consumer.status.node then
        .ok (if consumer.status.node = localNode then [localIntent r consumer producer] else [])
      else remoteIntents r consumer producer localNode resolveSID
    | (onNode, _) => .ok (if consumer.status.node = localNode then [localSetIntent r consumer onNode] else [])

/-- `compile`, at the instant `now`. -/
def compile (policy : Option ServiceRoutePolicy) (endpoint : Option ServiceEndpoint)
    (attachments : List (Option VPCAttachment)) (localNode : String) (resolveSID : SIDResolver) (identity : String)
    (pairing : SpreadPairing) (now : Time) : Except PlanError (List RouteIntent) :=
  match policy, endpoint with
  | some policy, some endpoint => do
    let r ← prepare ext policy endpoint attachments now
    let intents ← collect (consumerIntents r localNode resolveSID identity pairing) (readyAttachments attachments)
    return (setIntentAuthorization policy intents).insertionSort fun a b => intentLE a b
  | _, _ => .error (.invalid "service route policy and endpoint are required")

structure CompileOptions where
  consumerVPCIdentity : String := ""
  spreadPairing : String := ""

def compileWithOptions (policy : Option ServiceRoutePolicy) (endpoint : Option ServiceEndpoint)
    (attachments : List (Option VPCAttachment)) (localNode : String) (resolveSID : SIDResolver)
    (options : CompileOptions) (now : Time) : Except PlanError (List RouteIntent) := do
  let pairing ← parseSpreadPairing options.spreadPairing
  compile ext policy endpoint attachments localNode resolveSID options.consumerVPCIdentity pairing now

end

end Galactic.ServicePlan
