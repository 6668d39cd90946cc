import Galactic.Net.Parse

/-!
# The objects a service plan reads

`ServiceRoutePolicy`, `ServiceEndpoint`, `VPCAttachment` and the producer reports, with the fields that
`pkg/serviceplan` reads. Times are nanoseconds since the epoch. What the package takes from other libraries is an
`External`: the compilation of label selectors, and the JSON encoding of a snapshot, which holds more fields of the
objects than are modelled here. -/

namespace Galactic.ServicePlan

open Net (IP IPNet)

abbrev Time := Int

/-- The zero `time.Time`, the first second of the year one. -/
def Time.zero : Time := -62135596800000000000

structure NamespacedName where
  ns : String
  name : String
  deriving DecidableEq, Repr

def NamespacedName.string (n : NamespacedName) : String := n.ns ++ "/" ++ n.name

def NamespacedName.empty : NamespacedName := ⟨"", ""⟩

abbrev LabelSet := List (String × String)

structure LabelSelector where
  matchLabels : LabelSet
  matchExpressions : List (String × String × List String)
  deriving DecidableEq, Repr

/-! ### Attachments -/

structure Condition where
  type : String
  status : String
  deriving DecidableEq, Repr

/-- `apimeta.IsStatusConditionTrue`: the first condition of the type decides. -/
def isStatusConditionTrue (conditions : List Condition) (type : String) : Bool :=
  match conditions.find? fun c => c.type = type with
  | none => false
  | some c => c.status = "True"

def conditionTypeReady : String := "Ready"
def conditionTypeProgrammed : String := "Programmed"

structure VPCAttachmentSpec where
  vpcName : String
  deriving DecidableEq, Repr

structure VPCAttachmentStatus where
  observedGeneration : Int
  conditions : List Condition
  vpc : String
  vpcAttachment : String
  node : String
  hostInterface : String
  podSubnet : String
  deriving DecidableEq, Repr

structure VPCAttachment where
  ns : String
  name : String
  uid : String
  generation : Int
  labels : LabelSet
  deletionTimestamp : Option Time
  spec : VPCAttachmentSpec
  status : VPCAttachmentStatus
  deriving DecidableEq, Repr

def VPCAttachment.key (a : VPCAttachment) : NamespacedName := ⟨a.ns, a.name⟩

/-- The attachments of a list call. An entry may be nil; no two entries have the same namespace and name, which
the API server keeps unique. -/
structure Attachments where
  items : List (Option VPCAttachment)
  unique : (items.reduceOption.map VPCAttachment.key).Nodup

/-! ### Endpoints -/

inductive Protocol
  | tcp
  | udp
  | sctp
  deriving DecidableEq, Repr

def Protocol.text : Protocol → String
  | tcp => "tcp"
  | udp => "udp"
  | sctp => "sctp"

inductive DeliveryMode
  | nodeLocal
  | preferNodeLocal
  deriving DecidableEq, Repr

/-- An endpoint that does not say is `single`. -/
inductive Distribution
  | single
  | spread
  deriving DecidableEq, Repr

inductive BackendHealthState
  | healthy
  | unhealthy
  | unknown
  deriving DecidableEq, Repr

/-- `ServiceEndpointProducerStatus`: the health decision of a node about one producer. -/
structure ProducerStatus where
  ns : String
  name : String
  attachmentUID : String
  node : String
  state : BackendHealthState
  lastTransitionTime : Time
  renewTime : Option Time
  deriving DecidableEq, Repr

structure ServiceEndpointSpec where
  address : String
  port : Int
  protocol : Protocol
  deliveryMode : DeliveryMode
  attachmentRef : Option NamespacedName
  attachmentSelector : Option LabelSelector
  region : String
  distribution : Distribution
  deriving DecidableEq, Repr

structure ServiceEndpoint where
  ns : String
  name : String
  uid : String
  generation : Int
  spec : ServiceEndpointSpec
  /-- `status.producers` -/
  producers : List ProducerStatus
  deriving DecidableEq, Repr

def maxProducersPerNode : Nat := 16

/-- Sixty seconds. -/
def producerReportLifetime : Int := 60000000000

/-! ### Policies -/

/-- `ServiceRouteProtocolPort`. -/
structure ProtocolPort where
  protocol : Protocol
  port : Int
  deriving DecidableEq, Repr

structure VPCReference where
  name : String
  uid : String
  deriving DecidableEq, Repr

structure RouteAuthorization where
  persistent : Bool
  validUntil : Time
  deriving DecidableEq, Repr

structure ServiceRoutePolicySpec where
  consumerVPCRef : Option VPCReference
  frontend : Option String
  authorization : Option RouteAuthorization
  attachmentSelector : LabelSelector
  protocolPorts : List ProtocolPort
  region : String
  deriving DecidableEq, Repr

structure ServiceRoutePolicy where
  ns : String
  uid : String
  generation : Int
  spec : ServiceRoutePolicySpec
  deriving DecidableEq, Repr

/-! ### What other libraries compute -/

structure AttachmentSnapshot where
  ns : String
  name : String
  uid : String
  generation : Int
  labels : LabelSet
  deleted : Bool
  spec : VPCAttachmentSpec
  status : VPCAttachmentStatus
  deriving DecidableEq, Repr

structure ProgrammingSnapshot where
  policyUID : String
  policyGeneration : Int
  policySpec : ServiceRoutePolicySpec
  endpointUID : String
  endpointGeneration : Int
  endpointSpec : ServiceEndpointSpec
  vpcIdentity : String
  attachments : List AttachmentSnapshot
  deriving DecidableEq, Repr

structure External where
  /-- `metav1.LabelSelectorAsSelector`, with the `Matches` of the selector it gives -/
  labelSelectorAsSelector : LabelSelector → Except String (LabelSet → Bool)
  /-- `json.Marshal` -/
  marshal : ProgrammingSnapshot → Except String (List UInt8)

/-- Go's `%q`. -/
def quoted (s : String) : String := s.quote

def textBytes (s : String) : List UInt8 := s.toUTF8.data.toList

/-- What a planning call fails with. A policy whose routing dependencies are not ready yet is told apart from one
that is not valid. -/
inductive PlanError
  | invalid (text : String)
  | dependencyNotReady (text : String)
  | noEligibleConsumers
  | consumersNotReady
  deriving DecidableEq, Repr

def PlanError.text : PlanError → String
  | invalid text => text
  | dependencyNotReady text => text
  | noEligibleConsumers => "no eligible consumer attachments"
  | consumersNotReady => "no consumer attachment is ready"

end Galactic.ServicePlan
