import Galactic.Lib.ByteWord
import Galactic.ServicePlan.Objects

/-!
# Which producer serves a consumer

The ready attachments and the producers among them, their health by the reports of their nodes, and the choice of the
producers of one consumer. A consumer of a `Spread` endpoint that leaves its node is sent to one remote producer, which
one of two pairings picks. -/

namespace Galactic.ServicePlan

open Net (IP IPNet)

/-! ### Ready attachments -/

def ready (a : VPCAttachment) : Bool :=
  a.deletionTimestamp.isNone ∧ a.status.observedGeneration = a.generation ∧ a.status.node ≠ "" ∧
    a.status.vpc ≠ "" ∧ a.status.vpcAttachment ≠ "" ∧
    isStatusConditionTrue a.status.conditions conditionTypeReady ∧
    isStatusConditionTrue a.status.conditions conditionTypeProgrammed

/-- `sort.Slice` by namespace and name. -/
def sortByName (as : List VPCAttachment) : List VPCAttachment :=
  as.insertionSort fun a b => a.key.string ≤ b.key.string

def readyAttachments (attachments : List (Option VPCAttachment)) : List VPCAttachment :=
  sortByName (attachments.reduceOption.filter ready)

/-! ### Producers -/

section
variable (ext : External)

def producerCandidates (endpoint : ServiceEndpoint) (attachments : List (Option VPCAttachment)) :
    Except PlanError (List VPCAttachment) :=
  match endpoint.spec.attachmentRef, endpoint.spec.attachmentSelector with
  | none, none | some _, some _ =>
    .error (.invalid ("service endpoint " ++ endpoint.name ++
      " must set exactly one of attachmentRef or attachmentSelector"))
  | some key, none =>
    .ok ((readyAttachments attachments).find? fun a => a.key = key ∧ a.status.hostInterface ≠ "").toList
  | none, some selector =>
    match ext.labelSelectorAsSelector selector with
    | .error e => .error (.invalid ("compile service attachment selector: " ++ e))
    | .ok selects =>
      .ok ((readyAttachments attachments).filter fun a => a.status.hostInterface ≠ "" ∧ selects a.labels)

end

def spread (endpoint : ServiceEndpoint) : Bool := endpoint.spec.distribution = .spread

/-- The loop of `validateProducerTopology` for `Spread`, with the nodes of the producers counted so far. -/
def checkSpreadTopology (endpoint : ServiceEndpoint) : List String → List VPCAttachment → Except PlanError Unit
  | _, [] => .ok ()
  | counted, p :: rest =>
    if maxProducersPerNode < counted.count p.status.node + 1 then
      .error (.invalid ("service endpoint " ++ endpoint.ns ++ "/" ++ endpoint.name ++ " selects more than " ++
        toString maxProducersPerNode ++ " ready producer attachments on node " ++ quoted p.status.node))
    else checkSpreadTopology endpoint (p.status.node :: counted) rest

/-- The loop of `validateProducerTopology` for `Single`, with the producers seen so far. -/
def checkSingleTopology (endpoint : ServiceEndpoint) : List VPCAttachment → List VPCAttachment → Except PlanError Unit
  | _, [] => .ok ()
  | seen, p :: rest =>
    match seen.find? fun first => first.status.node = p.status.node ∧ first.status.vpc = p.status.vpc with
    | some first =>
      .error (.invalid ("service endpoint " ++ endpoint.ns ++ "/" ++ endpoint.name ++
        " selects multiple ready producer attachments " ++ first.key.string ++ " and " ++ p.key.string ++ " on node " ++
        quoted p.status.node ++ " in VPC " ++ quoted p.status.vpc ++
        "; the direct endpoint dataplane cannot distinguish them"))
    | none => checkSingleTopology endpoint (p :: seen) rest

def validateProducerTopology (endpoint : ServiceEndpoint) (producers : List VPCAttachment) : Except PlanError Unit :=
  if spread endpoint then checkSpreadTopology endpoint [] producers else checkSingleTopology endpoint [] producers

/-! ### Health -/

inductive ProducerHealth
  | unknown
  | healthy
  | reportExpired
  | unhealthy
  deriving DecidableEq, Repr

def ProducerHealth.eligible (h : ProducerHealth) : Bool := h = .unknown ∨ h = .healthy

/-- The health of the producers by UID. A UID that has none is `unknown`. -/
abbrev Health := String → ProducerHealth

def producerReportCurrent (entry : ProducerStatus) (now : Time) : Bool :=
  match entry.renewTime with
  | none => false
  | some renewed => now < renewed + producerReportLifetime

/-- The entry of a producer's own node about it: the last one, as a later entry of a key replaces an earlier one. -/
def reportedEntry (endpoint : ServiceEndpoint) (p : VPCAttachment) : Option ProducerStatus :=
  endpoint.producers.reverse.find? fun e => e.ns = p.ns ∧ e.name = p.name ∧ e.node = p.status.node

def entryHealth (entry : Option ProducerStatus) (p : VPCAttachment) (now : Time) : Option ProducerHealth :=
  match entry with
  | none => none
  | some e =>
    if e.attachmentUID ≠ p.uid then none
    else if !producerReportCurrent e now then some .reportExpired
    else
      match e.state with
      | .unhealthy => some .unhealthy
      | .healthy => some .healthy
      | .unknown => none

def producersHealth (endpoint : ServiceEndpoint) (producers : List VPCAttachment) (now : Time) : Health :=
  if !spread endpoint then fun _ => .unknown
  else
    producers.foldl (fun health p =>
      match entryHealth (reportedEntry endpoint p) p now with
      | none => health
      | some h => Function.update health p.uid h) fun _ => .unknown

/-- `producersHealthSince`. The zero time stands for a producer without a current decision. -/
def producersHealthSince (endpoint : ServiceEndpoint) (producers : List VPCAttachment) (now : Time) :
    String → Time :=
  if !spread endpoint then fun _ => Time.zero
  else
    producers.foldl (fun since p =>
      endpoint.producers.foldl (fun since e =>
        if e.ns = p.ns ∧ e.name = p.name ∧ e.node = p.status.node ∧ e.attachmentUID = p.uid ∧
            producerReportCurrent e now then
          Function.update since p.uid e.lastTransitionTime
        else since) since) fun _ => Time.zero

def localUnusableLoop (health : Health) : Bool → List VPCAttachment → Bool
  | unhealthy, [] => unhealthy
  | unhealthy, p :: rest =>
    match health p.uid with
    | .unhealthy => localUnusableLoop health true rest
    | .unknown => localUnusableLoop health unhealthy rest
    | .healthy | .reportExpired => false

def localUnusable (producers : List VPCAttachment) (health : Health) : Bool := localUnusableLoop health false producers

def allUnhealthy (producers : List VPCAttachment) (health : Health) : Bool :=
  producers.all fun p => health p.uid = .unhealthy

/-! ### Pairings -/

inductive SpreadPairing
  | first
  | rendezvous
  deriving DecidableEq, Repr

def SpreadPairing.text : SpreadPairing → String
  | first => "first"
  | rendezvous => "rendezvous"

def spreadPairings : List SpreadPairing := [.first, .rendezvous]

def parseSpreadPairing (value : String) : Except PlanError SpreadPairing :=
  if value = "" then .ok .first
  else if value = SpreadPairing.first.text then .ok .first
  else if value = SpreadPairing.rendezvous.text then .ok .rendezvous
  else .error (.invalid ("unknown Spread pairing " ++ quoted value ++ ", want " ++ quoted SpreadPairing.first.text ++
    " or " ++ quoted SpreadPairing.rendezvous.text))

def mix64 (x : UInt64) : UInt64 :=
  let x := x ^^^ (x >>> 30)
  let x := 0xbf58476d1ce4e5b9 * x
  let x := x ^^^ (x >>> 27)
  let x := 0x94d049bb133111eb * x
  x ^^^ (x >>> 31)

def rendezvousKey (a : VPCAttachment) : String := if a.uid ≠ "" then a.uid else a.ns ++ "/" ++ a.name

def rendezvousScore (consumer producer : VPCAttachment) : UInt64 :=
  mix64 (ByteWord.fnv64a (textBytes (rendezvousKey consumer) ++ 0 :: textBytes (rendezvousKey producer)))

def firstProducer (producers : List VPCAttachment) (includes : VPCAttachment → Bool) : Option VPCAttachment :=
  producers.find? includes

/-- The loop of `rendezvousProducer`, with the best producer so far and its score. -/
def rendezvousLoop (consumer : VPCAttachment) (includes : VPCAttachment → Bool) :
    Option (VPCAttachment × UInt64) → List VPCAttachment → Option VPCAttachment
  | best, [] => best.map (·.1)
  | best, p :: rest =>
    if !includes p then rendezvousLoop consumer includes best rest
    else
      match best with
      | none => rendezvousLoop consumer includes (some (p, rendezvousScore consumer p)) rest
      | some (b, score) =>
        if score < rendezvousScore consumer p then
          rendezvousLoop consumer includes (some (p, rendezvousScore consumer p)) rest
        else rendezvousLoop consumer includes (some (b, score)) rest

def rendezvousProducer (consumer : VPCAttachment) (producers : List VPCAttachment) (includes : VPCAttachment → Bool) :
    Option VPCAttachment := rendezvousLoop consumer includes none producers

def SpreadPairing.pick (pairing : SpreadPairing) (consumer : VPCAttachment) (producers : List VPCAttachment)
    (includes : VPCAttachment → Bool) : Option VPCAttachment :=
  match pairing with
  | first => firstProducer producers includes
  | rendezvous => rendezvousProducer consumer producers includes

/-- `spreadRemoteProducer`: the eligible producers of other nodes come first, then those whose report expired,
then the rest. -/
def spreadRemoteProducer (consumer : VPCAttachment) (producers : List VPCAttachment) (health : Health)
    (pairing : SpreadPairing) : Option VPCAttachment :=
  let remote := producers.filter fun p => p.status.node ≠ consumer.status.node
  match pairing.pick consumer remote fun p => (health p.uid).eligible with
  | some p => some p
  | none =>
    match pairing.pick consumer remote fun p => health p.uid = .reportExpired with
    | some p => some p
    | none => pairing.pick consumer remote fun _ => true

def chooseProducer (mode : DeliveryMode) (consumerNode : String) (producers : List VPCAttachment) :
    Option VPCAttachment :=
  match producers.find? fun p => p.status.node = consumerNode with
  | some p => some p
  | none => if mode = .preferNodeLocal then producers.head? else none

/-- `selectProducers`: the producers of the consumer's own node, or the one producer it is sent to. -/
def selectProducers (endpoint : ServiceEndpoint) (consumer : VPCAttachment) (producers : List VPCAttachment)
    (health : Health) (pairing : SpreadPairing) : List VPCAttachment × Option VPCAttachment :=
  if spread endpoint then
    let onNode := producers.filter fun p => p.status.node = consumer.status.node
    let eligibleRemote := producers.any fun p => p.status.node ≠ consumer.status.node ∧ (health p.uid).eligible
    if endpoint.spec.deliveryMode ≠ .preferNodeLocal then (onNode, none)
    else if onNode ≠ [] ∧ (!eligibleRemote ∨ !localUnusable onNode health) then (onNode, none)
    else ([], spreadRemoteProducer consumer producers health pairing)
  else ([], chooseProducer endpoint.spec.deliveryMode consumer.status.node producers)

/-- The loop of `acceptedProducers`. -/
def addPicks (consumer : VPCAttachment) (producers : List VPCAttachment) (health : Health) :
    List VPCAttachment → List SpreadPairing → List VPCAttachment
  | accepted, [] => accepted
  | accepted, pairing :: rest =>
    match spreadRemoteProducer consumer producers health pairing with
    | none => addPicks consumer producers health accepted rest
    | some p =>
      if p ∈ accepted then addPicks consumer producers health accepted rest
      else addPicks consumer producers health (accepted ++ [p]) rest

/-- `acceptedProducers`: the producers whose node takes the consumer's traffic. -/
def acceptedProducers (endpoint : ServiceEndpoint) (consumer : VPCAttachment) (producers : List VPCAttachment)
    (health : Health) (chosen : VPCAttachment) : List VPCAttachment :=
  if !spread endpoint then [chosen] else addPicks consumer producers health [chosen] spreadPairings

end Galactic.ServicePlan
