import Galactic.ServicePlan.Compile

/-!
# Programming plans

`ProgrammingPlanAt` names the nodes that must report a policy programmed. It goes through the attachments on its
own, with maps in the place of the sorted lists of `compile`. -/

namespace Galactic.ServicePlan

structure ProgrammingRequirements where
  inputDigest : String
  nodes : List String
  deriving DecidableEq, Repr

def servingProducers (endpoint : ServiceEndpoint) (consumer : VPCAttachment) (producers : List VPCAttachment)
    (health : Health) : Except PlanError (List VPCAttachment) :=
  let (onNode, remote) := selectProducers endpoint consumer producers health .first
  if onNode ≠ [] then .ok (onNode.take 1)
  else
    match remote with
    | none =>
      .error (.invalid ("consumer attachment " ++ consumer.ns ++ "/" ++ consumer.name ++ " has no eligible producer"))
    | some remote => .ok (acceptedProducers endpoint consumer producers health remote)

def sortedAttachments (attachments : List (Option VPCAttachment)) : List VPCAttachment :=
  sortByName attachments.reduceOption

/-- The ready attachments that have an interface, by name: a later one replaces an earlier one. -/
def readyMap (attachments : List (Option VPCAttachment)) : NamespacedName → Bool :=
  (readyAttachments attachments).foldl (fun m a => Function.update m a.key (decide (a.status.hostInterface ≠ "")))
    fun _ => false

/-- The state of the loop of `ProgrammingPlanAt`. -/
structure PlanState where
  relevant : List NamespacedName
  nodes : List String
  selected : Nat
  placed : Nat

structure PlanInput where
  policy : ServiceRoutePolicy
  endpoint : ServiceEndpoint
  identity : String
  selects : LabelSet → Bool
  producers : List VPCAttachment
  health : Health
  ready : NamespacedName → Bool

def PlanInput.selectsConsumer (i : PlanInput) (a : VPCAttachment) : Bool :=
  i.selects a.labels ∧ consumerMatchesVPC i.policy a i.identity

/-- The body of the loop of `ProgrammingPlanAt`. -/
def planStep (i : PlanInput) (st : PlanState) (a : VPCAttachment) : Except PlanError PlanState :=
  if !i.selectsConsumer a then .ok st
  else
    let placed := if a.deletionTimestamp.isNone ∧ a.status.node ≠ "" then st.placed + 1 else st.placed
    let st := { st with relevant := a.key :: st.relevant, placed := placed }
    if a.deletionTimestamp.isSome ∨ !i.ready a.key then .ok st
    else do
      let serving ← servingProducers i.endpoint a i.producers i.health
      if i.policy.spec.frontend.isSome ∧ serving.any (fun p => a.uid = "" ∨ p.uid = "") then
        throw (.invalid "translated programming requires current attachment UIDs")
      return { st with
        selected := st.selected + 1
        nodes := a.status.node :: serving.map (·.status.node) ++ st.nodes }

def AttachmentSnapshot.of (a : VPCAttachment) : AttachmentSnapshot :=
  ⟨a.ns, a.name, a.uid, a.generation, a.labels, a.deletionTimestamp.isSome, a.spec, a.status⟩

def hexDigit (n : Nat) : Char := "0123456789abcdef".toList.getD n '0'

def hexEncode (bytes : List UInt8) : String :=
  String.ofList (bytes.flatMap fun b => [hexDigit (b.toNat / 16), hexDigit (b.toNat % 16)])

section
variable (ext : External)

def programmingDigest (policy : ServiceRoutePolicy) (endpoint : ServiceEndpoint) (identity : String)
    (sorted : List VPCAttachment) (relevant : List NamespacedName) : Except PlanError String :=
  match ext.marshal ⟨policy.uid, policy.generation, policy.spec, endpoint.uid, endpoint.generation, endpoint.spec,
    identity, (sorted.filter fun a => a.key ∈ relevant).map AttachmentSnapshot.of⟩ with
  | .error e => .error (.invalid ("encode service programming snapshot: " ++ e))
  | .ok encoded => .ok (hexEncode (Sha256.sum256 encoded).toList)

/-- The part of `ProgrammingPlanAt` before its loop. -/
def planInput (policy : ServiceRoutePolicy) (endpoint : ServiceEndpoint) (attachments : List (Option VPCAttachment))
    (identity : String) (now : Time) : Except PlanError PlanInput := do
  if policy.spec.frontend.isSome ∧ (policy.uid = "" ∨ endpoint.uid = "" ∨ identity = "") then
    throw (.invalid "translated programming requires current policy, endpoint, and VPC identities")
  let selects ← (ext.labelSelectorAsSelector policy.spec.attachmentSelector).mapError PlanError.invalid
  let producers ← producerCandidates ext endpoint attachments
  validateProducerTopology endpoint producers
  return ⟨policy, endpoint, identity, selects, producers, producersHealth endpoint producers now,
    readyMap attachments⟩

def programmingPlanAt (policy : Option ServiceRoutePolicy) (endpoint : Option ServiceEndpoint)
    (attachments : List (Option VPCAttachment)) (identity : String) (now : Time) :
    Except PlanError ProgrammingRequirements :=
  match policy, endpoint with
  | some policy, some endpoint => do
    let i ← planInput ext policy endpoint attachments identity now
    let st ← (sortedAttachments attachments).foldlM (planStep i) ⟨i.producers.map VPCAttachment.key, [], 0, 0⟩
    if st.selected = 0 ∧ st.placed = 0 then .error .noEligibleConsumers
    else if st.selected = 0 then .error .consumersNotReady
    else
      let digest ← programmingDigest ext policy endpoint identity (sortedAttachments attachments) st.relevant
      return ⟨digest, st.nodes.dedup.insertionSort (· ≤ ·)⟩
  | _, _ => .error (.invalid "policy and endpoint are required")

end

end Galactic.ServicePlan
