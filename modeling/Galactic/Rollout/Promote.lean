import Galactic.Net.Parse

/-!
# Deployments and promotions, `internal/fabric/routing/rollout/promote.go`

A deployment's spec says which revision a node runs and at which epoch; its status is what the node agent reports. A
promotion raises the epoch. A deployment is busy while its present epoch is neither committed nor over. Times are
nanoseconds and UIDs are numbers; the texts of conditions are left out where no function reads them. The API's types
have the source's names without `Fabric`, `Router` and `Authorization`. -/

namespace Galactic.Rollout

open Net

/-! ### Objects -/

inductive ConfigSource
  | configMap
  | shadow
  | crd
deriving DecidableEq, Repr

inductive Stage
  | accepted
  | applied
  | applyFailed
  | committed
  | recovered
  | degraded
deriving DecidableEq, Repr

inductive ConditionStatus
  | isTrue
  | isFalse
  | unknown
deriving DecidableEq, Repr

structure Condition where
  kind : String
  status : ConditionStatus
  reason : String
  observedGeneration : Int
deriving DecidableEq, Repr

structure Recovery where
  targetRevision : Option String
  targetDependencyDigest : String
  revokedPrefixes : List String
  revokedCredentials : List (String × Nat)
  retired : Bool
deriving DecidableEq, Repr

structure Settings where
  stabilizationSeconds : Int
  applyTimeoutSeconds : Int
  offlineBootSeconds : Int
  requiredPeers : List String
  requiredStaticRoutes : List String
deriving DecidableEq, Repr

structure DeploymentSpec where
  router : String
  nodeName : String
  source : ConfigSource
  suspended : Bool
  activeRevision : Option String
  activationEpoch : Int
  activationDependencyDigest : String
  authorization : Option (String × Nat)
  activation : Option Settings
  recovery : Option Recovery
deriving DecidableEq, Repr

/-- `FabricRouterDeploymentStatus`; an unset source is none. -/
structure DeploymentStatus where
  effectiveSource : Option ConfigSource
  appliedEpoch : Int
  appliedRevision : String
  appliedDigest : String
  epochs : List (Int × Stage)
  heartbeatTime : Option Int
  conditions : List Condition
deriving DecidableEq, Repr

structure Deployment where
  ns : String
  name : String
  uid : Nat
  generation : Int
  spec : DeploymentSpec
  status : DeploymentStatus
deriving DecidableEq, Repr

structure Peer where
  name : String
  address : String
  authSecret : Option String
deriving DecidableEq, Repr

structure Advertisement where
  prefixes : List String
  aggregation : Option String
deriving DecidableEq, Repr

/-- `FabricRouterRevision`: the router it was compiled for, its digest and what of its configuration is read. -/
structure Revision where
  ns : String
  name : String
  router : String
  activationDependencyDigest : String
  peers : List Peer
  advertisements : List Advertisement
  staticRoutes : List String
deriving DecidableEq, Repr

structure PolicySpec where
  maxUnavailable : Int
  failureDomainLabel : String
  stabilizationSeconds : Int
  applyTimeoutSeconds : Int
  heartbeatTimeoutSeconds : Int
  offlineBootSeconds : Int
  optionalPeers : List String
  maintenancePeers : List String
deriving DecidableEq, Repr

inductive ReleaseType
  | release
  | emergencyWithdrawal
deriving DecidableEq, Repr

structure Target where
  deployment : String
  deploymentUID : Nat
  revision : String
  activationDependencyDigest : String
  retire : Bool
  reactivate : Bool
deriving DecidableEq, Repr

structure ReleaseSpec where
  type : ReleaseType
  routingDomain : String
  fleetReleaseID : String
  fleetSequence : Int
  deployments : List Target
  withdrawnPrefixes : List String
  startDeadline : Option Int
deriving DecidableEq, Repr

/-! ### Policies -/

def defaultMaxUnavailable : Int := 1
def defaultFailureDomainLabel : String := "topology.kubernetes.io/zone"
def defaultStabilization : Int := 60
def defaultApplyTimeout : Int := 60
def minHeartbeatTimeout : Int := 60
def defaultOfflineBoot : Int := 604800

def PolicySpec.zero : PolicySpec := ⟨0, "", 0, 0, 0, 0, [], []⟩

def positiveOr (default n : Int) : Int := if n ≤ 0 then default else n

def effectivePolicy (p : Option PolicySpec) : PolicySpec :=
  let spec := p.getD PolicySpec.zero
  { spec with
    maxUnavailable := positiveOr defaultMaxUnavailable spec.maxUnavailable
    failureDomainLabel := if spec.failureDomainLabel = "" then defaultFailureDomainLabel else spec.failureDomainLabel
    stabilizationSeconds := positiveOr defaultStabilization spec.stabilizationSeconds
    applyTimeoutSeconds := positiveOr defaultApplyTimeout spec.applyTimeoutSeconds
    heartbeatTimeoutSeconds :=
      if spec.heartbeatTimeoutSeconds < minHeartbeatTimeout then minHeartbeatTimeout else spec.heartbeatTimeoutSeconds
    offlineBootSeconds := positiveOr defaultOfflineBoot spec.offlineBootSeconds }

/-- Appends what is not there yet. -/
def addNew (out : List String) (s : String) : List String := if s ∈ out then out else out ++ [s]

def activationSettings (policy : PolicySpec) (rev : Revision) : Settings where
  stabilizationSeconds := policy.stabilizationSeconds
  applyTimeoutSeconds := policy.applyTimeoutSeconds
  offlineBootSeconds := policy.offlineBootSeconds
  requiredPeers :=
    ((rev.peers.filterMap fun p =>
      if p.name ∈ policy.optionalPeers ++ policy.maintenancePeers then none
      else (parseAddr p.address.toList).map Addr.string).foldl addNew []).mergeSort
  requiredStaticRoutes :=
    ((rev.staticRoutes.filterMap fun r => (parsePrefix r.toList).map fun p =>
      p.masked.string).foldl addNew []).mergeSort

/-! ### Promotions -/

def committed (d : Deployment) : Bool :=
  match d.spec.activeRevision with
  | none => false
  | some name =>
    d.status.appliedEpoch = d.spec.activationEpoch ∧ d.status.appliedRevision = name ∧
      d.status.appliedDigest = d.spec.activationDependencyDigest

def Recovery.zero : Recovery := ⟨none, "", [], [], false⟩

def Deployment.ownRecovery (d : Deployment) : Recovery :=
  let recovery := d.spec.recovery.getD Recovery.zero
  if committed d then
    { recovery with targetRevision := d.spec.activeRevision, targetDependencyDigest :=
      d.spec.activationDependencyDigest }
  else recovery

/-- The recovery of a promotion to `rev`. -/
def promoteRecovery (d : Deployment) (rev : Revision) (auth : ReleaseSpec) (target : Target) : Recovery :=
  let recovery := d.ownRecovery
  let recovery :=
    if target.reactivate ∨ recovery.targetRevision = some rev.name then
      { recovery with targetRevision := none, targetDependencyDigest := "" }
    else recovery
  let recovery :=
    if auth.type = .emergencyWithdrawal then
      { recovery with revokedPrefixes := auth.withdrawnPrefixes.foldl addNew recovery.revokedPrefixes }
    else recovery
  { recovery with retired := recovery.retired || target.retire }

/-- `promote`; `authName` and `authUID` name the release. -/
def promote (d : Deployment) (rev : Revision) (auth : ReleaseSpec) (authName : String) (authUID : Nat) (target : Target)
    (settings : Settings) : DeploymentSpec :=
  { d.spec with
    activationEpoch := d.spec.activationEpoch + 1
    activeRevision := some rev.name
    activationDependencyDigest := rev.activationDependencyDigest
    authorization := some (authName, authUID)
    activation := some settings
    recovery := some (promoteRecovery d rev auth target) }

def degradedFinal (d : Deployment) : Bool :=
  d.status.conditions.any fun c =>
    c.kind = "Degraded" ∧ c.status = .isTrue ∧ c.reason = "NoEligibleRecovery" ∧ c.observedGeneration = d.generation

def handedBack (d : Deployment) : Bool :=
  d.spec.source ≠ .crd ∧ d.status.effectiveSource ≠ none ∧ d.status.effectiveSource ≠ some .crd

def refused (d : Deployment) : Bool :=
  if d.status.epochs.any fun e => e.1 = d.spec.activationEpoch then false
  else
    (d.status.conditions.find? fun c => c.kind = "Accepted").any fun c =>
      c.status = .isFalse ∧ c.reason = "PromotionRefused" ∧ c.observedGeneration = d.generation

def stageBusy (d : Deployment) : Stage → Option Bool
  | .recovered => some false
  | .degraded => some false
  | .applyFailed => some (!degradedFinal d)
  | _ => none

def busy (d : Deployment) : Bool :=
  if d.spec.activationEpoch = 0 ∨ committed d ∨ refused d ∨ handedBack d then false
  else
    (d.status.epochs.findSome? fun e => if e.1 = d.spec.activationEpoch then stageBusy d e.2 else none).getD true

def runs (d : Deployment) (target : Target) : Bool :=
  committed d ∧ d.spec.activeRevision = some target.revision ∧
    d.spec.activationDependencyDigest = target.activationDependencyDigest

def originated (rev : Revision) : List String :=
  rev.advertisements.flatMap fun adv => adv.prefixes ++ adv.aggregation.toList

def coveredBy (covers : List Prefix) (o : String) : Bool :=
  match parsePrefix o.toList with
  | none => true
  | some p => covers.any fun c => (c.bits?.getD 0 ≤ p.bits?.getD 0) ∧ c.contains p.addr

/-- `revokedOrigination`; the empty text says there is none. -/
def revokedOrigination (revoked : List String) (rev : Revision) : Option String :=
  let covers := revoked.filterMap fun r => (parsePrefix r.toList).map Prefix.masked
  if covers = [] then none else ((originated rev).find? (coveredBy covers)).filter (· ≠ "")

def credentialNames (rev : Revision) : List String := (rev.peers.filterMap Peer.authSecret).foldl addNew []

inductive CredentialProblem
  | unresolved (name : String)
  | revoked (name : String) (uid : Nat)
deriving DecidableEq, Repr

/-- `credentialProblem`; `credentials` gives the Secrets' current UIDs. -/
def credentialProblem (revoked : List (String × Nat)) (rev : Revision) (credentials : String → Option Nat) :
    Option CredentialProblem :=
  (credentialNames rev).findSome? fun n =>
    match credentials n with
    | none => some (.unresolved n)
    | some uid => if revoked.any fun r => r.2 = uid then some (.revoked n uid) else none

/-! ### Targets -/

inductive TargetState
  | waiting
  | activating
  | committed
  | failed
  | silent
  | blocked
  | superseded
deriving DecidableEq, Repr

def stageState (d : Deployment) : Stage → Option TargetState
  | .committed => if committed d then some .committed else none
  | .applyFailed => some .failed
  | .recovered => some .failed
  | .degraded => some .failed
  | _ => none

def stateOf (d : Deployment) (authUID : Nat) (target : Target) (heartbeat now : Int) : TargetState :=
  if d.spec.authorization.map Prod.snd ≠ some authUID ∨ d.spec.activeRevision ≠ some target.revision then
    if runs d target ∧ target.reactivate = false then .committed
    else if busy d then .blocked
    else .waiting
  else
    match d.status.epochs.findSome? fun e => if e.1 = d.spec.activationEpoch then stageState d e.2 else none with
    | some s => s
    | none =>
      if refused d then .failed
      else
        match d.status.heartbeatTime with
        | none => .silent
        | some hb => if heartbeat < now - hb then .silent else .activating

def recovered (d : Deployment) : Bool :=
  match d.spec.recovery with
  | none => false
  | some r =>
    match r.targetRevision with
    | none => false
    | some name =>
      if d.status.epochs.any fun e => e.1 = d.spec.activationEpoch ∧
        e.2 = .recovered then d.status.appliedRevision = name
      else false

end Galactic.Rollout
