import Galactic.Rollout.Promote

/-!
# Releases, `internal/fabric/routing/rollout/release.go`

`Cluster` is what the API server holds. `reconcile` is one call of `ReleaseReconciler.Reconcile` with reads that see
every earlier write: it starts a pending release once nothing blocks it, promotes the targets of a started one within
their policies' limits, and watches a failed one recover. `Pass` keeps the promotions a call makes, each with the
cluster just before it. -/

namespace Galactic.Rollout

open Net

/-- `FabricReleasePhase`; a release without a phase has none. -/
inductive Phase
  | pending
  | started
  | completed
  | failed
  | cancelled
  | unknown
deriving DecidableEq, Repr

/-- What the `Progressing` condition says: the reason and the data of its message. -/
inductive Note
  | deadlinePassed (deadline : Int)
  | superseded (release : String) (sequence : Int)
  | waitingForRelease (release : String)
  | invalidTarget
  | started
  | targetFailed (targets : List String)
  | allCommitted (committed : Nat) (superseded : List String)
  | targetSilent (targets : List String)
  | deleting (committed total : Nat)
  | promoting (committed total : Nat)
  | recoveryConfirmed (operator : String) (pending : List String)
  | recoveryPending (pending : List String)
  | recoveryVerified
deriving DecidableEq, Repr

structure Progressing where
  status : ConditionStatus
  note : Note
  observedGeneration : Int
deriving DecidableEq, Repr

structure ReleaseStatus where
  phase : Option Phase
  startedAt : Option Int
  finishedAt : Option Int
  recoveryVerified : Bool
  progressing : Option Progressing
deriving DecidableEq, Repr

/-- `FabricReleaseAuthorization`, with its finalizer and the operator's annotation. -/
structure Release where
  ns : String
  name : String
  uid : Nat
  generation : Int
  deleting : Bool
  finalizer : Bool
  recoveryVerifiedBy : String
  spec : ReleaseSpec
  status : ReleaseStatus
deriving DecidableEq, Repr

/-- A BGPRouter's rollout policy reference. -/
structure Router where
  ns : String
  name : String
  policy : Option String
deriving DecidableEq, Repr

structure Policy where
  ns : String
  name : String
  spec : PolicySpec
deriving DecidableEq, Repr

structure Node where
  name : String
  labels : List (String × String)
deriving DecidableEq, Repr

structure Secret where
  ns : String
  name : String
  uid : Nat
deriving DecidableEq, Repr

def Deployment.key (d : Deployment) : String × String := (d.ns, d.name)

/-- What the API server holds, and the namespaces whose Secrets the controller may not read. Names are unique in a
namespace, and no UID is used twice. -/
structure Cluster where
  releases : List Release
  deployments : List Deployment
  revisions : List Revision
  routers : List Router
  policies : List Policy
  nodes : List Node
  secrets : List Secret
  secretsDenied : List String
  releases_once : (releases.map Release.uid).Nodup
  deployments_once : (deployments.map Deployment.key).Nodup

def ReleaseStatus.outstanding (s : ReleaseStatus) : Bool :=
  match s.phase with
  | some .completed => false
  | some .cancelled => false
  | some .failed => !s.recoveryVerified
  | _ => true

def ReleaseStatus.started (s : ReleaseStatus) : Bool :=
  s.phase ≠ none ∧ s.phase ≠ some .pending ∧ s.phase ≠ some .cancelled

namespace Cluster

variable (c : Cluster)

def deployment (ns name : String) : Option Deployment := c.deployments.find? fun d => d.ns = ns ∧ d.name = name

def revision (ns name : String) : Option Revision := c.revisions.find? fun r => r.ns = ns ∧ r.name = name

def release (ns name : String) : Option Release := c.releases.find? fun r => r.ns = ns ∧ r.name = name

def policy (dep : Deployment) : PolicySpec :=
  match c.routers.find? fun r => r.ns = dep.ns ∧ r.name = dep.spec.router with
  | none => effectivePolicy none
  | some r =>
    match r.policy with
    | none => effectivePolicy none
    | some name => effectivePolicy ((c.policies.find? fun p => p.ns = dep.ns ∧ p.name = name).map Policy.spec)

/-- A failure domain: the value of a label, or a Node of its own. The source spells it `label=value` or `node/name`. -/
inductive Domain
  | label (label value : String)
  | node (name : String)
deriving DecidableEq, Repr

def domain (dep : Deployment) (label : String) : Domain :=
  match c.nodes.find? fun n => n.name = dep.spec.nodeName with
  | none => .node dep.spec.nodeName
  | some n =>
    match n.labels.find? fun l => l.1 = label with
    | none => .node dep.spec.nodeName
    | some l => .label label l.2

/-- `Credentials`: the UIDs of the Secrets, or the first one the controller may not read. -/
def credentials (ns : String) (rev : Revision) : Except String (String → Option Nat) :=
  match credentialNames rev with
  | [] => .ok fun _ => none
  | n :: _ =>
    if ns ∈ c.secretsDenied then .error n
    else .ok fun name => (c.secrets.find? fun s => s.ns = ns ∧ s.name = name).map Secret.uid

end Cluster

inductive TargetError
  | noDeployment (name : String)
  | noRevision (name : String)
  | credentialAccess (deployment secret : String)
  | otherUID (deployment : String) (got want : Nat)
  | otherSource (deployment : String) (source : ConfigSource)
  | suspended (deployment : String)
  | retired (deployment : String)
  | otherDigest (revision got want : String)
  | otherRouter (revision got want : String)
  | notRunning (deployment revision : String)
  | originatesWithdrawn (deployment revision pfx : String)
  | originatesRevoked (revision pfx deployment : String)
  | credential (revision : String) (problem : CredentialProblem) (deployment : String)
deriving DecidableEq, Repr

/-- The part of `CheckTarget` about what is revoked on the deployment. -/
def checkRevoked (dep : Deployment) (rev : Revision) (credentials : String → Option Nat) : Option TargetError :=
  match dep.spec.recovery.bind fun r => revokedOrigination r.revokedPrefixes rev with
  | some p => some (.originatesRevoked rev.name p dep.name)
  | none =>
    (credentialProblem ((dep.spec.recovery.map Recovery.revokedCredentials).getD []) rev credentials).map
      (.credential rev.name · dep.name)

def checkTarget (dep : Deployment) (rev : Revision) (t : Target) (credentials : String → Option Nat)
    (withdrawn : List String) : Option TargetError :=
  if dep.uid ≠ t.deploymentUID then some (.otherUID dep.name dep.uid t.deploymentUID)
  else if dep.spec.source ≠ .crd then some (.otherSource dep.name dep.spec.source)
  else if dep.spec.suspended then some (.suspended dep.name)
  else if (dep.spec.recovery.map Recovery.retired).getD false then some (.retired dep.name)
  else if rev.activationDependencyDigest ≠ t.activationDependencyDigest then
    some (.otherDigest rev.name rev.activationDependencyDigest t.activationDependencyDigest)
  else if rev.router ≠ dep.spec.router then some (.otherRouter rev.name rev.router dep.spec.router)
  else if t.reactivate ∧ runs dep t = false then some (.notRunning dep.name t.revision)
  else
    match revokedOrigination withdrawn rev with
    | some p => some (.originatesWithdrawn dep.name rev.name p)
    | none => checkRevoked dep rev credentials

def Cluster.target (c : Cluster) (auth : Release) (t : Target) : Except TargetError (Deployment × Revision) :=
  match c.deployment auth.ns t.deployment with
  | none => .error (.noDeployment t.deployment)
  | some dep =>
    match c.revision auth.ns t.revision with
    | none => .error (.noRevision t.revision)
    | some rev =>
      match c.credentials auth.ns rev with
      | .error secret => .error (.credentialAccess dep.name secret)
      | .ok credentials =>
        match checkTarget dep rev t credentials auth.spec.withdrawnPrefixes with
        | some e => .error e
        | none => .ok (dep, rev)

def Cluster.restorable (c : Cluster) (ns : String) (rec : Recovery) (name : String) : Bool :=
  match c.revision ns name with
  | none => false
  | some rev =>
    match c.credentials ns rev with
    | .error _ => false
    | .ok credentials =>
      rev.activationDependencyDigest = rec.targetDependencyDigest ∧ revokedOrigination rec.revokedPrefixes rev = none ∧
        credentialProblem rec.revokedCredentials rev credentials = none

def Cluster.eligibleRecovery (c : Cluster) (ns : String) (spec : DeploymentSpec) : DeploymentSpec :=
  match spec.recovery with
  | none => spec
  | some rec =>
    match rec.targetRevision with
    | none => spec
    | some name =>
      if c.restorable ns rec name then spec
      else { spec with recovery := some { rec with targetRevision := none, targetDependencyDigest := "" } }

/-! ### Starting -/

/-- `condition`. -/
def Release.note (auth : Release) (status : ConditionStatus) (note : Note) (s : ReleaseStatus) : ReleaseStatus :=
  { s with progressing := some ⟨status, note, auth.generation⟩ }

def Release.finish (auth : Release) (now : Int) (phase : Phase) (note : Note) : ReleaseStatus :=
  auth.note .isFalse note
    { auth.status with
      phase := some phase
      finishedAt := if phase = .cancelled then auth.status.finishedAt else some now }

/-- What another release says about starting `auth`: nothing, that it is superseded, or that it waits. -/
inductive Verdict
  | superseded (o : Release)
  | blocked (o : Release)

/-- One turn of the loop of `tryStart` over the other releases. -/
def Release.verdict (auth o : Release) : Option Verdict :=
  if o.uid = auth.uid ∨ o.spec.routingDomain ≠ auth.spec.routingDomain then none
  else if o.status.started ∧ auth.spec.fleetSequence ≤ o.spec.fleetSequence ∧ auth.spec.type = .release then
    some (.superseded o)
  else if o.status.outstanding ∧ auth.spec.type = .release ∧
      (o.status.started ∨ o.spec.fleetSequence < auth.spec.fleetSequence) then
    some (.blocked o)
  else none

def Release.late (auth : Release) (now : Int) : Option Int := auth.spec.startDeadline.filter (· < now)

def Cluster.tryStart (c : Cluster) (auth : Release) (now : Int) : ReleaseStatus :=
  match auth.late now with
  | some d => auth.finish now .cancelled (.deadlinePassed d)
  | none =>
    match (c.releases.filter (·.ns = auth.ns)).findSome? auth.verdict with
    | some (.superseded o) => auth.finish now .cancelled (.superseded o.name o.spec.fleetSequence)
    | some (.blocked o) => auth.note .isFalse (.waitingForRelease o.name) { auth.status with phase := some .pending }
    | none =>
      if auth.spec.deployments.any fun t => (c.target auth t).toOption.isNone then
        auth.finish now .cancelled .invalidTarget
      else auth.note .isTrue .started { auth.status with phase := some .started, startedAt := some now }

/-! ### Promoting -/

structure Entry where
  target : Target
  policy : PolicySpec
  domain : Cluster.Domain
  state : TargetState
deriving DecidableEq, Repr

structure Survey where
  entries : List Entry
  failed : List String
  silent : List String
  superseded : List String
  committed : Nat

/-- The other release is later than `auth`. -/
def Release.laterThan (other auth : Release) : Bool :=
  decide (auth.spec.fleetSequence < other.spec.fleetSequence) ||
    match other.status.startedAt, auth.status.startedAt with
    | some a, some b => decide (b < a)
    | _, _ => false

def Cluster.supersededBy (c : Cluster) (auth : Release) (dep : Deployment) : Option String :=
  match dep.spec.authorization with
  | none => none
  | some (name, uid) =>
    if uid = auth.uid then none
    else
      match c.release auth.ns name with
      | none => none
      | some other => if other.uid = uid ∧ other.laterThan auth then some other.name else none

def Cluster.targetState (c : Cluster) (auth : Release) (t : Target) (dep : Deployment) (now : Int) :
    TargetState × Option String :=
  let state := stateOf dep auth.uid t ((c.policy dep).heartbeatTimeoutSeconds * 1000000000) now
  match if state = .waiting ∨ state = .blocked then c.supersededBy auth dep else none with
  | some later => (.superseded, some later)
  | none => (state, none)

def Cluster.entryOf (c : Cluster) (auth : Release) (t : Target) (dep : Deployment) (now : Int) : Entry :=
  ⟨t, c.policy dep, c.domain dep (c.policy dep).failureDomainLabel, (c.targetState auth t dep now).1⟩

/-- One turn of `survey`. -/
def Cluster.surveyTarget (c : Cluster) (auth : Release) (now : Int) (sum : Survey) (t : Target) : Survey :=
  match c.deployment auth.ns t.deployment with
  | none => { sum with failed := sum.failed ++ [t.deployment ++ ": deployment deleted"] }
  | some dep =>
    let s := c.targetState auth t dep now
    { entries := sum.entries ++ [c.entryOf auth t dep now]
      failed := if s.1 = .failed then sum.failed ++ [t.deployment] else sum.failed
      silent := if s.1 = .silent then sum.silent ++ [t.deployment] else sum.silent
      superseded := sum.superseded ++ s.2.toList.map (t.deployment ++ " by " ++ ·)
      committed := if s.1 = .committed then sum.committed + 1 else sum.committed }

def Cluster.survey (c : Cluster) (auth : Release) (now : Int) : Survey :=
  auth.spec.deployments.foldl (c.surveyTarget auth now) ⟨[], [], [], [], 0⟩

def entryLabels (entries : List Entry) : List String := (entries.map (·.policy.failureDomainLabel)).dedup

/-- `inFlight`: how many busy deployments each failure domain has, a deployment counted once for each label. -/
def Cluster.inFlight (c : Cluster) (ns : String) (entries : List Entry) (d : Cluster.Domain) : Int :=
  (((c.deployments.filter fun dep => dep.ns = ns ∧ busy dep).map fun dep =>
    (entryLabels entries).countP fun label => c.domain dep label = d).sum : Nat)

structure Promotion where
  before : Cluster
  entry : Entry
  deployment : Deployment
  after : Deployment

def Deployment.withSpec (dep : Deployment) (spec : DeploymentSpec) : Deployment :=
  { dep with spec := spec, generation := dep.generation + 1 }

theorem map_replace {α β : Type} {p : α → Prop} [DecidablePred p] {f : α → α} {g : α → β} {l : List α}
    (hg : ∀ a ∈ l, p a → g (f a) = g a) : (l.map fun a => if p a then f a else a).map g = l.map g := by
  rw [List.map_map]
  refine List.map_congr_left fun a ha => ?_
  by_cases hp : p a
  · simp [hp, hg a ha hp]
  · simp [hp]

def Cluster.updateSpec (c : Cluster) (dep : Deployment) (spec : DeploymentSpec) : Cluster :=
  { c with
    deployments := c.deployments.map fun d => if d.key = dep.key then dep.withSpec spec else d
    deployments_once := by rw [map_replace fun _ _ h => h.symm]; exact c.deployments_once }

def Cluster.promotedSpec (c : Cluster) (auth : Release) (e : Entry) (dep : Deployment) (rev : Revision) :
    DeploymentSpec :=
  c.eligibleRecovery dep.ns
    (promote dep rev auth.spec auth.name auth.uid e.target (activationSettings e.policy rev))

/-- The cluster after the promotion of `dep` to `rev`. -/
def Cluster.promoted (c : Cluster) (auth : Release) (e : Entry) (dep : Deployment) (rev : Revision) : Cluster :=
  c.updateSpec dep (c.promotedSpec auth e dep rev)

/-- What a pass over the targets leaves: the cluster, the promotions it made and whether a target failed the release. -/
structure Pass where
  cluster : Cluster
  made : List Promotion
  done : Bool

/-- The loop of `promoteWaiting`. -/
def promoteLoop (auth : Release) : List Entry → (Cluster.Domain → Int) → Cluster → Pass
  | [], _, c => ⟨c, [], false⟩
  | e :: rest, inFlight, c =>
    if e.state ≠ .waiting ∨ e.policy.maxUnavailable ≤ inFlight e.domain then promoteLoop auth rest inFlight c
    else
      match c.target auth e.target with
      | .error _ => ⟨c, [], true⟩
      | .ok (dep, rev) =>
        if busy dep then promoteLoop auth rest inFlight c
        else
          let r := promoteLoop auth rest (Function.update inFlight e.domain (inFlight e.domain + 1))
            (c.promoted auth e dep rev)
          { r with made := ⟨c, e, dep, dep.withSpec (c.promotedSpec auth e dep rev)⟩ :: r.made }

def Cluster.promoteWaiting (c : Cluster) (auth : Release) (entries : List Entry) : Pass :=
  promoteLoop auth entries (c.inFlight auth.ns entries) c

/-- `progress`: the pass and the release's new status. -/
def Cluster.progress (c : Cluster) (auth : Release) (now : Int) : Pass × ReleaseStatus :=
  let sum := c.survey auth now
  let total := auth.spec.deployments.length
  if sum.failed ≠ [] then (⟨c, [], false⟩, auth.finish now .failed (.targetFailed sum.failed))
  else if sum.committed + sum.superseded.length = total then
    (⟨c, [], false⟩, auth.finish now .completed (.allCommitted sum.committed sum.superseded))
  else if sum.silent ≠ [] then
    (⟨c, [], false⟩, auth.note .unknown (.targetSilent sum.silent) { auth.status with phase := some .unknown })
  else
    let status := { auth.status with phase := some .started }
    if auth.deleting then (⟨c, [], false⟩, auth.note .isFalse (.deleting sum.committed total) status)
    else
      let pass := c.promoteWaiting auth sum.entries
      if pass.done then (pass, auth.finish now .failed .invalidTarget)
      else (pass, auth.note .isTrue (.promoting sum.committed total) status)

/-! ### Recovering -/

def Cluster.pendingRecovery (c : Cluster) (auth : Release) (now : Int) (t : Target) : Option String :=
  match c.deployment auth.ns t.deployment with
  | none => none
  | some dep =>
    match stateOf dep auth.uid t ((c.policy dep).heartbeatTimeoutSeconds * 1000000000) now with
    | .activating => some (t.deployment ++ " activating")
    | .silent => some (t.deployment ++ " activating")
    | .failed => if recovered dep then none else some (t.deployment ++ " not recovered")
    | _ => none

def Cluster.verifyRecovery (c : Cluster) (auth : Release) (now : Int) : ReleaseStatus :=
  let pending := auth.spec.deployments.filterMap (c.pendingRecovery auth now)
  if auth.recoveryVerifiedBy ≠ "" ∧ pending ≠ [] then
    auth.note .isFalse (.recoveryConfirmed auth.recoveryVerifiedBy pending)
      { auth.status with recoveryVerified := true }
  else if pending ≠ [] then auth.note .isFalse (.recoveryPending pending) auth.status
  else auth.note .isFalse .recoveryVerified { auth.status with recoveryVerified := true }

/-! ### Reconciling -/

def Cluster.setRelease (c : Cluster) (auth : Release) (f : Release → Release) (hf : ∀ r, (f r).uid = r.uid) : Cluster :=
  { c with
    releases := c.releases.map fun r => if r.uid = auth.uid then f r else r
    releases_once := by rw [map_replace fun r _ _ => hf r]; exact c.releases_once }

/-- `dropFinalizer`; a release being deleted then goes. -/
def Cluster.dropFinalizer (c : Cluster) (auth : Release) : Cluster :=
  if auth.finalizer = false then c
  else if auth.deleting then
    { c with
      releases := c.releases.filter (·.uid ≠ auth.uid)
      releases_once := c.releases_once.sublist (List.filter_sublist.map _) }
  else c.setRelease auth ({ · with finalizer := false }) fun _ => rfl

def Cluster.advance (c : Cluster) (auth : Release) (now : Int) : Pass × ReleaseStatus :=
  match auth.status.phase with
  | none => (⟨c, [], false⟩, c.tryStart auth now)
  | some .pending => (⟨c, [], false⟩, c.tryStart auth now)
  | some .started => c.progress auth now
  | some .unknown => c.progress auth now
  | some .failed => (⟨c, [], false⟩, c.verifyRecovery auth now)
  | some _ => (⟨c, [], false⟩, auth.status)

/-- The release may go although it is outstanding: it has touched nothing. -/
def Release.untouched (auth : Release) : Bool := auth.status.phase = none ∨ auth.status.phase = some .pending

/-- `Reconcile`: the cluster and the promotions made. The last write, of the status, may fail. -/
def Cluster.reconcile (c : Cluster) (ns name : String) (now : Int) (writes : Bool) : Cluster × List Promotion :=
  match c.release ns name with
  | none => (c, [])
  | some auth =>
    if auth.status.outstanding = false ∨ (auth.deleting ∧ auth.untouched) then (c.dropFinalizer auth, [])
    else
      let c := c.setRelease auth ({ · with finalizer := true }) fun _ => rfl
      let r := c.advance auth now
      (if writes then r.1.cluster.setRelease auth ({ · with status := r.2 }) fun _ => rfl else r.1.cluster, r.1.made)

end Galactic.Rollout
