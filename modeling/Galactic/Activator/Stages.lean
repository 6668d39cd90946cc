import Galactic.Activator.Journal

/-!
# Activations, `internal/fabricconfig/activation/activator.go` and `files.go`

`Node` is what a state directory and the node's FRR hold: the identity, the journal, the checkpoint, the running
configuration. A call is a function of the node and of an `Env`, which gives every answer of the world the call may ask
for: what FRR says and does, which writes succeed, the clock, and at which of the fault points the process crashes. A
call that crashes ends there, and the process that opens the journal again goes on from the node it left. `Deed`s record
what a call did to FRR and what it observed, with the length of the journal then; no function reads them. -/

namespace Galactic.Activator

open Net

/-! ### Revisions -/

/-- A `BGPAdvertisement` of a revision; the API admits no empty prefix. -/
structure Advertisement where
  prefixes : List { s : String // s ≠ "" }
  aggregation : Option { s : String // s ≠ "" }
deriving DecidableEq

/-- `FabricRouterRevision`: the fields read here, and the rest of its spec as `content`. The Secret of a peer is none
when the peer does not authenticate. -/
structure Revision where
  name : String
  activationDependencyDigest : String
  advertisements : List Advertisement
  peerSecrets : List (Option String)
  content : String
deriving DecidableEq

def originations (rev : Revision) : List String :=
  rev.advertisements.flatMap fun adv => adv.prefixes.map Subtype.val ++ adv.aggregation.toList.map Subtype.val

def credentialNames (rev : Revision) : List String :=
  rev.peerSecrets.foldl (fun out ref => match ref with
    | none => out
    | some name => if name ∈ out then out else out ++ [name]) []

def covers (revoked : Prefix) (originated : String) : Bool :=
  match parsePrefix originated.toList with
  | none => false
  | some p => (revoked.bits?.getD 0 ≤ p.bits?.getD 0) ∧ revoked.contains p.addr

/-- `revokedOrigination`; the empty text says there is none. -/
def revokedOrigination (revokedPrefixes originated : List String) : String :=
  match revokedPrefixes.find? fun p => (parsePrefix p.toList).isNone with
  | some p => p
  | none =>
    let revoked := revokedPrefixes.filterMap fun p => (parsePrefix p.toList).map Prefix.masked
    if revoked = [] then ""
    else
      (originated.find? fun p => (parsePrefix p.toList).isNone || revoked.any (covers · p)).getD ""

def Recovery.prefixTexts (rec : Recovery) : List String := rec.revokedPrefixes.map Subtype.val

/-! ### Texts -/

/-- `frrtext.Config`: the contexts, each with its lines as often as they occur. -/
abbrev Config : Type := List (String × List String)

def Config.lines (c : Config) (ctx : String) : Option (List String) := (c.find? (·.1 = ctx)).map Prod.snd

/-- What one configuration has and another lacks, a loop of `Diff`. -/
def Config.lacks (sign : String) (want got : Config) : List String :=
  (want.map Prod.fst).mergeSort.flatMap fun ctx =>
    match got.lines ctx with
    | none => [sign ++ ctx]
    | some have_ =>
      let wanted := (want.lines ctx).getD []
      wanted.dedup.mergeSort.flatMap fun l =>
        List.replicate (wanted.count l - have_.count l) (sign ++ ctx ++ " :: " ++ l)

def Config.diff (want got : Config) : List String := Config.lacks "- " want got ++ Config.lacks "+ " got want

/-- What the binary brings: `revision.Verify`, which compiles a revision, `normalizeRunning`, and its versions. -/
structure Host where
  verify : Revision → Except String String
  normalize : String → Config
  semanticsVersion : String
  frrVersion : String

/-! ### Files -/

structure Identity where
  nodeUID : String
  machineID : String
  clusterID : String
  nonce : String
deriving DecidableEq, Repr

/-- `Checkpoint`, without its sums. -/
structure Checkpoint where
  activation : Activation
  config : String
  recovery : Recovery
  nonce : String
  originates : List String
  credentialUIDs : List String
  semanticsVersion : String
  frrVersion : String
  bootAuthorizedUntil : Int
  requiresAPI : Bool
deriving DecidableEq

/-! ### Requests and what a call meets -/

/-- The configuration of the activation's own revision, or of its recovery target. -/
inductive Which
  | own
  | target
deriving DecidableEq, Repr

/-- `Settings`; the apply timeout only bounds a reload. -/
structure Settings where
  stabilization : Int
  bootLifetime : Int
deriving DecidableEq, Repr

structure Request where
  activation : Activation
  revision : Option Revision
  settings : Settings
  recovery : Recovery
  recoveryRevision : Option Revision
  credentials : List (String × String)
  requiresAPI : Bool
deriving DecidableEq

def Request.credential (req : Request) (name : String) : Option String :=
  (req.credentials.find? (·.1 = name)).map Prod.snd

/-- What a reload says; it is cancelled when the agent shuts down meanwhile. -/
inductive Answer
  | ok
  | failed (detail : String)
  | cancelled
deriving DecidableEq, Repr

structure Reloaded where
  answer : Answer
  running : String
deriving DecidableEq, Repr

/-- A turn of the stabilization loop: what `Health` says, whether the agent is shutting down, and the clock. -/
structure Poll where
  health : Option String
  cancelled : Bool
  now : Int
deriving DecidableEq, Repr

/-- What a call did or saw. -/
inductive DeedKind
  | reload (which : Which)
  /-- The revision ran and was healthy through the window: what FRR ran, when the polls began, and the polls. -/
  | observed (running : String) (req : Request) (polled : Int) (polls : List Poll)
  | eligible (req : Request)
deriving DecidableEq

structure Deed where
  kind : DeedKind
  activation : Activation
  revision : Revision
  /-- How many records the journal had. -/
  mark : Nat
deriving DecidableEq

structure Node where
  identity : Option Identity
  journal : Journal
  checkpoint : Option Checkpoint
  running : String
  deeds : List Deed
deriving DecidableEq

def Node.did (n : Node) (kind : DeedKind) (act : Activation) (rev : Revision) : Node :=
  { n with deeds := n.deeds ++ [⟨kind, act, rev, n.journal.length⟩] }

inductive FaultPoint
  | afterAccepted
  | afterReload
  | afterApplied
  | afterCommitted
  | duringRecovery
  | afterRecovery
deriving DecidableEq, Repr

/-- Where the running configuration is asked for. -/
inductive RunSite
  | resumed
  | checkpoint
  | observed
deriving DecidableEq, Repr

inductive IdentitySite
  | admission
  | resume
  | checkpoint
deriving DecidableEq, Repr

structure Env where
  checks : Bool
  readsIdentity : IdentitySite → Bool
  readsCheckpoint : Bool
  renders : Which → Bool
  runs : RunSite → Bool
  reload : Which → Reloaded
  polled : Int
  polls : List Poll
  appends : RecordType → Bool
  times : RecordType → Int
  writes : Bool
  written : Int
  faults : FaultPoint → Bool

inductive Error
  | digestMismatch
  | identityMismatch
  | recoveryConflict
  | stale
  | failedEpoch
  | neverAccepted
  | cannotResume
  | render (text : String)
  | rejected
  | unreadable
  | cancelled
  | write
  | crash (point : FaultPoint)
deriving DecidableEq, Repr

def Error.text : Error → String
  | .render text => text
  | _ => "write"

inductive Outcome
  | committed
  | recovered
  | degraded
deriving DecidableEq, Repr

structure Result where
  outcome : Outcome
  detail : String
deriving DecidableEq, Repr

abbrev Out : Type := Node × Except Error Result

def Node.journaled (n : Node) (rec : Record) : Node := { n with journal := n.journal ++ [rec] }

/-- `Journal.Append`, and then the rest of the call. -/
def append (env : Env) (n : Node) (rec : Record) (rest : Node → Out) : Out :=
  if env.appends rec.type then rest (n.journaled (n.journal.stamp (env.times rec.type) rec))
  else (n, .error .write)

def fault (env : Env) (n : Node) (point : FaultPoint) (rest : Out) : Out :=
  if env.faults point then (n, .error (.crash point)) else rest

variable (host : Host) (env : Env)

def render (which : Which) (rev : Revision) : Except Error String :=
  match host.verify rev with
  | .error text => .error (.render text)
  | .ok config => if env.renders which then .ok config else .error .write

def readIdentity (n : Node) (site : IdentitySite) : Option Identity :=
  if env.readsIdentity site then n.identity else none

def checkIdentity (n : Node) (site : IdentitySite) (act : Activation) : Bool :=
  act.deploymentUID ≠ "" ∧ act.nodeUID ≠ "" ∧ act.clusterID ≠ "" ∧
    (readIdentity env n site).any fun id => act.nodeUID = id.nodeUID ∧ act.clusterID = id.clusterID

def readCheckpoint (n : Node) : Option Checkpoint := if env.readsCheckpoint then n.checkpoint else none

/-- `runningDiff`; none when FRR does not say what it runs. -/
def runningDiff (n : Node) (site : RunSite) (rendered : String) : Option (List String) :=
  if env.runs site then some ((host.normalize rendered).diff (host.normalize n.running)) else none

def runningIsCheckpoint (n : Node) : Bool :=
  (readCheckpoint env n).any fun cp => runningDiff host env n .checkpoint cp.config = some []

def reload (n : Node) (which : Which) (act : Activation) (rev : Revision) : Node :=
  { n.did (.reload which) act rev with running := (env.reload which).running }

/-- `checkRevision`: the revision the activation promotes. -/
def checkRevision (req : Request) : Except Error Revision :=
  match req.revision with
  | none => .error .digestMismatch
  | some rev =>
    if rev.activationDependencyDigest = req.activation.dependencyHash ∧ rev.name = req.activation.revision then .ok rev
    else .error .digestMismatch

/-! ### Recovering -/

/-- Why a recovery target may not be restored. -/
inductive Ineligible
  | retired
  | noTarget
  | otherRevision (have_ authorized : String)
  | otherDigest (rev digest authorized : String)
  | originatesRevoked (rev pfx : String)
  | unresolved (rev name : String)
  | revoked (rev name : String)
  | unverified (text : String)
deriving DecidableEq, Repr

def Ineligible.message : Ineligible → String
  | .retired => "no eligible recovery target: router retired"
  | .noTarget => "no eligible recovery target"
  | .otherRevision h a => "no eligible recovery target: have " ++ h ++ ", authorized " ++ a
  | .otherDigest r d a => "no eligible recovery target: " ++ r ++ " has digest " ++ d ++ ", authorized " ++ a
  | .originatesRevoked r p => "no eligible recovery target: " ++ r ++ " originates revoked " ++ p
  | .unresolved r n =>
    "no eligible recovery target: " ++ r ++ " uses credential " ++ n ++ ", which cannot be resolved"
  | .revoked r n => "no eligible recovery target: " ++ r ++ " uses revoked credential " ++ n
  | .unverified t => "no eligible recovery target: " ++ t

/-- The loop of `Eligible` over the credentials. -/
def credentialProblem (req : Request) (rev : Revision) : Option Ineligible :=
  (credentialNames rev).findSome? fun name =>
    match req.credential name with
    | none => some (.unresolved rev.name name)
    | some uid => if uid ∈ req.recovery.revokedCredentials then some (.revoked rev.name name) else none

/-- What `Eligible` checks of a target that is the authorized one. -/
def eligibleTarget (req : Request) (rev : Revision) : Except Ineligible Revision :=
  if revokedOrigination req.recovery.prefixTexts (originations rev) ≠ "" then
    .error (.originatesRevoked rev.name (revokedOrigination req.recovery.prefixTexts (originations rev)))
  else
    match credentialProblem req rev with
    | some problem => .error problem
    | none =>
      match host.verify rev with
      | .error text => .error (.unverified text)
      | .ok _ => .ok rev

/-- `Eligible`: the target that may be restored. -/
def eligible (req : Request) : Except Ineligible Revision :=
  if req.recovery.retired then .error .retired
  else
    match req.recoveryRevision with
    | none => .error .noTarget
    | some rev =>
      if req.recovery.targetRevision = "" then .error .noTarget
      else if rev.name ≠ req.recovery.targetRevision then .error (.otherRevision rev.name req.recovery.targetRevision)
      else if rev.activationDependencyDigest ≠ req.recovery.targetDigest then
        .error (.otherDigest rev.name rev.activationDependencyDigest req.recovery.targetDigest)
      else eligibleTarget host req rev

/-- The checkpoint of a revision running as `act`. -/
def checkpointOf (req : Request) (act : Activation) (rev : Revision) (rendered nonce : String) : Checkpoint where
  activation := act
  config := rendered
  recovery := req.recovery
  nonce := nonce
  originates := originations rev
  credentialUIDs := (credentialNames rev).map fun name => (req.credential name).getD ""
  semanticsVersion := host.semanticsVersion
  frrVersion := host.frrVersion
  bootAuthorizedUntil := env.written + req.settings.bootLifetime
  requiresAPI := req.requiresAPI || (credentialNames rev).any fun name => (req.credential name).isNone

def checkpoint (n : Node) (req : Request) (act : Activation) (rev : Revision) (rendered : String) (rest : Node → Out) :
    Out :=
  match readIdentity env n .checkpoint with
  | none => (n, .error .identityMismatch)
  | some id =>
    if env.writes then rest { n with checkpoint := some (checkpointOf host env req act rev rendered id.nonce) }
    else (n, .error .write)

def Request.restored (req : Request) (rev : Revision) : Activation :=
  { req.activation with revision := rev.name, dependencyHash := req.recovery.targetDigest }

/-- What `recover` does once the target is reloaded. -/
def finishRecovery (n : Node) (req : Request) (rev : Revision) (rendered detail : String) : Out :=
  checkpoint host env n req (req.restored rev) rev rendered fun n =>
    fault env n .afterRecovery <|
      append env n ((Record.of .recovered req.activation).explained ("restored " ++ rev.name)) fun n =>
        (n, .ok ⟨.recovered, detail⟩)

/-- What `recover` does with an eligible target. -/
def restore (n : Node) (req : Request) (rev : Revision) (detail : String) : Out :=
  match render host env .target rev with
  | .error e => (n, .ok ⟨.degraded, detail ++ "; recovery target: " ++ e.text⟩)
  | .ok rendered =>
    match (env.reload .target).answer with
    | .cancelled => (reload env n .target req.activation rev, .error .cancelled)
    | .failed text =>
      (reload env n .target req.activation rev, .ok ⟨.degraded, detail ++ "; recovery reload: " ++ text⟩)
    | .ok => finishRecovery host env (reload env n .target req.activation rev) req rev rendered detail

def recover (n : Node) (req : Request) (detail : String) : Out :=
  match eligible host req with
  | .error e => (n, .ok ⟨.degraded, detail ++ "; " ++ e.message⟩)
  | .ok rev =>
    fault env (n.did (.eligible req) req.activation rev) .duringRecovery
      (restore host env (n.did (.eligible req) req.activation rev) req rev detail)

/-- `fail`, which journals the failure with a text and recovers with another. -/
def failWith (n : Node) (req : Request) (journaled detail : String) : Out :=
  append env n ((Record.of .applyFailed req.activation).explained journaled) fun n => recover host env n req detail

def fail (n : Node) (req : Request) (detail : String) : Out := failWith host env n req detail detail

/-! ### Applying -/

/-- How the stabilization loop ends. -/
inductive Stabilized
  | healthy
  | unhealthy (text : String)
  | stopped
deriving DecidableEq, Repr

/-- The stabilization loop of `observeAndCommit`; it has stopped when the process ends in the middle of it. -/
def stabilize (deadline : Int) : List Poll → Stabilized
  | [] => .stopped
  | p :: ps =>
    match p.health with
    | some text => if p.cancelled then .stopped else .unhealthy text
    | none => if deadline ≤ p.now then .healthy else if p.cancelled then .stopped else stabilize deadline ps

def deadline (req : Request) : Int := env.polled + req.settings.stabilization

/-- What `observeAndCommit` does with a revision observed healthy. -/
def commit (n : Node) (req : Request) (rev : Revision) (rendered : String) : Out :=
  append env (n.did (.observed n.running req env.polled env.polls) req.activation rev)
      (Record.of .committed req.activation) fun n =>
    fault env n .afterCommitted <|
      checkpoint host env n req req.activation rev rendered fun n => (n, .ok ⟨.committed, ""⟩)

def observeAndCommit (n : Node) (req : Request) (rev : Revision) (rendered : String) : Out :=
  match runningDiff host env n .observed rendered with
  | none => (n, .error .unreadable)
  | some (d :: ds) =>
    fail host env n req ("running configuration differs: " ++ "; ".intercalate ((d :: ds).take 5))
  | some [] =>
    match stabilize (deadline env req) env.polls with
    | .stopped => (n, .error .cancelled)
    | .unhealthy text => fail host env n req ("unhealthy: " ++ text)
    | .healthy => commit host env n req rev rendered

def apply (n : Node) (req : Request) (rev : Revision) (rendered : String) : Out :=
  match (env.reload .own).answer with
  | .cancelled => (reload env n .own req.activation rev, .error .cancelled)
  | .failed text => failWith host env (reload env n .own req.activation rev) req text ("reload: " ++ text)
  | .ok =>
    fault env (reload env n .own req.activation rev) .afterReload <|
      append env (reload env n .own req.activation rev) (Record.of .applied req.activation) fun n =>
        fault env n .afterApplied (observeAndCommit host env n req rev rendered)

/-! ### Resuming -/

def union {α : Type} [DecidableEq α] (a b : List α) : List α :=
  b.foldl (fun out s => if s ∈ out then out else out ++ [s]) a

def mergeRecovery (journaled asked : Recovery) : Recovery :=
  { journaled with
    revokedPrefixes := union journaled.revokedPrefixes asked.revokedPrefixes
    revokedCredentials := union journaled.revokedCredentials asked.revokedCredentials
    retired := journaled.retired || asked.retired }

def Request.merged (req : Request) (j : Journal) : Request :=
  match (j.accepted req.activation.deploymentUID req.activation.epoch).bind Record.recovery with
  | none => req
  | some journaled => { req with recovery := mergeRecovery journaled req.recovery }

def neitherSide : String := "running configuration matches neither side after a crash"

def resumeAccepted (n : Node) (req : Request) (rev : Revision) (rendered : String) (rec : Record) : Out :=
  match runningDiff host env n .resumed rendered with
  | none => (n, .error .unreadable)
  | some [] =>
    append env n (Record.of .applied req.activation) fun n => observeAndCommit host env n req rev rendered
  | some _ =>
    if rec.previousGood = "" ∨ runningIsCheckpoint host env n then apply host env n req rev rendered
    else failWith host env n req neitherSide neitherSide

def resumeCommitted (n : Node) (req : Request) (rev : Revision) (rendered : String) : Out :=
  if (readCheckpoint env n).any fun cp => cp.activation = req.activation then (n, .ok ⟨.committed, ""⟩)
  else checkpoint host env n req req.activation rev rendered fun n => (n, .ok ⟨.committed, ""⟩)

/-- `Resume` from the newest record of the epoch. -/
def resumeFrom (n : Node) (req : Request) (rev : Revision) (rendered : String) (rec : Record) : Out :=
  match rec.type with
  | .committed => resumeCommitted host env n req rev rendered
  | .recovered => (n, .ok ⟨.recovered, rec.detail⟩)
  | .applyFailed => recover host env n req ("resumed after a failed apply: " ++ rec.detail)
  | .applied => observeAndCommit host env n req rev rendered
  | .accepted => resumeAccepted host env n req rev rendered rec
  | .source => (n, .error .cannotResume)
  | .rebind => (n, .error .cannotResume)

/-- The replay rules of `Resume`: the record it goes on from. -/
def resumable (n : Node) (act : Activation) : Except Error Record :=
  match n.journal.lastForEpoch act.deploymentUID act.epoch with
  | none => .error .neverAccepted
  | some rec =>
    if act.epoch ≠ (n.journal.highWater act.deploymentUID).getD 0 then .error .stale
    else if rec.activation ≠ act then .error .stale
    else .ok rec

def resume (n : Node) (req : Request) : Out :=
  match checkRevision req with
  | .error e => (n, .error e)
  | .ok rev =>
    if checkIdentity env n .resume req.activation then
      match resumable n req.activation with
      | .error e => (n, .error e)
      | .ok rec =>
        match render host env .own rev with
        | .error e => (n, .error e)
        | .ok rendered => resumeFrom host env n (req.merged n.journal) rev rendered rec
    else (n, .error .identityMismatch)

/-! ### Activating -/

/-- `Admit`: whether the activation is a redelivery. -/
def admitEpoch (n : Node) (act : Activation) : Except Error Bool :=
  if checkIdentity env n .admission act = false then .error .identityMismatch
  else if n.journal.boundDeployment ≠ "" ∧ n.journal.boundDeployment ≠ act.deploymentUID then .error .recoveryConflict
  else
    match n.journal.highWater act.deploymentUID with
    | none => .ok false
    | some high =>
      if high < act.epoch then .ok false
      else if act.epoch < high then .error .stale
      else if (n.journal.lastForEpoch act.deploymentUID act.epoch).map Record.activation ≠ some act then .error .stale
      else if n.journal.failed act.deploymentUID act.epoch then .error .failedEpoch
      else .ok true

/-- `Activate` of a new epoch. -/
def accept (n : Node) (req : Request) (rev : Revision) : Out :=
  match render host env .own rev with
  | .error e => (n, .error e)
  | .ok rendered =>
    if env.checks then
      append env n
        (.acceptance req.activation (((readCheckpoint env n).map (·.activation.revision)).getD "") req.recovery)
          fun n =>
        fault env n .afterAccepted (apply host env n req rev rendered)
    else (n, .error .rejected)

def activate (n : Node) (req : Request) : Out :=
  match checkRevision req with
  | .error e => (n, .error e)
  | .ok rev =>
    match admitEpoch env n req.activation with
    | .ok false => accept host env n req rev
    | .ok true => resume host env n req
    | .error .failedEpoch =>
      if n.journal.needsRecovery req.activation.deploymentUID req.activation.epoch then resume host env n req
      else (n, .error .failedEpoch)
    | .error e => (n, .error e)

/-! ### Booting -/

/-- `BindIdentity`: the identity recorded, and the one the directory then has. -/
def bindIdentity (n : Node) (want : Identity) (nonce : String) : Node × Option Identity :=
  if want.machineID = "" then (n, none)
  else
    match n.identity with
    | none =>
      if want.nodeUID = "" ∨ want.clusterID = "" then (n, none)
      else ({ n with identity := some { want with nonce := nonce } }, some { want with nonce := nonce })
    | some got =>
      if got.machineID ≠ want.machineID then (n, none)
      else if want.nodeUID ≠ "" ∧ got.nodeUID ≠ want.nodeUID then (n, none)
      else if want.clusterID ≠ "" ∧ got.clusterID ≠ want.clusterID then (n, none)
      else (n, some got)

def allowed (j : Journal) (cp : Checkpoint) : Bool :=
  match j.latestRecovery with
  | none => true
  | some rec =>
    rec.retired = false ∧ revokedOrigination rec.prefixTexts cp.originates = "" ∧
      ∀ uid ∈ cp.credentialUIDs, uid ∉ rec.revokedCredentials

/-- The checks of `boot` on a checkpoint, for the identity recorded. -/
def bootable (n : Node) (recorded : Identity) (cp : Checkpoint) (now : Int) (online : Bool) : Bool :=
  cp.nonce = recorded.nonce ∧ cp.activation.nodeUID = recorded.nodeUID ∧ cp.activation.clusterID = recorded.clusterID ∧
    cp.semanticsVersion = host.semanticsVersion ∧ cp.frrVersion = host.frrVersion ∧ cp.requiresAPI = false ∧
    (online = true ∨ (n.journal.latestTime.all (· ≤ now) ∧ now < cp.bootAuthorizedUntil)) ∧ allowed n.journal cp

/-- `boot`, `BootOnline` when `online` is set and `Boot` otherwise: the configuration to restore, if one may be. -/
def boot (n : Node) (want : Identity) (nonce : String) (readable : Bool) (now : Int) (online : Bool) :
    Node × Option String :=
  match bindIdentity n want nonce with
  | (n, none) => (n, none)
  | (n, some recorded) =>
    match if readable then n.checkpoint else none with
    | none => (n, none)
    | some cp => (n, if bootable host n recorded cp now online then some cp.config else none)

end Galactic.Activator
