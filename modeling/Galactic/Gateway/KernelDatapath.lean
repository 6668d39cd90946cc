import Galactic.Gateway.EdgeMaps

/-!
# The kernel datapath

`ApplyRule` and `RemoveRule` of `kerneldatapath.go`. Every map operation may fail. The attribution of keys to VPCs,
which only the metrics read, is left out. -/

namespace Galactic.Gateway

open Net FallibleProg

/-- The steps of a call that touch the maps, by their place in the loop they are in. -/
inductive Site
  | retire (i : Nat)
  | flip (i : Nat)
  | register (i : Nat)
  | prune (i : Nat)
  | read (i : Nat)
  | activate (i : Nat)
  | cleanup (i : Nat)
  | remove (i : Nat)

/-- What goes wrong in a call, and its clock. -/
abbrev World := Site → Faults

def DesiredRule.which (rule : DesiredRule) : Which := if rule.portEnd ≠ 0 then .range else .scalar

def Datapath.keysOf (d : Datapath) (rule : String) : List VIPKey := (d.vipKeysByName.lookup rule).getD []

def Datapath.setKeys (d : Datapath) (rule : String) (keys : List VIPKey) : Datapath :=
  { d with vipKeysByName := d.vipKeysByName.insert rule keys }

def forKeys (step : Nat → VIPKey → M Unit) : Nat → List VIPKey → M Unit
  | _, [] => return ()
  | i, key :: keys => do
    step i key
    forKeys step (i + 1) keys

def retireCoverage (w : World) (rule : DesiredRule) : M Unit := do
  check (rule.portEnd ≠ 0 ∧ (rule.protocol ≠ protocolUDP ∨ rule.portEnd < rule.port)) .invalidRange
  let d ← get
  forKeys (fun i key => removeRange (w (.retire i)) key) 0 (d.keysOf rule.key)

/-- The step of `ApplyRule` for a rule that was one of the other kind. -/
def leaveOldTable (w : World) (rule : DesiredRule) : M Unit := do
  let d ← get
  match d.rangeRules.lookup rule.key with
  | none => return ()
  | some oldRange =>
    if oldRange = decide (rule.portEnd ≠ 0) then return ()
    else
      forKeys (fun i key => unregister (w (.flip i)) (if oldRange then .range else .scalar) key) 0 (d.keysOf rule.key)

/-- The map `families`, by whether the addresses are IPv4. -/
def families (rule : DesiredRule) : List VIPKey → (Bool → Option Family) → Except Err (Bool → Option Family)
  | [], fs => .ok fs
  | key :: keys, fs =>
    match fs key.vip.is4 with
    | some _ => families rule keys fs
    | none =>
      match buildMaglevTable rule (rule.backendsFor key.vip) with
      | .error e => .error e
      | .ok family => families rule keys (Function.update fs key.vip.is4 (some family))

/-- The keys of `written` that are not recorded yet are. -/
def recordWritten (keys : List VIPKey) : List VIPKey → List VIPKey
  | [] => keys
  | key :: written => recordWritten (if key ∈ keys then keys else keys ++ [key]) written

/-- The loop of `ApplyRule` that registers the keys, of which `all` is the whole list. -/
def registerLoop (w : World) (rule : DesiredRule) (affinity : UInt8) (fs : Bool → Option Family) (all : List VIPKey) :
    Nat → List VIPKey → M Unit
  | _, [] => return ()
  | i, key :: keys => do
    let f := (fs key.vip.is4).getD ⟨[], []⟩
    match ← attempt (register (w (.register i)) rule.which key affinity f.backends f.table) with
    | .ok _ => registerLoop w rule affinity fs all (i + 1) keys
    | .error e =>
      modify fun d => d.setKeys rule.key (recordWritten (d.keysOf rule.key) (all.take (i + 1)))
      throw (.apply rule.key e)

def pruneLoop (w : World) (rule : DesiredRule) (keys : List VIPKey) : Nat → List VIPKey → M Unit :=
  forKeys fun i old =>
    if old ∈ keys then return () else unregister (w (.prune i)) rule.which old

/-- What `activateRanges` does after a failure: its errors are only reported. -/
def cleanupRanges (w : World) (t : Which) : Nat → List VIPKey → M Unit :=
  forKeys fun i key => do
    let _ ← attempt (removeRange (w (.cleanup i)) key)
    let _ ← attempt (unregister (w (.cleanup i)) t key)

def activateOne (w : World) (rule : DesiredRule) (all : List VIPKey) (i : Nat) (key : VIPKey) : M Unit := do
  match ← getRow (w (.read i)) rule.which key with
  | none => throw (.noRow key)
  | some entry =>
    match ← attempt (registerRange (w (.activate i)) key rule.portEnd entry.generation) with
    | .ok _ => return ()
    | .error e =>
      cleanupRanges w rule.which 0 all
      throw (.activate e)

def activateRanges (w : World) (rule : DesiredRule) (keys : List VIPKey) : M Unit := do
  if rule.portEnd ≠ 0 then forKeys (activateOne w rule keys) 0 keys
  else return ()

def applyRule (w : World) (rule : DesiredRule) : M Unit := do
  let keys ← liftExcept (vipKeysForRule rule)
  retireCoverage w rule
  let affinity ← liftExcept (affinityNumber rule)
  leaveOldTable w rule
  modify fun d => { d with rangeRules := d.rangeRules.insert rule.key (rule.portEnd ≠ 0) }
  let fs ← liftExcept (families rule keys fun _ => none)
  registerLoop w rule affinity fs keys 0 keys
  let d ← get
  pruneLoop w rule keys 0 (d.keysOf rule.key)
  modify fun d => d.setKeys rule.key keys
  activateRanges w rule keys

/-- The table that `RemoveRule` takes a rule's rows to be in. -/
def Datapath.tableOf (d : Datapath) (rule : String) : Which :=
  if (d.rangeRules.lookup rule).getD false then .range else .scalar

def removeRule (w : World) (rule : String) : M Unit := do
  let d ← get
  forKeys (fun i key => do
    removeRange (w (.remove i)) key
    unregister (w (.remove i)) (d.tableOf rule) key) 0 (d.keysOf rule)
  modify fun d => { d with
    vipKeysByName := d.vipKeysByName.erase rule
    rangeRules := d.rangeRules.erase rule }

end Galactic.Gateway
