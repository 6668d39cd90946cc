import Galactic.Gateway.KernelDatapath

/-!
# The gateway engine

`Reconcile` of `engine.go` over the kernel datapath, with the diff of `diff.go`. What the quota enforcer answers is
given; telemetry, which is only told what happened, is left out. -/

namespace Galactic.Gateway

open Net FallibleProg

abbrev Rules := AList fun _ : String => DesiredRule

structure EngineState where
  rules : Rules
  keyed : ∀ key rule, rules.lookup key = some rule → rule.key = key

/-- The desired state with the given rules; of two with one key, the first. -/
def EngineState.ofRules : List DesiredRule → EngineState
  | [] => ⟨∅, fun _ _ h => by rw [AList.lookup_empty] at h; cases h⟩
  | rule :: rules => {
      rules := (EngineState.ofRules rules).rules.insert rule.key rule
      keyed := fun key rule' h => by
        by_cases hkey : key = rule.key
        · subst hkey
          rw [AList.lookup_insert] at h
          rw [Option.some.inj h]
        · rw [AList.lookup_insert_ne hkey] at h
          exact (EngineState.ofRules rules).keyed key rule' h }

structure Engine where
  active : Rules
  pending : Rules
  dirty : List String
  datapath : Datapath

inductive EngineErr
  | quota (rule : String)
  | quotaExceeded (rule : String)
  | release (rule : String)
  | applyDatapath (rule : String) (e : Err) (releaseFailed : Bool)
  | rollback (rule : String) (e e' : Err)
  | removeDatapath (rule : String) (e : Err)
  | blocked

structure RuleStatus where
  vipAddresses : List Addr
  key : String
  applied : Bool
  error : Option EngineErr

structure EngineStatus where
  healthy : Bool
  rules : List RuleStatus

/-- What the calls of one `Reconcile` meet, for each rule: the datapath in its four roles, and the quota enforcer. -/
structure EngineWorld where
  remove : String → World := fun _ _ => {}
  clear : String → World := fun _ _ => {}
  apply : String → World := fun _ _ => {}
  rollback : String → World := fun _ _ => {}
  quota : String → Option Bool := fun _ => some true
  removeReleaseFails : String → Bool := fun _ => false
  clearReleaseFails : String → Bool := fun _ => false
  rollbackReleaseFails : String → Bool := fun _ => false

abbrev EngineM := Prog Engine EngineErr

/-! ### Diffs -/

def Engine.inventory (e : Engine) : Rules := e.pending ∪ e.active

def sortKeys (keys : List String) : List String := keys.insertionSort fun a b => a ≤ b

def unchanged (active desired : Rules) (key : String) : Bool :=
  match active.lookup key, desired.lookup key with
  | some cur, some rule => rulesEqual cur rule
  | _, _ => false

def diffRuleKeys (active desired : Rules) : List String × List String :=
  (sortKeys (desired.keys.filter fun key => ¬unchanged active desired key),
    sortKeys (active.keys.filter fun key => desired.lookup key = none))

/-- `toApply`, with the dirty rules that the diff leaves out. -/
def keysToApply (e : Engine) (desired : Rules) : List String :=
  let toApply := (diffRuleKeys e.inventory desired).1
  sortKeys (toApply ++ e.dirty.filter fun key => desired.lookup key ≠ none ∧ key ∉ toApply)

def keysToRemove (e : Engine) (desired : Rules) : List String := (diffRuleKeys e.inventory desired).2

/-! ### One rule -/

def onDatapath {α : Type} (m : M α) : EngineM (Except Err α) := do
  let e ← get
  set { e with datapath := (exec m e.datapath).2 }
  return (exec m e.datapath).1

def removeRuleLocked (w : World) (releaseFails : Bool) (key : String) : EngineM Unit := do
  match ← onDatapath (removeRule w key) with
  | .error err => throw (.removeDatapath key err)
  | .ok _ =>
    check releaseFails (.release key)
    modify fun e => { e with pending := e.pending.erase key }

def applyRuleLocked (w : EngineWorld) (rule : DesiredRule) : EngineM Unit := do
  match w.quota rule.key with
  | none => throw (.quota rule.key)
  | some false => throw (.quotaExceeded rule.key)
  | some true =>
    modify fun e => { e with pending := e.pending.insert rule.key rule }
    match ← onDatapath (applyRule (w.apply rule.key) rule) with
    | .ok _ => modify fun e => { e with pending := e.pending.erase rule.key }
    | .error err =>
      match ← onDatapath (removeRule (w.rollback rule.key) rule.key) with
      | .error err' => throw (.rollback rule.key err err')
      | .ok _ =>
        modify fun e => { e with pending := e.pending.erase rule.key }
        throw (.applyDatapath rule.key err (w.rollbackReleaseFails rule.key))

def Engine.ruleConflicts (e : Engine) (key : String) (rule : DesiredRule) (toRemove : List String) : Bool :=
  (toRemove.any fun removed => (e.active.lookup removed).any fun old => rulesOverlap old rule) ||
  (e.active.keys.any fun oldKey => oldKey ≠ key ∧ (oldKey ∈ e.dirty ∨ e.pending.lookup oldKey ≠ none) ∧
    (e.active.lookup oldKey).any fun old => rulesOverlap old rule) ||
  e.pending.keys.any fun oldKey => oldKey ≠ key ∧ (e.pending.lookup oldKey).any fun old => rulesOverlap old rule

def addKey (keys : List String) (key : String) : List String := if key ∈ keys then keys else key :: keys

/-! ### Reconcile -/

/-- The body of the loop over `toRemove`. -/
def removeOne (w : EngineWorld) (key : String) : EngineM (List RuleStatus) := do
  match ← attempt (removeRuleLocked (w.remove key) (w.removeReleaseFails key) key) with
  | .error err =>
    modify fun e => { e with dirty := addKey e.dirty key }
    return [⟨[], key, true, some err⟩]
  | .ok _ =>
    modify fun e => { e with active := e.active.erase key, dirty := e.dirty.filter (· ≠ key) }
    return []

/-- The step of the loop over `toApply` that clears what is pending. -/
def clearPending (w : EngineWorld) (key : String) : EngineM Unit := do
  let e ← get
  if e.pending.lookup key = none then return ()
  else removeRuleLocked (w.clear key) (w.clearReleaseFails key) key

/-- The end of that loop's body. -/
def applyCleared (w : EngineWorld) (key : String) (rule : DesiredRule) : EngineM (List RuleStatus) := do
  match ← attempt (applyRuleLocked w rule) with
  | .error err =>
    modify fun e => if e.active.lookup key ≠ none ∨ e.pending.lookup key ≠ none then
        { e with dirty := addKey e.dirty key }
      else e
    return [⟨[], key, false, some err⟩]
  | .ok _ =>
    modify fun e => { e with active := e.active.insert key rule, dirty := e.dirty.filter (· ≠ key) }
    return [⟨[], key, true, none⟩]

def applyOne (w : EngineWorld) (desired : Rules) (toRemove : List String) (key : String) : EngineM (List RuleStatus) :=
  do
  match desired.lookup key with
  | none => return []
  | some rule =>
    let e ← get
    if e.ruleConflicts key rule toRemove then return [⟨[], key, false, some .blocked⟩]
    else
      match ← attempt (clearPending w key) with
      | .error err => return [⟨[], key, false, some err⟩]
      | .ok _ => applyCleared w key rule

def forRules (step : String → EngineM (List RuleStatus)) : List String → EngineM (List RuleStatus)
  | [] => return []
  | key :: keys => do
    let statuses ← step key
    let rest ← forRules step keys
    return statuses ++ rest

def Engine.vipsOf (rules : Rules) (key : String) : List Addr := ((rules.lookup key).map (·.vipAddresses)).getD []

/-- `annotateRuleVIPs`, for one status: each address once. -/
def annotate (inventory active desired : Rules) (s : RuleStatus) : RuleStatus :=
  let more := Engine.vipsOf desired s.key ++ Engine.vipsOf active s.key
  let all := more.foldl (fun seen addr => if addr ∈ seen then seen else seen ++ [addr]) (Engine.vipsOf inventory s.key)
  { s with vipAddresses := all }

def skipped (desired : Rules) (toApply : List String) : List RuleStatus :=
  (desired.keys.filter fun key => key ∉ toApply).map fun key => ⟨[], key, true, none⟩

def reconcileM (w : EngineWorld) (desired : EngineState) : EngineM EngineStatus := do
  let e ← get
  let toApply := keysToApply e desired.rules
  let toRemove := keysToRemove e desired.rules
  let removed ← forRules (removeOne w) toRemove
  let applied ← forRules (applyOne w desired.rules toRemove) toApply
  let statuses := skipped desired.rules toApply ++ removed ++ applied
  let e' ← get
  return ⟨statuses.all fun s => s.error.isNone, statuses.map (annotate e.inventory e'.active desired.rules)⟩

def Engine.reconcile (e : Engine) (w : EngineWorld) (desired : EngineState) : Engine :=
  (exec (reconcileM w desired) e).2

/-! ### Runs -/

/-- `NewEngine` over a new datapath and empty maps. -/
def Engine.empty : Engine := ⟨∅, ∅, [], ⟨fun _ => ∅, ∅, ∅, ∅, ∅⟩⟩

def Engine.run : Engine → List (EngineWorld × EngineState) → Engine
  | e, [] => e
  | e, (w, desired) :: calls => Engine.run (e.reconcile w desired) calls

end Galactic.Gateway
