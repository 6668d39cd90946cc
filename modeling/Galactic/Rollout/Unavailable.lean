import Galactic.Rollout.Release

/-!
# How many routers of a failure domain activate at once

`promoteWaiting` counts the busy deployments of the release's namespace once, and a promotion in the promoted target's
own failure domain only. What it counts stays below the limit; what it misses are busy deployments of other namespaces,
and targets promoted earlier in the pass that stand in a later target's domain while their own is another. -/

namespace Galactic.Rollout

open Cluster List Function Option Prod

def Cluster.busyAt (c : Cluster) (label : String) (d : Domain) (dep : Deployment) : Bool :=
  busy dep && c.domain dep label = d

/-- The busy deployments whose node is in the failure domain `d` of a label. -/
def Cluster.busyIn (c : Cluster) (label : String) (d : Domain) : Nat := c.deployments.countP (c.busyAt label d)

/-! ### Clusters that differ by promotions -/

def Deployment.place (d : Deployment) : String × String × String × String :=
  (d.ns, d.name, d.spec.router, d.spec.nodeName)

variable {c c' : Cluster} {auth : Release} {dep dep' : Deployment}

variable {ns name : String}

/-- The busy deployments of the release's namespace in the entry's failure domain, and the deployments promoted earlier
in the pass whose own domain it is. -/
def Cluster.counted (c : Cluster) (ns : String) (earlier : List Promotion) (e : Entry) : Nat :=
  (c.deployments.countP fun dep => dep.ns = ns && c.busyAt e.policy.failureDomainLabel e.domain dep) +
    earlier.countP fun q => q.entry.domain = e.domain && c.busyAt e.policy.failureDomainLabel e.domain q.after

/-- The busy deployments of other namespaces in the entry's failure domain, and the deployments promoted earlier in the
pass that stand in it while their own domain is another. -/
def Cluster.missed (c : Cluster) (ns : String) (earlier : List Promotion) (e : Entry) : Nat :=
  (c.deployments.countP fun dep => !(dep.ns = ns) && c.busyAt e.policy.failureDomainLabel e.domain dep) +
    earlier.countP fun q => !(q.entry.domain = e.domain) && c.busyAt e.policy.failureDomainLabel e.domain q.after

variable {e : Entry} {earlier : List Promotion}

def Promotion.Within (p : Promotion) : Prop :=
  (p.before.busyIn (p.before.policy p.deployment).failureDomainLabel
    (p.before.domain p.deployment (p.before.policy p.deployment).failureDomainLabel) : Int) <
    (p.before.policy p.deployment).maxUnavailable

instance (p : Promotion) : Decidable p.Within := by unfold Promotion.Within; infer_instance

/-- The pass counts less than the limit for the promotion, which is within it exactly if what is missed still fits. -/
def Promotion.Accounted (c : Cluster) (ns : String) (earlier : List Promotion) (p : Promotion) : Prop :=
  (c.counted ns earlier p.entry : Int) < p.entry.policy.maxUnavailable ∧
    (p.Within ↔ (c.counted ns earlier p.entry + c.missed ns earlier p.entry : Int) < p.entry.policy.maxUnavailable)

def idleDeployment (name node : String) (uid : Nat) : Deployment :=
  ⟨"ns", name, uid, 1, ⟨name, node, .crd, false, none, 0, "", none, none, none⟩, ⟨none, 0, "", "", [], none, []⟩⟩

def emptyRevision (router : String) : Revision := ⟨"ns", router ++ "-1", router, "digest", [], [], []⟩

def rackNodes : List Node :=
  [⟨"n1", [("zone", "z1"), ("rack", "r")]⟩, ⟨"n2", [("zone", "z2"), ("rack", "r")]⟩]

end Galactic.Rollout
