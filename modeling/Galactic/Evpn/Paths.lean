import Galactic.Evpn.VrfRoutes
import Galactic.Lib.StepRun
import Galactic.Net.Parse

/-!
# Best paths and the routes they leave

`processEVPNPath` turns one best-path event into a route: a tenant route in the table that imports one of the path's
route targets, or a plain route where the path has none. GoBGP keeps a best path for each NLRI, which names a route
distinguisher, while routes are kept by table and prefix only. So a withdrawal removes the route of every other path to
the same place. -/

namespace Galactic.Evpn
open Net Function Option

/-- What `processEVPNPath` reads of a path. Paths of other families and route types have no `ipPrefix`. -/
structure Path where
  rd : String
  ipPrefix : Option (Addr × Nat)
  /-- Of the MP_REACH_NLRI attribute. -/
  nexthop : Option Addr
  sid : Option IP
  communities : List String
  withdrawal : Bool
  deriving DecidableEq

namespace Path

def evpnMpReachNexthop (p : Path) : String := p.nexthop.elim "" Addr.string

/-- The SID, or the next hop of a path that has none; nil if that cannot be read. -/
def evpnGateway (p : Path) : IP :=
  match p.sid with
  | some sid => sid
  | none =>
    if p.evpnMpReachNexthop = "" then []
    else (parseAddr p.evpnMpReachNexthop.toList).elim [] Addr.as16

/-- `routePrefix`. -/
def pfx (p : Path) : Option Prefix := p.ipPrefix.map fun x => (Prefix.ofAddr x.1 x.2).masked

end Path

/-- `plainRoutes`, without the reconciler that carries the desired set to the kernel. -/
structure PlainRoutes where
  desired : Prefix → Option IP
  withdrawn : Prefix → Bool

def PlainRoutes.set (r : PlainRoutes) (pfx : Prefix) (gateway : IP) : PlainRoutes :=
  ⟨update r.desired pfx (some gateway), update r.withdrawn pfx false⟩

def PlainRoutes.withdraw (r : PlainRoutes) (pfx : Prefix) : PlainRoutes :=
  ⟨update r.desired pfx none, update r.withdrawn pfx true⟩

structure Routes where
  vrf : VRFRoutes
  plain : PlainRoutes

inductive RouteInstall
  | vrf (tableID : UInt32)
  | plain
  deriving DecidableEq

/-- What `processEVPNPath` reads of the runtime. -/
structure Node where
  localAddress : String
  rtIndex : String → Option UInt32

namespace Node
variable (n : Node)

def matchTableID (communities : List String) : Option RouteInstall :=
  match communities.findSome? n.rtIndex with
  | some tableID => some (.vrf tableID)
  | none => if communities = [] then some .plain else none

/-- Where the route of a path belongs. Locally originated paths have none. -/
def target (p : Path) : Option (RouteInstall × Prefix) :=
  if p.evpnMpReachNexthop = n.localAddress then none
  else p.pfx.bind fun pfx => (n.matchTableID p.communities).map (·, pfx)

/-- `ok` is how the install ends, if there is one. -/
def processEVPNPath (r : Routes) (p : Path) (ok : Bool) : Routes :=
  match n.target p with
  | none => r
  | some (.plain, pfx) =>
    if p.withdrawal then { r with plain := r.plain.withdraw pfx } else { r with plain := r.plain.set pfx p.evpnGateway }
  | some (.vrf tableID, pfx) =>
    if p.withdrawal then { r with vrf := r.vrf.withdraw ⟨tableID, pfx⟩ }
    else { r with vrf := r.vrf.install ⟨tableID, pfx⟩ p.evpnGateway ok }

end Node

def Routes.route (r : Routes) : RouteInstall × Prefix → Option IP
  | (.vrf tableID, pfx) => r.vrf.routes ⟨tableID, pfx⟩
  | (.plain, pfx) => r.plain.desired pfx

def Routes.empty : Routes := ⟨.new fun _ => none, fun _ => none, fun _ => false⟩

theorem Node.route_processEVPNPath (n : Node) (r : Routes) (p : Path) (tgt : RouteInstall × Prefix) :
    (n.processEVPNPath r p true).route tgt =
      if n.target p = some tgt then (if p.withdrawal then none else some p.evpnGateway) else r.route tgt := by
  unfold processEVPNPath
  split
  next h => simp [h]
  all_goals
    next h =>
      obtain ⟨⟨_⟩ | _, _⟩ := tgt <;> rw [h] <;> cases p.withdrawal <;>
        simp [Routes.route, PlainRoutes.set, PlainRoutes.withdraw, VRFRoutes.install, VRFRoutes.withdraw,
          update_apply, eq_comm]

/-! ### Events of one watcher -/

def Path.nlri (p : Path) : String × Option (Addr × Nat) := (p.rd, p.ipPrefix)

inductive BestPath
  | best (p : Path)
  /-- The NLRI has no best path any more; the event carries the one it had. -/
  | gone (nlri : String × Option (Addr × Nat))

structure Watched where
  current : String × Option (Addr × Nat) → Option Path
  routes : Routes

def Watched.init : Watched := ⟨fun _ => none, .empty⟩

namespace Node
variable (n : Node)

def watch (s : Watched) : BestPath → Watched
  | .best p =>
    ⟨update s.current p.nlri (some p), n.processEVPNPath s.routes { p with withdrawal := false } true⟩
  | .gone nlri =>
    match s.current nlri with
    | none => s
    | some p => ⟨update s.current nlri none, n.processEVPNPath s.routes { p with withdrawal := true } true⟩

/-- There is a route exactly where some current path belongs, and it leads to the gateway of such a path. -/
def Accurate (s : Watched) : Prop := ∀ tgt,
  (∀ gw, s.routes.route tgt = some gw → ∃ k p, s.current k = some p ∧ n.target p = some tgt ∧ p.evpnGateway = gw) ∧
  (s.routes.route tgt = none → ∀ k p, s.current k = some p → n.target p ≠ some tgt)

/-- A path leaves its place only to itself or to a path the route leads to, and only its own place when withdrawn. -/
def Keeps (s : Watched) : BestPath → Prop
  | .best p => ∀ old tgt, s.current p.nlri = some old → n.target old = some tgt → n.target p ≠ some tgt →
      ∃ k q, k ≠ p.nlri ∧ s.current k = some q ∧ n.target q = some tgt ∧ s.routes.route tgt = some q.evpnGateway
  | .gone nlri => ∀ p tgt, s.current nlri = some p → n.target p = some tgt →
      ∀ k q, k ≠ nlri → s.current k = some q → n.target q ≠ some tgt

variable {n} {s : Watched}

theorem Accurate.watch_best (h : n.Accurate s) (p : Path) : n.Accurate (n.watch s (.best p)) ↔ n.Keeps s (.best p) := by
  have hroute : ∀ tgt, (n.watch s (.best p)).routes.route tgt =
      if n.target p = some tgt then some p.evpnGateway else s.routes.route tgt := fun tgt => by
    rw [watch, route_processEVPNPath]
    rfl
  have hself : (n.watch s (.best p)).current p.nlri = some p := update_self ..
  have hother : ∀ {k}, k ≠ p.nlri → (n.watch s (.best p)).current k = s.current k := fun hk => update_of_ne hk ..
  constructor
  · intro h' old tgt hold htgt hleft
    cases hr : s.routes.route tgt with
    | none => exact absurd htgt ((h tgt).2 hr _ _ hold)
    | some gw =>
      obtain ⟨k, q, hq, hqt, hgw⟩ := (h' tgt).1 gw (by rw [hroute, if_neg hleft, hr])
      have hk : k ≠ p.nlri := by
        rintro rfl
        exact hleft (mem_unique hself hq ▸ hqt)
      exact ⟨k, q, hk, hother hk ▸ hq, hqt, by rw [hgw]⟩
  intro hkeep tgt
  rw [hroute]
  split_ifs with htgt
  · exact ⟨fun gw hgw => ⟨p.nlri, p, update_self .., htgt, some.inj hgw⟩, nofun⟩
  refine ⟨fun gw hgw => ?_, fun hnone k q hq => ?_⟩
  · obtain ⟨k, q, hq, hqt, hqgw⟩ := (h tgt).1 gw hgw
    by_cases hk : k = p.nlri
    · subst hk
      obtain ⟨k, q, hk, hq, hqt, hr⟩ := hkeep q tgt hq hqt htgt
      exact ⟨k, q, (hother hk).trans hq, hqt, mem_unique hr hgw⟩
    · exact ⟨k, q, (hother hk).trans hq, hqt, hqgw⟩
  · by_cases hk : k = p.nlri
    · subst hk
      exact mem_unique hself hq ▸ htgt
    · exact (h tgt).2 hnone k q (hother hk ▸ hq)

theorem Accurate.watch_gone (h : n.Accurate s) (nlri : String × Option (Addr × Nat)) :
    n.Accurate (n.watch s (.gone nlri)) ↔ n.Keeps s (.gone nlri) := by
  cases hcur : s.current nlri with
  | none =>
    have : n.watch s (.gone nlri) = s := by simp only [watch, hcur]
    rw [this]
    exact ⟨fun _ p tgt hp => by simp [hcur] at hp, fun _ => h⟩
  | some p =>
    have hstep : n.watch s (.gone nlri) =
        ⟨update s.current nlri none, n.processEVPNPath s.routes { p with withdrawal := true } true⟩ := by
      simp only [watch, hcur]
    have hcurrent : ∀ {k q}, (n.watch s (.gone nlri)).current k = some q ↔ k ≠ nlri ∧ s.current k = some q :=
      fun {k q} => by
        rw [hstep]
        by_cases hk : k = nlri <;> simp [hk]
    have hroute : ∀ tgt, (n.watch s (.gone nlri)).routes.route tgt =
        if n.target p = some tgt then none else s.routes.route tgt := fun tgt => by
      rw [hstep, route_processEVPNPath]
      rfl
    constructor
    · intro h' q tgt hq htgt k r hk hr
      obtain rfl := mem_unique hcur hq
      exact (h' tgt).2 (by rw [hroute, if_pos htgt]) k r (hcurrent.mpr ⟨hk, hr⟩)
    intro hkeep tgt
    rw [hroute]
    split_ifs with htgt
    · exact ⟨nofun, fun _ k q hq => hkeep p tgt hcur htgt k q (hcurrent.mp hq).1 (hcurrent.mp hq).2⟩
    refine ⟨fun gw hgw => ?_, fun hnone k q hq => (h tgt).2 hnone k q (hcurrent.mp hq).2⟩
    obtain ⟨k, q, hq, hqt, hqgw⟩ := (h tgt).1 gw hgw
    refine ⟨k, q, hcurrent.mpr ⟨?_, hq⟩, hqt, hqgw⟩
    rintro rfl
    exact htgt (mem_unique hcur hq ▸ hqt)

end Node

/-- The routes are right after every event exactly if every event leaves each place it empties to no other path, and
no path moves away from a place that the route leads there alone. -/
theorem routes_accurate_iff (n : Node) (events : List BestPath) :
    StepRun.Always n.watch n.Accurate .init events ↔ StepRun.Meets n.watch n.Keeps .init events := by
  refine StepRun.always_iff_meets (fun s e h => ?_) fun tgt => ⟨?_, fun _ _ _ hp => nomatch hp⟩
  · cases e with
    | best p => exact h.watch_best p
    | gone nlri => exact h.watch_gone nlri
  · rcases tgt with ⟨⟨_⟩ | _, _⟩ <;> exact fun _ hgw => nomatch hgw

def tenantNode : Node := ⟨"2001:db8::9", fun rt => if rt = "65000:1" then some 10 else none⟩

def tenantPath : Path := ⟨"192.0.2.1:1", some (.v4 ⟨[172, 16, 0, 0], rfl⟩, 24), none, some (.replicate 16 1),
  ["65000:1"], false⟩

/-- Two nodes announce two prefixes into one VPC, and the first one withdraws its path. -/
theorem routes_accurate_twoPrefixes :
    let q : Path := { tenantPath with rd := "192.0.2.2:1", ipPrefix := some (.v4 ⟨[172, 16, 1, 0], rfl⟩, 24) }
    StepRun.Always tenantNode.watch tenantNode.Accurate .init [.best tenantPath, .best q, .gone tenantPath.nlri] := by
  intro q
  refine (routes_accurate_iff ..).mpr
    ⟨fun _ _ h => (nomatch h), fun old _ hold => ?_, fun p tgt hp htgt k r hk hr => ?_, trivial⟩
  · have hnone : (tenantNode.watch .init (.best tenantPath)).current q.nlri = none := by decide
    exact nomatch hnone.symm.trans hold
  · change update (update (fun _ => none) tenantPath.nlri (some tenantPath)) q.nlri (some q) k = some r at hr
    have htenant : tenantPath = p := some.inj hp
    rcases eq_or_ne k q.nlri with rfl | hkq
    · rw [update_self] at hr
      obtain rfl := some.inj hr
      rw [← htenant] at htgt
      exact htgt ▸ by decide
    · rw [update_of_ne hkq, update_of_ne hk] at hr
      cases hr

/-- Two nodes announce the same prefix into one VPC. The first one withdraws its path, and the route goes although the
second path is still best. -/
theorem route_cut :
    let q : Path := { tenantPath with rd := "192.0.2.2:1", sid := some (.replicate 16 2) }
    let s := [.best tenantPath, .best q, .gone tenantPath.nlri].foldl tenantNode.watch .init
    s.current q.nlri = some q ∧ ∃ tgt, tenantNode.target q = some tgt ∧ s.routes.route tgt = none :=
  ⟨by decide, (.vrf 10, (Prefix.ofAddr (.v4 ⟨[172, 16, 0, 0], rfl⟩) 24).masked), by decide, by decide⟩

end Galactic.Evpn
