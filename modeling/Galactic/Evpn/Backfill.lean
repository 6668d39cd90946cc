import Galactic.Evpn.Paths
import Galactic.Lib.Entries

/-!
# The watcher, backfills and retries

The RIB changes, and the watcher is told of every change in order, but later. A backfill lists the RIB at one moment and
processes what it listed one path after the other, while the watcher goes on, and so do retries of failed installs.
Paths have distinct prefixes here.

A listed path that is processed after the watcher has seen it go is installed for good. -/

namespace Galactic.Evpn
open Net List Function VRFRoutes Option

structure Fabric where
  rib : Option Prefix → Option Path
  /-- The events the watcher has still to process, in the order of the changes. -/
  queue : List Path
  routes : Routes
  lists : List (Option Prefix → Option Path)
  /-- What is left of each retry pass's snapshot. -/
  passes : List (VRFRouteKey → Option IP)

def Fabric.init : Fabric := ⟨fun _ => none, [], .empty, [], []⟩

inductive Act
  | announce (p : Path)
  | remove (pfx : Option Prefix)
  | deliver (ok : Bool)
  | list
  | backfill (pass : Nat) (pfx : Option Prefix) (ok : Bool)
  | snapshot
  | attempt (pass : Nat) (key : VRFRouteKey) (ok : Bool)

namespace Node
variable (n : Node)

def step (s : Fabric) : Act → Fabric
  | .announce p =>
    let p := { p with withdrawal := false }
    { s with rib := update s.rib p.pfx (some p), queue := s.queue ++ [p] }
  | .remove pfx =>
    match s.rib pfx with
    | none => s
    | some p =>
      { s with rib := update s.rib pfx none, queue := s.queue ++ [{ p with withdrawal := true }] }
  | .deliver ok =>
    match s.queue with
    | [] => s
    | p :: rest => { s with queue := rest, routes := n.processEVPNPath s.routes p ok }
  | .list => { s with lists := s.lists ++ [s.rib] }
  | .backfill pass pfx ok =>
    match s.lists[pass]?.bind (· pfx) with
    | none => s
    | some p =>
      { s with
        lists := s.lists.modify pass fun l => update l pfx none
        routes := n.processEVPNPath s.routes p ok }
  | .snapshot => { s with passes := s.passes ++ [s.routes.vrf.pending] }
  | .attempt pass key ok =>
    match s.passes[pass]?.bind (· key) with
    | none => s
    | some gw =>
      { s with
        passes := s.passes.modify pass fun snapshot => update snapshot key none
        routes := { s.routes with vrf := s.routes.vrf.retry key gw ok } }

/-- An undelivered event is about the place. -/
def Awaits (s : Fabric) (tgt : RouteInstall × Prefix) : Prop := ∃ q ∈ s.queue, n.target q = some tgt

/-- A new path belongs where the RIB's path belonged; a listed path is still the RIB's, or an event about its place is
undelivered; and an install that fails does not leave a route to another gateway. -/
def Fresh (s : Fabric) : Act → Prop
  | .announce p => ∀ old tgt, s.rib p.pfx = some old → n.target old = some tgt → n.target p = some tgt
  | .deliver ok => ∀ p tgt g, s.queue.head? = some p → n.target p = some tgt → ok = false →
      s.routes.route tgt = some g → g.equal p.evpnGateway
  | .backfill pass pfx _ => ∀ p tgt, s.lists[pass]?.bind (· pfx) = some p → n.target p = some tgt →
      s.rib (some tgt.2) = some p ∨ n.Awaits s tgt
  | _ => True

end Node

/-- A route to the gateway, or a failed install that waits for a retry. -/
def Routes.Toward (r : Routes) (g : IP) : RouteInstall × Prefix → Prop
  | (.vrf tableID, pfx) => r.vrf.routes ⟨tableID, pfx⟩ = some g ∨ r.vrf.pending ⟨tableID, pfx⟩ = some g
  | (.plain, pfx) => r.plain.desired pfx = some g

section Effects
variable {n : Node} {r : Routes} {p : Path} {tgt : RouteInstall × Prefix} {g : IP} {ok : Bool}

theorem Routes.toward_of_route (h : r.route tgt = some g) : r.Toward g tgt := by
  obtain ⟨⟨_⟩ | _, _⟩ := tgt
  · exact .inl h
  · exact h

theorem Node.pfx_of_target (h : n.target p = some tgt) : p.pfx = some tgt.2 := by
  unfold Node.target at h
  split at h
  · cases h
  · obtain ⟨pfx, hpfx, hmap⟩ := bind_eq_some_iff.mp h
    obtain ⟨_, _, rfl⟩ := map_eq_some_iff.mp hmap
    exact hpfx

theorem Node.toward_processEVPNPath (h : (n.processEVPNPath r p ok).Toward g tgt) :
    (n.target p ≠ some tgt ∧ r.Toward g tgt) ∨
      (n.target p = some tgt ∧ p.withdrawal = false ∧ (g = p.evpnGateway ∨ (ok = false ∧ r.route tgt = some g))) := by
  unfold processEVPNPath at h
  split at h
  next htgt => exact .inl ⟨by simp [htgt], h⟩
  all_goals
    next htgt =>
      rw [htgt]
      obtain ⟨⟨_⟩ | _, _⟩ := tgt <;> cases hw : p.withdrawal <;> cases ok <;>
        simp [hw, Routes.Toward, Routes.route, PlainRoutes.set, PlainRoutes.withdraw, install,
          withdraw, update_apply, eq_comm] at h ⊢ <;> grind

theorem Routes.toward_retry {key : VRFRouteKey} {gw : IP}
    (h : Routes.Toward { r with vrf := r.vrf.retry key gw ok } g tgt) : ∃ g', r.Toward g' tgt ∧ g.equal g' := by
  unfold retry at h
  split at h
  next hmay =>
    obtain ⟨g', hp, hg'⟩ := (Option.any_eq_true ..).mp hmay
    obtain ⟨⟨t⟩ | _, pfx⟩ := tgt
    · by_cases hkey : (⟨t, pfx⟩ : VRFRouteKey) = key
      · subst hkey
        cases ok <;> simp [Routes.Toward, install] at h ⊢ <;> grind [IP.equal_symm, IP.equal_refl]
      · refine ⟨g, ?_, g.equal_refl⟩
        cases ok <;> simpa [Routes.Toward, install, update_of_ne hkey] using h
    · exact ⟨g, h, g.equal_refl⟩
  next => exact ⟨g, h, g.equal_refl⟩

end Effects

namespace Node
variable {n : Node} {s : Fabric}

/-- A route leads to the RIB's path, unless an undelivered event is about its place; and the last event about a place
says what the RIB has there. -/
structure Current (n : Node) (s : Fabric) : Prop where
  keyed : ∀ k p, s.rib k = some p → p.pfx = k
  routes : ∀ tgt g, s.routes.Toward g tgt → n.Awaits s tgt ∨
    ∃ p, s.rib (some tgt.2) = some p ∧ n.target p = some tgt ∧ g.equal p.evpnGateway
  queue : ∀ pre q post tgt, s.queue = pre ++ q :: post → n.target q = some tgt → (∀ x ∈ post, n.target x ≠ some tgt) →
    if q.withdrawal then ∀ p, s.rib (some tgt.2) = some p → n.target p ≠ some tgt else s.rib (some tgt.2) = some q

theorem Current.change (h : n.Current s) {k : Option Prefix} {q : Path} (hpfx : q.pfx = k)
    (hold : ∀ old tgt, s.rib k = some old → n.target old = some tgt → n.target q = some tgt) :
    n.Current { s with rib := update s.rib k (if q.withdrawal then none else some q), queue := s.queue ++ [q] } where
  keyed := by
    refine Entries.forall_update (fun p hp => ?_) fun k' _ => h.keyed k'
    split at hp
    · cases hp
    · exact some.inj hp ▸ hpfx
  routes := by
    intro tgt g hg
    rcases h.routes tgt g hg with ⟨x, hx, hxt⟩ | ⟨p, hp, hpt, hpg⟩
    · exact .inl ⟨x, mem_append_left _ hx, hxt⟩
    · by_cases hk : some tgt.2 = k
      · exact .inl ⟨q, mem_append_right _ (mem_singleton_self q), hold p tgt (hk ▸ hp) hpt⟩
      · exact .inr ⟨p, (update_of_ne hk ..).trans hp, hpt, hpg⟩
  queue := by
    intro pre q' post tgt hqueue hq' hpost
    dsimp only at hqueue ⊢
    rcases eq_nil_or_concat post with rfl | ⟨post, x, rfl⟩
    · -- the new event itself
      obtain ⟨-, hq⟩ := append_inj' hqueue rfl
      obtain rfl := (List.cons.inj hq).1
      rw [← pfx_of_target hq', hpfx, update_self]
      cases q.withdrawal <;> simp
    rw [concat_eq_append, ← cons_append, ← append_assoc] at hqueue
    obtain ⟨hrest, hq⟩ := append_inj' hqueue rfl
    obtain rfl := (List.cons.inj hq).1
    have hne : n.target q ≠ some tgt := hpost q (by simp)
    have hbefore := h.queue pre q' post tgt hrest hq' fun y hy => hpost y (by simp [hy])
    by_cases hk : some tgt.2 = k
    · subst hk
      rw [update_self]
      cases hw : q'.withdrawal with
      | true => cases q.withdrawal <;> simp [hne]
      | false =>
        rw [hw] at hbefore
        exact absurd (hold q' tgt hbefore hq') hne
    · rw [update_of_ne hk]
      exact hbefore

/-- Routes are written, each to where one of the same place led, or as the RIB or an undelivered event will have it. -/
theorem Current.write (h : n.Current s) {s' : Fabric} (hrib : s'.rib = s.rib) (hqueue : s'.queue = s.queue)
    (hroutes : ∀ tgt g, s'.routes.Toward g tgt → (∃ g', s.routes.Toward g' tgt ∧ g.equal g') ∨ n.Awaits s tgt ∨
      ∃ p, s.rib (some tgt.2) = some p ∧ n.target p = some tgt ∧ g.equal p.evpnGateway) : n.Current s' where
  keyed := hrib ▸ h.keyed
  routes := by
    intro tgt g hg
    rw [Awaits, hrib, hqueue]
    rcases hroutes tgt g hg with ⟨g', hg', heq⟩ | hother
    · rcases h.routes tgt g' hg' with hawaits | ⟨p, hp, hpt, hpg⟩
      · exact .inl hawaits
      · exact .inr ⟨p, hp, hpt, IP.equal_trans heq hpg⟩
    · exact hother
  queue := by
    rw [hrib, hqueue]
    exact h.queue

theorem Current.deliver (h : n.Current s) {p : Path} {rest : List Path} (hqueue : s.queue = p :: rest) {ok : Bool}
    (hfresh : n.Fresh s (.deliver ok)) :
    n.Current { s with queue := rest, routes := n.processEVPNPath s.routes p ok } where
  keyed := h.keyed
  routes := by
    intro tgt g hg
    by_cases hawaits : ∃ x ∈ rest, n.target x = some tgt
    · exact .inl hawaits
    refine .inr ?_
    rcases toward_processEVPNPath hg with ⟨hne, hold⟩ | ⟨hpt, hw, hgw⟩
    · rcases h.routes tgt g hold with ⟨x, hx, hxt⟩ | hrib
      · rw [hqueue, mem_cons] at hx
        rcases hx with rfl | hx
        · exact absurd hxt hne
        · exact absurd ⟨x, hx, hxt⟩ hawaits
      · exact hrib
    -- the last event about the place: it says what the RIB has
    have hrib := h.queue [] p rest tgt hqueue hpt fun x hx hxt => hawaits ⟨x, hx, hxt⟩
    rw [hw] at hrib
    refine ⟨p, hrib, hpt, ?_⟩
    rcases hgw with rfl | ⟨hok, hroute⟩
    · exact IP.equal_refl _
    · exact hfresh p tgt g (by rw [hqueue]; rfl) hpt hok hroute
  queue := fun pre q post tgt hrest => h.queue (p :: pre) q post tgt (hqueue.trans (congrArg (p :: ·) hrest))

theorem Current.step (h : n.Current s) (a : Act) (hfresh : n.Fresh s a) : n.Current (n.step s a) := by
  cases a with
  | announce p => exact h.change (q := { p with withdrawal := false }) rfl hfresh
  | remove pfx =>
    simp only [Node.step]
    cases hrib : s.rib pfx with
    | none => exact h
    | some p =>
      refine h.change (q := { p with withdrawal := true }) (h.keyed pfx p hrib) fun old tgt hold htgt => ?_
      obtain rfl := mem_unique hrib hold
      exact htgt
  | deliver ok =>
    simp only [Node.step]
    cases hqueue : s.queue with
    | nil => exact h
    | cons p rest => exact h.deliver hqueue hfresh
  | list | snapshot => exact ⟨h.keyed, h.routes, h.queue⟩
  | backfill pass pfx ok =>
    simp only [Node.step]
    cases hp : s.lists[pass]?.bind (· pfx) with
    | none => exact h
    | some p =>
      refine h.write rfl rfl fun tgt g hg => ?_
      rcases toward_processEVPNPath hg with ⟨-, hold⟩ | ⟨hpt, -, rfl | ⟨-, hroute⟩⟩
      · exact .inl ⟨g, hold, g.equal_refl⟩
      · exact .inr ((hfresh p tgt hp hpt).symm.imp_right fun hrib => ⟨p, hrib, hpt, IP.equal_refl _⟩)
      · exact .inl ⟨g, Routes.toward_of_route hroute, g.equal_refl⟩
  | attempt pass key ok =>
    simp only [Node.step]
    cases s.passes[pass]?.bind (· key) with
    | none => exact h
    | some gw => exact h.write rfl rfl fun tgt g hg => .inl (Routes.toward_retry hg)

end Node

/-- Once every event is delivered, each route leads to the gateway of the path that is best for its prefix. -/
theorem listed_routes_current (n : Node) (acts : List Act) (h : StepRun.Meets n.step n.Fresh .init acts)
    (hdelivered : (acts.foldl n.step .init).queue = []) (tgt : RouteInstall × Prefix) (g : IP)
    (hroute : (acts.foldl n.step .init).routes.route tgt = some g) :
    ∃ p, (acts.foldl n.step .init).rib (some tgt.2) = some p ∧ n.target p = some tgt ∧ g.equal p.evpnGateway := by
  have hinit : n.Current .init := by
    refine ⟨fun _ _ hp => (nomatch hp), fun tgt g hg => ?_, fun pre q post tgt hqueue => ?_⟩
    · obtain ⟨⟨_⟩ | _, _⟩ := tgt
      · exact hg.elim nofun nofun
      · cases hg
    · exact absurd hqueue (by simp [Fabric.init])
  have hcurrent := (h.always (fun s a hs hfresh => hs.step a hfresh) hinit).last
  rcases hcurrent.routes tgt g (Routes.toward_of_route hroute) with ⟨x, hx, -⟩ | hrib
  · rw [hdelivered] at hx
    cases hx
  · exact hrib

theorem listed_routes_current_tenant :
    let s := [.announce tenantPath, .deliver true, .list, .backfill 0 tenantPath.pfx true].foldl tenantNode.step .init
    ∃ tgt, s.routes.route tgt = some (.replicate 16 1) ∧ ∃ p, s.rib (some tgt.2) = some p ∧
      tenantNode.target p = some tgt ∧ IP.equal (.replicate 16 1) p.evpnGateway := by
  refine ⟨_, by decide, listed_routes_current tenantNode
    [.announce tenantPath, .deliver true, .list, .backfill 0 tenantPath.pfx true]
    ⟨fun _ _ h => (nomatch h), fun _ _ _ _ _ h => (nomatch h), trivial, fun q tgt hq ht => .inl ?_, trivial⟩ rfl
    (.vrf 10, (Prefix.ofAddr (.v4 ⟨[172, 16, 0, 0], rfl⟩) 24).masked) _ (by decide)⟩
  cases hq
  rw [← Node.pfx_of_target ht]
  rfl

/-- A backfill lists a path, the path is withdrawn and the watcher removes its route; then the backfill comes to it. -/
theorem withdrawn_resurrected :
    let s := [.announce tenantPath, .deliver true, .list, .remove tenantPath.pfx, .deliver true,
      .backfill 0 tenantPath.pfx true].foldl tenantNode.step .init
    s.queue = [] ∧ s.lists.all (· tenantPath.pfx = none) ∧ s.rib tenantPath.pfx = none ∧
      ∃ tgt, tenantNode.target tenantPath = some tgt ∧ s.routes.route tgt = some tenantPath.evpnGateway :=
  ⟨rfl, by decide, by decide, (.vrf 10, (Prefix.ofAddr (.v4 ⟨[172, 16, 0, 0], rfl⟩) 24).masked), by decide, by decide⟩

end Galactic.Evpn
