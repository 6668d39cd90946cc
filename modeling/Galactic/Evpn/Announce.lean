import Galactic.Lib.StepRun
import Galactic.Net.Parse

/-!
# Local routes and the server they were announced to

`Apply` announces the routes of the desired advertisements and remembers them in `appliedRoutes`; at the next call it
withdraws what nobody claims any more and announces what is new or differs. A new ASN, router ID or listen port makes
`applyGlobal` replace the server by an empty one, but what is remembered stays. A route wanted again as it was is then
not announced to the new server.

The path of a route has its prefix as it is written, host bits included. Calls of GoBGP succeed, advertisements parse
and no lease expires. -/

namespace Galactic.Evpn
open Net List

structure PrefixText where
  text : String
  pfx : Prefix
  parsed : parsePrefix text.toList = some pfx

/-- What the path of an advertisement carries besides its prefix. -/
structure Attributes where
  nextHop : String
  srv6SID : String
  communities : List String
  localPreference : Option UInt32
  deriving DecidableEq

structure DesiredAdvertisement where
  name : String
  /-- Whether the address family is `l2vpn`. -/
  l2vpn : Bool
  vrfID : Option Int32
  prefixes : List PrefixText
  attrs : Attributes

structure DesiredRouter where
  localASN : Int
  routerID : String
  listenPort : Option Int32
  advertisements : List DesiredAdvertisement

def deriveRD (routerID : String) (vrfID : Option Int32) : String := routerID ++ ":" ++ vrfID.elim "0" toString

structure EvpnRouteKey where
  rd : String
  pfx : Prefix
  deriving DecidableEq

/-- The single-prefix advertisement and the router ID. -/
structure EvpnRoute where
  name : String
  text : String
  vrfID : Option Int32
  attrs : Attributes
  routerID : String
  deriving DecidableEq

def sameEVPNRoute (a b : EvpnRoute) : Bool := { a with name := "" } = { b with name := "" }

namespace DesiredRouter
variable (d : DesiredRouter)

/-- The `l2vpn` advertisements, by name. -/
def evpn : List DesiredAdvertisement := (d.advertisements.filter (·.l2vpn)).insertionSort (·.name ≤ ·.name)

def claims (adv : DesiredAdvertisement) : List (EvpnRouteKey × EvpnRoute) :=
  adv.prefixes.map fun p =>
    (⟨deriveRD d.routerID adv.vrfID, p.pfx⟩, ⟨adv.name, p.text, adv.vrfID, adv.attrs, d.routerID⟩)

def desiredEVPNRoutes (key : EvpnRouteKey) : Option EvpnRoute := (d.evpn.flatMap d.claims).lookup key

/-- The path that there is to be: that of the first advertisement that claims the route. -/
def wanted (key : EvpnRouteKey) : Option Attributes :=
  (d.evpn.find? fun adv =>
    deriveRD d.routerID adv.vrfID = key.rd ∧ ∃ p ∈ adv.prefixes, p.pfx.masked = key.pfx).map (·.attrs)

/-- No prefix of an `l2vpn` advertisement has host bits. -/
def Masked : Prop := ∀ adv ∈ d.evpn, ∀ p ∈ adv.prefixes, p.pfx.masked = p.pfx

end DesiredRouter

/-- The runtime, and the locally originated EVPN paths of the server that is running. -/
structure Speaker where
  lastASN : Int
  lastRouterID : String
  lastListenPort : Int32
  appliedRoutes : EvpnRouteKey → Option EvpnRoute
  paths : EvpnRouteKey → Option Attributes
  desired : DesiredRouter
  applied : appliedRoutes = desired.desiredEVPNRoutes

namespace Speaker

def init : Speaker := ⟨0, "", 0, fun _ => none, fun _ => none, ⟨0, "", none, []⟩, rfl⟩

variable (listenPort : Int32) (s : Speaker) (d : DesiredRouter)

def Replaces : Prop :=
  (s.lastASN ≠ 0 ∧ s.lastASN ≠ d.localASN) ∨ (s.lastRouterID ≠ "" ∧ s.lastRouterID ≠ d.routerID) ∨
    (s.lastListenPort ≠ 0 ∧ s.lastListenPort ≠ d.listenPort.getD listenPort)

instance : Decidable (s.Replaces listenPort d) := inferInstanceAs (Decidable (_ ∨ _))

def applyGlobal : Speaker :=
  { s with
    lastASN := d.localASN
    lastRouterID := d.routerID
    lastListenPort := d.listenPort.getD listenPort
    paths := if s.Replaces listenPort d then fun _ => none else s.paths }

/-- The loops over the applied and the desired routes, whose turns are about one key each. -/
def applyEVPN : Speaker where
  __ := s
  appliedRoutes := d.desiredEVPNRoutes
  paths := fun key =>
    match d.desiredEVPNRoutes key with
    | none => if (s.appliedRoutes key).isSome then none else s.paths key
    | some route => if (s.appliedRoutes key).any (sameEVPNRoute · route) then s.paths key else some route.attrs
  desired := d
  applied := rfl

def apply : Speaker := (s.applyGlobal listenPort d).applyEVPN d

/-- The paths are those of the routes that the desired advertisements claim. -/
def Converged : Prop := ∀ key, s.paths key = s.desired.wanted key

/-- A call that replaces the server wants no route again as it was. -/
def Anew : Prop :=
  s.Replaces listenPort d → ∀ key a r, s.appliedRoutes key = some a → d.desiredEVPNRoutes key = some r →
    sameEVPNRoute a r = false

end Speaker

/-! ### Proofs -/

theorem attrs_of_same {a b : EvpnRoute} (h : sameEVPNRoute a b) : a.attrs = b.attrs := by
  have heq : { a with name := "" } = { b with name := "" } := of_decide_eq_true h
  exact (EvpnRoute.mk.inj heq).2.2.2.1

namespace DesiredRouter
variable {d : DesiredRouter}

theorem lookup_claims {adv : DesiredAdvertisement} (hmasked : ∀ p ∈ adv.prefixes, p.pfx.masked = p.pfx)
    (key : EvpnRouteKey) :
    ((d.claims adv).lookup key).map (·.attrs) =
      if deriveRD d.routerID adv.vrfID = key.rd ∧ ∃ p ∈ adv.prefixes, p.pfx.masked = key.pfx then some adv.attrs
      else none := by
  unfold claims
  generalize adv.prefixes = ps at hmasked ⊢
  induction ps with
  | nil => simp
  | cons p ps ih =>
    obtain ⟨hp, hps⟩ := forall_mem_cons.mp hmasked
    rw [map_cons, lookup_cons]
    by_cases hkey : key = ⟨deriveRD d.routerID adv.vrfID, p.pfx⟩
    · subst hkey
      simp [hp]
    have hne : ¬ (deriveRD d.routerID adv.vrfID = key.rd ∧ p.pfx = key.pfx) := by
      rintro ⟨hrd, hpfx⟩
      exact hkey (by rw [hrd, hpfx])
    rw [beq_eq_false_iff_ne.mpr hkey]
    simp only [ih hps, mem_cons, exists_eq_or_imp, hp]
    grind

theorem attrs_desiredEVPNRoutes (hmasked : d.Masked) (key : EvpnRouteKey) :
    (d.desiredEVPNRoutes key).map (·.attrs) = d.wanted key := by
  unfold Masked at hmasked
  unfold desiredEVPNRoutes wanted
  generalize d.evpn = advs at hmasked ⊢
  induction advs with
  | nil => rfl
  | cons adv advs ih =>
    obtain ⟨hadv, hadvs⟩ := forall_mem_cons.mp hmasked
    rw [flatMap_cons, lookup_append, find?_cons, Option.map_or, lookup_claims hadv key]
    split_ifs with hclaims
    · rw [decide_eq_true hclaims]
      rfl
    · rw [decide_eq_false hclaims, ih hadvs]
      rfl

theorem desiredEVPNRoutes_isSome {adv : DesiredAdvertisement} (hadv : adv ∈ d.evpn) {p : PrefixText}
    (hp : p ∈ adv.prefixes) : (d.desiredEVPNRoutes ⟨deriveRD d.routerID adv.vrfID, p.pfx⟩).isSome := by
  rw [Option.isSome_iff_ne_none]
  intro hnone
  exact absurd rfl (bne_iff_ne.mp (lookup_eq_none_iff.mp hnone _ (mem_flatMap.mpr ⟨adv, hadv, mem_map_of_mem hp⟩)))

theorem wanted_eq_none {pfx : Prefix} (h : pfx.masked ≠ pfx) (d : DesiredRouter) (rd : String) :
    d.wanted ⟨rd, pfx⟩ = none := by
  rw [wanted, Option.map_eq_none_iff, find?_eq_none]
  intro adv _ hclaims
  obtain ⟨-, p, -, rfl⟩ := of_decide_eq_true hclaims
  exact h p.pfx.masked_masked

end DesiredRouter

namespace Speaker
variable {listenPort : Int32} {s : Speaker} {d : DesiredRouter}

theorem converged_iff (hmasked : s.desired.Masked) :
    s.Converged ↔ ∀ key, s.paths key = (s.appliedRoutes key).map (·.attrs) := by
  simp only [Converged, s.applied, DesiredRouter.attrs_desiredEVPNRoutes hmasked]

theorem Converged.masked (h : s.Converged) (hs : s.desired.Masked) (h' : (s.apply listenPort d).Converged) :
    d.Masked := by
  intro adv hadv p hp
  by_contra hhost
  -- the path keeps the host bits, which nothing that is wanted has
  have hkey := h' ⟨deriveRD d.routerID adv.vrfID, p.pfx⟩
  have hfresh : s.appliedRoutes ⟨deriveRD d.routerID adv.vrfID, p.pfx⟩ = none := by
    rw [← Option.map_eq_none_iff, ← (converged_iff hs).mp h, h, DesiredRouter.wanted_eq_none hhost]
  obtain ⟨r, hr⟩ := Option.isSome_iff_exists.mp (DesiredRouter.desiredEVPNRoutes_isSome hadv hp)
  rw [DesiredRouter.wanted_eq_none hhost] at hkey
  simp [Speaker.apply, applyEVPN, applyGlobal, hr, hfresh] at hkey

theorem Converged.apply (h : s.Converged) (hs : s.desired.Masked) (hd : d.Masked) :
    (s.apply listenPort d).Converged ↔ s.Anew listenPort d := by
  rw [converged_iff hs] at h
  rw [converged_iff hd]
  by_cases hnew : s.Replaces listenPort d
  · have hpaths : (s.applyGlobal listenPort d).paths = fun _ => none := if_pos hnew
    constructor
    · intro h' _ key a r ha hr
      have := h' key
      simp only [Speaker.apply, applyEVPN, hpaths, hr] at this
      simpa [applyGlobal, ha] using this
    intro hanew key
    simp only [Speaker.apply, applyEVPN, hpaths]
    cases hr : d.desiredEVPNRoutes key with
    | none => simp
    | some r =>
      have hnone : (s.appliedRoutes key).any (sameEVPNRoute · r) = false := by
        cases ha : s.appliedRoutes key with
        | none => rfl
        | some a => exact hanew hnew key a r ha hr
      simp [applyGlobal, hnone]
  · have hpaths : (s.applyGlobal listenPort d).paths = s.paths := if_neg hnew
    refine ⟨fun _ hreplaces => absurd hreplaces hnew, fun _ key => ?_⟩
    simp only [Speaker.apply, applyEVPN, hpaths, h key]
    -- what stays announced has the attributes of the route that is wanted
    cases hr : d.desiredEVPNRoutes key <;> cases ha : s.appliedRoutes key <;> simp [applyGlobal, ha]
    exact fun hsame => attrs_of_same hsame

end Speaker

/-- After every call the server has exactly the paths of the routes that are claimed, iff no call wants a prefix with
host bits and no call that replaces the server wants a route again as it was. -/
theorem paths_converge_iff (listenPort : Int32) (calls : List DesiredRouter) :
    StepRun.Always (Speaker.apply listenPort) Speaker.Converged .init calls ↔
      StepRun.Meets (Speaker.apply listenPort) (fun s d => d.Masked ∧ s.Anew listenPort d) .init calls :=
  StepRun.always_iff_meets_of (I := fun s => s.Converged ∧ s.desired.Masked)
    (fun _ _ h _ hd => ⟨(h.1.apply h.2 hd.1).mpr hd.2, hd.1⟩) (fun _ h => h.1)
    (fun _ _ h h' => have hd := h.1.masked h.2 h'; ⟨hd, (h.1.apply h.2 hd).mp h'⟩)
    ⟨fun _ => rfl, fun _ hadv => nomatch hadv⟩ StepRun.meets_true

def tenantPrefix : PrefixText where
  text := "fd00::/64"
  pfx := Prefix.ofAddr (.v6 ⟨0xfd :: List.replicate 15 0, rfl⟩ "") 64
  parsed := by decide

def tenantAttributes : Attributes := ⟨"2001:db8::9", "", ["65000:1"], none⟩

def tenantRouter (asn : Int) : DesiredRouter :=
  ⟨asn, "192.0.2.9", none, [⟨"a", true, some 7, [tenantPrefix], tenantAttributes⟩]⟩

/-- The server is replaced while no route is wanted. -/
theorem paths_converge_between :
    StepRun.Always (Speaker.apply 179) Speaker.Converged .init
      [tenantRouter 65000, ⟨65001, "192.0.2.9", none, []⟩, tenantRouter 65001] :=
  have hmasked (asn : Int) : (tenantRouter asn).Masked := by
    rintro adv hadv p hp
    obtain rfl := mem_singleton.mp ((perm_insertionSort ..).mem_iff.mp hadv)
    obtain rfl := mem_singleton.mp hp
    decide
  (paths_converge_iff 179 _).mpr ⟨⟨hmasked _, fun h => absurd h (by decide)⟩,
    ⟨fun _ hadv => (nomatch hadv), fun _ _ _ _ _ hr => nomatch hr⟩, ⟨hmasked _, fun h => absurd h (by decide)⟩, trivial⟩

/-- The ASN changes and nothing else: the new server gets no path. -/
theorem asn_change_silences :
    let s := [tenantRouter 65000, tenantRouter 65001].foldl (Speaker.apply 179) .init
    s.desired.wanted ⟨"192.0.2.9:7", tenantPrefix.pfx⟩ = some tenantAttributes ∧
      s.paths ⟨"192.0.2.9:7", tenantPrefix.pfx⟩ = none :=
  ⟨by decide, by decide⟩

end Galactic.Evpn
