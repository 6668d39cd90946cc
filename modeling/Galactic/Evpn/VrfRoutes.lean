import Galactic.Net.Addr

/-!
# Tenant routes and their retries

`vrfRoutes` writes the tenant routes of the node into `egress_route_table` and remembers those whose install failed. Its
callers and any number of retry passes run at the same time, but every change is made under one mutex, so a run is a
sequence of these changes. A pass works through a snapshot of the pending routes. -/

namespace Galactic.Net

def IP.equal (x y : IP) : Bool :=
  if x.length = y.length then x = y
  else if x.length = ipv4Len ∧ y.length = ipv6Len then y.take 12 = v4InV6Prefix ∧ x = y.drop 12
  else if x.length = ipv6Len ∧ y.length = ipv4Len then x.take 12 = v4InV6Prefix ∧ x.drop 12 = y
  else false

theorem IP.equal_iff (x y : IP) : x.equal y ↔ x.to4.getD x = y.to4.getD y := by
  unfold IP.equal IP.to4
  have hx := List.take_append_drop 12 x
  have hy := List.take_append_drop 12 y
  have hxlen := x.length_drop (i := 12)
  have hylen := y.length_drop (i := 12)
  simp only [ipv4Len, ipv6Len]
  grind

@[simp] theorem IP.equal_refl (x : IP) : x.equal x := (equal_iff x x).mpr rfl

theorem IP.equal_trans {x y z : IP} (h : x.equal y) (h' : y.equal z) : x.equal z :=
  (equal_iff x z).mpr (((equal_iff x y).mp h).trans ((equal_iff y z).mp h'))

theorem IP.equal_symm {x y : IP} (h : x.equal y) : y.equal x := (equal_iff y x).mpr ((equal_iff x y).mp h).symm

end Galactic.Net

namespace Galactic.Evpn
open Net Function List

/-- One tenant route: its prefix in one VRF's table. -/
structure VRFRouteKey where
  tableID : UInt32
  pfx : Prefix
  deriving DecidableEq

/-- `vrfRoutes`, with the rows of `egress_route_table` it writes and the writes made so far, newest first. -/
structure VRFRoutes where
  pending : VRFRouteKey → Option IP
  routes : VRFRouteKey → Option IP
  written : List (VRFRouteKey × IP)

namespace VRFRoutes

def new (rows : VRFRouteKey → Option IP) : VRFRoutes := ⟨fun _ => none, rows, []⟩

/-- `installLocked`; `ok` is how `vrfRouteAdd` ends, which changes nothing when it fails. -/
def install (v : VRFRoutes) (key : VRFRouteKey) (gw : IP) (ok : Bool) : VRFRoutes :=
  if ok then
    ⟨update v.pending key none, update v.routes key (some gw), (key, gw) :: v.written⟩
  else { v with pending := update v.pending key (some gw) }

def withdraw (v : VRFRoutes) (key : VRFRouteKey) : VRFRoutes :=
  { v with pending := update v.pending key none, routes := update v.routes key none }

def forgetTable (v : VRFRoutes) (tableID : UInt32) : VRFRoutes :=
  { v with pending := fun key => if key.tableID = tableID then none else v.pending key }

/-- One turn of the loop of `retryPending`, for a route of its snapshot. -/
def retry (v : VRFRoutes) (key : VRFRouteKey) (gw : IP) (ok : Bool) : VRFRoutes :=
  if (v.pending key).any (·.equal gw) then v.install key gw ok else v

end VRFRoutes

/-! ### Runs -/

/-- What one holder of the mutex does. -/
inductive Turn
  | install (key : VRFRouteKey) (gw : IP) (ok : Bool)
  | withdraw (key : VRFRouteKey)
  | forgetTable (tableID : UInt32)
  /-- A `retryPending` pass takes its snapshot. -/
  | begin
  | attempt (pass : Nat) (key : VRFRouteKey) (ok : Bool)

/-- The routes, and what is left of each pass's snapshot. -/
structure Retrying where
  vrf : VRFRoutes
  passes : List (VRFRouteKey → Option IP)

def Retrying.step (s : Retrying) : Turn → Retrying
  | .install key gw ok => { s with vrf := s.vrf.install key gw ok }
  | .withdraw key => { s with vrf := s.vrf.withdraw key }
  | .forgetTable tableID => { s with vrf := s.vrf.forgetTable tableID }
  | .begin => { s with passes := s.passes ++ [s.vrf.pending] }
  | .attempt pass key ok =>
    match s.passes[pass]?.bind (· key) with
    | none => s
    | some gw =>
      { vrf := s.vrf.retry key gw ok, passes := s.passes.modify pass fun snapshot => update snapshot key none }

def Retrying.run (rows : VRFRouteKey → Option IP) (turns : List Turn) : Retrying := turns.foldl step ⟨.new rows, []⟩

inductive Command
  | install (gw : IP)
  | withdraw
  | forget

/-- What a turn commands for the key; the turns of a retry pass command nothing. -/
def Turn.command (key : VRFRouteKey) : Turn → Option Command
  | .install k gw _ => if k = key then some (.install gw) else none
  | .withdraw k => if k = key then some .withdraw else none
  | .forgetTable tableID => if key.tableID = tableID then some .forget else none
  | .begin => none
  | .attempt _ _ _ => none

def latest (key : VRFRouteKey) (turns : List Turn) : Option Command := turns.reverse.findSome? (·.command key)

def VRFRoutes.Follows (v : VRFRoutes) (key : VRFRouteKey) : Option Command → Prop
  | some (.install gw) => (∃ p, v.pending key = some p ∧ p.equal gw) ∨
      (v.pending key = none ∧ ∃ g, v.routes key = some g ∧ g.equal gw)
  | some .withdraw => v.pending key = none ∧ v.routes key = none
  | _ => v.pending key = none

section Steps
variable {v : VRFRoutes} {key k : VRFRouteKey} {gw : IP} {c : Option Command} {x : VRFRouteKey × IP}

theorem latest_append (turns : List Turn) (t : Turn) :
    latest key (turns ++ [t]) = (t.command key).or (latest key turns) := by
  rw [latest, reverse_append, reverse_singleton, singleton_append, findSome?_cons]
  cases t.command key <;> rfl

theorem VRFRoutes.Follows.congr {w : VRFRoutes} (h : v.Follows key c) (hp : w.pending key = v.pending key)
    (hr : w.routes key = v.routes key) : w.Follows key c := by
  unfold VRFRoutes.Follows at h ⊢
  rw [hp, hr]
  exact h

theorem VRFRoutes.follows_install (v : VRFRoutes) (key : VRFRouteKey) (gw : IP) (ok : Bool) :
    (v.install key gw ok).Follows key (some (.install gw)) := by
  cases ok with
  | false => exact .inl ⟨gw, update_self .., gw.equal_refl⟩
  | true => exact .inr ⟨update_self .., gw, update_self .., gw.equal_refl⟩

theorem VRFRoutes.Follows.install_ne (h : v.Follows key c) (hk : key ≠ k) (ok : Bool) :
    (v.install k gw ok).Follows key c := by
  cases ok with
  | false => exact h.congr (update_of_ne hk ..) rfl
  | true => exact h.congr (update_of_ne hk ..) (update_of_ne hk ..)

theorem VRFRoutes.Follows.pending {g : IP} (h : v.Follows key c) (hp : v.pending key = some g) :
    ∃ gw, c = some (.install gw) ∧ g.equal gw := by
  match c, h with
  | some (.install gw), .inl ⟨p, hpend, heq⟩ =>
    obtain rfl := Option.mem_unique hp hpend
    exact ⟨gw, rfl, heq⟩
  | some (.install _), .inr ⟨hpend, _⟩ => simp [hp] at hpend
  | some .withdraw, ⟨hpend, _⟩ => simp [hp] at hpend
  | some .forget, hpend | none, hpend => simp [VRFRoutes.Follows, hp] at hpend

theorem VRFRoutes.Follows.of_equal {gw' : IP} (h : v.Follows key (some (.install gw))) (heq : gw.equal gw') :
    v.Follows key (some (.install gw')) := by
  rcases h with ⟨p, hp, hpgw⟩ | ⟨hp, g, hg, hggw⟩
  · exact .inl ⟨p, hp, IP.equal_trans hpgw heq⟩
  · exact .inr ⟨hp, g, hg, IP.equal_trans hggw heq⟩

theorem VRFRoutes.Follows.attempt (h : v.Follows key c) (hmay : (v.pending key).any (·.equal gw)) :
    ∃ gw', c = some (.install gw') ∧ gw.equal gw' := by
  obtain ⟨g, hp, hg⟩ := (Option.any_eq_true ..).mp hmay
  obtain ⟨gw', hc, hgw'⟩ := h.pending hp
  exact ⟨gw', hc, IP.equal_trans (IP.equal_symm hg) hgw'⟩

theorem VRFRoutes.Follows.retry (h : v.Follows key c) (k : VRFRouteKey) (gw : IP) (ok : Bool) :
    (v.retry k gw ok).Follows key c := by
  unfold VRFRoutes.retry
  split
  next hmay =>
    by_cases hk : key = k
    · subst hk
      obtain ⟨gw', rfl, heq⟩ := h.attempt hmay
      exact (v.follows_install key gw ok).of_equal heq
    · exact h.install_ne hk ok
  next => exact h

theorem VRFRoutes.Follows.step {s : Retrying} (h : s.vrf.Follows key c) (t : Turn) :
    (s.step t).vrf.Follows key ((t.command key).or c) := by
  cases t with
  | install k gw ok =>
    by_cases hk : k = key
    · subst hk
      simpa [Turn.command, Retrying.step] using s.vrf.follows_install k gw ok
    · simpa [Turn.command, Retrying.step, hk] using h.install_ne (Ne.symm hk) ok
  | withdraw k =>
    by_cases hk : k = key
    · subst hk
      simp [Turn.command, Retrying.step, VRFRoutes.withdraw, VRFRoutes.Follows]
    · simpa [Turn.command, Retrying.step, hk] using h.congr (w := s.vrf.withdraw k) (update_of_ne (Ne.symm hk) ..)
        (update_of_ne (Ne.symm hk) ..)
  | forgetTable tableID =>
    by_cases hk : key.tableID = tableID
    · simp [Turn.command, Retrying.step, VRFRoutes.forgetTable, VRFRoutes.Follows, hk]
    · simpa [Turn.command, Retrying.step, hk] using h.congr (w := s.vrf.forgetTable tableID) (if_neg hk) rfl
  | begin => exact h
  | attempt pass k ok =>
    show VRFRoutes.Follows (Retrying.step s (.attempt pass k ok)).vrf key c
    unfold Retrying.step
    dsimp only
    split
    · exact h
    · exact h.retry k _ ok

theorem VRFRoutes.written_install {ok : Bool} (h : (v.install k gw ok).written = x :: v.written) : x = (k, gw) := by
  cases ok with
  | false => exact absurd h ne_cons_self
  | true => exact (cons.inj h).1.symm

end Steps

theorem Retrying.run_append (rows : VRFRouteKey → Option IP) (turns : List Turn) (t : Turn) :
    run rows (turns ++ [t]) = (run rows turns).step t := foldl_concat ..

theorem Retrying.run_follows (rows : VRFRouteKey → Option IP) (turns : List Turn) (key : VRFRouteKey) :
    (run rows turns).vrf.Follows key (latest key turns) := by
  induction turns using reverseRecOn with
  | nil => rfl
  | append_singleton turns t ih =>
    rw [run_append, latest_append]
    exact ih.step t

/-- After every turn each key is where its latest command wants it: toward the install's gateway, or pending with
it; without a route and not pending after a withdrawal; not pending after its table is forgotten. And whatever a
turn writes is for the gateway of the key's latest command, an install. -/
theorem retries_follow (rows : VRFRouteKey → Option IP) (turns : List Turn) :
    (∀ key, (Retrying.run rows turns).vrf.Follows key (latest key turns)) ∧
    ∀ t key gw, (Retrying.run rows (turns ++ [t])).vrf.written = (key, gw) :: (Retrying.run rows turns).vrf.written →
      ∃ gw', latest key (turns ++ [t]) = some (.install gw') ∧ gw.equal gw' := by
  refine ⟨Retrying.run_follows rows turns, fun t key gw h => ?_⟩
  rw [Retrying.run_append] at h
  rw [latest_append]
  cases t with
  | install k g ok =>
    obtain ⟨rfl, rfl⟩ := Prod.mk.inj (VRFRoutes.written_install h)
    exact ⟨gw, by simp [Turn.command], gw.equal_refl⟩
  | withdraw k | forgetTable tableID | begin => exact absurd h List.ne_cons_self
  | attempt pass k ok =>
    unfold Retrying.step at h
    dsimp only at h
    split at h
    · exact absurd h List.ne_cons_self
    unfold VRFRoutes.retry at h
    split at h
    next hmay =>
      obtain ⟨rfl, rfl⟩ := Prod.mk.inj (VRFRoutes.written_install h)
      exact (Retrying.run_follows rows turns key).attempt hmay
    next => exact absurd h List.ne_cons_self

end Galactic.Evpn
