import Galactic.Gateway.EdgeMaps

/-!
# Owned addresses

`vip_owned_table` blocks or leases the addresses that a gateway owns. A key is the sixteen bytes of `toWireAddr`, and
`OwnedVIPs` returns it as it stands: an IPv4 address comes back mapped, in the form that `toWireAddr` refuses. -/

namespace Galactic.Gateway

open Net List Function

structure OwnedValue where
  generation : UInt64 := 0
  expiresAtNs : UInt64 := 0
  blocked : UInt8
  deriving DecidableEq

abbrev OwnedTable := List UInt8 → Option OwnedValue

/-- The first loop of `ReplaceOwnedVIPs`: a row that is there keeps its block and its lease. -/
def claimOwned (generation : UInt64) : List Addr → OwnedTable → Option Err × OwnedTable
  | [], t => (none, t)
  | addr :: addrs, t =>
    match toWireAddr addr with
    | none => (some (.vip addr), t)
    | some raw => claimOwned generation addrs (update t raw (some { (t raw).getD { blocked := 1 } with generation }))

def live (addrs : List Addr) (k : List UInt8) : Bool := addrs.any (toWireAddr · = some k)

/-- `ReplaceOwnedVIPs`; its second loop deletes the rows that are not live. -/
def replaceOwnedVIPs (t : OwnedTable) (addrs : List Addr) (generation : UInt64) : Option Err × OwnedTable :=
  let r := claimOwned generation addrs t
  if r.1.isSome then r else (none, fun k => if live addrs k then r.2 k else none)

def ownedVIPLease : UInt64 := 30000000000

def OwnedValue.renew (v : OwnedValue) (clock : UInt64) : OwnedValue :=
  { v with blocked := 0, expiresAtNs := clock + ownedVIPLease }

/-- `SetBlockedVIPs`; `clock k` is what the clock says at the turn of row `k`. -/
def setBlockedVIPs (clock : List UInt8 → UInt64) (t : OwnedTable) (addrs : List Addr) : OwnedTable := fun k =>
  (t k).map fun v =>
    if addrs.length = 0 then v.renew (clock k) else if k ∈ addrs.map Addr.as16 then { v with blocked := 1 } else v

def renewVIPs (clock : List UInt8 → UInt64) : List Addr → OwnedTable → Option Err × OwnedTable
  | [], t => (none, t)
  | addr :: addrs, t =>
    match toWireAddr addr with
    | none => (some (.vip addr), t)
    | some raw =>
      match t raw with
      | none => (some .mapOperation, t)
      | some v => renewVIPs clock addrs (update t raw (some (v.renew (clock raw))))

/-- `OwnedVIPs` of a table that is iterated as `rows`. -/
def ownedVIPs (rows : List (List UInt8)) : List Addr := rows.map fun raw => (Addr.ofBytes raw).getD .zero

variable {t : OwnedTable} {addrs : List Addr} {addr : Addr} {generation : UInt64} {k : List UInt8}

theorem wired_of_claimOwned (h : (claimOwned generation addrs t).1 = none) :
    ∀ addr ∈ addrs, (toWireAddr addr).isSome := by
  induction addrs generalizing t with
  | nil => simp
  | cons addr addrs ih =>
    cases hraw : toWireAddr addr with
    | none => simp [claimOwned, hraw] at h
    | some raw =>
      rw [claimOwned, hraw] at h
      exact forall_mem_cons.mpr ⟨by rw [hraw]; rfl, ih h⟩

theorem claimOwned_eq (h : ∀ addr ∈ addrs, (toWireAddr addr).isSome) : claimOwned generation addrs t =
    (none, fun k => if live addrs k then some { (t k).getD { blocked := 1 } with generation } else t k) := by
  induction addrs generalizing t with
  | nil => rfl
  | cons addr addrs ih =>
    obtain ⟨hsome, h⟩ := forall_mem_cons.mp h
    obtain ⟨raw, hraw⟩ := Option.isSome_iff_exists.mp hsome
    simp only [claimOwned, hraw]
    refine (ih h).trans (congrArg (Prod.mk none) (funext fun k => ?_))
    by_cases hk : raw = k
    · subst hk
      simp [live, hraw]
    · simp [live, hraw, hk, update_of_ne (Ne.symm hk)]

theorem replaceOwnedVIPs_eq (h : ∀ addr ∈ addrs, (toWireAddr addr).isSome) : replaceOwnedVIPs t addrs generation =
    (none, fun k => if live addrs k then some { (t k).getD { blocked := 1 } with generation } else none) := by
  rw [replaceOwnedVIPs, claimOwned_eq h]
  refine congrArg (Prod.mk none) (funext fun k => ?_)
  cases hk : live addrs k <;> simp [hk]

theorem wired_of_replaceOwnedVIPs (h : (replaceOwnedVIPs t addrs generation).1 = none) :
    ∀ addr ∈ addrs, (toWireAddr addr).isSome := by
  rw [replaceOwnedVIPs] at h
  split_ifs at h with hfailed
  · exact wired_of_claimOwned h
  · exact wired_of_claimOwned (by simpa using hfailed)

theorem renewVIPs_eq (clock : List UInt8 → UInt64) (h : ∀ addr ∈ addrs, ∃ k, toWireAddr addr = some k ∧ (t k).isSome) :
    renewVIPs clock addrs t = (none, fun k => if live addrs k then (t k).map (·.renew (clock k)) else t k) := by
  induction addrs generalizing t with
  | nil => rfl
  | cons addr addrs ih =>
    obtain ⟨⟨raw, hraw, hsome⟩, h⟩ := forall_mem_cons.mp h
    obtain ⟨v, hv⟩ := Option.isSome_iff_exists.mp hsome
    simp only [renewVIPs, hraw, hv]
    rw [ih fun a ha => (h a ha).imp fun k hk => ⟨hk.1, by rw [update_apply]; split <;> simp [hk.2]⟩]
    refine congrArg (Prod.mk none) (funext fun k => ?_)
    by_cases hk : raw = k
    · subst hk
      simp [live, hraw, hv, OwnedValue.renew]
    · simp [live, hraw, hk, update_of_ne (Ne.symm hk)]

theorem toWireAddr_ofBytes (hnative : addr.is4 = false) (h : toWireAddr addr = some k) :
    toWireAddr ((Addr.ofBytes k).getD .zero) = some k := by
  cases addr with
  | zero => simp [toWireAddr, Addr.is4, Addr.is6] at h
  | v4 b => cases hnative
  | v6 b zone =>
    obtain ⟨hmapped, rfl⟩ : (Addr.v6 b zone).is4In6 = false ∧ b.toList = k := by
      simpa [toWireAddr, Addr.is4, Addr.is6, Addr.as16] using h
    simp_all [Addr.ofBytes, toWireAddr, Addr.is4, Addr.is6, Addr.is4In6, Addr.as16]

theorem toWireAddr_mapped (b : List.Vector UInt8 4) : toWireAddr (.v4 b) = some (v4InV6Prefix ++ b.toList) ∧
    toWireAddr ((Addr.ofBytes (v4InV6Prefix ++ b.toList)).getD .zero) = none := by
  have hlen : v4InV6Prefix.length = 12 := rfl
  have htake : (v4InV6Prefix ++ b.toList).take 12 = v4InV6Prefix := take_left' hlen
  simp [toWireAddr, Addr.ofBytes, Addr.is4, Addr.is6, Addr.is4In6, Addr.as16, hlen, htake]

/-- Given what `OwnedVIPs` finds, `ReplaceOwnedVIPs` accepts it and only changes generations, `RenewVIPs` renews every
row and `SetBlockedVIPs` blocks every row. -/
def RoundTrips (u : OwnedTable) (rows : List (List UInt8)) : Prop :=
  ∀ (generation : UInt64) (clock : List UInt8 → UInt64),
  replaceOwnedVIPs u (ownedVIPs rows) generation = (none, fun k => (u k).map ({ · with generation })) ∧
    renewVIPs clock (ownedVIPs rows) u = (none, fun k => (u k).map (·.renew (clock k))) ∧
    setBlockedVIPs clock u (ownedVIPs rows) = fun k => (u k).map ({ · with blocked := 1 })

/-- **Discovery.** Whatever list of addresses was accepted and whatever the rows have become since: the owned addresses
round-trip exactly when none of the list is IPv4. -/
theorem owned_discovery (t : OwnedTable) (addrs : List Addr) (generation : UInt64)
    (haccepted : (replaceOwnedVIPs t addrs generation).1 = none)
    (u : OwnedTable) (hu : ∀ k, (u k).isSome = ((replaceOwnedVIPs t addrs generation).2 k).isSome)
    (rows : List (List UInt8)) (hrows : ∀ k, k ∈ rows ↔ (u k).isSome) :
    RoundTrips u rows ↔ ∀ addr ∈ addrs, addr.is4 = false := by
  have hmem : ∀ k, k ∈ rows ↔ ∃ addr ∈ addrs, toWireAddr addr = some k := by
    intro k
    rw [hrows, hu, replaceOwnedVIPs_eq (wired_of_replaceOwnedVIPs haccepted)]
    cases hlive : live addrs k <;> simp_all [live]
  constructor
  · rintro htrips (_ | b | _) haddr
    · rfl
    · obtain ⟨hraw, hrefused⟩ := toWireAddr_mapped b
      have hwired := wired_of_replaceOwnedVIPs (congrArg Prod.fst (htrips 0 fun _ => 0).1) _
        (mem_map_of_mem ((hmem _).mpr ⟨_, haddr, hraw⟩))
      rw [hrefused] at hwired
      cases hwired
    · rfl
  intro hnative generation clock
  have hsame : ∀ k ∈ rows, toWireAddr ((Addr.ofBytes k).getD .zero) = some k := by
    intro k hk
    obtain ⟨addr, haddr, hraw⟩ := (hmem k).mp hk
    exact toWireAddr_ofBytes (hnative addr haddr) hraw
  have hfound : ∀ k, live (ownedVIPs rows) k = (u k).isSome := by
    intro k
    rw [Bool.eq_iff_iff, ← hrows]
    simp only [live, ownedVIPs, any_map, any_eq_true, comp_apply, decide_eq_true_eq]
    exact ⟨fun ⟨j, hj, hjk⟩ => Option.some.inj (hsame j hj ▸ hjk) ▸ hj, fun hk => ⟨k, hk, hsame k hk⟩⟩
  refine ⟨?_, ?_, funext fun k => ?_⟩
  · rw [replaceOwnedVIPs_eq (by simpa [ownedVIPs] using fun k hk => by simp [hsame k hk])]
    refine congrArg (Prod.mk none) (funext fun k => ?_)
    rw [hfound]
    cases u k <;> rfl
  · rw [renewVIPs_eq clock (by simpa [ownedVIPs] using fun k hk => ⟨k, hsame k hk, (hrows k).mp hk⟩)]
    refine congrArg (Prod.mk none) (funext fun k => ?_)
    rw [hfound]
    cases u k <;> rfl
  · cases hv : u k with
    | none => simp [setBlockedVIPs, hv]
    | some v =>
      have hk : k ∈ rows := (hrows k).mpr (by simp [hv])
      have hblocked : k ∈ (ownedVIPs rows).map Addr.as16 := by
        refine mem_map.mpr ⟨_, mem_map_of_mem hk, ?_⟩
        grind [toWireAddr]
      have hsome : (ownedVIPs rows).length ≠ 0 := by simpa [ownedVIPs] using ne_nil_of_mem hk
      simp [setBlockedVIPs, hv, hblocked, hsome]

theorem owned_discovery_native :
    let u := (replaceOwnedVIPs (fun _ => none) [.v6 ⟨replicate 16 32, rfl⟩ ""] 1).2
    RoundTrips u [replicate 16 32] := by
  refine (owned_discovery _ [.v6 ⟨replicate 16 32, rfl⟩ ""] 1 rfl _ (fun _ => rfl) _ fun k => ?_).mpr (by decide)
  have hwire : toWireAddr (.v6 ⟨replicate 16 32, rfl⟩ "") = some (replicate 16 32) := by decide
  rw [replaceOwnedVIPs_eq (by decide)]
  grind [live]

/-- 192.0.2.1 is accepted, and refused when it is read back. -/
theorem owned_discovery_mapped :
    let claimed := replaceOwnedVIPs (fun _ => none) [.v4 ⟨[192, 0, 2, 1], rfl⟩] 1
    claimed.1 = none ∧ claimed.2 (v4InV6Prefix ++ [192, 0, 2, 1]) = some ⟨1, 0, 1⟩ ∧
      (replaceOwnedVIPs claimed.2 (ownedVIPs [v4InV6Prefix ++ [192, 0, 2, 1]]) 2).1 ≠ none ∧
      (renewVIPs (fun _ => 0) (ownedVIPs [v4InV6Prefix ++ [192, 0, 2, 1]]) claimed.2).1 ≠ none := by
  decide

end Galactic.Gateway
