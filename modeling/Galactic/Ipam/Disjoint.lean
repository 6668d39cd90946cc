import Galactic.Ipam.Subnets

/-!
# Which runs keep the allocations apart

`Sound` is what the pool promises: the subnets of different containers share no address, lie in the pool, and do not
contain its gateway. The second address of the walk is `2 ^ 24` behind the first, inside the same subnet, and the
gateway's subnet is recognised by its text only. So a pool stays sound exactly as long as it hands out its first subnet
to one container at a time and the gateway is not in there. -/

namespace Galactic.Ipam
open List PoolAllocator

open Net (IP IPNet IPMask)

/-! ### Soundness -/

def heldSubnets (ms : Markers) : List (IPNet × String) :=
  ms.filterMap fun m => (markerSubnet m.1).map fun n => (n, m.2)

structure Sound (a : PoolAllocator) (ms : Markers) : Prop where
  disjoint : ∀ h ∈ heldSubnets ms, ∀ h' ∈ heldSubnets ms, h.2 ≠ h'.2 → ∀ x : IP, x.length = 16 →
    h.1.contains x = true → h'.1.contains x = false
  inside : ∀ h ∈ heldSubnets ms, ∀ x : IP, x.length = 16 → h.1.contains x = true → a.pool.contains x = true
  gateway : ∀ h ∈ heldSubnets ms, h.1.contains a.gateway = false

/-! ### Runs -/

inductive Event
  | allocate (containerID : String)
  | deallocate (subnetCIDR : List Char)
  | deallocateContainer (containerID : String)

def step (a : PoolAllocator) (ms : Markers) : Event → Markers
  | .allocate containerID => (a.allocate containerID ms).2
  | .deallocate subnetCIDR => deallocate subnetCIDR ms
  | .deallocateContainer containerID => (deallocateContainer containerID ms).2

/-- Every state of a run has the property, the first and the last included. -/
def Always (P : Markers → Prop) (a : PoolAllocator) : Markers → List Event → Prop
  | ms, [] => P ms
  | ms, e :: events => P ms ∧ Always P a (step a ms e) events

/-- When a step does no harm: a call that finds its container's allocation changes nothing, and a new allocation may
be made while none is held and the gateway is not in the first subnet. -/
def Harmless (a : PoolAllocator) (ms : Markers) : Event → Prop
  | .allocate containerID => (∃ m ∈ ms, m.2 = containerID) ∨ (ms = [] ∧ gatewayInFirst a = false)
  | _ => True

/-- Every step of a run does no harm in the state it meets. -/
def AllHarmless (a : PoolAllocator) : Markers → List Event → Prop
  | _, [] => True
  | ms, e :: events => Harmless a ms e ∧ AllHarmless a (step a ms e) events

/-! ### What a call does -/

section Calls
variable {a : PoolAllocator} {len : Nat} {ms : Markers} {c d : String}

def firstName (a : PoolAllocator) : List Char := sanitizePoolDirName (a.subnet a.pool.ip).string

def secondName (a : PoolAllocator) : List Char := sanitizePoolDirName (a.subnet (incSubnet a.pool.ip 96)).string

theorem markerSubnet_firstName (h : Pool96 a len) : markerSubnet (firstName a) = some ⟨a.pool.ip, mask96⟩ := by
  rw [firstName, h.subnet_eq]
  exact markerSubnet_text h.isPrefix.length h.notV4

theorem markerSubnet_secondName (h : Pool96 a len) :
    markerSubnet (secondName a) = some ⟨incSubnet a.pool.ip 96, mask96⟩ := by
  have hlen := length_incSubnet h.isPrefix.length
  rw [secondName, h.subnet_eq]
  exact markerSubnet_text hlen (to4_eq_none_of_take hlen h.isPrefix.length h.take_second h.notV4)

theorem desanitize_firstName (h : Pool96 a len) : desanitizeMarkerName (firstName a) = (a.subnet a.pool.ip).string := by
  rw [firstName, h.subnet_eq]
  exact desanitize_text h.isPrefix.length h.notV4

theorem allocate_of_held (h : ∃ m ∈ ms, m.2 = c) : (a.allocate c ms).2 = ms := by
  obtain ⟨m, hm, hc⟩ := h
  obtain ⟨name, hname⟩ : ∃ name, findContainerMarker ms c = some name := by
    have hsome : (ms.find? fun m => decide (m.2 = c)).isSome := by
      rw [find?_isSome]
      exact ⟨m, hm, decide_eq_true hc⟩
    obtain ⟨m', hm'⟩ := Option.isSome_iff_exists.mp hsome
    exact ⟨m'.1, by rw [findContainerMarker, hm']; rfl⟩
  unfold allocate
  rw [hname]
  dsimp only
  split <;> rfl

theorem allocate_of_search (hnew : ∀ m ∈ ms, m.2 ≠ c) {start : IP}
    (hsearch : a.search (ms.map fun m => desanitizeMarkerName m.1) (ms.length + 2) a.pool.ip = some start) :
    (a.allocate c ms).2 = writeMarker (sanitizePoolDirName (a.subnet start).string) c ms := by
  have hfind : findContainerMarker ms c = none := by
    rw [findContainerMarker, Option.map_eq_none_iff, find?_eq_none]
    intro m hm
    simpa using hnew m hm
  unfold allocate
  rw [hfind, hsearch]

section
variable (h : Pool96 a len) {used : List (List Char)} {fuel : Nat}

include h

theorem search_first (hfree : a.excluded used a.pool.ip = false) :
    a.search used (fuel + 1) a.pool.ip = some a.pool.ip := by
  have hin := mem_of_take h.isPrefix h.len_le h.notV4 h.isPrefix.length rfl
  rw [search, hin, hfree]
  simp

theorem search_second (hfirst : a.excluded used a.pool.ip) (hfree : a.excluded used (incSubnet a.pool.ip 96) = false) :
    a.search used (fuel + 2) a.pool.ip = some (incSubnet a.pool.ip 96) := by
  have hin := mem_of_take h.isPrefix h.len_le h.notV4 h.isPrefix.length rfl
  have hin' := mem_of_take h.isPrefix h.len_le h.notV4 (length_incSubnet h.isPrefix.length) h.take_second
  rw [search, hin, hfirst, h.subnetLen, search, hin', hfree]
  simp

theorem allocate_first (hgw : gatewayInFirst a = false) : (a.allocate c []).2 = [(firstName a, c)] := by
  have hfree : a.excluded [] a.pool.ip = false := by
    have hreserved : (a.subnet a.pool.ip).string ≠ a.reserved := by
      intro heq
      rw [h.first_reserved_iff.mp heq] at hgw
      cases hgw
    simp [excluded, hreserved]
  exact allocate_of_search (forall_mem_nil _) (search_first h hfree)

theorem allocate_beside_gateway (hgw : gatewayInFirst a) : (a.allocate c []).2 = [(secondName a, c)] := by
  have hfirst : a.excluded [] a.pool.ip := by
    simp [excluded, h.first_reserved_iff.mpr hgw]
  have hfree : a.excluded [] (incSubnet a.pool.ip 96) = false := by
    simp [excluded, h.second_not_reserved]
  exact allocate_of_search (forall_mem_nil _) (search_second h hfirst hfree)

theorem allocate_second (hne : d ≠ c) :
    (a.allocate d [(firstName a, c)]).2 = writeMarker (secondName a) d [(firstName a, c)] := by
  have htexts : (a.subnet (incSubnet a.pool.ip 96)).string ≠ (a.subnet a.pool.ip).string := by
    rw [h.subnet_eq, h.subnet_eq]
    intro heq
    exact h.second_ne (string_mask96_inj (length_incSubnet h.isPrefix.length) h.isPrefix.length heq)
  have hfirst : a.excluded [desanitizeMarkerName (firstName a)] a.pool.ip := by
    simp [excluded, desanitize_firstName h]
  have hfree : a.excluded [desanitizeMarkerName (firstName a)] (incSubnet a.pool.ip 96) = false := by
    simp [excluded, desanitize_firstName h, htexts, h.second_not_reserved]
  refine allocate_of_search ?_ (search_second h hfirst hfree)
  intro m hm
  rw [mem_singleton] at hm
  rw [hm]
  exact hne.symm

end

end Calls

/-! ### States -/

/-- The states that runs without harm reach: nothing is held, or the first subnet alone. -/
def Quiet (a : PoolAllocator) (ms : Markers) : Prop :=
  ms = [] ∨ ∃ c, ms = [(firstName a, c)] ∧ gatewayInFirst a = false

section States
variable {a : PoolAllocator} {len : Nat} {ms : Markers}

theorem mem_heldSubnets {name : List Char} {c : String} {n : IPNet} (hm : (name, c) ∈ ms)
    (hn : markerSubnet name = some n) : (n, c) ∈ heldSubnets ms :=
  mem_filterMap.mpr ⟨(name, c), hm, by simp [hn]⟩

theorem Quiet.sound (h : Pool96 a len) (hq : Quiet a ms) : Sound a ms := by
  rcases hq with rfl | ⟨c, rfl, hgw⟩
  · exact ⟨fun h hh => absurd hh (by simp [heldSubnets]), fun h hh => absurd hh (by simp [heldSubnets]),
      fun h hh => absurd hh (by simp [heldSubnets])⟩
  have hheld : heldSubnets [(firstName a, c)] = [(⟨a.pool.ip, mask96⟩, c)] := by
    simp [heldSubnets, markerSubnet_firstName h]
  constructor
  · intro s hs s' hs' hne
    rw [hheld, mem_singleton] at hs hs'
    exact absurd (hs ▸ hs' ▸ rfl) hne
  · intro s hs x hx hin
    rw [hheld, mem_singleton] at hs
    rw [hs] at hin
    exact mem_of_take h.isPrefix h.len_le h.notV4 hx ((h.contains_near h.isPrefix.length rfl hx).mp hin).2
  intro s hs
  rw [hheld, mem_singleton] at hs
  rw [hs, ← h.subnet_eq]
  exact hgw

theorem Quiet.filter (hq : Quiet a ms) (p : List Char × String → Bool) : Quiet a (ms.filter p) := by
  rcases hq with rfl | ⟨c, rfl, hgw⟩
  · exact .inl rfl
  · by_cases hp : p (firstName a, c)
    · exact .inr ⟨c, by simp [hp], hgw⟩
    · exact .inl (by simp [hp])

section
variable (h : Pool96 a len) {e : Event}

include h

theorem Quiet.step (hq : Quiet a ms) (he : Harmless a ms e) : Quiet a (Ipam.step a ms e) := by
  cases e with
  | allocate c =>
    unfold Ipam.step
    dsimp only
    rcases he with hheld | ⟨rfl, hgw⟩
    · rw [allocate_of_held hheld]
      exact hq
    · rw [allocate_first h hgw]
      exact .inr ⟨c, rfl, hgw⟩
  | deallocate subnetCIDR => exact hq.filter _
  | deallocateContainer c =>
    unfold Ipam.step deallocateContainer
    dsimp only
    split
    · exact hq
    · exact hq.filter _

theorem not_sound_of_both {c d : String} (hne : d ≠ c) (hfirst : (firstName a, c) ∈ ms)
    (hsecond : (secondName a, d) ∈ ms) : ¬Sound a ms := by
  intro hs
  have hlen := h.isPrefix.length
  have hheld := mem_heldSubnets hfirst (markerSubnet_firstName h)
  have hheld' := mem_heldSubnets hsecond (markerSubnet_secondName h)
  have hin := (h.contains_near hlen rfl hlen).mpr ⟨h.notV4, rfl⟩
  have hin' := (h.contains_near (length_incSubnet hlen) h.take_second hlen).mpr ⟨h.notV4, rfl⟩
  have hout := hs.disjoint _ hheld _ hheld' hne.symm a.pool.ip hlen hin
  rw [hin'] at hout
  cases hout

theorem not_sound_of_gateway {c : String} (hgw : gatewayInFirst a) (hsecond : (secondName a, c) ∈ ms) :
    ¬Sound a ms := by
  intro hs
  have hheld := mem_heldSubnets hsecond (markerSubnet_secondName h)
  have hout := hs.gateway _ hheld
  rw [(h.contains_near (length_incSubnet h.isPrefix.length) h.take_second h.gateway_length).mpr
    ⟨h.gateway_notV4, h.gatewayInFirst_iff.mp hgw⟩] at hout
  cases hout

/-- **Step.** Any other step out of a quiet state ends in a state that is not sound. -/
theorem Quiet.not_sound (hq : Quiet a ms) (he : ¬Harmless a ms e) : ¬Sound a (Ipam.step a ms e) := by
  cases e with
  | allocate c =>
    unfold Harmless at he
    push Not at he
    obtain ⟨hnew, hgw⟩ := he
    unfold Ipam.step
    dsimp only
    rcases hq with rfl | ⟨c', rfl, -⟩
    · replace hgw : gatewayInFirst a := by simpa using hgw rfl
      rw [allocate_beside_gateway h hgw]
      exact not_sound_of_gateway h hgw (mem_singleton_self _)
    have hne : c ≠ c' := by
      rintro rfl
      exact hnew _ (mem_singleton_self _) rfl
    have hnames : firstName a ≠ secondName a := by
      intro heq
      have hsub := congrArg markerSubnet heq
      rw [markerSubnet_firstName h, markerSubnet_secondName h] at hsub
      exact h.second_ne (IPNet.mk.inj (Option.some.inj hsub)).1.symm
    rw [allocate_second h hne]
    exact not_sound_of_both h hne (mem_writeMarker_of_ne (mem_singleton_self _) hnames) (mem_writeMarker _ _ _)
  | deallocate subnetCIDR | deallocateContainer c => exact absurd trivial he

end

theorem Always.head {P : Markers → Prop} {events : List Event} (h : Always P a ms events) : P ms := by
  rcases events with _ | ⟨e, events⟩
  · exact h
  · exact h.1

theorem always_sound_iff (h : Pool96 a len) (hq : Quiet a ms) (events : List Event) :
    Always (Sound a) a ms events ↔ AllHarmless a ms events := by
  induction events generalizing ms with
  | nil => exact iff_of_true (hq.sound h) trivial
  | cons e events ih =>
    unfold Always AllHarmless
    by_cases he : Harmless a ms e
    · rw [ih (hq.step h he)]
      exact and_congr_left' (iff_of_true (hq.sound h) he)
    · exact iff_of_false (fun hall => hq.not_sound h he hall.2.head) fun hall => he hall.1

end States

/-! ### Runs from an empty pool -/

/-- **Disjoint allocations.** The runs of a pool in whose states the subnets of different containers are
disjoint, lie in the pool and leave out its gateway are those without a harmful step. -/
theorem run_sound_iff {poolCIDR gateway : List Char} {subnetLen : Nat} {lockDir : String} {a : PoolAllocator}
    (hsub : subnetLen = 0 ∨ subnetLen = 96)
    (hnew : newPoolAllocator poolCIDR gateway subnetLen lockDir = .ok a) (events : List Event) :
    Always (Sound a) a [] events ↔ AllHarmless a [] events := by
  obtain ⟨len, h⟩ := newPoolAllocator_pool96 hsub hnew
  exact always_sound_iff h (.inl rfl) events

/-- The allocator of `fd00:10:ff01::/64` with the gateway `fd00:10:ff01:0:0:1::1`. -/
def gatewayAside : PoolAllocator where
  pool := ⟨[0xfd, 0, 0, 0x10, 0xff, 1, 0, 0, 0, 0, 0, 0, 0, 0, 0, 0], Net.cidrMask 64 128⟩
  subnetLen := 96
  gateway := [0xfd, 0, 0, 0x10, 0xff, 1, 0, 0, 0, 0, 0, 1, 0, 0, 0, 1]
  reserved := "fd00:10:ff01::1:0:0/96".toList
  stateDir := "/run/ipam/fd00:10:ff01::-64"

/-- Two containers use the pool one after the other. -/
theorem run_sound_iff_one_at_a_time :
    newPoolAllocator "fd00:10:ff01::/64".toList "fd00:10:ff01:0:0:1::1".toList 0 "/run/ipam" = .ok gatewayAside ∧
      Always (Sound gatewayAside) gatewayAside []
        [.allocate "a", .allocate "a", .deallocateContainer "a", .allocate "b"] := by
  have hgw : gatewayInFirst gatewayAside = false := by decide +kernel
  have hone : step gatewayAside [] (.allocate "a") = [(firstName gatewayAside, "a")] := by decide +kernel
  have hagain :
      step gatewayAside [(firstName gatewayAside, "a")] (.allocate "a") = [(firstName gatewayAside, "a")] := by
    decide +kernel
  have hempty : step gatewayAside [(firstName gatewayAside, "a")] (.deallocateContainer "a") = [] := by decide +kernel
  refine ⟨?new, (run_sound_iff (.inl rfl) ?new _).mpr ⟨.inr ⟨rfl, hgw⟩, ?_⟩⟩
  · decide +kernel
  rw [hone]
  refine ⟨.inl ⟨_, mem_singleton_self _, rfl⟩, ?_⟩
  rw [hagain]
  refine ⟨trivial, ?_⟩
  rw [hempty]
  exact ⟨.inr ⟨rfl, hgw⟩, trivial⟩

/-- The allocator of `fd00:10:ff01::/64` with its default gateway. -/
def gatewayByDefault : PoolAllocator where
  pool := ⟨[0xfd, 0, 0, 0x10, 0xff, 1, 0, 0, 0, 0, 0, 0, 0, 0, 0, 0], Net.cidrMask 64 128⟩
  subnetLen := 96
  gateway := [0xfd, 0, 0, 0x10, 0xff, 1, 0, 0, 0, 0, 0, 0, 0, 0, 0, 1]
  reserved := "fd00:10:ff01::/96".toList
  stateDir := "/run/ipam/fd00:10:ff01::-64"

/-- Two containers hold `fd00:10:ff01::100:0/96` and `fd00:10:ff01::200:0/96`: one subnet, with the gateway. -/
theorem allocations_overlap :
    validateIPv6Subnet "fd00:10:ff01::/64".toList = .ok () ∧
    newPoolAllocator "fd00:10:ff01::/64".toList [] 0 "/run/ipam" = .ok gatewayByDefault ∧
    step gatewayByDefault (step gatewayByDefault [] (.allocate "a")) (.allocate "b") =
      [("fd00:10:ff01::100:0-96".toList, "a"), ("fd00:10:ff01::200:0-96".toList, "b")] ∧
    (∀ h ∈ heldSubnets [("fd00:10:ff01::100:0-96".toList, "a"), ("fd00:10:ff01::200:0-96".toList, "b")],
      h.1.contains gatewayByDefault.gateway = true ∧ h.1.contains gatewayByDefault.pool.ip = true) ∧
    ¬Always (Sound gatewayByDefault) gatewayByDefault [] [.allocate "a", .allocate "b"] := by
  refine ⟨by decide +kernel, by decide +kernel, by decide +kernel, by decide +kernel, fun hall => ?_⟩
  have hone : heldSubnets (step gatewayByDefault [] (.allocate "a")) =
      [(⟨incSubnet gatewayByDefault.pool.ip 96, mask96⟩, "a")] := by decide +kernel
  have hgw := hall.2.1.gateway
  rw [hone] at hgw
  exact absurd (hgw _ (mem_singleton_self _)) (by decide +kernel)

end Galactic.Ipam
