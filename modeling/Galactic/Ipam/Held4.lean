import Galactic.Ipam.IPv4
import Galactic.Lib.Entries

/-!
# Who holds which IPv4 address

A run of a pool is any sequence of calls, whichever process makes them, since the lock makes each of them atomic. Beside
the markers, the state of a run keeps what the calls answered: an address is held by the container that `Allocate`
returned it to, until it is given back by either of the two deallocations.

In every state the markers are exactly the held addresses, under different names. -/

namespace Galactic.Ipam
open List Function Net IP UInt64 Option Nat

namespace IPv4PoolAllocator

/-! ### Pools -/

def size (a : IPv4PoolAllocator) : Nat := 2 ^ ((maskSize a.pool.mask).2 - (maskSize a.pool.mask).1)

/-- The network address, the gateway, the second-to-last and the last address of a pool. -/
def IsReserved (a : IPv4PoolAllocator) (x : IP) : Prop :=
  x = a.pool.ip ∨ x = a.gateway ∨ x.number + 2 = a.pool.ip.number + a.size ∨ x.number + 1 = a.pool.ip.number + a.size

/-- What the constructor establishes for a pool of `2 ^ host` addresses. -/
structure Pool4 (a : IPv4PoolAllocator) (host : Nat) : Prop where
  host_le : host ≤ 32
  length : a.pool.ip.length = 4
  mask : a.pool.mask = maskBytes 4 (32 - host) ∨ a.pool.mask = maskBytes 16 (128 - host)
  masked : a.pool.ip.maskWith (maskBytes 4 (32 - host)) = a.pool.ip
  gateway_length : a.gateway.length = 4

theorem drop_maskBytes (l k n : Nat) (hn : 8 * k ≤ n) : (maskBytes (l + k) n).drop k = maskBytes l (n - 8 * k) := by
  induction k generalizing n with
  | zero => rfl
  | succ k ih =>
    rw [← add_assoc, maskBytes, drop_succ_cons, ih (n - 8) (by omega)]
    congr 1
    omega

namespace Pool4
variable {a : IPv4PoolAllocator} {host : Nat}

section
variable (h : Pool4 a host) {x : IP} {k : Nat}

include h

theorem size_eq : a.size = 2 ^ host := by
  have hle := h.host_le
  unfold size maskSize
  rcases h.mask with hmask | hmask
  · rw [hmask, simpleMaskLength_maskBytes 4 _ (by omega)]
    simp only [length_maskBytes]
    congr 1
    omega
  rw [hmask, simpleMaskLength_maskBytes 16 _ (by omega)]
  simp only [length_maskBytes]
  congr 1
  omega

theorem total_eq : a.total.toNat = 2 ^ host := by
  have hlt : 2 ^ host < 2 ^ 64 := Nat.pow_lt_pow_right (by omega) (by have := h.host_le; omega)
  have hsize := h.size_eq
  unfold size at hsize
  rw [total, hsize, toNat_ofNat']
  exact Nat.mod_eq_of_lt hlt

theorem networkNumberAndMask : a.pool.networkNumberAndMask = some (a.pool.ip, maskBytes 4 (32 - host)) := by
  have hle := h.host_le
  have h4 : a.pool.ip.to4 = some a.pool.ip := by simp [to4, h.length, ipv4Len]
  rw [IPNet.networkNumberAndMask, h4]
  rcases h.mask with hmask | hmask
  · simp [hmask, ipv4Len]
  simp only [hmask, length_maskBytes, ipv4Len, ipv6Len]
  rw [if_neg (by omega), if_pos trivial, drop_maskBytes 4 12 _ (by omega)]
  congr 3
  omega

theorem aligned : a.pool.ip.number / 2 ^ host * 2 ^ host = a.pool.ip.number := by
  have hle := h.host_le
  have hnum := number_maskWith a.pool.ip (n := 32 - host) (by rw [h.length]; omega)
  rw [h.length, h.masked, show 8 * 4 - (32 - host) = host by omega] at hnum
  exact hnum.symm

theorem end_le : a.pool.ip.number + 2 ^ host ≤ 2 ^ 32 := by
  have hlt := number_lt a.pool.ip
  rw [h.length, show 256 ^ 4 = 2 ^ (32 - host) * 2 ^ host by
    rw [← pow_add, show 32 - host + host = 32 by have := h.host_le; omega]; norm_num, ← h.aligned] at hlt
  have hdiv := Nat.lt_of_mul_lt_mul_right hlt
  calc a.pool.ip.number + 2 ^ host = (a.pool.ip.number / 2 ^ host + 1) * 2 ^ host := by
        rw [Nat.add_mul, h.aligned, Nat.one_mul]
    _ ≤ 2 ^ (32 - host) * 2 ^ host := Nat.mul_le_mul_right _ hdiv
    _ = 2 ^ 32 := by rw [← pow_add, show 32 - host + host = 32 by have := h.host_le; omega]

theorem contains_iff (hx : x.length = 4) : a.pool.contains x ↔ ∃ k < 2 ^ host, x.number = a.pool.ip.number + k := by
  have hle := h.host_le
  have h4 : x.to4 = some x := by simp [to4, hx, ipv4Len]
  have hnum := number_maskWith x (n := 32 - host) (by rw [hx]; omega)
  rw [hx, show 8 * 4 - (32 - host) = host by omega] at hnum
  rw [IPNet.contains, h.networkNumberAndMask]
  simp only [h4, getD_some, h.length, hx, h.masked, true_and, decide_eq_true_eq]
  constructor
  · intro heq
    refine ⟨x.number % 2 ^ host, mod_lt _ (by positivity), ?_⟩
    rw [heq, hnum, div_add_mod']
  rintro ⟨k, hk, hxk⟩
  refine number_inj (by simp [maskWith, h.length, hx]) ?_
  rw [hnum, hxk, ← h.aligned, add_comm, add_mul_div_right _ _ (by positivity), div_eq_of_lt hk, zero_add]

theorem number_offset (hk : k < 2 ^ host) : (offsetIP4 a.pool.ip (ofNat k)).number = a.pool.ip.number + k := by
  have hend := h.end_le
  have hsmall : k < 2 ^ 64 := by omega
  rw [number_offsetIP4 h.length, toNat_ofNat', mod_eq_of_lt hsmall]
  exact mod_eq_of_lt (by omega)

theorem eq_offset_iff (hx : x.length = 4) (hk : k < 2 ^ host) :
    x = offsetIP4 a.pool.ip (ofNat k) ↔ x.number = a.pool.ip.number + k := by
  constructor
  · rintro rfl
    exact h.number_offset hk
  · intro hnum
    exact number_inj (by simp [hx]) (by rw [hnum, h.number_offset hk])

theorem total_sub {n : UInt64} (hn : n.toNat ≤ 2 ^ host) : a.total - n = ofNat (2 ^ host - n.toNat) := by
  apply UInt64.toNat_inj.mp
  rw [UInt64.toNat_sub_of_le _ _ (UInt64.le_iff_toNat_le.mpr (by rw [h.total_eq]; exact hn)), h.total_eq,
    UInt64.toNat_ofNat', Nat.mod_eq_of_lt (by have := h.end_le; omega)]

theorem eq_last_iff (hx : x.length = 4) :
    x = offsetIP4 a.pool.ip (a.total - 1) ↔ x.number + 1 = a.pool.ip.number + 2 ^ host := by
  have hpos : 0 < 2 ^ host := by positivity
  have hoffset : a.total - 1 = ofNat (2 ^ host - 1) := h.total_sub hpos
  rw [hoffset, h.eq_offset_iff hx (by omega)]
  omega

end

/-- The second-to-last address is the one at `total - 2`. In a pool of one address that offset wraps, and no address
of the pool is there. -/
theorem eq_secondToLast_iff (h : Pool4 a host) {x : IP} (hx : x.length = 4) (hin : a.pool.contains x) :
    x = offsetIP4 a.pool.ip (a.total - 2) ↔ x.number + 2 = a.pool.ip.number + 2 ^ host := by
  obtain ⟨k, hk, hxk⟩ := (h.contains_iff hx).mp hin
  by_cases hone : host = 0
  · subst hone
    have htotal : a.total = 1 := UInt64.toNat_inj.mp h.total_eq
    have hoffset : ((1 : UInt64) - 2).toNat = 2 ^ 64 - 1 := by decide
    rw [htotal]
    constructor
    · intro heq
      have hnum := congrArg number heq
      rw [number_offsetIP4 h.length, hoffset] at hnum
      have := h.end_le
      omega
    · omega
  · have htwo : 2 ≤ 2 ^ host := by
      calc 2 = 2 ^ 1 := rfl
        _ ≤ 2 ^ host := Nat.pow_le_pow_right (by omega) (by omega)
    have hoffset : a.total - 2 = ofNat (2 ^ host - 2) := h.total_sub htwo
    rw [hoffset, h.eq_offset_iff hx (by omega)]
    omega

theorem mem_reservedAddresses_iff (h : Pool4 a host) {x : IP} (hx : x.length = 4) (hin : a.pool.contains x) :
    x.string ∈ a.reservedAddresses ↔ a.IsReserved x := by
  have htext : ∀ {y : IP}, y.length = 4 → (x.string = y.string ↔ x = y) := fun hy =>
    ⟨string_inj hx hy, congrArg string⟩
  simp only [reservedAddresses, mem_cons, not_mem_nil, or_false]
  rw [htext h.length, htext h.gateway_length, htext (length_offsetIP4 _ _), htext (length_offsetIP4 _ _),
    h.eq_last_iff hx, h.eq_secondToLast_iff hx hin, IsReserved, h.size_eq]

end Pool4

theorem poolGateway4_length {pool : IPNet} {poolCIDR gateway : List Char} {gw : IP}
    (h : poolGateway4 pool poolCIDR gateway = .ok gw) : gw.length = 4 := by
  unfold poolGateway4 at h
  split_ifs at h
  · split at h
    · cases h
    split at h
    · cases h
    rename_i hgw
    split_ifs at h
    cases h
    exact length_to4 hgw
  · cases h
    rfl

theorem le_of_to4 {n : IPNet} {len : Nat} (h : n.IsPrefix6 len) {ip4 : IP} (h4 : n.ip.to4 = some ip4) : 96 ≤ len := by
  by_contra hshort
  have htake : n.ip.take 12 = v4InV6Prefix := by
    by_contra hne
    rw [(to4_eq_none_iff h.length).mpr hne] at h4
    cases h4
  have hbyte : n.ip.getD 11 0 = 255 := by
    have hget : (n.ip.take 12).getD 11 0 = n.ip.getD 11 0 := by simp [getD_eq_getElem?_getD]
    rw [← hget, htake]
    rfl
  rw [← h.masked, getD_maskWith, h.mask, getD_cidrMask len 11 h.le (by omega)] at hbyte
  have hcut := congrArg UInt8.toNat hbyte
  rw [toNat_and_maskByte _ (by omega)] at hcut
  have heven : 2 ∣ (255 : UInt8).toNat := by
    rw [← hcut]
    exact Dvd.dvd.mul_left (dvd_pow_self 2 (by omega)) _
  revert heven
  decide

theorem newIPv4PoolAllocator_pool4 {poolCIDR gateway : List Char} {lockDir : String} {a : IPv4PoolAllocator}
    (h : newIPv4PoolAllocator poolCIDR gateway lockDir = .ok a) : ∃ host, Pool4 a host := by
  unfold newIPv4PoolAllocator at h
  split at h
  · cases h
  rename_i hparse
  split at h
  · cases h
  rename_i parsed _ pool4 h4
  dsimp only at h
  split_ifs at h
  split at h
  · cases h
  rename_i hgw
  cases h
  obtain ⟨-, ⟨-, len, hpre⟩ | ⟨len, hpre, -⟩⟩ := parseCIDR_cases hparse
  · have hle := hpre.le
    obtain rfl : parsed.ip = pool4 := by simpa [to4, hpre.length, ipv4Len] using h4
    have hmask : parsed.mask = maskBytes 4 (32 - (32 - len)) := by
      rw [hpre.mask, cidrMask_32 len hle]
      congr 1
      omega
    exact ⟨32 - len, by omega, hpre.length, .inl hmask, by rw [← hmask, hpre.masked], poolGateway4_length hgw⟩
  have hge := le_of_to4 hpre h4
  have hle := hpre.le
  have hmask : parsed.mask = maskBytes 16 (128 - (128 - len)) := by
    rw [hpre.mask, cidrMask_128 len hle]
    congr 1
    omega
  have hpool : pool4 = parsed.ip.drop 12 := by
    simp [to4, hpre.length, ipv4Len, ipv6Len] at h4
    exact h4.2.symm
  refine ⟨128 - len, by omega, length_to4 h4, .inr hmask, ?_, poolGateway4_length hgw⟩
  have hcut := congrArg (List.drop 12) hpre.masked
  rw [maskWith, drop_zipWith, hmask, drop_maskBytes 4 12 _ (by omega), ← hpool] at hcut
  rw [maskWith, show 32 - (128 - len) = 128 - (128 - len) - 8 * 12 by omega]
  exact hcut

/-! ### The search -/

section Search
variable {a : IPv4PoolAllocator} {host : Nat} {used : List (List Char)}

theorem ofNat_succ (k : Nat) : ofNat k + 1 = ofNat (k + 1) := by
  rw [ofNat_add]
  rfl

theorem search_succ (a : IPv4PoolAllocator) (used : List (List Char)) (left : Nat) (i : UInt64) :
    a.search used (left + 1) i =
      if (offsetIP4 a.pool.ip i).string ∈ a.reservedAddresses then a.search used left (i + 1)
      else if (offsetIP4 a.pool.ip i).string ∈ used then a.search used left (i + 1)
      else some (offsetIP4 a.pool.ip i) := rfl

theorem search_cases (a : IPv4PoolAllocator) (used : List (List Char)) (left k : Nat) :
    (∃ j, k ≤ j ∧ j < k + left ∧ a.search used left (ofNat k) = some (offsetIP4 a.pool.ip (ofNat j)) ∧
      (offsetIP4 a.pool.ip (ofNat j)).string ∉ a.reservedAddresses ∧ (offsetIP4 a.pool.ip (ofNat j)).string ∉ used) ∨
    (a.search used left (ofNat k) = none ∧ ∀ j, k ≤ j → j < k + left →
      (offsetIP4 a.pool.ip (ofNat j)).string ∈ a.reservedAddresses ∨
      (offsetIP4 a.pool.ip (ofNat j)).string ∈ used) := by
  induction left generalizing k with
  | zero => exact .inr ⟨rfl, fun j hkj hj => absurd hj (by omega)⟩
  | succ left ih =>
    by_cases htaken : (offsetIP4 a.pool.ip (ofNat k)).string ∈ a.reservedAddresses ∨
      (offsetIP4 a.pool.ip (ofNat k)).string ∈ used
    · have hskip : a.search used (left + 1) (ofNat k) = a.search used left (ofNat (k + 1)) := by
        rw [search_succ, ofNat_succ]
        split_ifs <;> tauto
      rw [hskip]
      rcases ih (k + 1) with ⟨j, hkj, hj, hfound⟩ | ⟨hnone, hall⟩
      · exact .inl ⟨j, by omega, by omega, hfound⟩
      refine .inr ⟨hnone, fun j hkj hj => ?_⟩
      rcases eq_or_lt_of_le hkj with rfl | hlt
      · exact htaken
      · exact hall j hlt (by omega)
    · obtain ⟨hreserved, hused⟩ := not_or.mp htaken
      rw [search_succ, if_neg hreserved, if_neg hused]
      exact .inl ⟨k, le_refl k, by omega, rfl, hreserved, hused⟩

end Search

/-! ### Runs -/

structure Assignable (a : IPv4PoolAllocator) (ip : IP) : Prop where
  length : ip.length = 4
  inside : a.pool.contains ip = true
  free : ¬a.IsReserved ip

theorem Pool4.search_total {a : IPv4PoolAllocator} {host : Nat} (h : Pool4 a host) (used : List (List Char)) :
    (∃ ip, a.search used a.total.toNat 0 = some ip ∧ Assignable a ip ∧ ip.string ∉ used) ∨
    (a.search used a.total.toNat 0 = none ∧ ∀ ip, Assignable a ip → ip.string ∈ used) := by
  rw [h.total_eq, show (0 : UInt64) = ofNat 0 from rfl]
  rcases search_cases a used (2 ^ host) 0 with ⟨j, -, hj, hfound, hreserved, hused⟩ | ⟨hnone, hall⟩
  · rw [zero_add] at hj
    have hin := (h.contains_iff (length_offsetIP4 a.pool.ip (ofNat j))).mpr ⟨j, hj, h.number_offset hj⟩
    refine .inl ⟨_, hfound, ⟨rfl, hin, ?_⟩, hused⟩
    rwa [← h.mem_reservedAddresses_iff (length_offsetIP4 _ _) hin]
  refine .inr ⟨hnone, fun ip hip => ?_⟩
  obtain ⟨k, hk, hnum⟩ := (h.contains_iff hip.length).mp hip.inside
  obtain rfl := (h.eq_offset_iff hip.length hk).mpr hnum
  rcases hall k (zero_le k) (by omega) with hreserved | hused
  · exact absurd ((h.mem_reservedAddresses_iff hip.length hip.inside).mp hreserved) hip.free
  · exact hused

inductive Event
  | allocate (containerID : String)
  | deallocate (addr : List Char)
  | deallocateContainer (containerID : String)

/-- The markers of a pool, and the address that each container holds by the answers it was given. -/
structure State where
  markers : Markers
  held : String → Option IP

def State.empty : State := ⟨[], fun _ => none⟩

def step (a : IPv4PoolAllocator) (s : State) : Event → State
  | .allocate containerID =>
    match a.allocate containerID s.markers with
    | (.ok ip, ms) => ⟨ms, update s.held containerID (some ip)⟩
    | (.error _, ms) => ⟨ms, s.held⟩
  | .deallocate addr => ⟨deallocate addr s.markers, fun c => (s.held c).filter fun ip => ip.string ≠ addr⟩
  | .deallocateContainer containerID =>
    match deallocateContainer containerID s.markers with
    | (some _, ms) => ⟨ms, update s.held containerID none⟩
    | (none, ms) => ⟨ms, s.held⟩

def run (a : IPv4PoolAllocator) (events : List Event) : State := events.foldl a.step .empty

/-- The markers are the held addresses. -/
structure Kept (a : IPv4PoolAllocator) (s : State) : Prop where
  nodup : (s.markers.map (·.1)).Nodup
  marker : ∀ m ∈ s.markers, ∃ ip, s.held m.2 = some ip ∧ ip.string = m.1
  held : ∀ c ip, s.held c = some ip → (ip.string, c) ∈ s.markers
  assignable : ∀ c ip, s.held c = some ip → Assignable a ip

namespace Kept
variable {a : IPv4PoolAllocator} {host : Nat} {s : State} {c : String}

theorem empty (a : IPv4PoolAllocator) : Kept a .empty where
  nodup := nodup_nil
  marker m hm := absurd hm not_mem_nil
  held c ip h := by cases h
  assignable c ip h := by cases h

section
variable (hk : Kept a s) {ip : IP}

include hk

theorem eq_of_name {m m' : List Char × String} (hm : m ∈ s.markers) (hm' : m' ∈ s.markers) (hname : m.1 = m'.1) :
    m = m' :=
  inj_on_of_nodup_map hk.nodup hm hm' hname

theorem unique {c d : String} (hc : s.held c = some ip) (hd : s.held d = some ip) : c = d :=
  congrArg Prod.snd (hk.eq_of_name (hk.held c ip hc) (hk.held d ip hd) rfl)

theorem find_of_held (hc : s.held c = some ip) : findContainerMarker s.markers c = some ip.string := by
  have hne : findContainerMarker s.markers c ≠ none := by
    rw [Ne, findContainerMarker_eq_none]
    intro hall
    exact hall _ (hk.held c ip hc) rfl
  obtain ⟨name, hname⟩ := ne_none_iff_exists'.mp hne
  obtain ⟨ip', hip', htext⟩ := hk.marker _ (mem_of_findContainerMarker hname)
  rw [hc] at hip'
  rw [hname, some.inj hip', htext]

theorem find_of_not_held (hc : s.held c = none) : findContainerMarker s.markers c = none := by
  rw [findContainerMarker_eq_none]
  rintro m hm rfl
  obtain ⟨ip, hip, -⟩ := hk.marker m hm
  rw [hc] at hip
  cases hip

theorem allocate_of_held (hc : s.held c = some ip) : a.allocate c s.markers = (.ok ip, s.markers) := by
  unfold IPv4PoolAllocator.allocate
  rw [hk.find_of_held hc]
  dsimp only
  rw [parseIP_string (hk.assignable c ip hc).length, getD_some]

end

theorem allocate_of_not_held (hk : Kept a s) (h : Pool4 a host) (hc : s.held c = none) :
    (∃ e, a.allocate c s.markers = (.error e, s.markers) ∧ ∀ ip, Assignable a ip → ip.string ∈ s.markers.map (·.1)) ∨
    ∃ ip, a.allocate c s.markers = (.ok ip, writeMarker ip.string c s.markers) ∧ Assignable a ip ∧
      ip.string ∉ s.markers.map (·.1) := by
  unfold IPv4PoolAllocator.allocate
  rw [hk.find_of_not_held hc]
  rcases h.search_total (s.markers.map (·.1)) with ⟨ip, hfound, hip, hnew⟩ | ⟨hnone, hall⟩
  · exact .inr ⟨ip, by rw [hfound], hip, hnew⟩
  · exact .inl ⟨_, by rw [hnone], hall⟩

theorem assign (hk : Kept a s) {ip : IP} (hc : s.held c = none) (hip : Assignable a ip)
    (hnew : ip.string ∉ s.markers.map (·.1)) :
    Kept a ⟨writeMarker ip.string c s.markers, update s.held c (some ip)⟩ := by
  have hperm : (writeMarker ip.string c s.markers).Perm ((ip.string, c) :: s.markers) :=
    writeMarker_perm _ fun m hm heq => hnew (heq ▸ mem_map_of_mem hm)
  constructor
  · have hnames := hperm.map (·.1)
    rw [hnames.nodup_iff]
    exact nodup_cons.mpr ⟨hnew, hk.nodup⟩
  · intro m hm
    rcases mem_cons.mp (hperm.mem_iff.mp hm) with rfl | hm
    · exact ⟨ip, update_self .., rfl⟩
    obtain ⟨ip', hip', htext⟩ := hk.marker m hm
    have hne : m.2 ≠ c := by
      intro heq
      rw [heq, hc] at hip'
      cases hip'
    exact ⟨ip', (update_of_ne hne _ _).trans hip', htext⟩
  · refine Entries.forall_update (fun ip' h => ?_) fun d _ ip' hd => ?_
    · rw [hperm.mem_iff, ← some.inj h]
      exact mem_cons_self
    · exact hperm.mem_iff.mpr (mem_cons_of_mem _ (hk.held d ip' hd))
  · exact Entries.forall_update (fun _ h => some.inj h ▸ hip) fun d _ => hk.assignable d

theorem release (hk : Kept a s) (addr : List Char) :
    Kept a ⟨removeMarker addr s.markers, fun c => (s.held c).filter fun ip => ip.string ≠ addr⟩ := by
  constructor
  · exact (filter_sublist.map _).nodup hk.nodup
  · intro m hm
    obtain ⟨hm, hne⟩ := mem_filter.mp hm
    obtain ⟨ip, hip, htext⟩ := hk.marker m hm
    refine ⟨ip, ?_, htext⟩
    dsimp only
    rw [hip, filter_some, htext, if_pos hne]
  · intro d ip hd
    obtain ⟨hd, hne⟩ := filter_eq_some_iff.mp hd
    exact mem_filter.mpr ⟨hk.held d ip hd, hne⟩
  · intro d ip hd
    exact hk.assignable d ip (filter_eq_some_iff.mp hd).1

theorem update_none_eq (hk : Kept a s) {ip : IP} (hc : s.held c = some ip) :
    update s.held c none = fun d => (s.held d).filter fun ip' => ip'.string ≠ ip.string := by
  funext d
  by_cases hdc : d = c
  · subst hdc
    rw [update_self, hc, filter_some, if_neg (by simp)]
  rw [update_of_ne hdc]
  rcases hd : s.held d with _ | ip'
  · rfl
  have hne : ip'.string ≠ ip.string := by
    intro heq
    have hsame := string_inj (hk.assignable d ip' hd).length (hk.assignable c ip hc).length heq
    subst hsame
    exact hdc (hk.unique hd hc)
  rw [filter_some, if_pos (by simpa using hne)]

theorem step (h : Pool4 a host) (hk : Kept a s) (e : Event) : Kept a (a.step s e) := by
  rcases e with c | addr | c
  · unfold IPv4PoolAllocator.step
    dsimp only
    rcases hc : s.held c with _ | ip
    · rcases hk.allocate_of_not_held h hc with ⟨e, he, -⟩ | ⟨ip, he, hip, hnew⟩
      · rw [he]
        exact hk
      · rw [he]
        exact hk.assign hc hip hnew
    · rw [hk.allocate_of_held hc]
      dsimp only
      rw [Function.update_eq_self_iff.mpr hc.symm]
      exact hk
  · exact hk.release addr
  · unfold IPv4PoolAllocator.step deallocateContainer
    dsimp only
    rcases hc : s.held c with _ | ip
    · rw [hk.find_of_not_held hc]
      exact hk
    rw [hk.find_of_held hc]
    dsimp only
    rw [hk.update_none_eq hc]
    exact hk.release ip.string

end Kept

/-- **Run.** -/
theorem kept_run {a : IPv4PoolAllocator} {host : Nat} (h : Pool4 a host) (events : List Event) :
    Kept a (a.run events) :=
  foldlRecOn events a.step (Kept.empty a) fun _ hk e _ => hk.step h e

/-- **Allocation.** In every state that the calls on an accepted pool lead to, different containers hold different
addresses of the pool, none of them reserved; a container that holds one is given it again; and an allocation that
fails, as exhausted, finds every address held that is not reserved. -/
theorem run_allocations {poolCIDR gateway : List Char} {lockDir : String} {a : IPv4PoolAllocator}
    (hnew : newIPv4PoolAllocator poolCIDR gateway lockDir = .ok a) (events : List Event) :
    (∀ c d ip, (a.run events).held c = some ip → (a.run events).held d = some ip → c = d) ∧
    (∀ c ip, (a.run events).held c = some ip → ip.length = 4 ∧ a.pool.contains ip = true ∧ ¬a.IsReserved ip) ∧
    (∀ c ip, (a.run events).held c = some ip → a.allocate c (a.run events).markers = (.ok ip, (a.run events).markers)) ∧
    (∀ c e, (a.allocate c (a.run events).markers).1 = .error e → ∀ ip : IP, ip.length = 4 → a.pool.contains ip = true →
      ¬a.IsReserved ip → ∃ d, (a.run events).held d = some ip) := by
  obtain ⟨host, h⟩ := newIPv4PoolAllocator_pool4 hnew
  have hk := kept_run h events
  refine ⟨fun c d ip hc hd => hk.unique hc hd, fun c ip hc => ?_, fun c ip hc => hk.allocate_of_held hc, ?_⟩
  · have hip := hk.assignable c ip hc
    exact ⟨hip.length, hip.inside, hip.free⟩
  intro c e hfail ip hlen hin hfree
  rcases hc : (a.run events).held c with _ | ip'
  · rcases hk.allocate_of_not_held h hc with ⟨-, -, hall⟩ | ⟨ip', he, -, -⟩
    · obtain ⟨m, hm, hname⟩ := mem_map.mp (hall ip ⟨hlen, hin, hfree⟩)
      obtain ⟨ip', hip', htext⟩ := hk.marker m hm
      refine ⟨m.2, ?_⟩
      rw [hip', string_inj (hk.assignable _ _ hip').length hlen (htext.trans hname)]
    · rw [he] at hfail
      cases hfail
  · -- a container that holds an address is not refused for want of others
    rw [hk.allocate_of_held hc] at hfail
    cases hfail

/-- The allocator of `10.0.0.0/29` with its default gateway. -/
def eightAddresses : IPv4PoolAllocator where
  pool := ⟨[10, 0, 0, 0], cidrMask 29 32⟩
  gateway := [10, 0, 0, 1]
  stateDir := "/run/ipam/10.0.0.0-29"

/-- Five containers use the pool, one of them after another. -/
def fullRun : List Event :=
  [.allocate "a", .allocate "b", .allocate "c", .deallocateContainer "b", .allocate "d",
    .deallocate "10.0.0.4".toList, .allocate "e", .allocate "f"]

/-- The four addresses that are not reserved are all held, and a further container is refused. -/
theorem run_allocations_full :
    newIPv4PoolAllocator "10.0.0.0/29".toList [] "/run/ipam" = .ok eightAddresses ∧
      (eightAddresses.run fullRun).held "a" = some [10, 0, 0, 2] ∧
      eightAddresses.allocate "a" (eightAddresses.run fullRun).markers =
        (.ok [10, 0, 0, 2], (eightAddresses.run fullRun).markers) ∧
      (eightAddresses.allocate "g" (eightAddresses.run fullRun).markers).1 = .error "pool 10.0.0.0/29 exhausted" ∧
      ∀ ip : IP, ip.length = 4 → eightAddresses.pool.contains ip = true → ¬eightAddresses.IsReserved ip →
        ∃ d, (eightAddresses.run fullRun).held d = some ip := by
  have hnew : newIPv4PoolAllocator "10.0.0.0/29".toList [] "/run/ipam" = .ok eightAddresses := by decide +kernel
  obtain ⟨-, -, hagain, hexhausted⟩ := run_allocations hnew fullRun
  refine ⟨hnew, ?held, hagain _ _ ?held, ?full, hexhausted _ _ ?full⟩
  · decide +kernel
  · decide +kernel

end IPv4PoolAllocator

end Galactic.Ipam
