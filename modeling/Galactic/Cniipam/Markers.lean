import Galactic.Cniipam.Commands
import Galactic.Ipam.Subnets
import Galactic.Ipam.Held4

/-!
# The markers of one container

Of a directory of markers only the names that one container holds count here. An allocation for another container keeps
them, and a successful one for the container itself makes sure that there is one; a release takes away the markers that
have the name of the first. -/

namespace Galactic.Cniipam
open List Ipam Net

open Net (IP IPNet)
open Ipam (CniError Markers PoolAllocator IPv4PoolAllocator newPoolAllocator newIPv4PoolAllocator writeMarker
  removeMarker findContainerMarker sanitizePoolDirName)

/-! ### The markers of a container -/

def namesOf (c : String) (ms : Markers) : List (List Char) := (ms.filter fun m => m.2 = c).map (·.1)

section
variable {c : String} {ms : Markers} {name : List Char}

theorem namesOf_eq_nil : namesOf c ms = [] ↔ ∀ m ∈ ms, m.2 ≠ c := by
  simp [namesOf, filter_eq_nil_iff]

theorem mem_namesOf : name ∈ namesOf c ms ↔ (name, c) ∈ ms := by
  unfold namesOf
  rw [mem_map]
  constructor
  · rintro ⟨m, hm, rfl⟩
    obtain ⟨hm, hc⟩ := mem_filter.mp hm
    have hc : m.2 = c := by simpa using hc
    rw [← hc]
    exact hm
  · intro hm
    exact ⟨_, mem_filter.mpr ⟨hm, by simp⟩, rfl⟩

theorem findContainerMarker_eq_head (c : String) (ms : Markers) : findContainerMarker ms c = (namesOf c ms).head? := by
  unfold findContainerMarker namesOf
  rw [head?_map, head?_filter]

theorem namesOf_removeMarker (c : String) (name : List Char) (ms : Markers) :
    namesOf c (removeMarker name ms) = (namesOf c ms).filter fun n => n ≠ name := by
  unfold namesOf removeMarker
  rw [filter_map, filter_filter, filter_filter]
  simp only [Function.comp_def, Bool.and_comm]

theorem namesOf_writeMarker {c d : String} (hnew : ∀ m ∈ ms, m.1 ≠ name) (hdc : d ≠ c) :
    namesOf d (writeMarker name c ms) = namesOf d ms := by
  induction ms with
  | nil => simp [writeMarker, namesOf, Ne.symm hdc]
  | cons m ms ih =>
    unfold writeMarker
    rw [if_neg (hnew m mem_cons_self)]
    split_ifs
    · simp [namesOf, Ne.symm hdc]
    have hrest := ih fun m' hm' => hnew m' (mem_cons_of_mem _ hm')
    unfold namesOf at hrest ⊢
    rw [filter_cons, filter_cons]
    split_ifs
    · rw [map_cons, map_cons, hrest]
    · exact hrest

theorem namesOf_writeMarker_self (hnew : ∀ m ∈ ms, m.1 ≠ name) (hnone : namesOf c ms = []) :
    namesOf c (writeMarker name c ms) = [name] := by
  have hperm := ((writeMarker_perm c hnew).filter fun m => m.2 = c).map (·.1)
  change (namesOf c (writeMarker name c ms)).Perm (namesOf c ((name, c) :: ms)) at hperm
  have hcons : namesOf c ((name, c) :: ms) = [name] := by
    unfold namesOf at hnone ⊢
    rw [filter_cons, if_pos (by simp), map_cons, hnone]
  rw [hcons] at hperm
  exact perm_singleton.mp hperm

end

/-! ### Allocation -/

/-- What an allocation does to the markers of a pool: nothing, or it writes a new one for a container that has none. -/
inductive Allocates (c : String) (ms : Markers) {ε α : Type} : Except ε α × Markers → Prop
  | failed (e : ε) : Allocates c ms (.error e, ms)
  | again (x : α) (hheld : namesOf c ms ≠ []) : Allocates c ms (.ok x, ms)
  | fresh (x : α) (name : List Char) (hnone : namesOf c ms = []) (hnew : ∀ m ∈ ms, m.1 ≠ name) :
    Allocates c ms (.ok x, writeMarker name c ms)

/-- A container has a marker, the ones it had or a first one. -/
def Grown (before after : List (List Char)) : Prop := (before ≠ [] ∧ after = before) ∨ (before = [] ∧ ∃ n, after = [n])

section Allocates
variable {c d : String} {ms : Markers} {ε α : Type} {r : Except ε α × Markers}

theorem Allocates.others (h : Allocates c ms r) (hdc : d ≠ c) : namesOf d r.2 = namesOf d ms := by
  rcases h with e | ⟨x, hheld⟩ | ⟨x, name, hnone, hnew⟩
  · rfl
  · rfl
  · exact namesOf_writeMarker hnew hdc

theorem Allocates.grown (h : Allocates c ms r) (hok : r.1.isOk) : Grown (namesOf c ms) (namesOf c r.2) := by
  rcases h with e | ⟨x, hheld⟩ | ⟨x, name, hnone, hnew⟩
  · cases hok
  · exact .inl ⟨hheld, rfl⟩
  · exact .inr ⟨hnone, name, namesOf_writeMarker_self hnew hnone⟩

theorem namesOf_of_find {name : List Char} (h : findContainerMarker ms c = some name) : namesOf c ms ≠ [] := by
  intro hnone
  rw [findContainerMarker_eq_head, hnone] at h
  cases h

theorem namesOf_of_find_none (h : findContainerMarker ms c = none) : namesOf c ms = [] := by
  rw [findContainerMarker_eq_head] at h
  exact head?_eq_none_iff.mp h

end Allocates

variable {a : PoolAllocator}

theorem search_spec {used : List (List Char)} (hsub : a.subnetLen = 96) {fuel : Nat} {start x : IP}
    (hlen : start.length = 16) (h : a.search used fuel start = some x) :
    x.length = 16 ∧ a.pool.contains x ∧ (a.subnet x).string ∉ used := by
  induction fuel generalizing start with
  | zero => cases h
  | succ fuel ih =>
    unfold PoolAllocator.search at h
    split_ifs at h with hin hex
    · rw [hsub] at h
      exact ih (length_incSubnet hlen) h
    obtain rfl := Option.some.inj h
    have hfree : ¬((a.subnet start).string = a.reserved ∨ (a.subnet start).string ∈ used) := by
      simpa [PoolAllocator.excluded] using hex
    exact ⟨hlen, by simpa using hin, fun hmem => hfree (.inr hmem)⟩

variable {len : Nat}

theorem allocates6 (h : Ipam.Pool96 a len) (c : String) (ms : Markers) : Allocates c ms (a.allocate c ms) := by
  unfold PoolAllocator.allocate
  split
  · next name hfind =>
    split
    · exact .failed _
    · exact .again _ (namesOf_of_find hfind)
  next hfind =>
  split
  · exact .failed _
  next start hsearch =>
  refine .fresh _ _ (namesOf_of_find_none hfind) fun m hm heq => ?_
  obtain ⟨hlen, hin, hunused⟩ := search_spec h.subnetLen h.isPrefix.length hsearch
  have h4 := ((h.isPrefix.contains_iff h.notV4 hlen).mp hin).1
  -- the name of the new marker reads back as the text of its subnet
  have htext := desanitize_text hlen h4
  rw [← h.subnet_eq, ← heq] at htext
  exact hunused (mem_map.mpr ⟨m, hm, htext⟩)

variable {host : Nat}

theorem allocates4 {a : IPv4PoolAllocator} (h : a.Pool4 host) (c : String) (ms : Markers) :
    Allocates c ms (a.allocate c ms) := by
  unfold IPv4PoolAllocator.allocate
  split
  · next name hfind => exact .again _ (namesOf_of_find hfind)
  next hfind =>
  split
  · exact .failed _
  next addr hsearch =>
  refine .fresh _ _ (namesOf_of_find_none hfind) fun m hm heq => ?_
  rcases h.search_total (ms.map (·.1)) with ⟨ip, hfound, -, hnew⟩ | ⟨hnone, -⟩
  · rw [hsearch] at hfound
    cases hfound
    exact hnew (mem_map.mpr ⟨m, hm, heq⟩)
  · rw [hsearch] at hnone
    cases hnone

/-! ### Release -/

def dropFirst : List (List Char) → List (List Char)
  | [] => []
  | name :: names => (name :: names).filter fun n => n ≠ name

theorem dropFirst_eq_nil_iff (names : List (List Char)) : dropFirst names = [] ↔ ∀ n ∈ names, ∀ n' ∈ names, n = n' := by
  cases names with
  | nil => simp [dropFirst]
  | cons name names =>
    simp only [dropFirst, filter_eq_nil_iff, decide_eq_true_eq, not_not]
    constructor
    · intro h n hn n' hn'
      rw [h n hn, h n' hn']
    · intro h n hn
      exact h n hn name mem_cons_self

/-- A directory has one file of a name. -/
def Distinct (ms : Markers) : Prop := (ms.map (·.1)).Nodup

variable {c : String} {ms : Markers} {α : Type}

theorem Allocates.distinct {ε : Type} {r : Except ε α × Markers} (h : Allocates c ms r) (hms : Distinct ms) :
    Distinct r.2 := by
  rcases h with e | ⟨x, hheld⟩ | ⟨x, name, hnone, hnew⟩
  · exact hms
  · exact hms
  unfold Distinct
  rw [((writeMarker_perm c hnew).map (·.1)).nodup_iff]
  refine nodup_cons.mpr ⟨fun hmem => ?_, hms⟩
  obtain ⟨m, hm, heq⟩ := mem_map.mp hmem
  exact hnew m hm heq

/-- What `DeallocateContainer` does to the markers of a pool. -/
structure Releases (c : String) (ms ms' : Markers) : Prop where
  distinct : Distinct ms'
  others : ∀ d, d ≠ c → namesOf d ms' = namesOf d ms
  own : namesOf c ms' = dropFirst (namesOf c ms)

theorem releases6 (hms : Distinct ms) : Releases c ms (PoolAllocator.deallocateContainer c ms).2 := by
  unfold PoolAllocator.deallocateContainer
  rcases hfind : findContainerMarker ms c with _ | name
  · refine ⟨hms, fun d _ => rfl, ?_⟩
    rw [namesOf_of_find_none hfind]
    rfl
  refine ⟨(filter_sublist.map _).nodup hms, fun d hd => ?_, ?_⟩
  · rw [namesOf_removeMarker, filter_eq_self]
    intro n hn
    rw [decide_eq_true_eq]
    rintro rfl
    have hsame := inj_on_of_nodup_map hms (mem_namesOf.mp hn) (mem_of_findContainerMarker hfind) rfl
    exact hd (congrArg Prod.snd hsame)
  · rw [namesOf_removeMarker]
    rw [findContainerMarker_eq_head] at hfind
    obtain ⟨names, hnames⟩ := head?_eq_some_iff.mp hfind
    rw [hnames, dropFirst]

theorem releases4 (hms : Distinct ms) : Releases c ms (IPv4PoolAllocator.deallocateContainer c ms).2 := by
  have hsame : (IPv4PoolAllocator.deallocateContainer c ms).2 = (PoolAllocator.deallocateContainer c ms).2 := by
    unfold IPv4PoolAllocator.deallocateContainer PoolAllocator.deallocateContainer
    cases findContainerMarker ms c <;> rfl
  exact hsame ▸ releases6 hms

/-! ### Pools of a document -/

def DualStackAllocator.dirs (a : DualStackAllocator) : List String :=
  (a.ipv6.map (·.stateDir)).toList ++ (a.ipv4.map (·.stateDir)).toList

/-- What the constructors establish, and that the families do not share a directory. -/
structure DualStackAllocator.Valid (a : DualStackAllocator) : Prop where
  ipv6 : ∀ p ∈ a.ipv6, ∃ len, Ipam.Pool96 p len
  ipv4 : ∀ p ∈ a.ipv4, ∃ host, p.Pool4 host
  apart : ∀ p ∈ a.ipv6, ∀ q ∈ a.ipv4, p.stateDir ≠ q.stateDir

variable {dir : String} {s : List Char}

theorem joinPath_inj {t : List Char} (h : joinPath dir s = joinPath dir t) : s = t := by
  unfold joinPath at h
  have hlist := congrArg String.toList h
  simpa using hlist

variable {pool gateway : List Char}

theorem stateDir6 {subnetLen : Nat} (h : newPoolAllocator pool gateway subnetLen dir = .ok a) :
    a.stateDir = joinPath dir (sanitizePoolDirName a.pool.string) := by
  unfold newPoolAllocator at h
  split at h
  · cases h
  dsimp only at h
  split_ifs at h
  all_goals
    split at h
    · cases h
    · cases h
      rfl

theorem stateDir4 {a : IPv4PoolAllocator} (h : newIPv4PoolAllocator pool gateway dir = .ok a) :
    a.stateDir = joinPath dir (sanitizePoolDirName a.pool.string) := by
  unfold newIPv4PoolAllocator at h
  split at h
  · cases h
  split at h
  · cases h
  dsimp only at h
  split_ifs at h
  split at h
  · cases h
  · cases h
    rfl

theorem colon_mem_sanitize : ':' ∈ sanitizePoolDirName s ↔ ':' ∈ s := by
  unfold sanitizePoolDirName
  rw [mem_map]
  constructor
  · rintro ⟨c, hc, heq⟩
    split_ifs at heq
    · simp at heq
    · rwa [← heq]
  · intro h
    exact ⟨':', h, rfl⟩

theorem colon_mem_pool6 (h : Ipam.Pool96 a len) : ':' ∈ a.pool.string := by
  rw [IPNet.string, h.isPrefix.networkNumberAndMask h.notV4]
  have htext : a.pool.ip.string = string6 a.pool.ip := by
    simp [IP.string, h.notV4, h.isPrefix.length, ipv4Len, ipv6Len]
  have hcolon := colon_mem_string6 h.isPrefix.length
  dsimp only
  split <;> simp [htext, hcolon]

theorem colon_notMem_pool4 {a : IPv4PoolAllocator} (h : a.Pool4 host) : ':' ∉ a.pool.string := by
  have hle := h.host_le
  rw [IPNet.string, h.networkNumberAndMask]
  dsimp only
  rw [simpleMaskLength_maskBytes 4 _ (by omega)]
  dsimp only
  rw [string_of_length h.length, mem_append, mem_cons]
  rintro (hmem | hmem | hmem)
  · obtain ⟨x, y, z, w, hip⟩ := exists_bytes_of_length h.length
    rw [hip] at hmem
    rcases mem_intercalate_singleton _ hmem with hdot | ⟨l, hl, hc⟩
    · simp at hdot
    · obtain ⟨b, -, rfl⟩ := mem_map.mp hl
      exact absurd (isHex_octet b _ hc) (by decide)
  · simp at hmem
  · have hall : ∀ n < 33, ':' ∉ dec n := by decide +kernel
    exact hall _ (by omega) hmem

/-- The pool of a text, if it names one. -/
def poolAt (new : List Char → Except String α) (pool : List Char) : Option α := (newIfSet new pool).toOption.join

section
variable {new : List Char → Except String α} {o : Option α}

theorem poolAt_eq (h : newIfSet new pool = .ok o) : poolAt new pool = o := by
  unfold poolAt
  rw [h]
  rfl

theorem mem_poolAt {p : α} (h : p ∈ poolAt new pool) : new pool = .ok p := by
  unfold poolAt newIfSet at h
  split_ifs at h
  · cases h
  rcases hnew : new pool with e | a <;> rw [hnew] at h
  · cases h
  · cases h
    rfl

theorem exists_of_newIfSet (h : newIfSet new pool = .ok o) (hpool : pool ≠ []) : ∃ a, o = some a := by
  unfold newIfSet at h
  rw [if_neg hpool] at h
  rcases hnew : new pool with e | a <;> rw [hnew] at h
  · cases h
  · exact ⟨a, (Except.ok.inj h).symm⟩

end

def poolsAt (dir : String) (ipv6Pool ipv4Pool : List Char) : DualStackAllocator :=
  ⟨poolAt (newPoolAllocator · [] defaultSubnetLen dir) ipv6Pool, poolAt (newIPv4PoolAllocator · [] dir) ipv4Pool⟩

theorem poolsAt_valid (dir : String) (ipv6Pool ipv4Pool : List Char) : (poolsAt dir ipv6Pool ipv4Pool).Valid := by
  refine ⟨fun p hp => newPoolAllocator_pool96 (.inr rfl) (mem_poolAt hp),
    fun p hp => IPv4PoolAllocator.newIPv4PoolAllocator_pool4 (mem_poolAt hp), fun p hp q hq heq => ?_⟩
  obtain ⟨len, hlen⟩ := newPoolAllocator_pool96 (.inr rfl) (mem_poolAt hp)
  obtain ⟨host, hhost⟩ := IPv4PoolAllocator.newIPv4PoolAllocator_pool4 (mem_poolAt hq)
  rw [stateDir6 (mem_poolAt hp), stateDir4 (mem_poolAt hq)] at heq
  have hcolon := colon_mem_sanitize.mpr (colon_mem_pool6 hlen)
  rw [joinPath_inj heq, colon_mem_sanitize] at hcolon
  exact colon_notMem_pool4 hhost hcolon

variable {ipv6Pool ipv4Pool : List Char}

theorem newDualStackAllocator_eq_ok {a : DualStackAllocator} (h : newDualStackAllocator ipv6Pool ipv4Pool dir = .ok a) :
    newIfSet (newPoolAllocator · [] defaultSubnetLen dir) ipv6Pool = .ok a.ipv6 ∧
      newIfSet (newIPv4PoolAllocator · [] dir) ipv4Pool = .ok a.ipv4 := by
  obtain ⟨ipv6, h6, h⟩ := FallibleLoop.bind_eq_ok.mp h
  obtain ⟨ipv4, h4, h⟩ := FallibleLoop.bind_eq_ok.mp h
  cases h
  exact ⟨h6, h4⟩

theorem eq_poolsAt {a : DualStackAllocator} (h : newDualStackAllocator ipv6Pool ipv4Pool dir = .ok a) :
    a = poolsAt dir ipv6Pool ipv4Pool := by
  obtain ⟨h6, h4⟩ := newDualStackAllocator_eq_ok h
  rw [poolsAt, poolAt_eq h6, poolAt_eq h4]

end Galactic.Cniipam
