import Galactic.Lib.ByteWord
import Galactic.Net.Printed

/-!
# The IPv6 pool allocator

`PoolAllocator` of `internal/cni/ipam`, with the check `validateIPv6Subnet` that its pool passes first. An
allocation is a marker file named after the subnet, whose content is the container that holds it; the directory
of markers is the whole state, since every CNI call is a process of its own. A lock serialises the calls.

A directory is kept as `os.ReadDir` lists it, in the order of the names and without the lock file, which is no
marker. The file system is taken to answer: locks are granted, and listings, reads, writes and removals succeed. -/

namespace Galactic.Ipam
open List Net

def ipv6Bits : Nat := 128
def defaultSubnetLen : Nat := 96
def maxIPv6SubnetPrefixLen : Nat := 96

/-! ### Configuration -/

structure CniError where
  code : Nat
  msg : String
  deriving DecidableEq, Repr

def quote (s : List Char) : String := (String.ofList s).quote

def sanitizeForError (s : List Char) : List Char :=
  if s.any fun c => c.toNat < 0x20 ∨ 0x7e < c.toNat then "<binary>".toList else s

def validateIPv6Subnet (subnet : List Char) : Except CniError Unit :=
  match parseCIDR subnet with
  | none =>
    .error ⟨7, "invalid CIDR value for field 'ipam.ipv6_subnet': " ++ quote (sanitizeForError subnet)⟩
  | some (ip, n) =>
    if ip.to4.isSome then
      .error ⟨7, "ipam.ipv6_subnet must be an IPv6 CIDR, got IPv4: " ++ quote (sanitizeForError subnet)⟩
    else if maxIPv6SubnetPrefixLen < (maskSize n.mask).1 then
      .error ⟨7, "ipam.ipv6_subnet prefix length " ++ toString (maskSize n.mask).1 ++ " exceeds maximum of " ++
        toString maxIPv6SubnetPrefixLen ++ ": " ++ quote (sanitizeForError subnet)⟩
    else .ok ()

/-! ### The allocator -/

structure PoolAllocator where
  pool : IPNet
  subnetLen : Nat
  gateway : IP
  /-- the text of the subnet that contains the gateway -/
  reserved : List Char
  stateDir : String
  deriving DecidableEq

def sanitizePoolDirName (s : List Char) : List Char := s.map fun c => if c = '/' then '-' else c

/-- `filepath.Join` of a clean directory and a name. -/
def joinPath (dir : String) (name : List Char) : String := dir ++ "/" ++ String.ofList name

def poolGateway (pool : IPNet) (poolCIDR gateway : List Char) : Except String IP :=
  if gateway ≠ [] then
    match parseIP gateway with
    | none => .error ("invalid gateway IP: " ++ String.ofList gateway)
    | some gw =>
      if !pool.contains gw then
        .error ("gateway " ++ String.ofList gateway ++ " is not in pool " ++ String.ofList poolCIDR)
      else .ok gw
  else .ok (pool.ip.set 15 1)

def newPoolAllocator (poolCIDR gateway : List Char) (subnetLen : Nat) (lockDir : String) :
    Except String PoolAllocator :=
  match parseCIDR poolCIDR with
  | none => .error ("parse pool CIDR " ++ quote poolCIDR ++ ": invalid CIDR address: " ++ String.ofList poolCIDR)
  | some (_, pool) =>
    if pool.ip.to4.isSome then .error ("pool must be IPv6, got IPv4: " ++ String.ofList poolCIDR)
    else
      let subnetLen := if subnetLen = 0 then defaultSubnetLen else subnetLen
      if subnetLen < (maskSize pool.mask).1 then
        .error ("pool prefix length " ++ toString (maskSize pool.mask).1 ++ " is longer than subnet length " ++
          toString subnetLen)
      else if lockDir = "" then .error "lockDir must not be empty"
      else
        match poolGateway pool poolCIDR gateway with
        | .error e => .error e
        | .ok gw =>
          let mask := cidrMask subnetLen ipv6Bits
          .ok ⟨pool, subnetLen, gw, (IPNet.mk ((gw.mask mask).getD []) mask).string,
            joinPath lockDir (sanitizePoolDirName pool.string)⟩

/-- `incSubnet`: the bytes behind the boundary byte become zero and the boundary byte counts up, with a carry
into the bytes before it. -/
def incSubnet (ip : IP) (subnetLen : Nat) : IP :=
  let boundary := subnetLen / 8
  (ByteWord.inc (ip.take (boundary + 1)).reverse).reverse ++ List.replicate (ip.length - (boundary + 1)) 0

/-! ### Markers -/

abbrev Markers := List (List Char × String)

def desanitizeMarkerName (name : List Char) : List Char :=
  match cut '-' name with
  | none => name
  | some (before, after) => before ++ '/' :: after

def atoi (s : List Char) : Option Int :=
  let n := match s with
    | '-' :: ds => (parseDec ds).map fun n => -(n : Int)
    | '+' :: ds => (parseDec ds).map fun n => (n : Int)
    | ds => (parseDec ds).map fun n => (n : Int)
  n.filter fun n => -2 ^ 63 ≤ n ∧ n < 2 ^ 63

/-- `parseAllocatedSubnet`: the address is kept as it is, not masked. -/
def parseAllocatedSubnet (cidr : List Char) : Except String IPNet :=
  match cut '/' cidr with
  | none => .error ("missing '/' in subnet CIDR " ++ quote cidr)
  | some (ipStr, prefixStr) =>
    match parseIP ipStr with
    | none => .error ("invalid IP in subnet CIDR " ++ quote cidr)
    | some ip =>
      match atoi prefixStr with
      | none => .error ("invalid prefix length in subnet CIDR " ++ quote cidr)
      | some n => .ok ⟨ip, if n < 0 then [] else cidrMask n.toNat ipv6Bits⟩

/-- The entry of `os.WriteFile`: a file of the name is overwritten, a new one takes its place in the order. -/
def writeMarker (name : List Char) (content : String) : Markers → Markers
  | [] => [(name, content)]
  | m :: rest =>
    if m.1 = name then (name, content) :: rest
    else if name < m.1 then (name, content) :: m :: rest
    else m :: writeMarker name content rest

def removeMarker (name : List Char) (ms : Markers) : Markers := ms.filter fun m => m.1 ≠ name

def findContainerMarker (ms : Markers) (containerID : String) : Option (List Char) :=
  (ms.find? fun m => m.2 = containerID).map (·.1)

theorem mem_writeMarker (name : List Char) (content : String) (ms : Markers) :
    (name, content) ∈ writeMarker name content ms := by
  induction ms with
  | nil => exact mem_singleton_self _
  | cons m ms ih =>
    unfold writeMarker
    split_ifs
    · exact mem_cons_self
    · exact mem_cons_self
    · exact mem_cons_of_mem _ ih

section
variable {name : List Char} {ms : Markers} {c : String}

theorem mem_writeMarker_of_ne {content : String} {m : List Char × String} (hm : m ∈ ms) (hne : m.1 ≠ name) :
    m ∈ writeMarker name content ms := by
  induction ms with
  | nil => cases hm
  | cons m' ms ih =>
    unfold writeMarker
    split_ifs with heq hlt
    · rcases mem_cons.mp hm with rfl | hm
      · exact absurd heq hne
      · exact mem_cons_of_mem _ hm
    · exact mem_cons_of_mem _ hm
    · rcases mem_cons.mp hm with rfl | hm
      · exact mem_cons_self
      · exact mem_cons_of_mem _ (ih hm)

theorem writeMarker_perm (content : String) (h : ∀ m ∈ ms, m.1 ≠ name) :
    (writeMarker name content ms).Perm ((name, content) :: ms) := by
  induction ms with
  | nil => exact List.Perm.refl _
  | cons m ms ih =>
    unfold writeMarker
    rw [if_neg (h m mem_cons_self)]
    split_ifs
    · exact List.Perm.refl _
    · exact ((ih fun m' hm' => h m' (mem_cons_of_mem _ hm')).cons m).trans (List.Perm.swap _ _ _)

theorem findContainerMarker_eq_none : findContainerMarker ms c = none ↔ ∀ m ∈ ms, m.2 ≠ c := by
  simp [findContainerMarker, Prod.forall]

theorem mem_of_findContainerMarker (h : findContainerMarker ms c = some name) : (name, c) ∈ ms := by
  unfold findContainerMarker at h
  obtain ⟨m, hm, rfl⟩ := Option.map_eq_some_iff.mp h
  have hc : m.2 = c := by simpa using find?_some hm
  rw [← hc]
  exact mem_of_find?_eq_some hm

end

/-! ### Calls -/

namespace PoolAllocator

def subnet (a : PoolAllocator) (start : IP) : IPNet := ⟨start, cidrMask a.subnetLen ipv6Bits⟩

def excluded (a : PoolAllocator) (used : List (List Char)) (start : IP) : Bool :=
  (a.subnet start).string = a.reserved ∨ (a.subnet start).string ∈ used

/-- The loop of `Allocate` over the pool, for `fuel` steps at most. -/
def search (a : PoolAllocator) (used : List (List Char)) : Nat → IP → Option IP
  | 0, _ => none
  | fuel + 1, start =>
    if !a.pool.contains start then none
    else if a.excluded used start then a.search used fuel (incSubnet start a.subnetLen)
    else some start

/-- `Allocate`, with the markers it leaves. -/
def allocate (a : PoolAllocator) (containerID : String) (ms : Markers) : Except String IPNet × Markers :=
  match findContainerMarker ms containerID with
  | some name =>
    match parseAllocatedSubnet (desanitizeMarkerName name) with
    | .error e => (.error ("parse existing allocation marker " ++ quote name ++ ": " ++ e), ms)
    | .ok existing => (.ok existing, ms)
  | none =>
    match a.search (ms.map fun m => desanitizeMarkerName m.1) (ms.length + 2) a.pool.ip with
    | none =>
      (.error ("pool " ++ String.ofList a.pool.string ++ " exhausted (subnet /" ++ toString a.subnetLen ++ ")"), ms)
    | some start => (.ok (a.subnet start), writeMarker (sanitizePoolDirName (a.subnet start).string) containerID ms)

def deallocate (subnetCIDR : List Char) (ms : Markers) : Markers := removeMarker (sanitizePoolDirName subnetCIDR) ms

def deallocateContainer (containerID : String) (ms : Markers) : Option (List Char) × Markers :=
  match findContainerMarker ms containerID with
  | none => (none, ms)
  | some name => (some (desanitizeMarkerName name), removeMarker name ms)

end PoolAllocator

end Galactic.Ipam
