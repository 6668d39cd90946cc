import Galactic.Cniipam.Config

/-!
# ADD and DEL of the IPAM plugin

`cmdAdd` allocates by the mode of the block: given addresses, a static address, or a pool of either family. Only the
pools leave something behind, a marker in the directory of the pool. `cmdDel` parses the document again and looks the
markers of the container up in the pools it names; it never reports an error. -/

namespace Galactic.Cniipam

open Net (IP IPNet)
open Ipam (CniError Markers PoolAllocator IPv4PoolAllocator newPoolAllocator newIPv4PoolAllocator)

def lockDir : String := "/var/lib/cni/galactic-ipam"

abbrev Dirs := String → Markers

structure IPAMResult where
  ipv6Subnet : Option IPNet := none
  ipv6Gateway : IP := []
  ipv4Address : Option IP := none
  ipv4Gateway : IP := []
  routes : List IPNet := []
  deriving DecidableEq

def defaultRoutes (ipv6 ipv4 : Bool) : List IPNet :=
  (if ipv6 then [⟨List.replicate 16 0, Net.cidrMask 0 128⟩] else []) ++
    if ipv4 then [⟨Net.v4InV6Prefix ++ [0, 0, 0, 0], Net.cidrMask 0 32⟩] else []

/-- What the environment answers during one invocation: the flag, and whether the result can be printed. -/
structure Env where
  enableLocalIPAM : Bool
  printErr : Option String := none

def allocateAddresses (conf : IPAM) : Except String IPAMResult :=
  match parseAddresses conf.addresses with
  | .error e => .error e.msg
  | .ok parsed =>
    .ok { ipv6Subnet := parsed.ipv6, ipv6Gateway := parsed.ipv6Gateway, ipv4Address := parsed.ipv4,
          ipv4Gateway := parsed.ipv4Gateway, routes := defaultRoutes parsed.ipv6.isSome parsed.ipv4.isSome }

def staticAllocate (addr : List Char) : Except String IP :=
  match Net.parseIP addr with
  | none => .error ("invalid IPv6 address: " ++ String.ofList addr)
  | some ip =>
    if ip.to4.isSome then .error ("static allocator requires IPv6, got IPv4: " ++ String.ofList addr) else .ok ip

def allocateStatic (conf : IPAM) : Except String IPAMResult :=
  match staticAllocate conf.staticIP with
  | .error e => .error ("allocate static IP: " ++ e)
  | .ok ip => .ok { ipv6Subnet := some ⟨ip, Net.cidrMask 64 128⟩ }

/-! ### Pools -/

structure DualStackAllocator where
  ipv6 : Option PoolAllocator
  ipv4 : Option IPv4PoolAllocator

def newIfSet {α : Type} (new : List Char → Except String α) (pool : List Char) : Except String (Option α) :=
  if pool = [] then .ok none else (new pool).map some

/-- `NewDualStackAllocator` with the default gateways. -/
def newDualStackAllocator (ipv6Pool ipv4Pool : List Char) (lockDir : String) : Except String DualStackAllocator := do
  let ipv6 ← newIfSet (newPoolAllocator · [] Ipam.defaultSubnetLen lockDir) ipv6Pool
  let ipv4 ← newIfSet (newIPv4PoolAllocator · [] lockDir) ipv4Pool
  return ⟨ipv6, ipv4⟩

def inDir {α : Type} (dir : String) (call : Markers → α × Markers) (dirs : Dirs) : α × Dirs :=
  ((call (dirs dir)).1, Function.update dirs dir (call (dirs dir)).2)

def allocate6 (containerID : String) (dirs : Dirs) :
    Option PoolAllocator → Except String (Option IPNet) × Dirs
  | none => (.ok none, dirs)
  | some a =>
    let r := inDir a.stateDir (a.allocate containerID) dirs
    (r.1.map some, r.2)

def allocate4 (containerID : String) (dirs : Dirs) :
    Option IPv4PoolAllocator → Except String (Option IP) × Dirs
  | none => (.ok none, dirs)
  | some a =>
    let r := inDir a.stateDir (a.allocate containerID) dirs
    (r.1.map some, r.2)

/-- `DualStackAllocator.Allocate`: an IPv6 subnet stays allocated when the IPv4 pool fails. -/
def DualStackAllocator.allocate (a : DualStackAllocator) (containerID : String) (dirs : Dirs) :
    Except String (Option IPNet × Option IP) × Dirs :=
  match allocate6 containerID dirs a.ipv6 with
  | (.error e, dirs) => (.error e, dirs)
  | (.ok ipv6, dirs) =>
    match allocate4 containerID dirs a.ipv4 with
    | (.error e, dirs) => (.error e, dirs)
    | (.ok ipv4, dirs) => (.ok (ipv6, ipv4), dirs)

def allocatePool (containerID : String) (conf : IPAM) (dirs : Dirs) : Except String IPAMResult × Dirs :=
  if conf.ipv6Subnet = [] ∧ conf.ipv4Subnet = [] then
    (.error "ipam.ipv6_subnet or ipam.ipv4_subnet is required (or enable GALACTIC_IPAM_ENABLE_LOCAL_IPAM)", dirs)
  else
    match newDualStackAllocator conf.ipv6Subnet conf.ipv4Subnet lockDir with
    | .error e => (.error ("create dual-stack allocator: " ++ e), dirs)
    | .ok alloc =>
      match alloc.allocate containerID dirs with
      | (.error e, dirs) => (.error ("allocate dual-stack addresses: " ++ e), dirs)
      | (.ok (ipv6, ipv4), dirs) =>
        (.ok { ipv6Subnet := ipv6
               ipv6Gateway := (alloc.ipv6.map (·.gateway)).getD []
               ipv4Address := ipv4
               ipv4Gateway := (alloc.ipv4.map (·.gateway)).getD []
               routes := defaultRoutes ipv6.isSome ipv4.isSome }, dirs)

def allocate (containerID : String) (conf : IPAM) (dirs : Dirs) : Except String IPAMResult × Dirs :=
  if conf.addresses ≠ [] then (allocateAddresses conf, dirs)
  else if conf.staticIP ≠ [] then (allocateStatic conf, dirs)
  else allocatePool containerID conf dirs

/-! ### Release -/

def effectiveIPv6Subnet (conf : IPAM) : List Char :=
  if conf.ipv6Subnet ≠ [] ∨ conf.ipv4Subnet ≠ [] then conf.ipv6Subnet else localIPAMDefaultPool

def deallocate6 (containerID : String) (subnet : List Char) (dirs : Dirs) : Dirs :=
  if subnet = [] then dirs
  else
    match newPoolAllocator subnet [] 0 lockDir with
    | .error _ => dirs
    | .ok a => (inDir a.stateDir (PoolAllocator.deallocateContainer containerID) dirs).2

def deallocate4 (containerID : String) (subnet : List Char) (dirs : Dirs) : Dirs :=
  if subnet = [] then dirs
  else
    match newIPv4PoolAllocator subnet [] lockDir with
    | .error _ => dirs
    | .ok a => (inDir a.stateDir (IPv4PoolAllocator.deallocateContainer containerID) dirs).2

def deallocate (containerID : String) (conf : IPAM) (dirs : Dirs) : Dirs :=
  if conf.addresses ≠ [] then dirs
  else if conf.staticIP ≠ [] then dirs
  else deallocate4 containerID conf.ipv4Subnet (deallocate6 containerID (effectiveIPv6Subnet conf) dirs)

/-! ### Commands -/

/-- `cmdAdd`, with the directories it leaves. A result that cannot be printed fails the command, but stays allocated. -/
def cmdAdd (env : Env) (document : Except String PluginConf) (containerID : String) (dirs : Dirs) :
    Except String IPAMResult × Dirs :=
  match parseConf env.enableLocalIPAM document with
  | .error e => (.error e.msg, dirs)
  | .ok conf =>
    match allocate containerID conf dirs with
    | (.error e, dirs) => (.error ("allocate: " ++ e), dirs)
    | (.ok result, dirs) =>
      match env.printErr with
      | some e => (.error ("print CNI result: " ++ e), dirs)
      | none => (.ok result, dirs)

/-- `cmdDel`: a document that does not parse is skipped. -/
def cmdDel (env : Env) (document : Except String PluginConf) (containerID : String) (dirs : Dirs) : Dirs :=
  match parseConf env.enableLocalIPAM document with
  | .error _ => dirs
  | .ok conf => deallocate containerID conf dirs

end Galactic.Cniipam
