import Galactic.Ipam.IPv4
import Galactic.Lib.FallibleLoop

/-!
# The configuration of the IPAM plugin

`parseConf` of `internal/cniipam`: it checks the `ipam` block of a CNI configuration document, fills in the default
pool where the block names none and the local-IPAM flag is set, and clears the pools of the address families the block
leaves out. A document is given as what `json.Unmarshal` made of it; the fields of the block that no allocation path
reads (`type`, `routes`) are left out. -/

namespace Galactic.Cniipam

open Net (IP IPNet)
open Ipam (CniError quote sanitizeForError validateIPv6Subnet)

def maxIPv4SubnetPrefixLen : Nat := 32

def addressFamilyIPv6 : List Char := "ipv6".toList
def addressFamilyIPv4 : List Char := "ipv4".toList

def localIPAMDefaultPool : List Char := "fd00:10:ff01::/64".toList

structure Address where
  address : List Char
  gateway : List Char := []
  deriving DecidableEq

structure IPAM where
  staticIP : List Char := []
  ipv6Subnet : List Char := []
  ipv4Subnet : List Char := []
  addressFamilies : List (List Char) := []
  addresses : List Address := []
  deriving DecidableEq

/-- `pluginConf`: the block is a pointer, nil where the document has none. -/
structure PluginConf where
  ipam : Option IPAM
  deriving DecidableEq

/-! ### Checks -/

def validateIPv4Subnet (subnet : List Char) : Except CniError Unit :=
  match Net.parseCIDR subnet with
  | none =>
    .error ⟨7, "invalid CIDR value for field 'ipam.ipv4_subnet': " ++ quote (sanitizeForError subnet)⟩
  | some (ip, n) =>
    if ip.to4.isNone then
      .error ⟨7, "ipam.ipv4_subnet must be an IPv4 CIDR, got IPv6: " ++ quote (sanitizeForError subnet)⟩
    else if maxIPv4SubnetPrefixLen < (Net.maskSize n.mask).1 then
      .error ⟨7, "ipam.ipv4_subnet prefix length " ++ toString (Net.maskSize n.mask).1 ++ " exceeds maximum of " ++
        toString maxIPv4SubnetPrefixLen ++ ": " ++ quote (sanitizeForError subnet)⟩
    else .ok ()

/-- `parseAddressGateway`; no gateway is the nil address. -/
def parseAddressGateway (addr : Address) (ip : IP) : Except CniError IP :=
  if addr.gateway = [] then .ok []
  else
    match Net.parseIP addr.gateway with
    | none =>
      .error ⟨7, "invalid IP for field 'ipam.addresses[].gateway': " ++ quote (sanitizeForError addr.gateway)⟩
    | some gateway =>
      if gateway.to4.isSome ≠ ip.to4.isSome then
        .error ⟨7, "ipam.addresses gateway " ++ quote (sanitizeForError addr.gateway) ++
          " is not the same address family as " ++ quote (sanitizeForError addr.address)⟩
      else .ok (gateway.to4.getD gateway)

structure ParsedAddresses where
  ipv6 : Option IPNet := none
  ipv6Gateway : IP := []
  ipv4 : Option IP := none
  ipv4Gateway : IP := []
  deriving DecidableEq

/-- One turn of the loop of `parseAddresses`. -/
def addAddress (parsed : ParsedAddresses) (addr : Address) : Except CniError ParsedAddresses :=
  match Net.parseCIDR addr.address with
  | none =>
    .error ⟨7, "invalid CIDR value for field 'ipam.addresses[].address': " ++ quote (sanitizeForError addr.address) ++
      " (an explicit prefix length is required)"⟩
  | some (ip, cidr) => do
    let gateway ← parseAddressGateway addr ip
    if ip.to4.isSome then
      if parsed.ipv4.isSome then .error ⟨7, "ipam.addresses carries more than one IPv4 address"⟩
      else if (Net.maskSize cidr.mask).1 ≠ maxIPv4SubnetPrefixLen then
        .error ⟨7, "ipam.addresses IPv4 entry " ++ quote (sanitizeForError addr.address) ++ " must be a /" ++
          toString maxIPv4SubnetPrefixLen ++ ": the data plane models an IPv4 endpoint as a host route"⟩
      else .ok { parsed with ipv4 := some ip, ipv4Gateway := gateway }
    else if parsed.ipv6.isSome then .error ⟨7, "ipam.addresses carries more than one IPv6 address"⟩
    else .ok { parsed with ipv6 := some ⟨ip, cidr.mask⟩, ipv6Gateway := gateway }

def parseAddresses (addresses : List Address) : Except CniError ParsedAddresses := do
  let parsed ← addresses.foldlM addAddress {}
  if parsed.ipv6.isNone ∧ parsed.ipv4.isNone then .error ⟨7, "ipam.addresses is present but empty"⟩
  else .ok parsed

/-- `validateAddressesMode`. The source goes over the fields in the order of a Go map, so that with several of them
set any may be the one it names. -/
def validateAddressesMode (conf : IPAM) : Except CniError Unit :=
  match [("static_ip", conf.staticIP), ("ipv6_subnet", conf.ipv6Subnet), ("ipv4_subnet", conf.ipv4Subnet)].find?
      fun field => field.2 ≠ [] with
  | some (field, _) =>
    .error ⟨7, "ipam.addresses cannot be combined with ipam." ++ field ++
      ": addresses assigns pre-decided addresses, the other fields allocate"⟩
  | none => do
    let _ ← parseAddresses conf.addresses
    return ()

/-- The checks of `parseConf` on the block as it is given. -/
def validate (conf : IPAM) : Except CniError Unit := do
  if conf.addresses ≠ [] then validateAddressesMode conf
  if conf.ipv6Subnet ≠ [] then validateIPv6Subnet conf.ipv6Subnet
  if conf.ipv4Subnet ≠ [] then validateIPv4Subnet conf.ipv4Subnet

/-! ### Defaults -/

/-- The block names no address and no pool. -/
def IPAM.underspecified (conf : IPAM) : Prop :=
  conf.addresses = [] ∧ conf.staticIP = [] ∧ conf.ipv6Subnet = [] ∧ conf.ipv4Subnet = []

instance (conf : IPAM) : Decidable conf.underspecified := inferInstanceAs (Decidable (_ ∧ _))

def fillDefault (enableLocalIPAM : Bool) (conf : IPAM) : IPAM :=
  if conf.underspecified ∧ enableLocalIPAM = true then { conf with ipv6Subnet := localIPAMDefaultPool } else conf

structure Families where
  wantIPv6 : Bool := false
  wantIPv4 : Bool := false
  deriving DecidableEq

def addFamily (want : Families) (af : List Char) : Except CniError Families :=
  if af = addressFamilyIPv6 then .ok { want with wantIPv6 := true }
  else if af = addressFamilyIPv4 then .ok { want with wantIPv4 := true }
  else
    .error ⟨7, "invalid ipam.address_families entry " ++ quote (sanitizeForError af) ++ ": must be " ++
      quote addressFamilyIPv6 ++ " or " ++ quote addressFamilyIPv4⟩

def clearUnwanted (want : Families) (conf : IPAM) : IPAM :=
  { conf with
    ipv6Subnet := if want.wantIPv6 then conf.ipv6Subnet else []
    ipv4Subnet := if want.wantIPv4 then conf.ipv4Subnet else [] }

/-- The last part of `parseConf`. -/
def restrictFamilies (conf : IPAM) : Except CniError IPAM :=
  if conf.addressFamilies = [] then .ok conf
  else do
    let want ← conf.addressFamilies.foldlM addFamily {}
    if conf.staticIP = [] ∧ conf.addresses = [] then
      if (clearUnwanted want conf).ipv6Subnet = [] ∧ (clearUnwanted want conf).ipv4Subnet = [] then
        .error ⟨7, "ipam.address_families [" ++ String.ofList (List.intercalate [' '] conf.addressFamilies) ++
          "] excludes every pool this config configures (ipam.ipv6_subnet/ipam.ipv4_subnet)"⟩
      else .ok (clearUnwanted want conf)
    else .ok conf

/-- `parseConf`, with the block it returns. -/
def parseConf (enableLocalIPAM : Bool) (document : Except String PluginConf) : Except CniError IPAM :=
  match document with
  | .error _ => .error ⟨7, "invalid CNI config"⟩
  | .ok conf =>
    match conf.ipam with
    | none => .error ⟨7, "ipam block is required"⟩
    | some ipam => do
      let _ ← validate ipam
      restrictFamilies (fillDefault enableLocalIPAM ipam)

end Galactic.Cniipam
