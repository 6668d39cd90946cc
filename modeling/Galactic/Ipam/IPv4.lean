import Galactic.Ipam.Pool
import Galactic.Net.Number

/-!
# The IPv4 pool allocator

`IPv4PoolAllocator` of `internal/cni/ipam` hands out single addresses of one pool. A marker is named after its
address and holds the container; the directory of markers and the lock around a call are those of the IPv6
allocator.

The offsets into a pool are 64-bit numbers added to a 32-bit address: `total - 2` wraps for a pool of one address, and
the sum wraps at the end of the address space. -/

namespace Galactic.Ipam
open List Nat UInt32 Net

open Net (IP IPNet IPMask)

structure IPv4PoolAllocator where
  pool : IPNet
  gateway : IP
  stateDir : String
  deriving DecidableEq

def offsetIP4 (base : IP) (offset : UInt64) : IP :=
  let baseVal := (base.getD 0 0).toUInt32 <<< 24 ||| (base.getD 1 0).toUInt32 <<< 16 |||
    (base.getD 2 0).toUInt32 <<< 8 ||| (base.getD 3 0).toUInt32
  ByteWord.bigEndian32 (baseVal + offset.toUInt32)

def poolGateway4 (pool : IPNet) (poolCIDR gateway : List Char) : Except String IP :=
  if gateway ≠ [] then
    match Net.parseIP gateway with
    | none => .error ("invalid gateway IP: " ++ String.ofList gateway)
    | some gwIP =>
      match gwIP.to4 with
      | none => .error ("gateway must be IPv4, got IPv6: " ++ String.ofList gateway)
      | some gwIP4 =>
        if !pool.contains gwIP4 then
          .error ("gateway " ++ String.ofList gateway ++ " is not in pool " ++ String.ofList poolCIDR)
        else .ok gwIP4
  else .ok (offsetIP4 pool.ip 1)

def newIPv4PoolAllocator (poolCIDR gateway : List Char) (lockDir : String) : Except String IPv4PoolAllocator :=
  match Net.parseCIDR poolCIDR with
  | none => .error ("parse pool CIDR " ++ quote poolCIDR ++ ": invalid CIDR address: " ++ String.ofList poolCIDR)
  | some (_, parsed) =>
    match parsed.ip.to4 with
    | none => .error ("pool must be IPv4, got IPv6: " ++ String.ofList poolCIDR)
    | some pool4 =>
      -- the mask stays as it was parsed, also where the address was given in its sixteen bytes
      let pool : IPNet := ⟨pool4, parsed.mask⟩
      if lockDir = "" then .error "lockDir must not be empty"
      else
        match poolGateway4 pool poolCIDR gateway with
        | .error e => .error e
        | .ok gw => .ok ⟨pool, gw, joinPath lockDir (sanitizePoolDirName pool.string)⟩

/-! ### Calls -/

namespace IPv4PoolAllocator

def total (a : IPv4PoolAllocator) : UInt64 :=
  UInt64.ofNat (2 ^ ((Net.maskSize a.pool.mask).2 - (Net.maskSize a.pool.mask).1))

def reservedAddresses (a : IPv4PoolAllocator) : List (List Char) :=
  [a.pool.ip.string, a.gateway.string, (offsetIP4 a.pool.ip (a.total - 2)).string,
    (offsetIP4 a.pool.ip (a.total - 1)).string]

/-- The loop of `Allocate` from offset `i` on, with `left` offsets to go. -/
def search (a : IPv4PoolAllocator) (used : List (List Char)) : Nat → UInt64 → Option IP
  | 0, _ => none
  | left + 1, i =>
    if (offsetIP4 a.pool.ip i).string ∈ a.reservedAddresses then a.search used left (i + 1)
    else if (offsetIP4 a.pool.ip i).string ∈ used then a.search used left (i + 1)
    else some (offsetIP4 a.pool.ip i)

/-- `Allocate`, with the markers it leaves. -/
def allocate (a : IPv4PoolAllocator) (containerID : String) (ms : Markers) : Except String IP × Markers :=
  match findContainerMarker ms containerID with
  -- the name is not checked: what is no address reads as the nil address
  | some addrStr => (.ok (((Net.parseIP addrStr).bind IP.to4).getD []), ms)
  | none =>
    match a.search (ms.map (·.1)) a.total.toNat 0 with
    | none => (.error ("pool " ++ String.ofList a.pool.string ++ " exhausted"), ms)
    | some addr => (.ok addr, writeMarker addr.string containerID ms)

def deallocate (addr : List Char) (ms : Markers) : Markers := removeMarker addr ms

def deallocateContainer (containerID : String) (ms : Markers) : Option (List Char) × Markers :=
  match findContainerMarker ms containerID with
  | none => (none, ms)
  | some found => (some found, removeMarker found ms)

end IPv4PoolAllocator

/-! ### Offsets -/

theorem exists_bytes_of_length {ip : IP} (h : ip.length = 4) : ∃ a b c d, ip = [a, b, c, d] := by
  rcases ip with _ | ⟨a, _ | ⟨b, _ | ⟨c, _ | ⟨d, _ | ⟨e, ip⟩⟩⟩⟩⟩ <;> simp at h
  exact ⟨a, b, c, d, rfl⟩

@[simp] theorem length_offsetIP4 (base : IP) (offset : UInt64) : (offsetIP4 base offset).length = 4 := rfl

theorem number_bytes (a b c d : UInt8) :
    IP.number [a, b, c, d] = 16777216 * a.toNat + 65536 * b.toNat + 256 * c.toNat + d.toNat := by
  simp only [IP.number_cons, IP.number_nil, length_cons, length_nil]
  omega

theorem number_bigEndian32 (x : UInt32) : IP.number (ByteWord.bigEndian32 x) = x.toNat := by
  have hx := x.toNat_lt
  rw [ByteWord.bigEndian32, number_bytes]
  simp only [UInt32.toNat_toUInt8, UInt32.toNat_shiftRight, Nat.shiftRight_eq_div_pow, UInt32.reduceToNat,
    Nat.reduceMod, Nat.reducePow]
  omega

theorem toNat_shifted (a b c d : UInt8) :
    (a.toUInt32 <<< 24 ||| b.toUInt32 <<< 16 ||| c.toUInt32 <<< 8 ||| d.toUInt32).toNat = IP.number [a, b, c, d] := by
  have ha := a.toNat_lt
  have hb := b.toNat_lt
  have hc := c.toNat_lt
  have hd := d.toNat_lt
  obtain ⟨h24, h16, h8⟩ : (a.toUInt32 <<< 24).toNat = 2 ^ 24 * a.toNat ∧ (b.toUInt32 <<< 16).toNat = 2 ^ 16 * b.toNat ∧
      (c.toUInt32 <<< 8).toNat = 2 ^ 8 * c.toNat := by
    simp only [UInt32.toNat_shiftLeft, UInt8.toNat_toUInt32, Nat.shiftLeft_eq, UInt32.reduceToNat, Nat.reduceMod]
    omega
  rw [UInt32.toNat_or, UInt32.toNat_or, UInt32.toNat_or, h24, h16, h8, UInt8.toNat_toUInt32, number_bytes,
    ← Nat.two_pow_add_eq_or_of_lt (by omega),
    show 2 ^ 24 * a.toNat + 2 ^ 16 * b.toNat = 2 ^ 16 * (2 ^ 8 * a.toNat + b.toNat) by ring,
    ← Nat.two_pow_add_eq_or_of_lt (by omega),
    show 2 ^ 16 * (2 ^ 8 * a.toNat + b.toNat) + 2 ^ 8 * c.toNat =
      2 ^ 8 * (2 ^ 8 * (2 ^ 8 * a.toNat + b.toNat) + c.toNat) by ring,
    ← Nat.two_pow_add_eq_or_of_lt hd]
  ring

theorem number_offsetIP4 {base : IP} (hlen : base.length = 4) (offset : UInt64) :
    (offsetIP4 base offset).number = (base.number + offset.toNat) % 2 ^ 32 := by
  obtain ⟨a, b, c, d, rfl⟩ := exists_bytes_of_length hlen
  unfold offsetIP4
  simp only [getD_cons_zero, getD_cons_succ]
  rw [number_bigEndian32, UInt32.toNat_add, toNat_shifted, UInt64.toNat_toUInt32, Nat.add_mod_mod]

theorem string_of_length {ip : IP} (h : ip.length = 4) : ip.string = string4 ip := by
  simp [IP.string, IP.to4, h, ipv4Len]

theorem parseIP_string {ip : IP} (h : ip.length = 4) : (parseIP ip.string).bind IP.to4 = some ip := by
  rw [string_of_length h, parseIP]
  have hparse := parseAddr_string4 ⟨ip, h⟩
  rw [List.Vector.toList_mk] at hparse
  rw [hparse]
  have hdrop : (v4InV6Prefix ++ ip).drop 12 = ip := drop_left' rfl
  have htake : (v4InV6Prefix ++ ip).take 12 = v4InV6Prefix := take_left' rfl
  simp [Net.Addr.zone, Net.Addr.as16, IP.to4, h, ipv4Len, ipv6Len, v4InV6Prefix] at hdrop htake ⊢

theorem string_inj {a b : IP} (ha : a.length = 4) (hb : b.length = 4) (h : a.string = b.string) : a = b := by
  have hparse := parseIP_string ha
  rw [h, parseIP_string hb] at hparse
  exact (Option.some.inj hparse).symm

end Galactic.Ipam
