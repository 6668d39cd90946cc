import Galactic.Lib.ByteWord
import Galactic.TrafficPolicy.Compile

/-!
# The datapath's policy walk

The entry layout of `EncodeEntry` and the eBPF side of it: `tp_match_entry`, called for every slot of a
snapshot in index order, and the part of `tp_decide` that runs the walk. The byte order of the node is a
parameter: user space stores words as the kernel loads them. -/

namespace Galactic.TrafficPolicy
open Net ByteWord

/-- The byte of a path, `TP_PATH_*` in the datapath. -/
def Path.code : Path → UInt8
  | unknown => 0
  | priv => 1
  | publicNAT => 2
  | publicService => 3

abbrev Words := UInt64 × UInt64

structure TpEntry where
  flags : UInt16
  rule : UInt16
  path : UInt8
  family : UInt8
  proto : UInt8
  icmpType : UInt8
  icmpCode : UInt8
  sportLo : UInt16
  sportHi : UInt16
  dportLo : UInt16
  dportHi : UInt16
  src : Words
  srcMask : Words
  dst : Words
  dstMask : Words

/-! ### Encoding -/

def loadWords (o : Endian) (b : List UInt8) : Words := (o.uint64 (b.take 8), o.uint64 (b.drop 8))

/-- The mask as `prefixWords` sets it, bit by bit. -/
def prefixMask (bits : Nat) : List UInt8 :=
  (List.range bits).foldl (fun m i => m.set (i / 8) (m.getD (i / 8) 0 ||| (0x80 : UInt8) >>> UInt8.ofNat (i % 8)))
    (List.replicate 16 0)

def prefixAddr (p : Prefix) : List UInt8 :=
  match p.addr with
  | .v4 b => b.toList ++ List.replicate 12 0
  | a => a.as16

/-- `prefixWords`: the masked address and the mask. -/
def prefixWords (o : Endian) (p : Prefix) : Words × Words :=
  let m := prefixMask (p.bits?.getD 0)
  let a := List.zipWith (· &&& ·) (prefixAddr p) m
  (loadWords o a, loadWords o m)

def sideWords (o : Endian) (p : Prefix) : Words × Words :=
  if p.isValid then prefixWords o p else ((0, 0), (0, 0))

def encodeEntry (o : Endian) (e : Entry) : TpEntry where
  flags := e.flags
  rule := e.rule
  path := e.path.code
  family := e.family
  proto := e.proto
  icmpType := e.icmpType
  icmpCode := e.icmpCode
  sportLo := e.sourcePorts.start
  sportHi := e.sourcePorts.stop
  dportLo := e.destPorts.start
  dportHi := e.destPorts.stop
  src := (sideWords o e.source).1
  srcMask := (sideWords o e.source).2
  dst := (sideWords o e.destination).1
  dstMask := (sideWords o e.destination).2

/-! ### The packet in scratch memory -/

inductive TpResult
  | none
  | matched
  | classificationError
  deriving DecidableEq, Repr

/-- `struct tp_scratch_value`: the captured packet, and what the walk writes. -/
structure Scratch where
  family : UInt8
  proto : UInt8
  hasPorts : Bool
  icmpType : UInt8
  icmpCode : UInt8
  path : UInt8
  result : TpResult
  sport : UInt16
  dport : UInt16
  count : Nat
  rule : UInt32
  allow : Bool
  src : List.Vector UInt8 16
  dst : List.Vector UInt8 16

/-- `TP_F_*`, the bits of the entry's flags. -/
def tpFlag : EntryFlag → UInt16
  | .allow => 1 <<< (0 : UInt16)
  | .path => 1 <<< (1 : UInt16)
  | .family => 1 <<< (2 : UInt16)
  | .proto => 1 <<< (3 : UInt16)
  | .source => 1 <<< (4 : UInt16)
  | .destination => 1 <<< (5 : UInt16)
  | .sourcePorts => 1 <<< (6 : UInt16)
  | .destPorts => 1 <<< (7 : UInt16)
  | .icmpType => 1 <<< (8 : UInt16)
  | .icmpCode => 1 <<< (9 : UInt16)

def TpEntry.has (e : TpEntry) (f : EntryFlag) : Bool := e.flags &&& tpFlag f ≠ 0

def tpPrefixMatch (o : Endian) (rule mask : Words) (addr : List.Vector UInt8 16) : Bool :=
  let a := loadWords o addr.toList
  ((rule.1 ^^^ a.1) &&& mask.1) ||| ((rule.2 ^^^ a.2) &&& mask.2) = 0

/-- The checks of `tp_match_entry` that skip an entry, but the path's. -/
def tpFieldsMatch (o : Endian) (e : TpEntry) (s : Scratch) : Bool :=
  if e.has .family ∧ e.family ≠ s.family then false
  else if e.has .proto ∧ e.proto ≠ s.proto then false
  else if e.has .source ∧ ¬tpPrefixMatch o e.src e.srcMask s.src then false
  else if e.has .destination ∧ ¬tpPrefixMatch o e.dst e.dstMask s.dst then false
  else if e.has .sourcePorts ∧ (¬s.hasPorts ∨ s.sport < e.sportLo ∨ e.sportHi < s.sport) then false
  else if e.has .destPorts ∧ (¬s.hasPorts ∨ s.dport < e.dportLo ∨ e.dportHi < s.dport) then false
  else if e.has .icmpType ∧ e.icmpType ≠ s.icmpType then false
  else if e.has .icmpCode ∧ e.icmpCode ≠ s.icmpCode then false
  else true

/-- `tp_match_entry` on slot `idx`: whether to stop the walk, and the scratch memory then. -/
def tpMatchEntry (o : Endian) (idx : Nat) (e : TpEntry) (s : Scratch) : Bool × Scratch :=
  if idx = 0 then (false, s) -- the header
  else if s.count < idx then (true, s)
  else if ¬tpFieldsMatch o e s then (false, s)
  else if e.has .path ∧ s.path = Path.unknown.code then (true, { s with result := .classificationError })
  else if e.has .path ∧ e.path ≠ s.path then (false, s)
  else (true, { s with result := .matched, rule := e.rule.toUInt32, allow := e.has .allow })

/-- `bpf_for_each_map_elem` over the slots from index `idx` on: until a callback asks to stop. -/
def tpWalk (o : Endian) : Nat → List TpEntry → Scratch → Scratch
  | _, [], s => s
  | idx, e :: rest, s =>
    let (stop, s) := tpMatchEntry o idx e s
    if stop then s else tpWalk o (idx + 1) rest s

/-- The walk of `tp_decide`: the snapshot is a header that counts `count` entries, and the slots behind it. -/
def tpDecideWalk (o : Endian) (snapshot : List TpEntry) (count : Nat) (path : Path) (s : Scratch) : Scratch :=
  tpWalk o 0 snapshot { s with count, path := path.code, result := .none }

/-- The outcome as `tp_decide` reads it. -/
def Scratch.verdict (s : Scratch) : Verdict :=
  match s.result with
  | .none => .noMatch
  | .matched => ⟨s.allow, s.rule.toNat, .rule⟩
  | .classificationError => .classificationError

/-! ### Captured packets -/

/-- What `tp_capture` promises of a packet that the rules decide. -/
structure Scratch.Captured (s : Scratch) : Prop where
  family : s.family = familyIPv4 ∨ s.family = familyIPv6
  hasPorts : s.hasPorts = true ↔ s.proto = protoTCP ∨ s.proto = protoUDP

def Scratch.addr (s : Scratch) (b : List.Vector UInt8 16) : Addr :=
  if s.family = familyIPv4 then .v4 ⟨b.toList.take 4, by simp⟩ else .v6 b ""

def Scratch.packet (s : Scratch) (path : Path) : Packet :=
  ⟨path, s.addr s.src, s.addr s.dst, s.proto, s.sport, s.dport, s.icmpType, s.icmpCode⟩

end Galactic.TrafficPolicy
