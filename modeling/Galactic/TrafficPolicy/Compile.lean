import Galactic.TrafficPolicy.Policy
import Galactic.Net.Parse

/-!
# Compiling a policy to datapath entries

`Compile` lowers a policy to entries of single-valued fields, one for each combination of a rule's address
and port alternatives, and `EvaluateEntries` walks them as the datapath does. -/

namespace Galactic.TrafficPolicy
open Net

def maxRules : Nat := 64
def maxCompiledEntries : Nat := 256

/-- The bits of an entry's flags, in the order of the source's `iota`. -/
inductive EntryFlag
  | allow
  | path
  | family
  | proto
  | source
  | destination
  | sourcePorts
  | destPorts
  | icmpType
  | icmpCode
  deriving DecidableEq, Repr

/-- The bit of a flag, `1 << iota`. -/
def EntryFlag.bit : EntryFlag → UInt16
  | allow => 0x1
  | path => 0x2
  | family => 0x4
  | proto => 0x8
  | source => 0x10
  | destination => 0x20
  | sourcePorts => 0x40
  | destPorts => 0x80
  | icmpType => 0x100
  | icmpCode => 0x200

/-- One compiled entry: a conjunction of single-valued matches, of which the flags say which are there. -/
structure Entry where
  flags : UInt16 := 0
  rule : UInt16 := 0
  path : Path := .unknown
  family : Family := 0
  proto : Proto := 0
  icmpType : UInt8 := 0
  icmpCode : UInt8 := 0
  source : Prefix := .invalid
  destination : Prefix := .invalid
  sourcePorts : PortRange := ⟨0, 0⟩
  destPorts : PortRange := ⟨0, 0⟩

def Entry.has (e : Entry) (f : EntryFlag) : Bool := e.flags &&& f.bit ≠ 0

/-! ### Families -/

def protoFamily : Option Proto → Option Family
  | none => none
  | some p => if p = protoICMP then some familyIPv4 else if p = protoICMPv6 then some familyIPv6 else none

def ruleFamily (m : Match) : Option Family :=
  match m.family, protoFamily m.proto with
  | some f, some pf => if f ≠ pf then some 0 else some f
  | some f, none => some f
  | none, pf => pf

/-! ### Counting -/

def countFamilies (ps : List Prefix) : Nat × Nat := (ps.countP (·.addr.is4), ps.countP (!·.addr.is4))

def ruleEntryCount (m : Match) : Nat :=
  if ruleFamily m = some 0 then 0
  else
    let (s4, s6) := countFamilies m.source
    let (d4, d6) := countFamilies m.destination
    let (s4, s6, d4, d6) :=
      match ruleFamily m with
      | none => (s4, s6, d4, d6)
      | some fixed => if fixed = familyIPv4 then (s4, 0, d4, 0) else (0, s6, 0, d6)
    let pairs :=
      if m.source ≠ [] ∧ m.destination ≠ [] then s4 * d4 + s6 * d6
      else if m.source ≠ [] then s4 + s6
      else if m.destination ≠ [] then d4 + d6
      else 1
    pairs * max 1 m.sourcePorts.length * max 1 m.destPorts.length

def Policy.entryCount (p : Policy) : Nat := (p.rules.map fun r => ruleEntryCount r.matching).sum

/-! ### Expanding -/

/-- A source and a destination; a prefix that is not valid leaves its side unconstrained. -/
structure AddressPair where
  src : Prefix
  dst : Prefix

def orInvalid (ps : List Prefix) : List Prefix := if ps = [] then [.invalid] else ps

def orNoPorts (rs : List PortRange) : List PortRange := if rs = [] then [⟨0, 0⟩] else rs

/-- The combinations of addresses, without those of two families. -/
def addressPairs (m : Match) : List AddressPair :=
  (orInvalid m.source).flatMap fun s =>
    (orInvalid m.destination).filterMap fun d =>
      if s.isValid ∧ d.isValid ∧ s.addr.is4 ≠ d.addr.is4 then none else some ⟨s, d⟩

def pairFamily (ap : AddressPair) : Option Family :=
  if ap.src.isValid then some (familyOf ap.src.addr)
  else if ap.dst.isValid then some (familyOf ap.dst.addr)
  else none

namespace Entry

def withPath (e : Entry) (path : Path) : Entry := { e with flags := e.flags ||| EntryFlag.path.bit, path }

def withFamily (e : Entry) (family : Family) : Entry := { e with flags := e.flags ||| EntryFlag.family.bit, family }

def withProto (e : Entry) (proto : Proto) : Entry := { e with flags := e.flags ||| EntryFlag.proto.bit, proto }

def withICMPType (e : Entry) (icmpType : UInt8) : Entry :=
  { e with flags := e.flags ||| EntryFlag.icmpType.bit, icmpType }

def withICMPCode (e : Entry) (icmpCode : UInt8) : Entry :=
  { e with flags := e.flags ||| EntryFlag.icmpCode.bit, icmpCode }

def withSource (e : Entry) (source : Prefix) : Entry := { e with flags := e.flags ||| EntryFlag.source.bit, source }

def withDestination (e : Entry) (destination : Prefix) : Entry :=
  { e with flags := e.flags ||| EntryFlag.destination.bit, destination }

def withSourcePorts (e : Entry) (sourcePorts : PortRange) : Entry :=
  { e with flags := e.flags ||| EntryFlag.sourcePorts.bit, sourcePorts }

def withDestPorts (e : Entry) (destPorts : PortRange) : Entry :=
  { e with flags := e.flags ||| EntryFlag.destPorts.bit, destPorts }

end Entry

/-! The parts of a match that are set or left out. -/

def Entry.start (index : UInt16) (allow : Bool) : Entry :=
  if allow then { rule := index, flags := EntryFlag.allow.bit } else { rule := index }

def Entry.withPath? (e : Entry) (path : Option Path) : Entry := path.elim e e.withPath

def Entry.withFamily? (e : Entry) (family : Option Family) : Entry := family.elim e e.withFamily

/-- The protocol, and the family that it implies. -/
def Entry.withProto? (e : Entry) : Option Proto → Entry
  | none => e
  | some p => (e.withProto p).withFamily? (protoFamily (some p))

def Entry.withICMP? (e : Entry) : Option ICMP → Entry
  | none => e
  | some i => if i.hasCode then (e.withICMPType i.type).withICMPCode i.code else e.withICMPType i.type

def baseEntry (index : UInt16) (r : Rule) : Entry :=
  let m := r.matching
  ((((Entry.start index r.allow).withPath? m.path).withFamily? m.family).withProto? m.proto).withICMP? m.icmp

def Entry.withPair (e : Entry) (ap : AddressPair) : Entry :=
  let e := if ap.src.isValid then e.withSource ap.src else e
  if ap.dst.isValid then e.withDestination ap.dst else e

def pairEntry (base : Entry) (ap : AddressPair) : Option Entry :=
  match pairFamily ap with
  | none => some (base.withPair ap)
  | some fam =>
    if base.has .family ∧ base.family ≠ fam then none else some ((base.withPair ap).withFamily fam)

def portEntry (m : Match) (e : Entry) (sp dp : PortRange) : Entry :=
  let e := if m.sourcePorts ≠ [] then e.withSourcePorts sp else e
  if m.destPorts ≠ [] then e.withDestPorts dp else e

def expandRule (index : UInt16) (r : Rule) : List Entry :=
  if ruleFamily r.matching = some 0 then []
  else
    ((addressPairs r.matching).filterMap (pairEntry (baseEntry index r))).flatMap fun e =>
      (orNoPorts r.matching.sourcePorts).flatMap fun sp =>
        (orNoPorts r.matching.destPorts).map fun dp => portEntry r.matching e sp dp

inductive CompileError
  | tooManyRules (rules : Nat)
  | tooManyEntries (entries : Nat)
  deriving DecidableEq, Repr

/-- `Compile`: the entries in rule order, never truncated. -/
def compile (p : Policy) : Except CompileError (List Entry) :=
  if maxRules < p.rules.length then .error (.tooManyRules p.rules.length)
  else if maxCompiledEntries < p.entryCount then .error (.tooManyEntries p.entryCount)
  else .ok (p.rules.zipIdx.flatMap fun (r, i) => expandRule (UInt16.ofNat i) r)

/-! ### Walking the entries -/

def entryMatchesExceptPath (e : Entry) (pkt : Packet) : Bool :=
  if e.has .family ∧ e.family ≠ pkt.family then false
  else if e.has .proto ∧ e.proto ≠ pkt.proto then false
  else if e.has .source ∧ ¬e.source.contains pkt.src then false
  else if e.has .destination ∧ ¬e.destination.contains pkt.dst then false
  else if e.has .sourcePorts ∧ ¬e.sourcePorts.contains pkt.srcPort then false
  else if e.has .destPorts ∧ ¬e.destPorts.contains pkt.dstPort then false
  else if e.has .icmpType ∧ e.icmpType ≠ pkt.icmpType then false
  else if e.has .icmpCode ∧ e.icmpCode ≠ pkt.icmpCode then false
  else true

/-- One turn of the loop of `EvaluateEntries`. -/
def Entry.verdict (e : Entry) (pkt : Packet) : Option Verdict :=
  if ¬entryMatchesExceptPath e pkt then none
  else if e.has .path ∧ pkt.path = .unknown then some .classificationError
  else if e.has .path ∧ e.path ≠ pkt.path then none
  else some ⟨e.has .allow, e.rule.toNat, .rule⟩

/-- `EvaluateEntries`: a linear first-match walk. -/
def evaluateEntries (entries : List Entry) (pkt : Packet) : Verdict :=
  (entries.findSome? (·.verdict pkt)).getD .noMatch

end Galactic.TrafficPolicy
