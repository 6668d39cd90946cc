import Galactic.Lib.FirstMatch
import Galactic.Net.Addr

/-!
# Traffic policies and the reference evaluator

The in-memory model of a traffic policy and `Evaluate`, the oracle that decides a packet against it: the first rule that
matches supplies the verdict. -/

namespace Galactic.TrafficPolicy
open Net

/-- A packet's forwarding path; `unknown` is a failed classification. -/
inductive Path
  | unknown
  | priv
  | publicNAT
  | publicService
  deriving DecidableEq, Repr

abbrev Proto := UInt8

def protoICMP : Proto := 1
def protoTCP : Proto := 6
def protoUDP : Proto := 17
def protoICMPv6 : Proto := 58

/-- Four or six. Zero is a value of its own: `ruleFamily` reports a contradiction by it. -/
abbrev Family := UInt8

def familyIPv4 : Family := 4
def familyIPv6 : Family := 6

structure PortRange where
  start : UInt16
  stop : UInt16
  deriving DecidableEq, Repr

def PortRange.contains (r : PortRange) (port : UInt16) : Bool := r.start ≤ port ∧ port ≤ r.stop

/-- An ICMP type and, where `hasCode`, a code. -/
structure ICMP where
  type : UInt8
  code : UInt8
  hasCode : Bool
  deriving DecidableEq, Repr

/-- What a rule matches. A field left out matches anything; a list is one of alternatives. -/
structure Match where
  path : Option Path
  family : Option Family
  proto : Option Proto
  source : List Prefix
  destination : List Prefix
  sourcePorts : List PortRange
  destPorts : List PortRange
  icmp : Option ICMP
  deriving DecidableEq

def Match.any : Match := ⟨none, none, none, [], [], [], [], none⟩

structure Rule where
  name : String
  allow : Bool
  matching : Match
  deriving DecidableEq

structure Policy where
  rules : List Rule
  deriving DecidableEq

def Policy.default : Policy := ⟨[⟨"deny-all", false, .any⟩]⟩

def familyOf (a : Addr) : Family := if a.is4 then familyIPv4 else familyIPv6

structure Packet where
  path : Path
  src : Addr
  dst : Addr
  proto : Proto
  srcPort : UInt16
  dstPort : UInt16
  icmpType : UInt8
  icmpCode : UInt8
  deriving DecidableEq

def Packet.family (p : Packet) : Family := familyOf p.src

inductive Reason
  | rule
  | noMatch
  | classificationError
  deriving DecidableEq, Repr

/-- A decision; `rule` is the winning rule's index, or -1. -/
structure Verdict where
  allow : Bool
  rule : Int
  reason : Reason
  deriving DecidableEq, Repr

def Verdict.noMatch : Verdict := ⟨false, -1, .noMatch⟩
def Verdict.classificationError : Verdict := ⟨false, -1, .classificationError⟩

def anyContains (ps : List Prefix) (a : Addr) : Bool := ps.any (·.contains a)

def anyPort (rs : List PortRange) (port : UInt16) : Bool := rs.any (·.contains port)

/-- Whether every field but the path matches. Protocol 1 inside IPv6 is not the ICMP that a rule names, nor
is 58 inside IPv4 the ICMPv6. -/
def matchesExceptPath (m : Match) (pkt : Packet) : Bool :=
  let fam := pkt.family
  if m.family.any (· ≠ fam) then false
  else if m.proto.any (· ≠ pkt.proto) then false
  else if m.proto.any fun p => (p = protoICMP ∧ fam ≠ familyIPv4) ∨ (p = protoICMPv6 ∧ fam ≠ familyIPv6) then false
  else if m.source ≠ [] ∧ ¬anyContains m.source pkt.src then false
  else if m.destination ≠ [] ∧ ¬anyContains m.destination pkt.dst then false
  else if m.sourcePorts ≠ [] ∧ ¬anyPort m.sourcePorts pkt.srcPort then false
  else if m.destPorts ≠ [] ∧ ¬anyPort m.destPorts pkt.dstPort then false
  else if m.icmp.any fun i => pkt.icmpType ≠ i.type ∨ (i.hasCode ∧ pkt.icmpCode ≠ i.code) then false
  else true

/-- One turn of the loop of `Evaluate`: the verdict it returns, or none to go on. -/
def Rule.verdict (r : Rule) (i : Nat) (pkt : Packet) : Option Verdict :=
  if ¬matchesExceptPath r.matching pkt then none
  else
    match r.matching.path with
    | none => some ⟨r.allow, i, .rule⟩
    | some path =>
      if pkt.path = .unknown then some .classificationError
      else if path ≠ pkt.path then none
      else some ⟨r.allow, i, .rule⟩

def evaluate (p : Policy) (pkt : Packet) : Verdict :=
  (p.rules.zipIdx.findSome? fun (r, i) => r.verdict i pkt).getD .noMatch

/-! ### A failed classification -/

theorem Rule.verdict_unknown (r : Rule) (i : Nat) (pkt : Packet) (path : Path) :
    r.verdict i { pkt with path := .unknown } = r.verdict i { pkt with path := path } ∨
      r.verdict i { pkt with path := .unknown } = some .classificationError := by
  -- the other fields are read from the same packet; only a rule with a path looks further
  unfold Rule.verdict
  have hsame : matchesExceptPath r.matching { pkt with path := .unknown } =
      matchesExceptPath r.matching { pkt with path := path } := rfl
  rw [hsame]
  split
  · exact .inl rfl
  · cases r.matching.path with
    | none => exact .inl rfl
    | some _ => exact .inr rfl

theorem Rule.verdict_eq_some {r : Rule} {i : Nat} {pkt : Packet} {v : Verdict} (h : r.verdict i pkt = some v) :
    v = .classificationError ∨ v = ⟨r.allow, i, .rule⟩ := by
  unfold Rule.verdict at h
  cases hpath : r.matching.path <;> simp only [hpath] at h <;> split_ifs at h <;> cases h
  · exact .inr rfl
  · exact .inl rfl
  · exact .inr rfl

/-- What an unclassified packet is allowed, it is allowed on every path, by the same rule. -/
theorem evaluate_of_unknown (p : Policy) (pkt : Packet)
    (hallow : (evaluate p { pkt with path := .unknown }).allow = true) (path : Path) :
    (evaluate p { pkt with path := path }).allow = true ∧ (evaluate p { pkt with path := path }).reason = .rule ∧
      (evaluate p { pkt with path := path }).rule = (evaluate p { pkt with path := .unknown }).rule := by
  have hwalks := FirstMatch.findSome?_agree (l := p.rules.zipIdx)
    (f := fun (r, i) => r.verdict i { pkt with path := .unknown })
    (g := fun (r, i) => r.verdict i { pkt with path := path }) (B := fun v => v.allow = false)
    fun (r, i) _ => (r.verdict_unknown i pkt path).imp_right fun h => ⟨_, h, rfl⟩
  rcases hwalks with hsame | ⟨v, hv, hdenied⟩
  · have heval : evaluate p { pkt with path := path } = evaluate p { pkt with path := .unknown } := by
      rw [evaluate, evaluate, hsame]
    rw [heval]
    refine ⟨hallow, ?_, rfl⟩
    rw [evaluate] at hallow ⊢
    cases hfound : p.rules.zipIdx.findSome? fun (r, i) => r.verdict i { pkt with path := .unknown } with
    | none => rw [hfound] at hallow; simp [Verdict.noMatch] at hallow
    | some v =>
      rw [hfound] at hallow
      obtain ⟨_, _, hv⟩ := List.exists_of_findSome?_eq_some hfound
      rcases Rule.verdict_eq_some hv with rfl | rfl
      · exact nomatch hallow
      · rfl
  · rw [evaluate, hv] at hallow
    simp [hdenied] at hallow

/-- TCP is denied on the NAT path, and the rest is allowed: an unclassified UDP packet passes the rule with the
path, since its protocol rules it out. -/
theorem evaluate_of_unknown_udp :
    let p : Policy := ⟨[⟨"nat", false, { Match.any with path := some .publicNAT, proto := some protoTCP }⟩,
      ⟨"all", true, .any⟩]⟩
    let pkt : Packet := ⟨.unknown, .zero, .zero, protoUDP, 1024, 53, 0, 0⟩
    (evaluate p pkt).allow ∧ (evaluate p { pkt with path := .publicNAT }).allow ∧
      (evaluate p { pkt with path := .publicNAT }).rule = (evaluate p pkt).rule :=
  have h := evaluate_of_unknown
    ⟨[⟨"nat", false, { Match.any with path := some .publicNAT, proto := some protoTCP }⟩, ⟨"all", true, .any⟩]⟩
    ⟨.unknown, .zero, .zero, protoUDP, 1024, 53, 0, 0⟩ (by decide) .publicNAT
  ⟨by decide, h.1, h.2.2⟩

/-! ### Shadowed rules -/

section Shadowed
open List

/-- Which of a match's empty lists are allocated: `reflect.DeepEqual` tells those from nil. -/
structure Allocated where
  source : Bool
  destination : Bool
  sourcePorts : Bool
  destPorts : Bool

def deepEqual (m m' : Match) (a a' : Allocated) : Bool :=
  m = m' ∧ (m.source = [] → a.source = a'.source) ∧ (m.destination = [] → a.destination = a'.destination) ∧
    (m.sourcePorts = [] → a.sourcePorts = a'.sourcePorts) ∧ (m.destPorts = [] → a.destPorts = a'.destPorts)

/-- `Shadowed`: the pairs of its map. -/
def shadowed (p : Policy) (alloc : Nat → Allocated) : List (Nat × Nat) :=
  p.rules.zipIdx.filterMap fun (r, i) =>
    ((p.rules.take i).zipIdx.find? fun (q, j) =>
      deepEqual q.matching .any (alloc j) ⟨false, false, false, false⟩ ∨
        deepEqual q.matching r.matching (alloc j) (alloc i)).map fun (_, j) => (i, j)

variable {p : Policy} {alloc : Nat → Allocated} {i j : Nat} {q r : Rule} {pkt : Packet}

theorem shadowed_split (h : (i, j) ∈ shadowed p alloc) : ∃ before r after, p.rules = before ++ r :: after ∧
    before.length = i ∧ ∃ q, (q, j) ∈ before.zipIdx ∧ (q.matching = .any ∨ q.matching = r.matching) := by
  obtain ⟨⟨r, k⟩, hr, hfound⟩ := mem_filterMap.mp h
  obtain ⟨⟨q, k'⟩, hq, heq⟩ := Option.map_eq_some_iff.mp hfound
  cases heq
  obtain ⟨-, hlt, hr⟩ := mem_zipIdx hr
  rw [Nat.zero_add] at hlt
  have hcover := find?_some hq
  simp only [deepEqual, decide_eq_true_eq] at hcover
  refine ⟨p.rules.take i, r, p.rules.drop (i + 1), ?_, length_take_of_le hlt.le, q, mem_of_find?_eq_some hq, ?_⟩
  · simp [hr]
  · exact hcover.imp And.left And.left

/-- What a verdict says, its rule's index left out. -/
def Verdict.outcome (v : Verdict) : Bool × Reason := (v.allow, v.reason)

theorem Rule.outcome_verdict (r : Rule) (i : Nat) (pkt : Packet) :
    (r.verdict i pkt).map Verdict.outcome = (r.verdict 0 pkt).map Verdict.outcome := by
  unfold Rule.verdict
  cases r.matching.path <;> dsimp only <;> split_ifs <;> rfl

/-- A rule stops no packet that a rule which covers it lets pass. -/
theorem Rule.verdict_of_cover (hq : q.matching = .any ∨ q.matching = r.matching) (h : q.verdict j pkt = none) :
    r.verdict i pkt = none := by
  unfold Rule.verdict at h ⊢
  rcases hq with hany | hsame
  · simp [hany, matchesExceptPath, Match.any] at h
  · rw [hsame] at h
    split_ifs at h ⊢ with hmatch hunknown
    all_goals cases hpath : r.matching.path <;> simp_all

/-- The verdict over some of a policy's rules, each with its index. -/
def walk (entries : List (Rule × Nat)) (pkt : Packet) : Verdict :=
  (entries.findSome? fun (r, i) => r.verdict i pkt).getD .noMatch

theorem walk_outcome (entries : List (Rule × Nat)) (pkt : Packet) : (walk entries pkt).outcome =
    ((entries.map Prod.fst).findSome? fun r => (r.verdict 0 pkt).map Verdict.outcome).getD Verdict.noMatch.outcome := by
  rw [findSome?_map, ← FirstMatch.findSome?_congr fun e _ => e.1.outcome_verdict e.2 pkt]
  exact map_findSome? ▸ (Option.getD_map ..).symm

theorem walk_rule {entries : List (Rule × Nat)} (h : ∀ e ∈ entries, e.2 ≠ i) : (walk entries pkt).rule ≠ i := by
  unfold walk
  cases hfound : entries.findSome? fun (r, i) => r.verdict i pkt with
  | none => nofun
  | some v =>
    obtain ⟨⟨r, k⟩, hmem, hv⟩ := exists_of_findSome?_eq_some hfound
    rcases Rule.verdict_eq_some hv with rfl | rfl
    · nofun
    · exact fun hrule => h _ hmem (Int.ofNat.inj hrule)

/-- **Shadow warnings.** A rule that is reported decides no packet, and without it every packet is decided alike. -/
theorem shadowed_sound (p : Policy) (alloc : Nat → Allocated) (i j : Nat) (h : (i, j) ∈ shadowed p alloc)
    (pkt : Packet) : (evaluate p pkt).rule ≠ i ∧ (evaluate ⟨p.rules.eraseIdx i⟩ pkt).allow = (evaluate p pkt).allow ∧
    (evaluate ⟨p.rules.eraseIdx i⟩ pkt).reason = (evaluate p pkt).reason := by
  obtain ⟨before, r, after, hrules, rfl, q, hq, hcover⟩ := shadowed_split h
  have heval : evaluate p pkt = walk (before.zipIdx ++ after.zipIdx (before.length + 1)) pkt := by
    -- a packet that comes to the rule has passed the one that covers it
    rw [evaluate, walk, hrules, zipIdx_append, zipIdx_cons, findSome?_append, findSome?_append,
      findSome?_cons, Nat.zero_add]
    cases hbefore : before.zipIdx.findSome? fun (r, i) => r.verdict i pkt with
    | some _ => rfl
    | none => simp only [Rule.verdict_of_cover hcover (findSome?_eq_none_iff.mp hbefore _ hq)]
  have hsame : (evaluate ⟨p.rules.eraseIdx before.length⟩ pkt).outcome = (evaluate p pkt).outcome := by
    rw [heval, walk_outcome]
    refine (walk_outcome ..).trans ?_
    simp [hrules, eraseIdx_append_of_length_le]
  refine ⟨?_, congrArg Prod.fst hsame, congrArg Prod.snd hsame⟩
  rw [heval]
  refine walk_rule (forall_mem_append.mpr ⟨fun e he => ?_, fun e he => ?_⟩)
  · exact Nat.ne_of_lt (by simpa using (mem_zipIdx he).2.1)
  · exact Nat.ne_of_gt (mem_zipIdx he).1

/-- A rule after a catch-all decides nothing. -/
theorem shadowed_after_any :
    let p : Policy := ⟨[⟨"all", true, .any⟩, ⟨"late", false, .any⟩]⟩
    (1, 0) ∈ shadowed p (fun _ => ⟨false, false, false, false⟩) ∧ ∀ pkt, (evaluate p pkt).rule ≠ 1 :=
  ⟨by decide, fun pkt => (shadowed_sound _ (fun _ => ⟨false, false, false, false⟩) 1 0 (by decide) pkt).1⟩

end Shadowed

end Galactic.TrafficPolicy
