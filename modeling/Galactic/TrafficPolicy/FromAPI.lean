import Galactic.TrafficPolicy.Compile

/-!
# Validating a policy of the API

`FromAPI` turns a stored `TrafficPolicySpec` into the model and collects every error that it finds, each
under the path of the field that it is about. A list or pointer that was left out is `none`; an empty list
is not the same and is refused. -/

namespace Galactic.TrafficPolicy
open Net List

def maxAddresses : Nat := 64
def maxPortRanges : Nat := 16

def itoa (n : Int) : String := toString n

/-! ### Field errors -/

abbrev FieldPath := String

def FieldPath.child (path : FieldPath) (name : String) : FieldPath := if path = "" then name else path ++ "." ++ name

def FieldPath.index (path : FieldPath) (i : Nat) : FieldPath := path ++ "[" ++ itoa i ++ "]"

inductive ErrorType
  | required
  | invalid
  | notSupported
  | duplicate
  | forbidden
  | tooMany
  deriving DecidableEq, Repr

inductive BadValue
  | str (s : String)
  | int (n : Int)
  deriving DecidableEq, Repr

structure FieldError where
  type : ErrorType
  field : FieldPath
  badValue : BadValue
  detail : String
  deriving DecidableEq, Repr

namespace FieldError

def required (field : FieldPath) (detail : String) : FieldError := ⟨.required, field, .str "", detail⟩

def invalid (field : FieldPath) (value : BadValue) (detail : String) : FieldError := ⟨.invalid, field, value, detail⟩

def notSupported (field : FieldPath) (value : String) (valid : List String) : FieldError :=
  ⟨.notSupported, field, .str value, "supported values: " ++ ", ".intercalate (valid.map fun v => "\"" ++ v ++ "\"")⟩

def duplicate (field : FieldPath) (value : String) : FieldError := ⟨.duplicate, field, .str value, ""⟩

def forbidden (field : FieldPath) (detail : String) : FieldError := ⟨.forbidden, field, .str "", detail⟩

def tooMany (field : FieldPath) (actual most : Nat) : FieldError :=
  ⟨.tooMany, field, .int actual, "must have at most " ++ itoa most ++ " items"⟩

end FieldError

/-! ### The stored form -/

namespace Api

structure PortRange where
  start : Int
  stop : Int
  deriving DecidableEq

structure ICMPMatch where
  type : Int
  code : Option Int
  deriving DecidableEq

structure TrafficRuleMatch where
  path : Option String := none
  ipFamily : Option String := none
  protocol : Option String := none
  sourceIPs : Option (List String) := none
  destinationIPs : Option (List String) := none
  sourceCIDRs : Option (List String) := none
  destinationCIDRs : Option (List String) := none
  sourcePorts : Option (List PortRange) := none
  destinationPorts : Option (List PortRange) := none
  icmp : Option ICMPMatch := none
  deriving DecidableEq

structure TrafficRule where
  name : String
  action : String
  matching : Option TrafficRuleMatch
  deriving DecidableEq

structure TrafficPolicySpec where
  rules : List TrafficRule
  deriving DecidableEq

end Api

/-! ### The parts of a match -/

abbrev Checked (α : Type) := α × List FieldError

def pathFromAPI (p : String) : Option Path :=
  if p = "Private" then some .priv
  else if p = "PublicNAT" then some .publicNAT
  else if p = "PublicService" then some .publicService
  else none

def listBounds (n : Nat) (isNil : Bool) (path : FieldPath) (maxItems : Nat) : List FieldError :=
  if isNil then []
  else if n = 0 then [.invalid path (.str "[]") "must not be empty; omit the field to match anything"]
  else if maxItems < n then [.tooMany path n maxItems]
  else []

def checkFamily (f : Family) (want : Option Family) (path : FieldPath) (value : String) : Option FieldError :=
  want.bind fun w =>
    if f ≠ w then
      some (.invalid path (.str value)
        ("must be an IPv" ++ itoa w.toNat ++ " address to match the rule's family"))
    else none

/-- An entry of an address list, or what is wrong with its text. -/
def readAddress (s : String) : Except String Addr :=
  match parseAddr s.toList with
  | none => .error "must be an IPv4 or IPv6 address"
  | some a =>
    if a.zone ≠ "" then .error "must not carry a zone"
    else if a.is4In6 then .error "must not be an IPv4-mapped IPv6 address"
    else .ok a

/-- An entry of a prefix list. A prefix with host bits is refused. -/
def readPrefix (s : String) : Except String Prefix :=
  match parsePrefix s.toList with
  | none => .error "must be an IPv4 or IPv6 prefix"
  | some p =>
    if p.addr.is4In6 then .error "must not be an IPv4-mapped IPv6 prefix"
    else if p.masked ≠ p then .error ("must have no host bits set; did you mean " ++ p.masked.string ++ "?")
    else .ok p

/-- The loop over a list of either kind, from index `i` on. `seen` holds the entries met, the newest first. -/
def entriesLoop {α : Type} [BEq α] (read : String → Except String α) (kind : String) (addr : α → Addr)
    (pfx : α → Prefix) (path : FieldPath) (want : Option Family) :
    Nat → List (α × Nat) → List String → Checked (List Prefix)
  | _, _, [] => ([], [])
  | i, seen, s :: rest =>
    let ip := path.index i
    match read s with
    | .error detail =>
      let (out, errs) := entriesLoop read kind addr pfx path want (i + 1) seen rest
      (out, .invalid ip (.str s) detail :: errs)
    | .ok a =>
      match seen.lookup a with
      | some j =>
        let (out, errs) := entriesLoop read kind addr pfx path want (i + 1) seen rest
        (out, .duplicate ip (s ++ " (same " ++ kind ++ " as entry " ++ itoa j ++ ")") :: errs)
      | none =>
        let (out, errs) := entriesLoop read kind addr pfx path want (i + 1) ((a, i) :: seen) rest
        match checkFamily (familyOf (addr a)) want ip s with
        | some e => (out, e :: errs)
        | none => (pfx a :: out, errs)

def boundedList {α β : Type} (maxItems : Nat) (path : FieldPath) (loop : List α → Checked (List β)) :
    Option (List α) → Checked (List β)
  | none => ([], [])
  | some l =>
    let errs := listBounds l.length false path maxItems
    if errs ≠ [] then ([], errs) else loop l

def addresses (l : Option (List String)) (path : FieldPath) (want : Option Family) : Checked (List Prefix) :=
  boundedList maxAddresses path
    (entriesLoop readAddress "address" id (fun a => .ofAddr a a.bitLen) path want 0 []) l

def prefixes (l : Option (List String)) (path : FieldPath) (want : Option Family) : Checked (List Prefix) :=
  boundedList maxAddresses path (entriesLoop readPrefix "prefix" (·.addr) id path want 0 []) l

def rangeText (r : Api.PortRange) : String := itoa r.start ++ "-" ++ itoa r.stop

/-- The loop over a port list; `out` holds the ranges so far. -/
def portRangesLoop (path : FieldPath) : Nat → List PortRange → List Api.PortRange → Checked (List PortRange)
  | _, out, [] => (out, [])
  | i, out, r :: rest =>
    let rp := path.index i
    if r.start < 0 ∨ 65535 < r.start ∨ r.stop < 0 ∨ 65535 < r.stop then
      let (out, errs) := portRangesLoop path (i + 1) out rest
      (out, .invalid rp (.str (rangeText r)) "ports must be from 0 to 65535" :: errs)
    else if r.stop < r.start then
      let (out, errs) := portRangesLoop path (i + 1) out rest
      (out, .invalid rp (.str (rangeText r)) "start must not exceed end" :: errs)
    else
      let pr : PortRange := ⟨UInt16.ofNat r.start.toNat, UInt16.ofNat r.stop.toNat⟩
      let overlaps := out.zipIdx.filterMap fun (o, j) =>
        if pr.start ≤ o.stop ∧ o.start ≤ pr.stop then
          some (FieldError.invalid rp (.str (rangeText r)) ("overlaps range " ++ itoa j))
        else none
      let (out, errs) := portRangesLoop path (i + 1) (out ++ [pr]) rest
      (out, overlaps ++ errs)

def portRanges (l : Option (List Api.PortRange)) (path : FieldPath) : Checked (List PortRange) :=
  boundedList maxPortRanges path (portRangesLoop path 0 []) l

def icmpByteErrors (path : FieldPath) (x : Int) : List FieldError :=
  if x < 0 ∨ 255 < x then [.invalid path (.int x) "must be from 0 to 255"] else []

def icmpFromAPI (i : Api.ICMPMatch) (path : FieldPath) : Checked ICMP :=
  let typeErrs := icmpByteErrors (path.child "type") i.type
  match i.code with
  | none => (⟨UInt8.ofInt i.type, 0, false⟩, typeErrs)
  | some code =>
    (⟨UInt8.ofInt i.type, UInt8.ofInt code, true⟩, typeErrs ++ icmpByteErrors (path.child "code") code)

/-! ### Matches -/

def fieldFromAPI {α : Type} (read : String → Option α) (valid : List String) (path : FieldPath) :
    Option String → Checked (Option α)
  | none => (none, [])
  | some text =>
    match read text with
    | some v => (some v, [])
    | none => (none, [.notSupported path text valid])

def familyFromAPI (text : String) : Option Family :=
  if text = "IPv4" then some familyIPv4 else if text = "IPv6" then some familyIPv6 else none

def protoFromAPI (text : String) : Option Proto :=
  if text = "TCP" then some protoTCP
  else if text = "UDP" then some protoUDP
  else if text = "ICMP" then some protoICMP
  else if text = "ICMPv6" then some protoICMPv6
  else none

def protoFamilyErrors (api : Api.TrafficRuleMatch) (path : FieldPath) (family : Option Family)
    (proto : Option Proto) : List FieldError :=
  match protoFamily proto, family with
  | some pf, some f =>
    if pf ≠ f then
      [.invalid (path.child "ipFamily") (.str (api.ipFamily.getD ""))
        ("protocol " ++ api.protocol.getD "" ++ " requires ipFamily IPv" ++ itoa pf.toNat)]
    else []
  | _, _ => []

/-- One side's addresses: the exact ones, or the prefixes in their place when those are given. -/
def sideFromAPI (ips cidrs : Option (List String)) (ipsPath cidrsPath : FieldPath) (want : Option Family) :
    Checked (List Prefix) :=
  let (exact, exactErrs) := addresses ips ipsPath want
  match cidrs with
  | none => (exact, exactErrs)
  | some l =>
    let (pfxs, pfxErrs) := prefixes (some l) cidrsPath want
    (pfxs, exactErrs ++ pfxErrs)

def isTransport (proto : Option Proto) : Bool := proto = some protoTCP ∨ proto = some protoUDP

def isICMP (proto : Option Proto) : Bool := proto = some protoICMP ∨ proto = some protoICMPv6

def icmpField (api : Option Api.ICMPMatch) (path : FieldPath) (proto : Option Proto) : Checked (Option ICMP) :=
  match api with
  | none => (none, [])
  | some i =>
    let (icmp, errs) := icmpFromAPI i path
    (some icmp, (if isICMP proto then [] else [.forbidden path "icmp requires protocol ICMP or ICMPv6"]) ++ errs)

/-- `matchFromAPI`: the match, and the errors in the order of the source. -/
def matchFromAPI (api : Api.TrafficRuleMatch) (path : FieldPath) : Checked Match :=
  let (mPath, pathErrs) :=
    fieldFromAPI pathFromAPI ["Private", "PublicNAT", "PublicService"] (path.child "path") api.path
  let (family, familyErrs) := fieldFromAPI familyFromAPI ["IPv4", "IPv6"] (path.child "ipFamily") api.ipFamily
  let (proto, protoErrs) :=
    fieldFromAPI protoFromAPI ["TCP", "UDP", "ICMP", "ICMPv6"] (path.child "protocol") api.protocol
  let want := family.or (protoFamily proto)
  let exclusiveSource :=
    if api.sourceIPs.isSome ∧ api.sourceCIDRs.isSome then
      [FieldError.forbidden (path.child "sourceCIDRs") "sourceIPs and sourceCIDRs are mutually exclusive"]
    else []
  let exclusiveDest :=
    if api.destinationIPs.isSome ∧ api.destinationCIDRs.isSome then
      [FieldError.forbidden (path.child "destinationCIDRs")
        "destinationIPs and destinationCIDRs are mutually exclusive"]
    else []
  let (source, sourceErrs) :=
    sideFromAPI api.sourceIPs api.sourceCIDRs (path.child "sourceIPs") (path.child "sourceCIDRs") want
  let (destination, destErrs) :=
    sideFromAPI api.destinationIPs api.destinationCIDRs (path.child "destinationIPs")
      (path.child "destinationCIDRs") want
  let portErrs :=
    if (api.sourcePorts.isSome ∨ api.destinationPorts.isSome) ∧ ¬isTransport proto then
      [FieldError.forbidden (path.child "protocol") "ports require protocol TCP or UDP"]
    else []
  let (sourcePorts, sportErrs) := portRanges api.sourcePorts (path.child "sourcePorts")
  let (destPorts, dportErrs) := portRanges api.destinationPorts (path.child "destinationPorts")
  let (icmp, icmpErrs) := icmpField api.icmp (path.child "icmp") proto
  (⟨mPath, family, proto, source, destination, sourcePorts, destPorts, icmp⟩,
    pathErrs ++ familyErrs ++ protoErrs ++ protoFamilyErrors api path family proto ++ exclusiveSource ++
      exclusiveDest ++ sourceErrs ++ destErrs ++ portErrs ++ sportErrs ++ dportErrs ++ icmpErrs)

/-! ### Rules -/

def isRuleName (name : String) : Bool :=
  let isAlnum (c : Char) : Bool := ('a' ≤ c ∧ c ≤ 'z') ∨ ('0' ≤ c ∧ c ≤ '9')
  name.toList.all (fun c => isAlnum c || c = '-') ∧ name.toList.head?.any isAlnum ∧ name.toList.getLast?.any isAlnum

def nameErrors (name : String) (seen : List (String × Nat)) (path : FieldPath) : List FieldError :=
  (if ¬isRuleName name ∨ 63 < name.utf8ByteSize then [.invalid path (.str name) "must be a DNS label"] else []) ++
    ((seen.lookup name).toList.map fun j =>
      FieldError.duplicate path (name ++ " (also rule " ++ itoa j ++ ")"))

def actionFromAPI (action : String) (path : FieldPath) : Checked Bool :=
  if action = "Allow" then (true, [])
  else if action = "Deny" then (false, [])
  else (false, [.notSupported path action ["Allow", "Deny"]])

def ruleFromAPI (r : Api.TrafficRule) (seen : List (String × Nat)) (rp : FieldPath) : Checked Rule :=
  let (allow, actionErrs) := actionFromAPI r.action (rp.child "action")
  let (m, matchErrs) := r.matching.elim (.any, []) fun api => matchFromAPI api (rp.child "match")
  (⟨r.name, allow, m⟩, nameErrors r.name seen (rp.child "name") ++ actionErrs ++ matchErrs)

/-- The loop over the rules; `seen` holds the names met, the newest first. -/
def rulesLoop (rulesPath : FieldPath) : Nat → List (String × Nat) → List Api.TrafficRule → Checked (List Rule)
  | _, _, [] => ([], [])
  | i, seen, r :: rest =>
    let (rule, errs) := ruleFromAPI r seen (rulesPath.index i)
    let (rules, restErrs) := rulesLoop rulesPath (i + 1) ((r.name, i) :: seen) rest
    (rule :: rules, errs ++ restErrs)

def rulesBounds (n : Nat) (rulesPath : FieldPath) : List FieldError :=
  if n = 0 then [.required rulesPath "a policy needs at least one rule"]
  else if maxRules < n then [.tooMany rulesPath n maxRules]
  else []

/-- `FromAPI`: the policy, or every error. -/
def fromAPI (spec : Api.TrafficPolicySpec) (path : FieldPath) : Except (List FieldError) Policy :=
  let rulesPath := path.child "rules"
  let (rules, errs) := rulesLoop rulesPath 0 [] spec.rules
  let p : Policy := ⟨rules⟩
  if rulesBounds spec.rules.length rulesPath ++ errs ≠ [] then
    .error (rulesBounds spec.rules.length rulesPath ++ errs)
  else if maxCompiledEntries < p.entryCount then
    .error [.invalid rulesPath (.int p.entryCount)
      ("compiles to " ++ itoa p.entryCount ++ " datapath entries, more than the limit of " ++
        itoa maxCompiledEntries ++
        "; a rule compiles to the product of its source, destination and port alternatives")]
  else .ok p

/-! ### What an accepted policy promises -/

theorem readAddress_isValid {s : String} {a : Addr} (h : readAddress s = .ok a) :
    (Prefix.ofAddr a a.bitLen).isValid := by
  unfold readAddress at h
  split at h
  · cases h
  · split_ifs at h
    cases h
    exact Prefix.isValid_ofAddr (parseAddr_ne_zero ‹_›) le_rfl

theorem readPrefix_isValid {s : String} {p : Prefix} (h : readPrefix s = .ok p) : p.isValid := by
  unfold readPrefix at h
  split at h
  · cases h
  · split_ifs at h
    cases h
    exact parsePrefix_isValid ‹_›

theorem entriesLoop_isValid {α : Type} [BEq α] {read : String → Except String α} {kind : String} {addr : α → Addr}
    {pfx : α → Prefix} (hread : ∀ s a, read s = .ok a → (pfx a).isValid) (path : FieldPath) (want : Option Family)
    (l : List String) (i : Nat) (seen : List (α × Nat)) :
    ∀ p ∈ (entriesLoop read kind addr pfx path want i seen l).1, p.isValid := by
  fun_induction entriesLoop read kind addr pfx path want i seen l with
  | case1 => simp
  | case5 i seen s rest ip a ha _ out errs hrest _ ih =>
    rw [hrest] at ih
    exact forall_mem_cons.mpr ⟨hread s a ha, ih⟩
  | _ => simp_all

theorem boundedList_all {α β : Type} {maxItems : Nat} {path : FieldPath} {loop : List α → Checked (List β)}
    {P : β → Prop} (hloop : ∀ l, ∀ b ∈ (loop l).1, P b) (l : Option (List α)) :
    ∀ b ∈ (boundedList maxItems path loop l).1, P b := by
  cases l with
  | none => simp [boundedList]
  | some l =>
    simp only [boundedList]
    split_ifs
    · simp
    · exact hloop l

theorem sideFromAPI_isValid (ips cidrs : Option (List String)) (ipsPath cidrsPath : FieldPath) (want : Option Family) :
    ∀ p ∈ (sideFromAPI ips cidrs ipsPath cidrsPath want).1, p.isValid := by
  rw [sideFromAPI]
  cases cidrs with
  | none => exact boundedList_all (entriesLoop_isValid (fun _ _ => readAddress_isValid) ipsPath want · 0 []) ips
  | some l =>
    refine boundedList_all (fun l => ?_) (some l)
    exact entriesLoop_isValid (fun _ _ h => readPrefix_isValid h) cidrsPath want l 0 []

/-- A match that passed: valid prefixes, ports only with a protocol that has them, a family that exists. -/
structure Match.Admitted (m : Match) : Prop where
  source : ∀ p ∈ m.source, p.isValid = true
  destination : ∀ p ∈ m.destination, p.isValid = true
  sourcePorts : m.sourcePorts ≠ [] → isTransport m.proto = true
  destPorts : m.destPorts ≠ [] → isTransport m.proto = true
  family : ∀ f ∈ m.family, f = familyIPv4 ∨ f = familyIPv6
  icmp : m.icmp ≠ none → isICMP m.proto = true

theorem Match.Admitted.any : Match.any.Admitted := by
  constructor <;> simp [Match.any]

theorem fieldFromAPI_family (path : FieldPath) (text : Option String) :
    ∀ f ∈ (fieldFromAPI familyFromAPI ["IPv4", "IPv6"] path text).1, f = familyIPv4 ∨ f = familyIPv6 := by
  cases text with
  | none => simp [fieldFromAPI]
  | some text =>
    intro f hf
    rw [fieldFromAPI] at hf
    split at hf
    · rename_i v hv
      cases hf
      rw [familyFromAPI] at hv
      split_ifs at hv
      · exact .inl (Option.some.inj hv).symm
      · exact .inr (Option.some.inj hv).symm
    · simp at hf

theorem portRanges_none (path : FieldPath) : (portRanges none path).1 = [] := rfl

section
variable {path : FieldPath} {spec : Api.TrafficPolicySpec} {p : Policy}

theorem isSome_of_portRanges {l : Option (List Api.PortRange)} (h : (portRanges l path).1 ≠ []) : l.isSome := by
  cases l with
  | none => exact absurd (portRanges_none path) h
  | some l => rfl

theorem icmpField_isICMP {api : Option Api.ICMPMatch} {proto : Option Proto}
    (herrs : (icmpField api path proto).2 = []) (hsome : (icmpField api path proto).1 ≠ none) : isICMP proto := by
  cases api with
  | none => exact absurd rfl hsome
  | some i =>
    by_contra hno
    simp [icmpField, hno] at herrs

theorem matchFromAPI_admitted {api : Api.TrafficRuleMatch} (herrs : (matchFromAPI api path).2 = []) :
    (matchFromAPI api path).1.Admitted := by
  simp only [matchFromAPI, append_eq_nil_iff] at herrs
  obtain ⟨⟨⟨⟨⟨⟨⟨⟨⟨⟨⟨-, -⟩, -⟩, -⟩, -⟩, -⟩, -⟩, -⟩, hports⟩, -⟩, -⟩, hicmp⟩ := herrs
  have hports : api.sourcePorts.isSome ∨ api.destinationPorts.isSome →
      isTransport (fieldFromAPI protoFromAPI ["TCP", "UDP", "ICMP", "ICMPv6"] (path.child "protocol")
        api.protocol).1 := by
    intro hsome
    by_contra hno
    rw [if_pos ⟨hsome, hno⟩] at hports
    simp at hports
  exact {
    source := sideFromAPI_isValid _ _ _ _ _
    destination := sideFromAPI_isValid _ _ _ _ _
    sourcePorts := fun h => hports (.inl (isSome_of_portRanges h))
    destPorts := fun h => hports (.inr (isSome_of_portRanges h))
    family := fieldFromAPI_family _ _
    icmp := icmpField_isICMP hicmp }

theorem rulesLoop_admitted (rulesPath : FieldPath) (l : List Api.TrafficRule) (i : Nat) (seen : List (String × Nat))
    (herrs : (rulesLoop rulesPath i seen l).2 = []) : (rulesLoop rulesPath i seen l).1.length = l.length ∧
    ∀ r ∈ (rulesLoop rulesPath i seen l).1, r.matching.Admitted := by
  induction l generalizing i seen with
  | nil => simp [rulesLoop]
  | cons r rest ih =>
    simp only [rulesLoop, append_eq_nil_iff] at herrs ⊢
    obtain ⟨hrule, hrest⟩ := herrs
    obtain ⟨hlen, hall⟩ := ih _ _ hrest
    refine ⟨by simp [hlen], forall_mem_cons.mpr ⟨?_, hall⟩⟩
    simp only [ruleFromAPI, append_eq_nil_iff] at hrule ⊢
    cases hm : r.matching with
    | none => exact Match.Admitted.any
    | some api =>
      rw [hm] at hrule
      exact matchFromAPI_admitted hrule.2

theorem fromAPI_inv (h : fromAPI spec path = .ok p) :
    p.rules.length ≤ maxRules ∧ p.entryCount ≤ maxCompiledEntries ∧ ∀ r ∈ p.rules, r.matching.Admitted := by
  simp only [fromAPI] at h
  split_ifs at h with herrs hcount
  cases h
  rw [ne_eq, not_not, append_eq_nil_iff] at herrs
  obtain ⟨hlen, hall⟩ := rulesLoop_admitted _ _ _ _ herrs.2
  refine ⟨?_, by simpa using hcount, hall⟩
  rw [hlen]
  by_contra hmany
  have hbounds := herrs.1
  rw [rulesBounds, if_neg (by omega), if_pos (by omega)] at hbounds
  simp at hbounds

theorem compile_of_fromAPI (h : fromAPI spec path = .ok p) :
    compile p = .ok (p.rules.zipIdx.flatMap fun (r, i) => expandRule (UInt16.ofNat i) r) := by
  obtain ⟨hlen, hcount, -⟩ := fromAPI_inv h
  rw [compile, if_neg (by omega), if_neg (by omega)]

end

end Galactic.TrafficPolicy
