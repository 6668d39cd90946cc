import Galactic.Net.Printed

/-!
# Path attributes of the route index

The index holds one copy of each set of path attributes, under the key `computeKey` renders. A search is compiled into a
test on attributes. Two sets under one key may differ in their AS path segments, but no search tells them apart. -/

namespace Galactic.RouteIndex

open Net List

inductive SegmentType
  | sequence
  | set
  | confedSequence
  | confedSet
  deriving DecidableEq

structure ASSegment where
  type : SegmentType
  asns : List UInt32
  deriving DecidableEq

/-- `frr.ASPath`: FRR's rendering, and the segments. -/
structure ASPath where
  string : String
  segments : List ASSegment
  deriving DecidableEq

structure LargeCommunity where
  global : UInt32
  local1 : UInt32
  local2 : UInt32
  deriving DecidableEq

/-- `strconv.FormatUint` in base ten. -/
def formatUint (n : UInt32) : List Char := dec n.toNat

def LargeCommunity.text (l : LargeCommunity) : List Char :=
  formatUint l.global ++ ':' :: (formatUint l.local1 ++ ':' :: formatUint l.local2)

/-- `Attrs`, without what the index itself keeps with them (see `Object`). -/
structure Attrs where
  asPath : ASPath := ⟨"", []⟩
  originASN : UInt32 := 0
  origin : String := ""
  med : Option UInt32 := none
  localPref : Option UInt32 := none
  community : List UInt32 := []
  large : List LargeCommunity := []
  nextHop : Addr := .zero
  deriving DecidableEq

def optional (n : Option UInt32) : List Char := (n.map formatUint).getD []

def commas (ts : List (List Char)) : List Char := ts.flatMap (· ++ [','])

def Attrs.computeKey (a : Attrs) : String :=
  String.ofList (a.asPath.string.toList ++ '|' :: (a.origin.toList ++ '|' :: (optional a.med ++ '|' ::
    (optional a.localPref ++ '|' :: (commas (a.community.map formatUint) ++ '|' ::
      (commas (a.large.map LargeCommunity.text) ++ '|' :: a.nextHop.string.toList))))))

/-! ### Attributes of an UPDATE -/

/-- One segment of an AS_PATH attribute: `GetType` and `GetAS`. -/
structure AsPathParam where
  type : UInt8
  as : List UInt32

/-- `frr.OriginASN`: the last AS of the last sequence, confederation segments apart. -/
def originASN (segs : List ASSegment) : UInt32 :=
  go segs.reverse
where
  go : List ASSegment → UInt32
    | [] => 0
    | s :: rest =>
      match s.type with
      | .confedSequence | .confedSet => go rest
      | .sequence => s.asns.getLast?.getD 0
      | .set => 0

/-- The segment type of a type code: 1 is a set, 3 a confederation sequence, 4 a confederation set. -/
def AsPathParam.segmentType (p : AsPathParam) : SegmentType :=
  if p.type = 1 then .set else if p.type = 3 then .confedSequence else if p.type = 4 then .confedSet else .sequence

def AsPathParam.segment (p : AsPathParam) : ASSegment := ⟨p.segmentType, p.as⟩

/-- FRR's rendering of a segment. -/
def AsPathParam.text (p : AsPathParam) : List Char :=
  let strs := p.as.map formatUint
  match p.segmentType with
  | .set => '\x7b' :: (List.intercalate [','] strs ++ ['\x7d'])
  | .confedSequence => '(' :: (List.intercalate [' '] strs ++ [')'])
  | .confedSet => '[' :: (List.intercalate [','] strs ++ [']'])
  | .sequence => List.intercalate [' '] strs

def asPathOf (value : List AsPathParam) : ASPath × UInt32 :=
  let segments := value.map AsPathParam.segment
  (⟨String.ofList (List.intercalate [' '] (value.map AsPathParam.text)), segments⟩, RouteIndex.originASN segments)

def originName (v : UInt8) : String := if v = 0 then "IGP" else if v = 1 then "EGP" else "incomplete"

/-! ### Searches -/

inductive QueryType
  | routeLookup
  | asPath
  | community
  | largeCommunity
  | bgpSummary
  | ping
  | traceroute
  deriving DecidableEq

inductive AddressFamily
  | unset
  | ipv4
  | ipv6
  deriving DecidableEq

/-- What a search reads of a `query.Query`. -/
structure Query where
  type : QueryType
  addressFamily : AddressFamily
  target : String

inductive SearchError
  | regexp (target : String)
  | community (target : String)
  | largeCommunity (target : String)
  | notSearch (type : QueryType)
  | notSynced
  deriving DecidableEq

/-- `wellKnown`: the value, the name in a query, and FRR's name in JSON. -/
def wellKnown : List (UInt32 × String × String) :=
  [(0xFFFFFF01, "no-export", "noExport"), (0xFFFFFF02, "no-advertise", "noAdvertise"),
    (0xFFFFFF03, "local-AS", "localAs"),
    (0xFFFFFF04, "no-peer", "noPeer"), (0xFFFF029A, "blackhole", "blackhole"),
    (0xFFFF0000, "graceful-shutdown", "gracefulShutdown"), (0xFFFF0001, "accept-own", "acceptOwn")]

/-- `strconv.ParseUint` in base ten. -/
def parseUint (s : List Char) (bits : Nat) : Option Nat :=
  (parseDec s).bind fun n => if n < 2 ^ bits then some n else none

def communityValue (s : String) : Except SearchError UInt32 :=
  match wellKnown.find? fun w => s = w.2.1 with
  | some w => .ok w.1
  | none =>
    match cut ':' s.toList with
    | none => .error (.community s)
    | some (hi, lo) =>
      match parseUint hi 16, parseUint lo 16 with
      | some h, some l => .ok ((UInt32.ofNat h <<< 16) ||| UInt32.ofNat l)
      | _, _ => .error (.community s)

def largeValue (s : String) : Except SearchError LargeCommunity :=
  match (s.toList.splitOn ':').mapM fun p => parseUint p 32 with
  | some [a, b, c] => .ok ⟨UInt32.ofNat a, UInt32.ofNat b, UInt32.ofNat c⟩
  | _ => .error (.largeCommunity s)

/-- The regular expression of an AS-path query: an underscore stands for a delimiter or an end. -/
def asPathPattern (target : String) : String :=
  String.ofList (target.toList.flatMap fun c => if c = '_' then "(^|[,\x7b\x7d() ]|$)".toList else [c])

/-- `compile`: the test on attributes. `posix` is `regexp.CompilePOSIX`, with the matching of the result. -/
def compile (posix : String → Option (String → Bool)) (q : Query) : Except SearchError (Attrs → Bool) :=
  match q.type with
  | .asPath =>
    match posix (asPathPattern q.target) with
    | none => .error (.regexp q.target)
    | some re => .ok fun a => re a.asPath.string
  | .community => (communityValue q.target).map fun want a => a.community.contains want
  | .largeCommunity => (largeValue q.target).map fun want a => a.large.contains want
  | t => .error (.notSearch t)

/-! ### The rendered path -/

def communityString (c : UInt32) : String :=
  match wellKnown.find? fun w => c = w.1 with
  | some w => w.2.2
  | none => String.ofList (formatUint (c >>> 16) ++ ':' :: formatUint (c &&& 0xFFFF))

/-- What `pathOf` sets of an `frr.Path`. -/
structure Path where
  best : Bool
  valid : Bool
  asPath : ASPath
  origin : String
  originASN : UInt32
  med : Option UInt32
  localPref : Option UInt32
  communities : List String
  largeCommunities : List String
  nextHops : List (String × Bool)
  isLocal : Bool
  deriving DecidableEq

/-- `pathOf`; a next hop is its address and whether it is used. -/
def pathOf (a : Attrs) : Path where
  best := true
  valid := true
  asPath := a.asPath
  origin := a.origin
  originASN := a.originASN
  med := a.med
  localPref := a.localPref
  communities := a.community.map communityString
  largeCommunities := a.large.map fun l => String.ofList l.text
  nextHops := if a.nextHop = .zero then [] else [(a.nextHop.string, true)]
  isLocal := a.asPath.segments.isEmpty

/-! ### What a key tells -/

theorem formatUint_inj {m n : UInt32} (h : formatUint m = formatUint n) : m = n := by
  have hval := congrArg (Nat.ofDigitChars 10 · 0) h
  simp only [formatUint, dec, Nat.ofDigitChars_toDigits (show 1 < 10 by decide) le_rfl] at hval
  exact UInt32.toNat_inj.mp hval

variable {c : Char}

theorem notMem_formatUint (hc : c.isDigit = false) (n : UInt32) : c ∉ formatUint n := fun h => by
  have := Nat.isDigit_of_mem_toDigits (by decide) le_rfl h
  simp [hc] at this

theorem append_inj_of_notMem {s s' t t' : List Char} (hs : c ∉ s) (hs' : c ∉ s') (h : s ++ c :: t = s' ++ c :: t') :
    s = s' ∧ t = t' := by
  have hcut := congrArg (cut c) h
  rw [cut_append hs, cut_append hs'] at hcut
  simpa using hcut

theorem LargeCommunity.text_inj {l l' : LargeCommunity} (h : l.text = l'.text) : l = l' := by
  have hcolon : ∀ n, ':' ∉ formatUint n := notMem_formatUint (by decide)
  obtain ⟨h₀, h⟩ := append_inj_of_notMem (hcolon _) (hcolon _) h
  obtain ⟨h₁, h₂⟩ := append_inj_of_notMem (hcolon _) (hcolon _) h
  cases l
  cases l'
  exact LargeCommunity.mk.injEq .. ▸ ⟨formatUint_inj h₀, formatUint_inj h₁, formatUint_inj h₂⟩

variable {ts : List (List Char)}

theorem commas_inj {ts' : List (List Char)} (hts : ∀ t ∈ ts, ',' ∉ t) (hts' : ∀ t ∈ ts', ',' ∉ t)
    (h : commas ts = commas ts') : ts = ts' := by
  induction ts generalizing ts' with
  | nil =>
    cases ts' with
    | nil => rfl
    | cons t' ts' => simp [commas] at h
  | cons t ts ih =>
    cases ts' with
    | nil => simp [commas] at h
    | cons t' ts' =>
      simp only [commas, flatMap_cons, append_assoc, cons_append, nil_append] at h
      obtain ⟨rfl, htail⟩ := append_inj_of_notMem (hts _ mem_cons_self) (hts' _ mem_cons_self) h
      rw [ih (fun u hu => hts u (mem_cons_of_mem _ hu)) (fun u hu => hts' u (mem_cons_of_mem _ hu)) htail]

theorem LargeCommunity.notMem_text (hc : c.isDigit = false) (hcolon : c ≠ ':') (l : LargeCommunity) : c ∉ l.text := by
  intro h
  simp only [LargeCommunity.text, mem_append, mem_cons] at h
  rcases h with h | h | h | h | h
  · exact notMem_formatUint hc _ h
  · exact hcolon h
  · exact notMem_formatUint hc _ h
  · exact hcolon h
  · exact notMem_formatUint hc _ h

theorem bar_notMem_commas (hts : ∀ t ∈ ts, '|' ∉ t) : '|' ∉ commas ts := by
  intro h
  obtain ⟨t, ht, hmem⟩ := mem_flatMap.mp h
  rcases mem_append.mp hmem with hmem | hmem
  · exact hts t ht hmem
  · simp at hmem

theorem bar_notMem_optional (n : Option UInt32) : '|' ∉ optional n := by
  cases n with
  | none => simp [optional]
  | some n => exact notMem_formatUint (by decide) n

/-- The texts that an UPDATE gives have no bar in them. -/
structure Attrs.Plain (a : Attrs) : Prop where
  asPath : '|' ∉ a.asPath.string.toList
  origin : '|' ∉ a.origin.toList

/-- Sets of attributes under one key agree in all that a search reads. -/
structure Attrs.Alike (a b : Attrs) : Prop where
  asPath : a.asPath.string = b.asPath.string
  community : a.community = b.community
  large : a.large = b.large

variable {a b : Attrs}

theorem Attrs.alike_of_computeKey (ha : a.Plain) (hb : b.Plain) (h : a.computeKey = b.computeKey) : a.Alike b := by
  have hcommunity : ∀ c : Attrs, ∀ t ∈ c.community.map formatUint, ∀ x : Char, x.isDigit = false → x ∉ t := by
    intro c t ht x hx
    obtain ⟨n, -, rfl⟩ := mem_map.mp ht
    exact notMem_formatUint hx n
  have hlarge (c : Attrs) :
      ∀ t ∈ c.large.map LargeCommunity.text, ∀ x : Char, x.isDigit = false → x ≠ ':' → x ∉ t := by
    intro t ht x hx hcolon
    obtain ⟨l, -, rfl⟩ := mem_map.mp ht
    exact l.notMem_text hx hcolon
  have hbar : ∀ c : Attrs, '|' ∉ commas (c.community.map formatUint) ∧ '|' ∉ commas (c.large.map LargeCommunity.text) :=
    fun c => ⟨bar_notMem_commas fun t ht => hcommunity c t ht _ (by decide),
      bar_notMem_commas fun t ht => hlarge c t ht _ (by decide) (by decide)⟩
  -- the fields of the key, one after the other
  obtain ⟨hpath, h⟩ := append_inj_of_notMem ha.asPath hb.asPath (String.ofList_inj.mp h)
  obtain ⟨-, h⟩ := append_inj_of_notMem ha.origin hb.origin h
  obtain ⟨-, h⟩ := append_inj_of_notMem (bar_notMem_optional _) (bar_notMem_optional _) h
  obtain ⟨-, h⟩ := append_inj_of_notMem (bar_notMem_optional _) (bar_notMem_optional _) h
  obtain ⟨hcomm, h⟩ := append_inj_of_notMem (hbar a).1 (hbar b).1 h
  obtain ⟨hlrg, -⟩ := append_inj_of_notMem (hbar a).2 (hbar b).2 h
  refine ⟨String.toList_inj.mp hpath, ?_, ?_⟩
  · exact map_injective_iff.mpr (fun _ _ => formatUint_inj)
      (commas_inj (fun t ht => hcommunity a t ht _ (by decide)) (fun t ht => hcommunity b t ht _ (by decide)) hcomm)
  · exact map_injective_iff.mpr (fun _ _ => LargeCommunity.text_inj)
      (commas_inj (fun t ht => hlarge a t ht _ (by decide) (by decide)) (fun t ht => hlarge b t ht _ (by decide)
        (by decide)) hlrg)

theorem compile_alike {posix : String → Option (String → Bool)} {q : Query} {m : Attrs → Bool}
    (h : compile posix q = .ok m) (hab : a.Alike b) : m a = m b := by
  unfold compile at h
  split at h
  · split at h
    · cases h
    · cases h
      dsimp only
      rw [hab.asPath]
  · cases hval : communityValue q.target <;> rw [hval] at h <;> cases h
    dsimp only
    rw [hab.community]
  · cases hval : largeValue q.target <;> rw [hval] at h <;> cases h
    dsimp only
    rw [hab.large]
  · cases h

theorem bar_notMem_asPathOf (value : List AsPathParam) : '|' ∉ (asPathOf value).1.string.toList := by
  have hjoin : ∀ (sep : Char) (as : List UInt32), sep ≠ '|' → '|' ∉ intercalate [sep] (as.map formatUint) := by
    intro sep as hsep h
    rcases mem_intercalate_singleton _ h with h | ⟨l, hl, h⟩
    · exact hsep h.symm
    · obtain ⟨n, -, rfl⟩ := mem_map.mp hl
      exact notMem_formatUint (by decide) n h
  have htext : ∀ p : AsPathParam, '|' ∉ p.text := by
    intro p
    unfold AsPathParam.text
    dsimp only
    split <;> simp [hjoin]
  rw [asPathOf, String.toList_ofList]
  intro h
  rcases mem_intercalate_singleton _ h with h | ⟨l, hl, h⟩
  · simp at h
  · obtain ⟨p, -, rfl⟩ := mem_map.mp hl
    exact htext p h

theorem bar_notMem_originName (v : UInt8) : '|' ∉ (originName v).toList := by
  unfold originName
  split_ifs <;> decide

end Galactic.RouteIndex
