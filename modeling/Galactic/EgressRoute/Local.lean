import Galactic.Lib.StepRun

/-!
# Prefixes that move to this node

Remote paths, CNI ADD and galactic-edge write `egress_route_table`. The prefixes of workloads and of edge links get
pass-through entries with their owner in the first SID byte. The withdrawal of a remote path spares those of the edge
only, so a prefix that moved to a workload loses its entry when the old path is withdrawn (`delivered_iff`).

Calls do not fail in the map. A prefix is the list of its leading bits. -/

namespace Galactic.EgressRoute
open List Function Option

inductive Family where
  | inet4
  | inet6
  deriving DecidableEq

structure Pfx where
  family : Family
  bits : List Bool
  deriving DecidableEq

structure Key where
  tableID : UInt32
  pfx : Pfx
  deriving DecidableEq

inductive PassThroughOwner where
  | cni
  | edge

def PassThroughOwner.byte : PassThroughOwner → UInt8
  | cni => 0
  | edge => 1

structure RouteValue where
  sid : List UInt8
  linkIfindex : UInt32

namespace RouteValue

def passThrough (v : RouteValue) : Bool := v.linkIfindex = 0

def ownedBy (owner : PassThroughOwner) (v : RouteValue) : Bool := v.passThrough && v.sid.headD 0 == owner.byte

def foreign (v : RouteValue) : Bool := v.passThrough && !v.ownedBy .edge

def ofOwner (owner : PassThroughOwner) : RouteValue := ⟨owner.byte :: replicate 15 0, 0⟩

end RouteValue

open RouteValue

abbrev Gateway := List UInt8 × { link : UInt32 // link ≠ 0 }

abbrev Table := Key → Option RouteValue

def Key.cut (key : Key) (n : Nat) : Key := { key with pfx.bits := key.pfx.bits.take n }

def Key.extend (key : Key) (rest : List Bool) : Key := { key with pfx.bits := key.pfx.bits ++ rest }

namespace Table
variable (m : Table) (key : Key)

def lookupUpTo : Nat → Option RouteValue
  | 0 => m (key.cut 0)
  | n + 1 => (m (key.cut (n + 1))).or (lookupUpTo n)

/-- The lookup of the map: the longest match that is not longer than the key. -/
def lookup : Option RouteValue := m.lookupUpTo key key.pfx.bits.length

/-- With the SID and the link of the gateway, if it is a usable one. -/
def routeEgressAdd : Option Gateway → Table
  | none => m
  | some (sid, link) => update m key (some ⟨sid, link⟩)

def registerPassThroughAs (owner : PassThroughOwner) : Table := update m key (some (ofOwner owner))

def unregister : Table := update m key none

def unregisterUnlessPassThroughAs (owner : PassThroughOwner) : Table :=
  match m.lookup key with
  | none => m
  | some v => if v.ownedBy owner then m else m.unregister key

def routeEgressDel : Table := m.unregisterUnlessPassThroughAs key .edge

def unregisterPassThroughAs (owner : PassThroughOwner) : Table :=
  match m.lookup key with
  | none => m
  | some v => if v.ownedBy owner then m.unregister key else m

def registerAll (tableID : UInt32) (owner : PassThroughOwner) (skip : Pfx → Bool) (prefixes : List Pfx) : Table :=
  prefixes.foldl (fun m p => if skip p then m else m.registerPassThroughAs ⟨tableID, p⟩ owner) m

/-- CNI ADD has no `exists`: it skips nothing. -/
def registerLocalEgressRoutesIn (tableID : UInt32) (prefixes : List Pfx) (exist : Pfx → Bool) : Table :=
  m.registerAll tableID .cni exist prefixes

/-- The second loop is over the entries that were there, one key a turn. -/
def syncHostLinkRoutesIn (tableID : UInt32) (want : List Pfx) : Table := fun key =>
  let added := m.registerAll tableID .edge (fun p => (m ⟨tableID, p⟩).any foreign) want
  if key.tableID = tableID ∧ key.pfx ∉ want ∧
    (m key).any (ownedBy .edge) then added.unregisterPassThroughAs key .edge key
  else added key

end Table

/-- The map, and who holds prefixes on this node. -/
structure Node where
  table : Table
  workloads : List Key
  links : List Key

inductive Call where
  | announce (key : Key) (resolved : Option Gateway)
  | withdraw (key : Key)
  | attach (tableID : UInt32) (prefixes : List Pfx)
  /-- A workload leaves. Its entry stays. -/
  | detach (key : Key)
  | sync (tableID : UInt32) (want : List Pfx)

namespace Node

def init : Node := ⟨fun _ => none, [], []⟩

def step (s : Node) : Call → Node
  | .announce key resolved => { s with table := s.table.routeEgressAdd key resolved }
  | .withdraw key => { s with table := s.table.routeEgressDel key }
  | .attach tableID prefixes =>
    { s with
      table := s.table.registerLocalEgressRoutesIn tableID prefixes fun _ => false
      workloads := prefixes.map (⟨tableID, ·⟩) ++ s.workloads }
  | .detach key => { s with workloads := s.workloads.filter (· ≠ key) }
  | .sync tableID want =>
    { s with
      table := s.table.syncHostLinkRoutesIn tableID want
      links := want.map (⟨tableID, ·⟩) ++ s.links.filter (·.tableID ≠ tableID) }

variable (s : Node)

def Holds (key : Key) : Prop := key ∈ s.workloads ∨ key ∈ s.links

/-- A held prefix has a pass-through entry of its own, which every packet with no longer match gets. -/
def Delivered : Prop :=
  ∀ key, s.Holds key → ∃ v, s.table key = some v ∧ v.passThrough = true ∧
    ∀ rest, (∀ n < rest.length, s.table (key.extend (rest.take (n + 1))) = none) →
      s.table.lookup (key.extend rest) = some v

/-- Remote paths are announced only for prefixes that nobody holds here. -/
def Remote : Call → Prop
  | .announce key _ => ¬ s.Holds key
  | _ => True

/-- A withdrawal meets an entry of the edge, if somebody holds the prefix. -/
def Spared : Call → Prop
  | .withdraw key => s.Holds key → (s.table key).any (ownedBy .edge) = true
  | _ => True

end Node

/-! ### The map -/

theorem any_passThrough {o : Option RouteValue} (h : o.any foreign) : o.any passThrough := by
  cases o with
  | none => exact h
  | some v => exact (Bool.and_eq_true_iff.mp h).1

namespace Table
variable {m : Table} {key : Key} {v : RouteValue} {owner : PassThroughOwner}

theorem lookupUpTo_of_cut {n : Nat} (h : m (key.cut n) = some v) : m.lookupUpTo key n = some v := by
  cases n with
  | zero => exact h
  | succ n => simp [lookupUpTo, h]

theorem lookup_of_entry (h : m key = some v) : m.lookup key = some v := lookupUpTo_of_cut (by simpa [Key.cut] using h)

theorem lookup_extend {rest : List Bool} (h : m key = some v)
    (hnone : ∀ n < rest.length, m (key.extend (rest.take (n + 1))) = none) : m.lookup (key.extend rest) = some v := by
  have hupto : ∀ n ≤ rest.length, m.lookupUpTo (key.extend rest) (key.pfx.bits.length + n) = some v := by
    intro n hn
    induction n with
    | zero => exact lookupUpTo_of_cut (by simpa [Key.cut, Key.extend] using h)
    | succ n ih =>
      have hcut : (key.extend rest).cut (key.pfx.bits.length + n + 1) = key.extend (rest.take (n + 1)) := by
        simp only [Key.cut, Key.extend, Nat.add_assoc, take_length_add_append]
      rw [← Nat.add_assoc, lookupUpTo, hcut, hnone n hn]
      exact ih (Nat.le_of_lt hn)
  simpa [lookup, Key.extend] using hupto rest.length (Nat.le_refl _)

theorem registerAll_apply {tableID : UInt32} {skip : Pfx → Bool} {ps : List Pfx} :
    m.registerAll tableID owner skip ps key =
      if key.tableID = tableID ∧ key.pfx ∈ ps ∧ skip key.pfx = false then some (ofOwner owner) else m key := by
  unfold registerAll
  induction ps generalizing m with
  | nil => simp
  | cons p ps ih =>
    rw [foldl_cons, ih]
    by_cases hkey : key = ⟨tableID, p⟩
    · subst hkey
      cases skip p <;> simp [registerPassThroughAs]
    have hne : ¬ (key.tableID = tableID ∧ key.pfx = p) := by
      rintro ⟨rfl, rfl⟩
      exact hkey rfl
    have hsame : (if skip p then m else m.registerPassThroughAs ⟨tableID, p⟩ owner) key = m key := by
      split_ifs
      · rfl
      · exact update_of_ne hkey _ _
    simp only [hsame, mem_cons]
    grind

theorem routeEgressDel_apply {key' : Key} :
    m.routeEgressDel key key' = if key' = key then (m key).filter (ownedBy .edge) else m key' := by
  unfold routeEgressDel unregisterUnlessPassThroughAs unregister
  by_cases hkey : key' = key
  · subst hkey
    rw [if_pos rfl]
    cases hm : m key' with
    | none =>
      cases m.lookup key' with
      | none => exact hm
      | some v =>
        dsimp only
        split_ifs <;> simp [hm]
    | some v =>
      rw [lookup_of_entry hm]
      cases hv : v.ownedBy .edge <;> simp [hv, hm, filter_some]
  · rw [if_neg hkey]
    cases m.lookup key with
    | none => rfl
    | some v =>
      dsimp only
      split_ifs <;> simp [hkey]

variable {tableID : UInt32} {want : List Pfx}

theorem sync_foreign (h : (m key).any foreign) : m.syncHostLinkRoutesIn tableID want key = m key := by
  obtain ⟨v, hv, hforeign⟩ := (any_eq_true _ _).mp h
  have hedge : v.ownedBy .edge = false := by simp_all [foreign]
  obtain ⟨id, p⟩ := key
  simp only [syncHostLinkRoutesIn, registerAll_apply]
  grind

theorem sync_other (h : key.tableID ≠ tableID) : m.syncHostLinkRoutesIn tableID want key = m key := by
  simp only [syncHostLinkRoutesIn, registerAll_apply, h, false_and, if_false]

theorem sync_wanted {p : Pfx} (h : p ∈ want) : (m.syncHostLinkRoutesIn tableID want ⟨tableID, p⟩).any passThrough := by
  by_cases hforeign : (m ⟨tableID, p⟩).any foreign
  · rw [sync_foreign hforeign]
    exact any_passThrough hforeign
  · simp [syncHostLinkRoutesIn, registerAll_apply, h, hforeign]
    rfl

end Table

namespace Node
variable {s : Node} {c : Call}

structure Owned (s : Node) : Prop where
  workloads : ∀ key ∈ s.workloads, (s.table key).any foreign = true
  links : ∀ key ∈ s.links, (s.table key).any passThrough = true

theorem Owned.held (h : s.Owned) {key : Key} (hkey : s.Holds key) : (s.table key).any passThrough :=
  hkey.elim (fun hw => any_passThrough (h.workloads key hw)) (h.links key)

theorem Owned.delivered (h : s.Owned) : s.Delivered := by
  intro key hkey
  obtain ⟨v, hv, hpass⟩ := (any_eq_true _ _).mp (h.held hkey)
  exact ⟨v, hv, hpass, fun _ => Table.lookup_extend hv⟩

theorem Owned.of_table (h : s.Owned) {table : Table} (htable : ∀ key, s.Holds key → table key = s.table key) :
    Owned { s with table } := by
  refine ⟨fun key hkey => ?_, fun key hkey => ?_⟩
  · exact (congrArg _ (htable key (.inl hkey))).trans (h.workloads key hkey)
  · exact (congrArg _ (htable key (.inr hkey))).trans (h.links key hkey)

theorem Owned.step (h : s.Owned) (hremote : s.Remote c) (hspared : s.Spared c) : (s.step c).Owned := by
  cases c with
  | announce key resolved =>
    refine h.of_table fun key' hkey' => ?_
    cases resolved with
    | none => rfl
    | some r =>
      refine update_of_ne ?_ _ _
      rintro rfl
      exact hremote hkey'
  | withdraw key =>
    refine h.of_table fun key' hkey' => ?_
    rw [Table.routeEgressDel_apply]
    split_ifs with heq
    · subst heq
      obtain ⟨v, hv, hedge⟩ := (any_eq_true _ _).mp (hspared hkey')
      rw [hv, filter_some, if_pos hedge]
    · rfl
  | attach tableID prefixes =>
    have hentry : ∀ key, (s.step (.attach tableID prefixes)).table key =
        if key.tableID = tableID ∧ key.pfx ∈ prefixes then some (ofOwner .cni) else s.table key := fun key => by
      simp [Node.step, Table.registerLocalEgressRoutesIn, Table.registerAll_apply]
    refine ⟨fun key hkey => ?_, fun key hkey => ?_⟩
    · rw [hentry]
      split_ifs with hin
      · rfl
      · refine h.workloads key ((mem_append.mp hkey).resolve_left fun hmem => hin ?_)
        obtain ⟨p, hp, rfl⟩ := mem_map.mp hmem
        exact ⟨rfl, hp⟩
    · rw [hentry]
      split_ifs
      · rfl
      · exact h.links key hkey
  | detach key => exact ⟨fun key' hkey' => h.workloads key' (mem_filter.mp hkey').1, h.links⟩
  | sync tableID want =>
    refine ⟨fun key hkey => ?_, fun key hkey => ?_⟩
    · exact (congrArg _ (Table.sync_foreign (h.workloads key hkey))).trans (h.workloads key hkey)
    rcases mem_append.mp hkey with hmem | hmem
    · obtain ⟨p, hp, rfl⟩ := mem_map.mp hmem
      exact Table.sync_wanted hp
    · obtain ⟨hlink, hne⟩ := mem_filter.mp hmem
      exact (congrArg _ (Table.sync_other (of_decide_eq_true hne))).trans (h.links key hlink)

theorem Delivered.spared (hnext : (s.step c).Delivered) : s.Spared c := by
  cases c with
  | withdraw key =>
    intro hkey
    obtain ⟨v, hv, -⟩ := hnext key hkey
    simp only [Node.step, Table.routeEgressDel_apply, if_pos] at hv
    obtain ⟨hv, hedge⟩ := filter_eq_some_iff.mp hv
    rw [hv]
    exact hedge
  | _ => trivial

end Node

/-- A prefix that somebody holds here is delivered here in every state, iff every withdrawal of a held prefix meets an
entry of the edge. -/
theorem delivered_iff (calls : List Call) (hremote : StepRun.Meets Node.step Node.Remote .init calls) :
    StepRun.Always Node.step Node.Delivered .init calls ↔ StepRun.Meets Node.step Node.Spared .init calls :=
  StepRun.always_iff_meets_of (I := Node.Owned) (fun _ _ h => h.step) (fun _ h => h.delivered) (fun _ _ _ h => h.spared)
    ⟨fun _ h => absurd h not_mem_nil, fun _ h => absurd h not_mem_nil⟩ hremote

def movedKey : Key := ⟨7, .inet6, [true, true, true, true]⟩

def oldPath : Option Gateway := some (0xfc :: replicate 15 0, ⟨3, by decide⟩)

theorem delivered_on_edge : StepRun.Always Node.step Node.Delivered .init [.announce movedKey oldPath,
      .sync 7 [movedKey.pfx], .withdraw movedKey] := by
  refine (delivered_iff _ ?_).mpr ?_
  · exact ⟨fun h => h.elim (nomatch ·) (nomatch ·), trivial, trivial, trivial⟩
  · exact ⟨trivial, trivial, fun _ => by decide, trivial⟩

theorem workload_entry_withdrawn :
    let calls : List Call := [.announce movedKey oldPath, .attach 7 [movedKey.pfx], .withdraw movedKey]
    StepRun.Meets Node.step Node.Remote .init calls ∧ (calls.foldl Node.step .init).Holds movedKey ∧
      (calls.foldl Node.step .init).table movedKey = none :=
  ⟨⟨fun h => h.elim (nomatch ·) (nomatch ·), trivial, trivial, trivial⟩, .inl (by decide), by decide⟩

end Galactic.EgressRoute
