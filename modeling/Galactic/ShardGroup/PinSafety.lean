import Galactic.Lib.Tenure
import Galactic.ShardGroup.WellFormed

/-!
# Pins across republication

A pin names a slot and a generation. Over any run of calls on a group, with failures, class changes and process restarts
in between, a generation of a slot belongs to one shard and one class, until the 32-bit counter comes round.

The counter lives in the published snapshot and in the process; one that restarts falls back to the published one. -/

namespace Galactic.ShardGroup
open List Option Nat UInt32

open Uformat (Usid)

/-! ### Runs -/

/-- A call on the group, with what happens outside during it, or a restart of the process. -/
inductive Event
  | apply (env : Env) (policy : GroupPolicy) (candidates : List ShardCandidate)
  | close (loadErr : Option String) (env : Env)
  | disable (loadErr publishErr : Option String)
  | restart

/-- A group with its history: the snapshots that were ever visible, and how many generations were taken. -/
structure World where
  group : Group := {}
  published : List GroupValue := []
  allocated : Nat := 0

def World.after {α : Type} (w : World) (out : Outcome α) : World :=
  { group := out.group, published := out.published.toList ++ w.published, allocated := w.allocated + out.allocated }

def step (groupID : Nat) (w : World) : Event → World
  | .apply env policy candidates => w.after (apply env groupID policy candidates w.group)
  | .close loadErr env => w.after (closeGroup loadErr env groupID w.group)
  | .disable loadErr publishErr => w.after (disable loadErr publishErr groupID w.group)
  | .restart => { w with group := { w.group with highWater := 0 } }

def run (groupID : Nat) (events : List Event) : World := events.foldl (step groupID) {}

/-! ### Generations of a build -/

/-- The generations of a build that starts its counter at `start`: a slot is empty, keeps the tenure it had, or
has one that `start` had not reached. -/
structure GenInv (previous : Shards) (start : UInt32) (b : Build) : Prop where
  start_le : start.toNat ≤ b.next.toNat
  next_le : b.next.toNat ≤ max 1 start.toNat + allocations b
  tenure : ∀ i, (b.shards i).generation ≠ 0 →
    (keeps (previous i) (b.shards i).sid = true ∧ (b.shards i).generation = (previous i).generation) ∨
      (start.toNat ≤ (b.shards i).generation.toNat ∧ (b.shards i).generation.toNat < b.next.toNat)

theorem take_spec {next : UInt32} (h : max 1 next.toNat + 1 < 2 ^ 32) :
    (take next).1.toNat = max 1 next.toNat ∧ (take next).2.toNat = max 1 next.toNat + 1 := by
  have hfirst : (if next = 0 then 1 else next).toNat = max 1 next.toNat := by
    split_ifs with hzero
    · subst hzero
      rfl
    · have hpos : next.toNat ≠ 0 := fun h0 => hzero (UInt32.toNat_inj.mp h0)
      omega
  refine ⟨hfirst, ?_⟩
  change (_ + 1 : UInt32).toNat = _
  rw [UInt32.toNat_add, hfirst]
  exact Nat.mod_eq_of_lt h

section
variable (env : Env) (nat64 hold : Bool) (previous : Shards) (assignment : List (Usid × Nat)) (b : Build)
  (c : Candidate)

include env nat64 hold previous assignment b c

theorem buildStep_eq : (buildStep env nat64 hold previous assignment b c).next =
        (slotGeneration (shardAt previous (slotOf assignment c)) c.sid b.next).2 ∧
      (buildStep env nat64 hold previous assignment b c).shards =
        setShard b.shards (slotOf assignment c) (memberOf nat64 hold c (resolveShard env c)
          (slotGeneration (shardAt previous (slotOf assignment c)) c.sid b.next).1) := ⟨rfl, rfl⟩

theorem buildStep_allocations :
    allocations (buildStep env nat64 hold previous assignment b c) =
      allocations b + if keeps (shardAt previous (slotOf assignment c)) c.sid then 0 else 1 := by
  unfold allocations buildStep
  rw [countP_append, countP_singleton]
  change _ + (if (!keeps (shardAt previous (slotOf assignment c)) c.sid) then 1 else 0) = _
  cases keeps (shardAt previous (slotOf assignment c)) c.sid <;> rfl

end

section Loop
variable {env : Env} {nat64 hold : Bool} {previous : Shards} {assignment : List (Usid × Nat)} {start : UInt32}

theorem le_allocations_foldl (env : Env) (nat64 hold : Bool) (previous : Shards) (assignment : List (Usid × Nat))
    (wanted : List Candidate) (b : Build) :
    allocations b ≤ allocations (wanted.foldl (buildStep env nat64 hold previous assignment) b) ∧
      allocations (wanted.foldl (buildStep env nat64 hold previous assignment) b) ≤ allocations b + wanted.length := by
  induction wanted generalizing b with
  | nil => exact ⟨le_rfl, le_rfl⟩
  | cons c wanted ih =>
    have hstep := buildStep_allocations env nat64 hold previous assignment b c
    obtain ⟨hle, hge⟩ := ih (buildStep env nat64 hold previous assignment b c)
    rw [foldl_cons, length_cons]
    split_ifs at hstep <;> exact ⟨by omega, by omega⟩

theorem buildStep_genInv {b : Build} (h : GenInv previous start b) (c : Candidate)
    (hsmall : max 1 start.toNat + allocations (buildStep env nat64 hold previous assignment b c) < 2 ^ 32) :
    GenInv previous start (buildStep env nat64 hold previous assignment b c) := by
  obtain ⟨hnext, hshards⟩ := buildStep_eq env nat64 hold previous assignment b c
  have hcount := buildStep_allocations env nat64 hold previous assignment b c
  have hstart := h.start_le
  have hle := h.next_le
  unfold slotGeneration at hnext hshards
  by_cases hkeeps : keeps (shardAt previous (slotOf assignment c)) c.sid
  · rw [if_pos hkeeps] at hnext hshards hcount
    refine ⟨hnext ▸ hstart, by rw [hnext, hcount]; exact hle, fun i hne => ?_⟩
    rw [hnext]
    rw [hshards] at hne ⊢
    by_cases hi : i.val = slotOf assignment c
    · have hprev : shardAt previous (slotOf assignment c) = previous i := hi ▸ shardAt_fin previous i
      rw [setShard_self i hi]
      exact .inl ⟨hprev ▸ hkeeps, by rw [hprev]; rfl⟩
    · rw [setShard_ne i hi] at hne ⊢
      exact h.tenure i hne
  rw [if_neg hkeeps] at hnext hshards hcount
  obtain ⟨hgen, hafter⟩ : (take b.next).1.toNat = max 1 b.next.toNat ∧ (take b.next).2.toNat = max 1 b.next.toNat + 1 :=
    take_spec (by omega)
  refine ⟨by rw [hnext, hafter]; omega, by rw [hnext, hafter, hcount]; omega, fun i hne => ?_⟩
  rw [hnext, hafter]
  rw [hshards] at hne ⊢
  by_cases hi : i.val = slotOf assignment c
  · rw [setShard_self i hi]
    refine .inr ?_
    change start.toNat ≤ (take b.next).1.toNat ∧ (take b.next).1.toNat < _
    omega
  · rw [setShard_ne i hi] at hne ⊢
    rcases h.tenure i hne with hkept | hfresh
    · exact .inl hkept
    · exact .inr (by omega)

theorem foldl_buildStep_genInv (wanted : List Candidate) {b : Build} (h : GenInv previous start b)
    (hsmall : max 1 start.toNat + allocations (wanted.foldl (buildStep env nat64 hold previous assignment) b) < 2 ^ 32)
    : GenInv previous start (wanted.foldl (buildStep env nat64 hold previous assignment) b) := by
  induction wanted generalizing b with
  | nil => exact h
  | cons c wanted ih =>
    rw [foldl_cons] at hsmall ⊢
    have hle := (le_allocations_foldl env nat64 hold previous assignment wanted
      (buildStep env nat64 hold previous assignment b c)).1
    exact ih (buildStep_genInv h c (by omega)) hsmall

end Loop

theorem toNat_max (a b : UInt32) : (max a b).toNat = max a.toNat b.toNat :=
  (apply_ite UInt32.toNat (a ≤ b) b a).trans rfl

theorem build_genInv (env : Env) (policy : GroupPolicy) (current : GroupValue) (highWater : UInt32)
    (wanted : List Candidate) (hsmall : max 1 (max current.nextSlotGeneration highWater).toNat +
      allocations (build env policy current highWater wanted) < 2 ^ 32) :
    GenInv (previousShards current policy) (max current.nextSlotGeneration highWater)
      (build env policy current highWater wanted) := by
  refine foldl_buildStep_genInv wanted ⟨le_rfl, ?_, fun i hne => absurd rfl hne⟩ hsmall
  exact (le_max_right _ _).trans (le_add_right _ _)

/-! ### Snapshots as publications of tenures -/

/-- A snapshot as tenures of slots: the owner is the shard, under the class of the group. -/
def view (v : GroupValue) : Tenure.Snapshot (Fin maxShardsPerGroup) (Usid × Option TranslationClass) where
  generation i := (v.shards i).generation.toNat
  owner i := ((v.shards i).sid, decodeClass v)
  next := v.nextSlotGeneration.toNat

section
variable {v : GroupValue} {i : Fin maxShardsPerGroup} {current : GroupValue} {policy : GroupPolicy}

theorem view_generation_ne : (view v).generation i ≠ 0 ↔ (v.shards i).generation ≠ 0 := by
  rw [view, Ne, Ne, ← UInt32.toNat_inj]
  rfl

theorem class_of_keeps {sid : Usid} (hdecodes : (current.shards i).occupied → (decodeClass current).isSome)
    (h : keeps (previousShards current policy i) sid) :
    previousShards current policy i = current.shards i ∧ (current.shards i).sid = sid ∧
      classOf policy.transl.kind policy.transl.prefixBytes = decodeClass current := by
  have hparts : ∀ m : Member, keeps m sid → m.occupied ∧ m.sid = sid := by
    intro m hm
    simp only [keeps, Bool.and_eq_true, decide_eq_true_eq] at hm
    exact hm.1
  unfold previousShards at h ⊢
  cases hclass : decodeClass current with
  | none =>
    rw [hclass] at h
    have := hdecodes (hparts _ h).1
    rw [hclass] at this
    cases this
  | some c =>
    rw [hclass] at h
    dsimp only at h ⊢
    by_cases hstring : c.string = policy.transl.string
    · rw [if_neg (not_not.mpr hstring)] at h ⊢
      exact ⟨rfl, (hparts _ h).2, decodeClass_of_string_eq hclass hstring⟩
    · rw [if_pos hstring] at h
      cases h

/-- **One publication.** A snapshot of `Apply` keeps the tenures of the published one or starts new ones. -/
theorem SnapshotOf.follows {env : Env} {highWater : UInt32}
    {wanted : List Candidate} (h : SnapshotOf env policy current highWater wanted v)
    (hdecodes : ∀ i, (current.shards i).occupied → (decodeClass current).isSome)
    (hsmall : max 1 (max current.nextSlotGeneration highWater).toNat +
      allocations (build env policy current highWater wanted) < 2 ^ 32) : Tenure.Follows (view current) (view v) := by
  have hgen := build_genInv env policy current highWater wanted hsmall
  have hstart := hgen.start_le
  have hmax := toNat_max current.nextSlotGeneration highWater
  have hnext : (view v).next = (build env policy current highWater wanted).next.toNat := congrArg toNat h.next
  refine ⟨?_, fun i hne => ?_⟩
  · rw [hnext]
    change current.nextSlotGeneration.toNat ≤ _
    omega
  have hne' := view_generation_ne.mp hne
  rw [h.shards] at hne'
  rcases hgen.tenure i hne' with ⟨hkeeps, heq⟩ | ⟨hge, hlt⟩
  · obtain ⟨hprev, hsid, hclass⟩ := class_of_keeps (hdecodes i) hkeeps
    refine .inl ⟨?_, ?_⟩
    · change (v.shards i).generation.toNat = (current.shards i).generation.toNat
      rw [h.shards, heq, hprev]
    · change ((v.shards i).sid, decodeClass v) = ((current.shards i).sid, decodeClass current)
      rw [decodeClass, h.classKind, h.classPrefix, hclass, hsid, h.shards]
  refine .inr ⟨?_, ?_⟩
  · change current.nextSlotGeneration.toNat ≤ (v.shards i).generation.toNat
    rw [h.shards]
    omega
  rw [hnext]
  change (v.shards i).generation.toNat < _
  rw [h.shards]
  exact hlt

end

/-! ### What a call can do -/

inductive Effect (g : Group) : Group → Option GroupValue → Nat → Prop
  | nothing : Effect g g none 0
  | built (env : Env) (policy : GroupPolicy) (wanted : List Candidate) (hlen : wanted.length ≤ maxShardsPerGroup) :
      Effect g { g with highWater := (build env policy (g.store.getD {}) g.highWater wanted).next } none
        (allocations (build env policy (g.store.getD {}) g.highWater wanted))
  | published (env : Env) (policy : GroupPolicy) (wanted : List Candidate) (v : GroupValue)
      (hlen : wanted.length ≤ maxShardsPerGroup) (hv : SnapshotOf env policy (g.store.getD {}) g.highWater wanted v) :
      Effect g ⟨some v, (build env policy (g.store.getD {}) g.highWater wanted).next⟩ (some v)
        (allocations (build env policy (g.store.getD {}) g.highWater wanted))
  | disabled (current : GroupValue) (generation : UInt32) (hcurrent : g.store = some current) :
      Effect g { g with store := some { disabledValue current g.highWater with generation } }
        (some { disabledValue current g.highWater with generation }) 0

theorem apply_effect (env : Env) (groupID : Nat) (policy : GroupPolicy) (candidates : List ShardCandidate) (g : Group) :
    Effect g (apply env groupID policy candidates g).group (apply env groupID policy candidates g).published
      (apply env groupID policy candidates g).allocated := by
  have hspec := apply_spec env groupID policy candidates g
  generalize apply env groupID policy candidates g = out at hspec ⊢
  cases hspec with
  | refused e => exact .nothing
  | unpublished wanted result err hwanted hlen hsame => exact .built env policy wanted hlen
  | published wanted value result hwanted hlen hvalue hresult =>
    exact .published env policy wanted _ hlen ((snapshot_spec hvalue).withGeneration _)

theorem closeGroup_effect (loadErr : Option String) (env : Env) (groupID : Nat) (g : Group) :
    Effect g (closeGroup loadErr env groupID g).group (closeGroup loadErr env groupID g).published
      (closeGroup loadErr env groupID g).allocated := by
  unfold closeGroup
  cases load loadErr groupID g with
  | error e => exact .nothing
  | ok out =>
    dsimp only
    split_ifs
    · exact .nothing
    · exact apply_effect env groupID _ _ g

theorem disable_effect (loadErr publishErr : Option String) (groupID : Nat) (g : Group) :
    Effect g (disable loadErr publishErr groupID g).group (disable loadErr publishErr groupID g).published
      (disable loadErr publishErr groupID g).allocated := by
  unfold disable
  cases hload : load loadErr groupID g with
  | error e => exact .nothing
  | ok out =>
    obtain rfl := load_eq hload
    dsimp only
    cases hstore : g.store with
    | none => exact .nothing
    | some current =>
      split_ifs with habsent hsame
      · exact .nothing
      · exact .nothing
      · cases publishErr with
        | some e => exact .nothing
        | none => exact .disabled current _ hstore

/-! ### The invariant of a run -/

structure WorldInv (w : World) : Prop where
  tenure : Tenure.Inv (w.published.map view) (view (w.group.store.getD {}))
  decodes : ∀ v, w.group.store = some v → (decodeClass v).isSome
  next_le : (w.group.store.getD {}).nextSlotGeneration.toNat ≤ w.allocated + 1
  mark_le : w.group.highWater.toNat ≤ w.allocated + 1

theorem initial_inv : WorldInv {} :=
  ⟨Tenure.Inv.nil fun _ => rfl, fun _ h => absurd h (by simp), by decide, by decide⟩

section
variable {w : World} {published : Option GroupValue} {allocated : Nat} {groupID : Nat}

theorem WorldInv.occupied_decodes (h : WorldInv w) (i : Fin maxShardsPerGroup)
    (hocc : ((w.group.store.getD {}).shards i).occupied) : (decodeClass (w.group.store.getD {})).isSome := by
  cases hstore : w.group.store with
  | none =>
    rw [hstore] at hocc
    exact absurd hocc (by simp [Member.occupied])
  | some v => exact h.decodes v hstore

theorem SnapshotOf.decodes {env : Env} {policy : GroupPolicy} {current : GroupValue} {highWater : UInt32}
    {wanted : List Candidate} {v : GroupValue} (h : SnapshotOf env policy current highWater wanted v) :
    (decodeClass v).isSome := by
  rw [decodeClass, h.classKind, TranslationClass.kind]
  split_ifs <;> rfl

theorem Effect.inv (h : WorldInv w) {g : Group}
    (heffect : Effect w.group g published allocated) (hsmall : w.allocated + allocated < 2 ^ 32 - 1) :
    WorldInv ⟨g, published.toList ++ w.published, w.allocated + allocated⟩ := by
  have hnext := h.next_le
  have hmark := h.mark_le
  have hmax := toNat_max (w.group.store.getD {}).nextSlotGeneration w.group.highWater
  cases heffect with
  | nothing => exact ⟨h.tenure, h.decodes, by simpa using hnext, by simpa using hmark⟩
  | built env policy wanted hlen =>
    have hgen := build_genInv env policy (w.group.store.getD {}) w.group.highWater wanted (by omega)
    have hle := hgen.next_le
    exact ⟨h.tenure, h.decodes, hnext.trans (by dsimp only; omega), by dsimp only; omega⟩
  | published env policy wanted v hlen hv =>
    have hgen := build_genInv env policy (w.group.store.getD {}) w.group.highWater wanted (by omega)
    have hle := hgen.next_le
    refine ⟨h.tenure.publish (hv.follows h.occupied_decodes (by omega)), ?_, ?_, by dsimp only; omega⟩
    · intro v' hv'
      cases hv'
      exact hv.decodes
    · dsimp only [getD_some]
      rw [hv.next]
      omega
  | disabled current generation hcurrent =>
    rw [hcurrent] at hnext hmax
    rw [getD_some] at hnext hmax
    have htenure := h.tenure
    rw [hcurrent, getD_some] at htenure
    refine ⟨htenure.publish ⟨?_, fun i hne => ?_⟩, ?_, ?_, hmark⟩
    · change current.nextSlotGeneration.toNat ≤ (max current.nextSlotGeneration w.group.highWater).toNat
      omega
    · exact absurd rfl (view_generation_ne.mp hne)
    · intro v hv
      cases hv
      exact h.decodes current hcurrent
    · change (max current.nextSlotGeneration w.group.highWater).toNat ≤ w.allocated + 0 + 1
      omega

theorem step_effect (groupID : Nat) (w : World) (e : Event) :
    (∃ published allocated, Effect w.group (step groupID w e).group published allocated ∧
      step groupID w e = ⟨(step groupID w e).group, published.toList ++ w.published, w.allocated + allocated⟩) ∨
      step groupID w e = { w with group := { w.group with highWater := 0 } } := by
  cases e with
  | apply env policy candidates => exact .inl ⟨_, _, apply_effect env groupID policy candidates w.group, rfl⟩
  | close loadErr env => exact .inl ⟨_, _, closeGroup_effect loadErr env groupID w.group, rfl⟩
  | disable loadErr publishErr => exact .inl ⟨_, _, disable_effect loadErr publishErr groupID w.group, rfl⟩
  | restart => exact .inr rfl

theorem step_inv (h : WorldInv w) (e : Event) (hsmall : (step groupID w e).allocated < 2 ^ 32 - 1) :
    WorldInv (step groupID w e) := by
  rcases step_effect groupID w e with ⟨published, allocated, heffect, heq⟩ | heq
  · rw [heq] at hsmall ⊢
    exact heffect.inv h hsmall
  · rw [heq]
    exact ⟨h.tenure, h.decodes, h.next_le, by simp⟩

theorem Effect.allocated_le {g g' : Group} (h : Effect g g' published allocated) : allocated ≤ maxShardsPerGroup := by
  have hbuild : ∀ (env : Env) (policy : GroupPolicy) (wanted : List Candidate), wanted.length ≤ maxShardsPerGroup →
      allocations (build env policy (g.store.getD {}) g.highWater wanted) ≤ maxShardsPerGroup := by
    intro env policy wanted hlen
    have hle := (le_allocations_foldl env policy.transl.nat64 (holds env policy wanted)
      (previousShards (g.store.getD {}) policy) (assignSlots (previousShards (g.store.getD {}) policy) wanted) wanted
      { next := max (g.store.getD {}).nextSlotGeneration g.highWater }).2
    exact hle.trans (by simpa [allocations] using hlen)
  cases h with
  | nothing => exact zero_le _
  | built env policy wanted hlen | published env policy wanted v hlen hv => exact hbuild env policy wanted hlen
  | disabled => exact zero_le _

theorem step_allocated (groupID : Nat) (w : World) (e : Event) :
    w.allocated ≤ (step groupID w e).allocated ∧ (step groupID w e).allocated ≤ w.allocated + maxShardsPerGroup := by
  rcases step_effect groupID w e with ⟨published, allocated, heffect, heq⟩ | heq
  · have hle := heffect.allocated_le
    rw [heq]
    exact ⟨Nat.le_add_right _ _, Nat.add_le_add_left hle _⟩
  · rw [heq]
    exact ⟨le_rfl, Nat.le_add_right _ _⟩

theorem foldl_step_allocated (groupID : Nat) (events : List Event) (w : World) :
    w.allocated ≤ (events.foldl (step groupID) w).allocated ∧
      (events.foldl (step groupID) w).allocated ≤ w.allocated + maxShardsPerGroup * events.length := by
  induction events generalizing w with
  | nil => exact ⟨le_rfl, le_rfl⟩
  | cons e events ih =>
    have hstep := step_allocated groupID w e
    have hrest := ih (step groupID w e)
    rw [foldl_cons, length_cons, mul_succ]
    omega

/-- **Runs.** The invariant holds after every run that takes fewer generations than the counter has. -/
theorem foldl_step_inv (events : List Event) (h : WorldInv w)
    (hsmall : (events.foldl (step groupID) w).allocated < 2 ^ 32 - 1) : WorldInv (events.foldl (step groupID) w) := by
  induction events generalizing w with
  | nil => exact h
  | cons e events ih =>
    rw [foldl_cons] at hsmall ⊢
    have hle := (foldl_step_allocated groupID events (step groupID w e)).1
    exact ih (step_inv h e (by omega)) hsmall

end

/-! ### Pins -/

theorem placeByTable_pin {v : GroupValue} {hash : UInt32} {now : UInt64} {arg : UInt32} {stats : List ShardStat}
    {pin : Pin} (h : (placeByTable v hash now arg stats).pin = some pin) :
    ∃ i, (placeByTable v hash now arg stats).slot = some i ∧ slotMask pin.shard = i ∧
      pin.generation = (v.shards i).generation := by
  unfold placeByTable at h ⊢
  dsimp only at h ⊢
  generalize slotMask (v.maglev ⟨hash.toNat % shardMaglevTableSize, mod_lt _ (by decide)⟩) = i at h ⊢
  split_ifs at h ⊢
  refine ⟨i, rfl, ?_⟩
  unfold newPin at h
  split_ifs at h
  cases h
  refine ⟨Fin.ext ?_, rfl⟩
  change (UInt8.ofNat i).toNat % 32 = i.val
  rw [(ofNat_slot i.isLt).1]
  exact mod_eq_of_lt i.isLt

theorem pinHit_notMem_placeByTable (v : GroupValue) (hash : UInt32) (now : UInt64) (arg : UInt32)
    {stats : List ShardStat} (h : ShardStat.pinHit ∉ stats) :
    ShardStat.pinHit ∉ (placeByTable v hash now arg stats).stats := by
  unfold placeByTable
  dsimp only
  split_ifs <;> simpa using h

section Packets
variable {κ : Type} {snapshots : Nat → Option GroupValue} {groupID : Nat} {v : GroupValue} {p : Packet κ}

section
variable (hv : snapshots groupID = some v)

include hv

theorem resolveEgressGroup_placed {stat : ShardStat}
    (hstat : stat ≠ .groupEmpty ∧ stat ≠ .parseFailed) (h : stat ∈ (resolveEgressGroup snapshots groupID p).stats) :
    ∃ key, p.loadKey v.hashFlow = some key ∧ resolveEgressGroup snapshots groupID p =
      placeKey v (pinOf v p.pins key) (p.hash key) p.now p.functionArgument := by
  unfold resolveEgressGroup at h ⊢
  rw [hv] at h ⊢
  dsimp only at h ⊢
  split_ifs at h ⊢
  · exact absurd (mem_singleton.mp h) hstat.1
  · exact absurd (mem_singleton.mp h) hstat.1
  cases hkey : p.loadKey v.hashFlow with
  | none =>
    rw [hkey] at h
    exact absurd (mem_singleton.mp h) hstat.2
  | some key => exact ⟨key, rfl, rfl⟩

theorem resolveEgressGroup_made (htable : ShardStat.maglev ∈ (resolveEgressGroup snapshots groupID p).stats) {pin : Pin}
    (hpin : (resolveEgressGroup snapshots groupID p).pin = some pin) :
    ∃ i, (resolveEgressGroup snapshots groupID p).slot = some i ∧ slotMask pin.shard = i ∧
      pin.generation = (v.shards i).generation := by
  obtain ⟨key, -, heq⟩ := resolveEgressGroup_placed hv (by decide) htable
  rw [heq] at htable hpin ⊢
  unfold placeKey at htable hpin ⊢
  cases hold : pinOf v p.pins key with
  | none =>
    rw [hold] at hpin
    exact placeByTable_pin hpin
  | some old =>
    rw [hold] at htable hpin
    dsimp only at htable hpin ⊢
    split_ifs at htable hpin ⊢
    · exact absurd (mem_singleton.mp htable) (by decide)
    · exact placeByTable_pin hpin

theorem resolveEgressGroup_honoured (hhit : ShardStat.pinHit ∈ (resolveEgressGroup snapshots groupID p).stats) :
    ∃ key pin, p.loadKey v.hashFlow = some key ∧ p.pins key = some pin ∧
      (resolveEgressGroup snapshots groupID p).slot = some (slotMask pin.shard) ∧
      (v.shards (slotMask pin.shard)).generation = pin.generation ∧ pin.generation ≠ 0 := by
  obtain ⟨key, hkey, heq⟩ := resolveEgressGroup_placed hv (by decide) hhit
  rw [heq] at hhit ⊢
  unfold placeKey at hhit ⊢
  cases hpin : pinOf v p.pins key with
  | none =>
    rw [hpin] at hhit
    exact absurd hhit (pinHit_notMem_placeByTable _ _ _ _ (by simp))
  | some pin =>
    rw [hpin] at hhit
    dsimp only at hhit ⊢
    have hmap : p.pins key = some pin := by
      unfold pinOf at hpin
      split_ifs at hpin
      exact hpin
    split_ifs at hhit ⊢ with hlive
    · simp only [pinLive, Bool.and_eq_true, decide_eq_true_eq] at hlive
      exact ⟨key, pin, hkey, hmap, rfl, hlive.1.2, hlive.1.2 ▸ hlive.1.1.2⟩
    · exact absurd hhit (pinHit_notMem_placeByTable _ _ _ _ (by simp))

end

end Packets

/-! ### Safety -/

/-- **Pin safety.** In every run of calls on a group that takes fewer than `2 ^ 32 - 1` generations, two published
snapshots with one nonzero generation in a slot have one shard in it and one class. So when the table places a
packet on one snapshot and pins the slot, a packet that honours that pin on another snapshot, however often the
pin was refreshed, goes to the shard the pin was made for, under the class it was made for. -/
theorem run_pinSafe (groupID : Nat) (events : List Event) (hsmall : (run groupID events).allocated < 2 ^ 32 - 1) :
    (∀ s ∈ (run groupID events).published, ∀ t ∈ (run groupID events).published, ∀ i,
      (s.shards i).generation = (t.shards i).generation → (s.shards i).generation ≠ 0 →
      (s.shards i).sid = (t.shards i).sid ∧ decodeClass s = decodeClass t) ∧
    ∀ s ∈ (run groupID events).published, ∀ t ∈ (run groupID events).published,
      ∀ (κ : Type) (before after : Nat → Option GroupValue) (p q : Packet κ) (made pin : Pin) (key : κ),
      before groupID = some s → ShardStat.maglev ∈ (resolveEgressGroup before groupID p).stats →
      (resolveEgressGroup before groupID p).pin = some made →
      after groupID = some t → q.loadKey t.hashFlow = some key → q.pins key = some pin →
      pin.shard = made.shard → pin.generation = made.generation →
      ShardStat.pinHit ∈ (resolveEgressGroup after groupID q).stats →
      ∃ i, (resolveEgressGroup before groupID p).slot = some i ∧ (resolveEgressGroup after groupID q).slot = some i ∧
        (s.shards i).sid = (t.shards i).sid ∧ decodeClass s = decodeClass t := by
  have hfaithful := (foldl_step_inv events initial_inv hsmall).tenure.faithful
  have hsafe : ∀ s ∈ (run groupID events).published, ∀ t ∈ (run groupID events).published, ∀ i,
      (s.shards i).generation = (t.shards i).generation → (s.shards i).generation ≠ 0 →
      (s.shards i).sid = (t.shards i).sid ∧ decodeClass s = decodeClass t := by
    intro s hs t ht i heq hne
    have howner := hfaithful (view s) (mem_map_of_mem hs) (view t) (mem_map_of_mem ht) i
      (congrArg UInt32.toNat heq) (view_generation_ne.mpr hne)
    exact Prod.mk.inj howner
  refine ⟨hsafe, fun s hs t ht κ before after p q made pin key hbefore htable hmade hafter hkey hpin hshard hgen hhit =>
    ?_⟩
  obtain ⟨i, hslot, hmask, hmadeGen⟩ := resolveEgressGroup_made hbefore htable hmade
  obtain ⟨key', pin', hkey', hpin', hslot', hlive, hne⟩ := resolveEgressGroup_honoured hafter hhit
  obtain rfl := Option.mem_unique hkey hkey'
  obtain rfl := Option.mem_unique hpin hpin'
  rw [hshard, hmask] at hslot' hlive
  have heq : (s.shards i).generation = (t.shards i).generation := by rw [← hmadeGen, ← hgen, hlive]
  exact ⟨i, hslot, hslot', hsafe s hs t ht i heq (by rw [← hmadeGen, ← hgen]; exact hne)⟩

/-- A group that is published, closed by a restarted process, disabled, and reused for another class. -/
theorem run_pinSafe_reused :
    let shard : ShardCandidate := { sid := [0xfd, 0, 0, 0, 0, 1, 0, 10, 0xe0, 0, 0, 0, 0, 0, 0, 0] }
    let env : Env := { resolve := fun _ => { err := some "no route" } }
    let nat64 : GroupPolicy := { transl := nat64Class (.ofAddr (.v6 (List.Vector.replicate 16 0) "") 96) }
    let w := run 0 [.apply env { transl := nat66Class } [shard], .restart, .close none env, .disable none none,
      .apply env nat64 [shard]]
    w.published.length = 4 ∧ ∀ s ∈ w.published, ∀ t ∈ w.published, ∀ i,
      (s.shards i).generation = (t.shards i).generation → (s.shards i).generation ≠ 0 →
      (s.shards i).sid = (t.shards i).sid ∧ decodeClass s = decodeClass t := by
  intro shard env nat64 w
  have hsmall : w.allocated < 2 ^ 32 - 1 := by
    have hle := (foldl_step_allocated 0 [.apply env { transl := nat66Class } [shard], .restart, .close none env,
      .disable none none, .apply env nat64 [shard]] {}).2
    exact Nat.lt_of_le_of_lt hle (by decide)
  exact ⟨by decide +kernel, (run_pinSafe 0 _ hsmall).1⟩

end Galactic.ShardGroup
