import Galactic.ShardGroup.Building
import Galactic.ShardGroup.Resolve

/-!
# Published snapshots are well formed

Every snapshot that `Apply` publishes gives each shard one slot and a generation, and its Maglev table only names
members that take tenants. -/

namespace Galactic.ShardGroup
open List

open Uformat (Usid)

/-- What the datapath relies on. -/
structure WellFormed (v : GroupValue) : Prop where
  sid_inj : ∀ i j, (v.shards i).occupied = true → (v.shards j).occupied = true →
    (v.shards i).sid = (v.shards j).sid → i = j
  generation_ne_zero : ∀ i, (v.shards i).occupied = true → (v.shards i).generation ≠ 0
  maglev_none_iff : ∀ k, v.maglev k = shardSlotNone ↔ ∀ i, (v.shards i).active = false
  maglev_serves : ∀ k, v.maglev k ≠ shardSlotNone → ∃ i : Fin maxShardsPerGroup, (v.maglev k).toNat = i.val ∧
    (v.shards i).alive = true ∧ (v.shards i).draining = false ∧ (v.shards i).isLocal = false ∧
    (v.shards i).held = false
  standby_alone : v.classKind = classKindNAT64 → ∀ i j, (v.shards i).alive = true → (v.shards i).standby = true →
    (v.shards j).alive = true → (v.shards j).standby = true

/-! ### Members -/

theorem memberOf_flags (nat64 hold : Bool) (c : Candidate) (res : Resolution) (gen : UInt32) :
    (memberOf nat64 hold c res gen).alive = isAlive hold c res ∧ (memberOf nat64 hold c res gen).draining = c.draining ∧
      (memberOf nat64 hold c res gen).isLocal = c.isLocal ∧
      (memberOf nat64 hold c res gen).standby = (c.standby && nat64) ∧
      (memberOf nat64 hold c res gen).held = isHeld hold c res :=
  has_memberFlags _ _ _ _ _ _ rfl

theorem memberOf_active (nat64 : Bool) (env : Env) (hold : Bool) (c : Candidate) (gen : UInt32) :
    (memberOf nat64 hold c (resolveShard env c) gen).active = isActive env hold c := by
  obtain ⟨halive, hdraining, -⟩ := memberOf_flags nat64 hold c (resolveShard env c) gen
  rw [Member.active, halive, hdraining, isActive]

theorem standby_of_isAlive {c : Candidate} {res : Resolution} (h : isAlive true c res) : c.standby = false := by
  unfold isAlive isHeld at h
  by_contra hstandby
  rw [Bool.not_eq_false] at hstandby
  rw [hstandby] at h
  generalize c.isLocal = isLocal at h
  generalize res.err.isNone = resolved at h
  revert isLocal resolved
  decide

section Build
variable {env : Env} {nat64 hold : Bool} {assignment : List (Usid × Nat)} {wanted : List Candidate} {b : Build}

section
variable (h : BuildInv env nat64 hold assignment wanted b) {i : Fin maxShardsPerGroup}

include h

theorem BuildInv.slot_cases (i : Fin maxShardsPerGroup) : b.shards i = {} ∨ ∃ c ∈ wanted, i.val = slotOf assignment c ∧
      ∃ gen ≠ 0, b.shards i = memberOf nat64 hold c (resolveShard env c) gen := by
  by_cases hslot : ∃ c ∈ wanted, i.val = slotOf assignment c
  · obtain ⟨c, hc, hi⟩ := hslot
    exact Or.inr ⟨c, hc, hi, h.member c hc i hi⟩
  · exact Or.inl (h.empty i fun c hc hi => hslot ⟨c, hc, hi⟩)

theorem BuildInv.of_occupied (hocc : (b.shards i).occupied) : ∃ c ∈ wanted, i.val = slotOf assignment c ∧
      ∃ gen ≠ 0, b.shards i = memberOf nat64 hold c (resolveShard env c) gen := by
  rcases h.slot_cases i with hempty | hmember
  · rw [hempty] at hocc
    exact absurd hocc (by decide)
  · exact hmember

theorem BuildInv.of_alive (halive : (b.shards i).alive) : ∃ c ∈ wanted, i.val = slotOf assignment c ∧
      ∃ gen ≠ 0, b.shards i = memberOf nat64 hold c (resolveShard env c) gen := by
  rcases h.slot_cases i with hempty | hmember
  · rw [hempty] at halive
    exact absurd halive (by decide)
  · exact hmember

theorem BuildInv.sid_inj (i j : Fin maxShardsPerGroup)
    (hi : (b.shards i).occupied) (hj : (b.shards j).occupied) (hsid : (b.shards i).sid = (b.shards j).sid) : i = j := by
  obtain ⟨c, -, hic, gen, -, hc⟩ := h.of_occupied hi
  obtain ⟨d, -, hjd, gen', -, hd⟩ := h.of_occupied hj
  rw [hc, hd] at hsid
  have hslot : slotOf assignment c = slotOf assignment d := congrArg (fun s => (assignment.lookup s).getD 0) hsid
  exact Fin.ext (hic.trans (hslot.trans hjd.symm))

theorem BuildInv.exists_active_iff (hslots : ∀ c ∈ wanted, slotOf assignment c < maxShardsPerGroup) :
    (∃ i, (b.shards i).active) ↔ b.backends ≠ [] := by
  rw [h.backends, Ne, map_eq_nil_iff, filter_eq_nil_iff, not_forall]
  constructor
  · intro ⟨i, hi⟩
    have halive : (b.shards i).alive := by
      rw [Member.active, Bool.and_eq_true] at hi
      exact hi.1
    obtain ⟨c, hc, -, gen, -, hmember⟩ := h.of_alive halive
    rw [hmember, memberOf_active] at hi
    exact ⟨c, fun hno => hno hc hi⟩
  · intro ⟨c, hc⟩
    obtain ⟨hmem, hactive⟩ : c ∈ wanted ∧ isActive env hold c := by simpa using hc
    obtain ⟨gen, -, hmember⟩ := h.member c hmem ⟨_, hslots c hmem⟩ rfl
    exact ⟨_, by rw [hmember, memberOf_active]; exact hactive⟩

end

theorem BuildInv.standby_alone (h : BuildInv env true (anyPrimaryAlive env wanted) assignment wanted b)
    (i j : Fin maxShardsPerGroup) (hi : (b.shards i).alive) (hstandby : (b.shards i).standby)
    (hj : (b.shards j).alive) : (b.shards j).standby := by
  obtain ⟨c, -, -, gen, -, hc⟩ := h.of_alive hi
  obtain ⟨d, hd, -, gen', -, hmember⟩ := h.of_alive hj
  obtain ⟨halive, -, -, hstandby', -⟩ := memberOf_flags true (anyPrimaryAlive env wanted) c (resolveShard env c) gen
  obtain ⟨halived, -, -, hstandbyd, -⟩ := memberOf_flags true (anyPrimaryAlive env wanted) d (resolveShard env d) gen'
  rw [hc, halive] at hi
  rw [hc, hstandby', Bool.and_true] at hstandby
  rw [hmember, halived] at hj
  rw [hmember, hstandbyd, Bool.and_true]
  by_contra hprimary
  rw [Bool.not_eq_true] at hprimary
  have hprimaryd : anyPrimaryAlive env wanted := by
    rw [anyPrimaryAlive, any_eq_true]
    refine ⟨d, hd, ?_⟩
    simp only [isAlive, Bool.and_eq_true] at hj
    simp [hprimary, hj.1.1, hj.1.2]
  rw [hprimaryd] at hi
  rw [standby_of_isAlive hi] at hstandby
  cases hstandby

end Build

/-! ### Snapshots -/

structure SnapshotOf (env : Env) (policy : GroupPolicy) (current : GroupValue) (highWater : UInt32)
    (wanted : List Candidate) (v : GroupValue) : Prop where
  enabled : v.enabled = true
  classKind : v.classKind = policy.transl.kind
  classPrefix : v.classPrefix = policy.transl.prefixBytes
  next : v.nextSlotGeneration = (build env policy current highWater wanted).next
  shards : v.shards = (build env policy current highWater wanted).shards
  maglev : fillMaglev (build env policy current highWater wanted).backends = .ok v.maglev

theorem groupFlags_enabled (policy : GroupPolicy) : decide (groupFlags policy &&& groupFlagEnabled ≠ 0) := by
  unfold groupFlags
  cases policy.hash <;> cases policy.closing <;> decide

section
variable {env : Env} {policy : GroupPolicy} {current : GroupValue} {highWater : UInt32} {wanted : List Candidate}
  {v : GroupValue} {groupID : Nat} {candidates : List ShardCandidate}

theorem snapshot_spec (h : snapshot env policy current highWater wanted = .ok v) :
    SnapshotOf env policy current highWater wanted v := by
  unfold snapshot fillGroupValue at h
  dsimp only at h
  cases hmaglev : fillMaglev (build env policy current highWater wanted).backends <;> rw [hmaglev] at h <;> cases h
  exact ⟨groupFlags_enabled policy, rfl, rfl, rfl, rfl, hmaglev⟩

theorem SnapshotOf.withGeneration (h : SnapshotOf env policy current highWater wanted v) (generation : UInt32) :
    SnapshotOf env policy current highWater wanted { v with generation } :=
  ⟨h.enabled, h.classKind, h.classPrefix, h.next, h.shards, h.maglev⟩

theorem ofNat_slot {slot : Nat} (h : slot < maxShardsPerGroup) :
    (UInt8.ofNat slot).toNat = slot ∧ UInt8.ofNat slot ≠ shardSlotNone := by
  have hall : ∀ i : Fin maxShardsPerGroup, (UInt8.ofNat i).toNat = i.val ∧ UInt8.ofNat i ≠ shardSlotNone := by decide
  exact hall ⟨slot, h⟩

theorem SnapshotOf.wellFormed (h : SnapshotOf env policy current highWater wanted v)
    (hlen : wanted.length ≤ maxShardsPerGroup) (hnodup : (wanted.map (·.sid)).Nodup) : WellFormed v := by
  have hbuild := build_inv env policy current highWater hlen hnodup
  obtain ⟨hslots, -⟩ := assignSlots_spec (previousShards current policy) hlen
  have hactive := hbuild.exists_active_iff hslots
  have hmaglev := fillMaglev_spec h.maglev
  have hshards := h.shards
  refine ⟨?_, ?_, ?_, ?_, ?_⟩
  · rw [hshards]
    exact hbuild.sid_inj
  · intro i hi
    rw [hshards] at hi ⊢
    obtain ⟨c, -, -, gen, hgen, hmember⟩ := hbuild.of_occupied hi
    rw [hmember]
    exact hgen
  · intro k
    have hnone : (∀ i, (v.shards i).active = false) ↔ (build env policy current highWater wanted).backends = [] := by
      rw [hshards, ← not_iff_not, ← Ne, ← hactive]
      simp
    rw [hnone]
    rcases hmaglev with ⟨hnil, hall⟩ | ⟨hne, t, -, hall⟩
    · exact iff_of_true (hall k) hnil
    obtain ⟨b, hb, -, heq⟩ := hall k
    rw [hbuild.backends] at hb
    obtain ⟨c, hc, rfl⟩ := mem_map.mp hb
    exact iff_of_false (heq ▸ (ofNat_slot (hslots c (mem_of_mem_filter hc))).2) hne
  · intro k hk
    rcases hmaglev with ⟨-, hall⟩ | ⟨-, t, -, hall⟩
    · exact absurd (hall k) hk
    obtain ⟨b, hb, -, heq⟩ := hall k
    rw [hbuild.backends] at hb
    obtain ⟨c, hc, rfl⟩ := mem_map.mp hb
    obtain ⟨hmem, hact⟩ := mem_filter.mp hc
    obtain ⟨gen, -, hmember⟩ := hbuild.member c hmem ⟨_, hslots c hmem⟩ rfl
    obtain ⟨halive, hdraining, hlocal, -, hheld⟩ :=
      memberOf_flags policy.transl.nat64 (holds env policy wanted) c (resolveShard env c) gen
    simp only [isActive, isAlive, Bool.and_eq_true, Bool.not_eq_true'] at hact
    refine ⟨⟨_, hslots c hmem⟩, ?_, ?_⟩
    · rw [heq]
      exact (ofNat_slot (hslots c hmem)).1
    · rw [hshards, hmember, halive, hdraining, hlocal, hheld]
      exact ⟨by simp [isAlive, hact], hact.2, hact.1.1.1, hact.1.2⟩
  · intro hkind
    have hnat64 : policy.transl.nat64 := by
      rw [h.classKind, TranslationClass.kind] at hkind
      by_contra hno
      rw [if_neg hno] at hkind
      exact absurd hkind (by decide)
    rw [hshards]
    rw [holds, hnat64, Bool.true_and] at hbuild
    exact hbuild.standby_alone

theorem snapshot_isOk (env : Env) (policy : GroupPolicy) (current : GroupValue) (highWater : UInt32)
    (hlen : wanted.length ≤ maxShardsPerGroup) (hnodup : (wanted.map (·.sid)).Nodup) :
    ∃ v, snapshot env policy current highWater wanted = .ok v := by
  have hbuild := build_inv env policy current highWater hlen hnodup
  have hsids : ((build env policy current highWater wanted).backends.map (·.sid)).Nodup := by
    rw [hbuild.backends, map_map]
    exact hnodup.sublist (filter_sublist.map _)
  have hcount : (build env policy current highWater wanted).backends.length ≤ shardMaglevTableSize := by
    rw [hbuild.backends, length_map]
    exact (length_filter_le _ wanted).trans (hlen.trans (by decide))
  obtain ⟨maglev, hmaglev⟩ := fillMaglev_isOk hcount hsids
  unfold snapshot fillGroupValue
  dsimp only
  rw [hmaglev]
  exact ⟨_, rfl⟩

theorem apply_succeeds (policy : GroupPolicy) (g : Group) (hid : groupID < maxShardGroups) (hload : env.loadErr = none)
    (hpublish : env.publishErr = none) (hwanted : canonicalCandidates candidates = .ok wanted)
    (hlen : wanted.length ≤ maxShardsPerGroup) : (apply env groupID policy candidates g).err = none := by
  obtain ⟨v, hv⟩ := snapshot_isOk env policy (g.store.getD {}) g.highWater hlen (canonicalCandidates_spec hwanted).1
  have hloaded : load env.loadErr groupID g = .ok (g.store.getD {}, g.store.isSome) := by
    unfold load
    rw [if_neg (Nat.not_le.mpr hid), hload]
  unfold apply
  rw [hwanted]
  dsimp only
  rw [if_neg (Nat.not_lt.mpr hlen), hloaded]
  unfold applyTo
  unfold snapshot at hv
  dsimp only at hv ⊢
  cases hfill : fillGroupValue policy wanted.length (build env policy (g.store.getD {}) g.highWater wanted) with
  | error e =>
    rw [hfill] at hv
    cases hv
  | ok value =>
    dsimp only
    rw [hpublish]
    split_ifs <;> rfl

theorem apply_publishes {g : Group} (hg : g.store = none) (h : (apply env groupID policy candidates g).err = none) :
    ∃ v, (apply env groupID policy candidates g).published = some v := by
  have hspec := apply_spec env groupID policy candidates g
  generalize apply env groupID policy candidates g = out at h hspec ⊢
  cases hspec with
  | refused e => cases h
  | unpublished wanted result err hwanted hlen hsame =>
    have henabled := (snapshot_spec (hsame h).1).enabled
    rw [hg] at henabled
    exact absurd henabled (by decide)
  | published wanted value result hwanted hlen hvalue hresult => exact ⟨_, rfl⟩

end

/-! ### The datapath -/

section
variable {v : GroupValue} (h : WellFormed v)

include h

theorem placeByTable_not_dead (hash : UInt32) (now : UInt64) (arg : UInt32) {stats : List ShardStat}
    (hstats : ShardStat.shardDead ∉ stats) : ShardStat.shardDead ∉ (placeByTable v hash now arg stats).stats := by
  unfold placeByTable
  dsimp only
  split_ifs with hnone hdead
  · simpa using hstats
  · -- the table names a member that is alive
    obtain ⟨i, hi, halive, -⟩ := h.maglev_serves _ hnone
    have hmask : slotMask (v.maglev ⟨hash.toNat % shardMaglevTableSize, Nat.mod_lt _ (by decide)⟩) = i := by
      apply Fin.ext
      change (v.maglev _).toNat % 32 = i.val
      rw [hi]
      exact Nat.mod_eq_of_lt i.isLt
    rw [hmask, halive] at hdead
    cases hdead
  · simpa using hstats

theorem placeKey_not_dead (pin : Option Pin) (hash : UInt32) (now : UInt64) (arg : UInt32) :
    ShardStat.shardDead ∉ (placeKey v pin hash now arg).stats := by
  unfold placeKey
  cases pin with
  | none => exact placeByTable_not_dead h hash now arg (by simp)
  | some pin =>
    dsimp only
    split_ifs
    · simp
    · exact placeByTable_not_dead h hash now arg (by simp)

theorem resolveEgressGroup_not_dead {κ : Type} {snapshots : Nat → Option GroupValue}
    {groupID : Nat} (hv : snapshots groupID = some v) (p : Packet κ) :
    ShardStat.shardDead ∉ (resolveEgressGroup snapshots groupID p).stats := by
  unfold resolveEgressGroup
  rw [hv]
  dsimp only
  split_ifs
  · simp
  · simp
  · cases p.loadKey v.hashFlow with
    | none => simp
    | some key => exact placeKey_not_dead h _ _ _ _

end

/-! ### Publications -/

/-- **Published snapshots.** Whatever was published before, the candidates and what they resolve to, a snapshot
that `Apply` publishes is well formed and its members are base SIDs of candidates, and no packet placed by it
meets a dead shard. -/
theorem apply_published_wellFormed (env : Env) (groupID : Nat) (policy : GroupPolicy)
    (candidates : List ShardCandidate) (g : Group) (v : GroupValue)
    (h : (apply env groupID policy candidates g).published = some v) :
    WellFormed v ∧ (∀ i, (v.shards i).occupied = true → ∃ c ∈ candidates, baseShardSID c.sid = .ok (v.shards i).sid) ∧
      ∀ (κ : Type) (snapshots : Nat → Option GroupValue) (id : Nat) (p : Packet κ), snapshots id = some v →
        ShardStat.shardDead ∉ (resolveEgressGroup snapshots id p).stats := by
  have hspec := apply_spec env groupID policy candidates g
  generalize apply env groupID policy candidates g = out at h hspec
  cases hspec with
  | refused e => cases h
  | unpublished => cases h
  | published wanted value result hwanted hlen hvalue hresult =>
    cases h
    obtain ⟨hnodup, hbase⟩ := canonicalCandidates_spec hwanted
    have hsnap := (snapshot_spec hvalue).withGeneration ((g.store.getD {}).generation + 1)
    have hwf := hsnap.wellFormed hlen hnodup
    refine ⟨hwf, fun i hi => ?_, fun κ snapshots id p hv => resolveEgressGroup_not_dead hwf hv p⟩
    rw [hsnap.shards] at hi ⊢
    obtain ⟨c, hc, -, gen, -, hmember⟩ := (build_inv env policy _ _ hlen hnodup).of_occupied hi
    rw [hmember]
    exact hbase c.sid (mem_map_of_mem hc)

/-- A NAT64 group with a primary that drains and a standby, both reachable. -/
theorem apply_published_standby :
    let primary : ShardCandidate :=
      { sid := [0xfd, 0, 0, 0, 0, 1, 0, 10, 0xe1, 0x23, 0, 0, 0, 0, 0, 0], draining := true }
    let standby : ShardCandidate := { sid := [0xfd, 0, 0, 0, 0, 1, 0, 2, 0xe0, 0, 0, 7, 0, 0, 0, 0], standby := true }
    let policy : GroupPolicy := { transl := nat64Class (.ofAddr (.v6 (List.Vector.replicate 16 0) "") 96) }
    ∃ v, (apply { resolve := fun _ => {} } 1 policy [primary, standby] {}).published = some v ∧ WellFormed v := by
  intro primary standby policy
  let wanted : List Candidate :=
    [⟨⟨[0xfd, 0, 0, 0, 0, 1, 0, 2, 0xe0, 0, 0, 0, 0, 0, 0, 0], rfl⟩, false, false, true⟩,
      ⟨⟨[0xfd, 0, 0, 0, 0, 1, 0, 10, 0xe0, 0, 0, 0, 0, 0, 0, 0], rfl⟩, true, false, false⟩]
  have hwanted : canonicalCandidates [primary, standby] = .ok wanted := by decide +kernel
  have hok : (apply { resolve := fun _ => {} } 1 policy [primary, standby] {}).err = none :=
    apply_succeeds policy {} (by decide) rfl rfl hwanted (by decide)
  obtain ⟨v, hv⟩ := apply_publishes rfl hok
  exact ⟨v, hv, (apply_published_wellFormed _ _ _ _ _ v hv).1⟩

end Galactic.ShardGroup
