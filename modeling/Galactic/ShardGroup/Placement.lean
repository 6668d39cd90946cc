import Galactic.ShardGroup.WellFormed

/-!
# Nodes agree on the placement

Slots and generations are a node's own, but the Maglev table is filled from the texts of the active SIDs alone. -/

namespace Galactic.ShardGroup
open List

open Uformat (Usid)

def placement (v : GroupValue) (k : Fin shardMaglevTableSize) : Option Usid :=
  if h : (v.maglev k).toNat < maxShardsPerGroup then some (v.shards ⟨(v.maglev k).toNat, h⟩).sid else none

/-- The active base SIDs an `Apply` found. -/
def GroupResult.activeSids (r : GroupResult) : List Usid := (r.shards.filter (·.active)).map (·.sid)

section
variable {env : Env} {policy : GroupPolicy} {wanted : List Candidate} {v : GroupValue} {k : Fin shardMaglevTableSize}

theorem apply_ok {groupID : Nat} {candidates : List ShardCandidate} {g : Group}
    (h : (apply env groupID policy candidates g).err = none) :
    ∃ wanted v, canonicalCandidates candidates = .ok wanted ∧ wanted.length ≤ maxShardsPerGroup ∧
      (apply env groupID policy candidates g).group.store = some v ∧
      SnapshotOf env policy (g.store.getD {}) g.highWater wanted v ∧
      (apply env groupID policy candidates g).result.shards =
        (build env policy (g.store.getD {}) g.highWater wanted).states := by
  have hspec := apply_spec env groupID policy candidates g
  generalize apply env groupID policy candidates g = out at h hspec ⊢
  cases hspec with
  | refused e => cases h
  | unpublished wanted result err hwanted hlen hsame =>
    obtain ⟨hsnap, hstates⟩ := hsame h
    have hof := snapshot_spec hsnap
    -- an enabled snapshot is not the zero value that stands for an absent one
    cases hstore : g.store with
    | none =>
      rw [hstore] at hof
      exact absurd hof.enabled (by decide)
    | some v =>
      rw [hstore] at hof hstates
      exact ⟨wanted, v, hwanted, hlen, rfl, hof, hstates⟩
  | published wanted value result hwanted hlen hvalue hresult =>
    exact ⟨wanted, _, hwanted, hlen, rfl, (snapshot_spec hvalue).withGeneration _, hresult⟩

theorem BuildInv.activeSids {nat64 hold : Bool} {assignment : List (Usid × Nat)}
    {b : Build} (h : BuildInv env nat64 hold assignment wanted b) :
    (b.states.filter (·.active)).map (·.sid) = b.backends.map (·.sid) := by
  have hstates : (b.states.filter (·.active)).map (·.sid) =
      ((b.states.map fun s => (s.sid, s.active)).filter (·.2)).map (·.1) := by
    rw [filter_map, map_map]
    rfl
  rw [hstates, h.states, h.backends, filter_map, map_map, map_map]
  rfl

theorem SnapshotOf.placement_eq {current : GroupValue} {highWater : UInt32}
    (h : SnapshotOf env policy current highWater wanted v) (hlen : wanted.length ≤ maxShardsPerGroup)
    (hnodup : (wanted.map (·.sid)).Nodup) {b : ShardBackend}
    (hb : b ∈ (build env policy current highWater wanted).backends) (hk : v.maglev k = UInt8.ofNat b.slot) :
    placement v k = some b.sid := by
  have hbuild := build_inv env policy current highWater hlen hnodup
  obtain ⟨hslots, -⟩ := assignSlots_spec (previousShards current policy) hlen
  rw [hbuild.backends] at hb
  obtain ⟨c, hc, rfl⟩ := mem_map.mp hb
  have hmem := mem_of_mem_filter hc
  have hslot : (v.maglev k).toNat = slotOf (assignSlots (previousShards current policy) wanted) c := by
    rw [hk]
    exact (ofNat_slot (hslots c hmem)).1
  have hlt : (v.maglev k).toNat < maxShardsPerGroup := hslot ▸ hslots c hmem
  obtain ⟨gen, -, hmember⟩ := hbuild.member c hmem ⟨_, hlt⟩ hslot
  rw [placement, dif_pos hlt, h.shards, hmember]
  rfl

theorem placement_none (h : v.maglev k = shardSlotNone) : placement v k = none := by
  unfold placement
  rw [dif_neg]
  rw [h]
  decide

end

theorem keys_mem_iff {a b : List ShardBackend} (h : ∀ sid, sid ∈ a.map (·.sid) ↔ sid ∈ b.map (·.sid)) (k : String) :
    k ∈ a.map ShardBackend.key ↔ k ∈ b.map ShardBackend.key := by
  have hkey (l : List ShardBackend) : l.map ShardBackend.key = (l.map (·.sid)).map (·.addr.string) := by
    rw [map_map]
    rfl
  rw [hkey, hkey, mem_map, mem_map]
  simp only [h]

/-- **Placement.** Two nodes whose `Apply` of a group found the same active base SIDs, from any published state
and with any candidates, have tables that send every Maglev index to the same shard; it is one of those SIDs
whenever there is one. -/
theorem apply_placement_agrees (envA envB : Env) (groupA groupB : Nat) (policyA policyB : GroupPolicy)
    (candidatesA candidatesB : List ShardCandidate) (gA gB : Group)
    (hA : (apply envA groupA policyA candidatesA gA).err = none)
    (hB : (apply envB groupB policyB candidatesB gB).err = none)
    (hactive : ∀ sid, sid ∈ (apply envA groupA policyA candidatesA gA).result.activeSids ↔
      sid ∈ (apply envB groupB policyB candidatesB gB).result.activeSids) :
    ∃ vA vB, (apply envA groupA policyA candidatesA gA).group.store = some vA ∧
      (apply envB groupB policyB candidatesB gB).group.store = some vB ∧ ∀ k, placement vA k = placement vB k ∧
        ((apply envA groupA policyA candidatesA gA).result.activeSids ≠ [] →
          ∃ sid ∈ (apply envA groupA policyA candidatesA gA).result.activeSids, placement vA k = some sid) := by
  obtain ⟨wantedA, vA, hwantedA, hlenA, hstoreA, hofA, hstatesA⟩ := apply_ok hA
  obtain ⟨wantedB, vB, hwantedB, hlenB, hstoreB, hofB, hstatesB⟩ := apply_ok hB
  have hnodupA := (canonicalCandidates_spec hwantedA).1
  have hnodupB := (canonicalCandidates_spec hwantedB).1
  rw [GroupResult.activeSids, hstatesA,
    (build_inv envA policyA (gA.store.getD {}) gA.highWater hlenA hnodupA).activeSids] at hactive ⊢
  rw [GroupResult.activeSids, hstatesB,
    (build_inv envB policyB (gB.store.getD {}) gB.highWater hlenB hnodupB).activeSids] at hactive
  refine ⟨vA, vB, hstoreA, hstoreB, fun k => ?_⟩
  rcases fillMaglev_spec hofA.maglev with ⟨hnilA, hnoneA⟩ | ⟨hneA, tA, htA, hallA⟩
  · rw [hnilA] at hactive
    rcases fillMaglev_spec hofB.maglev with ⟨hnilB, hnoneB⟩ | ⟨hneB, -, -, -⟩
    · refine ⟨by rw [placement_none (hnoneA k), placement_none (hnoneB k)], fun hne => ?_⟩
      rw [hnilA] at hne
      exact absurd rfl hne
    · obtain ⟨b, hb⟩ := exists_mem_of_ne_nil _ hneB
      exact absurd ((hactive b.sid).mpr (mem_map_of_mem hb)) (by simp)
  obtain ⟨b, hb, hlookupA, hkA⟩ := hallA k
  have hplaceA := hofA.placement_eq hlenA hnodupA hb hkA
  refine ⟨?_, fun _ => ⟨b.sid, mem_map_of_mem hb, hplaceA⟩⟩
  rcases fillMaglev_spec hofB.maglev with ⟨hnilB, -⟩ | ⟨-, tB, htB, hallB⟩
  · rw [hnilB] at hactive
    exact absurd ((hactive b.sid).mp (mem_map_of_mem hb)) (by simp)
  obtain ⟨b', hb', hlookupB, hkB⟩ := hallB k
  rw [hplaceA, hofB.placement_eq hlenB hnodupB hb' hkB]
  have hkeys := Maglev.lookup_key_eq htA htB (keys_mem_iff hactive) k
  rw [hlookupA, hlookupB] at hkeys
  exact congrArg some (key_injective (Option.some.inj hkeys))

theorem apply_activeSids {env : Env} {groupID : Nat} {policy : GroupPolicy} {candidates : List ShardCandidate}
    {wanted : List Candidate} {g : Group} (hwanted : canonicalCandidates candidates = .ok wanted)
    (h : (apply env groupID policy candidates g).err = none) :
    (apply env groupID policy candidates g).result.activeSids =
      (wanted.filter (isActive env (holds env policy wanted))).map (·.sid) := by
  obtain ⟨wanted', v, hwanted', hlen, -, -, hstates⟩ := apply_ok h
  obtain rfl := Except.ok.inj (hwanted.symm.trans hwanted')
  have hbuild := build_inv env policy (g.store.getD {}) g.highWater hlen (canonicalCandidates_spec hwanted).1
  rw [GroupResult.activeSids, hstates, hbuild.activeSids, hbuild.backends, map_map]
  rfl

/-- A node that starts afresh and one whose slots were filled in another order, with one shard more that only
the second node lists and cannot reach. -/
theorem apply_placement_fresh_and_old :
    let s1 : Usid := ⟨[0xfd, 0, 0, 0, 0, 1, 0, 1, 0xe0, 0, 0, 0, 0, 0, 0, 0], rfl⟩
    let s2 : Usid := ⟨[0xfd, 0, 0, 0, 0, 1, 0, 2, 0xe0, 0, 0, 0, 0, 0, 0, 0], rfl⟩
    let s3 : Usid := ⟨[0xfd, 0, 0, 0, 0, 1, 0, 3, 0xe0, 0, 0, 0, 0, 0, 0, 0], rfl⟩
    let env : Env := { resolve := fun u => if u = s3 then { err := some "no route" } else {} }
    let old : Group := { store := some { classKind := 1, nextSlotGeneration := 9, shards := fun i =>
      if i = 0 then { sid := s2, generation := 5 } else {} } }
    ∃ vA vB,
      (apply env 0 { transl := nat66Class } [{ sid := s1.toList }, { sid := s2.toList }] {}).group.store = some vA ∧
      (apply env 0 { transl := nat66Class } [{ sid := s3.toList }, { sid := s2.toList }, { sid := s1.toList }]
        old).group.store = some vB ∧
      ∀ k, placement vA k = placement vB k := by
  intro s1 s2 s3 env old
  have hwantedA : canonicalCandidates [{ sid := s1.toList }, { sid := s2.toList }] =
      .ok [⟨s1, false, false, false⟩, ⟨s2, false, false, false⟩] := by decide +kernel
  have hwantedB : canonicalCandidates [{ sid := s3.toList }, { sid := s2.toList }, { sid := s1.toList }] =
      .ok [⟨s1, false, false, false⟩, ⟨s2, false, false, false⟩, ⟨s3, false, false, false⟩] := by decide +kernel
  have hA := apply_succeeds { transl := nat66Class } {} (by decide : 0 < maxShardGroups)
    (rfl : env.loadErr = none) rfl hwantedA (by decide)
  have hB := apply_succeeds { transl := nat66Class } old (by decide : 0 < maxShardGroups)
    (rfl : env.loadErr = none) rfl hwantedB (by decide)
  obtain ⟨vA, vB, hstoreA, hstoreB, hall⟩ := apply_placement_agrees env env 0 0 _ _ _ _ _ _ hA hB (by
    rw [apply_activeSids hwantedA hA, apply_activeSids hwantedB hB]
    exact fun sid => Iff.rfl)
  exact ⟨vA, vB, hstoreA, hstoreB, fun k => (hall k).1⟩

end Galactic.ShardGroup
