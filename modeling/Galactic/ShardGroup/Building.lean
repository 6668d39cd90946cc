import Galactic.Lib.FallibleLoop
import Galactic.Maglev.Fill
import Galactic.ShardGroup.Apply

/-!
# What a build contains

One lemma for each pass of `Apply`: the wanted shards are distinct, each has a slot of its own, the loop puts each into
its slot and nothing elsewhere, and the Maglev table names the slots of the backends. -/

namespace Galactic.ShardGroup
open List

open Net (Addr Prefix)
open Uformat (Usid)

/-! ### Candidates -/

theorem mergeCandidate_sids (bySID : List Candidate) (c : Candidate) :
    (mergeCandidate bySID c).map (·.sid) =
      if c.sid ∈ bySID.map (·.sid) then bySID.map (·.sid) else bySID.map (·.sid) ++ [c.sid] := by
  induction bySID with
  | nil => rfl
  | cons d rest ih =>
    unfold mergeCandidate
    by_cases hsid : d.sid = c.sid
    · simp [hsid]
    rw [if_neg hsid, map_cons, ih, map_cons]
    have hiff : c.sid ∈ d.sid :: rest.map (·.sid) ↔ c.sid ∈ rest.map (·.sid) := by
      simp [Ne.symm hsid]
    by_cases hmem : c.sid ∈ rest.map (·.sid)
    · rw [if_pos hmem, if_pos (hiff.mpr hmem)]
    · rw [if_neg hmem, if_neg (fun h => hmem (hiff.mp h)), cons_append]

theorem mergeCandidate_nodup {bySID : List Candidate} (h : (bySID.map (·.sid)).Nodup) (c : Candidate) :
    ((mergeCandidate bySID c).map (·.sid)).Nodup := by
  rw [mergeCandidate_sids]
  split_ifs with hmem
  · exact h
  exact nodup_append.mpr ⟨h, nodup_singleton _, fun a ha b hb => by
    rw [mem_singleton] at hb
    rintro rfl
    exact hmem (hb ▸ ha)⟩

def Gathered (candidates : List ShardCandidate) (bySID : List Candidate) : Prop :=
  (bySID.map (·.sid)).Nodup ∧ ∀ sid ∈ bySID.map (·.sid), ∃ c ∈ candidates, baseShardSID c.sid = .ok sid

theorem gatherStep_gathered {all : List ShardCandidate} {bySID out : List Candidate} (h : Gathered all bySID)
    {c : ShardCandidate} (hc : c ∈ all) (hout : gatherStep bySID c = .ok out) : Gathered all out := by
  unfold gatherStep at hout
  split at hout
  · cases hout
  rename_i base hbase
  cases hout
  refine ⟨mergeCandidate_nodup h.1 _, fun sid hsid => ?_⟩
  rw [mergeCandidate_sids] at hsid
  split_ifs at hsid
  · exact h.2 sid hsid
  rcases mem_append.mp hsid with hsid | hsid
  · exact h.2 sid hsid
  · rw [mem_singleton] at hsid
    exact ⟨c, hc, hsid ▸ hbase⟩

variable {candidates : List ShardCandidate} {wanted : List Candidate}

theorem canonicalCandidates_spec (h : canonicalCandidates candidates = .ok wanted) : Gathered candidates wanted := by
  unfold canonicalCandidates at h
  split at h
  · cases h
  rename_i bySID hfold
  cases h
  have hperm := (perm_insertionSort (fun a b : Candidate => sidNumber a.sid ≤ sidNumber b.sid) bySID).map (·.sid)
  obtain ⟨hnodup, hbase⟩ := FallibleLoop.foldlM_invariant (P := fun _ => Gathered candidates) hfold
    ⟨by simp, by simp⟩ fun _ c _ _ hc h hstep => gatherStep_gathered h hc hstep
  exact ⟨hperm.nodup_iff.mpr hnodup, fun sid hsid => hbase sid (hperm.mem_iff.mp hsid)⟩

/-! ### Slots -/

def slotOf (assignment : List (Usid × Nat)) (c : Candidate) : Nat := (assignment.lookup c.sid).getD 0

theorem assignSlots_spec (slots : Shards) (hlen : wanted.length ≤ maxShardsPerGroup) :
    (∀ c ∈ wanted, slotOf (assignSlots slots wanted) c < maxShardsPerGroup) ∧
      ∀ c ∈ wanted, ∀ d ∈ wanted, slotOf (assignSlots slots wanted) c = slotOf (assignSlots slots wanted) d →
        c.sid = d.sid := by
  have hnodup : ((occupants slots).map Prod.snd).Nodup := by
    unfold occupants
    rw [map_map]
    exact ((nodup_finRange _).filter _).map fun i j hij => Fin.ext hij
  have hlt : ∀ p ∈ occupants slots, p.2 < maxShardsPerGroup := by
    intro p hp
    obtain ⟨i, -, rfl⟩ := mem_map.mp hp
    exact i.isLt
  have hcount : (wanted.map (·.sid)).length ≤ maxShardsPerGroup := by rw [length_map]; exact hlen
  obtain ⟨hheld, hall⟩ := SlotAssign.assign_spec hnodup hlt hcount
  have hlookup :
      ∀ c ∈ wanted, (assignSlots slots wanted).lookup c.sid = some (slotOf (assignSlots slots wanted) c) := by
    intro c hc
    obtain ⟨i, hi⟩ := hall c.sid (mem_map_of_mem hc)
    rw [slotOf, assignSlots, hi]
    rfl
  refine ⟨fun c hc => hheld.slot_lt _ (SlotAssign.mem_of_lookup (hlookup c hc)), fun c hc d hd heq => ?_⟩
  exact hheld.lookup_inj (hlookup c hc) (heq ▸ hlookup d hd)

theorem shardAt_fin (slots : Shards) (i : Fin maxShardsPerGroup) : shardAt slots i = slots i := dif_pos i.isLt

section
variable {slots : Shards} {slot : Nat} {m : Member} (i : Fin maxShardsPerGroup)

include i

theorem setShard_self (h : i.val = slot) : setShard slots slot m i = m := if_pos h

theorem setShard_ne (h : i.val ≠ slot) : setShard slots slot m i = slots i := if_neg h

end

/-! ### Generations -/

theorem take_ne_zero (next : UInt32) : (take next).1 ≠ 0 := by
  unfold take
  dsimp only
  split_ifs with hzero
  · decide
  · exact hzero

theorem slotGeneration_ne_zero (before : Member) (sid : Usid) (next : UInt32) :
    (slotGeneration before sid next).1 ≠ 0 := by
  unfold slotGeneration
  split_ifs with hkeeps
  · simp only [keeps, Bool.and_eq_true, decide_eq_true_eq] at hkeeps
    exact hkeeps.2
  · exact take_ne_zero next

/-! ### The loop -/

def isActive (env : Env) (hold : Bool) (c : Candidate) : Bool :=
  isAlive hold c (resolveShard env c) && !c.draining

section Loop
variable (env : Env) (nat64 hold : Bool) (previous : Shards) (assignment : List (Usid × Nat))

/-- What the loop has built when the candidates in `done` have had their turn. -/
structure BuildInv (done : List Candidate) (b : Build) : Prop where
  member : ∀ c ∈ done, ∀ i : Fin maxShardsPerGroup, i.val = slotOf assignment c →
    ∃ gen ≠ 0, b.shards i = memberOf nat64 hold c (resolveShard env c) gen
  empty : ∀ i : Fin maxShardsPerGroup, (∀ c ∈ done, i.val ≠ slotOf assignment c) → b.shards i = {}
  backends : b.backends = (done.filter (isActive env hold)).map fun c => ⟨c.sid, slotOf assignment c⟩
  states : b.states.map (fun s => (s.sid, s.active)) = done.map fun c => (c.sid, isActive env hold c)

variable {env nat64 hold previous assignment}

theorem emptyBuild_inv (next : UInt32) : BuildInv env nat64 hold assignment [] { next } :=
  ⟨fun _ hc => absurd hc (by simp), fun _ _ => rfl, rfl, rfl⟩

theorem buildStep_backends (b : Build) (c : Candidate) :
    (buildStep env nat64 hold previous assignment b c).backends =
      if isActive env hold c then b.backends ++ [⟨c.sid, slotOf assignment c⟩] else b.backends := rfl

variable {done : List Candidate} {b : Build}

theorem buildStep_inv (h : BuildInv env nat64 hold assignment done b)
    {c : Candidate} (hfresh : ∀ d ∈ done, slotOf assignment d ≠ slotOf assignment c) :
    BuildInv env nat64 hold assignment (done ++ [c]) (buildStep env nat64 hold previous assignment b c) := by
  refine ⟨fun d hd i hi => ?_, fun i hi => ?_, ?_, ?_⟩
  · rcases mem_append.mp hd with hd | hd
    · obtain ⟨gen, hgen, hmember⟩ := h.member d hd i hi
      exact ⟨gen, hgen, (setShard_ne i fun heq => hfresh d hd (hi.symm.trans heq)).trans hmember⟩
    · obtain rfl := mem_singleton.mp hd
      exact ⟨_, slotGeneration_ne_zero _ _ _, setShard_self i hi⟩
  · have hempty := h.empty i fun d hd => hi d (by simp [hd])
    exact (setShard_ne i (hi c (by simp))).trans hempty
  · rw [buildStep_backends, h.backends, filter_append, map_append]
    by_cases hactive : isActive env hold c
    · rw [if_pos hactive, filter_cons_of_pos hactive]
      rfl
    · rw [if_neg hactive, filter_cons_of_neg hactive]
      simp
  · unfold buildStep
    dsimp only
    rw [map_append, h.states, map_append]
    rfl

theorem foldl_buildStep_inv (rest : List Candidate) (h : BuildInv env nat64 hold assignment done b)
    (hnodup : ((done ++ rest).map (slotOf assignment)).Nodup) : BuildInv env nat64 hold assignment (done ++
      rest) (rest.foldl (buildStep env nat64 hold previous assignment) b) := by
  induction rest generalizing done b with
  | nil => simpa using h
  | cons c rest ih =>
    have hsplit : done ++ c :: rest = done ++ [c] ++ rest := by simp
    rw [hsplit] at hnodup ⊢
    refine ih (buildStep_inv h fun d hd heq => ?_) hnodup
    rw [map_append, map_append] at hnodup
    have hdisjoint := (nodup_append.mp (List.Nodup.of_append_left hnodup)).2.2
    exact hdisjoint _ (mem_map_of_mem hd) _ (by simp) heq

end Loop

def holds (env : Env) (policy : GroupPolicy) (wanted : List Candidate) : Bool :=
  policy.transl.nat64 && anyPrimaryAlive env wanted

theorem slotOf_nodup (slots : Shards) (hlen : wanted.length ≤ maxShardsPerGroup) (hnodup : (wanted.map (·.sid)).Nodup) :
    (wanted.map (slotOf (assignSlots slots wanted))).Nodup := by
  obtain ⟨-, hinj⟩ := assignSlots_spec slots hlen
  have hpairs : wanted.Nodup := List.Nodup.of_map _ hnodup
  refine (nodup_map_iff_inj_on hpairs).mpr fun c hc d hd heq => ?_
  exact inj_on_of_nodup_map hnodup hc hd (hinj c hc d hd heq)

theorem build_inv (env : Env) (policy : GroupPolicy) (current : GroupValue) (highWater : UInt32)
  (hlen : wanted.length ≤ maxShardsPerGroup) (hnodup : (wanted.map (·.sid)).Nodup) :
    BuildInv env policy.transl.nat64 (holds env policy wanted)
      (assignSlots (previousShards current policy) wanted) wanted (build env policy current highWater wanted) := by
  have hslots := slotOf_nodup (previousShards current policy) hlen hnodup
  exact foldl_buildStep_inv wanted (emptyBuild_inv _) hslots

/-! ### The Maglev table -/

variable {backends : List ShardBackend}

theorem fillMaglev_spec {maglev : Fin shardMaglevTableSize → UInt8} (h : fillMaglev backends = .ok maglev) :
    (backends = [] ∧ ∀ k, maglev k = shardSlotNone) ∨
      (backends ≠ [] ∧ ∃ t, Maglev.new ShardBackend.key backends shardMaglevTableSize = .ok t ∧
        ∀ k : Fin shardMaglevTableSize, ∃ b ∈ backends, t.lookup k = some b ∧ maglev k = UInt8.ofNat b.slot) := by
  unfold fillMaglev at h
  split_ifs at h with hnil
  · cases h
    exact Or.inl ⟨length_eq_zero_iff.mp hnil, fun _ => rfl⟩
  split at h
  · cases h
  rename_i t ht
  cases h
  refine Or.inr ⟨fun heq => hnil (by simp [heq]), t, ht, fun k => ?_⟩
  obtain ⟨b, hb, hlookup⟩ := Maglev.lookup_mem ht (by decide) k
  refine ⟨b, hb, hlookup, ?_⟩
  dsimp only
  rw [hlookup]

theorem key_injective {a b : ShardBackend} (h : a.key = b.key) : a.sid = b.sid := by
  have haddr := Addr.string_inj (a := a.sid.addr) (b := b.sid.addr) (by simp [Usid.addr]) rfl rfl h
  simpa [Uformat.Usid.addr] using haddr

theorem fillMaglev_isOk (hlen : backends.length ≤ shardMaglevTableSize) (hnodup : (backends.map (·.sid)).Nodup) :
    ∃ maglev, fillMaglev backends = .ok maglev := by
  unfold fillMaglev
  split_ifs with hnil
  · exact ⟨_, rfl⟩
  have hkeys : (backends.map ShardBackend.key).Nodup := by
    refine (nodup_map_iff_inj_on (List.Nodup.of_map _ hnodup)).mpr fun a ha b hb heq => ?_
    exact inj_on_of_nodup_map hnodup ha hb (key_injective heq)
  have hne : backends ≠ [] := fun heq => hnil (by simp [heq])
  obtain ⟨t, ht⟩ := Maglev.new_isOk hne hlen (by decide +kernel) hkeys
  rw [ht]
  exact ⟨_, rfl⟩

/-! ### Calls -/

/-- The snapshot `Apply` compares with the published one. -/
def snapshot (env : Env) (policy : GroupPolicy) (current : GroupValue) (highWater : UInt32)
    (wanted : List Candidate) : Except String GroupValue :=
  let b := build env policy current highWater wanted
  match fillGroupValue policy wanted.length b with
  | .error e => .error e
  | .ok value => .ok { value with nextSlotGeneration := b.next, generation := current.generation }

def allocations (b : Build) : Nat := b.states.countP (·.assigned)

/-- **What `Apply` does.** It is refused and changes nothing, or it moves the high-water mark and publishes
nothing, or it publishes the snapshot as the next publication of the group. -/
inductive ApplySpec (env : Env) (policy : GroupPolicy) (candidates : List ShardCandidate) (g : Group) :
    Outcome GroupResult → Prop
  | refused (e : String) : ApplySpec env policy candidates g { result := {}, err := some e, group := g }
  | unpublished (wanted : List Candidate) (result : GroupResult) (err : Option String)
      (hwanted : canonicalCandidates candidates = .ok wanted) (hlen : wanted.length ≤ maxShardsPerGroup)
      (hsame : err = none → snapshot env policy (g.store.getD {}) g.highWater wanted = .ok (g.store.getD {}) ∧
        result.shards = (build env policy (g.store.getD {}) g.highWater wanted).states) :
      ApplySpec env policy candidates g
        { result, err, group := { g with highWater := (build env policy (g.store.getD {}) g.highWater wanted).next }
          allocated := allocations (build env policy (g.store.getD {}) g.highWater wanted) }
  | published (wanted : List Candidate) (value : GroupValue) (result : GroupResult)
      (hwanted : canonicalCandidates candidates = .ok wanted) (hlen : wanted.length ≤ maxShardsPerGroup)
      (hvalue : snapshot env policy (g.store.getD {}) g.highWater wanted = .ok value)
      (hresult : result.shards = (build env policy (g.store.getD {}) g.highWater wanted).states) :
      ApplySpec env policy candidates g
        { result, err := none
          group :=
            { store := some { value with generation := (g.store.getD {}).generation + 1 }
              highWater := (build env policy (g.store.getD {}) g.highWater wanted).next }
          published := some { value with generation := (g.store.getD {}).generation + 1 }
          allocated := allocations (build env policy (g.store.getD {}) g.highWater wanted) }

variable {groupID : Nat} {g : Group}

theorem applyTo_spec {env : Env} {policy : GroupPolicy} (hwanted : canonicalCandidates candidates = .ok wanted)
    (hlen : wanted.length ≤ maxShardsPerGroup) :
    ApplySpec env policy candidates g (applyTo env groupID policy wanted (g.store.getD {}) g) := by
  unfold applyTo
  dsimp only
  cases hfill : fillGroupValue policy wanted.length (build env policy (g.store.getD {}) g.highWater wanted) with
  | error e => exact .unpublished wanted _ _ hwanted hlen (by simp)
  | ok value =>
    have hsnap : snapshot env policy (g.store.getD {}) g.highWater wanted =
        .ok { value with
          nextSlotGeneration := (build env policy (g.store.getD {}) g.highWater wanted).next
          generation := (g.store.getD {}).generation } := by
      rw [snapshot, hfill]
    dsimp only
    split_ifs with hsame
    · exact .unpublished wanted _ _ hwanted hlen fun _ => ⟨hsnap.trans (congrArg Except.ok hsame), rfl⟩
    · cases env.publishErr with
      | some e => exact .unpublished wanted _ _ hwanted hlen (by simp)
      | none => exact .published wanted _ _ hwanted hlen hsnap rfl

theorem load_eq {loadErr : Option String} {out : GroupValue × Bool} (h : load loadErr groupID g = .ok out) :
    out = (g.store.getD {}, g.store.isSome) := by
  unfold load at h
  split_ifs at h
  cases loadErr with
  | some e => cases h
  | none => exact (Except.ok.inj h).symm

theorem apply_spec (env : Env) (groupID : Nat) (policy : GroupPolicy) (candidates : List ShardCandidate) (g : Group) :
    ApplySpec env policy candidates g (apply env groupID policy candidates g) := by
  unfold apply
  cases hwanted : canonicalCandidates candidates with
  | error e => exact .refused e
  | ok wanted =>
    dsimp only
    split_ifs with hlen
    · exact .refused _
    cases hload : load env.loadErr groupID g with
    | error e => exact .refused e
    | ok out =>
      obtain rfl := load_eq hload
      exact applyTo_spec hwanted (Nat.le_of_not_lt hlen)

end Galactic.ShardGroup
