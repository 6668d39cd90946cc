import Galactic.Cniipam.Markers

/-!
# What DEL leaves of an ADD

An ADD that succeeds makes sure that its container has a marker in each pool of the document, and a DEL removes the
first one in each pool that it reaches. So an ADD is undone if the DEL reaches the pools of the ADD, and the container
has one name in each and none elsewhere. The DEL parses the document again, with the flag as it is then: a document that
restricts the address families and names no pool is refused once the flag is off. -/

namespace Galactic.Cniipam
open List Function Option Except

open Net (IP IPNet)
open Ipam (CniError Markers PoolAllocator IPv4PoolAllocator newPoolAllocator newIPv4PoolAllocator)

/-! ### Calls on the pools -/

/-- What a call for a container does to all directories: those of `pools` change by `R`. -/
structure Changes (c : String) (pools : List String) (R : Markers → Markers → Prop) (dirs dirs' : Dirs) : Prop where
  distinct : ∀ dir, Distinct (dirs' dir)
  others : ∀ d, d ≠ c → ∀ dir, namesOf d (dirs' dir) = namesOf d (dirs dir)
  elsewhere : ∀ dir, dir ∉ pools → dirs' dir = dirs dir
  inPools : ∀ dir ∈ pools, R (dirs dir) (dirs' dir)

variable {c dir : String} {dirs : Dirs}

section Changes
variable {ps qs : List String} {R S : Markers → Markers → Prop} {dirs₁ dirs₂ : Dirs}

theorem Changes.refl (hdirs : ∀ dir, Distinct (dirs dir)) (hR : ∀ dir ∈ ps, R (dirs dir) (dirs dir)) :
    Changes c ps R dirs dirs := ⟨hdirs, fun _ _ _ => rfl, fun _ _ => rfl, hR⟩

theorem Changes.mono (h : Changes c ps R dirs dirs₁) (himp : ∀ ms ms', R ms ms' → S ms ms') :
    Changes c ps S dirs dirs₁ :=
  ⟨h.distinct, h.others, h.elsewhere, fun dir hdir => himp _ _ (h.inPools dir hdir)⟩

theorem Changes.trans (h : Changes c ps R dirs dirs₁) (h' : Changes c qs R dirs₁ dirs₂)
    (apart : ∀ dir ∈ ps, dir ∉ qs) : Changes c (ps ++ qs) R dirs dirs₂ := by
  refine ⟨h'.distinct, fun d hd dir => (h'.others d hd dir).trans (h.others d hd dir), fun dir hdir => ?_,
    fun dir hdir => ?_⟩
  · rw [mem_append, not_or] at hdir
    rw [h'.elsewhere dir hdir.2, h.elsewhere dir hdir.1]
  rcases mem_append.mp hdir with hp | hq
  · rw [h'.elsewhere dir (apart dir hp)]
    exact h.inPools dir hp
  · have hin := h'.inPools dir hq
    rwa [h.elsewhere dir fun hp => apart dir hp hq] at hin

theorem changes_inDir {α : Type} {call : Markers → α × Markers} (hdirs : ∀ dir, Distinct (dirs dir))
    (hdistinct : Distinct (call (dirs dir)).2)
    (hothers : ∀ d, d ≠ c → namesOf d (call (dirs dir)).2 = namesOf d (dirs dir))
    (hR : R (dirs dir) (call (dirs dir)).2) : Changes c [dir] R dirs (inDir dir call dirs).2 where
  distinct := (forall_update_iff _ fun _ ms => Distinct ms).mpr ⟨hdistinct, fun dir' _ => hdirs dir'⟩
  others d hd := (forall_update_iff _ fun dir' ms => namesOf d ms = namesOf d (dirs dir')).mpr
    ⟨hothers d hd, fun _ _ => rfl⟩
  elsewhere dir' hne := update_of_ne (by simpa using hne) ..
  inPools dir' hdir' := by
    obtain rfl := mem_singleton.mp hdir'
    simpa [inDir] using hR

end Changes

variable {a : DualStackAllocator}

theorem DualStackAllocator.Valid.dirs_apart (ha : a.Valid) :
    ∀ dir ∈ (a.ipv6.map (·.stateDir)).toList, dir ∉ (a.ipv4.map (·.stateDir)).toList := by
  intro dir hp hq
  rw [mem_toList] at hp hq
  obtain ⟨p, hp6, rfl⟩ := map_eq_some_iff.mp hp
  obtain ⟨q, hq4, hpq⟩ := map_eq_some_iff.mp hq
  exact ha.apart p hp6 q hq4 hpq.symm

/-! ### ADD -/

abbrev Adds {α : Type} (c : String) (pools : List String) (dirs : Dirs) (r : Except String α × Dirs) : Prop :=
  Changes c pools (fun ms ms' => r.1.isOk → Grown (namesOf c ms) (namesOf c ms')) dirs r.2

theorem adds_inDir {α : Type} {call : Markers → Except String α × Markers} (hdirs : ∀ dir, Distinct (dirs dir))
    (h : Allocates c (dirs dir) (call (dirs dir))) :
    Adds c [dir] dirs ((inDir dir call dirs).1.map some, (inDir dir call dirs).2) := by
  refine changes_inDir hdirs (h.distinct (hdirs dir)) (fun _ hd => h.others hd) fun hok => h.grown ?_
  rcases hcall : (call (dirs dir)).1 with e | x
  · rw [inDir, hcall] at hok
    exact hok
  · rfl

theorem allocate6_adds (hdirs : ∀ dir, Distinct (dirs dir)) {o : Option PoolAllocator}
    (ho : ∀ p ∈ o, ∃ len, Ipam.Pool96 p len) : Adds c (o.map (·.stateDir)).toList dirs (allocate6 c dirs o) := by
  rcases o with _ | p
  · exact .refl hdirs fun _ h => nomatch h
  · obtain ⟨len, hp⟩ := ho p rfl
    exact adds_inDir hdirs (allocates6 hp c _)

theorem allocate4_adds (hdirs : ∀ dir, Distinct (dirs dir)) {o : Option IPv4PoolAllocator}
    (ho : ∀ p ∈ o, ∃ host, p.Pool4 host) : Adds c (o.map (·.stateDir)).toList dirs (allocate4 c dirs o) := by
  rcases o with _ | p
  · exact .refl hdirs fun _ h => nomatch h
  · obtain ⟨host, hp⟩ := ho p rfl
    exact adds_inDir hdirs (allocates4 hp c _)

theorem allocate_adds (ha : a.Valid) (hdirs : ∀ dir, Distinct (dirs dir)) :
    Adds c a.dirs dirs (a.allocate c dirs) := by
  have h6 := allocate6_adds (c := c) hdirs ha.ipv6
  unfold DualStackAllocator.allocate
  rcases hrun : allocate6 c dirs a.ipv6 with ⟨e | x, dirs₁⟩ <;> rw [hrun] at h6
  · exact ⟨h6.distinct, h6.others, fun dir hdir => h6.elsewhere dir fun hp => hdir (mem_append_left _ hp),
      fun _ _ h => nomatch h⟩
  have h4 := allocate4_adds (c := c) h6.distinct ha.ipv4
  dsimp only
  rcases hrun' : allocate4 c dirs₁ a.ipv4 with ⟨e | y, dirs₂⟩ <;> rw [hrun'] at h4
  · exact (h6.mono fun _ _ _ h => nomatch h).trans (h4.mono fun _ _ _ h => nomatch h) ha.dirs_apart
  · exact h6.trans h4 ha.dirs_apart

def poolsOf (conf : IPAM) : DualStackAllocator :=
  if conf.addresses ≠ [] ∨ conf.staticIP ≠ [] then ⟨none, none⟩
  else (newDualStackAllocator conf.ipv6Subnet conf.ipv4Subnet lockDir).toOption.getD ⟨none, none⟩

theorem poolsOf_pool {conf : IPAM} (haddresses : conf.addresses = []) (hstatic : conf.staticIP = [])
    (hnew : newDualStackAllocator conf.ipv6Subnet conf.ipv4Subnet lockDir = .ok a) : poolsOf conf = a := by
  unfold poolsOf
  rw [if_neg (by simp [haddresses, hstatic]), hnew]
  rfl

theorem allocate_conf_adds (conf : IPAM) (hdirs : ∀ dir, Distinct (dirs dir)) :
    Adds c (poolsOf conf).dirs dirs (allocate c conf dirs) := by
  unfold allocate
  split_ifs with haddresses hstatic
  · exact .refl hdirs (by simp [poolsOf, haddresses, DualStackAllocator.dirs])
  · exact .refl hdirs (by simp [poolsOf, hstatic, DualStackAllocator.dirs])
  rw [not_not] at haddresses hstatic
  unfold allocatePool
  split_ifs with hempty
  · exact .refl hdirs fun _ _ h => nomatch h
  split
  · exact .refl hdirs fun _ _ h => nomatch h
  next a hnew =>
  have hadds := allocate_adds (c := c) (eq_poolsAt hnew ▸ poolsAt_valid ..) hdirs
  rw [poolsOf_pool haddresses hstatic hnew]
  split
  · next e dirs₁ hrun =>
    rw [hrun] at hadds
    exact hadds.mono fun _ _ _ h => nomatch h
  · next x y dirs₁ hrun =>
    rw [hrun] at hadds
    exact hadds

def addPools (enableLocalIPAM : Bool) (document : Except String PluginConf) : DualStackAllocator :=
  match parseConf enableLocalIPAM document with
  | .error _ => ⟨none, none⟩
  | .ok conf => poolsOf conf

theorem cmdAdd_adds (env : Env) (document : Except String PluginConf) (c : String)
    (hdirs : ∀ dir, Distinct (dirs dir)) :
    Adds c (addPools env.enableLocalIPAM document).dirs dirs (cmdAdd env document c dirs) := by
  unfold cmdAdd addPools
  rcases parseConf env.enableLocalIPAM document with e | conf
  · exact .refl hdirs fun _ h => nomatch h
  have hadds := allocate_conf_adds (c := c) conf hdirs
  dsimp only
  rcases hrun : allocate c conf dirs with ⟨e | x, dirs₁⟩ <;> rw [hrun] at hadds
  · exact hadds.mono fun _ _ _ h => nomatch h
  · dsimp only
    split <;> exact hadds.mono fun _ _ h _ => h rfl

/-! ### DEL -/

abbrev Drops (c : String) (pools : List String) (dirs dirs' : Dirs) : Prop :=
  Changes c pools (fun ms ms' => namesOf c ms' = dropFirst (namesOf c ms)) dirs dirs'

theorem drops_inDir {α : Type} {call : Markers → α × Markers} (hdirs : ∀ dir, Distinct (dirs dir))
    (h : Releases c (dirs dir) (call (dirs dir)).2) : Drops c [dir] dirs (inDir dir call dirs).2 :=
  changes_inDir hdirs h.distinct h.others h.own

theorem deallocate6_drops (hdirs : ∀ dir, Distinct (dirs dir)) (subnet : List Char) :
    Drops c ((poolAt (newPoolAllocator · [] Ipam.defaultSubnetLen lockDir) subnet).map (·.stateDir)).toList dirs
      (deallocate6 c subnet dirs) := by
  have hdefault : newPoolAllocator subnet [] 0 lockDir = newPoolAllocator subnet [] Ipam.defaultSubnetLen lockDir := rfl
  unfold deallocate6 poolAt newIfSet
  split_ifs
  · exact .refl hdirs fun _ h => nomatch h
  rw [hdefault]
  dsimp only
  rcases newPoolAllocator subnet [] Ipam.defaultSubnetLen lockDir with e | a
  · exact .refl hdirs fun _ h => nomatch h
  · exact drops_inDir hdirs (releases6 (hdirs _))

theorem deallocate4_drops (hdirs : ∀ dir, Distinct (dirs dir)) (subnet : List Char) :
    Drops c ((poolAt (newIPv4PoolAllocator · [] lockDir) subnet).map (·.stateDir)).toList dirs
      (deallocate4 c subnet dirs) := by
  unfold deallocate4 poolAt newIfSet
  split_ifs
  · exact .refl hdirs fun _ h => nomatch h
  dsimp only
  rcases newIPv4PoolAllocator subnet [] lockDir with e | a
  · exact .refl hdirs fun _ h => nomatch h
  · exact drops_inDir hdirs (releases4 (hdirs _))

def delPools (enableLocalIPAM : Bool) (document : Except String PluginConf) : DualStackAllocator :=
  match parseConf enableLocalIPAM document with
  | .error _ => ⟨none, none⟩
  | .ok conf =>
    if conf.addresses ≠ [] ∨ conf.staticIP ≠ [] then ⟨none, none⟩
    else poolsAt lockDir (effectiveIPv6Subnet conf) conf.ipv4Subnet

theorem cmdDel_drops (env : Env) (document : Except String PluginConf) (c : String)
    (hdirs : ∀ dir, Distinct (dirs dir)) :
    Drops c (delPools env.enableLocalIPAM document).dirs dirs (cmdDel env document c dirs) := by
  unfold cmdDel delPools deallocate
  rcases parseConf env.enableLocalIPAM document with e | conf
  · exact .refl hdirs fun _ h => nomatch h
  dsimp only
  by_cases hgiven : conf.addresses ≠ [] ∨ conf.staticIP ≠ []
  · rw [if_pos hgiven]
    split_ifs with ha hs
    · exact .refl hdirs fun _ h => nomatch h
    · exact .refl hdirs fun _ h => nomatch h
    · exact absurd hgiven (not_or.mpr ⟨ha, hs⟩)
  · obtain ⟨ha, hs⟩ := not_or.mp hgiven
    rw [if_neg hgiven, if_neg ha, if_neg hs]
    have h6 := deallocate6_drops (c := c) hdirs (effectiveIPv6Subnet conf)
    exact h6.trans (deallocate4_drops h6.distinct _) (poolsAt_valid ..).dirs_apart

/-! ### The document parsed twice -/

/-- The flag off, a document is refused that restricts the families and names no address and no pool. -/
def Refused (enableLocalIPAM : Bool) (document : Except String PluginConf) : Prop :=
  enableLocalIPAM = false ∧ ∃ block, document = .ok ⟨some block⟩ ∧ block.underspecified ∧ block.addressFamilies ≠ []

section Parse
variable {flag flag' : Bool} {document : Except String PluginConf} {conf : IPAM}

theorem parseConf_eq_ok (h : parseConf flag document = .ok conf) : ∃ block, document = .ok ⟨some block⟩ ∧
    validate block = .ok () ∧ restrictFamilies (fillDefault flag block) = .ok conf := by
  unfold parseConf at h
  split at h
  · cases h
  next doc =>
  split at h
  · cases h
  next block hblock =>
  obtain ⟨_, hvalid, h⟩ := FallibleLoop.bind_eq_ok.mp h
  rcases doc with ⟨ipam⟩
  obtain rfl : ipam = some block := hblock
  exact ⟨block, rfl, hvalid, h⟩

section
variable {block : IPAM}

theorem parseConf_of_valid (hvalid : validate block = .ok ()) :
    parseConf flag (.ok ⟨some block⟩) = restrictFamilies (fillDefault flag block) := by
  unfold parseConf
  dsimp only
  rw [hvalid]
  rfl

theorem fillDefault_of_not (h : ¬block.underspecified) : fillDefault flag block = block :=
  if_neg fun hboth => h hboth.1

theorem fillDefault_false (block : IPAM) : fillDefault false block = block := if_neg (by simp)

theorem restrictFamilies_mode (h : restrictFamilies block = .ok conf) :
    conf.addresses = block.addresses ∧ conf.staticIP = block.staticIP := by
  unfold restrictFamilies at h
  by_cases hfamilies : block.addressFamilies = []
  · rw [if_pos hfamilies] at h
    cases h
    exact ⟨rfl, rfl⟩
  rw [if_neg hfamilies] at h
  obtain ⟨want, -, h⟩ := FallibleLoop.bind_eq_ok.mp h
  split_ifs at h
  all_goals
    cases h
    exact ⟨rfl, rfl⟩

theorem restrictFamilies_refused (h : block.underspecified) (hfamilies : block.addressFamilies ≠ []) :
    ∃ e, restrictFamilies block = .error e := by
  obtain ⟨haddresses, hstatic, h6, h4⟩ := h
  unfold restrictFamilies
  rw [if_neg hfamilies]
  rcases block.addressFamilies.foldlM addFamily {} with e | want
  · exact ⟨e, rfl⟩
  · have hcleared : (clearUnwanted want block).ipv6Subnet = [] ∧ (clearUnwanted want block).ipv4Subnet = [] :=
      ⟨by simp [clearUnwanted, h6], by simp [clearUnwanted, h4]⟩
    exact ⟨_, (if_pos ⟨hstatic, haddresses⟩).trans (if_pos hcleared)⟩

end

/-- **Two parses.** A DEL that does not refuse the document of an ADD reads the mode and the pools of the ADD in it. -/
theorem parseConf_again (h : parseConf flag document = .ok conf) (haccepted : ¬Refused flag' document)
    (hpool : conf.addresses = [] → conf.staticIP = [] → ¬(conf.ipv6Subnet = [] ∧ conf.ipv4Subnet = [])) :
    ∃ conf', parseConf flag' document = .ok conf' ∧ conf'.addresses = conf.addresses ∧
      conf'.staticIP = conf.staticIP ∧ conf'.ipv4Subnet = conf.ipv4Subnet ∧
      (conf.addresses = [] → conf.staticIP = [] → effectiveIPv6Subnet conf' = conf.ipv6Subnet) := by
  obtain ⟨block, rfl, hvalid, hconf⟩ := parseConf_eq_ok h
  rw [parseConf_of_valid hvalid]
  by_cases hfill : fillDefault flag' block = fillDefault flag block
  · exact ⟨conf, hfill ▸ hconf, rfl, rfl, rfl, fun ha hs => if_pos (by have := hpool ha hs; tauto)⟩
  have hunder : block.underspecified :=
    by_contra fun h => hfill (by rw [fillDefault_of_not h, fillDefault_of_not h])
  rcases flag with _ | _
  · -- only the flag can have given the ADD a pool
    rw [fillDefault_false] at hconf
    by_cases hfamilies : block.addressFamilies = []
    · rw [restrictFamilies, if_pos hfamilies] at hconf
      cases hconf
      exact absurd hunder.2.2 (hpool hunder.1 hunder.2.1)
    · obtain ⟨e, he⟩ := restrictFamilies_refused hunder hfamilies
      rw [he] at hconf
      cases hconf
  rcases flag' with _ | _
  · -- nothing is configured, and the default pool is what a DEL falls back to
    have hfamilies : block.addressFamilies = [] := by_contra fun h => haccepted ⟨rfl, block, rfl, hunder, h⟩
    have hdefault : fillDefault true block = { block with ipv6Subnet := localIPAMDefaultPool } := if_pos ⟨hunder, rfl⟩
    rw [hdefault, restrictFamilies, if_pos hfamilies] at hconf
    cases hconf
    rw [fillDefault_false]
    exact ⟨block, if_pos hfamilies, rfl, rfl, rfl, fun _ _ => if_neg (by simp [hunder.2.2])⟩
  · exact absurd rfl hfill

end Parse

/-! ### Undoing -/

/-- The operations of other invocations. -/
inductive Op
  | add (env : Env) (document : Except String PluginConf) (containerID : String)
  | del (env : Env) (document : Except String PluginConf) (containerID : String)

def Op.containerID : Op → String
  | .add _ _ id => id
  | .del _ _ id => id

def Op.run (dirs : Dirs) : Op → Dirs
  | .add env document id => (cmdAdd env document id dirs).2
  | .del env document id => cmdDel env document id dirs

theorem Op.run_others (hdirs : ∀ dir, Distinct (dirs dir)) {op : Op} (hop : op.containerID ≠ c) :
    (∀ dir, Distinct (op.run dirs dir)) ∧ ∀ dir, namesOf c (op.run dirs dir) = namesOf c (dirs dir) := by
  rcases op with ⟨env, document, id⟩ | ⟨env, document, id⟩
  · have hadds := cmdAdd_adds env document id hdirs
    exact ⟨hadds.distinct, hadds.others c hop.symm⟩
  · have hdrops := cmdDel_drops env document id hdirs
    exact ⟨hdrops.distinct, hdrops.others c hop.symm⟩

/-- **Run.** -/
theorem Op.runs_others {ops : List Op} (hops : ∀ op ∈ ops, op.containerID ≠ c) (hdirs : ∀ dir, Distinct (dirs dir)) :
    (∀ dir, Distinct (ops.foldl Op.run dirs dir)) ∧
    ∀ dir, namesOf c (ops.foldl Op.run dirs dir) = namesOf c (dirs dir) := by
  induction ops generalizing dirs with
  | nil => exact ⟨hdirs, fun _ => rfl⟩
  | cons op ops ih =>
    obtain ⟨hdistinct, hnames⟩ := Op.run_others hdirs (hops op mem_cons_self)
    obtain ⟨hdistinct', hnames'⟩ := ih (fun op' hop' => hops op' (mem_cons_of_mem _ hop')) hdistinct
    exact ⟨hdistinct', fun dir => (hnames' dir).trans (hnames dir)⟩

variable {env : Env} {document : Except String PluginConf} {result : IPAMResult}

theorem pool_of_cmdAdd (h : (cmdAdd env document c dirs).1 = .ok result) :
    ∃ conf, parseConf env.enableLocalIPAM document = .ok conf ∧ (conf.addresses = [] → conf.staticIP = [] →
      ¬(conf.ipv6Subnet = [] ∧ conf.ipv4Subnet = []) ∧
      newDualStackAllocator conf.ipv6Subnet conf.ipv4Subnet lockDir = .ok (poolsOf conf)) := by
  unfold cmdAdd at h
  rcases hparse : parseConf env.enableLocalIPAM document with e | conf <;> rw [hparse] at h
  · cases h
  refine ⟨conf, rfl, fun haddresses hstatic => ?_⟩
  dsimp only at h
  unfold allocate allocatePool at h
  rw [if_neg (not_not.mpr haddresses), if_neg (not_not.mpr hstatic)] at h
  split_ifs at h with hempty
  refine ⟨hempty, ?_⟩
  rcases hnew : newDualStackAllocator conf.ipv6Subnet conf.ipv4Subnet lockDir with e | a
  · rw [hnew] at h
    cases h
  · rw [poolsOf_pool haddresses hstatic hnew]

/-- When a DEL undoes an ADD: its document is still accepted, and the container had no markers but at most one in each
of the pools. -/
structure Undoable (enableAtAdd enableAtDel : Bool) (document : Except String PluginConf) (c : String) (dirs : Dirs) :
    Prop where
  accepted : ¬Refused enableAtDel document
  single : ∀ dir ∈ (addPools enableAtAdd document).dirs, ∀ m ∈ dirs dir, ∀ m' ∈ dirs dir,
    m.2 = c → m'.2 = c → m.1 = m'.1
  elsewhere : ∀ dir, dir ∉ (addPools enableAtAdd document).dirs → ∀ m ∈ dirs dir, m.2 ≠ c

variable {envDel : Env}

theorem mode_of_underspecified {enabled : Bool} {block conf : IPAM} (hunder : block.underspecified)
    (hconf : restrictFamilies (fillDefault enabled block) = .ok conf) : conf.addresses = [] ∧ conf.staticIP = [] := by
  obtain ⟨ha, hs⟩ := restrictFamilies_mode hconf
  rw [ha, hs]
  unfold fillDefault
  split_ifs <;> exact ⟨hunder.1, hunder.2.1⟩

theorem delPools_eq (hadd : (cmdAdd env document c dirs).1 = .ok result)
    (haccepted : ¬Refused envDel.enableLocalIPAM document) :
    delPools envDel.enableLocalIPAM document = addPools env.enableLocalIPAM document := by
  obtain ⟨conf, hparse, hpool⟩ := pool_of_cmdAdd hadd
  obtain ⟨conf', hparse', ha, hs, h4, h6⟩ := parseConf_again hparse haccepted fun ha hs => (hpool ha hs).1
  unfold delPools addPools
  rw [hparse, hparse']
  dsimp only
  rw [ha, hs, h4]
  by_cases hgiven : conf.addresses ≠ [] ∨ conf.staticIP ≠ []
  · rw [poolsOf, if_pos hgiven, if_pos hgiven]
  · rw [if_neg hgiven]
    rw [not_or, not_not, not_not] at hgiven
    rw [h6 hgiven.1 hgiven.2, ← eq_poolsAt (hpool hgiven.1 hgiven.2).2]

theorem cmdDel_refused (dirs₁ : Dirs) (hadd : (cmdAdd env document c dirs).1 = .ok result)
    (hrefused : Refused envDel.enableLocalIPAM document) :
    cmdDel envDel document c dirs₁ = dirs₁ ∧ ∃ dir, dir ∈ (addPools env.enableLocalIPAM document).dirs := by
  obtain ⟨conf, hparse, hpool⟩ := pool_of_cmdAdd hadd
  obtain ⟨hoff, block, rfl, hunder, hfamilies⟩ := hrefused
  obtain ⟨block', heq, hvalid, hconf⟩ := parseConf_eq_ok hparse
  cases heq
  constructor
  · obtain ⟨e, he⟩ := restrictFamilies_refused hunder hfamilies
    rw [cmdDel, parseConf_of_valid hvalid, hoff, fillDefault_false, he]
  obtain ⟨ha, hs⟩ := mode_of_underspecified hunder hconf
  obtain ⟨hne, hnew⟩ := hpool ha hs
  obtain ⟨hset6, hset4⟩ := newDualStackAllocator_eq_ok hnew
  rw [addPools, hparse]
  by_cases h6 : conf.ipv6Subnet = []
  · obtain ⟨p, hp⟩ := exists_of_newIfSet hset4 fun h4 => hne ⟨h6, h4⟩
    exact ⟨p.stateDir, by simp [DualStackAllocator.dirs, hp]⟩
  · obtain ⟨p, hp⟩ := exists_of_newIfSet hset6 h6
    exact ⟨p.stateDir, by simp [DualStackAllocator.dirs, hp]⟩

theorem dropped_iff {before names : List (List Char)} (h : Grown before names) :
    dropFirst names = [] ↔ ∀ n ∈ before, ∀ n' ∈ before, n = n' := by
  rw [dropFirst_eq_nil_iff]
  rcases h with ⟨-, rfl⟩ | ⟨rfl, n, rfl⟩
  · rfl
  · simp

theorem drops_clean_iff {pools : List String} {dirs₁ after : Dirs}
    (hgrown : ∀ dir ∈ pools, Grown (namesOf c (dirs dir)) (namesOf c (dirs₁ dir)))
    (hsame : ∀ dir, dir ∉ pools → namesOf c (dirs₁ dir) = namesOf c (dirs dir)) (h : Drops c pools dirs₁ after) :
    (∀ dir, namesOf c (after dir) = []) ↔
      (∀ dir ∈ pools, ∀ n ∈ namesOf c (dirs dir), ∀ n' ∈ namesOf c (dirs dir), n = n') ∧
      ∀ dir, dir ∉ pools → namesOf c (dirs dir) = [] := by
  have hin (dir) (hdir : dir ∈ pools) : namesOf c (after dir) = [] ↔
      ∀ n ∈ namesOf c (dirs dir), ∀ n' ∈ namesOf c (dirs dir), n = n' := by
    rw [h.inPools dir hdir, dropped_iff (hgrown dir hdir)]
  have hout (dir) (hdir : dir ∉ pools) : namesOf c (after dir) = namesOf c (dirs dir) := by
    rw [h.elsewhere dir hdir, hsame dir hdir]
  constructor
  · exact fun hclean => ⟨fun dir hdir => (hin dir hdir).mp (hclean dir), fun dir hdir => hout dir hdir ▸ hclean dir⟩
  · rintro ⟨hp, he⟩ dir
    by_cases hdir : dir ∈ pools
    · exact (hin dir hdir).mpr (hp dir hdir)
    · rw [hout dir hdir, he dir hdir]

theorem names_agree_iff {ms : Markers} :
    (∀ n ∈ namesOf c ms, ∀ n' ∈ namesOf c ms, n = n') ↔ ∀ m ∈ ms, ∀ m' ∈ ms, m.2 = c → m'.2 = c → m.1 = m'.1 := by
  constructor
  · rintro h ⟨n, _⟩ hm ⟨n', _⟩ hm' rfl rfl
    exact h n (mem_namesOf.mpr hm) n' (mem_namesOf.mpr hm')
  · intro h n hn n' hn'
    exact h _ (mem_namesOf.mp hn) _ (mem_namesOf.mp hn') rfl rfl

/-- **Undoing.** After a successful ADD of a container, any operations for other containers and a DEL with the same
document, no marker of any pool names the container exactly when the ADD was undoable. -/
theorem cmdDel_undoes_iff {env envDel : Env} {document : Except String PluginConf} {c : String} {dirs : Dirs}
    {result : IPAMResult} {ops : List Op} (hdirs : ∀ dir, Distinct (dirs dir))
    (hadd : (cmdAdd env document c dirs).1 = .ok result) (hops : ∀ op ∈ ops, op.containerID ≠ c) :
    (∀ dir, ∀ m ∈ cmdDel envDel document c (ops.foldl Op.run (cmdAdd env document c dirs).2) dir, m.2 ≠ c) ↔
      Undoable env.enableLocalIPAM envDel.enableLocalIPAM document c dirs := by
  have hadds := cmdAdd_adds env document c hdirs
  obtain ⟨hdistinct, hnames⟩ := Op.runs_others hops hadds.distinct
  have hgrown : ∀ dir ∈ (addPools env.enableLocalIPAM document).dirs,
      Grown (namesOf c (dirs dir)) (namesOf c (ops.foldl Op.run (cmdAdd env document c dirs).2 dir)) := by
    intro dir hdir
    rw [hnames dir]
    exact hadds.inPools dir hdir (by rw [hadd]; rfl)
  by_cases hrefused : Refused envDel.enableLocalIPAM document
  · obtain ⟨hdel, dir, hdir⟩ := cmdDel_refused (ops.foldl Op.run (cmdAdd env document c dirs).2) hadd hrefused
    refine iff_of_false (fun hclean => ?_) fun hundo => hundo.accepted hrefused
    rw [hdel] at hclean
    have hnil := namesOf_eq_nil.mpr (hclean dir)
    rcases hgrown dir hdir with ⟨hne, heq⟩ | ⟨-, n, heq⟩
    · exact hne (heq ▸ hnil)
    · cases heq ▸ hnil
  have hdrops := cmdDel_drops envDel document c hdistinct
  rw [delPools_eq hadd hrefused] at hdrops
  have hclean := drops_clean_iff hgrown (fun dir hdir => by rw [hnames dir, hadds.elsewhere dir hdir]) hdrops
  simp only [namesOf_eq_nil, names_agree_iff] at hclean
  rw [hclean]
  exact ⟨fun ⟨hs, he⟩ => ⟨hrefused, hs, he⟩, fun hundo => ⟨hundo.single, hundo.elsewhere⟩⟩

/-! ### Two documents -/

/-- `{"ipam": {"address_families": ["ipv6"]}}`: the pool is left to the default. -/
def familyOnly : Except String PluginConf := .ok ⟨some { addressFamilies := [addressFamilyIPv6] }⟩

/-- `{"ipam": {"ipv6_subnet": "fd00:10:ff02::/64", "ipv4_subnet": "10.0.0.0/24"}}`. -/
def bothPools : Except String PluginConf :=
  .ok ⟨some { ipv6Subnet := "fd00:10:ff02::/64".toList, ipv4Subnet := "10.0.0.0/24".toList }⟩

/-- The flag goes off between an ADD from two pools and its DEL, and a container comes in between. -/
theorem cmdDel_undoes_bothPools :
    (cmdAdd ⟨true, none⟩ bothPools "a" fun _ => []).1.toOption.isSome = true ∧
    (cmdAdd ⟨true, none⟩ bothPools "a" fun _ => []).2 (lockDir ++ "/10.0.0.0-24") = [("10.0.0.2".toList, "a")] ∧
    ∀ dir, ∀ m ∈ cmdDel ⟨false, none⟩ bothPools "a"
      ([Op.add ⟨false, none⟩ bothPools "b"].foldl Op.run
        (cmdAdd ⟨true, none⟩ bothPools "a" fun _ => []).2) dir, m.2 ≠ "a" := by
  obtain ⟨_, hadd, -⟩ := FallibleLoop.exists_ok (x := (cmdAdd ⟨true, none⟩ bothPools "a" fun _ => []).1)
    (p := fun _ => True) (by decide +kernel)
  refine ⟨by decide +kernel, by decide +kernel, ?_⟩
  have hempty : ∀ dir : String, Distinct ((fun _ => []) dir) := fun _ => nodup_nil
  refine (cmdDel_undoes_iff hempty hadd ?_).mpr ⟨?_, ?_, ?_⟩
  · intro op hop
    rw [mem_singleton.mp hop]
    decide
  · rintro ⟨-, block, heq, hunder, -⟩
    cases heq
    exact absurd hunder.2.2.1 (by decide)
  all_goals exact fun dir hdir m hm => absurd hm not_mem_nil

theorem cmdDel_familyOnly_leaks :
    (cmdAdd ⟨true, none⟩ familyOnly "a" fun _ => []).1.toOption.isSome = true ∧
    (cmdAdd ⟨true, none⟩ familyOnly "a" fun _ => []).2 (lockDir ++ "/fd00:10:ff01::-64") =
      [("fd00:10:ff01::100:0-96".toList, "a")] ∧
    cmdDel ⟨false, none⟩ familyOnly "a" (cmdAdd ⟨true, none⟩ familyOnly "a" fun _ => []).2
      (lockDir ++ "/fd00:10:ff01::-64") = [("fd00:10:ff01::100:0-96".toList, "a")] ∧
    ¬∀ dir, ∀ m ∈ cmdDel ⟨false, none⟩ familyOnly "a"
      (cmdAdd ⟨true, none⟩ familyOnly "a" fun _ => []).2 dir, m.2 ≠ "a" := by
  refine ⟨by decide +kernel, by decide +kernel, ?left, fun hclean => ?_⟩
  case left => decide +kernel
  exact hclean (lockDir ++ "/fd00:10:ff01::-64") ("fd00:10:ff01::100:0-96".toList, "a") (by decide +kernel) rfl

end Galactic.Cniipam
