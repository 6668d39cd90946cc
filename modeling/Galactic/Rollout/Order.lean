import Galactic.Rollout.Unavailable

/-!
# One release for each routing domain, in order

A release that starts has looked at every other release of its namespace: an ordinary one finds no started release of
its routing domain outstanding and none at its fleet sequence or above. The releases of a domain have to share a
namespace, and started ones must not be deleted. -/

namespace Galactic.Rollout
open List Cluster Option

structure Start where
  uid : Nat
  spec : ReleaseSpec

/-- The cluster, the starts so far in order, and the next UID. -/
structure Fleet where
  cluster : Cluster
  starts : List Start
  fresh : Nat

/-- Everything a cluster holds besides releases. -/
structure World where
  deployments : List Deployment
  revisions : List Revision
  routers : List Router
  policies : List Policy
  nodes : List Node
  secrets : List Secret
  secretsDenied : List String
  deployments_once : (deployments.map Deployment.key).Nodup

/-- What happens to a fleet. The other objects change in any way; a release's spec is immutable, its status is written
by the reconciler. -/
inductive Event
  | create (ns name : String) (spec : ReleaseSpec)
  | editSpec (ns name : String) (spec : ReleaseSpec)
  | confirmRecovery (ns name operator : String)
  | requestDelete (ns name : String)
  | world (w : World)
  | reconcile (ns name : String) (now : Int) (writes : Bool)

def Cluster.empty (w : World) : Cluster :=
  ⟨[], w.deployments, w.revisions, w.routers, w.policies, w.nodes, w.secrets, w.secretsDenied, List.nodup_nil,
    w.deployments_once⟩

def Release.created (ns name : String) (uid : Nat) (spec : ReleaseSpec) : Release :=
  ⟨ns, name, uid, 1, false, false, "", spec, ⟨none, none, none, false, none⟩⟩

def Cluster.withWorld (c : Cluster) (w : World) : Cluster :=
  ⟨c.releases, w.deployments, w.revisions, w.routers, w.policies, w.nodes, w.secrets, w.secretsDenied, c.releases_once,
    w.deployments_once⟩

def Cluster.addRelease (c : Cluster) (r : Release) : Cluster :=
  if h : r.uid ∈ c.releases.map Release.uid then c
  else
    { c with
      releases := c.releases ++ [r]
      releases_once := by
        rw [List.map_append, List.nodup_append]
        exact ⟨c.releases_once, List.nodup_singleton _, fun a ha b hb hab =>
          h (List.mem_singleton.mp hb ▸ hab ▸ ha)⟩ }

theorem Cluster.others_once (c : Cluster) (r : Release) : ((c.releases.filter (·.uid ≠ r.uid)).map Release.uid).Nodup :=
  c.releases_once.sublist (filter_sublist.map _)

def Cluster.removeRelease (c : Cluster) (r : Release) : Cluster :=
  { c with releases := c.releases.filter (·.uid ≠ r.uid), releases_once := c.others_once r }

def startMade (before after : Cluster) (ns name : String) : Option Start :=
  match before.release ns name with
  | none => none
  | some a =>
    match after.releases.find? (·.uid = a.uid) with
    | none => none
    | some b => if a.status.started = false ∧ b.status.started = true then some ⟨b.uid, b.spec⟩ else none

def Fleet.step (s : Fleet) : Event → Fleet
  | .create ns name spec =>
    if (s.cluster.release ns name).isSome then s
    else { s with cluster := s.cluster.addRelease (.created ns name s.fresh spec), fresh := s.fresh + 1 }
  | .editSpec _ _ _ => s
  | .confirmRecovery ns name operator =>
    match s.cluster.release ns name with
    | none => s
    | some r => { s with cluster := s.cluster.setRelease r ({ · with recoveryVerifiedBy := operator }) fun _ => rfl }
  | .requestDelete ns name =>
    match s.cluster.release ns name with
    | none => s
    | some r =>
      if r.finalizer then { s with cluster := s.cluster.setRelease r ({ · with deleting := true }) fun _ => rfl }
      else { s with cluster := s.cluster.removeRelease r }
  | .world w => { s with cluster := s.cluster.withWorld w }
  | .reconcile ns name now writes =>
    let c := (s.cluster.reconcile ns name now writes).1
    { s with cluster := c, starts := s.starts ++ (startMade s.cluster c ns name).toList }

def Fleet.run (s : Fleet) (events : List Event) : Fleet := events.foldl Fleet.step s

def Fleet.start (w : World) : Fleet := ⟨.empty w, [], 0⟩

/-- The releases of a routing domain share a namespace, and a started one is not deleted. -/
def Event.Orderly (s : Fleet) : Event → Prop
  | .create ns _ spec => ∀ r ∈ s.cluster.releases, r.spec.routingDomain = spec.routingDomain → r.ns = ns
  | .requestDelete ns name => ∀ r, s.cluster.release ns name = some r → r.status.started = false
  | _ => True

def Fleet.Orderly (s : Fleet) : List Event → Prop
  | [] => True
  | e :: es => e.Orderly s ∧ Fleet.Orderly (s.step e) es

/-! ### What a reconcile does to the releases -/

def Clear (c : Cluster) (auth : Release) : Prop := ∀ o ∈ c.releases, o.ns = auth.ns → auth.verdict o = none

/-- A started release stays started; one that is not starts only when nothing speaks against it. -/
def StatusMove (c : Cluster) (auth : Release) (st : ReleaseStatus) : Prop :=
  (auth.status.started = true ∧ st.started = true) ∨
    (auth.status.started = false ∧ (st.started = true → Clear c auth))

variable {c : Cluster} {auth : Release}

theorem tryStart_move (hun : auth.status.started = false) (now : Int) : StatusMove c auth (c.tryStart auth now) := by
  refine .inr ⟨hun, ?_⟩
  unfold tryStart
  split
  · exact fun h => Bool.noConfusion h
  split
  · exact fun h => Bool.noConfusion h
  · exact fun h => Bool.noConfusion h
  rename_i hclear
  split_ifs
  · exact fun h => Bool.noConfusion h
  · intro _ o ho hns
    exact findSome?_eq_none_iff.mp hclear o (mem_filter.mpr ⟨ho, by simpa using hns⟩)

theorem progress_started (c : Cluster) (auth : Release) (now : Int) : (c.progress auth now).2.started := by
  unfold progress
  dsimp only
  split_ifs <;> rfl

theorem verifyRecovery_phase (c : Cluster) (auth : Release) (now : Int) :
    (c.verifyRecovery auth now).phase = auth.status.phase := by
  unfold verifyRecovery
  dsimp only
  split_ifs <;> rfl

theorem releases_promoteLoop (auth : Release) (es : List Entry) (inFlight : Cluster.Domain → Int) (c : Cluster) :
    (promoteLoop auth es inFlight c).cluster.releases = c.releases := by
  induction es generalizing inFlight c with
  | nil => rfl
  | cons e rest ih =>
    unfold promoteLoop
    split_ifs
    · exact ih inFlight c
    split
    · rfl
    · split_ifs
      · exact ih inFlight c
      · exact ih _ _

theorem releases_progress (c : Cluster) (auth : Release) (now : Int) :
    (c.progress auth now).1.cluster.releases = c.releases := by
  have hpass := releases_promoteLoop auth (c.survey auth now).entries
    (c.inFlight auth.ns (c.survey auth now).entries) c
  unfold progress
  dsimp only
  split_ifs
  all_goals first
    | rfl
    | exact hpass

theorem releases_advance (c : Cluster) (auth : Release) (now : Int) :
    (c.advance auth now).1.cluster.releases = c.releases := by
  unfold advance
  split
  all_goals first
    | rfl
    | exact releases_progress c auth now

theorem advance_move (hout : auth.status.outstanding) (now : Int) : StatusMove c auth (c.advance auth now).2 := by
  unfold advance
  split <;> rename_i hphase
  · exact tryStart_move (by simp [ReleaseStatus.started, hphase]) now
  · exact tryStart_move (by simp [ReleaseStatus.started, hphase]) now
  · exact .inl ⟨by simp [ReleaseStatus.started, hphase], progress_started c auth now⟩
  · exact .inl ⟨by simp [ReleaseStatus.started, hphase], progress_started c auth now⟩
  · refine .inl ⟨by simp [ReleaseStatus.started, hphase], ?_⟩
    simp [ReleaseStatus.started, verifyRecovery_phase, hphase]
  · rename_i p hpending hstarted hunknown hfailed
    -- what is left is completed or cancelled, and neither is outstanding
    cases p <;> simp_all [ReleaseStatus.outstanding]

/-! ### The order, as an invariant of the releases and the starts -/

/-- The starts are those of releases still there and rise in every domain; one ordinary release of it is under way. -/
structure InOrder (releases : List Release) (starts : List Start) (fresh : Nat) : Prop where
  uids : ∀ r ∈ releases, r.uid < fresh
  namespaces : ∀ a ∈ releases, ∀ b ∈ releases, a.spec.routingDomain = b.spec.routingDomain → a.ns = b.ns
  deleting : ∀ r ∈ releases, r.deleting = true → r.status.started = false
  logged : ∀ s ∈ starts, ∃ r ∈ releases, r.uid = s.uid ∧ r.spec = s.spec ∧ r.status.started = true
  single : ∀ a ∈ releases, ∀ b ∈ releases, a.spec.routingDomain = b.spec.routingDomain → a.spec.type = .release →
    b.spec.type = .release → a.status.started = true → a.status.outstanding = true → b.status.started = true →
    b.status.outstanding = true → a.uid = b.uid
  rising : starts.Pairwise fun s t => s.spec.routingDomain = t.spec.routingDomain → t.spec.type = .release →
    s.spec.fleetSequence < t.spec.fleetSequence

variable {releases : List Release} {starts : List Start} {fresh : Nat}

structure SameOrder (r r' : Release) : Prop where
  uid : r'.uid = r.uid
  ns : r'.ns = r.ns
  spec : r'.spec = r.spec
  status : r'.status = r.status
  deleting : r'.deleting = true → r.deleting = true ∨ r.status.started = false

theorem SameOrder.refl (r : Release) : SameOrder r r := ⟨rfl, rfl, rfl, rfl, .inl⟩

section
variable (h : InOrder releases starts fresh)

include h

theorem InOrder.map {f : Release → Release} (hf : ∀ r ∈ releases, SameOrder r (f r)) :
    InOrder (releases.map f) starts fresh where
  uids := by
    intro r' hr'
    obtain ⟨r, hr, rfl⟩ := mem_map.mp hr'
    rw [(hf r hr).uid]
    exact h.uids r hr
  namespaces := by
    intro a' ha' b' hb'
    obtain ⟨a, ha, rfl⟩ := mem_map.mp ha'
    obtain ⟨b, hb, rfl⟩ := mem_map.mp hb'
    rw [(hf a ha).spec, (hf b hb).spec, (hf a ha).ns, (hf b hb).ns]
    exact h.namespaces a ha b hb
  deleting := by
    intro r' hr' hdel
    obtain ⟨r, hr, rfl⟩ := mem_map.mp hr'
    rw [(hf r hr).status]
    exact ((hf r hr).deleting hdel).elim (h.deleting r hr) id
  logged := by
    intro s hs
    obtain ⟨r, hr, huid, hspec, hstarted⟩ := h.logged s hs
    refine ⟨f r, mem_map_of_mem hr, ?_, ?_, ?_⟩
    · rw [(hf r hr).uid, huid]
    · rw [(hf r hr).spec, hspec]
    · rw [(hf r hr).status, hstarted]
  single := by
    intro a' ha' b' hb'
    obtain ⟨a, ha, rfl⟩ := mem_map.mp ha'
    obtain ⟨b, hb, rfl⟩ := mem_map.mp hb'
    rw [(hf a ha).spec, (hf b hb).spec, (hf a ha).status, (hf b hb).status, (hf a ha).uid, (hf b hb).uid]
    exact h.single a ha b hb
  rising := h.rising

theorem InOrder.remove {uid : Nat} (hun : ∀ r ∈ releases, r.uid = uid → r.status.started = false) :
    InOrder (releases.filter (·.uid ≠ uid)) starts fresh where
  uids := fun r hr => h.uids r (mem_filter.mp hr).1
  namespaces := fun a ha b hb => h.namespaces a (mem_filter.mp ha).1 b (mem_filter.mp hb).1
  deleting := fun r hr => h.deleting r (mem_filter.mp hr).1
  logged := by
    intro s hs
    obtain ⟨r, hr, huid, hspec, hstarted⟩ := h.logged s hs
    refine ⟨r, mem_filter.mpr ⟨hr, ?_⟩, huid, hspec, hstarted⟩
    refine decide_eq_true fun heq => ?_
    rw [hun r hr heq] at hstarted
    cases hstarted
  single := fun a ha b hb => h.single a (mem_filter.mp ha).1 b (mem_filter.mp hb).1
  rising := h.rising

theorem InOrder.add {r : Release} (huid : r.uid = fresh)
    (hns : ∀ o ∈ releases, o.spec.routingDomain = r.spec.routingDomain → o.ns = r.ns) (hun : r.status.started = false) :
    InOrder (releases ++ [r]) starts (fresh + 1) where
  uids := forall_mem_append.mpr ⟨fun o ho => Nat.lt_succ_of_lt (h.uids o ho),
    forall_mem_singleton.mpr (huid ▸ Nat.lt_succ_self _)⟩
  namespaces := by
    refine forall_mem_append.mpr ⟨fun a ha => ?_, forall_mem_singleton.mpr ?_⟩
    · exact forall_mem_append.mpr ⟨h.namespaces a ha, forall_mem_singleton.mpr (hns a ha)⟩
    · exact forall_mem_append.mpr ⟨fun b hb hdomain => (hns b hb hdomain.symm).symm,
        forall_mem_singleton.mpr fun _ => rfl⟩
  deleting := forall_mem_append.mpr ⟨h.deleting, forall_mem_singleton.mpr fun _ => hun⟩
  logged := by
    intro s hs
    obtain ⟨o, ho, hrest⟩ := h.logged s hs
    exact ⟨o, mem_append_left _ ho, hrest⟩
  single := by
    -- the new release has not started
    have hold : ∀ o ∈ releases ++ [r], o.status.started → o ∈ releases := by
      intro o ho hstarted
      rcases mem_append.mp ho with ho | ho
      · exact ho
      · rw [mem_singleton.mp ho, hun] at hstarted
        cases hstarted
    intro a ha b hb hdomain hta htb hsa hoa hsb
    exact h.single a (hold a ha hsa) b (hold b hb hsb) hdomain hta htb hsa hoa hsb
  rising := h.rising

end

theorem verdict_none {auth o : Release} (h : auth.verdict o = none) (huid : o.uid ≠ auth.uid)
    (hdomain : o.spec.routingDomain = auth.spec.routingDomain) (htype : auth.spec.type = .release)
    (hstarted : o.status.started) : o.spec.fleetSequence < auth.spec.fleetSequence ∧ o.status.outstanding = false := by
  unfold Release.verdict at h
  rw [if_neg (by simp [huid, hdomain])] at h
  split_ifs at h with hsuper hblock
  constructor
  · by_contra hle
    exact hsuper ⟨hstarted, Int.not_lt.mp hle, htype⟩
  · by_contra hout
    exact hblock ⟨by simpa using hout, htype, .inl hstarted⟩

def setStatus (a : Release) (st : ReleaseStatus) (r : Release) : Release :=
  if r.uid = a.uid then { r with status := st } else r

def startOf (a : Release) (st : ReleaseStatus) : Option Start :=
  if a.status.started = false ∧ st.started = true then some ⟨a.uid, a.spec⟩ else none

section Status

variable {a : Release} {st : ReleaseStatus} (ha : a ∈ c.releases)
include ha

variable {r : Release}

theorem eq_of_uid (hr : r ∈ c.releases) (huid : r.uid = a.uid) : r = a :=
  inj_on_of_nodup_map c.releases_once hr ha huid

theorem mem_setStatus {r' : Release} (hr' : r' ∈ c.releases.map (setStatus a st)) :
    r' = { a with status := st } ∨ (r' ∈ c.releases ∧ r'.uid ≠ a.uid) := by
  obtain ⟨r, hr, rfl⟩ := mem_map.mp hr'
  unfold setStatus
  split_ifs with huid
  · rw [eq_of_uid ha hr huid]
    exact .inl rfl
  · exact .inr ⟨hr, huid⟩

theorem mem_map_setStatus : { a with status := st } ∈ c.releases.map (setStatus a st) :=
  mem_map.mpr ⟨a, ha, if_pos rfl⟩

omit ha in
theorem mem_map_of_ne (hr : r ∈ c.releases) (huid : r.uid ≠ a.uid) : r ∈ c.releases.map (setStatus a st) :=
  mem_map.mpr ⟨r, hr, if_neg huid⟩

theorem Clear.others
    (hns : ∀ a ∈ c.releases, ∀ b ∈ c.releases, a.spec.routingDomain = b.spec.routingDomain → a.ns = b.ns)
    (hclear : Clear c a) (htype : a.spec.type = .release) (hr : r ∈ c.releases) (huid : r.uid ≠ a.uid)
    (hdomain : r.spec.routingDomain = a.spec.routingDomain) (hstarted : r.status.started) :
    r.spec.fleetSequence < a.spec.fleetSequence ∧ r.status.outstanding = false :=
  verdict_none (hclear r hr (hns r hr a ha hdomain)) huid hdomain htype hstarted

theorem InOrder.alone (h : InOrder c.releases starts fresh) (hout : a.status.outstanding)
    (hmove : StatusMove c a st) (htype : a.spec.type = .release) (hst : st.started)
    (hr : r ∈ c.releases) (huid : r.uid ≠ a.uid) (hdomain : r.spec.routingDomain = a.spec.routingDomain)
    (hrtype : r.spec.type = .release) (hstarted : r.status.started) : r.status.outstanding = false := by
  rcases hmove with ⟨hwas, -⟩ | ⟨-, hclear⟩
  · -- it was under way before, and then alone by the invariant
    by_contra hrout
    exact huid (h.single r hr a ha hdomain hrtype htype hstarted (by simpa using hrout) hwas hout)
  · exact (Clear.others ha h.namespaces (hclear hst) htype hr huid hdomain hstarted).2

theorem InOrder.setStatus (h : InOrder c.releases starts fresh) (hout : a.status.outstanding)
    (hdel : a.deleting = false) (hmove : StatusMove c a st) :
    InOrder (c.releases.map (setStatus a st)) (starts ++ (startOf a st).toList) fresh where
  uids := by
    intro r' hr'
    rcases mem_setStatus ha hr' with rfl | ⟨hr, -⟩
    · exact h.uids a ha
    · exact h.uids r' hr
  namespaces := by
    intro x hx y hy hdomain
    rcases mem_setStatus ha hx with rfl | ⟨hx, -⟩ <;> rcases mem_setStatus ha hy with rfl | ⟨hy, -⟩
    · rfl
    · exact h.namespaces a ha y hy hdomain
    · exact h.namespaces x hx a ha hdomain
    · exact h.namespaces x hx y hy hdomain
  deleting := by
    intro r' hr' hrdel
    rcases mem_setStatus ha hr' with rfl | ⟨hr, -⟩
    · exact Bool.noConfusion (hdel.symm.trans hrdel)
    · exact h.deleting r' hr hrdel
  logged := by
    intro s hs
    rcases mem_append.mp hs with hs | hs
    · obtain ⟨r, hr, huid, hspec, hstarted⟩ := h.logged s hs
      by_cases heq : r.uid = a.uid
      · -- the written release had started and stays started
        obtain rfl := eq_of_uid ha hr heq
        refine ⟨_, mem_map_setStatus ha, huid, hspec, ?_⟩
        rcases hmove with ⟨-, hst⟩ | ⟨hun, -⟩
        · exact hst
        · exact Bool.noConfusion (hun.symm.trans hstarted)
      · exact ⟨r, mem_map_of_ne hr heq, huid, hspec, hstarted⟩
    · unfold startOf at hs
      split_ifs at hs with hstart
      · rw [toList_some, mem_singleton] at hs
        exact ⟨_, mem_map_setStatus ha, by rw [hs], by rw [hs], hstart.2⟩
      · cases hs
  single := by
    intro x hx y hy hdomain htx hty hsx hox hsy hoy
    rcases mem_setStatus ha hx with rfl | ⟨hx, hnx⟩ <;> rcases mem_setStatus ha hy with rfl | ⟨hy, hny⟩
    · rfl
    · have := h.alone ha hout hmove htx hsx hy hny hdomain.symm hty hsy
      exact Bool.noConfusion (this.symm.trans hoy)
    · have := h.alone ha hout hmove hty hsy hx hnx hdomain htx hsx
      exact Bool.noConfusion (this.symm.trans hox)
    · exact h.single x hx y hy hdomain htx hty hsx hox hsy hoy
  rising := by
    refine pairwise_append.mpr ⟨h.rising, ?_, ?_⟩
    · cases startOf a st with
      | none => exact List.Pairwise.nil
      | some t => exact pairwise_singleton _ t
    intro s hs t ht hdomain htype
    unfold startOf at ht
    split_ifs at ht with hstart
    · rw [toList_some, mem_singleton] at ht
      subst ht
      obtain ⟨r, hr, -, hspec, hstarted⟩ := h.logged s hs
      rw [← hspec] at hdomain ⊢
      rcases hmove with ⟨hwas, -⟩ | ⟨hun, hclear⟩
      · exact Bool.noConfusion (hstart.1.symm.trans hwas)
      have hne : r.uid ≠ a.uid := by
        intro heq
        rw [eq_of_uid ha hr heq, hun] at hstarted
        cases hstarted
      exact (Clear.others ha h.namespaces (hclear hstart.2) htype hr hne hdomain hstarted).1
    · cases ht

theorem find_uid : c.releases.find? (·.uid = a.uid) = some a := by
  have hsome : (c.releases.find? (·.uid = a.uid)).isSome := by
    rw [find?_isSome]
    exact ⟨a, ha, decide_eq_true rfl⟩
  obtain ⟨b, hb⟩ := isSome_iff_exists.mp hsome
  have huid : b.uid = a.uid := by simpa using find?_some hb
  rw [hb, eq_of_uid ha (mem_of_find?_eq_some hb) huid]

end Status

/-! ### Steps and runs -/

variable {ns name : String}

theorem mem_of_release (h : c.release ns name = some auth) : auth ∈ c.releases :=
  mem_of_find?_eq_some h

theorem startMade_none {before after : Cluster}
    (hkeep : ∀ a, before.release ns name = some a → ∀ b ∈ after.releases, b.uid = a.uid → b.status = a.status) :
    startMade before after ns name = none := by
  unfold startMade
  split
  · rfl
  rename_i a hrel
  split
  · rfl
  · rename_i b hfind
    have huid : b.uid = a.uid := by simpa using find?_some hfind
    rw [hkeep a hrel b (mem_of_find?_eq_some hfind) huid,
      if_neg fun hstart => Bool.noConfusion (hstart.1.symm.trans hstart.2)]

theorem sameOrder_finalizer (auth : Release) (b : Bool) (r : Release) :
    SameOrder r (if r.uid = auth.uid then { r with finalizer := b } else r) := by
  split_ifs
  · exact ⟨rfl, rfl, rfl, rfl, .inl⟩
  · exact .refl r

theorem dropFinalizer_inOrder (hauth : auth ∈ c.releases) (h : InOrder c.releases starts fresh) :
    InOrder (c.dropFinalizer auth).releases starts fresh ∧
      ∀ b ∈ (c.dropFinalizer auth).releases, b.uid = auth.uid → b.status = auth.status := by
  unfold dropFinalizer
  split_ifs with hfin hdel
  · exact ⟨h, fun b hb huid => by rw [eq_of_uid hauth hb huid]⟩
  · refine ⟨h.remove fun r hr huid => ?_, fun b hb huid => ?_⟩
    · rw [eq_of_uid hauth hr huid]
      exact h.deleting auth hauth hdel
    · exact absurd huid (of_decide_eq_true (mem_filter.mp hb).2)
  refine ⟨h.map fun r _ => sameOrder_finalizer auth false r, fun b hb huid => ?_⟩
  obtain ⟨r, hr, rfl⟩ := mem_map.mp hb
  rw [(sameOrder_finalizer auth false r).uid] at huid
  rw [(sameOrder_finalizer auth false r).status, eq_of_uid hauth hr huid]

theorem deleting_of_advanced (h : InOrder c.releases starts fresh) (hauth : auth ∈ c.releases)
    (hgo : ¬ (auth.status.outstanding = false ∨ (auth.deleting ∧ auth.untouched))) : auth.deleting = false := by
  rw [not_or] at hgo
  by_contra hdel
  have hun := h.deleting auth hauth (by simpa using hdel)
  refine hgo.2 ⟨by simpa using hdel, ?_⟩
  have hout := hgo.1
  revert hun hout
  unfold ReleaseStatus.started ReleaseStatus.outstanding Release.untouched
  rcases auth.status.phase with _ | p
  · simp
  · cases p <;> simp

def Release.marked (auth : Release) : Release := { auth with finalizer := true }

theorem Release.uid_marked (r : Release) : r.marked.uid = r.uid := rfl

def Cluster.mark (c : Cluster) (auth : Release) : Cluster := c.setRelease auth Release.marked Release.uid_marked

theorem marked_mem (hauth : auth ∈ c.releases) : auth.marked ∈ (c.mark auth).releases :=
  mem_map.mpr ⟨auth, hauth, if_pos rfl⟩

theorem reconcile_inOrder (h : InOrder c.releases starts fresh) (ns name : String) (now : Int) (writes : Bool) :
    InOrder (c.reconcile ns name now writes).1.releases
      (starts ++ (startMade c (c.reconcile ns name now writes).1 ns name).toList) fresh := by
  cases hrel : c.release ns name with
  | none =>
    rw [show c.reconcile ns name now writes = (c, []) by rw [reconcile, hrel], startMade_none (fun a ha => by
      rw [hrel] at ha; exact nomatch ha), toList_none, append_nil]
    exact h
  | some auth =>
    have hauth := mem_of_release hrel
    by_cases hgo : auth.status.outstanding = false ∨ (auth.deleting ∧ auth.untouched)
    · have hdrop : (c.reconcile ns name now writes).1 = c.dropFinalizer auth := by
        unfold reconcile
        rw [hrel]
        dsimp only
        rw [if_pos hgo]
      obtain ⟨horder, hstatus⟩ := dropFinalizer_inOrder hauth h
      rw [hdrop, startMade_none, toList_none, append_nil]
      · exact horder
      · intro a ha b hb huid
        obtain rfl : auth = a := mem_unique hrel ha
        exact hstatus b hb huid
    have hmark : InOrder (c.mark auth).releases starts fresh := h.map fun r _ => sameOrder_finalizer auth true r
    have hmem := marked_mem hauth
    have hout : auth.status.outstanding := by simpa using (not_or.mp hgo).1
    have hadvance := releases_advance (c.mark auth) auth now
    cases writes with
    | false =>
      have hafter : (c.reconcile ns name now false).1 = ((c.mark auth).advance auth now).1.cluster := by
        unfold reconcile
        rw [hrel]
        dsimp only
        rw [if_neg hgo]
        rfl
      rw [hafter, startMade_none, toList_none, append_nil, hadvance]
      · exact hmark
      intro a ha b hb huid
      obtain rfl : auth = a := mem_unique hrel ha
      rw [hadvance] at hb
      rw [eq_of_uid hmem hb huid]
      rfl
    | true =>
      have hafter : (c.reconcile ns name now true).1.releases =
          (c.mark auth).releases.map (setStatus auth.marked ((c.mark auth).advance auth now).2) := by
        rw [← hadvance]
        unfold reconcile
        rw [hrel]
        dsimp only
        rw [if_neg hgo]
        rfl
      have hmade : startMade c (c.reconcile ns name now true).1 ns name =
          startOf auth.marked ((c.mark auth).advance auth now).2 := by
        have hfind := find_uid (c := (c.reconcile ns name now true).1)
          (a := { auth.marked with status := ((c.mark auth).advance auth now).2 })
          (by rw [hafter]; exact mem_map_setStatus hmem)
        unfold startMade
        rw [hrel]
        dsimp only
        rw [show auth.uid = ({ auth.marked with status := ((c.mark auth).advance auth now).2 } : Release).uid from rfl,
          hfind]
        rfl
      have hdel : auth.deleting = false := deleting_of_advanced h hauth hgo
      have hmove : StatusMove (c.mark auth) auth ((c.mark auth).advance auth now).2 := advance_move hout now
      rw [hmade, hafter]
      exact hmark.setStatus hmem hout hdel hmove

variable {s : Fleet}

theorem step_inOrder (h : InOrder s.cluster.releases s.starts s.fresh) (e : Event) (he : e.Orderly s) :
    InOrder (s.step e).cluster.releases (s.step e).starts (s.step e).fresh := by
  cases e with
  | create ns name spec =>
    unfold Fleet.step
    dsimp only
    split_ifs
    · exact h
    have hnew : (Release.created ns name s.fresh spec).uid ∉ s.cluster.releases.map Release.uid := by
      intro hmem
      obtain ⟨r, hr, huid⟩ := mem_map.mp hmem
      exact Nat.ne_of_lt (h.uids r hr) huid
    have hadd : (s.cluster.addRelease (.created ns name s.fresh spec)).releases =
        s.cluster.releases ++ [.created ns name s.fresh spec] := by
      unfold addRelease
      rw [dif_neg hnew]
    rw [hadd]
    exact h.add rfl he rfl
  | editSpec ns name spec => exact h
  | confirmRecovery ns name operator =>
    unfold Fleet.step
    dsimp only
    split
    · exact h
    refine h.map fun r _ => ?_
    split_ifs
    · exact ⟨rfl, rfl, rfl, rfl, .inl⟩
    · exact .refl r
  | requestDelete ns name =>
    unfold Fleet.step
    dsimp only
    split
    · exact h
    rename_i r hrel
    have hun := he r hrel
    have hmem := mem_of_release hrel
    split_ifs
    · refine h.map fun o ho => ?_
      split_ifs with huid
      · exact ⟨rfl, rfl, rfl, rfl, fun _ => .inr (by rw [eq_of_uid hmem ho huid]; exact hun)⟩
      · exact .refl o
    · refine h.remove fun o ho huid => ?_
      rw [eq_of_uid hmem ho huid]
      exact hun
  | world w => exact h
  | reconcile ns name now writes => exact reconcile_inOrder h ns name now writes

theorem run_inOrder (h : InOrder s.cluster.releases s.starts s.fresh) (events : List Event) (hev : s.Orderly events) :
    InOrder (s.run events).cluster.releases (s.run events).starts (s.run events).fresh := by
  induction events generalizing s with
  | nil => exact h
  | cons e es ih => exact ih (step_inOrder h e hev.1) hev.2

/-- At most one ordinary release of a routing domain is started and outstanding. -/
def Fleet.OneUnderWay (s : Fleet) : Prop :=
  ∀ a ∈ s.cluster.releases, ∀ b ∈ s.cluster.releases, a.spec.routingDomain = b.spec.routingDomain →
    a.spec.type = .release → b.spec.type = .release → a.status.started = true → a.status.outstanding = true →
    b.status.started = true → b.status.outstanding = true → a.uid = b.uid

/-- An ordinary release starts above every sequence its routing domain has started. -/
def Fleet.Rising (s : Fleet) : Prop :=
  s.starts.Pairwise fun a b => a.spec.routingDomain = b.spec.routingDomain → b.spec.type = .release →
    a.spec.fleetSequence < b.spec.fleetSequence

/-- **One release for each routing domain, in order**, in every state of an orderly run. -/
theorem run_oneUnderWay (w : World) (events : List Event) (h : (Fleet.start w).Orderly events) :
    ((Fleet.start w).run events).OneUnderWay ∧ ((Fleet.start w).run events).Rising := by
  have hstart : InOrder (Fleet.start w).cluster.releases (Fleet.start w).starts (Fleet.start w).fresh :=
    { uids := fun _ h => nomatch h
      namespaces := fun _ h => nomatch h
      deleting := fun _ h => nomatch h
      logged := fun _ h => nomatch h
      single := fun _ h => nomatch h
      rising := List.Pairwise.nil }
  have hrun := run_inOrder hstart events h
  exact ⟨hrun.single, hrun.rising⟩

/-! ### Two namespaces -/

def twoNamespaces : World where
  deployments := [idleDeployment "a" "n1" 10, { idleDeployment "a" "n2" 11 with ns := "west" }]
  revisions := [emptyRevision "a", { emptyRevision "a" with ns := "west" }]
  routers := []
  policies := []
  nodes := rackNodes
  secrets := []
  secretsDenied := []
  deployments_once := by decide

def fabricRelease (deploymentUID : Nat) (sequence : Int) : ReleaseSpec :=
  ⟨.release, "fabric", "id", sequence, [⟨"a", deploymentUID, "a-1", "digest", false, false⟩], [], none⟩

def oneNamespaceRun : List Event :=
  [.create "ns" "first" (fabricRelease 10 1), .reconcile "ns" "first" 0 true,
    .create "ns" "second" (fabricRelease 10 2), .reconcile "ns" "second" 0 true]

theorem run_oneUnderWay_oneNamespace :
    (((Fleet.start twoNamespaces).run oneNamespaceRun).cluster.releases.map (·.status.phase) =
      [some .started, some .pending]) ∧ ((Fleet.start twoNamespaces).run oneNamespaceRun).OneUnderWay ∧
    ((Fleet.start twoNamespaces).run oneNamespaceRun).Rising := by
  refine ⟨by decide +kernel, run_oneUnderWay twoNamespaces oneNamespaceRun ⟨?_, trivial, ?_, trivial, trivial⟩⟩
  · exact fun r hr => nomatch hr
  · have hall : (((Fleet.start twoNamespaces).run (oneNamespaceRun.take 2)).cluster.releases.all fun r => r.ns = "ns") =
        true := by decide +kernel
    exact fun r hr _ => of_decide_eq_true (all_eq_true.mp hall r hr)

/-- The same releases in two namespaces do not see each other: the second starts below the first, beside it. -/
theorem namespaces_unordered :
    ¬ ((Fleet.start twoNamespaces).run
        [.create "west" "second" (fabricRelease 11 2), .reconcile "west" "second" 0 true,
          .create "ns" "first" (fabricRelease 10 1), .reconcile "ns" "first" 0 true]).OneUnderWay ∧
    ¬ ((Fleet.start twoNamespaces).run
        [.create "west" "second" (fabricRelease 11 2), .reconcile "west" "second" 0 true,
          .create "ns" "first" (fabricRelease 10 1), .reconcile "ns" "first" 0 true]).Rising := by
  unfold Fleet.OneUnderWay Fleet.Rising
  decide +kernel

end Galactic.Rollout
