import Galactic.ServicePlan.Agreement
import Galactic.ServicePlan.Programming

/-!
# The plan names the nodes that are programmed

A node is in a programming plan exactly if compiling the policy for it gives an intent, whichever pairing it uses. -/

namespace Galactic.ServicePlan

open Net (IP IPNet)
open FallibleLoop List Function

section
variable {ext : External}

/-! ### One consumer -/

def pathNodes (consumer : VPCAttachment) (serving : List VPCAttachment) : List String :=
  consumer.status.node :: serving.map (·.status.node)

section Consumer
variable {endpoint : ServiceEndpoint} {consumer : VPCAttachment} {producers serving : List VPCAttachment}
  {health : Health}

theorem servingProducers_eq_ok (h : servingProducers endpoint consumer producers health = .ok serving) :
    (∃ onNode, onNode ≠ [] ∧ (∀ pairing, selectProducers endpoint consumer producers health pairing = (onNode, none)) ∧
      ∀ p ∈ serving, p.status.node = consumer.status.node) ∨
    (∀ pairing, ∃ p, selectProducers endpoint consumer producers health pairing = ([], some p) ∧
      ∀ q, q ∈ serving ↔ q ∈ acceptedProducers endpoint consumer producers health p) := by
  unfold servingProducers at h
  rcases choice endpoint consumer producers health with ⟨onNode, hne, hnode, hall⟩ | hall | ⟨-, hall⟩ | ⟨-, q, hall⟩
  · rw [hall] at h
    dsimp only at h
    rw [if_pos hne] at h
    cases h
    exact .inl ⟨onNode, hne, hall, fun p hp => hnode p (mem_of_mem_take hp)⟩
  · rw [hall] at h
    cases h
  · obtain ⟨first, -, -, hfirst⟩ := hall .first
    rw [hfirst] at h
    cases h
    refine .inr fun pairing => ?_
    obtain ⟨p, -, -, hsel⟩ := hall pairing
    exact ⟨p, hsel, fun q => by rw [mem_acceptedProducers hfirst, mem_acceptedProducers hsel]⟩
  · rw [hall] at h
    cases h
    exact .inr fun pairing => ⟨q, hall pairing, fun _ => Iff.rfl⟩

end Consumer

section Emission
variable {r : Route} {consumer : VPCAttachment} {localNode identity : String} {resolveSID : SIDResolver}
  {pairing : SpreadPairing} {l : List RouteIntent}

theorem remoteIntents_ne_nil {producer : VPCAttachment}
    (h : remoteIntents r consumer producer localNode resolveSID = .ok l) :
    l ≠ [] ↔ localNode ∈ pathNodes consumer (acceptedProducers r.endpoint consumer r.producers r.health producer) := by
  obtain ⟨resolve, g, own, halves, -, hown, hhalves, rfl⟩ := remoteIntents_eq_ok h
  have hownIff : own ≠ [] ↔ localNode = consumer.status.node := by
    rcases consumerHalf_eq_ok hown with ⟨hnode, sid, rfl⟩ | ⟨hnode, rfl⟩
    · simp [hnode]
    · simp [Ne.symm hnode]
  have hhalvesIff : halves ≠ [] ↔
      ∃ p ∈ acceptedProducers r.endpoint consumer r.producers r.health producer, p.status.node = localNode := by
    constructor
    · intro hne
      obtain ⟨i, hi⟩ := exists_mem_of_ne_nil _ hne
      obtain ⟨p, hp, ys, hys, hmem⟩ := mem_collect hhalves hi
      rcases producerHalf_eq_ok hys with ⟨hlocal, -⟩ | ⟨-, rfl⟩
      · exact ⟨p, hp, hlocal⟩
      · cases hmem
    · rintro ⟨p, hp, hlocal⟩
      obtain ⟨ys, hys, hsub⟩ := collect_elem hhalves hp
      rcases producerHalf_eq_ok hys with ⟨-, g', sid, -, rfl⟩ | ⟨hne, -⟩
      · exact ne_nil_of_mem (hsub _ (mem_singleton_self _))
      · exact absurd hlocal hne
  rw [ne_eq, append_eq_nil_iff, not_and_or, ← ne_eq, ← ne_eq, hownIff, hhalvesIff, pathNodes, mem_cons, mem_map]

section
variable (h : Emitted r localNode identity resolveSID pairing consumer l)

include h

theorem Emitted.not_skipped (hne : l ≠ []) : r.skips identity consumer = false := by
  rcases h with ⟨-, hl⟩ | ⟨-, hl⟩ | ⟨hskip, -⟩ | ⟨hskip, -⟩ | ⟨hskip, -⟩
  · exact absurd hl hne
  · exact absurd hl hne
  all_goals exact hskip

theorem Emitted.ne_nil_iff (hskip : r.skips identity consumer = false) {serving : List VPCAttachment}
    (hserving : servingProducers r.endpoint consumer r.producers r.health = .ok serving) :
    l ≠ [] ↔ localNode ∈ pathNodes consumer serving := by
  have hown : ∀ i : RouteIntent, (if consumer.status.node = localNode then [i] else []) ≠ [] ↔
      localNode = consumer.status.node := by
    intro i
    split_ifs with hnode
    · simp [hnode]
    · simp [Ne.symm hnode]
  have hsame : (∀ p ∈ serving, p.status.node = consumer.status.node) →
      (localNode ∈ pathNodes consumer serving ↔ localNode = consumer.status.node) := by
    intro hall
    rw [pathNodes, mem_cons, mem_map]
    constructor
    · rintro (h | ⟨p, hp, rfl⟩)
      · exact h
      · exact hall p hp
    · exact .inl
  rcases servingProducers_eq_ok hserving with ⟨onNode, hne, hall, hnodes⟩ | hall
  · rcases h with ⟨hskip', -⟩ | ⟨hsel, -⟩ | ⟨-, onNode', -, -, rfl⟩ | ⟨-, p, hsel, -, -⟩ | ⟨-, p, hsel, -, -⟩
    · cases hskip.symm.trans hskip'
    · exact absurd (Prod.mk.inj ((hall _).symm.trans hsel)).1 hne
    · rw [hown, hsame hnodes]
    all_goals exact absurd (Prod.mk.inj ((hall _).symm.trans hsel)).1 hne
  obtain ⟨chosen, hchosen, haccepted⟩ := hall pairing
  rcases h with ⟨hskip', -⟩ | ⟨hsel, -⟩ | ⟨-, onNode', hne, hsel, -⟩ | ⟨-, p, hsel, hnode, rfl⟩ | ⟨-, p, hsel, -, hl⟩
  · cases hskip.symm.trans hskip'
  · cases hchosen.symm.trans hsel
  · rw [hchosen] at hsel
    exact absurd hsel.symm hne
  · -- the one producer is on the consumer's node, so no other accepts it
    rw [hown, hsame]
    intro q hq
    obtain ⟨pairing', hsel'⟩ := (mem_acceptedProducers hchosen).mp ((haccepted q).mp hq)
    by_contra hother
    obtain ⟨p', hp', hother'⟩ := selects_remote hsel' hother pairing
    rw [hsel] at hp'
    cases hp'
    exact hother' hnode
  · rw [hchosen] at hsel
    cases hsel
    rw [remoteIntents_ne_nil hl, pathNodes, pathNodes, mem_cons, mem_cons, mem_map, mem_map]
    simp only [haccepted]

end

end Emission

/-! ### Plans -/

def PlanInput.counts (i : PlanInput) (a : VPCAttachment) : Bool :=
  i.selectsConsumer a ∧ a.deletionTimestamp.isNone ∧ i.ready a.key

/-- What the loop of a plan has computed after the attachments `seen`. -/
structure Planned (i : PlanInput) (seen : List VPCAttachment) (st : PlanState) : Prop where
  serves : ∀ a ∈ seen, i.counts a = true → ∃ serving, servingProducers i.endpoint a i.producers i.health = .ok serving
  nodes : ∀ n, n ∈ st.nodes ↔ ∃ a ∈ seen, i.counts a = true ∧
    ∃ serving, servingProducers i.endpoint a i.producers i.health = .ok serving ∧ n ∈ pathNodes a serving

section Plan
variable {i : PlanInput} {st st' : PlanState} {a : VPCAttachment} {seen : List VPCAttachment}

theorem planStep_eq_ok (h : planStep i st a = .ok st') : (i.counts a = false ∧ st'.nodes = st.nodes) ∨
      (i.counts a ∧ ∃ serving, servingProducers i.endpoint a i.producers i.health = .ok serving ∧
        st'.nodes = pathNodes a serving ++ st.nodes) := by
  unfold planStep at h
  unfold PlanInput.counts
  by_cases hsel : i.selectsConsumer a
  · rw [hsel, if_neg (by simp)] at h
    dsimp only at h
    by_cases hskip : a.deletionTimestamp.isSome ∨ !i.ready a.key
    · rw [if_pos hskip] at h
      cases h
      refine .inl ⟨?_, rfl⟩
      rcases hskip with hskip | hskip
      · simp [Option.isSome_iff_ne_none.mp hskip]
      · simp [show i.ready a.key = false by simpa using hskip]
    rw [if_neg hskip] at h
    obtain ⟨serving, hserving, h⟩ := bind_eq_ok.mp h
    by_cases huid : i.policy.spec.frontend.isSome ∧ serving.any fun p => a.uid = "" ∨ p.uid = ""
    · rw [if_pos huid] at h
      cases h
    rw [if_neg huid] at h
    cases h
    refine .inr ⟨?_, serving, hserving, rfl⟩
    simpa [hsel] using hskip
  · rw [if_pos (by simpa using hsel)] at h
    cases h
    exact .inl ⟨by simp [hsel], rfl⟩

/-- **Step.** -/
theorem Planned.step (hp : Planned i seen st) (h : planStep i st a = .ok st') : Planned i (seen ++ [a]) st' := by
  rcases planStep_eq_ok h with ⟨hcounts, hnodes⟩ | ⟨hcounts, serving, hserving, hnodes⟩
  · have hnot : i.counts a ≠ true := by simp [hcounts]
    refine ⟨forall_mem_append.mpr ⟨hp.serves, forall_mem_singleton.mpr fun h => absurd h hnot⟩, fun n => ?_⟩
    rw [hnodes, hp.nodes]
    simp [or_and_right, exists_or, hcounts]
  refine ⟨forall_mem_append.mpr ⟨hp.serves, forall_mem_singleton.mpr fun _ => ⟨serving, hserving⟩⟩, fun n => ?_⟩
  rw [hnodes, mem_append, hp.nodes]
  simp [or_and_right, exists_or, hcounts, hserving, or_comm]

end Plan

/-! ### Ready attachments -/

section Ready
variable {α κ : Type} [DecidableEq κ] {key : α → κ} {value : α → Bool}

theorem foldl_update_eq_true {as : List α} (hnodup : (as.map key).Nodup) {k : κ} :
    as.foldl (fun m a => update m (key a) (value a)) (fun _ => false) k ↔ ∃ a ∈ as, key a = k ∧ value a := by
  suffices hgen : ∀ m : κ → Bool, (∀ a ∈ as, m (key a) = false) →
      (as.foldl (fun m a => update m (key a) (value a)) m k ↔ m k ∨ ∃ a ∈ as, key a = k ∧ value a) by
    rw [hgen _ fun _ _ => rfl]
    simp
  induction as with
  | nil => simp
  | cons a as ih =>
    intro m hm
    rw [map_cons, nodup_cons] at hnodup
    have hfresh : ∀ b ∈ as, key b ≠ key a := fun b hb heq => hnodup.1 (heq ▸ mem_map_of_mem hb)
    rw [foldl_cons, ih hnodup.2]
    · by_cases hk : key a = k
      · subst hk
        rw [update_self]
        simp only [mem_cons, exists_eq_or_imp, true_and, hm a mem_cons_self, Bool.false_eq_true, false_or]
      · rw [update_of_ne (Ne.symm hk)]
        simp only [mem_cons, exists_eq_or_imp, hk, false_and, false_or]
    · intro b hb
      rw [update_of_ne (hfresh b hb)]
      exact hm b (mem_cons_of_mem _ hb)

end Ready

section
variable {attachments : List (Option VPCAttachment)} {a : VPCAttachment}

theorem mem_readyAttachments : a ∈ readyAttachments attachments ↔ some a ∈ attachments ∧ ready a := by
  rw [readyAttachments, sortByName, (perm_insertionSort _ _).mem_iff, mem_filter, reduceOption_mem_iff]

theorem mem_sortedAttachments : a ∈ sortedAttachments attachments ↔ some a ∈ attachments := by
  rw [sortedAttachments, sortByName, (perm_insertionSort _ _).mem_iff, reduceOption_mem_iff]

theorem readyMap_eq_true (attachments : Attachments) {k : NamespacedName} :
    readyMap attachments.items k ↔
      ∃ a ∈ readyAttachments attachments.items, a.key = k ∧ a.status.hostInterface ≠ "" := by
  rw [readyMap, foldl_update_eq_true attachments.ready_nodup]
  simp

end

/-! ### Plan and compilation -/

structure PlanPrepared (ext : External) (policy : ServiceRoutePolicy) (endpoint : ServiceEndpoint)
    (attachments : List (Option VPCAttachment)) (identity : String) (now : Time) (i : PlanInput) : Prop where
  policy_eq : i.policy = policy
  endpoint_eq : i.endpoint = endpoint
  identity_eq : i.identity = identity
  selects : ext.labelSelectorAsSelector policy.spec.attachmentSelector = .ok i.selects
  producers : producerCandidates ext endpoint attachments = .ok i.producers
  health : i.health = producersHealth endpoint i.producers now
  ready : i.ready = readyMap attachments

section
variable {attachments : List (Option VPCAttachment)} {identity : String} {now : Time} {i : PlanInput}

theorem planInput_eq_ok {policy : ServiceRoutePolicy} {endpoint : ServiceEndpoint}
    (h : planInput ext policy endpoint attachments identity now = .ok i) :
    PlanPrepared ext policy endpoint attachments identity now i := by
  unfold planInput at h
  split_ifs at h
  · cases h
  obtain ⟨selects, hselects, h⟩ := bind_eq_ok.mp h
  obtain ⟨producers, hproducers, h⟩ := bind_eq_ok.mp h
  obtain ⟨-, -, h⟩ := bind_eq_ok.mp h
  cases h
  exact ⟨rfl, rfl, rfl, mapError_eq_ok hselects, hproducers, rfl, rfl⟩

theorem programmingPlanAt_eq_ok {policy : Option ServiceRoutePolicy} {endpoint : Option ServiceEndpoint}
    {plan : ProgrammingRequirements} (h : programmingPlanAt ext policy endpoint attachments identity now = .ok plan) :
    ∃ pol ep i st, policy = some pol ∧ endpoint = some ep ∧ planInput ext pol ep attachments identity now = .ok i ∧
    Planned i (sortedAttachments attachments) st ∧ ∀ n, n ∈ plan.nodes ↔ n ∈ st.nodes := by
  unfold programmingPlanAt at h
  split at h
  · next pol ep =>
    obtain ⟨i, hi, h⟩ := bind_eq_ok.mp h
    obtain ⟨st, hst, h⟩ := bind_eq_ok.mp h
    by_cases hnone : st.selected = 0
    · split_ifs at h
    rw [if_neg fun hboth => hnone hboth.1, if_neg hnone] at h
    obtain ⟨digest, -, h⟩ := bind_eq_ok.mp h
    cases h
    refine ⟨pol, ep, i, st, rfl, rfl, hi, ?_, fun n => ?_⟩
    · exact foldlM_invariant hst ⟨fun a ha => absurd ha (by simp), fun n => by simp⟩
        fun seen a st st' _ hp hstep => hp.step hstep
    · rw [(perm_insertionSort _ _).mem_iff, mem_dedup]
  · cases h

theorem counts_iff (attachments : Attachments) {r : Route} (hpolicy : r.policy = i.policy)
    (hselects : r.selects = i.selects) (hready : i.ready = readyMap attachments.items) {a : VPCAttachment} :
    (a ∈ sortedAttachments attachments.items ∧ i.counts a) ↔
      a ∈ readyAttachments attachments.items ∧ r.skips i.identity a = false := by
  rw [mem_sortedAttachments, PlanInput.counts, PlanInput.selectsConsumer, Route.skips, hpolicy, hselects, hready]
  constructor
  · rintro ⟨hmem, hcounts⟩
    simp only [Bool.decide_and, Bool.decide_eq_true, Bool.and_eq_true] at hcounts
    obtain ⟨⟨hlabels, hvpc⟩, -, hmap⟩ := hcounts
    -- the ready attachment of that name is the attachment itself
    obtain ⟨b, hb, hkey, hdevice⟩ := (readyMap_eq_true attachments).mp hmap
    obtain rfl := attachments.eq_of_key (mem_items_of_ready hb) hmem hkey
    exact ⟨hb, by simp [hdevice, hlabels, hvpc]⟩
  rintro ⟨hmem, hskip⟩
  simp only [decide_eq_false_iff_not, not_or, Bool.not_eq_true', Bool.not_eq_false] at hskip
  obtain ⟨hdevice, hlabels, hvpc⟩ := hskip
  have hdeleted : a.deletionTimestamp = none := by
    have hall := (mem_readyAttachments.mp hmem).2
    simp only [ready, decide_eq_true_eq] at hall
    exact Option.isNone_iff_eq_none.mp hall.1
  have hmap := (readyMap_eq_true attachments).mpr ⟨a, hmem, rfl, hdevice⟩
  exact ⟨mem_items_of_ready hmem, by simp [hlabels, hvpc, hdeleted, hmap]⟩

end

/-- **Coverage.** A node is named by a plan exactly if the policy compiles to an intent there. -/
theorem mem_plan_nodes_iff {policy : Option ServiceRoutePolicy} {endpoint : Option ServiceEndpoint}
    {attachments : Attachments} {identity : String} {now : Time} {plan : ProgrammingRequirements} {node : String}
    {resolveSID : SIDResolver} {pairing : String} {intents : List RouteIntent}
    (hplan : programmingPlanAt ext policy endpoint attachments.items identity now = .ok plan)
    (hcompile : compileWithOptions ext policy endpoint attachments.items node resolveSID ⟨identity, pairing⟩ now =
      .ok intents) : node ∈ plan.nodes ↔ intents ≠ [] := by
  obtain ⟨pairing', -, hcompile⟩ := bind_eq_ok.mp hcompile
  obtain ⟨pol, ep, r, emitted, rfl, rfl, hr, hcollect, hperm⟩ := compile_eq_ok hcompile
  obtain ⟨pol', ep', i, st, hpol, hep, hi, hplanned, hnodes⟩ := programmingPlanAt_eq_ok hplan
  cases hpol
  cases hep
  have hroute := prepare_eq_ok hr
  have hinput := planInput_eq_ok hi
  have hselects : r.selects = i.selects := Except.ok.inj (hroute.selects.symm.trans hinput.selects)
  have hproducers : i.producers = r.producers := Except.ok.inj (hinput.producers.symm.trans hroute.producers)
  have hconsumer : ∀ a, (a ∈ sortedAttachments attachments.items ∧ i.counts a) ↔
      a ∈ readyAttachments attachments.items ∧ r.skips identity a = false := by
    intro a
    rw [← hinput.identity_eq]
    exact counts_iff attachments (hroute.policy_eq.trans hinput.policy_eq.symm) hselects hinput.ready
  have hserving : ∀ a, servingProducers i.endpoint a i.producers i.health =
      servingProducers r.endpoint a r.producers r.health := by
    intro a
    rw [hinput.endpoint_eq, hroute.endpoint_eq, hinput.health, hroute.health, hproducers]
  rw [hnodes, hplanned.nodes]
  constructor
  · rintro ⟨a, ha, hcounts, serving, hok, hnode⟩
    obtain ⟨hready, hskip⟩ := (hconsumer a).mp ⟨ha, hcounts⟩
    obtain ⟨l, hl, hsub⟩ := collect_elem hcollect hready
    rw [hserving] at hok
    have hne := ((consumerIntents_eq_ok hl).ne_nil_iff hskip hok).mpr hnode
    obtain ⟨x, hx⟩ := exists_mem_of_ne_nil _ hne
    exact ne_nil_of_mem (hperm.mem_iff.mpr (mem_map_of_mem (hsub x hx)))
  intro hne
  obtain ⟨x, hx⟩ := exists_mem_of_ne_nil _ hne
  obtain ⟨x', hx', -⟩ := mem_map.mp (hperm.mem_iff.mp hx)
  obtain ⟨a, hready, l, hl, hxl⟩ := mem_collect hcollect hx'
  have hemitted := consumerIntents_eq_ok hl
  have hlne : l ≠ [] := ne_nil_of_mem hxl
  have hskip := hemitted.not_skipped hlne
  obtain ⟨ha, hcounts⟩ := (hconsumer a).mpr ⟨hready, hskip⟩
  obtain ⟨serving, hok⟩ := hplanned.serves a ha hcounts
  refine ⟨a, ha, hcounts, serving, hok, ?_⟩
  rw [hserving] at hok
  exact (hemitted.ne_nil_iff hskip hok).mp hlne

def planDNS : Except PlanError ProgrammingRequirements :=
  programmingPlanAt plainExternal (some dnsPolicy) (some dnsEndpoint) twoNodes.items "" 0

/-- The nodes of the plan, and what they compile under different pairings. -/
theorem mem_plan_nodes_iff_twoNodes : ∃ plan out₁ out₂ out₃, planDNS = .ok plan ∧
    compileDNS "n1" .rendezvous = .ok out₁ ∧ compileDNS "n2" .first = .ok out₂ ∧ compileDNS "n3" .first = .ok out₃ ∧
    ("n1" ∈ plan.nodes ∧ out₁ ≠ []) ∧ ("n2" ∈ plan.nodes ∧ out₂ ≠ []) ∧ "n3" ∉ plan.nodes ∧ out₃ = [] := by
  obtain ⟨plan, hplan, hmem₁, hmem₂⟩ := exists_ok (x := planDNS)
    (p := fun plan => "n1" ∈ plan.nodes ∧ "n2" ∈ plan.nodes) (by decide +kernel)
  obtain ⟨out₁, h₁, -⟩ := exists_ok (x := compileDNS "n1" .rendezvous) (p := fun _ => True) (by decide +kernel)
  obtain ⟨out₂, h₂, -⟩ := exists_ok (x := compileDNS "n2" .first) (p := fun _ => True) (by decide +kernel)
  have h₃ : compileDNS "n3" .first = .ok [] := by decide +kernel
  refine ⟨_, _, _, _, hplan, h₁, h₂, h₃, ⟨hmem₁, ?_⟩, ⟨hmem₂, ?_⟩, ?_, rfl⟩
  · exact (mem_plan_nodes_iff hplan h₁).mp hmem₁
  · exact (mem_plan_nodes_iff hplan h₂).mp hmem₂
  · intro hmem
    exact (mem_plan_nodes_iff hplan h₃).mp hmem rfl

end

end Galactic.ServicePlan
