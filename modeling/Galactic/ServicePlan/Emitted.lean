import Galactic.ServicePlan.Selection

/-!
# Which intents a node emits

What `compile` emits for one consumer is read off the choice of its producers; a node emits the union over them. -/

namespace Galactic.ServicePlan

open Net (IP IPNet)
open FallibleLoop List

section
variable {ext : External}

/-! ### Halves of remote paths -/

section Halves
variable {r : Route} {consumer producer : VPCAttachment} {localNode : String}
  {resolve : VPCAttachment → Except String IP} {l : List RouteIntent}

theorem consumerHalf_eq_ok {g : ServiceGrantID} (h : consumerHalf r consumer producer localNode g resolve = .ok l) :
    (consumer.status.node = localNode ∧ ∃ sid, l = [consumerHalfIntent r consumer producer g sid]) ∨
      (consumer.status.node ≠ localNode ∧ l = []) := by
  unfold consumerHalf at h
  split_ifs at h with hnode
  · exact .inr ⟨hnode, (Except.ok.inj h).symm⟩
  · obtain ⟨sid, -, h⟩ := bind_eq_ok.mp h
    exact .inl ⟨not_not.mp hnode, sid, (Except.ok.inj h).symm⟩

theorem producerHalf_eq_ok (h : producerHalf r consumer localNode resolve producer = .ok l) :
    (producer.status.node = localNode ∧ ∃ g sid, serviceGrantID r.policy r.endpoint consumer producer r.ports = .ok g ∧
      l = [producerHalfIntent r consumer producer g sid]) ∨ (producer.status.node ≠ localNode ∧ l = []) := by
  unfold producerHalf at h
  split_ifs at h with hnode
  · exact .inr ⟨hnode, (Except.ok.inj h).symm⟩
  · obtain ⟨g, hg, h⟩ := bind_eq_ok.mp h
    obtain ⟨sid, -, h⟩ := bind_eq_ok.mp h
    exact .inl ⟨not_not.mp hnode, g, sid, hg, (Except.ok.inj h).symm⟩

theorem remoteIntents_eq_ok {resolveSID : SIDResolver}
    (h : remoteIntents r consumer producer localNode resolveSID = .ok l) :
    ∃ resolve g own halves, serviceGrantID r.policy r.endpoint consumer producer r.ports = .ok g ∧
      consumerHalf r consumer producer localNode g resolve = .ok own ∧
      producerHalves r consumer (acceptedProducers r.endpoint consumer r.producers r.health producer) localNode
        resolve = .ok halves ∧ l = own ++ halves := by
  unfold remoteIntents at h
  cases resolveSID with
  | none => cases h
  | some resolve =>
    obtain ⟨g, hg, h⟩ := bind_eq_ok.mp h
    obtain ⟨own, hown, h⟩ := bind_eq_ok.mp h
    obtain ⟨halves, hhalves, h⟩ := bind_eq_ok.mp h
    exact ⟨resolve, g, own, halves, hg, hown, hhalves, (Except.ok.inj h).symm⟩

end Halves

/-! ### One consumer -/

/-- What the loop of `compile` emits for one consumer, by the choice of its producers. -/
inductive Emitted (r : Route) (localNode identity : String) (resolveSID : SIDResolver)
    (pairing : SpreadPairing) (consumer : VPCAttachment) (l : List RouteIntent) : Prop
  | skipped (hskip : r.skips identity consumer = true) (hl : l = [])
  | nowhere (hsel : selectProducers r.endpoint consumer r.producers r.health pairing = ([], none)) (hl : l = [])
  | onNode (hskip : r.skips identity consumer = false) (onNode : List VPCAttachment) (hne : onNode ≠ [])
      (hsel : (selectProducers r.endpoint consumer r.producers r.health pairing).1 = onNode)
      (hl : l = if consumer.status.node = localNode then [localSetIntent r consumer onNode] else [])
  | sameNode (hskip : r.skips identity consumer = false) (producer : VPCAttachment)
      (hsel : selectProducers r.endpoint consumer r.producers r.health pairing = ([], some producer))
      (hnode : producer.status.node = consumer.status.node)
      (hl : l = if consumer.status.node = localNode then [localIntent r consumer producer] else [])
  | remote (hskip : r.skips identity consumer = false) (producer : VPCAttachment)
      (hsel : selectProducers r.endpoint consumer r.producers r.health pairing = ([], some producer))
      (hnode : producer.status.node ≠ consumer.status.node)
      (hl : remoteIntents r consumer producer localNode resolveSID = .ok l)

section Consumer
variable {r : Route} {consumer : VPCAttachment} {localNode identity : String} {resolveSID : SIDResolver}
  {pairing : SpreadPairing} {l : List RouteIntent}

theorem consumerIntents_eq_ok (h : consumerIntents r localNode resolveSID identity pairing consumer = .ok l) :
    Emitted r localNode identity resolveSID pairing consumer l := by
  unfold consumerIntents at h
  split at h
  · next hskip => exact .skipped hskip (Except.ok.inj h).symm
  next hskip =>
  replace hskip : r.skips identity consumer = false := by simpa using hskip
  split at h
  · next hsel => exact .nowhere hsel (Except.ok.inj h).symm
  · next producer hsel =>
    split at h
    · next hsame => exact .sameNode hskip producer hsel hsame (Except.ok.inj h).symm
    · next hsame => exact .remote hskip producer hsel hsame h
  next onNode producer? hnone hsome hsel =>
  refine .onNode hskip onNode ?_ (by rw [hsel]) (Except.ok.inj h).symm
  rintro rfl
  cases producer? with
  | none => exact hnone rfl rfl
  | some producer => exact hsome producer rfl rfl

section
variable (h : Emitted r localNode identity resolveSID pairing consumer l) {i : RouteIntent}

include h

/-- A consumer's half goes to the producer chosen; a producer's half belongs to a producer on the node that some
pairing sends the consumer to. -/
theorem Emitted.half (hi : i ∈ l) (hkind : i.kind = .remoteConsumer ∨ i.kind = .remoteProducer) :
    r.skips identity consumer = false ∧ ∃ chosen,
      selectProducers r.endpoint consumer r.producers r.health pairing = ([], some chosen) ∧
      chosen.status.node ≠ consumer.status.node ∧
      ((∃ g sid, serviceGrantID r.policy r.endpoint consumer chosen r.ports = .ok g ∧
        i = consumerHalfIntent r consumer chosen g sid) ∨ ∃ producer g sid pairing',
        selectProducers r.endpoint consumer r.producers r.health pairing' = ([], some producer) ∧
        producer.status.node = localNode ∧ i = producerHalfIntent r consumer producer g sid) := by
  rcases h with ⟨-, rfl⟩ | ⟨-, rfl⟩ | ⟨-, onNode, -, -, rfl⟩ | ⟨-, producer, -, -, rfl⟩ |
      ⟨hskip, chosen, hsel, hnode, hl⟩
  · cases hi
  · cases hi
  · split_ifs at hi
    · rw [mem_singleton.mp hi] at hkind
      simp [localSetIntent] at hkind
    · cases hi
  · split_ifs at hi
    · rw [mem_singleton.mp hi] at hkind
      simp [localIntent] at hkind
    · cases hi
  obtain ⟨resolve, g, own, halves, hg, hown, hhalves, rfl⟩ := remoteIntents_eq_ok hl
  refine ⟨hskip, chosen, hsel, hnode, ?_⟩
  rcases mem_append.mp hi with hi | hi
  · rcases consumerHalf_eq_ok hown with ⟨-, sid, rfl⟩ | ⟨-, rfl⟩
    · exact .inl ⟨g, sid, hg, mem_singleton.mp hi⟩
    · cases hi
  obtain ⟨producer, hacc, ys, hys, hmem⟩ := mem_collect hhalves hi
  obtain ⟨pairing', hsel'⟩ := (mem_acceptedProducers hsel).mp hacc
  rcases producerHalf_eq_ok hys with ⟨hlocal, g', sid, -, rfl⟩ | ⟨-, rfl⟩
  · exact .inr ⟨producer, g', sid, pairing', hsel', hlocal, mem_singleton.mp hmem⟩
  · cases hmem

theorem Emitted.half_mem
    (hskip : r.skips identity consumer = false) {pairing' : SpreadPairing} {producer : VPCAttachment}
    (hsel : selectProducers r.endpoint consumer r.producers r.health pairing' = ([], some producer))
    (hnode : producer.status.node ≠ consumer.status.node) (hlocal : producer.status.node = localNode) :
    ∃ g sid, serviceGrantID r.policy r.endpoint consumer producer r.ports = .ok g ∧
      producerHalfIntent r consumer producer g sid ∈ l := by
  obtain ⟨chosen, hchosen, hother⟩ := selects_remote hsel hnode pairing
  rcases h with ⟨hskip', -⟩ | ⟨hsel', -⟩ | ⟨-, onNode, hne, hsel', -⟩ | ⟨-, p, hsel', hsame, -⟩ | ⟨-, p, hsel', -, hl⟩
  · rw [hskip] at hskip'
    cases hskip'
  · rw [hchosen] at hsel'
    cases hsel'
  · rw [hchosen] at hsel'
    exact absurd hsel'.symm hne
  · rw [hchosen] at hsel'
    cases hsel'
    exact absurd hsame hother
  rw [hchosen] at hsel'
  cases hsel'
  obtain ⟨resolve, g, own, halves, -, -, hhalves, rfl⟩ := remoteIntents_eq_ok hl
  obtain ⟨ys, hys, hsub⟩ := collect_elem hhalves ((mem_acceptedProducers hchosen).mpr ⟨pairing', hsel⟩)
  rcases producerHalf_eq_ok hys with ⟨-, g', sid, hg', rfl⟩ | ⟨hne, -⟩
  · exact ⟨g', sid, hg', mem_append_right _ (hsub _ (mem_singleton_self _))⟩
  · exact absurd hlocal hne

end

end Consumer

/-! ### One node -/

/-- What `prepare` computes before the loop. -/
structure Prepared (ext : External) (policy : ServiceRoutePolicy) (endpoint : ServiceEndpoint)
    (attachments : List (Option VPCAttachment)) (now : Time) (r : Route) : Prop where
  policy_eq : r.policy = policy
  endpoint_eq : r.endpoint = endpoint
  selects : ext.labelSelectorAsSelector policy.spec.attachmentSelector = .ok r.selects
  producers : producerCandidates ext endpoint attachments = .ok r.producers
  health : r.health = producersHealth endpoint r.producers now

theorem mapError_eq_ok {α β ε : Type} {x : Except α β} {f : α → ε} {b : β} (h : x.mapError f = .ok b) : x = .ok b := by
  cases x with
  | error e => cases h
  | ok a => exact congrArg Except.ok (Except.ok.inj h)

theorem prepare_eq_ok {policy : ServiceRoutePolicy} {endpoint : ServiceEndpoint}
    {attachments : List (Option VPCAttachment)} {now : Time} {r : Route}
    (h : prepare ext policy endpoint attachments now = .ok r) : Prepared ext policy endpoint attachments now r := by
  unfold prepare at h
  split_ifs at h with hregion
  · cases h
  obtain ⟨selects, hselects, h⟩ := bind_eq_ok.mp h
  obtain ⟨service, -, h⟩ := bind_eq_ok.mp h
  obtain ⟨frontend, -, h⟩ := bind_eq_ok.mp h
  obtain ⟨ports, -, h⟩ := bind_eq_ok.mp h
  obtain ⟨producers, hproducers, h⟩ := bind_eq_ok.mp h
  obtain ⟨-, -, h⟩ := bind_eq_ok.mp h
  cases h
  exact ⟨rfl, rfl, mapError_eq_ok hselects, hproducers, rfl⟩

theorem authorize_eq (policy : ServiceRoutePolicy) (i : RouteIntent) :
    ∃ deadline, authorize policy i = { i with authorizationValidUntil := deadline } := by
  unfold authorize
  split
  · split_ifs
    · exact ⟨i.authorizationValidUntil, rfl⟩
    · exact ⟨_, rfl⟩
  · exact ⟨i.authorizationValidUntil, rfl⟩

section Node
variable {policy : Option ServiceRoutePolicy} {endpoint : Option ServiceEndpoint}
  {attachments : List (Option VPCAttachment)} {localNode identity : String} {resolveSID : SIDResolver}
  {pairing : SpreadPairing} {now : Time} {out : List RouteIntent}

theorem compile_eq_ok
    (h : compile ext policy endpoint attachments localNode resolveSID identity pairing now = .ok out) :
    ∃ pol ep r intents, policy = some pol ∧ endpoint = some ep ∧ prepare ext pol ep attachments now = .ok r ∧
    collect (consumerIntents r localNode resolveSID identity pairing) (readyAttachments attachments) = .ok intents ∧
    out.Perm (intents.map (authorize pol)) := by
  unfold compile at h
  split at h
  · next pol ep =>
    obtain ⟨r, hr, h⟩ := bind_eq_ok.mp h
    obtain ⟨intents, hintents, h⟩ := bind_eq_ok.mp h
    cases h
    exact ⟨pol, ep, r, intents, rfl, rfl, hr, hintents, perm_insertionSort _ _⟩
  · cases h

theorem compileWithOptions_eq_ok (h : compileWithOptions ext policy endpoint attachments localNode resolveSID ⟨identity,
      pairing.text⟩ now = .ok out) :
    compile ext policy endpoint attachments localNode resolveSID identity pairing now = .ok out := by
  obtain ⟨pairing', hpairing, h⟩ := bind_eq_ok.mp h
  have hparse : parseSpreadPairing pairing.text = .ok pairing := by cases pairing <;> rfl
  rw [hparse] at hpairing
  cases hpairing
  exact h

end Node

end

end Galactic.ServicePlan
