import Galactic.ServicePlan.Compile

/-!
# What the nodes agree on

Which producer a consumer is sent to depends on the pairing of its node, but not whether it is sent to one, nor whether
the consumer keeps the producers of its own node. -/

namespace Galactic.ServicePlan
open List Prod

/-! ### Picks -/

section Picks
variable {consumer : VPCAttachment} {producers : List VPCAttachment} {includes : VPCAttachment → Bool}

theorem rendezvousLoop_cons (best : Option (VPCAttachment × UInt64)) (q : VPCAttachment) (l : List VPCAttachment) :
    rendezvousLoop consumer includes best (q :: l) = rendezvousLoop consumer includes
      (if includes q ∧ ∀ b ∈ best, b.2 < rendezvousScore consumer q then some (q, rendezvousScore consumer q) else best)
      l := by
  rw [rendezvousLoop.eq_def]
  cases hq : includes q <;> cases best <;> simp [hq]
  split_ifs <;> rfl

theorem rendezvousLoop_cases (best : Option (VPCAttachment × UInt64)) :
    (rendezvousLoop consumer includes best producers = none ∧ best = none ∧ ∀ p ∈ producers, includes p = false) ∨
      ∃ p, rendezvousLoop consumer includes best producers = some p ∧
        ((∃ score, best = some (p, score)) ∨ p ∈ producers ∧ includes p) := by
  induction producers generalizing best with
  | nil =>
    cases best with
    | none => exact .inl ⟨rfl, rfl, fun p hp => nomatch hp⟩
    | some b => exact .inr ⟨b.1, rfl, .inl ⟨b.2, rfl⟩⟩
  | cons q rest ih =>
    rw [rendezvousLoop_cons]
    split_ifs with hq
    · rcases ih (some (q, _)) with ⟨-, hbest, -⟩ | ⟨p, hp, ⟨_, hbest⟩ | hmem⟩
      · cases hbest
      · cases hbest
        exact .inr ⟨q, hp, .inr ⟨mem_cons_self, hq.1⟩⟩
      · exact .inr ⟨p, hp, .inr ⟨mem_cons_of_mem _ hmem.1, hmem.2⟩⟩
    · rcases ih best with ⟨hnone, rfl, hall⟩ | ⟨p, hp, hcase⟩
      · exact .inl ⟨hnone, rfl, forall_mem_cons.mpr ⟨by simpa using hq, hall⟩⟩
      · exact .inr ⟨p, hp, hcase.imp_right fun h => ⟨mem_cons_of_mem _ h.1, h.2⟩⟩

theorem pick_cases (pairing : SpreadPairing) :
    (pairing.pick consumer producers includes = none ∧ ∀ p ∈ producers, includes p = false) ∨
      ∃ p, pairing.pick consumer producers includes = some p ∧ p ∈ producers ∧ includes p := by
  cases pairing with
  | first =>
    change (firstProducer producers includes = none ∧ _) ∨ _
    unfold firstProducer
    cases hfind : producers.find? includes with
    | none => exact .inl ⟨rfl, fun p hp => by simpa using find?_eq_none.mp hfind p hp⟩
    | some p => exact .inr ⟨p, hfind, mem_of_find?_eq_some hfind, find?_some hfind⟩
  | rendezvous =>
    rcases rendezvousLoop_cases none with ⟨hnone, -, hall⟩ | ⟨p, hp, ⟨_, hbest⟩ | hmem⟩
    · exact .inl ⟨hnone, hall⟩
    · cases hbest
    · exact .inr ⟨p, hp, hmem⟩

end Picks

/-! ### Remote producers -/

section Remote
variable {endpoint : ServiceEndpoint} {consumer : VPCAttachment} {producers : List VPCAttachment} {health : Health}

theorem spreadRemoteProducer_cases (consumer : VPCAttachment) (producers : List VPCAttachment) (health : Health)
    (pairing : SpreadPairing) : (spreadRemoteProducer consumer producers health pairing = none ∧
      ∀ p ∈ producers, p.status.node = consumer.status.node) ∨
    ∃ p, spreadRemoteProducer consumer producers health pairing = some p ∧ p ∈ producers ∧
      p.status.node ≠ consumer.status.node := by
  have hremote : ∀ p, p ∈ producers.filter (fun p => p.status.node ≠ consumer.status.node) →
      p ∈ producers ∧ p.status.node ≠ consumer.status.node := by
    intro p hp
    simpa using hp
  unfold spreadRemoteProducer
  dsimp only
  rcases pick_cases pairing with ⟨hnone, -⟩ | ⟨p, hp, hmem, -⟩
  · rw [hnone]
    dsimp only
    rcases pick_cases pairing with ⟨hnone', -⟩ | ⟨p, hp, hmem, -⟩
    · rw [hnone']
      dsimp only
      rcases pick_cases pairing with ⟨hnone'', hall⟩ | ⟨p, hp, hmem, -⟩
      · refine .inl ⟨hnone'', fun p hp => ?_⟩
        by_contra hne
        exact absurd (hall p (by simpa using ⟨hp, hne⟩)) (by simp)
      · exact .inr ⟨p, hp, hremote p hmem⟩
    · rw [hp]
      exact .inr ⟨p, rfl, hremote p hmem⟩
  · rw [hp]
    exact .inr ⟨p, rfl, hremote p hmem⟩

theorem mem_addPicks {p : VPCAttachment} {accepted : List VPCAttachment} {pairings : List SpreadPairing} :
    p ∈ addPicks consumer producers health accepted pairings ↔
      p ∈ accepted ∨ ∃ pairing ∈ pairings, spreadRemoteProducer consumer producers health pairing = some p := by
  induction pairings generalizing accepted with
  | nil => simp [addPicks]
  | cons pairing rest ih =>
    unfold addPicks
    cases hpick : spreadRemoteProducer consumer producers health pairing with
    | none => simp [ih, hpick]
    | some q =>
      dsimp only
      split_ifs with hq
      · simp only [ih, mem_cons, exists_eq_or_imp, hpick, Option.some.injEq]
        constructor
        · exact Or.imp_right .inr
        · rintro (h | rfl | h)
          · exact .inl h
          · exact .inl hq
          · exact .inr h
      · rw [ih, mem_append, mem_singleton, or_assoc]
        simp only [mem_cons, exists_eq_or_imp, hpick, Option.some.injEq, eq_comm (a := q)]

/-- The choice for a consumer: the pairing only matters if the endpoint spreads and the consumer leaves its node. -/
inductive Choice (endpoint : ServiceEndpoint) (consumer : VPCAttachment) (producers : List VPCAttachment)
    (health : Health) : Prop
  | onNode (onNode : List VPCAttachment) (hne : onNode ≠ [])
      (hnode : ∀ p ∈ onNode, p.status.node = consumer.status.node)
      (hall : ∀ pairing, selectProducers endpoint consumer producers health pairing = (onNode, none))
  | nowhere (hall : ∀ pairing, selectProducers endpoint consumer producers health pairing = ([], none))
  | remote (hspread : spread endpoint = true)
      (hall : ∀ pairing, ∃ p, p.status.node ≠ consumer.status.node ∧
        spreadRemoteProducer consumer producers health pairing = some p ∧
        selectProducers endpoint consumer producers health pairing = ([], some p))
  | single (hspread : spread endpoint = false) (p : VPCAttachment)
      (hall : ∀ pairing, selectProducers endpoint consumer producers health pairing = ([], some p))

theorem choice (endpoint : ServiceEndpoint) (consumer : VPCAttachment) (producers : List VPCAttachment)
    (health : Health) : Choice endpoint consumer producers health := by
  cases hspread : spread endpoint with
  | false =>
    have hsel : ∀ pairing, selectProducers endpoint consumer producers health pairing =
        ([], chooseProducer endpoint.spec.deliveryMode consumer.status.node producers) := by
      intro pairing
      rw [selectProducers, hspread]
      rfl
    cases hchoose : chooseProducer endpoint.spec.deliveryMode consumer.status.node producers with
    | none => exact .nowhere fun pairing => by rw [hsel, hchoose]
    | some p => exact .single hspread p fun pairing => by rw [hsel, hchoose]
  | true =>
    set onNode := producers.filter fun p => p.status.node = consumer.status.node
    have hnode : ∀ p ∈ onNode, p.status.node = consumer.status.node := by
      intro p hp
      simpa using (mem_filter.mp hp).2
    -- the branch that `selectProducers` takes is the same under every pairing
    by_cases hmode : endpoint.spec.deliveryMode ≠ .preferNodeLocal
    · have hsel : ∀ pairing, selectProducers endpoint consumer producers health pairing = (onNode, none) := by
        intro pairing
        rw [selectProducers, if_pos hspread, if_pos hmode]
      by_cases hempty : onNode = []
      · exact .nowhere fun pairing => by rw [hsel, hempty]
      · exact .onNode _ hempty hnode hsel
    by_cases hstay : onNode ≠ [] ∧
        (!(producers.any fun p => p.status.node ≠ consumer.status.node ∧ (health p.uid).eligible) ∨
          !localUnusable onNode health)
    · refine .onNode _ hstay.1 hnode fun pairing => ?_
      rw [selectProducers, if_pos hspread, if_neg hmode, if_pos hstay]
    have hsel : ∀ pairing, selectProducers endpoint consumer producers health pairing =
        ([], spreadRemoteProducer consumer producers health pairing) := by
      intro pairing
      rw [selectProducers, if_pos hspread, if_neg hmode, if_neg hstay]
    by_cases hall : ∀ p ∈ producers, p.status.node = consumer.status.node
    · refine .nowhere fun pairing => ?_
      rcases spreadRemoteProducer_cases consumer producers health pairing with ⟨hnone, -⟩ | ⟨p, -, hmem, hne⟩
      · rw [hsel, hnone]
      · exact absurd (hall p hmem) hne
    refine .remote hspread fun pairing => ?_
    rcases spreadRemoteProducer_cases consumer producers health pairing with ⟨-, hall'⟩ | ⟨p, hp, -, hne⟩
    · exact absurd hall' hall
    · exact ⟨p, hne, hp, by rw [hsel, hp]⟩

/-- **Accepted producers.** Whatever the pairing of the node that computes them, they are the producers that some
pairing sends the consumer to. -/
theorem mem_acceptedProducers {pairing : SpreadPairing} {chosen : VPCAttachment}
    (hchosen : selectProducers endpoint consumer producers health pairing = ([], some chosen)) {p : VPCAttachment} :
    p ∈ acceptedProducers endpoint consumer producers health chosen ↔
      ∃ pairing', selectProducers endpoint consumer producers health pairing' = ([], some p) := by
  rcases choice endpoint consumer producers health with ⟨onNode, hne, -, hall⟩ | hall | ⟨hspread, hall⟩ |
    ⟨hspread, q, hall⟩
  · rw [hall] at hchosen
    exact absurd (mk.inj hchosen).1 hne
  · rw [hall] at hchosen
    cases (mk.inj hchosen).2
  · have hpick : ∀ pairing' q, selectProducers endpoint consumer producers health pairing' = ([], some q) ↔
        spreadRemoteProducer consumer producers health pairing' = some q := by
      intro pairing' q
      obtain ⟨q', -, hremote, hsel⟩ := hall pairing'
      rw [hremote, hsel]
      simp
    have hevery : ∀ pairing' : SpreadPairing, pairing' ∈ spreadPairings := by
      intro pairing'
      cases pairing' <;> decide
    rw [acceptedProducers, hspread, if_neg (by simp), mem_addPicks, mem_singleton]
    constructor
    · rintro (rfl | ⟨pairing', -, h⟩)
      · exact ⟨pairing, hchosen⟩
      · exact ⟨pairing', (hpick _ _).mpr h⟩
    · rintro ⟨pairing', h⟩
      exact .inr ⟨pairing', hevery pairing', (hpick _ _).mp h⟩
  · rw [hall] at hchosen
    obtain rfl : q = chosen := Option.some.inj (mk.inj hchosen).2
    rw [acceptedProducers, hspread, if_pos (by simp), mem_singleton]
    constructor
    · rintro rfl
      exact ⟨pairing, hall pairing⟩
    · rintro ⟨pairing', h⟩
      rw [hall] at h
      exact (Option.some.inj (mk.inj h).2).symm

theorem selects_remote {pairing : SpreadPairing} {chosen : VPCAttachment}
    (hchosen : selectProducers endpoint consumer producers health pairing = ([], some chosen))
    (hne : chosen.status.node ≠ consumer.status.node) (pairing' : SpreadPairing) :
    ∃ p, selectProducers endpoint consumer producers health pairing' = ([], some p) ∧
      p.status.node ≠ consumer.status.node := by
  rcases choice endpoint consumer producers health with ⟨onNode, hnil, -, hall⟩ | hall | ⟨-, hall⟩ | ⟨-, q, hall⟩
  · rw [hall] at hchosen
    exact absurd (mk.inj hchosen).1 hnil
  · rw [hall] at hchosen
    cases (mk.inj hchosen).2
  · obtain ⟨p, hp, -, hsel⟩ := hall pairing'
    exact ⟨p, hsel, hp⟩
  · rw [hall] at hchosen
    obtain rfl : q = chosen := Option.some.inj (mk.inj hchosen).2
    exact ⟨q, hall pairing', hne⟩

end Remote

end Galactic.ServicePlan
