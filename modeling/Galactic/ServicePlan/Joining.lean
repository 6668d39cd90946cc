import Galactic.ServicePlan.Agreement

/-!
# A producer that joins

A producer that joins takes consumers over and moves no others among the remote producers, whatever the pairing. -/

namespace Galactic.ServicePlan
open List

/-- The pick after the producer `p` has joined is the one before, or `p`. -/
def Gains (p : VPCAttachment) (after before : Option VPCAttachment) : Prop := after = before ∨ after = some p

theorem Gains.orElse {p : VPCAttachment} {after before rest rest' : Option VPCAttachment} :
    Gains p after before → Gains p rest rest' →
      Gains p (match after with | some q => some q | none => rest)
        (match before with | some q => some q | none => rest') := by
  rintro (rfl | rfl) hrest
  · cases after with
    | none => exact hrest
    | some q => exact .inl rfl
  · exact .inr rfl

section Insert
variable {endpoint : ServiceEndpoint} {consumer p : VPCAttachment} {l₁ l₂ : List VPCAttachment} {health : Health}
  {includes : VPCAttachment → Bool} (pairing : SpreadPairing)

/-- A producer that is ahead of the best so far stays the best, or gives way to one that would be the best anyway. -/
theorem rendezvousLoop_best {score : UInt64} {best : Option (VPCAttachment × UInt64)} (hbest : ∀ b ∈ best, b.2 ≤ score)
    (l : List VPCAttachment) :
    Gains p (rendezvousLoop consumer includes (some (p, score)) l) (rendezvousLoop consumer includes best l) := by
  induction l generalizing best with
  | nil => exact .inr rfl
  | cons q l ih =>
    rw [rendezvousLoop_cons, rendezvousLoop_cons]
    by_cases hq : includes q ∧ score < rendezvousScore consumer q
    · have hq' : ∀ b ∈ best, b.2 < rendezvousScore consumer q := fun b hb => UInt64.lt_of_le_of_lt (hbest b hb) hq.2
      rw [if_pos ⟨hq.1, by simpa using hq.2⟩, if_pos ⟨hq.1, hq'⟩]
      exact .inl rfl
    · rw [if_neg (by simpa using hq)]
      refine ih fun b hb => ?_
      split_ifs at hb with hq'
      · cases hb
        exact UInt64.not_lt.mp fun h => hq ⟨hq'.1, h⟩
      · exact hbest b hb

theorem rendezvousLoop_insert (best : Option (VPCAttachment × UInt64)) :
    Gains p (rendezvousLoop consumer includes best (l₁ ++ p :: l₂))
      (rendezvousLoop consumer includes best (l₁ ++ l₂)) := by
  induction l₁ generalizing best with
  | nil =>
    rw [nil_append, nil_append, rendezvousLoop_cons]
    split_ifs with hp
    · exact rendezvousLoop_best (fun b hb => UInt64.le_of_lt (hp.2 b hb)) l₂
    · exact .inl rfl
  | cons q l₁ ih =>
    rw [cons_append, cons_append, rendezvousLoop_cons, rendezvousLoop_cons]
    exact ih _

theorem pick_insert :
    Gains p (pairing.pick consumer (l₁ ++ p :: l₂) includes) (pairing.pick consumer (l₁ ++ l₂) includes) := by
  cases pairing with
  | first =>
    change Gains p (firstProducer _ _) (firstProducer _ _)
    unfold firstProducer
    rw [find?_append, find?_append, find?_cons]
    cases l₁.find? includes with
    | some q => exact .inl rfl
    | none =>
      split
      · exact .inr rfl
      · exact .inl rfl
  | rendezvous => exact rendezvousLoop_insert none

theorem spreadRemoteProducer_insert : Gains p (spreadRemoteProducer consumer (l₁ ++ p :: l₂) health pairing)
    (spreadRemoteProducer consumer (l₁ ++ l₂) health pairing) := by
  unfold spreadRemoteProducer
  simp only [filter_append, filter_cons]
  split_ifs
  · -- the first tier that has a producer decides
    exact (pick_insert pairing).orElse ((pick_insert pairing).orElse (pick_insert pairing))
  · exact .inl rfl

theorem localUnusable_iff (l : List VPCAttachment) : localUnusable l health ↔
    (∀ q ∈ l, health q.uid = .unhealthy ∨ health q.uid = .unknown) ∧ ∃ q ∈ l, health q.uid = .unhealthy := by
  have hloop : ∀ b, localUnusableLoop health b l ↔
      (∀ q ∈ l, health q.uid = .unhealthy ∨ health q.uid = .unknown) ∧ (b ∨ ∃ q ∈ l, health q.uid = .unhealthy) := by
    induction l with
    | nil => simp [localUnusableLoop]
    | cons q l ih =>
      intro b
      unfold localUnusableLoop
      cases hq : health q.uid <;> simp [ih, hq]
  simpa [localUnusable] using hloop false

/-- The producers of the consumer's node are unusable, and another node has one for it. -/
structure Leaves (consumer : VPCAttachment) (producers : List VPCAttachment) (health : Health) : Prop where
  remote : ∃ q ∈ producers, q.status.node ≠ consumer.status.node ∧ (health q.uid).eligible
  unusable : ∀ q ∈ producers, q.status.node = consumer.status.node → health q.uid = .unhealthy ∨ health q.uid = .unknown
  unhealthy : ∃ q ∈ producers, q.status.node = consumer.status.node ∧ health q.uid = .unhealthy

theorem leaves_iff {producers : List VPCAttachment} : Leaves consumer producers health ↔
    ¬ (!(producers.any fun p => p.status.node ≠ consumer.status.node ∧ (health p.uid).eligible) ∨
      !localUnusable (producers.filter fun p => p.status.node = consumer.status.node) health) := by
  rw [not_or, Bool.not_eq_true', Bool.not_eq_true', Bool.not_eq_false, Bool.not_eq_false, any_eq_true,
    localUnusable_iff]
  simp only [decide_eq_true_eq, mem_filter, and_imp, and_assoc]
  exact ⟨fun h => ⟨h.remote, h.unusable, h.unhealthy⟩, fun ⟨hr, hu, hh⟩ => ⟨hr, hu, hh⟩⟩

/-- A producer that joins or leaves moves only the consumers it gains or loses; a consumer that had producers on its
node can also be sent away by an unhealthy producer of the node. -/
theorem selection_stable (endpoint : ServiceEndpoint) (consumer p : VPCAttachment) (l₁ l₂ : List VPCAttachment)
    (health : Health) (pairing : SpreadPairing) : Gains p (spreadRemoteProducer consumer (l₁ ++ p :: l₂) health pairing)
      (spreadRemoteProducer consumer (l₁ ++ l₂) health pairing) ∧
    (spreadRemoteProducer consumer (l₁ ++ p :: l₂) health pairing ≠ some p →
      spreadRemoteProducer consumer (l₁ ++ l₂) health pairing =
        spreadRemoteProducer consumer (l₁ ++ p :: l₂) health pairing) ∧ (spread endpoint = true → ∀ onNode ≠ [],
      selectProducers endpoint consumer (l₁ ++ l₂) health pairing = (onNode, none) →
      ∀ r, selectProducers endpoint consumer (l₁ ++ p :: l₂) health pairing = ([], some r) →
        r = p ∨ p.status.node = consumer.status.node ∧ health p.uid = .unhealthy) := by
  refine ⟨spreadRemoteProducer_insert pairing, fun hp => ?_, fun hspread onNode hne hbefore r hafter => ?_⟩
  · exact ((spreadRemoteProducer_insert pairing).resolve_right hp).symm
  have hmem : ∀ q, q ∈ l₁ ++ p :: l₂ ↔ q = p ∨ q ∈ l₁ ++ l₂ := by simp [or_left_comm]
  rw [selectProducers, if_pos hspread] at hbefore hafter
  dsimp only at hbefore hafter
  split_ifs at hbefore hafter with hmode hstay hstay'
  · cases (Prod.mk.inj hafter).2
  · cases (Prod.mk.inj hafter).2
  · obtain ⟨q, hq⟩ := exists_mem_of_ne_nil _ hstay.1
    have hsome : (l₁ ++ p :: l₂).filter (fun p => p.status.node = consumer.status.node) ≠ [] := by
      rw [mem_filter] at hq
      exact ne_nil_of_mem (mem_filter.mpr ⟨(hmem q).mpr (.inr hq.1), hq.2⟩)
    have hleft := leaves_iff.mpr (not_and.mp hstay' hsome)
    obtain ⟨u, hu, hnode, hunhealthy⟩ := hleft.unhealthy
    rcases (hmem u).mp hu with rfl | hu
    · exact .inr ⟨hnode, hunhealthy⟩
    -- without the new producer there was no eligible one elsewhere
    have hothers : ∀ s ∈ l₁ ++ l₂, s.status.node ≠ consumer.status.node → (health s.uid).eligible = false := by
      intro s hs hremote
      by_contra heligible
      refine leaves_iff.mp ⟨⟨s, hs, hremote, by simpa using heligible⟩, fun q hq => ?_, u, hu, hnode,
        hunhealthy⟩ hstay.2
      exact hleft.unusable q ((hmem q).mpr (.inr hq))
    obtain ⟨s, hs, hremote, hs'⟩ := hleft.remote
    replace hafter := (Prod.mk.inj hafter).2
    unfold spreadRemoteProducer at hafter
    dsimp only at hafter
    rcases @pick_cases consumer ((l₁ ++ p :: l₂).filter fun p => p.status.node ≠ consumer.status.node)
      (fun p => (health p.uid).eligible) pairing with ⟨-, hall⟩ | ⟨q, hpick, hq, heligible⟩
    · rw [hall s (mem_filter.mpr ⟨hs, decide_eq_true hremote⟩)] at hs'
      cases hs'
    rw [hpick] at hafter
    cases hafter
    rw [mem_filter, hmem, decide_eq_true_eq] at hq
    refine .inl (hq.1.resolve_right fun hq' => ?_)
    rw [hothers r hq' hq.2] at heligible
    cases heligible
  all_goals exact absurd (Prod.mk.inj hbefore).1.symm hne

end Insert

def dnsProducer (name node : String) : VPCAttachment := readyAttachment name node [("svc", "dns")]

/-- The consumer of an unhealthy producer goes to the one that joins on another node. -/
theorem selection_stable_joined :
    let consumer := readyAttachment "c" "n1" [("app", "web")]
    let failing : Health := fun uid => if uid = "u-b" then .unhealthy else .unknown
    let after := selectProducers dnsEndpoint consumer [dnsProducer "b" "n1", dnsProducer "d" "n2"] failing .first
    after.2.isSome ∧ ∀ r, after = ([], some r) → r = dnsProducer "d" "n2" :=
  ⟨by decide, fun r hr => ((selection_stable dnsEndpoint _
    (dnsProducer "d" "n2") [dnsProducer "b" "n1"] [] _ .first).2.2
    (by decide) [dnsProducer "b" "n1"] (by decide) (by decide) r hr).resolve_right (by decide)⟩

/-- The producer `a` joins the consumer's node and fails, and the consumer goes to the other node's `d`. -/
theorem joined_producer_drives_away :
    let consumer := readyAttachment "c" "n1" [("app", "web")]
    let failing : Health := fun uid => if uid = "u-a" then .unhealthy else .unknown
    selectProducers dnsEndpoint consumer [dnsProducer "b" "n1", dnsProducer "d" "n2"] failing .first =
      ([dnsProducer "b" "n1"], none) ∧
    selectProducers dnsEndpoint consumer [dnsProducer "a" "n1", dnsProducer "b" "n1", dnsProducer "d" "n2"] failing
      .first = ([], some (dnsProducer "d" "n2")) := by
  decide

end Galactic.ServicePlan
