import Galactic.ServicePlan.Emitted
import Mathlib.Data.List.ReduceOption

/-!
# The two halves of a path agree

Two nodes compile the same policy on their own, under pairings of their own. Where one of them sends a consumer to
a producer of the other, the other installs the half that takes the traffic. -/

namespace Galactic.ServicePlan

open Net (IP IPNet)
open FallibleLoop List

section
variable (ext : External)

def Route.sends (r : Route) (pairing : SpreadPairing) (consumer : VPCAttachment) (producer : NamespacedName) : Bool :=
  match selectProducers r.endpoint consumer r.producers r.health pairing with
  | ([], some p) => p.key = producer ∧ p.status.node ≠ consumer.status.node
  | _ => false

def selectsPath (policy : Option ServiceRoutePolicy) (endpoint : Option ServiceEndpoint)
    (attachments : List (Option VPCAttachment)) (identity : String) (now : Time) (pairing : SpreadPairing)
    (consumer producer : NamespacedName) : Bool :=
  match policy, endpoint with
  | some pol, some ep =>
    match prepare ext pol ep attachments now with
    | .error _ => false
    | .ok r => (readyAttachments attachments).any fun c =>
      c.key = consumer ∧ !r.skips identity c ∧ r.sends pairing c producer
  | _, _ => false

end

section
variable {ext : External}

section
variable {r : Route} {pairing : SpreadPairing} {endpoint : ServiceEndpoint} {attachments : List (Option VPCAttachment)}
  {consumer : VPCAttachment} {producers : List VPCAttachment} {p : VPCAttachment}

theorem sends_iff {producer : NamespacedName} : r.sends pairing consumer producer ↔
    ∃ p, selectProducers r.endpoint consumer r.producers r.health pairing = ([], some p) ∧ p.key = producer ∧
      p.status.node ≠ consumer.status.node := by
  unfold Route.sends
  split
  next p hsel => simp [hsel]
  next hother => simpa using fun p hp => absurd hp (hother p)

theorem selectsPath_iff {policy : ServiceRoutePolicy} {identity : String} {now : Time} {name producer : NamespacedName}
    (hr : prepare ext policy endpoint attachments now = .ok r) :
    selectsPath ext (some policy) (some endpoint) attachments identity now pairing name producer ↔
      ∃ c ∈ readyAttachments attachments, c.key = name ∧ r.skips identity c = false ∧ r.sends pairing c producer := by
  rw [selectsPath, hr]
  simp

theorem mem_items_of_ready {a : VPCAttachment} (h : a ∈ readyAttachments attachments) : some a ∈ attachments := by
  rw [readyAttachments, sortByName, (perm_insertionSort _ _).mem_iff, mem_filter] at h
  exact reduceOption_mem_iff.mp h.1

theorem mem_items_of_candidate (h : producerCandidates ext endpoint attachments = .ok producers) (hp : p ∈ producers) :
    some p ∈ attachments := by
  unfold producerCandidates at h
  split at h
  · cases h
  · cases h
  · cases h
    rw [Option.mem_toList] at hp
    exact mem_items_of_ready (mem_of_find?_eq_some hp)
  · split at h
    · cases h
    · cases h
      exact mem_items_of_ready (mem_filter.mp hp).1

theorem Attachments.eq_of_key (attachments : Attachments) {a b : VPCAttachment} (ha : some a ∈ attachments.items)
    (hb : some b ∈ attachments.items) (hkey : a.key = b.key) : a = b :=
  inj_on_of_nodup_map attachments.unique (reduceOption_mem_iff.mpr ha) (reduceOption_mem_iff.mpr hb) hkey

theorem Attachments.ready_nodup (attachments : Attachments) :
    ((readyAttachments attachments.items).map VPCAttachment.key).Nodup := by
  have hperm : (readyAttachments attachments.items).Perm (attachments.items.reduceOption.filter ready) :=
    perm_insertionSort _ _
  rw [(hperm.map _).nodup_iff]
  exact attachments.unique.sublist (filter_sublist.map _)

theorem mem_of_selectProducers {health : Health}
    (h : selectProducers endpoint consumer producers health pairing = ([], some p)) : p ∈ producers := by
  unfold selectProducers at h
  dsimp only at h
  split_ifs at h
  · cases (Prod.mk.inj h).2
  · cases (Prod.mk.inj h).2
  · rcases spreadRemoteProducer_cases consumer producers health pairing with ⟨hnone, -⟩ | ⟨q, hq, hmem, -⟩
    · rw [hnone] at h
      cases (Prod.mk.inj h).2
    · rw [hq] at h
      cases h
      exact hmem
  · have hchoose := (Prod.mk.inj h).2
    unfold chooseProducer at hchoose
    split at hchoose
    · next q hfind =>
      cases hchoose
      exact mem_of_find?_eq_some hfind
    · split_ifs at hchoose
      exact mem_of_head? hchoose

end

/-- **Agreement.** A consumer's half on one node has its counterpart on the producer's node, with the same grant
and route; and a node only emits a producer's half for a path that one of the two pairings selects. When the nodes
use different pairings, that is a pairing of theirs. A node emits the half of every path to a producer of its own that
some pairing selects, whether or not a node uses that pairing. -/
theorem halves_agree (policy : Option ServiceRoutePolicy) (endpoint : Option ServiceEndpoint)
    (attachments : Attachments) (identity : String) (now : Time) {p q : SpreadPairing} {nodeA nodeB : String}
    {sidA sidB : SIDResolver} {outA outB : List RouteIntent}
    (hA : compileWithOptions ext policy endpoint attachments.items nodeA sidA ⟨identity, p.text⟩ now = .ok outA)
    (hB : compileWithOptions ext policy endpoint attachments.items nodeB sidB ⟨identity, q.text⟩ now = .ok outB) :
    (∀ i ∈ outA, i.kind = .remoteConsumer → ∀ producer, some producer ∈ attachments.items →
      producer.key = i.producerAttachment → producer.status.node = nodeB →
      ∃ j ∈ outB, j.kind = .remoteProducer ∧ j.attachment = i.attachment ∧
        j.producerAttachment = i.producerAttachment ∧ j.grantID = i.grantID ∧ j.service = i.service ∧
        j.frontend = i.frontend ∧ j.ports = i.ports) ∧
    (∀ j ∈ outB, j.kind = .remoteProducer →
      (∃ pairing, selectsPath ext policy endpoint attachments.items identity now pairing j.attachment
        j.producerAttachment = true) ∧
      (p ≠ q →
        selectsPath ext policy endpoint attachments.items identity now p j.attachment j.producerAttachment = true ∨
        selectsPath ext policy endpoint attachments.items identity now q j.attachment j.producerAttachment = true)) ∧
    ∀ pairing consumer producer, some producer ∈ attachments.items → producer.status.node = nodeB →
    selectsPath ext policy endpoint attachments.items identity now pairing consumer producer.key = true →
    ∃ j ∈ outB, j.kind = .remoteProducer ∧ j.attachment = consumer ∧ j.producerAttachment = producer.key := by
  obtain ⟨pol, ep, r, intentsA, rfl, rfl, hr, hcollectA, hpermA⟩ := compile_eq_ok (compileWithOptions_eq_ok hA)
  obtain ⟨pol', ep', r', intentsB, hpol, hep, hr', hcollectB, hpermB⟩ := compile_eq_ok (compileWithOptions_eq_ok hB)
  cases hpol
  cases hep
  rw [hr] at hr'
  cases hr'
  -- a selected path to a producer of the node has its half there
  have hhalf {pairing consumer producer} (hready : consumer ∈ readyAttachments attachments.items)
      (hskip : r.skips identity consumer = false)
      (hsel : selectProducers r.endpoint consumer r.producers r.health pairing = ([], some producer))
      (hother : producer.status.node ≠ consumer.status.node) (hnode : producer.status.node = nodeB) :
      ∃ g sid deadline, serviceGrantID r.policy r.endpoint consumer producer r.ports = .ok g ∧
        { producerHalfIntent r consumer producer g sid with authorizationValidUntil := deadline } ∈ outB := by
    obtain ⟨l, hl, hsub⟩ := collect_elem hcollectB hready
    obtain ⟨g, sid, hg, hmem⟩ := (consumerIntents_eq_ok hl).half_mem hskip hsel hother hnode
    obtain ⟨deadline, hauth⟩ := authorize_eq pol (producerHalfIntent r consumer producer g sid)
    exact ⟨g, sid, deadline, hg, hauth ▸ hpermB.mem_iff.mpr (mem_map_of_mem (hsub _ hmem))⟩
  have hitems {consumer producer pairing}
      (hsel : selectProducers r.endpoint consumer r.producers r.health pairing = ([], some producer)) :
      some producer ∈ attachments.items :=
    mem_items_of_candidate (prepare_eq_ok hr).producers (mem_of_selectProducers hsel)
  refine ⟨?_, ?_, ?_⟩
  · intro i hi hkind producer hproducer hkey hnode
    obtain ⟨i', hi', rfl⟩ := mem_map.mp (hpermA.mem_iff.mp hi)
    obtain ⟨consumer, hready, l, hl, hil⟩ := mem_collect hcollectA hi'
    obtain ⟨deadline, hauth⟩ := authorize_eq pol i'
    rw [hauth] at hkind hkey ⊢
    obtain ⟨hskip, producer', hsel, hother, ⟨g, sid, hg, rfl⟩ | ⟨_, _, _, _, -, -, rfl⟩⟩ :=
      (consumerIntents_eq_ok hl).half hil (.inl hkind)
    swap
    · cases hkind
    -- the producer of the intent is the one attachment of that name
    obtain rfl : producer = producer' := attachments.eq_of_key hproducer (hitems hsel) hkey
    obtain ⟨g', sid', deadline', hg', hmem⟩ := hhalf hready hskip hsel hother hnode
    rw [hg] at hg'
    cases hg'
    exact ⟨_, hmem, rfl, rfl, rfl, rfl, rfl, rfl, rfl⟩
  · intro j hj hkind
    obtain ⟨j', hj', rfl⟩ := mem_map.mp (hpermB.mem_iff.mp hj)
    obtain ⟨consumer, hready, l, hl, hjl⟩ := mem_collect hcollectB hj'
    obtain ⟨deadline, hauth⟩ := authorize_eq pol j'
    rw [hauth] at hkind ⊢
    obtain ⟨hskip, chosen, hchosen, hother, ⟨_, _, -, rfl⟩ | ⟨producer, g, sid, pairing, hsel, hnode, rfl⟩⟩ :=
      (consumerIntents_eq_ok hl).half hjl (.inr hkind)
    · cases hkind
    have hremote : producer.status.node ≠ consumer.status.node := by
      obtain ⟨producer', hsel', hother'⟩ := selects_remote hchosen hother pairing
      rw [hsel] at hsel'
      cases hsel'
      exact hother'
    have hpath :
        selectsPath ext (some pol) (some ep) attachments.items identity now pairing consumer.key producer.key :=
      (selectsPath_iff hr).mpr ⟨consumer, hready, rfl, hskip, sends_iff.mpr ⟨producer, hsel, rfl, hremote⟩⟩
    refine ⟨⟨pairing, hpath⟩, fun hne => ?_⟩
    -- two different pairings are all there are
    have hcases : pairing = p ∨ pairing = q := by
      cases p <;> cases q <;> cases pairing <;> simp_all
    rcases hcases with rfl | rfl
    · exact Or.inl hpath
    · exact Or.inr hpath
  · intro pairing name producer hproducer hnode hpath
    obtain ⟨consumer, hready, rfl, hskip, hsends⟩ := (selectsPath_iff hr).mp hpath
    obtain ⟨producer', hsel, hkey, hother⟩ := sends_iff.mp hsends
    obtain rfl : producer = producer' := attachments.eq_of_key hproducer (hitems hsel) hkey.symm
    obtain ⟨g, sid, deadline, -, hmem⟩ := hhalf hready hskip hsel hother hnode
    exact ⟨_, hmem, rfl, rfl, rfl⟩

/-! ### A fleet of two nodes -/

/-- A stand-in for the other libraries: selectors without expressions, snapshots by what tells them apart here. -/
def plainExternal : External where
  labelSelectorAsSelector sel := .ok fun labels => sel.matchLabels.all (· ∈ labels)
  marshal s := .ok (textBytes (s.policyUID ++ s.endpointUID ++ s.vpcIdentity))

def readyAttachment (name node : String) (labels : LabelSet) : VPCAttachment where
  ns := "default"
  name := name
  uid := "u-" ++ name
  generation := 1
  labels := labels
  deletionTimestamp := none
  spec := ⟨"vpc"⟩
  status := ⟨1, [⟨"Ready", "True"⟩, ⟨"Programmed", "True"⟩], "1", name, node, "veth-" ++ name, "fd00::1/128"⟩

def twoNodes : Attachments where
  items := [some (readyAttachment "c" "n1" [("app", "web")]), none, some (readyAttachment "b" "n2" [("svc", "dns")]),
    some (readyAttachment "a" "n2" [("svc", "dns")])]
  unique := by decide

def dnsEndpoint : ServiceEndpoint where
  ns := "default"
  name := "dns"
  uid := "u-dns"
  generation := 1
  spec := ⟨"fd00::53", 53, .udp, .preferNodeLocal, none, some ⟨[("svc", "dns")], []⟩, "", .spread⟩
  producers := []

def dnsPolicy : ServiceRoutePolicy where
  ns := "default"
  uid := "u-policy"
  generation := 1
  spec := ⟨none, none, none, ⟨[("app", "web")], []⟩, [], ""⟩

def compileDNS (node : String) (pairing : SpreadPairing) : Except PlanError (List RouteIntent) :=
  compileWithOptions plainExternal (some dnsPolicy) (some dnsEndpoint) twoNodes.items node
    (some fun _ => .ok [0xfc, 0, 0, 1]) ⟨"", pairing.text⟩ 0

/-- The consumer's node uses one pairing and the node of the producer it picks the other. -/
theorem halves_agree_twoNodes :
    ∃ outA outB, compileDNS "n1" .first = .ok outA ∧ compileDNS "n2" .rendezvous = .ok outB ∧
      (∃ i ∈ outA, i.kind = .remoteConsumer ∧ i.producerAttachment = ⟨"default", "a"⟩) ∧
      ∃ j ∈ outB, j.kind = .remoteProducer ∧ j.attachment = ⟨"default", "c"⟩ ∧
        j.producerAttachment = ⟨"default", "a"⟩ := by
  obtain ⟨outA, hA, i, hi, hkind, hconsumer, hproducer⟩ := exists_ok (x := compileDNS "n1" .first) (p := fun out =>
    ∃ i ∈ out, i.kind = .remoteConsumer ∧ i.attachment = ⟨"default", "c"⟩ ∧ i.producerAttachment = ⟨"default", "a"⟩)
    (by decide +kernel)
  obtain ⟨outB, hB, -⟩ := exists_ok (x := compileDNS "n2" .rendezvous) (p := fun _ => True) (by decide +kernel)
  obtain ⟨j, hj, hjkind, hjconsumer, hjproducer, -⟩ := (halves_agree _ _ twoNodes "" 0 hA hB).1 i hi hkind
    (readyAttachment "a" "n2" [("svc", "dns")]) (by decide) (by rw [hproducer]; rfl) rfl
  exact ⟨_, _, hA, hB, ⟨i, hi, hkind, hproducer⟩, j, hj, hjkind, hjconsumer.trans hconsumer, hjproducer.trans hproducer⟩

/-- Both nodes pair by name, and yet the second emits a half that this does not select: the one of the producer
that rendezvous hashing would send the consumer to. -/
theorem half_without_pairing : ∃ outA outB, compileDNS "n1" .first = .ok outA ∧ compileDNS "n2" .first = .ok outB ∧
    (∃ i ∈ outA, i.kind = .remoteConsumer ∧ i.producerAttachment = ⟨"default", "a"⟩) ∧
    ∃ j ∈ outB, j.kind = .remoteProducer ∧ j.producerAttachment = ⟨"default", "b"⟩ ∧
      selectsPath plainExternal (some dnsPolicy) (some dnsEndpoint) twoNodes.items "" 0 .first j.attachment
        j.producerAttachment = false :=
  have ⟨_, hA, hi⟩ := exists_ok (x := compileDNS "n1" .first) (by decide +kernel)
  have ⟨_, hB, hj⟩ := exists_ok (x := compileDNS "n2" .first) (by decide +kernel)
  ⟨_, _, hA, hB, hi, hj⟩

end

end Galactic.ServicePlan
