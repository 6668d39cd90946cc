import Galactic.RuleBackends.Candidates
import Galactic.Net.Printed

/-!
# Who owns a backend

The owners are the greedy choice among the claims, the oldest rule's first, so that no two of them intersect. A rule
keeps a backend exactly if its own claim was recorded. The gateway and the nodes come to the same selection from
differently ordered and filtered lists. -/

namespace Galactic.RuleBackends

open Net List
open ServicePlan (NamespacedName)
open Greedy (greedy)

/-! ### Names -/

variable {a b : NamespacedName}

theorem string_inj (ha : '/' ∉ a.ns.toList) (hb : '/' ∉ b.ns.toList) (h : a.string = b.string) : a = b := by
  have hlist : ∀ n : NamespacedName, n.string.toList = n.ns.toList ++ '/' :: n.name.toList := fun n => by
    simp [NamespacedName.string]
  have hcut := congrArg (fun s => cut '/' s.toList) h
  simp only [hlist, cut_append ha, cut_append hb, Option.some.injEq, Prod.mk.injEq, String.toList_inj] at hcut
  cases a
  cases b
  exact NamespacedName.mk.injEq .. ▸ hcut

structure Named (n : NamespacedName) : Prop where
  named : n.name ≠ ""
  slashless : '/' ∉ n.ns.toList

theorem Rule.named_key (r : Rule) : Named r.key := ⟨r.named, r.slashless⟩

theorem Named.eq_of_string (ha : Named a) (hb : Named b) (h : a.string = b.string) : a = b :=
  string_inj ha.slashless hb.slashless h

/-! ### The owner of a claim -/

section Owner

variable {owners : BackendOwners} {c : BackendClaim}

section
variable (h : ∀ e ∈ owners, Named e.2)

include h

theorem foldl_ownerStep : (owners.foldl (ownerStep c) .empty = .empty ∧ ∀ e ∈ owners, c.intersects e.1 = false) ∨
      (∃ e ∈ owners, c.intersects e.1 ∧ owners.foldl (ownerStep c) .empty = e.2) ∧
        ∀ e ∈ owners, c.intersects e.1 → (owners.foldl (ownerStep c) .empty).string ≤ e.2.string := by
  induction owners using List.reverseRecOn with
  | nil => exact .inl ⟨rfl, fun e he => absurd he (by simp)⟩
  | append_singleton owners x ih =>
    have hx : Named x.2 := h x (by simp)
    rw [foldl_append, foldl_cons, foldl_nil]
    rcases ih fun e he => h e (mem_append_left _ he) with ⟨hempty, hnone⟩ | ⟨⟨e, he, hint, heq⟩, hleast⟩
    · rw [hempty, ownerStep]
      cases hc : c.intersects x.1 with
      | false =>
        exact .inl ⟨if_neg (by simp), forall_mem_append.mpr ⟨hnone, forall_mem_singleton.mpr hc⟩⟩
      | true =>
        rw [if_pos ⟨rfl, .inl rfl⟩]
        refine .inr ⟨⟨x, by simp, hc, rfl⟩, forall_mem_append.mpr ⟨fun e he hint => ?_,
          forall_mem_singleton.mpr fun _ => le_rfl⟩⟩
        rw [hnone e he] at hint
        cases hint
    · have hname : (owners.foldl (ownerStep c) .empty).name ≠ "" := heq ▸ (h e (mem_append_left _ he)).named
      rw [ownerStep]
      split_ifs with hcond
      · have hlt := hcond.2.resolve_left hname
        exact .inr ⟨⟨x, by simp, hcond.1, rfl⟩, forall_mem_append.mpr
          ⟨fun e' he' hint' => hlt.le.trans (hleast e' he' hint'), forall_mem_singleton.mpr fun _ => le_rfl⟩⟩
      · exact .inr ⟨⟨e, mem_append_left _ he, hint, heq⟩, forall_mem_append.mpr
          ⟨hleast, forall_mem_singleton.mpr fun hint' => not_lt.mp fun hlt => hcond ⟨hint', .inr hlt⟩⟩⟩

theorem owner_eq_none_iff : owners.owner c = none ↔ ∀ e ∈ owners, c.intersects e.1 = false := by
  unfold BackendOwners.owner
  dsimp only
  rcases foldl_ownerStep (c := c) h with ⟨hempty, hnone⟩ | ⟨⟨e, he, hint, heq⟩, -⟩
  · rw [hempty]
    exact ⟨fun _ => hnone, fun _ => rfl⟩
  · rw [heq, if_neg (h e he).named]
    exact ⟨fun hn => (nomatch hn), fun hall => absurd hint (by rw [hall e he]; simp)⟩

theorem owner_eq_some_iff {o : NamespacedName} : owners.owner c = some o ↔ (∃ e ∈ owners, c.intersects e.1 ∧ e.2 = o) ∧
      ∀ e ∈ owners, c.intersects e.1 → o.string ≤ e.2.string := by
  unfold BackendOwners.owner
  dsimp only
  rcases foldl_ownerStep (c := c) h with ⟨hempty, hnone⟩ | ⟨⟨e, he, hint, heq⟩, hleast⟩
  · rw [hempty]
    refine ⟨fun hn => (nomatch hn), ?_⟩
    rintro ⟨⟨e, he, hint, -⟩, -⟩
    exact absurd hint (by rw [hnone e he]; simp)
  rw [heq] at hleast ⊢
  rw [if_neg (h e he).named]
  constructor
  · intro hsome
    cases hsome
    exact ⟨⟨e, he, hint, rfl⟩, hleast⟩
  · rintro ⟨⟨e', he', hint', rfl⟩, hleast'⟩
    exact congrArg some ((h e he).eq_of_string (h e' he') (le_antisymm (hleast e' he' hint') (hleast' e he hint)))

theorem owner_congr {owners' : BackendOwners} (h' : ∀ e ∈ owners', Named e.2)
    (hmem : ∀ e, c.intersects e.1 → (e ∈ owners ↔ e ∈ owners')) : owners.owner c = owners'.owner c := by
  refine Option.ext fun o => ?_
  rw [owner_eq_some_iff h, owner_eq_some_iff h']
  refine and_congr (exists_congr fun e => ?_) (forall_congr' fun e => ?_)
  all_goals by_cases hint : c.intersects e.1 <;> simp [hint, hmem]

end

end Owner

/-! ### Claims -/

theorem intervalsIntersect_comm (a endA b endB : Nat) :
    intervalsIntersect a endA b endB = intervalsIntersect b endB a endA := by
  simp only [intervalsIntersect, and_comm]

theorem intersects_comm (c d : BackendClaim) : c.intersects d = d.intersects c := by
  simp only [BackendClaim.intersects, intervalsIntersect_comm c.port, eq_comm]

theorem intersects_iff {c d : BackendClaim} : c.intersects d ↔ c.vpc = d.vpc ∧ c.addr = d.addr ∧
    c.protocol = d.protocol ∧ c.vipFamily = d.vipFamily ∧ intervalsIntersect c.port c.stop d.port d.stop := by
  simp [BackendClaim.intersects]

section Claims

variable {selectorOf : SelectorOf} {objNS : String}

section
variable {attachments : List Attachment} {r : Rule} {e : BackendClaim × NamespacedName}

theorem mem_ruleClaims (h : e ∈ ruleClaims selectorOf attachments objNS r) :
    ∃ vips backends pending f addr b, ruleTranslatedVIPs r = .ok vips ∧
      ruleCandidateBackends selectorOf r attachments objNS = .ok (backends, pending) ∧
      (f, addr) ∈ vips.valid ∧ b ∈ backends ∧ e = (backendClaimFor r b f, r.key) := by
  unfold ruleClaims at h
  split at h
  · next vips backends pending hvips hback =>
    obtain ⟨⟨f, addr⟩, htv, h⟩ := mem_flatMap.mp h
    obtain ⟨b, hb, rfl⟩ := mem_map.mp h
    exact ⟨vips, backends, pending, f, addr, b, hvips, hback, htv, hb, rfl⟩
  · simp at h

theorem ruleClaims_mem {vips : RuleVIPs} {backends : List RuleBackend} {pending : List String} {f : AddrFamily}
    {addr : Addr} {b : RuleBackend} (hvips : ruleTranslatedVIPs r = .ok vips)
    (hback : ruleCandidateBackends selectorOf r attachments objNS = .ok (backends, pending))
    (hf : (f, addr) ∈ vips.valid) (hb : b ∈ backends) :
    (backendClaimFor r b f, r.key) ∈ ruleClaims selectorOf attachments objNS r := by
  unfold ruleClaims
  rw [hvips, hback]
  exact mem_flatMap.mpr ⟨(f, addr), hf, mem_map.mpr ⟨b, hb, rfl⟩⟩

theorem ruleClaims_key (h : e ∈ ruleClaims selectorOf attachments objNS r) : e.2 = r.key ∧ e.1.vpc = r.vpcRef := by
  obtain ⟨-, -, -, f, -, b, -, -, -, -, rfl⟩ := mem_ruleClaims h
  exact ⟨rfl, rfl⟩

end

def byAge (rules : List Rule) : List Rule := rules.insertionSort fun a b => ruleOlder b a = false

variable (selectorOf objNS) in
def allClaims (rules : List Rule) (attachments : List Attachment) : List (BackendClaim × NamespacedName) :=
  (byAge rules).flatMap (ruleClaims selectorOf attachments objNS)

theorem named_allClaims {rules : List Rule} {attachments : List Attachment} :
    ∀ e ∈ allClaims selectorOf objNS rules attachments, Named e.2 := by
  intro e he
  obtain ⟨r, -, hr⟩ := mem_flatMap.mp he
  rw [(ruleClaims_key hr).1]
  exact r.named_key

def conflicts (x y : BackendClaim × NamespacedName) : Bool := x.1.intersects y.1

theorem ruleBackendOwners_eq {rules : List Rule} {attachments : List Attachment} :
    ruleBackendOwners selectorOf rules attachments objNS =
      greedy conflicts (allClaims selectorOf objNS rules attachments) := by
  have hnamed := @named_allClaims selectorOf objNS rules attachments
  show (allClaims selectorOf objNS rules attachments).foldl record [] = _
  generalize allClaims selectorOf objNS rules attachments = claims at hnamed ⊢
  induction claims using List.reverseRecOn with
  | nil => rfl
  | append_singleton claims e ih =>
    have hclaims : ∀ x ∈ claims, Named x.2 := fun x hx => hnamed x (mem_append_left _ hx)
    rw [foldl_append, foldl_cons, foldl_nil, ih hclaims, Greedy.greedy_snoc, record, Greedy.step]
    have howner := @owner_eq_none_iff (greedy conflicts claims) e.1 fun x hx =>
      hclaims x (Greedy.greedy_subset claims x hx)
    by_cases hany : (greedy conflicts claims).any (conflicts e)
    · rw [if_pos hany, if_neg]
      rw [Option.isNone_iff_eq_none, howner]
      obtain ⟨y, hy, hc⟩ := any_eq_true.mp hany
      exact fun hall => absurd hc (by rw [conflicts, hall y hy]; simp)
    · rw [if_neg hany, if_pos]
      rw [Option.isNone_iff_eq_none, howner]
      exact fun y hy => Bool.not_eq_true _ ▸ fun hc => hany (any_eq_true.mpr ⟨y, hy, hc⟩)

/-! ### Each rule's claims are apart -/

section
variable {r : Rule} {attachments : List Attachment} {backends : List RuleBackend} {pending : List String}

theorem foldl_dropStep (bs : List RuleBackend) : ∀ acc : List RuleBackend × List String,
    (acc.1.Pairwise fun a b => a.addr ≠ b.addr) → ((bs.foldl dropStep acc).1.Pairwise fun a b => a.addr ≠ b.addr) := by
  refine fun acc h => foldlRecOn (motive := fun acc => acc.1.Pairwise fun a b => a.addr ≠ b.addr) bs dropStep h
    fun acc h b _ => ?_
  unfold dropStep
  split
  · exact h
  next hnone =>
  split
  · exact h
  · refine pairwise_append.mpr ⟨h, pairwise_singleton _ _, fun a ha b' hb' => ?_⟩
    rw [mem_singleton.mp hb']
    simpa using find?_eq_none.mp hnone a ha

theorem candidates_eq_of_addr (h : ruleCandidateBackends selectorOf r attachments objNS = .ok (backends, pending))
    {a b : RuleBackend} (ha : a ∈ backends) (hb : b ∈ backends) (hab : a.addr = b.addr) : a = b := by
  unfold ruleCandidateBackends at h
  split at h
  · cases h
  split at h
  · cases h
  · obtain ⟨rfl, -⟩ := Prod.mk.inj (Except.ok.inj h)
    exact inj_on_of_nodup_map (f := (·.addr)) (pairwise_map.mpr (foldl_dropStep _ ([], []) .nil)) ha hb hab

end

end Claims

/-! ### Age -/

def age (r : Rule) : ℤ ×ₗ String ×ₗ String := toLex (r.creationTimestamp, toLex (r.ns, r.name))

theorem ruleOlder_iff (a b : Rule) : ruleOlder a b ↔ age a < age b := by
  unfold ruleOlder age
  rw [Prod.Lex.toLex_lt_toLex, Prod.Lex.toLex_lt_toLex]
  dsimp only
  by_cases ht : a.creationTimestamp = b.creationTimestamp
  · by_cases hns : a.ns = b.ns
    · simp [ht, hns]
    · simp [ht, hns]
  · simp [ht]

theorem ruleOlder_eq_false (a b : Rule) : ruleOlder a b = false ↔ age b ≤ age a := by
  rw [← Bool.not_eq_true, ruleOlder_iff, not_lt]

theorem key_of_age {a b : Rule} (h : age a = age b) : a.key = b.key := by
  have hns : a.ns = b.ns := congrArg (fun x => (ofLex (ofLex x).2).1) h
  have hname : a.name = b.name := congrArg (fun x => (ofLex (ofLex x).2).2) h
  rw [Rule.key, Rule.key, hns, hname]

theorem byAge_perm (rules : List Rule) : (byAge rules).Perm rules := perm_insertionSort _ _

theorem byAge_pairwise (rules : List Rule) : (byAge rules).Pairwise fun a b => age a ≤ age b :=
  Greedy.pairwise_insertionSort age (fun a b => ruleOlder_eq_false b a) rules

variable (rules : Rules) {rules' : Rules}

theorem Rules.eq_of_key {a b : Rule} (ha : a ∈ rules.items) (hb : b ∈ rules.items) (h : a.key = b.key) : a = b :=
  inj_on_of_nodup_map rules.distinct ha hb h

theorem byAge_eq_of_perm (h : rules.items.Perm rules'.items) : byAge rules.items = byAge rules'.items := by
  refine Greedy.insertionSort_eq_of_perm age (fun a b => ruleOlder_eq_false b a) h fun a ha b hb hab => ?_
  exact rules.eq_of_key ha hb (key_of_age hab)

/-! ### What is recorded -/

section Recorded

variable (selectorOf : SelectorOf) (attachments : List Attachment) (objNS : String)

structure Serves (r : Rule) (f : AddrFamily) (backends : List RuleBackend) : Prop where
  mem : r ∈ rules.items
  translated : ∃ vips addr, ruleTranslatedVIPs r = .ok vips ∧ (f, addr) ∈ vips.valid
  candidates : ∃ pending, ruleCandidateBackends selectorOf r attachments objNS = .ok (backends, pending)

variable {rules selectorOf attachments objNS} {r : Rule} {f : AddrFamily} {backends : List RuleBackend}
  {b : RuleBackend}

theorem Serves.claim_mem (h : Serves rules selectorOf attachments objNS r f backends) (hb : b ∈ backends) :
    (backendClaimFor r b f, r.key) ∈ ruleClaims selectorOf attachments objNS r := by
  obtain ⟨vips, addr, hvips, hf⟩ := h.translated
  obtain ⟨pending, hcand⟩ := h.candidates
  exact ruleClaims_mem hvips hcand hf hb

theorem owners_named (rules : Rules) : ∀ e ∈ ruleBackendOwners selectorOf rules.items attachments objNS, Named e.2 := by
  intro e he
  rw [ruleBackendOwners_eq] at he
  exact named_allClaims e (Greedy.greedy_subset _ e he)

theorem rule_of_owner {e : BackendClaim × NamespacedName}
    (h : e ∈ ruleBackendOwners selectorOf rules.items attachments objNS) :
    ∃ r ∈ rules.items, e ∈ ruleClaims selectorOf attachments objNS r := by
  rw [ruleBackendOwners_eq] at h
  obtain ⟨r, hr, he⟩ := mem_flatMap.mp (Greedy.greedy_subset _ e h)
  exact ⟨r, (byAge_perm _).subset hr, he⟩

section
variable (h : Serves rules selectorOf attachments objNS r f backends) (hb : b ∈ backends)

include h hb

/-- A rule's claims do not meet each other: one that intersects the claim on a backend is that claim. -/
theorem Serves.own_claim {e : BackendClaim × NamespacedName}
    (he : e ∈ ruleBackendOwners selectorOf rules.items attachments objNS) (hkey : e.2 = r.key)
    (hint : (backendClaimFor r b f).intersects e.1) : e = (backendClaimFor r b f, r.key) := by
  obtain ⟨r', hr', he'⟩ := rule_of_owner he
  obtain rfl : r' = r := rules.eq_of_key hr' h.mem ((ruleClaims_key he').1.symm.trans hkey)
  obtain ⟨-, bs, pending, f', -, b', -, hcand, -, hb', rfl⟩ := mem_ruleClaims he'
  obtain ⟨pending', hcand'⟩ := h.candidates
  obtain ⟨rfl, -⟩ := Prod.mk.inj (Except.ok.inj (hcand.symm.trans hcand'))
  obtain ⟨-, haddr, -, hfam, -⟩ := intersects_iff.mp hint
  have hbb : b = b' := candidates_eq_of_addr hcand hb hb' haddr
  have hff : f = f' := hfam
  rw [hbb, hff]

theorem Serves.blocked
    (hnot : (backendClaimFor r b f, r.key) ∉ ruleBackendOwners selectorOf rules.items attachments objNS) :
    ∃ r' ∈ rules.items, ruleOlder r' r ∧ ∃ e ∈ ruleBackendOwners selectorOf rules.items attachments objNS,
      e.2 = r'.key ∧ (backendClaimFor r b f).intersects e.1 := by
  rw [ruleBackendOwners_eq] at hnot ⊢
  obtain ⟨older, younger, hsplit⟩ := append_of_mem ((byAge_perm rules.items).symm.subset h.mem)
  obtain ⟨before, after, hclaims⟩ := append_of_mem (h.claim_mem hb)
  -- the claims recorded before: those of the older rules, and the rule's own earlier ones
  have hall : allClaims selectorOf objNS rules.items attachments =
      (older.flatMap (ruleClaims selectorOf attachments objNS) ++ before) ++ (backendClaimFor r b f, r.key) ::
        (after ++ younger.flatMap (ruleClaims selectorOf attachments objNS)) := by
    rw [allClaims, hsplit, flatMap_append, flatMap_cons, hclaims]
    simp
  rw [hall] at hnot
  obtain ⟨e, he, hint⟩ := Greedy.blocked_of_notMem hnot
  have hkept : e ∈ greedy conflicts (allClaims selectorOf objNS rules.items attachments) := by
    rw [hall]
    exact Greedy.mem_greedy_append he _
  have hsub := Greedy.greedy_subset _ e he
  rcases mem_append.mp hsub with hold | hown
  · obtain ⟨r', hr', her'⟩ := mem_flatMap.mp hold
    have hr'mem : r' ∈ rules.items := (byAge_perm _).subset (hsplit ▸ mem_append_left _ hr')
    have hle : age r' ≤ age r := by
      have hpair := byAge_pairwise rules.items
      rw [hsplit] at hpair
      exact (pairwise_append.mp hpair).2.2 r' hr' r mem_cons_self
    have hne : age r' ≠ age r := by
      intro heq
      have hrr := rules.eq_of_key hr'mem h.mem (key_of_age heq)
      have hnodup := (byAge_perm rules.items).nodup_iff.mpr rules.distinct.of_map
      rw [hsplit] at hnodup
      exact (nodup_append.mp hnodup).2.2 r' hr' r mem_cons_self hrr
    exact ⟨r', hr'mem, (ruleOlder_iff _ _).mpr (lt_of_le_of_ne hle hne), e, hkept, (ruleClaims_key her').1, hint⟩
  · -- its own earlier claims are for other addresses
    have hkey : e.2 = r.key :=
      (ruleClaims_key (hclaims ▸ mem_append_left _ hown : e ∈ ruleClaims _ _ _ r)).1
    rw [h.own_claim hb (ruleBackendOwners_eq ▸ hkept) hkey hint, hall] at hkept
    exact absurd hkept hnot

end

theorem recorded_apart {x y : BackendClaim × NamespacedName}
    (hx : x ∈ ruleBackendOwners selectorOf rules.items attachments objNS)
    (hy : y ∈ ruleBackendOwners selectorOf rules.items attachments objNS) (hne : x ≠ y) :
    x.1.intersects y.1 = false := by
  rw [ruleBackendOwners_eq] at hx hy
  have hsymm : Std.Symm fun a b : BackendClaim × NamespacedName => conflicts b a = false :=
    ⟨fun a b h => by rw [conflicts, intersects_comm]; exact h⟩
  have hpair := @Greedy.greedy_pairwise _ conflicts (allClaims selectorOf objNS rules.items attachments)
  exact hpair.forall hy hx hne.symm

theorem Serves.kept_iff (h : Serves rules selectorOf attachments objNS r f backends) (hb : b ∈ backends) :
    lostTo (ruleBackendOwners selectorOf rules.items attachments objNS) r f b = none ↔
      (backendClaimFor r b f, r.key) ∈ ruleBackendOwners selectorOf rules.items attachments objNS := by
  have hnamed : ∀ e ∈ ruleBackendOwners selectorOf rules.items attachments objNS, Named e.2 := owners_named rules
  rw [lostTo, Option.filter_eq_none_iff]
  constructor
  · intro hkept
    by_contra hnot
    obtain ⟨-, -, -, e, he, -, hint⟩ := h.blocked hb hnot
    obtain ⟨o, howner⟩ := Option.ne_none_iff_exists'.mp fun hnone =>
      Bool.eq_false_iff.mp ((owner_eq_none_iff hnamed).mp hnone e he) hint
    have ho : o = r.key := by simpa using hkept o howner
    obtain ⟨⟨e', he', hint', heq⟩, -⟩ := (owner_eq_some_iff hnamed).mp howner
    exact hnot (h.own_claim hb he' (heq.trans ho) hint' ▸ he')
  · intro hrec o howner
    obtain ⟨⟨e, he, hint, heq⟩, -⟩ := (owner_eq_some_iff hnamed).mp howner
    have ho : o = r.key := by
      by_contra hne
      refine Bool.eq_false_iff.mp (recorded_apart hrec he fun h => hne ?_) hint
      exact heq.symm.trans (congrArg Prod.snd h.symm)
    simp [ho]

end Recorded

/-! ### The selection does not depend on the lists' order -/

section Order

variable {selectorOf : SelectorOf} {objNS : String}

def place (b : RuleBackend) : (ℕ ×ₗ ℕ ×ₗ String) ×ₗ String := toLex (b.addr.rank, b.attachment.string)

theorem backendLess_iff (a b : RuleBackend) : backendLess a b ↔ place a < place b := by
  unfold backendLess place
  rw [Addr.compare_eq, Prod.Lex.toLex_lt_toLex]
  dsimp only
  rcases lt_trichotomy a.addr.rank b.addr.rank with haddr | haddr | haddr
  · simp [compare_lt_iff_lt.mpr haddr, haddr]
  · simp [haddr]
  · simp [compare_gt_iff_gt.mpr haddr, haddr.ne', haddr.le]

theorem backendLess_eq_false (a b : RuleBackend) : backendLess a b = false ↔ place b ≤ place a := by
  rw [← Bool.not_eq_true, backendLess_iff, not_lt]

variable {attachments attachments' : Attachments}

theorem candidates_eq_of_perm (h : attachments.items.Perm attachments'.items) (r : Rule) :
    ruleCandidateBackends selectorOf r attachments.items objNS =
      ruleCandidateBackends selectorOf r attachments'.items objNS := by
  unfold ruleCandidateBackends
  split
  · rfl
  next port _ =>
  split
  · rfl
  next m _ =>
  dsimp only
  have hpicked := h.filter (picks m r objNS)
  have hmem : ∀ a ∈ attachments.items.filter (picks m r objNS), a ∈ attachments.items :=
    fun a ha => (mem_filter.mp ha).1
  generalize attachments.items.filter (picks m r objNS) = picked at hpicked hmem ⊢
  generalize attachments'.items.filter (picks m r objNS) = picked' at hpicked ⊢
  have hback : (picked.flatMap (backendsOf port)).insertionSort (fun a b => backendLess b a = false) =
      (picked'.flatMap (backendsOf port)).insertionSort fun a b => backendLess b a = false := by
    refine Greedy.insertionSort_eq_of_perm place (fun a b => backendLess_eq_false b a) (hpicked.flatMap_right _) ?_
    intro x hx y hy hxy
    obtain ⟨a, ha, hxa⟩ := mem_flatMap.mp hx
    obtain ⟨b, hb, hyb⟩ := mem_flatMap.mp hy
    have haddr : x.addr = y.addr := Addr.rank_injective (congrArg (fun p => (ofLex p).1) hxy)
    have hstring : x.attachment.string = y.attachment.string := congrArg (fun p => (ofLex p).2) hxy
    unfold backendsOf at hxa hyb
    split_ifs at hxa hyb
    · simp at hxa
    · simp at hxa
    · simp at hyb
    obtain ⟨ax, -, rfl⟩ := mem_map.mp hxa
    obtain ⟨ay, -, rfl⟩ := mem_map.mp hyb
    obtain rfl : ax = ay := haddr
    have hab : a = b := inj_on_of_nodup_map attachments.distinct (hmem a ha) (hmem b hb)
      (string_inj a.slashless b.slashless hstring)
    rw [hab]
  have hpending : ∀ rejected, (picked.flatMap notYet ++ rejected).insertionSort (fun s t => s ≤ t) =
      (picked'.flatMap notYet ++ rejected).insertionSort fun s t => s ≤ t := fun rejected =>
    Greedy.insertionSort_eq_of_perm (fun s : String => s) (fun _ _ => Iff.rfl)
      ((hpicked.flatMap_right notYet).append_right rejected) fun _ _ _ _ h => h
  rw [hback, hpending]

variable {r : Rule}

theorem candidates_filter (attachments : List Attachment) {v : String} (h : r.vpcRef = v) :
    ruleCandidateBackends selectorOf r (attachments.filter fun a => a.vpc = v) objNS =
      ruleCandidateBackends selectorOf r attachments objNS := by
  have hfilter : ∀ m, (attachments.filter fun a => a.vpc = v).filter (picks m r objNS) = attachments.filter
    (picks m r objNS) := by
    intro m
    rw [filter_filter]
    refine filter_congr fun a _ => ?_
    by_cases hv : a.vpc = v
    · simp [hv]
    · simp [hv, picks, h]
  unfold ruleCandidateBackends
  simp only [hfilter]

theorem ruleClaims_filter (attachments : List Attachment) (r : Rule) (v : String) :
    ruleClaims selectorOf (attachments.filter fun a => a.vpc = v) objNS r =
      (ruleClaims selectorOf attachments objNS r).filter fun e => e.1.vpc = v := by
  by_cases hv : r.vpcRef = v
  · have hself : (ruleClaims selectorOf attachments objNS r).filter (fun e => e.1.vpc = v) =
        ruleClaims selectorOf attachments objNS r :=
      filter_eq_self.mpr fun e he => by simp [(ruleClaims_key he).2, hv]
    rw [hself]
    unfold ruleClaims
    rw [candidates_filter attachments hv]
  have hnil : (ruleClaims selectorOf attachments objNS r).filter (fun e => e.1.vpc = v) = [] :=
    filter_eq_nil_iff.mpr fun e he => by simp [(ruleClaims_key he).2, hv]
  rw [hnil]
  have hnone : ∀ m, (attachments.filter fun a => a.vpc = v).filter (picks m r objNS) = [] := by
    intro m
    refine filter_eq_nil_iff.mpr fun a ha => ?_
    have hav : a.vpc = v := by simpa using (mem_filter.mp ha).2
    have : a.vpc ≠ r.vpcRef := fun h => hv (h.symm.trans hav)
    simp [picks, this]
  unfold ruleClaims ruleCandidateBackends
  simp only [hnone]
  split
  · next h =>
    split at h
    · cases h
    split at h
    · cases h
    · obtain ⟨rfl, -⟩ := Prod.mk.inj (Except.ok.inj h)
      simp [dropConflictingBackends]
  · rfl

theorem owners_eq_of_perm {rules rules' : Rules} (hrules : rules.items.Perm rules'.items)
    (hatts : attachments.items.Perm attachments'.items) :
    ruleBackendOwners selectorOf rules.items attachments.items objNS =
      ruleBackendOwners selectorOf rules'.items attachments'.items objNS := by
  have hclaims : ruleClaims selectorOf attachments.items objNS = ruleClaims selectorOf attachments'.items objNS := by
    funext r
    unfold ruleClaims
    rw [candidates_eq_of_perm hatts]
  rw [ruleBackendOwners_eq, ruleBackendOwners_eq, allClaims, allClaims, byAge_eq_of_perm rules hrules, hclaims]

theorem owners_filter (rules : List Rule) (attachments : List Attachment) (v : String) :
    ruleBackendOwners selectorOf rules (attachments.filter fun a => a.vpc = v) objNS =
      (ruleBackendOwners selectorOf rules attachments objNS).filter fun e => e.1.vpc = v := by
  have hclaims : allClaims selectorOf objNS rules (attachments.filter fun a => a.vpc = v) =
      (allClaims selectorOf objNS rules attachments).filter fun e => e.1.vpc = v := by
    rw [allClaims, allClaims, filter_flatMap]
    exact flatMap_congr fun r _ => ruleClaims_filter attachments r v
  rw [ruleBackendOwners_eq, ruleBackendOwners_eq, hclaims, Greedy.greedy_filter]
  intro x y hxy
  rw [(intersects_iff.mp hxy).1]

theorem select_congr {atts atts' : List Attachment} {owners owners' : BackendOwners} {f : AddrFamily}
    (hcand : ruleCandidateBackends selectorOf r atts objNS = ruleCandidateBackends selectorOf r atts' objNS)
    (howner : ∀ b, owners.owner (backendClaimFor r b f) = owners'.owner (backendClaimFor r b f)) :
    selectRuleBackends selectorOf r atts owners f objNS = selectRuleBackends selectorOf r atts' owners' f objNS := by
  have hlost : lostTo owners r f = lostTo owners' r f := by
    funext b
    rw [lostTo, lostTo, howner]
  unfold selectRuleBackends
  rw [hcand, hlost]

end Order

/-! ### Exclusive and agreed -/

section Results

variable (selectorOf : SelectorOf) (objNS : String) (rules : Rules) (attachments : Attachments)

def Translates (r : Rule) (f : AddrFamily) : Prop := ∃ vips addr, ruleTranslatedVIPs r = .ok vips ∧
  (f, addr) ∈ vips.valid

def owners : BackendOwners := ruleBackendOwners selectorOf rules.items attachments.items objNS

def selects (r : Rule) (f : AddrFamily) (s : RuleSelection) : Prop :=
  selectRuleBackends selectorOf r attachments.items (owners selectorOf objNS rules attachments) f objNS = .ok s

/-- No two rules keep backends whose claims intersect. -/
def Exclusive : Prop :=
  ∀ f, ∀ r₁ ∈ rules.items, ∀ r₂ ∈ rules.items, r₁ ≠ r₂ → Translates r₁ f → Translates r₂ f → ∀ s₁ s₂,
    selects selectorOf objNS rules attachments r₁ f s₁ → selects selectorOf objNS rules attachments r₂ f s₂ →
    ∀ b₁ ∈ s₁.backends, ∀ b₂ ∈ s₂.backends, (backendClaimFor r₁ b₁ f).intersects (backendClaimFor r₂ b₂ f) = false

def RecordedOn (c : BackendClaim) (r : Rule) : Prop :=
  ∃ e ∈ owners selectorOf objNS rules attachments, e.2 = r.key ∧ c.intersects e.1 = true

/-- A rule that loses a backend loses it to a recorded rule that is older. -/
def LosesToOlder : Prop :=
  ∀ f, ∀ r ∈ rules.items, Translates r f → ∀ s, selects selectorOf objNS rules attachments r f s →
    ∀ b o, (b, o) ∈ s.claimed →
      ∃ r' ∈ rules.items, r'.key = o ∧ RecordedOn selectorOf objNS rules attachments (backendClaimFor r b f) r' ∧
        ruleOlder r' r = true

/-- A rule that loses a backend loses it to a recorded rule, and there is a recorded rule that is older. -/
def LosesForOlder : Prop :=
  ∀ f, ∀ r ∈ rules.items, Translates r f → ∀ s, selects selectorOf objNS rules attachments r f s →
    ∀ b o, (b, o) ∈ s.claimed →
      (∃ r' ∈ rules.items, r'.key = o ∧ RecordedOn selectorOf objNS rules attachments (backendClaimFor r b f) r') ∧
      ∃ r' ∈ rules.items, ruleOlder r' r = true ∧
        RecordedOn selectorOf objNS rules attachments (backendClaimFor r b f) r'

/-- The selection is the same for other orders of the rules, the attachments and the map of owners, and when the
selection or the owners are made from the attachments of the rule's VPC only. -/
def Agreed : Prop :=
  ∀ (rules' : Rules) (attachments' : Attachments), rules.items.Perm rules'.items →
    attachments.items.Perm attachments'.items →
    ∀ r ∈ rules.items, ∀ f, ∀ seen ∈ [attachments'.items, attachments'.items.filter fun a => a.vpc = r.vpcRef],
      ∀ from_ ∈ [attachments'.items, attachments'.items.filter fun a => a.vpc = r.vpcRef], ∀ owners' : BackendOwners,
        owners'.Perm (ruleBackendOwners selectorOf rules'.items from_ objNS) →
        selectRuleBackends selectorOf r seen owners' f objNS =
          selectRuleBackends selectorOf r attachments.items (owners selectorOf objNS rules attachments) f objNS

/-- Where a rule's claim meets a younger rule's recorded one, it meets that of an older rule with a lesser name. -/
def NamesOlder : Prop :=
  ∀ r ∈ rules.items, ∀ c ∈ ruleClaims selectorOf attachments.items objNS r, ∀ r₂ ∈ rules.items, ruleOlder r r₂ = true →
    RecordedOn selectorOf objNS rules attachments c.1 r₂ → ∃ r₁ ∈ rules.items, ruleOlder r₁ r = true ∧
      RecordedOn selectorOf objNS rules attachments c.1 r₁ ∧ r₁.key.string < r₂.key.string

variable {selectorOf objNS rules attachments} {r : Rule} {f : AddrFamily} {s : RuleSelection}

theorem selects_serves (hr : r ∈ rules.items) (ht : Translates r f)
    (h : selects selectorOf objNS rules attachments r f s) :
    ∃ backends, Serves rules selectorOf attachments.items objNS r f backends ∧
    (∀ b ∈ s.backends, b ∈ backends ∧ lostTo (owners selectorOf objNS rules attachments) r f b = none) ∧
    ∀ b o, (b, o) ∈ s.claimed → b ∈ backends ∧ lostTo (owners selectorOf objNS rules attachments) r f b = some o := by
  unfold selects selectRuleBackends at h
  split at h
  · cases h
  next backends pending hcand =>
  cases h
  refine ⟨backends, ⟨hr, ht, pending, hcand⟩, fun b hb => ?_, fun b o hbo => ?_⟩
  · simpa using hb
  obtain ⟨b', hb', hmap⟩ := mem_filterMap.mp hbo
  obtain ⟨o', hlost, heq⟩ := Option.map_eq_some_iff.mp hmap
  cases heq
  exact ⟨hb', hlost⟩

theorem exclusive : Exclusive selectorOf objNS rules attachments := by
  intro f r₁ hr₁ r₂ hr₂ hne ht₁ ht₂ s₁ s₂ hs₁ hs₂ b₁ hb₁ b₂ hb₂
  obtain ⟨_, hserves₁, hkept₁, -⟩ := selects_serves hr₁ ht₁ hs₁
  obtain ⟨_, hserves₂, hkept₂, -⟩ := selects_serves hr₂ ht₂ hs₂
  have hrec₁ := (hserves₁.kept_iff (hkept₁ b₁ hb₁).1).mp (hkept₁ b₁ hb₁).2
  have hrec₂ := (hserves₂.kept_iff (hkept₂ b₂ hb₂).1).mp (hkept₂ b₂ hb₂).2
  exact recorded_apart hrec₁ hrec₂ fun h => hne (rules.eq_of_key hr₁ hr₂ (congrArg Prod.snd h))

theorem lost_cases (hr : r ∈ rules.items) (ht : Translates r f) (h : selects selectorOf objNS rules attachments r f s)
    {b : RuleBackend} {o : NamespacedName} (hbo : (b, o) ∈ s.claimed) :
    (backendClaimFor r b f, r.key) ∈ ruleClaims selectorOf attachments.items objNS r ∧ o ≠ r.key ∧
    (∃ r' ∈ rules.items, r'.key = o ∧ RecordedOn selectorOf objNS rules attachments (backendClaimFor r b f) r') ∧
    (∃ r' ∈ rules.items, ruleOlder r' r ∧ RecordedOn selectorOf objNS rules attachments (backendClaimFor r b f) r') ∧
    ∀ e ∈ owners selectorOf objNS rules attachments,
      (backendClaimFor r b f).intersects e.1 → o.string ≤ e.2.string := by
  obtain ⟨_, hserves, -, hlost⟩ := selects_serves hr ht h
  obtain ⟨hb, hlostb⟩ := hlost b o hbo
  have hnot : (backendClaimFor r b f, r.key) ∉ ruleBackendOwners selectorOf rules.items attachments.items objNS := by
    intro hrec
    exact nomatch ((hserves.kept_iff hb).mpr hrec).symm.trans hlostb
  obtain ⟨howner, hne⟩ := Option.filter_eq_some_iff.mp hlostb
  obtain ⟨⟨e, he, hint, heq⟩, hleast⟩ := (owner_eq_some_iff (owners_named rules)).mp howner
  obtain ⟨r', hr', her'⟩ := rule_of_owner he
  have hkey := (ruleClaims_key her').1
  exact ⟨hserves.claim_mem hb, by simpa using hne, ⟨r', hr', hkey.symm.trans heq, e, he, hkey, hint⟩,
    hserves.blocked hb hnot, hleast⟩

theorem losesForOlder : LosesForOlder selectorOf objNS rules attachments := by
  intro f r hr ht s hs b o hbo
  obtain ⟨-, -, hnamed, holder, -⟩ := lost_cases hr ht hs hbo
  exact ⟨hnamed, holder⟩

theorem ruleOlder_asymm {r r' : Rule} (h : ruleOlder r r') : ¬ruleOlder r' r := by
  rw [ruleOlder_iff] at h ⊢
  exact h.asymm

theorem losesToOlder (h : NamesOlder selectorOf objNS rules attachments) :
    LosesToOlder selectorOf objNS rules attachments := by
  intro f r hr ht s hs b o hbo
  obtain ⟨hclaim, hne, ⟨r₁, hr₁, rfl, hrec⟩, -, hleast⟩ := lost_cases hr ht hs hbo
  refine ⟨r₁, hr₁, rfl, hrec, ?_⟩
  by_contra hyounger
  rw [Bool.not_eq_true, ruleOlder_eq_false] at hyounger
  have hlt : ruleOlder r r₁ := (ruleOlder_iff _ _).mpr (lt_of_le_of_ne hyounger fun heq => hne (key_of_age heq).symm)
  -- the rule named is younger, so an older one has a lesser name, which would have been named
  obtain ⟨r₀, -, -, ⟨e, he, hkey, hint⟩, hname⟩ := h r hr _ hclaim r₁ hr₁ hlt hrec
  exact absurd (hkey ▸ hleast e he hint) (not_le.mpr hname)

theorem namesOlder (h : LosesToOlder selectorOf objNS rules attachments) :
    NamesOlder selectorOf objNS rules attachments := by
  intro r hr c hc r₂ hr₂ hyounger hrec
  obtain ⟨e₂, he₂, hkey₂, hint₂⟩ := hrec
  obtain ⟨vips, backends, pending, f, addr, b, hvips, hcand, hf, hb, rfl⟩ := mem_ruleClaims hc
  have hserves : Serves rules selectorOf attachments.items objNS r f backends :=
    ⟨hr, ⟨vips, addr, hvips, hf⟩, pending, hcand⟩
  have hself : r₂.key ≠ r.key := fun heq => ruleOlder_asymm hyounger (rules.eq_of_key hr₂ hr heq ▸ hyounger)
  -- the recorded claim of the younger rule keeps the rule's own claim out
  obtain ⟨o, ho⟩ : ∃ o, lostTo (owners selectorOf objNS rules attachments) r f b = some o := by
    refine Option.ne_none_iff_exists'.mp fun hnone => ?_
    refine Bool.eq_false_iff.mp (recorded_apart ((hserves.kept_iff hb).mp hnone) he₂ fun heq => hself ?_) hint₂
    exact hkey₂.symm.trans (congrArg Prod.snd heq.symm)
  have hsel : ∃ s, selects selectorOf objNS rules attachments r f s ∧ (b, o) ∈ s.claimed := by
    unfold selects selectRuleBackends
    rw [hcand]
    exact ⟨_, rfl, mem_filterMap.mpr ⟨b, hb, by rw [ho]; rfl⟩⟩
  obtain ⟨s, hs, hbo⟩ := hsel
  obtain ⟨r₁, hr₁, rfl, hrec₁, hold⟩ := h f r hr hserves.translated s hs b o hbo
  refine ⟨r₁, hr₁, hold, hrec₁, lt_of_le_of_ne ?_ fun heq => ?_⟩
  · rw [← hkey₂]
    exact (lost_cases hr hserves.translated hs hbo).2.2.2.2 e₂ he₂ hint₂
  · have hsame := rules.eq_of_key hr₁ hr₂ (r₁.named_key.eq_of_string r₂.named_key heq)
    exact ruleOlder_asymm hyounger (hsame ▸ hold)

theorem agreed : Agreed selectorOf objNS rules attachments := by
  intro rules' attachments' hrules hatts r hr f seen hseen from_ hfrom owners' howners
  have hcand : ruleCandidateBackends selectorOf r seen objNS =
    ruleCandidateBackends selectorOf r attachments.items objNS := by
    rw [candidates_eq_of_perm hatts]
    simp only [mem_cons, not_mem_nil, or_false] at hseen
    rcases hseen with rfl | rfl
    · rfl
    · exact candidates_filter _ rfl
  refine select_congr hcand fun b => ?_
  have hnamed : ∀ e ∈ ruleBackendOwners selectorOf rules'.items from_ objNS, Named e.2 := owners_named rules'
  refine owner_congr (fun e he => hnamed e (howners.subset he)) (owners_named rules) fun e hint => ?_
  rw [howners.mem_iff]
  simp only [mem_cons, not_mem_nil, or_false] at hfrom
  rcases hfrom with rfl | rfl
  · rw [owners, owners_eq_of_perm hrules hatts]
  · rw [owners_filter, mem_filter, owners, owners_eq_of_perm hrules hatts]
    have hvpc : e.1.vpc = r.vpcRef := (intersects_iff.mp hint).1.symm
    simp [hvpc]

/-- **Ownership.** For all rules and attachments, no two rules keep backends whose claims intersect, a backend is lost
only where an older rule's recorded claim intersects, and everyone comes to the same selection. The owner named is
always an older rule exactly when no claim meets a younger rule's recorded claim without an older one's of a lesser
name. -/
theorem ownership (selectorOf : SelectorOf) (objNS : String) (rules : Rules) (attachments : Attachments) :
    Exclusive selectorOf objNS rules attachments ∧ Agreed selectorOf objNS rules attachments ∧
      LosesForOlder selectorOf objNS rules attachments ∧
      (LosesToOlder selectorOf objNS rules attachments ↔ NamesOlder selectorOf objNS rules attachments) :=
  ⟨exclusive, agreed, losesForOlder, namesOlder, losesToOlder⟩

/-! A rule for a range of ports, between an older rule for the first port and a younger one for a port inside. -/

/-- A rule of the namespace `net`, of VPC `v`, with an IPv6 VIP. -/
def vipRule (name : String) (created port : Int) (range : Option PortRange) (named : name ≠ "") : Rule where
  ns := "net"
  name := name
  creationTimestamp := created
  vpcRef := "v"
  vipAddresses := ["2001:db8::1"]
  protocol := .udp
  port := port
  backendPort := port
  portRange := range
  backendSelector := ⟨[("app", "dns")], []⟩
  named := named
  slashless := by decide

def oldest : Rule := vipRule "zone" 1 1000 none (by decide)
def ranged : Rule := vipRule "range" 2 0 (some ⟨1000, 2000⟩) (by decide)
def youngest : Rule := vipRule "admin" 3 1500 none (by decide)

def workload : Attachment := ⟨"net", "web", "u", [], "v", "n", ["2001:db8:1::5/64"], .netns, by decide⟩

def threeRules : Rules := ⟨[youngest, oldest, ranged], by decide⟩

/-- The names in the order of age. -/
def inOrder : Rules := ⟨[vipRule "zone" 3 1500 none (by decide), vipRule "admin" 1 1000 none (by decide), ranged], by
  decide⟩

def oneWorkload : Attachments := ⟨[workload], by decide⟩

def everything : SelectorOf := fun _ => .ok fun _ => true

def rangedBackend : RuleBackend :=
  ⟨⟨"net", "web"⟩, "u", "n", .v6 ⟨[0x20, 1, 0xd, 0xb8, 0, 1, 0, 0, 0, 0, 0, 0, 0, 0, 0, 5], rfl⟩ "", 1000, .veth⟩

theorem translates_ranged : Translates ranged .ipv6 :=
  ⟨⟨.v6 ⟨[0x20, 1, 0xd, 0xb8, 0, 0, 0, 0, 0, 0, 0, 0, 0, 0, 0, 1], rfl⟩ "", .zero, none⟩, _, by
    rfl, mem_singleton_self _⟩

/-- The range's claim meets those of both other rules, and it loses its backend to the older one. -/
theorem ownership_inOrder : ∃ s, selects everything "net" inOrder oneWorkload ranged .ipv6 s ∧
    (rangedBackend, ⟨"net", "admin"⟩) ∈ s.claimed ∧
    (owners everything "net" inOrder oneWorkload).map (·.2.name) = ["admin", "zone"] ∧
    LosesToOlder everything "net" inOrder oneWorkload := by
  have hsel : selectRuleBackends everything ranged [workload]
    (ruleBackendOwners everything inOrder.items [workload] "net")
      .ipv6 "net" = .ok ⟨[], [], [(rangedBackend, ⟨"net", "admin"⟩)]⟩ := by decide +kernel
  have hnames : NamesOlder everything "net" inOrder oneWorkload := by
    unfold NamesOlder RecordedOn
    decide +kernel
  exact ⟨_, hsel, mem_singleton_self _, by
    decide +kernel, (ownership everything "net" inOrder oneWorkload).2.2.2.mpr hnames⟩

/-- The range loses its backend to the younger rule, which has the lesser name. -/
theorem lost_to_younger : ¬ LosesToOlder everything "net" threeRules oneWorkload := by
  have hsel : selectRuleBackends everything ranged [workload]
    (ruleBackendOwners everything threeRules.items [workload] "net")
      .ipv6 "net" = .ok ⟨[], [], [(rangedBackend, youngest.key)]⟩ := by decide +kernel
  intro h
  obtain ⟨r', hr', hkey, -, hold⟩ :=
    h .ipv6 ranged (by simp [threeRules]) translates_ranged _ hsel rangedBackend youngest.key
    (mem_singleton_self _)
  have hy : r' = youngest := threeRules.eq_of_key hr' (by simp [threeRules]) hkey
  rw [hy] at hold
  exact absurd hold (by decide)

end Results

end Galactic.RuleBackends
