import Galactic.Gc.VrfTables
import Galactic.Vrf.Bound

/-!
# The grace of a reservation

A sweep only samples the references, so the time it has noted for a reservation bounds its unreferenced time only while
no reference comes and goes between two sweeps. -/

namespace Galactic.Gc

open FallibleProg Vrf List Function

variable {base62ToHex : String → Option String} {nodeName : String}

section
variable (base62ToHex nodeName)

def State.Refers (s : State) (r : Reservation) : Prop :=
  referenced base62ToHex nodeName r s.node.vrfs s.rows s.instNames

instance (s : State) (r : Reservation) : Decidable (s.Refers base62ToHex nodeName r) := by
  unfold State.Refers
  infer_instance

def State.PastGrace (s : State) (r : Reservation) : Prop :=
  ¬s.Refers base62ToHex nodeName r ∧ ∃ first, s.seen r = some first ∧ reservationReleaseGrace ≤ s.now - first

instance (s : State) (r : Reservation) : Decidable (s.PastGrace base62ToHex nodeName r) :=
  inferInstanceAs (Decidable (_ ∧ ∃ first ∈ s.seen r, reservationReleaseGrace ≤ s.now - first))

/-- Why a sweep of this state may remove the routes of a table. -/
def State.Free (s : State) (table : Nat) : Prop :=
  (∃ r ∈ s.node.reservations, r.table = table ∧ s.PastGrace base62ToHex nodeName r) ∨
    ((∀ r ∈ s.node.reservations, r.table = table → s.PastGrace base62ToHex nodeName r) ∧
      table ∉ s.node.vrfs.map (·.table) ∧ table ∉ s.rows)

/-- What every point of a sweep of `s₀` keeps. -/
structure Swept (s₀ s : State) : Prop where
  vrfs : s.node.vrfs = s₀.node.vrfs
  rows : s.rows = s₀.rows
  instNames : s.instNames = s₀.instNames
  now : s.now = s₀.now
  seen : ∀ r first, s.seen r = some first →
    s₀.seen r = some first ∨ (first = s₀.now ∧ ¬s₀.Refers base62ToHex nodeName r)
  reservations : ∀ r ∈ s₀.node.reservations, r ∈ s.node.reservations ∨ s₀.PastGrace base62ToHex nodeName r
  egress : ∀ e ∈ s₀.egress, e ∈ s.egress ∨ s₀.Free base62ToHex nodeName e.table

end

theorem Swept.refl (s : State) : Swept base62ToHex nodeName s s :=
  ⟨rfl, rfl, rfl, rfl, fun _ _ h => .inl h, fun _ hr => .inl hr, fun _ he => .inl he⟩

variable {s₀ : State} {w : World}

/-! ### Steps of a sweep -/

theorem forget_spec {r : Reservation} {E : Err → State → Prop} :
    Triple (Swept base62ToHex nodeName s₀) (forget r) (fun _ => Swept base62ToHex nodeName s₀) E := by
  refine .modify fun s hs => ⟨hs.vrfs, hs.rows, hs.instNames, hs.now, fun r' first hseen => ?_, hs.reservations,
    hs.egress⟩
  by_cases heq : r' = r
  · rw [heq] at hseen
    simp at hseen
  · exact hs.seen r' first (by simpa [heq] using hseen)

theorem grace_pos : 0 < reservationReleaseGrace := by decide

theorem elapsed_spec {r : Reservation} (hr : ¬s₀.Refers base62ToHex nodeName r) {E : Err → State → Prop} :
    Triple (Swept base62ToHex nodeName s₀) (elapsed r s₀.now reservationReleaseGrace)
      (fun past s => Swept base62ToHex nodeName s₀ s ∧ (past → s₀.PastGrace base62ToHex nodeName r)) E := by
  refine .get_bind fun s hs => ?_
  rcases hseen : s.seen r with _ | first
  · refine .bind (.modify (Q := fun _ => Swept base62ToHex nodeName s₀) fun s' hs' => ?_) fun _ =>
      .pure fun s' hs' => ⟨hs', fun h => nomatch h⟩
    subst hs'
    refine ⟨hs.vrfs, hs.rows, hs.instNames, hs.now, fun r' first hfirst => ?_, hs.reservations, hs.egress⟩
    by_cases heq : r' = r
    · subst heq
      exact .inr ⟨by simpa using hfirst.symm, hr⟩
    · exact hs.seen r' first (by simpa [heq] using hfirst)
  · refine .pure fun s' hs' => ⟨hs' ▸ hs, fun hpast => ⟨hr, first, ?_, by simpa using hpast⟩⟩
    rcases hs.seen r first hseen with hold | ⟨hnow, -⟩
    · exact hold
    -- the grace is positive, so that the time was not noted by this sweep
    have := grace_pos
    simp only [decide_eq_true_eq] at hpast
    omega

theorem removeEgressTable_spec {table : Nat} (hfree : s₀.Free base62ToHex nodeName table) (routes : List String) :
    Triple (Swept base62ToHex nodeName s₀) (removeEgressTable w table routes)
      (fun _ => Swept base62ToHex nodeName s₀) fun _ => Swept base62ToHex nodeName s₀ := by
  induction routes with
  | nil => exact .pure fun s hs => hs
  | cons route routes ih =>
    refine .check_bind (fun s hs => hs) (.bind (.modify fun s hs => ?_) fun _ =>
      .bind ih fun _ => .pure fun s hs => hs)
    refine ⟨hs.vrfs, hs.rows, hs.instNames, hs.now, hs.seen, hs.reservations, fun e he => ?_⟩
    rcases hs.egress e he with hin | hgone
    · by_cases heq : e = ⟨table, route⟩
      · rw [heq]
        exact .inr hfree
      · exact .inl (mem_filter.mpr ⟨hin, decide_eq_true heq⟩)
    · exact .inr hgone

theorem onNode_spec {α : Type} {wrap : Vrf.Err → Err} {m : Vrf.M α} {s : State} {Q : α → Node → Prop} {F : Node → Prop}
    (hm : From s.node m Q fun _ => F) :
    From s (onNode wrap m) (fun a s' => ∃ n, Q a n ∧ s' = { s with node := n })
      fun _ s' => ∃ n, F n ∧ s' = { s with node := n } := by
  refine .get_from ?_
  have hend := hm s.node rfl
  have hset : From s (set { s with node := (exec m s.node).2 } : M PUnit)
      (fun _ s' => s' = { s with node := (exec m s.node).2 }) fun _ s' => ∃ n, F n ∧ s' = { s with node := n } :=
    fun _ _ => rfl
  refine .bind hset fun _ => ?_
  rcases hexec : exec m s.node with ⟨e | a, n⟩ <;> rw [hexec] at hend
  · exact .throw fun _ hs => ⟨n, hend, hs⟩
  · exact .pure fun _ hs => ⟨n, hend, hs⟩

theorem releaseLocked_frame {w : Vrf.World} {name : String} {table : Nat} {n₀ : Node} :
    From n₀ (releaseLocked w name table)
      (fun _ n => n.vrfs = n₀.vrfs ∧ ∀ r ∈ n₀.reservations, r ∈ n.reservations ∨ r = ⟨name, table⟩)
      fun _ n => n.vrfs = n₀.vrfs ∧ ∀ r ∈ n₀.reservations, r ∈ n.reservations ∨ r = ⟨name, table⟩ := by
  have hstart : ∀ n, n = n₀ → n.vrfs = n₀.vrfs ∧ ∀ r ∈ n₀.reservations, r ∈ n.reservations ∨ r = ⟨name, table⟩ :=
    fun n hn => hn ▸ ⟨rfl, fun r hr => .inl hr⟩
  refine .bind (.onError loadReservations_spec fun _ n hn => hstart n hn) fun res => .named fun n hn => ?_
  obtain ⟨rfl, rfl⟩ := hn
  rcases hrel : releaseTable n.reservations name table with ⟨kept, _ | _⟩
  · exact .pure hstart
  obtain rfl : n.reservations.filter (fun r => ¬(r.name = name ∧ r.table = table)) = kept := congrArg Prod.fst hrel
  refine .check_bind hstart (.modify fun n' hn' => ⟨by rw [hn'], fun r hr => ?_⟩)
  by_cases hown : r.name = name ∧ r.table = table
  · obtain ⟨rfl, rfl⟩ := hown
    exact .inr rfl
  · exact .inl ((perm_insertionSort _ _).mem_iff.mpr (mem_filter.mpr ⟨hr, decide_eq_true hown⟩))

theorem release_spec {w : Vrf.World} {r : Reservation} (hpast : s₀.PastGrace base62ToHex nodeName r) :
    Triple (Swept base62ToHex nodeName s₀) (onNode .release (releaseLocked w r.name r.table))
      (fun _ => Swept base62ToHex nodeName s₀) fun _ => Swept base62ToHex nodeName s₀ := by
  refine .named fun s hs => ?_
  have hnode : ∀ s', (∃ n : Node, (n.vrfs = s.node.vrfs ∧
      ∀ r' ∈ s.node.reservations, r' ∈ n.reservations ∨ r' = ⟨r.name, r.table⟩) ∧ s' = { s with node := n }) →
      Swept base62ToHex nodeName s₀ s' := by
    rintro s' ⟨n, ⟨hvrfs, hres⟩, rfl⟩
    refine ⟨hvrfs.trans hs.vrfs, hs.rows, hs.instNames, hs.now, hs.seen, fun r' hr' => ?_, hs.egress⟩
    rcases hs.reservations r' hr' with hin | hgone
    · rcases hres r' hin with hin | rfl
      · exact .inl hin
      · exact .inr hpast
    · exact .inr hgone
  exact .imp (onNode_spec releaseLocked_frame) (fun _ s' h => hnode s' h) fun _ s' h => hnode s' h

/-! ### The loops -/

theorem releaseOne_spec {r : Reservation} (hr : r ∈ s₀.node.reservations) {p : Pass} {E : Err → State → Prop} :
    Triple (Swept base62ToHex nodeName s₀)
      (releaseOne base62ToHex nodeName w s₀.node.vrfs s₀.rows s₀.instNames s₀.now r p)
      (fun p' s => Swept base62ToHex nodeName s₀ s ∧ (p'.reserved = p.reserved ∨
        (p'.reserved = update p.reserved r.table (p.reserved r.table - 1) ∧
          s₀.PastGrace base62ToHex nodeName r))) E := by
  unfold releaseOne
  split_ifs with hrefers
  · exact .bind forget_spec fun _ => .pure fun s hs => ⟨hs, .inl rfl⟩
  refine .bind (elapsed_spec hrefers) fun past => .named fun s hs => ?_
  obtain ⟨hs, hpast⟩ := hs
  rcases past with _ | _
  · exact .pure fun s' hs' => ⟨hs' ▸ hs, .inl rfl⟩
  have hpast := hpast rfl
  have hfree : s₀.Free base62ToHex nodeName r.table := .inl ⟨r, hr, rfl, hpast⟩
  refine .bind (.given (removeEgressTable_spec hfree _).attempt (fun s' hs' => hs' ▸ hs)) fun out => ?_
  rcases out with e | removed
  · exact .pure fun s' hs' => ⟨hs', .inl rfl⟩
  refine .bind (release_spec hpast).attempt fun out => ?_
  rcases out with e | _
  · exact .pure fun s' hs' => ⟨hs', .inl rfl⟩
  · exact .bind forget_spec fun _ => .pure fun s' hs' => ⟨hs', .inr ⟨rfl, hpast⟩⟩

theorem releaseLoop_spec {E : Err → State → Prop} (res : List Reservation) (hres : ∀ r ∈ res, r ∈ s₀.node.reservations)
    (k : Nat → Nat) {p : Pass} (hp : ∀ t, res.countP (fun r => r.table = t) + k t ≤ p.reserved t) :
    Triple (Swept base62ToHex nodeName s₀)
      (releaseLoop base62ToHex nodeName w s₀.node.vrfs s₀.rows s₀.instNames s₀.now res p)
      (fun p' s => Swept base62ToHex nodeName s₀ s ∧ (∀ t, k t ≤ p'.reserved t) ∧
        ∀ r ∈ res, ¬s₀.PastGrace base62ToHex nodeName r → k r.table + 1 ≤ p'.reserved r.table) E := by
  induction res generalizing k p with
  | nil => exact .pure fun s hs => ⟨hs, fun t => by simpa using hp t, fun r hr => nomatch hr⟩
  | cons r res ih =>
    obtain ⟨hr, hres⟩ := forall_mem_cons.mp hres
    refine .bind (releaseOne_spec hr) fun p₁ => .named fun s hs => ?_
    obtain ⟨hs, hstep⟩ := hs
    have hcount : ∀ t, (r :: res).countP (fun r => r.table = t) =
        res.countP (fun r => r.table = t) + if r.table = t then 1 else 0 := by
      intro t
      rw [countP_cons]
      simp
    rcases hstep with hsame | ⟨hless, hpast⟩
    · -- the reservation is left, which raises the bound for its table
      have hp₁ : ∀ t, res.countP (fun r => r.table = t) + (k t + if r.table = t then 1 else 0) ≤ p₁.reserved t := by
        intro t
        have := hp t
        rw [hcount t] at this
        rw [hsame]
        omega
      refine .weaken (ih hres _ hp₁) (fun s' hs' => hs' ▸ hs) ?_ fun _ _ h => h
      rintro p' s' ⟨hs', hall, hleft⟩
      refine ⟨hs', fun t => (Nat.le_add_right _ _).trans (hall t),
        forall_mem_cons.mpr ⟨fun _ => ?_, fun r' hr' hnot => ?_⟩⟩
      · simpa using hall r.table
      · have := hleft r' hr' hnot
        omega
    have hp₁ : ∀ t, res.countP (fun r => r.table = t) + k t ≤ p₁.reserved t := by
      intro t
      have := hp t
      rw [hcount t] at this
      rw [hless]
      by_cases heq : r.table = t
      · subst heq
        rw [if_pos rfl] at this
        rw [update_self]
        omega
      · rw [if_neg heq] at this
        rw [update_of_ne (Ne.symm heq)]
        omega
    refine .weaken (ih hres _ hp₁) (fun s' hs' => hs' ▸ hs) ?_ fun _ _ h => h
    rintro p' s' ⟨hs', hall, hleft⟩
    exact ⟨hs', hall, forall_mem_cons.mpr ⟨fun hnot => absurd hpast hnot, hleft⟩⟩

theorem removeLoop_spec {E : Err → State → Prop} {reserved : Nat → Nat}
    (hreserved : ∀ r ∈ s₀.node.reservations, ¬s₀.PastGrace base62ToHex nodeName r → 1 ≤ reserved r.table)
    (byTable : List (Nat × List String)) (result : CleanupResult) :
    Triple (Swept base62ToHex nodeName s₀) (removeLoop w s₀.node.vrfs s₀.rows reserved byTable result)
      (fun _ => Swept base62ToHex nodeName s₀) E := by
  induction byTable generalizing result with
  | nil => exact .pure fun s hs => hs
  | cons head byTable ih =>
    obtain ⟨table, routes⟩ := head
    unfold removeLoop
    split_ifs with hskip
    · exact ih result
    obtain ⟨-, hzero, hvrfs, hrows⟩ : ¬¬hostTable table ∧ ¬0 < reserved table ∧ _ := by
      simpa only [not_or] using hskip
    have hfree : s₀.Free base62ToHex nodeName table := by
      refine .inr ⟨fun r hr htable => not_not.mp fun hnot => hzero ?_, hvrfs, hrows⟩
      exact htable ▸ hreserved r hr hnot
    refine .bind (removeEgressTable_spec hfree routes).attempt fun out => ?_
    rcases out with e | removed
    · exact ih _
    · exact ih _

theorem load_spec {w : Vrf.World} {s : State} : From s (onNode .reservations (loadReservations w))
      (fun res s' => s' = s ∧ res = s.node.reservations) fun _ s' => s' = s := by
  refine .imp (onNode_spec loadReservations_spec) ?_ ?_
  · rintro res s' ⟨n, ⟨rfl, hres⟩, rfl⟩
    exact ⟨rfl, hres⟩
  · rintro e s' ⟨n, rfl, rfl⟩
    rfl

theorem sweepLocked_spec {s : State} {result : CleanupResult} :
    From s (sweepLocked base62ToHex nodeName w result)
      (fun _ => Swept base62ToHex nodeName s) fun _ => Swept base62ToHex nodeName s := by
  have hstart : ∀ s', s' = s → Swept base62ToHex nodeName s s' := by
    intro s' hs'
    subst hs'
    exact Swept.refl s'
  refine .check_bind hstart (.bind (.onError load_spec fun _ => hstart) fun res => .named fun s' hs' => ?_)
  obtain ⟨rfl, rfl⟩ := hs'
  refine .check_bind hstart (.check_bind hstart ?_)
  split_ifs with hpinned
  · exact .pure hstart
  refine .check_bind hstart (.check_bind hstart (.get_bind fun s hs => ?_))
  subst hs
  refine .bind (.given (releaseLoop_spec s.node.reservations (fun _ hr => hr) (fun _ => 0) fun t => le_rfl) hstart)
    fun p => .named fun s' hs' => ?_
  obtain ⟨hs', -, hleft⟩ := hs'
  exact .given (removeLoop_spec (fun r hr hnot => by simpa using hleft r hr hnot) _ _) (fun s hs => hs ▸ hs')

theorem State.sweep_swept (s : State) (w : World) : Swept base62ToHex nodeName s (s.sweep base62ToHex nodeName w) :=
  Triple.state (.tryCatch sweepLocked_spec fun _ => .pure fun _ h => h) rfl

end Galactic.Gc
