import Galactic.Gc.Grace

/-!
# Runs with sweeps

The condition under which the sampled grace is a real one: no reference to a reservation ends while the sweeper still
has a time for it from before that reference, and the reservations of a table are past their grace together. -/

namespace Galactic.Gc

open FallibleProg Vrf List

section
variable (base62ToHex : String → Option String) (nodeName : String)

/-- The condition on one event. A change may end a reference to a reservation only if the sweeper has no time for it, as
it has none after a sweep that saw the reference. A sweep finds reservations of one table past their grace together. -/
def Event.Watched (s : State) : Event → Prop
  | .sweep _ => ∀ r ∈ s.node.reservations, ∀ r' ∈ s.node.reservations, r.table = r'.table →
      s.PastGrace base62ToHex nodeName r → s.PastGrace base62ToHex nodeName r'
  | e => ∀ r, s.seen r ≠ none → s.Refers base62ToHex nodeName r →
      (e.apply base62ToHex nodeName s).Refers base62ToHex nodeName r

def Watched : State → List (Nat × Event) → Prop
  | _, [] => True
  | s, (delay, e) :: events =>
    e.Watched base62ToHex nodeName (s.wait delay) ∧ Watched (e.apply base62ToHex nodeName (s.wait delay)) events

/-- Of the states in `past`, those that lasted into the grace before `now` do not reference the reservation. -/
def Quiet (past : List State) (now : Nat) (r : Reservation) : Prop :=
  ∀ s ∈ past, now < s.now + reservationReleaseGrace → ¬s.Refers base62ToHex nodeName r

/-- What the times that the sweeper has noted say about the states of the past. -/
structure Remembers (past : List State) (s : State) : Prop where
  clock : ∀ s' ∈ past, s'.now ≤ s.now
  quiet : ∀ r first, s.seen r = some first → ¬s.Refers base62ToHex nodeName r →
    ∀ s' ∈ past, first < s'.now → ¬s'.Refers base62ToHex nodeName r

end

variable {base62ToHex : String → Option String} {nodeName : String} {past : List State} {s : State}

theorem history_append (s : State) (events more : List (Nat × Event)) :
    history base62ToHex nodeName s (events ++ more) = history base62ToHex nodeName s events ++
      history base62ToHex nodeName (run base62ToHex nodeName s events) more := by
  induction events generalizing s with
  | nil => rfl
  | cons head events ih => exact congrArg _ (ih _)

theorem watched_append (s : State) (events more : List (Nat × Event)) :
    Watched base62ToHex nodeName s (events ++ more) ↔ Watched base62ToHex nodeName s events ∧
      Watched base62ToHex nodeName (run base62ToHex nodeName s events) more := by
  induction events generalizing s with
  | nil => simp [Watched, run]
  | cons head events ih =>
    obtain ⟨delay, e⟩ := head
    simp only [cons_append, Watched, run, ih, and_assoc]

theorem Remembers.wait (h : Remembers base62ToHex nodeName past s) (delay : Nat) :
    Remembers base62ToHex nodeName (past ++ [s.wait delay]) (s.wait delay) := by
  refine ⟨?_, fun r first hseen hrefers => ?_⟩ <;> refine forall_mem_append.mpr ⟨?_, forall_mem_singleton.mpr ?_⟩
  · exact fun s' hs' => (h.clock s' hs').trans (Nat.le_add_right _ _)
  · exact Nat.le_refl _
  · exact h.quiet r first hseen hrefers
  · exact fun _ => hrefers

theorem Remembers.change (h : Remembers base62ToHex nodeName past s) {s' : State} (hnow : s'.now = s.now)
    (hseen : ∀ r first, s'.seen r = some first → s.seen r = some first)
    (hends : ∀ r, s.seen r ≠ none → s.Refers base62ToHex nodeName r → s'.Refers base62ToHex nodeName r) :
    Remembers base62ToHex nodeName past s' := by
  refine ⟨fun s'' hs'' => hnow ▸ h.clock s'' hs'', fun r first hfirst hrefers => ?_⟩
  have hold := hseen r first hfirst
  exact h.quiet r first hold fun hbefore => hrefers (hends r (by rw [hold]; exact Option.some_ne_none _) hbefore)

theorem Swept.refers_iff {s₀ : State} (h : Swept base62ToHex nodeName s₀ s) (r : Reservation) :
    s.Refers base62ToHex nodeName r ↔ s₀.Refers base62ToHex nodeName r := by
  unfold State.Refers
  rw [h.vrfs, h.rows, h.instNames]

theorem Remembers.swept {s₀ : State} (h : Remembers base62ToHex nodeName past s₀)
    (hswept : Swept base62ToHex nodeName s₀ s) : Remembers base62ToHex nodeName past s := by
  refine ⟨fun s' hs' => hswept.now ▸ h.clock s' hs', fun r first hfirst hrefers s' hs' hlt => ?_⟩
  rcases hswept.seen r first hfirst with hold | ⟨rfl, -⟩
  · exact h.quiet r first hold (fun hbefore => hrefers ((hswept.refers_iff r).mpr hbefore)) s' hs' hlt
  · -- a time noted now is after every state of the past
    exact absurd hlt (Nat.not_lt.mpr (h.clock s' hs'))

section
variable (h : Remembers base62ToHex nodeName past s)

include h

theorem Remembers.apply {e : Event} (he : e.Watched base62ToHex nodeName s) :
    Remembers base62ToHex nodeName past (e.apply base62ToHex nodeName s) := by
  cases e with
  | node | rows | instances | routes => exact h.change rfl (fun _ _ hfirst => hfirst) he
  | restart => exact h.change rfl (fun _ _ hfirst => nomatch hfirst) he
  | sweep w => exact h.swept (s.sweep_swept w)

theorem Remembers.run {events : List (Nat × Event)} (hevents : Watched base62ToHex nodeName s events) :
    Remembers base62ToHex nodeName (past ++
      history base62ToHex nodeName s events) (run base62ToHex nodeName s events) := by
  induction events generalizing past s with
  | nil =>
    rw [history, append_nil]
    exact h
  | cons head events ih =>
    obtain ⟨delay, e⟩ := head
    have hstep := ih ((h.wait delay).apply hevents.1) hevents.2
    rw [append_assoc] at hstep
    exact hstep

/-- What the sweeper takes for the grace is one, in a state that the past is remembered in. -/
theorem Remembers.quiet_of_pastGrace {r : Reservation} (hpast : s.PastGrace base62ToHex nodeName r) :
    Quiet base62ToHex nodeName past s.now r := by
  obtain ⟨hrefers, first, hseen, hgrace⟩ := hpast
  intro s' hs' hlt
  have := grace_pos
  exact h.quiet r first hseen hrefers s' hs' (by omega)

end

/-- **Grace.** In a run whose events are all watched, a sweep releases a reservation, and removes the routes of a table,
only after a grace without a reference to the reservation, and to every reservation of the table. -/
theorem sweep_waits (start : State) (hstart : ∀ r, start.seen r = none) (events : List (Nat × Event)) (delay : Nat)
    (w : World) (h : Watched base62ToHex nodeName start (events ++ [(delay, .sweep w)])) :
    let before := (run base62ToHex nodeName start events).wait delay
    let after := before.sweep base62ToHex nodeName w
    let past := history base62ToHex nodeName start (events ++ [(delay, .sweep w)])
    (∀ r ∈ before.node.reservations, r ∉ after.node.reservations → Quiet base62ToHex nodeName past before.now r) ∧
    ∀ e ∈ before.egress, e ∉ after.egress →
      (∀ r ∈ before.node.reservations, r.table = e.table → Quiet base62ToHex nodeName past before.now r) ∧
      (∀ l ∈ before.node.vrfs, l.table ≠ e.table) ∧ e.table ∉ before.rows := by
  intro before after past
  have hempty : Remembers base62ToHex nodeName [] start :=
    ⟨fun _ hs => (nomatch hs), fun r first hseen => (nomatch (hstart r).symm.trans hseen)⟩
  obtain ⟨hevents, hagree, -⟩ := (watched_append start events [(delay, .sweep w)]).mp h
  have hpast : past = history base62ToHex nodeName start events ++ [before] := history_append start events _
  have hremembers : Remembers base62ToHex nodeName past before := by
    rw [hpast]
    exact (hempty.run hevents).wait delay
  have hswept : Swept base62ToHex nodeName before after := before.sweep_swept w
  refine ⟨fun r hr hgone => ?_, fun e he hgone => ?_⟩
  · exact hremembers.quiet_of_pastGrace ((hswept.reservations r hr).resolve_left hgone)
  rcases (hswept.egress e he).resolve_left hgone with ⟨r, hr, htable, hr'⟩ | ⟨hall, hvrfs, hrows⟩
  · have hunref := hr'.1
    unfold State.Refers referenced at hunref
    refine ⟨fun r' hr' htable' => ?_, fun l hl heq => ?_, fun hrow => ?_⟩
    · exact hremembers.quiet_of_pastGrace (hagree r hr r' hr' (htable.trans htable'.symm) ‹_›)
    · exact hunref (.inr (.inr (.inl (mem_map.mpr ⟨l, hl, heq.trans htable.symm⟩))))
    · exact hunref (.inr (.inr (.inr (.inl (htable ▸ hrow)))))
  · exact ⟨fun r hr htable => hremembers.quiet_of_pastGrace (hall r hr htable),
      fun l hl heq => hvrfs (mem_map.mpr ⟨l, hl, heq⟩), hrows⟩

/-! ### Runs of two sweeps -/

def seconds (n : Nat) : Nat := n * 1000000000

def unswept (res : List Reservation) (names : List String) (egress : List EgressRoute) : State :=
  ⟨⟨some res, [], []⟩, [], names, egress, fun _ => none, 0⟩

def heldByA : State := unswept [⟨"G00000000aV", 1⟩] [] [⟨1, "10.0.0.0/8"⟩]

def afterSweep : State := (run some "n" heldByA [(0, .sweep {})]).wait (seconds 120)

theorem sweep_waits_twoSweeps :
    (⟨"G00000000aV", 1⟩ : Reservation) ∈ afterSweep.node.reservations ∧
    (⟨"G00000000aV", 1⟩ : Reservation) ∉ (afterSweep.sweep some "n" {}).node.reservations ∧
    Quiet some "n" (history some "n" heldByA [(0, .sweep {}), (seconds 120, .sweep {})]) afterSweep.now
      ⟨"G00000000aV", 1⟩ := by
  have hwatched : Watched some "n" heldByA [(0, .sweep {}), (seconds 120, .sweep {})] := by
    unfold Watched Watched Watched Event.Watched
    decide +kernel
  refine ⟨?stays, ?goes, (sweep_waits heldByA (fun _ => rfl) [(0, .sweep {})]
    (seconds 120) {} hwatched).1 _ ?stays ?goes⟩
  · decide +kernel
  · decide +kernel

/-- The VRF of the reservation comes back for half a minute between two sweeps. -/
def blink : List (Nat × Event) :=
  let created := (Call.addInRange {} "a" hostRange).step heldByA.node
  [(0, .sweep {}), (seconds 60, .node created),
    (seconds 30, .node ((Call.deleteIfUnused {} "G00000000aV").step created))]

def afterBlink : State := (run some "n" heldByA blink).wait (seconds 30)

/-- Two names for one table, one of which has an instance. -/
def heldByAAndB : State := unswept [⟨"G00000000aV", 7⟩, ⟨"G00000000bV", 7⟩] ["b-n"] [⟨7, "10.0.0.0/8"⟩]

def afterSharedSweep : State := (run some "n" heldByAAndB [(0, .sweep {})]).wait (seconds 120)

theorem sweep_does_not_wait :
    ((⟨"G00000000aV", 1⟩ : Reservation) ∈ afterBlink.node.reservations ∧
      (⟨"G00000000aV", 1⟩ : Reservation) ∉ (afterBlink.sweep some "n" {}).node.reservations ∧
      ∃ s ∈ history some "n" heldByA (blink ++ [(seconds 30, .sweep {})]),
        afterBlink.now < s.now + reservationReleaseGrace ∧ s.Refers some "n" ⟨"G00000000aV", 1⟩) ∧
    (⟨7, "10.0.0.0/8"⟩ ∈ afterSharedSweep.egress ∧ ⟨7, "10.0.0.0/8"⟩ ∉ (afterSharedSweep.sweep some "n" {}).egress ∧
      (⟨"G00000000bV", 7⟩ : Reservation) ∈ (afterSharedSweep.sweep some "n" {}).node.reservations ∧
      afterSharedSweep.Refers some "n" ⟨"G00000000bV", 7⟩) := by
  decide +kernel

end Galactic.Gc
