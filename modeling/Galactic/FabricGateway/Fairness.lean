import Galactic.FabricGateway.Executor
import Galactic.Lib.FirstMatch
import Galactic.Lib.TurnRing

/-!
# Fairness of the dispatch

Principals are served in the order of the ring from the cursor on. A principal whose head may be granted is passed over
by nobody, so who is granted before it was ahead of it and comes after it then. A principal joins at the end of the
list, which is not the end of the order when the cursor has moved on. -/

namespace Galactic.FabricGateway

open TurnRing FirstMatch List Function Nat

namespace Executor

variable {e e' : Executor} {w : Waiter} {idx : Nat} {p q : String}

/-- The ring holds the principals with waiters, each once, and the cursor is in it. -/
structure Inv (e : Executor) : Prop where
  nodup : e.ring.Nodup
  mem : ∀ p, p ∈ e.ring ↔ e.queues p ≠ []
  next : e.next = 0 ∨ e.next < e.ring.length
  own : ∀ p, ∀ w ∈ e.queues p, w.project = p

theorem Inv.next_le (h : e.Inv) : e.next ≤ e.ring.length := by
  rcases h.next with h | h <;> omega

/-- The principals in the order in which they are served. -/
def turn (e : Executor) : List String := e.ring.rotate e.next

theorem mem_turn : p ∈ e.turn ↔ p ∈ e.ring := mem_rotate

theorem Inv.nodup_turn (h : e.Inv) : e.turn.Nodup := nodup_rotate.mpr h.nodup

/-- The queue's head may be granted: the principal is below its share, and the head is cheap or there is an expensive
slot. -/
def Grantable (e : Executor) (q : String) : Prop :=
  (e.principalSlots ≤ 0 ∨ e.active q < e.principalSlots) ∧
    ∃ w ∈ (e.queues q).head?, w.expensive = false ∨ e.expUse < e.expSlots

instance (e : Executor) (q : String) : Decidable (e.Grantable q) := by unfold Grantable; infer_instance

theorem Grantable.head (h : e.Grantable q) :
    ∃ w ws, e.queues q = w :: ws ∧ (w.expensive = false ∨ e.expUse < e.expSlots) := by
  obtain ⟨-, w, hhead, hw⟩ := h
  obtain ⟨ws, hqueue⟩ := head?_eq_some_iff.mp hhead
  exact ⟨w, ws, hqueue, hw⟩

theorem Grantable.pick (h : e.Grantable q) : ∃ w, e.pick q = some w := by
  obtain ⟨w, ws, hqueue, hw⟩ := h.head
  have hshare := h.1
  unfold Executor.pick
  rw [if_neg (by omega), hqueue]
  have hallowed : e.allowed w := by
    unfold allowed
    rcases hw with hw | hw
    · simp [hw]
    · simp only [not_and, decide_eq_true_eq]
      exact fun _ => by omega
  exact ⟨w, find?_cons_of_pos hallowed⟩

theorem Grantable.mem_ring (h : e.Grantable q) (he : e.Inv) : q ∈ e.ring := by
  obtain ⟨w, ws, hqueue, -⟩ := h.head
  rw [he.mem, hqueue]
  exact cons_ne_nil _ _

/-! ### The steps of a run -/

/-- What changes the ring: a waiter is queued, granted or removed. Everything else only counts. -/
inductive Moves : Executor → Label → Executor → Prop
  | queued (e : Executor) (w : Waiter) : Moves e (.queued w.project) (e.enqueue w)
  | granted (e : Executor) {idx : Nat} {w : Waiter} (h : e.search = some (idx, w)) :
      Moves e (.granted w.project) (e.grant idx w)
  | removed (e : Executor) {w : Waiter} (h : w ∈ e.queues w.project) : Moves e .other (e.removeLocked w)
  | counted {e e' : Executor} (hring : e'.ring = e.ring) (hnext : e'.next = e.next) (hqueues : e'.queues = e.queues) :
    Moves e .other e'

theorem Inv.counted (h : e.Inv) (hring : e'.ring = e.ring) (hnext : e'.next = e.next) (hqueues : e'.queues = e.queues) :
    e'.Inv := by
  refine ⟨?_, ?_, ?_, ?_⟩
  · rw [hring]
    exact h.nodup
  · rw [hring, hqueues]
    exact h.mem
  · rw [hring, hnext]
    exact h.next
  · rw [hqueues]
    exact h.own

theorem Inv.enqueue (h : e.Inv) (w : Waiter) : (e.enqueue w).Inv := by
  have hqueues : ∀ p, (e.enqueue w).queues p = if p = w.project then e.queues p ++ [w] else e.queues p := by
    intro p
    show update e.queues w.project _ p = _
    by_cases hp : p = w.project
    · subst hp
      simp
    · simp [hp]
  have hring : (e.enqueue w).ring = if e.queues w.project = [] then e.ring ++ [w.project] else e.ring := rfl
  refine ⟨?_, fun p => ?_, ?_, fun p w' hw' => ?_⟩
  · rw [hring]
    split_ifs with hnil
    · rw [nodup_append]
      refine ⟨h.nodup, nodup_singleton _, fun x hx y hy => ?_⟩
      rw [mem_singleton.mp hy]
      intro heq
      exact (h.mem x).mp hx (heq ▸ hnil)
    · exact h.nodup
  · rw [hring, hqueues]
    by_cases hp : p = w.project
    · rw [if_pos hp, hp]
      split_ifs with hnil
      · simp
      · simp [h.mem, hnil]
    rw [if_neg hp, ← h.mem]
    split_ifs
    · simp [hp]
    · rfl
  · show e.next = 0 ∨ e.next < _
    rw [hring]
    rcases h.next with h0 | hlt
    · exact .inl h0
    right
    split_ifs
    · rw [length_append]
      omega
    · exact hlt
  · rw [hqueues] at hw'
    split_ifs at hw' with hp
    · rcases mem_append.mp hw' with hold | hnew
      · exact h.own p w' hold
      · rw [mem_singleton.mp hnew, hp]
    · exact h.own p w' hw'

theorem turn_enqueue (h : e.Inv) (w : Waiter) :
    (e.enqueue w).turn =
      if e.queues w.project = [] then e.ring.drop e.next ++ w.project :: e.ring.take e.next else e.turn := by
  show (if e.queues w.project = [] then e.ring ++ [w.project] else e.ring).rotate e.next = _
  split_ifs
  · exact rotate_concat h.next_le w.project
  · rfl

/-! ### Waiters that leave -/

theorem turn_leave (h : e.ring.Nodup) (hnext : e.next ≤ e.ring.length) (hp : p ∈ e.ring) :
    (e.leave p).turn = e.turn.erase p := by
  have herase := rotate_erase h hnext hp
  show (e.ring.erase p).rotate (if e.ring.erase p = [] then 0
    else (if e.ring.idxOf p < e.next ∧ p ∈ e.ring then e.next - 1 else e.next) % (e.ring.erase p).length) = _
  simp only [hp, and_true]
  by_cases hnil : e.ring.erase p = []
  · rw [hnil, rotate_nil] at herase ⊢
    exact herase
  · rw [if_neg hnil, rotate_mod]
    exact herase

theorem removeLocked_cases (h : w ∈ e.queues w.project) :
    (∀ p, (e.removeLocked w).queues p = if p = w.project then (e.queues p).erase w else e.queues p) ∧
    (((e.removeLocked w).queues w.project ≠ [] ∧ (e.removeLocked w).ring = e.ring ∧ (e.removeLocked w).next = e.next) ∨
    ((e.removeLocked w).queues w.project = [] ∧ (e.removeLocked w).ring = e.ring.erase w.project ∧
      (e.removeLocked w).next = (e.leave w.project).next)) := by
  have hqueues : ∀ p, update e.queues w.project ((e.queues w.project).erase w) p =
      if p = w.project then (e.queues p).erase w else e.queues p := by
    intro p
    by_cases hp : p = w.project
    · subst hp
      simp
    · simp [hp]
  unfold removeLocked
  simp only [if_pos h]
  split_ifs with hnil
  · exact ⟨hqueues, .inr ⟨hnil, rfl, rfl⟩⟩
  · exact ⟨hqueues, .inl ⟨hnil, rfl, rfl⟩⟩

theorem next_leave (e : Executor) (p : String) : (e.leave p).next = 0 ∨ (e.leave p).next < (e.ring.erase p).length := by
  show (if e.ring.erase p = [] then 0 else _) = 0 ∨ (if e.ring.erase p = [] then 0 else _) < _
  by_cases hnil : e.ring.erase p = []
  · exact .inl (if_pos hnil)
  · rw [if_neg hnil]
    exact .inr (mod_lt _ (length_pos_of_ne_nil hnil))

section
variable (h : e.Inv) (hw : w ∈ e.queues w.project)

include h hw

theorem Inv.removed (hqueues : ∀ p, e'.queues p = if p = w.project then (e.queues p).erase w else e.queues p)
    (hring : (e'.queues w.project ≠ [] ∧ e'.ring = e.ring) ∨ (e'.queues w.project = [] ∧
      e'.ring = e.ring.erase w.project)) (hnext : e'.next = 0 ∨ e'.next < e'.ring.length) : e'.Inv := by
  have hmem : w.project ∈ e.ring := (h.mem _).mpr (ne_nil_of_mem hw)
  refine ⟨?_, fun p => ?_, hnext, fun p w' hw' => ?_⟩
  · rcases hring with ⟨-, hring⟩ | ⟨-, hring⟩
    · rw [hring]
      exact h.nodup
    · rw [hring]
      exact h.nodup.erase _
  · by_cases hp : p = w.project
    · subst hp
      rcases hring with ⟨hne, hring⟩ | ⟨hnil, hring⟩
      · simp [hring, hmem, hne]
      · simp [hring, hnil, h.nodup.mem_erase_iff]
    have hsame : e'.queues p = e.queues p := by rw [hqueues, if_neg hp]
    rw [hsame, ← h.mem]
    rcases hring with ⟨-, hring⟩ | ⟨-, hring⟩
    · rw [hring]
    · rw [hring, mem_erase_of_ne hp]
  · rw [hqueues] at hw'
    split_ifs at hw' with hp
    · exact h.own p w' (mem_of_mem_erase hw')
    · exact h.own p w' hw'

theorem Inv.removeLocked : (e.removeLocked w).Inv := by
  obtain ⟨hqueues, ⟨hne, hring, hnext⟩ | ⟨hnil, hring, hnext⟩⟩ := removeLocked_cases hw
  · refine h.removed hw hqueues (.inl ⟨hne, hring⟩) ?_
    rw [hring, hnext]
    exact h.next
  · refine h.removed hw hqueues (.inr ⟨hnil, hring⟩) ?_
    rw [hring, hnext]
    exact next_leave e w.project

theorem turn_removeLocked : (e.removeLocked w).turn = e.turn ∨ (e.removeLocked w).turn = e.turn.erase w.project := by
  have hmem : w.project ∈ e.ring := (h.mem _).mpr (ne_nil_of_mem hw)
  unfold turn
  obtain ⟨-, ⟨-, hring, hnext⟩ | ⟨-, hring, hnext⟩⟩ := removeLocked_cases hw
  · left
    rw [hring, hnext]
  · right
    rw [hring, hnext]
    exact turn_leave h.nodup h.next_le hmem

end

/-! ### Grants -/

theorem getElem?_turn {i : Nat} (hi : i < e.ring.length) : e.turn[i]? = e.ring[(e.next + i) % e.ring.length]? := by
  unfold turn
  rw [getElem?_rotate hi, Nat.add_comm]

theorem search_spec (h : e.Inv) (hs : e.search = some (idx, w)) :
    w ∈ e.queues w.project ∧ ∃ i, i < e.ring.length ∧ idx = (e.next + i) % e.ring.length ∧ e.turn[i]? = some w.project ∧
      ∀ p ∈ e.turn.take i, e.pick p = none := by
  obtain ⟨i, hi, hfound, hbefore⟩ := findSome?_range hs
  obtain ⟨w', hbind, hpair⟩ := Option.map_eq_some_iff.mp hfound
  obtain ⟨hidx, rfl⟩ := Prod.mk.inj hpair
  obtain ⟨p, hp, hpick⟩ := Option.bind_eq_some_iff.mp hbind
  have hmem : w' ∈ e.queues p := by
    unfold pick at hpick
    split_ifs at hpick
    exact mem_of_find?_eq_some hpick
  have hown := h.own p w' hmem
  refine ⟨by rw [hown]; exact hmem, i, hi, hidx.symm, ?_, fun p' hp' => ?_⟩
  · rw [getElem?_turn hi, hp, hown]
  obtain ⟨j, hget⟩ := getElem?_of_mem hp'
  rw [getElem?_take] at hget
  split_ifs at hget with hj
  rw [getElem?_turn (by omega)] at hget
  simpa [hget] using hbefore j hj

theorem turn_grant (h : e.Inv) (hs : e.search = some (idx, w)) :
    (e.grant idx w).Inv ∧ ∃ i rest, e.turn[i]? = some w.project ∧ (∀ p ∈ e.turn.take i, e.pick p = none) ∧
      (e.grant idx w).turn = e.turn.drop (i + 1) ++ rest := by
  obtain ⟨hw, i, hi, hidx, hturn, hbefore⟩ := search_spec h hs
  have hring : e.ring[idx]? = some w.project := by rw [hidx, ← getElem?_turn hi, hturn]
  obtain ⟨hlt, hget⟩ := List.getElem?_eq_some_iff.mp hring
  have hinv : (e.charge w).Inv := h.counted rfl rfl rfl
  have hserved := rotate_served e.ring e.next hi
  rw [← hidx] at hserved
  obtain ⟨hqueues, hcases⟩ := removeLocked_cases (e := e.charge w) hw
  have hcursor : (e.grant idx w).next = ((e.charge w).removeLocked w).cursorAfter idx w.project := rfl
  unfold cursorAfter at hcursor
  rcases hcases with ⟨hne, hring', -⟩ | ⟨hnil, hring', hnext'⟩
  · rw [if_pos hne, hring'] at hcursor
    have hgrant : (e.grant idx w).ring = e.ring := hring'
    refine ⟨hinv.removed hw hqueues (.inl ⟨hne, hring'⟩) (.inr ?_), i, e.turn.take (i + 1), hturn, hbefore, ?_⟩
    · rw [hcursor, hgrant]
      exact mod_lt _ (zero_lt_of_lt hi)
    · show (e.grant idx w).ring.rotate (e.grant idx w).next = _
      rw [hcursor, hgrant]
      exact (rotate_mod e.ring (idx + 1)).trans hserved
  rw [if_neg (not_not.mpr hnil)] at hcursor
  have hgrant : (e.grant idx w).ring = e.ring.eraseIdx idx := by
    show ((e.charge w).removeLocked w).ring = _
    rw [hring', ← hget]
    exact h.nodup.erase_getElem idx hlt
  have hring'' : ((e.charge w).removeLocked w).ring = e.ring.eraseIdx idx := hgrant
  rw [hring''] at hcursor
  -- the order is that of the ring without the principal, from its place on
  have horder : (e.grant idx w).turn = (e.ring.eraseIdx idx).rotate idx := by
    show (e.grant idx w).ring.rotate (e.grant idx w).next = _
    rw [hgrant, hcursor]
    split_ifs with hempty
    · exact rotate_mod _ _
    · rw [not_not.mp hempty, rotate_nil, rotate_nil]
  have hlast : e.turn.take (i + 1) = e.turn.take i ++ [w.project] := by
    obtain ⟨hlt', hget'⟩ := List.getElem?_eq_some_iff.mp hturn
    rw [List.take_succ_eq_append_getElem hlt', hget']
  refine ⟨hinv.removed hw hqueues (.inr ⟨hnil, hring'⟩) ?_, i, e.turn.take i, hturn, hbefore, ?_⟩
  · rw [hcursor, hgrant]
    split_ifs with hempty
    · exact .inr (mod_lt _ (length_pos_of_ne_nil hempty))
    left
    rw [hnext']
    show (if e.ring.erase w.project = [] then 0 else _) = 0
    rw [if_pos]
    rw [← not_not.mp hempty, ← hgrant]
    exact hring'.symm
  · have hrotate := rotate_eraseIdx e.ring hlt
    rw [hget, hserved] at hrotate
    have hcancel : (e.ring.eraseIdx idx).rotate idx ++ [w.project] =
        (e.turn.drop (i + 1) ++ e.turn.take i) ++ [w.project] := by
      rw [hrotate, append_assoc, ← hlast]
      rfl
    rw [horder]
    exact append_cancel_right hcancel

/-! ### One step -/

theorem Moves.inv {l : Label} (h : Moves e l e') (he : e.Inv) : e'.Inv := by
  cases h with
  | queued w => exact he.enqueue w
  | granted hs => exact (turn_grant he hs).1
  | removed hw => exact he.removeLocked hw
  | counted hring hnext hqueues => exact he.counted hring hnext hqueues

/-- While `q` may be granted and is not, nobody comes ahead of it but who joins the ring when the cursor is past `q`,
and who is granted is ahead of it no more. -/
theorem Moves.comes_ahead {l : Label} (h : Moves e l e') (he : e.Inv) (hq : e.Grantable q) (hnot : l ≠ .granted q)
    (hq' : q ∈ e'.ring) {x : String} (hx : x ∈ ahead q e'.turn) :
    l ≠ .granted x ∧ (x ∈ ahead q e.turn ∨ l = .queued x ∧ e.queues x = [] ∧ q ∉ e.ring.drop e.next) := by
  have hmem : q ∈ e.turn := mem_turn.mpr (hq.mem_ring he)
  cases h with
  | queued w =>
    refine ⟨nofun, ?_⟩
    rw [turn_enqueue he] at hx
    split_ifs at hx with hnil
    · by_cases hdrop : q ∈ e.ring.drop e.next
      · left
        rw [ahead_append_of_mem hdrop] at hx
        unfold turn
        rw [rotate_eq_drop_append_take he.next_le, ahead_append_of_mem hdrop]
        exact hx
      by_cases hsame : x = w.project
      · right
        rw [hsame]
        exact ⟨rfl, hnil, hdrop⟩
      left
      have hne : w.project ≠ q := by
        intro heq
        exact (he.mem q).mp (hq.mem_ring he) (heq ▸ hnil)
      rw [ahead_append_of_not_mem hdrop, ahead_cons_of_ne hne] at hx
      unfold turn
      rw [rotate_eq_drop_append_take he.next_le, ahead_append_of_not_mem hdrop]
      rcases mem_append.mp hx with hx | hx
      · exact mem_append_left _ hx
      · exact mem_append_right _ (mem_of_ne_of_mem hsame hx)
    · exact .inl hx
  | granted hs =>
    rename_i idx w
    obtain ⟨-, i, rest, hturn, hbefore, hafter⟩ := turn_grant he hs
    have hdrop : q ∈ e.turn.drop (i + 1) := by
      obtain ⟨wq, hwq⟩ := hq.pick
      obtain ⟨hlt, hget⟩ := List.getElem?_eq_some_iff.mp hturn
      rw [← List.take_append_drop (i + 1) e.turn, List.take_succ_eq_append_getElem hlt, hget, List.append_assoc,
        mem_append, singleton_append, mem_cons] at hmem
      rcases hmem with hmem | heq | hmem
      · rw [hbefore q hmem] at hwq
        cases hwq
      · rw [heq] at hnot
        exact absurd rfl hnot
      · exact hmem
    rw [hafter, ahead_append_of_mem hdrop] at hx
    refine ⟨?_, .inl (ahead_drop_subset he.nodup_turn hdrop hx)⟩
    intro heq
    -- who was served stands before the place from which the order goes on
    obtain ⟨hlt, hget⟩ := List.getElem?_eq_some_iff.mp hturn
    have hxw : w.project = x := by simpa using heq
    have hnodup := he.nodup_turn
    rw [← take_append_drop (i + 1) e.turn] at hnodup
    have hserved : x ∈ e.turn.take (i + 1) := by
      rw [take_succ_eq_append_getElem hlt, hget, hxw]
      simp
    exact (nodup_append'.mp hnodup).2.2 hserved (ahead_subset q _ hx)
  | removed hw =>
    rename_i w
    refine ⟨nofun, .inl ?_⟩
    rcases turn_removeLocked he hw with hsame | herase
    · rwa [hsame] at hx
    rw [herase] at hx
    refine ahead_erase_subset ?_ _ hx
    intro heq
    rw [← mem_turn, herase, heq] at hq'
    exact he.nodup_turn.not_mem_erase hq'
  | counted hring hnext hqueues =>
    refine ⟨nofun, .inl ?_⟩
    unfold turn at hx ⊢
    rwa [hring, hnext] at hx

theorem Moves.granted_ahead (h : Moves e (.granted p) e') (he : e.Inv) (hq : e.Grantable q) (hp : p ≠ q) :
    p ∈ ahead q e.turn := by
  generalize hl : Label.granted p = l at h
  cases h with
  | granted hs =>
    rename_i idx w
    obtain ⟨-, i, -, hturn, hbefore, -⟩ := turn_grant he hs
    obtain ⟨hlt, hget⟩ := List.getElem?_eq_some_iff.mp hturn
    have hpw : p = w.project := by simpa using hl
    have hnot : q ∉ e.turn.take i := by
      intro hmem
      obtain ⟨wq, hwq⟩ := hq.pick
      rw [hbefore q hmem] at hwq
      cases hwq
    rw [← take_append_drop i e.turn, ahead_append_of_not_mem hnot, drop_eq_getElem_cons hlt, hget, ← hpw,
      ahead_cons_of_ne hp]
    simp
  | queued w | removed hw | counted hring hnext hqueues => cases hl

/-! ### No idle slot -/

/-- No slot is free, or whoever waits has its principal's share used up or waits for an expensive slot in vain. -/
def Busy (e : Executor) : Prop :=
  e.slots ≤ e.inUse ∨ ∀ p, ∀ w ∈ e.queues p,
    0 < e.principalSlots ∧ e.principalSlots ≤ e.active p ∨ w.expensive ∧ e.expSlots ≤ e.expUse

theorem Inv.busy (he : e.Inv) (hs : e.search = none) : e.Busy := by
  refine .inr fun p w hw => ?_
  obtain ⟨i, hi⟩ := mem_iff_getElem?.mp (mem_turn.mpr ((he.mem p).mpr (ne_nil_of_mem hw)))
  have hlt : i < e.ring.length := by simpa [turn] using (List.getElem?_eq_some_iff.mp hi).1
  rw [getElem?_turn hlt] at hi
  have hpick : e.pick p = none := by simpa [hi] using findSome?_eq_none_iff.mp hs i (mem_range.mpr hlt)
  unfold pick at hpick
  split_ifs at hpick with hshare
  · exact .inl hshare
  · exact .inr (by simpa [allowed] using find?_eq_none.mp hpick w hw)

/-- A removal leaves the budgets and their use as they are. -/
theorem removeLocked_eq (e : Executor) (w : Waiter) :
    e.removeLocked w = { e with
      queues := (e.removeLocked w).queues
      waiting := (e.removeLocked w).waiting
      ring := (e.removeLocked w).ring
      next := (e.removeLocked w).next } := by
  unfold removeLocked leave
  dsimp only
  split_ifs <;> rfl

theorem Busy.removeLocked (h : e.Busy) (hw : w ∈ e.queues w.project) : (e.removeLocked w).Busy := by
  have hsub : ∀ p, (e.removeLocked w).queues p ⊆ e.queues p := fun p => by
    rw [(removeLocked_cases hw).1 p]
    split_ifs
    · exact erase_subset
    · exact Subset.refl _
  rw [removeLocked_eq]
  exact h.imp_right fun hall p w' hw' => hall p w' (hsub p hw')

theorem Inv.busy_dispatch (free : Nat) (he : e.Inv) (hfree : e.slots ≤ e.inUse + free) :
    (endState e ((e.dispatch free).map fun g => ⟨.granted g.1.project, g.2⟩)).Busy := by
  induction free generalizing e with
  | zero => exact .inl (by simpa using hfree : e.slots ≤ e.inUse)
  | succ free ih =>
    unfold dispatch
    split_ifs with hmore
    · rcases hs : e.search with _ | ⟨idx, w⟩
      · exact he.busy hs
      · refine ih (turn_grant he hs).1 ?_
        rw [grant, removeLocked_eq]
        change e.slots ≤ e.inUse + 1 + free
        omega
    · rcases not_and_or.mp hmore with hfull | hring
      · exact .inl (Int.not_lt.mp hfull)
      · exact he.busy (by simp [search, not_not.mp hring])

theorem Inv.busy_grants (he : e.Inv) : (endState e (grants e)).Busy := he.busy_dispatch _ (by omega)

end Executor

/-! ### Runs -/

section Runs
variable {q : String} {e : Executor} {ms : List Moment} {served : List String}

def Chained : Executor → List Moment → Prop
  | _, [] => True
  | e, m :: ms => e.Moves m.label m.state ∧ Chained m.state ms

theorem chained_append {ms' : List Moment} : Chained e (ms ++ ms') ↔ Chained e ms ∧ Chained (endState e ms) ms' := by
  induction ms generalizing e with
  | nil => exact (and_iff_right trivial).symm
  | cons m ms ih =>
    show e.Moves m.label m.state ∧ Chained m.state (ms ++ ms') ↔ (e.Moves m.label m.state ∧ Chained m.state ms) ∧ _
    rw [ih, and_assoc]
    rfl

theorem Chained.inv (h : Chained e ms) (he : e.Inv) : (endState e ms).Inv := by
  induction ms generalizing e with
  | nil => exact he
  | cons m ms ih => exact ih h.2 (h.1.inv he)

theorem chained_dispatch (free : Nat) (e : Executor) :
    Chained e ((e.dispatch free).map fun g => ⟨.granted g.1.project, g.2⟩) := by
  induction free generalizing e with
  | zero => trivial
  | succ free ih =>
    unfold Executor.dispatch
    split_ifs
    · rcases hs : e.search with _ | ⟨idx, w⟩
      · trivial
      · exact ⟨.granted e hs, ih (e.grant idx w)⟩
    · trivial

theorem chained_wait (e : Executor) (w : Waiter) : Chained e (waitMoments e w) := ⟨.queued e w, chained_dispatch _ _⟩

theorem chained_release (e : Executor) (w : Waiter) : Chained e (releaseMoments e w) :=
  ⟨.counted rfl rfl rfl, chained_dispatch _ _⟩

theorem Cell.chained_moments (c : Cell) (ev : Event) : Chained c.exec (c.moments ev) := by
  cases ev with
  | acquire project expensive =>
    simp only [Cell.moments]
    split_ifs
    · exact chained_wait _ _
    · trivial
  | reserve project n =>
    simp only [Cell.moments]
    split_ifs
    · exact ⟨.counted rfl rfl rfl, trivial⟩
    · trivial
  | acquireReserved r expensive =>
    simp only [Cell.moments]
    rcases c.reservations[r]? with _ | ⟨project, left⟩
    · trivial
    dsimp only
    split_ifs
    · trivial
    · exact ⟨.counted rfl rfl rfl, chained_wait _ _⟩
  | releaseReservation r =>
    simp only [Cell.moments]
    rcases c.reservations[r]? with _ | ⟨project, left⟩
    · trivial
    · exact ⟨.counted rfl rfl rfl, trivial⟩
  | release w =>
    simp only [Cell.moments]
    split_ifs
    · exact chained_release _ _
    · trivial
  | cancel w =>
    simp only [Cell.moments]
    split_ifs with hgranted hqueued
    · exact chained_release _ _
    · exact ⟨.removed _ hqueued, trivial⟩
    · trivial

theorem Cell.chained_trace (c : Cell) (events : List Event) : Chained c.exec (c.trace events) := by
  induction events generalizing c with
  | nil => trivial
  | cons ev events ih => exact chained_append.mpr ⟨c.chained_moments ev, ih (c.step ev)⟩

theorem Cell.busy_step {c : Cell} (hc : c.exec.Inv) (h : c.exec.Busy) (ev : Event) : (c.step ev).exec.Busy := by
  have hrelease : ∀ w, (endState c.exec (releaseMoments c.exec w)).Busy := fun w =>
    Executor.Inv.busy_grants (e := c.exec.release w) (hc.counted rfl rfl rfl)
  change (endState c.exec (c.moments ev)).Busy
  cases ev with simp only [Cell.moments]
  | acquire project expensive =>
    split_ifs
    · exact (hc.enqueue _).busy_grants
    · exact h
  | reserve project n => split_ifs <;> exact h
  | acquireReserved r expensive =>
    rcases c.reservations[r]? with _ | ⟨project, left⟩
    · exact h
    dsimp only
    split_ifs
    · exact h
    · have hunheld : (c.exec.unholdLocked project 1).Inv := hc.counted rfl rfl rfl
      exact (hunheld.enqueue _).busy_grants
  | releaseReservation r => rcases c.reservations[r]? with _ | ⟨project, left⟩ <;> exact h
  | release w =>
    split_ifs
    · exact hrelease w
    · exact h
  | cancel w =>
    split_ifs with hgranted hqueued
    · exact hrelease w
    · exact h.removeLocked hqueued
    · exact h

/-- **No idle slot.** After every call of every run no slot is free that somebody who waits could have. -/
theorem no_idle_slot (slots expensiveSlots maxQueue principalSlots principalQueue : Int) (events : List Event) :
    (events.foldl Cell.step ⟨newExecutor slots expensiveSlots maxQueue principalSlots principalQueue, [],
      0⟩).exec.Busy := by
  refine (foldlRecOn (motive := fun c : Cell => c.exec.Inv ∧ c.exec.Busy) events _ ⟨?_, ?_⟩
    fun c hc ev _ => ⟨(c.chained_moments ev).inv hc.1, c.busy_step hc.1 hc.2 ev⟩).2
  · exact ⟨nodup_nil, fun p => by simp [newExecutor], .inl rfl, fun p w hw => nomatch hw⟩
  · exact .inr fun p w hw => nomatch hw

/-! ### Bounded overtaking -/

/-- The head of `q` may be granted before each of the moments, and none of them is its grant. -/
def Waits (q : String) : Executor → List Moment → Prop
  | _, [] => True
  | e, m :: ms => e.Grantable q ∧ m.label ≠ .granted q ∧ Waits q m.state ms

instance decidableWaits (q : String) : ∀ (e : Executor) (ms : List Moment), Decidable (Waits q e ms)
  | _, [] => isTrue trivial
  | e, m :: ms =>
    have := decidableWaits q m.state ms
    inferInstanceAs (Decidable (e.Grantable q ∧ m.label ≠ .granted q ∧ Waits q m.state ms))

def serve (served : List String) : Label → List String
  | .granted p => p :: served
  | _ => served

/-- A principal that was served since joins the ring again only while the cursor is not past `q`. -/
def NoLateJoin (q : String) : List String → Executor → List Moment → Prop
  | _, _, [] => True
  | served, e, m :: ms =>
    (∀ p ∈ served, m.label = .queued p → e.queues p = [] → q ∈ e.ring.drop e.next) ∧
      NoLateJoin q (serve served m.label) m.state ms

instance decidableNoLateJoin (q : String) :
    ∀ (served : List String) (e : Executor) (ms : List Moment), Decidable (NoLateJoin q served e ms)
  | _, _, [] => isTrue trivial
  | served, e, m :: ms =>
    have := decidableNoLateJoin q (serve served m.label) m.state ms
    inferInstanceAs (Decidable ((∀ p ∈ served, m.label = .queued p → e.queues p = [] → q ∈ e.ring.drop e.next) ∧
      NoLateJoin q (serve served m.label) m.state ms))

def grantsOf (p : String) (ms : List Moment) : Nat := (ms.map (·.label)).count (.granted p)

theorem grantsOf_cons (p : String) (m : Moment) (ms : List Moment) :
    grantsOf p (m :: ms) = grantsOf p ms + if m.label = .granted p then 1 else 0 := by
  unfold grantsOf
  rw [map_cons, count_cons]
  simp

theorem mem_serve {served : List String} {l : Label} {p : String} (h : p ∈ serve served l) :
    l = .granted p ∨ p ∈ served := by
  rcases l with p' | p' | _
  · exact .inr h
  · rcases mem_cons.mp h with rfl | h
    · exact .inl rfl
    · exact .inr h
  · exact .inr h

theorem behind_step {m : Moment} (hmove : e.Moves m.label m.state) (he : e.Inv) (hq : e.Grantable q)
    (hnot : m.label ≠ .granted q) (hq' : q ∈ m.state.ring)
    (hjoin : ∀ p ∈ served, m.label = .queued p → e.queues p = [] → q ∈ e.ring.drop e.next)
    (hbehind : ∀ p ∈ served, p ∉ ahead q e.turn) : ∀ p ∈ serve served m.label, p ∉ ahead q m.state.turn := by
  intro p hp hahead
  obtain ⟨hgranted, hcases⟩ := hmove.comes_ahead he hq hnot hq' hahead
  have hserved : p ∈ served := (mem_serve hp).resolve_left hgranted
  rcases hcases with hahead | ⟨hlabel, hempty, hpast⟩
  · exact hbehind p hserved hahead
  · exact hpast (hjoin p hserved hlabel hempty)

section
variable (he : e.Inv) (hchain : Chained e ms) (hwaits : Waits q e ms) (hjoin : NoLateJoin q served e ms)
  (hbehind : ∀ p ∈ served, p ∉ ahead q e.turn) {p : String}

include he hchain hwaits hjoin hbehind

theorem grantsOf_spec (hpq : p ≠ q) : grantsOf p ms ≤ 1 ∧ (p ∈ served → grantsOf p ms = 0) := by
  induction ms generalizing e served with
  | nil => exact ⟨zero_le _, fun _ => rfl⟩
  | cons m ms ih =>
    obtain ⟨hmove, hchain⟩ := hchain
    obtain ⟨hq, hnot, hwaits⟩ := hwaits
    obtain ⟨hjoin, hjoins⟩ := hjoin
    have hserved : p ∈ served → m.label ≠ .granted p := by
      intro hp heq
      rw [heq] at hmove
      exact hbehind p hp (hmove.granted_ahead he hq hpq)
    rw [grantsOf_cons]
    rcases ms with _ | ⟨m', ms⟩
    · rw [show grantsOf p [] = 0 from rfl]
      split_ifs with hlabel
      · exact ⟨le_refl 1, fun hp => absurd hlabel (hserved hp)⟩
      · exact ⟨zero_le _, fun _ => rfl⟩
    have hq' : q ∈ m.state.ring := hwaits.1.mem_ring (hmove.inv he)
    obtain ⟨hle, hzero⟩ := ih (hmove.inv he) hchain hwaits hjoins (behind_step hmove he hq hnot hq' hjoin hbehind)
    split_ifs with hlabel
    · rw [hzero (by rw [hlabel]; exact mem_cons_self)]
      exact ⟨le_refl 1, fun hp => absurd hlabel (hserved hp)⟩
    · refine ⟨hle, fun hp => hzero ?_⟩
      rcases m with ⟨p' | p' | _, s⟩
      · exact hp
      · exact mem_cons_of_mem _ hp
      · exact hp

end

/-- **Bounded overtaking.** In every run, over every stretch in which the head of `q` may be granted and is not: another
principal is granted at most once, if none that was granted in it joins the ring again with the cursor past `q`. -/
theorem overtaking_bounded (slots expensiveSlots maxQueue principalSlots principalQueue : Int) (events : List Event)
    (before during after : List Moment) (q : String)
    (htrace : (Cell.mk (newExecutor slots expensiveSlots maxQueue principalSlots principalQueue) [] 0).trace events =
      before ++ during ++ after)
    (hwaits : Waits q
      (endState (newExecutor slots expensiveSlots maxQueue principalSlots principalQueue) before) during)
    (hjoin : NoLateJoin q [] (endState (newExecutor slots expensiveSlots maxQueue principalSlots principalQueue) before)
      during) (p : String) (hp : p ≠ q) : grantsOf p during ≤ 1 := by
  have hchain := Cell.chained_trace
    ⟨newExecutor slots expensiveSlots maxQueue principalSlots principalQueue, [], 0⟩ events
  rw [htrace, append_assoc, chained_append] at hchain
  have hnew : (newExecutor slots expensiveSlots maxQueue principalSlots principalQueue).Inv :=
    ⟨nodup_nil, fun p => by simp [newExecutor], .inl rfl, fun p w hw => nomatch hw⟩
  exact (grantsOf_spec (hchain.1.inv hnew) (chained_append.mp hchain.2).1 hwaits hjoin (fun p hp => nomatch hp) hp).1

end Runs

/-! ### Two principals that take turns -/

def oneSlot : Cell := ⟨newExecutor 1 1 10 0 0, [], 0⟩

/-- While `x` has the slot, two waiters of `q` and one each of `p` and `r` queue; the first of `q` gets it next. -/
def queueUp : List Event :=
  [.acquire "x" false, .acquire "q" false, .acquire "q" false, .acquire "p" false, .acquire "r" false,
    .release ⟨0, "x", false⟩]

/-- The slot goes to `p` and to `r`. -/
def goesRound : List Event := [.release ⟨1, "q", false⟩, .release ⟨3, "p", false⟩]

/-- The slot goes to `p`, which queues once more, to `r`, and to `p` again. -/
def comesBack : List Event :=
  [.release ⟨1, "q", false⟩, .acquire "p" false, .release ⟨3, "p", false⟩, .release ⟨4, "r", false⟩]

/-- The moments after the second waiter of `q` has become the head of its queue. -/
def momentsAfter (events : List Event) : List Moment :=
  (oneSlot.trace (queueUp ++ events)).drop (oneSlot.trace queueUp).length

theorem overtaking_bounded_goesRound :
    grantsOf "p" (momentsAfter goesRound) = 1 ∧ grantsOf "r" (momentsAfter goesRound) = 1 ∧
    ∀ p, p ≠ "q" → grantsOf p (momentsAfter goesRound) ≤ 1 := by
  have htrace : oneSlot.trace (queueUp ++ goesRound) =
      (oneSlot.trace (queueUp ++ goesRound)).take (oneSlot.trace queueUp).length ++ momentsAfter goesRound ++ [] := by
    rw [append_nil]
    exact (take_append_drop _ _).symm
  refine ⟨by decide +kernel, by decide +kernel, fun p hp => ?_⟩
  exact overtaking_bounded 1 1 10 0 0 (queueUp ++ goesRound) _ _ _ "q" htrace (by decide +kernel)
    (by decide +kernel) p hp

/-- The head of `q` may be granted all the time, and `p` is granted twice before it. -/
theorem overtaken_twice :
    oneSlot.trace (queueUp ++ comesBack) =
      (oneSlot.trace (queueUp ++ comesBack)).take (oneSlot.trace queueUp).length ++ momentsAfter comesBack ∧
    Waits "q" (endState oneSlot.exec ((oneSlot.trace (queueUp ++ comesBack)).take (oneSlot.trace queueUp).length))
      (momentsAfter comesBack) ∧
    grantsOf "p" (momentsAfter comesBack) = 2 :=
  ⟨(take_append_drop _ _).symm, by decide +kernel, by decide +kernel⟩

end Galactic.FabricGateway
