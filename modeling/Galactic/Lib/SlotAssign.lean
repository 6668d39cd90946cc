import Mathlib.Data.List.Lookmap
import Mathlib.Tactic

/-!
# Sticky slots

Keys that hold a slot keep it, and each new key takes the lowest slot no kept or new key holds. With at most `n` keys
every slot handed out is below `n`. -/

namespace SlotAssign
open List Prod

variable {κ : Type} [DecidableEq κ]

/-- The first slot from `next` on that is not taken, among the `fuel` first ones. -/
def skipTaken (taken : List Nat) : Nat → Nat → Nat
  | 0, next => next
  | fuel + 1, next => if next ∈ taken then skipTaken taken fuel (next + 1) else next

def keepStep (wanted : List κ) (held : List (κ × Nat)) (entry : κ × Nat) : List (κ × Nat) :=
  if entry.1 ∈ wanted ∧ held.lookup entry.1 = none then entry :: held else held

/-- A key without a slot takes the next free one. -/
def placeStep (st : List (κ × Nat) × Nat) (k : κ) : List (κ × Nat) × Nat :=
  if (st.1.lookup k).isSome then st
  else
    let next := skipTaken (st.1.map snd) (st.1.length + 1) st.2
    ((k, next) :: st.1, next)

/-- The slots of the wanted keys, where `occupants` are the keys in slots before. -/
def assign (occupants : List (κ × Nat)) (wanted : List κ) : List (κ × Nat) :=
  (wanted.foldl placeStep (occupants.foldl (keepStep wanted) [], 0)).1

/-- What holds of the slots handed out at any time. -/
structure Held (wanted : List κ) (n : Nat) (held : List (κ × Nat)) : Prop where
  keys_nodup : (held.map fst).Nodup
  slots_nodup : (held.map snd).Nodup
  key_mem : ∀ p ∈ held, p.1 ∈ wanted
  slot_lt : ∀ p ∈ held, p.2 < n

section
variable {held : List (κ × Nat)} {k : κ} {i : Nat}

theorem mem_of_lookup (h : held.lookup k = some i) : (k, i) ∈ held := by
  obtain ⟨l, r, rfl, -⟩ := lookup_eq_some_iff.mp h
  simp

theorem notMem_of_lookup (h : held.lookup k = none) : k ∉ held.map fst := by
  intro hmem
  obtain ⟨p, hp, rfl⟩ := mem_map.mp hmem
  simpa using lookup_eq_none_iff.mp h p hp

theorem Held.lookup_inj {wanted : List κ} {n : Nat} (h : Held wanted n held) {k k' : κ} (hk : held.lookup k = some i)
    (hk' : held.lookup k' = some i) : k = k' :=
  congrArg fst (inj_on_of_nodup_map h.slots_nodup (mem_of_lookup hk) (mem_of_lookup hk') rfl)

end

/-! ### Keeping -/

theorem foldl_keepStep_held {wanted : List κ} {n : Nat} (occupants held : List (κ × Nat)) (h : Held wanted n held)
    (hnodup : (occupants.map snd).Nodup) (hlt : ∀ p ∈ occupants, p.2 < n)
    (hfresh : ∀ p ∈ occupants, p.2 ∉ held.map snd) : Held wanted n (occupants.foldl (keepStep wanted) held) := by
  induction occupants generalizing held with
  | nil => exact h
  | cons entry rest ih =>
    rw [map_cons, nodup_cons] at hnodup
    rw [foldl_cons]
    have hrest : ∀ p ∈ rest, p.2 < n := fun p hp => hlt p (mem_cons_of_mem _ hp)
    unfold keepStep
    split_ifs with hkeep
    · refine ih _ ⟨?_, ?_, ?_, ?_⟩ hnodup.2 hrest ?_
      · exact List.Nodup.cons (notMem_of_lookup hkeep.2) h.keys_nodup
      · exact List.Nodup.cons (hfresh entry (by simp)) h.slots_nodup
      · exact forall_mem_cons.mpr ⟨hkeep.1, h.key_mem⟩
      · exact forall_mem_cons.mpr ⟨hlt entry (by simp), h.slot_lt⟩
      · intro p hp hmem
        rcases mem_cons.mp hmem with heq | hmem
        · exact hnodup.1 (heq ▸ mem_map_of_mem hp)
        · exact hfresh p (by simp [hp]) hmem
    · exact ih held h hnodup.2 hrest fun p hp => hfresh p (by simp [hp])

/-! ### Placing -/

theorem skipTaken_spec (taken : List Nat) (fuel next : Nat) (hbelow : ∀ j < next, j ∈ taken) :
    (∀ j < skipTaken taken fuel next, j ∈ taken) ∧
      (skipTaken taken fuel next ∉ taken ∨ skipTaken taken fuel next = next + fuel) := by
  induction fuel generalizing next with
  | zero => exact ⟨hbelow, .inr rfl⟩
  | succ fuel ih =>
    rw [skipTaken]
    split_ifs with htaken
    · have hnext : ∀ j < next + 1, j ∈ taken := by
        intro j hj
        rcases Nat.lt_succ_iff_lt_or_eq.mp hj with hlt | rfl
        · exact hbelow j hlt
        · exact htaken
      obtain ⟨hall, hend⟩ := ih (next + 1) hnext
      exact ⟨hall, hend.imp_right fun heq => by omega⟩
    · exact ⟨hbelow, .inl htaken⟩

theorem le_length_of_below {taken : List Nat} {m : Nat} (h : ∀ j < m, j ∈ taken) : m ≤ taken.length := by
  have hsub : List.range m ⊆ taken := fun j hj => h j (mem_range.mp hj)
  simpa using (subperm_of_subset nodup_range hsub).length_le

section
variable {wanted : List κ} {n : Nat} {k : κ}

theorem Held.length_lt {held : List (κ × Nat)} (h : Held wanted n held)
    (hk : k ∈ wanted) (hnone : held.lookup k = none) : held.length < wanted.length := by
  have hnodup : (k :: held.map fst).Nodup := List.Nodup.cons (notMem_of_lookup hnone) h.keys_nodup
  have hsub : k :: held.map fst ⊆ wanted := by
    refine cons_subset.mpr ⟨hk, fun x hx => ?_⟩
    obtain ⟨p, hp, rfl⟩ := mem_map.mp hx
    exact h.key_mem p hp
  have hle := (subperm_of_subset hnodup hsub).length_le
  rw [length_cons, length_map] at hle
  omega

theorem placeStep_held (hlen : wanted.length ≤ n) {st : List (κ × Nat) × Nat}
    (h : Held wanted n st.1) (hbelow : ∀ j < st.2, j ∈ st.1.map snd) (hk : k ∈ wanted) :
    Held wanted n (placeStep st k).1 ∧ (∀ j < (placeStep st k).2, j ∈ (placeStep st k).1.map snd) ∧
      ((placeStep st k).1.lookup k).isSome ∧ ∀ k', (st.1.lookup k').isSome → ((placeStep st k).1.lookup k').isSome := by
  unfold placeStep
  split_ifs with hsome
  · exact ⟨h, hbelow, hsome, fun _ hk' => hk'⟩
  have hnone : st.1.lookup k = none := Option.not_isSome_iff_eq_none.mp hsome
  obtain ⟨hall, hend⟩ := skipTaken_spec (st.1.map snd) (st.1.length + 1) st.2 hbelow
  -- the fuel does not run out, as there are fewer taken slots than steps
  have hle := le_length_of_below hall
  rw [length_map] at hle
  have hfree := hend.resolve_right (by omega)
  have hlt := h.length_lt hk hnone
  refine ⟨⟨?_, ?_, ?_, ?_⟩, ?_, ?_, ?_⟩
  · exact List.Nodup.cons (notMem_of_lookup hnone) h.keys_nodup
  · exact List.Nodup.cons hfree h.slots_nodup
  · exact forall_mem_cons.mpr ⟨hk, h.key_mem⟩
  · exact forall_mem_cons.mpr ⟨by omega, h.slot_lt⟩
  · intro j hj
    exact mem_cons_of_mem _ (hall j hj)
  · simp
  intro k' hk'
  rw [lookup_cons]
  split
  · rfl
  · exact hk'

theorem foldl_placeStep_held (hlen : wanted.length ≤ n) (ks : List κ) (hks : ∀ k ∈ ks, k ∈ wanted)
    (st : List (κ × Nat) × Nat) (h : Held wanted n st.1) (hbelow : ∀ j < st.2, j ∈ st.1.map snd) :
    Held wanted n (ks.foldl placeStep st).1 ∧
      ∀ k, k ∈ ks ∨ (st.1.lookup k).isSome → ((ks.foldl placeStep st).1.lookup k).isSome := by
  induction ks generalizing st with
  | nil => exact ⟨h, fun k hk => hk.resolve_left (by simp)⟩
  | cons k ks ih =>
    obtain ⟨hheld, hbelow', hplaced, hkept⟩ := placeStep_held hlen h hbelow (hks k (by simp))
    obtain ⟨hheld', hall⟩ := ih (fun x hx => hks x (by simp [hx])) (placeStep st k) hheld hbelow'
    refine ⟨hheld', fun x hx => hall x ?_⟩
    rcases hx with hx | hx
    · rcases mem_cons.mp hx with rfl | hx
      · exact .inr hplaced
      · exact .inl hx
    · exact .inr (hkept x hx)

/-- **Assignment.** Every wanted key gets a slot below `n` of its own. -/
theorem assign_spec {occupants : List (κ × Nat)}
    (hnodup : (occupants.map snd).Nodup) (hlt : ∀ p ∈ occupants, p.2 < n) (hlen : wanted.length ≤ n) :
    Held wanted n (assign occupants wanted) ∧ ∀ k ∈ wanted, ∃ i, (assign occupants wanted).lookup k = some i := by
  have hempty : Held wanted n ([] : List (κ × Nat)) := ⟨nodup_nil, nodup_nil, by simp, by simp⟩
  have hkept := foldl_keepStep_held occupants [] hempty hnodup hlt (by simp)
  obtain ⟨hheld, hall⟩ := foldl_placeStep_held hlen wanted (fun _ hk => hk) (_, 0) hkept (by simp)
  exact ⟨hheld, fun k hk => Option.isSome_iff_exists.mp (hall k (.inl hk))⟩

end

end SlotAssign
