import Mathlib.Data.List.Basic

/-!
# Tenures of slots

A table of slots is republished as a whole, again and again. Each slot carries a generation that names the tenure of its
owner, zero for no tenure. When every publication keeps a tenure as it was or starts it under a generation no
publication has reached, then a generation of a slot names one owner for good. -/

namespace Tenure

variable {ι ω : Type}

/-- One publication: the generation and the owner of every slot, and the first generation that is still free. -/
structure Snapshot (ι ω : Type) where
  generation : ι → Nat
  owner : ι → ω
  next : Nat

/-- A publication that may come after `cur`. -/
structure Follows (cur new : Snapshot ι ω) : Prop where
  next_le : cur.next ≤ new.next
  tenure : ∀ i, new.generation i ≠ 0 →
    (new.generation i = cur.generation i ∧ new.owner i = cur.owner i) ∨
      (cur.next ≤ new.generation i ∧ new.generation i < new.next)

/-- A slot and a generation name one owner in all of them. -/
def Faithful (history : List (Snapshot ι ω)) : Prop :=
  ∀ s ∈ history, ∀ t ∈ history, ∀ i, s.generation i = t.generation i → s.generation i ≠ 0 → s.owner i = t.owner i

/-- What holds after any number of publications, `cur` being the last. -/
structure Inv (history : List (Snapshot ι ω)) (cur : Snapshot ι ω) : Prop where
  cur_mem : cur ∈ history ∨ ∀ i, cur.generation i = 0
  below : ∀ s ∈ history, ∀ i, s.generation i ≠ 0 → s.generation i < cur.next
  faithful : Faithful history

variable {cur : Snapshot ι ω}

theorem Inv.nil (h : ∀ i, cur.generation i = 0) : Inv [] cur :=
  ⟨Or.inr h, by simp, by simp [Faithful]⟩

variable {new : Snapshot ι ω} {history : List (Snapshot ι ω)}

theorem Inv.owner_eq {s : Snapshot ι ω} (h : Inv history cur) (hnew : Follows cur new) (hs : s ∈ history) {i : ι}
    (heq : new.generation i = s.generation i) (hne : new.generation i ≠ 0) : new.owner i = s.owner i := by
  rcases hnew.tenure i hne with ⟨hgen, howner⟩ | ⟨hfresh, -⟩
  · -- the tenure is the current one, and that is in the history
    rcases h.cur_mem with hcur | hzero
    · rw [howner]
      exact h.faithful cur hcur s hs i (hgen.symm.trans heq) (hgen ▸ hne)
    · exact absurd (hgen.trans (hzero i)) hne
  · have := h.below s hs i (heq ▸ hne)
    omega

/-- **Publishing** keeps the invariant. -/
theorem Inv.publish (h : Inv history cur) (hnew : Follows cur new) : Inv (new :: history) new := by
  have hbelow : ∀ i, new.generation i ≠ 0 → new.generation i < new.next := by
    intro i hne
    rcases hnew.tenure i hne with ⟨hgen, -⟩ | ⟨-, hlt⟩
    · rcases h.cur_mem with hcur | hzero
      · have := h.below cur hcur i (hgen ▸ hne)
        have := hnew.next_le
        omega
      · exact absurd (hgen.trans (hzero i)) hne
    · exact hlt
  refine ⟨Or.inl (by simp), fun s hs i hne => ?_, fun s hs t ht i heq hne => ?_⟩
  · rcases List.mem_cons.mp hs with rfl | hold
    · exact hbelow i hne
    · exact Nat.lt_of_lt_of_le (h.below s hold i hne) hnew.next_le
  rcases List.mem_cons.mp hs with rfl | hsold
  · rcases List.mem_cons.mp ht with rfl | htold
    · rfl
    · exact h.owner_eq hnew htold heq hne
  · rcases List.mem_cons.mp ht with rfl | htold
    · exact (h.owner_eq hnew hsold heq.symm (heq ▸ hne)).symm
    · exact h.faithful s hsold t htold i heq hne

end Tenure
