import Mathlib.Data.List.AList

/-!
# The entries of a map

What a lookup finds in an association list and what is left when it is erased are together the entries of the list. -/

namespace Entries
open List AList
variable {α : Type*} {β : α → Type*} [DecidableEq α]

theorem perm_erase (s : AList β) (k : α) :
    s.entries.Perm (((s.lookup k).map (Sigma.mk k)).toList ++ (s.erase k).entries) := by
  by_cases hk : k ∈ s.entries.keys
  · obtain ⟨b, l₁, l₂, -, hsplit, herase⟩ := exists_of_kerase hk
    have hb : s.lookup k = some b := AList.mem_lookup_iff.mpr (by rw [hsplit]; exact mem_append_right _ mem_cons_self)
    rw [hb, hsplit, show (s.erase k).entries = l₁ ++ l₂ from herase]
    exact perm_middle
  · rw [AList.lookup_eq_none.mpr hk, show (s.erase k).entries = s.entries from kerase_of_notMem_keys hk]
    exact .refl _

theorem forall_update {γ : Type*} {f : α → Option γ} {k : α} {o : Option γ} {p : α → γ → Prop}
    (hself : ∀ v, o = some v → p k v) (hrest : ∀ q ≠ k, ∀ v, f q = some v → p q v) :
    ∀ q v, Function.update f k o q = some v → p q v :=
  (Function.forall_update_iff f fun q o => ∀ v, o = some v → p q v).mpr ⟨hself, hrest⟩

variable {γ : Type*} (s : AList fun _ : α => γ) (k q : α)

theorem lookup_erased : (s.erase k).lookup q = Function.update (s.lookup ·) k none q := by
  by_cases h : q = k
  · subst h
    simp
  · simp [lookup_erase_ne h, h]

theorem lookup_inserted (v : γ) : (s.insert k v).lookup q = Function.update (s.lookup ·) k (some v) q := by
  by_cases h : q = k
  · subst h
    simp
  · simp [lookup_insert_ne h, h]

end Entries
