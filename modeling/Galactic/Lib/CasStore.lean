import Mathlib.Logic.Relation
import Mathlib.Data.List.Basic

/-!
# A compare-and-swap store

One value with a version, and writes that name the version they were computed from. A write that was sent may be
delivered at any later time and any number of times; it takes effect only at the version it names, and every effect
moves the version on. -/

namespace Cas
open List

universe u

structure Cell (V : Type u) where
  version : Nat
  value : V

/-- A write on its way, the version it was computed from, and whether it has taken effect. -/
structure Request (V : Type u) where
  version : Nat
  value : V
  committed : Bool

structure Store (V : Type u) where
  cell : Cell V
  requests : List (Request V)

namespace Store

variable {V : Type u}

def send (s : Store V) (v : V) : Store V := { s with requests := s.requests ++ [⟨s.cell.version, v, false⟩] }

/-- The server handles the write number `k`. -/
def deliver (s : Store V) (k : Nat) : Store V :=
  match s.requests[k]? with
  | none => s
  | some r =>
    if r.version = s.cell.version then
      ⟨⟨s.cell.version + 1, r.value⟩, s.requests.set k { r with committed := true }⟩
    else s

def committed (s : Store V) (k : Nat) : Bool := s.requests[k]?.any (·.committed)

/-- Every write was computed from the value its version names, and one that took effect is in the past of the
present value. -/
structure Fresh (R : V → V → Prop) (s : Store V) : Prop where
  bound : ∀ r ∈ s.requests, r.version ≤ s.cell.version
  change : ∀ r ∈ s.requests, r.version = s.cell.version → R s.cell.value r.value
  past : ∀ r ∈ s.requests, r.committed = true → Relation.ReflTransGen R r.value s.cell.value

variable {R : V → V → Prop} {s : Store V}

@[simp] theorem cell_send (v : V) : (s.send v).cell = s.cell := rfl

theorem Fresh.send (h : s.Fresh R) {v : V} (hv : R s.cell.value v) : (s.send v).Fresh R := by
  refine ⟨?_, ?_, ?_⟩
  all_goals refine forall_mem_append.mpr ⟨?_, forall_mem_singleton.mpr ?_⟩
  · exact h.bound
  · exact Nat.le_refl s.cell.version
  · exact h.change
  · exact fun _ => hv
  · exact h.past
  · exact fun hc => nomatch hc

/-- What a delivery does: nothing, or one of the writes that were computed from the present value takes effect. -/
theorem deliver_cases (s : Store V) (k : Nat) :
    s.deliver k = s ∨ ∃ r, s.requests[k]? = some r ∧ r.version = s.cell.version ∧
      s.deliver k = ⟨⟨s.cell.version + 1, r.value⟩, s.requests.set k { r with committed := true }⟩ := by
  unfold deliver
  split
  · exact .inl rfl
  rename_i r hr
  split_ifs with hv
  · exact .inr ⟨r, hr, hv, rfl⟩
  · exact .inl rfl

theorem Fresh.deliver_value (h : s.Fresh R) (k : Nat) :
    (s.deliver k).cell.value = s.cell.value ∨ R s.cell.value (s.deliver k).cell.value := by
  rcases deliver_cases s k with heq | ⟨r, hr, hv, heq⟩
  · exact .inl (by rw [heq])
  · rw [heq]
    exact .inr (h.change r (mem_of_getElem? hr) hv)

theorem Fresh.deliver (h : s.Fresh R) (k : Nat) : (s.deliver k).Fresh R := by
  rcases deliver_cases s k with heq | ⟨r, hr, hv, heq⟩
  · rwa [heq]
  have hmem := mem_of_getElem? hr
  rw [heq]
  refine ⟨?_, ?_, ?_⟩
  all_goals
    intro r' hr'
    rcases mem_or_eq_of_mem_set hr' with hr' | rfl
  · exact Nat.le_succ_of_le (h.bound r' hr')
  · exact Nat.le_succ_of_le (h.bound r hmem)
  · intro heq'
    have hle := h.bound r' hr'
    change r'.version = s.cell.version + 1 at heq'
    omega
  · intro heq'
    change r.version = s.cell.version + 1 at heq'
    omega
  · exact fun hc => (h.past r' hr' hc).tail (h.change r hmem hv)
  · exact fun _ => Relation.ReflTransGen.refl

variable {k : Nat} {r : Request V}

theorem Fresh.past_of_committed (h : s.Fresh R) (hr : s.requests[k]? = some r) (hc : s.committed k) :
    Relation.ReflTransGen R r.value s.cell.value := by
  rw [committed, hr] at hc
  exact h.past r (mem_of_getElem? hr) hc

variable {i : Nat}

theorem request_deliver (hr : s.requests[i]? = some r) :
    ∃ r', (s.deliver k).requests[i]? = some r' ∧ r'.value = r.value := by
  rcases deliver_cases s k with heq | ⟨r', hr', -, heq⟩
  · exact ⟨r, by rw [heq, hr], rfl⟩
  rw [heq]
  change ∃ r'', (s.requests.set k _)[i]? = some r'' ∧ _
  rw [getElem?_set]
  split_ifs with hk hlt
  · subst hk
    obtain rfl : r = r' := Option.mem_unique hr hr'
    exact ⟨_, rfl, rfl⟩
  · subst hk
    exact absurd (List.getElem?_eq_some_iff.mp hr).1 hlt
  · exact ⟨r, hr, rfl⟩

theorem request_send (hr : s.requests[i]? = some r) (v : V) : (s.send v).requests[i]? = some r := by
  unfold send
  rw [List.getElem?_append_left (List.getElem?_eq_some_iff.mp hr).1, hr]

theorem request_sent (s : Store V) (v : V) :
    (s.send v).requests[s.requests.length]? = some ⟨s.cell.version, v, false⟩ := by
  unfold send
  exact getElem?_concat_length

end Store

end Cas
