import Mathlib.Data.List.Sort

/-!
# Binary heaps in an array

The sift loops of an array heap over a comparison `less`, with an element nothing is less than at the root. Over them,
`offer` keeps the first `limit` of the elements it is offered, and `drain` takes a heap apart. -/

namespace BinaryHeap

open scoped List

variable {α : Type} (less : α → α → Bool) {n : Nat}

/-! ### The sift loops -/

/-- Moves the element at `j` towards the root while it is less than its parent. -/
def up (v : Vector α n) (j : Nat) (hj : j < n) : Vector α n :=
  if h : (j - 1) / 2 = j ∨ less v[j] v[(j - 1) / 2] = false then v
  else up (v.swap ((j - 1) / 2) j) ((j - 1) / 2) (by omega)
termination_by j
decreasing_by omega

/-- The child of `i` among the first `m` elements that comes first. -/
def child (v : Vector α n) (m : Nat) (hm : m ≤ n) (i : Nat) (_h : 2 * i + 1 < m) : Nat :=
  if h₂ : 2 * i + 2 < m then (if less v[2 * i + 2] v[2 * i + 1] then 2 * i + 2 else 2 * i + 1) else 2 * i + 1

theorem child_cases (v : Vector α n) (m : Nat) (hm : m ≤ n) (i : Nat) (h : 2 * i + 1 < m) :
    (child less v m hm i h = 2 * i + 1 ∨ child less v m hm i h = 2 * i + 2) ∧ child less v m hm i h < m := by
  unfold child
  split_ifs <;> omega

theorem child_lt (v : Vector α n) (m : Nat) (hm : m ≤ n) (i : Nat) (h : 2 * i + 1 < m) : child less v m hm i h < n := by
  have := child_cases less v m hm i h
  omega

/-- Moves the element at `i` away from the root, within the first `m` elements, while a child is less. Returns where it
ends as well. -/
def down (v : Vector α n) (m : Nat) (hm : m ≤ n) (i : Nat) (hi : i < n) : Vector α n × Nat :=
  if h : 2 * i + 1 < m then
    if less (v.get ⟨child less v m hm i h, child_lt less v m hm i h⟩) v[i] then
      down (v.swap i (child less v m hm i h) hi (child_lt less v m hm i h)) m hm (child less v m hm i h)
        (child_lt less v m hm i h)
    else (v, i)
  else (v, i)
termination_by m - i
decreasing_by
  have := child_cases less v m hm i h
  omega

/-- Puts `x` into the heap. -/
def push (h : Array α) (x : α) : Array α := (up less (h.push x).toVector h.size (by simp)).toArray

/-- Restores the heap after the element at `i` has changed. -/
def fix (h : Array α) (i : Nat) (hi : i < h.size) : Array α :=
  let (v, k) := down less h.toVector h.size le_rfl i hi
  if i < k then v.toArray else (up less v i hi).toArray

/-- Takes the root out of the heap. -/
def pop (h : Array α) (hpos : 0 < h.size) : α × Array α :=
  let v := (down less (h.toVector.swap 0 (h.size - 1)) (h.size - 1) (Nat.sub_le _ _) 0 hpos).1
  (v[h.size - 1], v.pop.toArray)

/-! ### They keep the elements -/

theorem up_perm (v : Vector α n) (j : Nat) (hj : j < n) : (up less v j hj).Perm v := by
  fun_induction up less v j hj with
  | case1 v j hj h => exact .rfl
  | case2 v j hj h ih => exact ih.trans (Vector.swap_perm _ _)

theorem down_perm (v : Vector α n) (m : Nat) (hm : m ≤ n) (i : Nat) (hi : i < n) :
    (down less v m hm i hi).1.Perm v := by
  fun_induction down less v m hm i hi with
  | case1 v i hi h hless ih => exact ih.trans (Vector.swap_perm _ _)
  | case2 v i hi h hless => exact .rfl
  | case3 v i hi h => exact .rfl

theorem down_getElem (v : Vector α n) (m : Nat) (hm : m ≤ n) (i : Nat) (hi : i < n) {k : Nat} (hk : k < n) (hmk : m ≤ k)
    (hik : i < k) : (down less v m hm i hi).1[k] = v[k] := by
  fun_induction down less v m hm i hi with
  | case1 v i hi h hless ih =>
    have hchild := child_cases less v m hm i h
    rw [ih (by omega), Vector.getElem_swap_of_ne (by omega) (by omega)]
  | case2 v i hi h hless => rfl
  | case3 v i hi h => rfl

/-! ### They leave a heap -/

/-- `less` is a strict weak order: `less b a = false` is a total preorder. -/
structure Order (less : α → α → Bool) : Prop where
  asymm : ∀ {a b}, less a b = true → less b a = false
  trans : ∀ {a b c}, less b a = false → less c b = false → less c a = false

/-- No element among the first `m` is less than its parent. -/
def Ordered (v : Vector α n) (m : Nat) : Prop :=
  ∀ j (hj : j < n), j < m → 0 < j → less v[j] v[(j - 1) / 2] = false

/-- The order holds but between `j` and its parent, and the children of `j` are in order with its parent. -/
structure UpReady (v : Vector α n) (m j : Nat) (hj : j < n) : Prop where
  apart : ∀ k (hk : k < n), k < m → 0 < k → k ≠ j → less v[k] v[(k - 1) / 2] = false
  grand : ∀ k (hk : k < n), k < m → 0 < j → (k - 1) / 2 = j → less v[k] v[(j - 1) / 2] = false

/-- The order holds but between `i` and its children, and the children of `i` are in order with its parent. -/
structure DownReady (v : Vector α n) (m i : Nat) (hi : i < n) : Prop where
  apart : ∀ k (hk : k < n), k < m → 0 < k → (k - 1) / 2 ≠ i → less v[k] v[(k - 1) / 2] = false
  grand : ∀ k (hk : k < n), k < m → 0 < i → (k - 1) / 2 = i → less v[k] v[(i - 1) / 2] = false

variable {less}

section
variable (ho : Order less) {v : Vector α n} {m : Nat}

include ho

theorem Order.irrefl (a : α) : less a a = false := by
  cases h : less a a with
  | false => rfl
  | true => rw [← h]; exact ho.asymm h

theorem UpReady.swap {m j : Nat} {hj : j < n} (hm : j < m) (h : UpReady less v m j hj) (hpos : (j - 1) / 2 ≠ j)
    (hless : less v[j] v[(j - 1) / 2]) : UpReady less (v.swap ((j - 1) / 2) j) m ((j - 1) / 2) (by omega) := by
  -- a child of the parent of `j` is in order with what stood there
  have hsibling : ∀ k (hk : k < n), k < m → 0 < k → k ≠ j → (k - 1) / 2 = (j - 1) / 2 →
      less v[k] v[(j - 1) / 2] = false := by
    intro k hk hkm hk0 hkj hp
    have := h.apart k hk hkm hk0 hkj
    simpa only [hp] using this
  constructor
  · intro k hk hkm hk0 hkp
    by_cases hkj : k = j
    · subst hkj
      simp only [Vector.getElem_swap, if_true, if_neg hpos.symm]
      exact ho.asymm hless
    by_cases hpj : (k - 1) / 2 = j
    · simp only [Vector.getElem_swap, hpj, if_neg hkp, if_neg hkj, if_neg hpos.symm, if_true]
      exact h.grand k hk hkm (by omega) hpj
    by_cases hpp : (k - 1) / 2 = (j - 1) / 2
    · simp only [Vector.getElem_swap, hpp, if_neg hkp, if_neg hkj, if_true]
      exact ho.trans (ho.asymm hless) (hsibling k hk hkm hk0 hkj hpp)
    · simp only [Vector.getElem_swap, if_neg hkp, if_neg hkj, if_neg hpj, if_neg hpp]
      exact h.apart k hk hkm hk0 hkj
  · intro k hk hkm hp0 hkp
    have hgrand := h.apart ((j - 1) / 2) (by omega) (by omega) hp0 (by omega)
    have hne : ((j - 1) / 2 - 1) / 2 ≠ (j - 1) / 2 := by omega
    have hne' : ((j - 1) / 2 - 1) / 2 ≠ j := by omega
    have hkne : k ≠ (j - 1) / 2 := by omega
    by_cases hkj : k = j
    · subst hkj
      simp only [Vector.getElem_swap, if_neg hkne, if_true, if_neg hne, if_neg hne']
      exact hgrand
    · simp only [Vector.getElem_swap, if_neg hkne, if_neg hkj, if_neg hne, if_neg hne']
      exact ho.trans hgrand (hsibling k hk hkm (by omega) hkj hkp)

theorem up_heap (v : Vector α n) (j : Nat) (hj : j < n) (hm : j < m) (h : UpReady less v m j hj) :
    Ordered less (up less v j hj) m := by
  fun_induction up less v j hj with
  | case1 v j hj hstop =>
    intro k hk hkm hk0
    by_cases hkj : k = j
    · subst hkj
      exact hstop.resolve_left (by omega)
    · exact h.apart k hk hkm hk0 hkj
  | case2 v j hj hgo ih =>
    rw [not_or, Bool.not_eq_false] at hgo
    exact ih (by omega) (h.swap ho hm hgo.1 hgo.2)

theorem child_first {hm : m ≤ n} {i : Nat} {h : 2 * i + 1 < m} {k : Nat} (hk : k < n) (hkm : k < m) (hk0 : 0 < k)
    (hki : (k - 1) / 2 = i) (hc : child less v m hm i h < n) : less v[k] v[child less v m hm i h] = false := by
  have hcases : k = 2 * i + 1 ∨ k = 2 * i + 2 := by omega
  unfold child
  rcases hcases with rfl | rfl
  · split_ifs with h₂ hless
    · exact ho.asymm hless
    · exact ho.irrefl _
    · exact ho.irrefl _
  · simp only [hkm, dif_pos]
    split_ifs with hless
    · exact ho.irrefl _
    · exact Bool.not_eq_true _ ▸ hless

theorem DownReady.swap {m i : Nat} {hi : i < n} (h : DownReady less v m i hi) {c : Nat}
    (hc : c < n) (hcm : c < m) (hchild : c = 2 * i + 1 ∨ c = 2 * i + 2)
    (hfirst : ∀ k (hk : k < n), k < m → 0 < k → (k - 1) / 2 = i → less v[k] v[c] = false) (hless : less v[c] v[i]) :
    DownReady less (v.swap i c) m c hc := by
  have hci : c ≠ i := by omega
  constructor
  · intro k hk hkm hk0 hpc
    by_cases hkc : k = c
    · subst hkc
      have hp : (k - 1) / 2 = i := by omega
      simp only [Vector.getElem_swap, hp, if_neg hci, if_true]
      exact ho.asymm hless
    by_cases hki : k = i
    · subst hki
      have hpi : (k - 1) / 2 ≠ k := by omega
      simp only [Vector.getElem_swap, if_neg hpi, if_neg hpc, if_true]
      exact h.grand c hc hcm hk0 (by omega)
    by_cases hpi : (k - 1) / 2 = i
    · simp only [Vector.getElem_swap, hpi, if_neg hki, if_neg hkc, if_true]
      exact hfirst k hk hkm hk0 hpi
    · simp only [Vector.getElem_swap, if_neg hki, if_neg hkc, if_neg hpi, if_neg hpc]
      exact h.apart k hk hkm hk0 hpi
  · intro k hk hkm hc0 hkc
    have hp : (c - 1) / 2 = i := by omega
    have hki : k ≠ i := by omega
    have hkc' : k ≠ c := by omega
    simp only [Vector.getElem_swap, hp, if_neg hki, if_neg hkc', if_true]
    have := h.apart k hk hkm (by omega) (by omega)
    simpa only [hkc] using this

theorem down_heap (v : Vector α n) (m : Nat) (hm : m ≤ n) (i : Nat) (hi : i < n) (h : DownReady less v m i hi) :
    Ordered less (down less v m hm i hi).1 m := by
  fun_induction down less v m hm i hi with
  | case1 v i hi hlt hless ih =>
    obtain ⟨hcases, hcm⟩ := child_cases less v m hm i hlt
    exact ih (h.swap ho _ hcm hcases (fun k hk hkm hk0 hki => child_first ho hk hkm hk0 hki _) hless)
  | case2 v i hi hlt hless =>
    intro k hk hkm hk0
    by_cases hki : (k - 1) / 2 = i
    · subst hki
      exact ho.trans (Bool.not_eq_true _ ▸ hless) (child_first ho hk hkm hk0 rfl (child_lt less v m hm _ hlt))
    · exact h.apart k hk hkm hk0 hki
  | case3 v i hi hlt =>
    intro k hk hkm hk0
    exact h.apart k hk hkm hk0 (by omega)

theorem Ordered.root (h : Ordered less v m) (k : Nat) (hk : k < n) (hkm : k < m) : less v[k] v[0] = false := by
  induction k using Nat.strong_induction_on with
  | _ k ih =>
    by_cases hk0 : k = 0
    · subst hk0
      exact ho.irrefl _
    · exact ho.trans (ih ((k - 1) / 2) (by omega) (by omega) (by omega)) (h k hk hkm (by omega))

end

/-! ### The operations -/

variable (less) in
def Heap (h : Array α) : Prop := ∀ j (hj : j < h.size), 0 < j → less h[j] h[(j - 1) / 2] = false

section
variable {h : Array α}

theorem Heap.ordered (hh : Heap less h) : Ordered less h.toVector h.size := fun j hj _ hpos => hh j hj hpos

theorem Ordered.heap {v : Vector α n} (h : Ordered less v n) : Heap less v.toArray := by
  intro j hj hpos
  have hn : j < n := by simpa using hj
  exact h j hn hn hpos

theorem Heap.root (ho : Order less) (hh : Heap less h) (hpos : 0 < h.size) {x : α} (hx : x ∈ h.toList) :
    less x h[0] = false := by
  obtain ⟨k, hk, rfl⟩ := List.mem_iff_getElem.mp hx
  exact hh.ordered.root ho k (by simpa using hk) (by simpa using hk)

theorem heap_empty : Heap less #[] := fun j hj => absurd hj (by simp)

theorem push_perm (h : Array α) (x : α) : (push less h x).toList.Perm (x :: h.toList) := by
  have hperm : (push less h x).toList.Perm (h.push x).toList :=
    (up_perm less (h.push x).toVector h.size (by simp)).toArray.toList
  rw [Array.toList_push] at hperm
  exact hperm.trans (List.perm_append_singleton x h.toList)

theorem push_heap (ho : Order less) (hh : Heap less h) (x : α) : Heap less (push less h x) := by
  refine (up_heap ho (h.push x).toVector h.size (by simp) (by simp) ⟨fun k hk hkm hk0 hkj => ?_,
    fun k hk hkm hj hkj => ?_⟩).heap
  · have hk' : k < h.size := by simp at hkm; omega
    show less (h.push x)[k] (h.push x)[(k - 1) / 2] = false
    rw [Array.getElem_push_lt hk', Array.getElem_push_lt (by omega)]
    exact hh k hk' hk0
  · simp at hkm
    omega

theorem fix_perm (h : Array α) (i : Nat) (hi : i < h.size) : (fix less h i hi).toList.Perm h.toList := by
  have hdown := down_perm less h.toVector h.size le_rfl i hi
  unfold fix
  dsimp only
  split_ifs
  · exact hdown.toArray.toList
  · exact ((up_perm less _ i hi).trans hdown).toArray.toList

theorem fix_root_heap (ho : Order less) (hpos : 0 < h.size)
    (hh : ∀ k (hk : k < h.size), 0 < k → (k - 1) / 2 ≠ 0 → less h[k] h[(k - 1) / 2] = false) :
    Heap less (fix less h 0 hpos) := by
  have hdown := down_heap ho h.toVector h.size le_rfl 0 hpos
    ⟨fun k hk _ hk0 hp => hh k hk hk0 hp, fun k hk _ h0 => absurd h0 (by omega)⟩
  unfold fix
  dsimp only
  split_ifs
  · exact hdown.heap
  · exact (up_heap ho _ 0 hpos hpos ⟨fun k hk hkm hk0 _ => hdown k hk hkm hk0,
      fun k hk _ h0 => absurd h0 (by omega)⟩).heap

theorem replace_perm (hpos : 0 < h.size) (x : α) (hpos' : 0 < (h.set 0 x).size) :
    (h[0] :: (fix less (h.set 0 x) 0 hpos').toList).Perm (x :: h.toList) := by
  have hcons : h.toList = h[0] :: h.toList.tail := by
    rw [← @List.cons_head_tail _ h.toList (by simpa using Array.ne_empty_of_size_pos hpos)]
    simp [List.head_eq_getElem]
  have hset : (h.set 0 x).toList = x :: h.toList.tail := by
    rw [Array.toList_set, hcons]
    rfl
  calc h[0] :: (fix less (h.set 0 x) 0 hpos').toList
      _ ~ h[0] :: x :: h.toList.tail := (hset ▸ fix_perm _ _ _ : List.Perm _ _).cons _
      _ ~ x :: h[0] :: h.toList.tail := .swap _ _ _
      _ = x :: h.toList := by rw [← hcons]

theorem replace_heap (ho : Order less) (hh : Heap less h) (hpos : 0 < h.size) (x : α) (hpos' : 0 < (h.set 0 x).size) :
    Heap less (fix less (h.set 0 x) 0 hpos') := by
  refine fix_root_heap ho hpos' fun k hk hk0 hp => ?_
  have hk' : k < h.size := by simpa using hk
  rw [Array.getElem_set_ne hpos hk' (by omega), Array.getElem_set_ne hpos (by omega) hp.symm]
  exact hh k hk' hk0

theorem pop_fst (h : Array α) (hpos : 0 < h.size) : (pop less h hpos).1 = h[0] := by
  unfold pop
  dsimp only
  by_cases hone : h.size - 1 = 0
  · have hdown : ∀ v : Vector α h.size, (down less v (h.size - 1) (Nat.sub_le _ _) 0 hpos).1 = v := by
      intro v
      unfold down
      rw [dif_neg (by omega)]
    rw [hdown, Vector.getElem_swap, if_pos hone]
    simp only [hone]
    rfl
  · rw [down_getElem less _ _ _ _ _ (by omega) (by omega) (by omega), Vector.getElem_swap, if_neg hone, if_pos rfl]
    rfl

theorem pop_perm (h : Array α) (hpos : 0 < h.size) :
    ((pop less h hpos).1 :: (pop less h hpos).2.toList).Perm h.toList := by
  have hdown := (down_perm less (h.toVector.swap 0 (h.size - 1)) (h.size - 1) (Nat.sub_le _ _) 0 hpos).trans
    (Vector.swap_perm hpos (by omega))
  refine List.Perm.trans ?_ hdown.toArray.toList
  unfold pop
  dsimp only
  generalize (down less (h.toVector.swap 0 (h.size - 1)) (h.size - 1) (Nat.sub_le _ _) 0 hpos).1 = v
  have hsplit : v.toArray.toList = v.toArray.pop.toList ++ [v[h.size - 1]] := by
    have hne : v.toArray.toList ≠ [] := by
      intro hnil
      have := congrArg List.length hnil
      rw [Array.length_toList, Vector.size_toArray, List.length_nil] at this
      omega
    have hlast : v.toArray.toList.getLast hne = v[h.size - 1] := by
      simp [List.getLast_eq_getElem]
    rw [Array.toList_pop, ← hlast, List.dropLast_append_getLast hne]
  rw [hsplit]
  exact (List.perm_append_singleton _ _).symm

theorem size_pop {k : Nat} (hk : h.size = k + 1) (hpos : 0 < h.size) : (pop less h hpos).2.size = k := by
  have := (@pop_perm _ less h hpos).length_eq
  simp only [List.length_cons, Array.length_toList] at this
  omega

theorem pop_heap (ho : Order less) (hh : Heap less h) (hpos : 0 < h.size) : Heap less (pop less h hpos).2 := by
  have hdown := down_heap ho (h.toVector.swap 0 (h.size - 1)) (h.size - 1) (Nat.sub_le _ _) 0 hpos
    ⟨fun k hk hkm hk0 hp => ?_, fun k hk _ h0 => absurd h0 (by omega)⟩
  · intro j hj hpos
    have hj' : j < h.size - 1 := by simpa [pop] using hj
    have := hdown j (by omega) hj' hpos
    simpa [pop] using this
  · rw [Vector.getElem_swap_of_ne (by omega) (by omega), Vector.getElem_swap_of_ne (by omega) (by omega)]
    exact hh k hk hk0

end

/-! ### The first `limit` elements -/

section First

variable (lt : α → α → Bool)

/-- Keeps the first `limit` elements in a heap that has the last of them at its root. -/
def offer (limit : Nat) (h : Array α) (x : α) : Array α :=
  if h.size < limit then push (fun a b => lt b a) h x
  else if hpos : 0 < h.size then
    if lt x h[0] then fix (fun a b => lt b a) (h.set 0 x) 0 (by simpa using hpos) else h
  else h

def drain : Nat → Array α → List α
  | 0, _ => []
  | k + 1, h =>
    if hpos : 0 < h.size then drain k (pop (fun a b => lt b a) h hpos).2 ++ [(pop (fun a b => lt b a) h hpos).1] else []

variable {lt}

/-- The heap holds the first of the elements seen, and no more than `limit`. -/
structure Kept (lt : α → α → Bool) (limit : Nat) (seen : List α) (h : Array α) (rest : List α) : Prop where
  heap : Heap (fun a b => lt b a) h
  perm : seen.Perm (h.toList ++ rest)
  le : h.size ≤ limit
  full : rest ≠ [] → h.size = limit
  behind : ∀ r ∈ rest, ∀ x ∈ h.toList, lt r x = false

variable {limit : Nat}

theorem Order.flip (ho : Order lt) : Order fun a b => lt b a where
  asymm := ho.asymm
  trans := fun hab hbc => ho.trans hbc hab

theorem Order.exists_sorted (ho : Order lt) (xs : List α) :
    ∃ l : List α, l.Perm xs ∧ l.Pairwise fun a b => lt b a = false := by
  refine ⟨xs.mergeSort fun a b => !lt b a, List.mergeSort_perm _ _, ?_⟩
  refine (List.pairwise_mergeSort (fun a b c hab hbc => ?_) (fun a b => ?_) xs).imp fun h => by simpa using h
  · simp only [Bool.not_eq_true'] at hab hbc ⊢
    exact ho.trans hab hbc
  · cases h : lt b a with
    | false => rfl
    | true => simp [ho.asymm h]

theorem Kept.step (ho : Order lt) {seen : List α} {h : Array α} {rest : List α} (hk : Kept lt limit seen h rest)
    (hlimit : 0 < limit) (x : α) : ∃ rest', Kept lt limit (x :: seen) (offer lt limit h x) rest' := by
  unfold offer
  by_cases hroom : h.size < limit
  · have hrest : rest = [] := by
      by_contra hne
      have := hk.full hne
      omega
    subst hrest
    have hperm := @push_perm _ (fun a b => lt b a) h x
    rw [if_pos hroom]
    refine ⟨[], push_heap ho.flip hk.heap x, ?_, ?_, fun hne => absurd rfl hne, fun r hr => absurd hr (by simp)⟩
    · rw [List.append_nil]
      exact ((hk.perm.trans (by rw [List.append_nil])).cons x).trans hperm.symm
    · have := hperm.length_eq
      simp only [Array.length_toList, List.length_cons] at this
      omega
  have hsize : h.size = limit := le_antisymm hk.le (by omega)
  have hpos : 0 < h.size := by omega
  rw [if_neg hroom, dif_pos hpos]
  -- the root is the last of the elements kept
  have hroot : ∀ y ∈ h.toList, lt h[0] y = false := fun y hy => hk.heap.root ho.flip hpos hy
  split_ifs with hless
  · have hperm := @replace_perm _ (fun a b => lt b a) _ hpos x (by simpa using hpos)
    generalize hfixed : fix (fun a b => lt b a) (h.set 0 x) 0 _ = h' at hperm ⊢
    have hold : ∀ y ∈ h'.toList, y = x ∨ y ∈ h.toList := fun y hy =>
      List.mem_cons.mp (hperm.subset (List.mem_cons_of_mem _ hy))
    have hsize' : h'.size = limit := by
      have := hperm.length_eq
      simp only [List.length_cons, Array.length_toList] at this
      omega
    refine ⟨h[0] :: rest, hfixed ▸ replace_heap ho.flip hk.heap hpos x _, ?_, hsize'.le, fun _ => hsize', ?_⟩
    · calc x :: seen
          _ ~ x :: h.toList ++ rest := hk.perm.cons x
          _ ~ h[0] :: h'.toList ++ rest := hperm.symm.append_right rest
          _ ~ h'.toList ++ h[0] :: rest := List.perm_middle.symm
    intro r hr y hy
    have hfirst : lt h[0] y = false := by
      rcases hold y hy with rfl | hy
      · exact ho.asymm hless
      · exact hroot y hy
    rcases List.mem_cons.mp hr with rfl | hr
    · exact hfirst
    · exact ho.trans hfirst (hk.behind r hr _ (by simp))
  · refine ⟨x :: rest, hk.heap, ?_, hk.le, fun _ => hsize, ?_⟩
    · exact (hk.perm.cons x).trans List.perm_middle.symm
    intro r hr y hy
    rcases List.mem_cons.mp hr with rfl | hr
    · exact ho.trans (hroot y hy) (Bool.not_eq_true _ ▸ hless)
    · exact hk.behind r hr y hy

theorem Kept.foldl (ho : Order lt) (hlimit : 0 < limit) (xs : List α) :
    ∀ {seen : List α} {h : Array α} {rest : List α}, Kept lt limit seen h rest →
      ∃ rest', Kept lt limit (xs.reverse ++ seen) (xs.foldl (offer lt limit) h) rest' := by
  induction xs with
  | nil => exact fun hk => ⟨_, hk⟩
  | cons x xs ih =>
    intro seen h rest hk
    obtain ⟨rest', hk'⟩ := hk.step ho hlimit x
    rw [List.reverse_cons, List.append_assoc]
    exact ih hk'

theorem drain_spec (ho : Order lt) (k : Nat) (h : Array α) (hk : h.size = k) : (drain lt k h).Perm h.toList ∧
    (Heap (fun a b => lt b a) h → (drain lt k h).Pairwise fun a b => lt b a = false) := by
  induction k generalizing h with
  | zero =>
    rw [Array.eq_empty_of_size_eq_zero hk]
    exact ⟨.rfl, fun _ => .nil⟩
  | succ k ih =>
    have hpos : 0 < h.size := by omega
    have hpop := @pop_perm _ (fun a b => lt b a) h hpos
    obtain ⟨hperm, hsorted⟩ := ih _ (@size_pop _ (fun a b => lt b a) _ _ hk hpos)
    unfold drain
    rw [dif_pos hpos]
    refine ⟨(List.perm_append_singleton _ _).trans ((hperm.cons _).trans hpop), fun hh => ?_⟩
    refine List.pairwise_append.mpr ⟨hsorted (pop_heap ho.flip hh hpos), List.pairwise_singleton _ _,
      fun a ha b hb => ?_⟩
    rw [List.mem_singleton.mp hb, pop_fst]
    exact hh.root ho.flip hpos (hpop.subset (List.mem_cons_of_mem _ (hperm.subset ha)))

/-- Offered one element after the other and drained, the heap gives the first `limit` of them, in order. -/
theorem drain_offer (ho : Order lt) (hlimit : 0 < limit) (xs : List α) :
    ∃ l : List α, l.Perm xs ∧ (l.Pairwise fun a b => lt b a = false) ∧
      drain lt (xs.foldl (offer lt limit) #[]).size (xs.foldl (offer lt limit) #[]) = l.take limit := by
  obtain ⟨rest, hk⟩ := @Kept.foldl _ _ _ ho hlimit xs [] #[] []
    ⟨heap_empty, .rfl, Nat.zero_le _, fun hne => absurd rfl hne, fun r hr => absurd hr (by simp)⟩
  generalize xs.foldl (offer lt limit) #[] = h at hk ⊢
  obtain ⟨hperm, hdrained⟩ := drain_spec ho h.size h rfl
  obtain ⟨sorted, hsorted, hpairs⟩ := ho.exists_sorted rest
  refine ⟨drain lt h.size h ++ sorted, ?_, ?_, ?_⟩
  · calc drain lt h.size h ++ sorted
        _ ~ h.toList ++ rest := hperm.append hsorted
        _ ~ xs.reverse ++ [] := hk.perm.symm
        _ ~ xs := by rw [List.append_nil]; exact List.reverse_perm xs
  · exact List.pairwise_append.mpr ⟨hdrained hk.heap, hpairs, fun a ha b hb =>
      hk.behind b (hsorted.subset hb) a (hperm.subset ha)⟩
  have hlen : (drain lt h.size h).length = h.size := by rw [hperm.length_eq, Array.length_toList]
  by_cases hrest : rest = []
  · have hnil : sorted = [] := by rw [List.eq_nil_iff_length_eq_zero, hsorted.length_eq, hrest, List.length_nil]
    rw [hnil, List.append_nil, List.take_of_length_le (by have := hk.le; omega)]
  · rw [List.take_left' (hlen.trans (hk.full hrest))]

end First

end BinaryHeap
