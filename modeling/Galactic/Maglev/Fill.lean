import Galactic.Maglev.Table
import Mathlib.Data.String.Basic

/-!
# The table is filled

A skip below a prime size steps through every slot, so a backend finds a free slot in its turn while there is one. -/

namespace Galactic.Maglev
open List

/-! ### Trial division -/

variable {n : Nat}

theorem isPrimeLoop_sound (fuel d : Nat) (h : isPrimeLoop n fuel d) :
    ∀ k < fuel, (d + 2 * k) * (d + 2 * k) ≤ n → n % (d + 2 * k) ≠ 0 := by
  induction fuel generalizing d with
  | zero => intro k hk; omega
  | succ fuel ih =>
    intro k hk hle
    rw [isPrimeLoop] at h
    split_ifs at h with hbig hdiv
    · have : d * d ≤ (d + 2 * k) * (d + 2 * k) := Nat.mul_le_mul (by omega) (by omega)
      omega
    rcases Nat.eq_zero_or_pos k with rfl | hk0
    · exact hdiv
    · have := ih (d + 2) h (k - 1) (by omega)
      rw [show d + 2 + 2 * (k - 1) = d + 2 * k by omega] at this
      exact this hle

theorem prime_of_isPrime (h : isPrime n) : n.Prime := by
  rw [isPrime] at h
  split_ifs at h with h2 heven
  · rw [decide_eq_true_eq] at h
    rw [h]
    exact Nat.prime_two
  by_contra hnot
  have hdvd : n.minFac ∣ n := Nat.minFac_dvd n
  have hsq : n.minFac ^ 2 ≤ n := Nat.minFac_sq_le_self (by omega) hnot
  have hodd : n.minFac % 2 = 1 := by
    rcases Nat.mod_two_eq_zero_or_one n.minFac with hmod | hmod
    · exact absurd (Nat.mod_eq_zero_of_dvd (dvd_trans (Nat.dvd_of_mod_eq_zero hmod) hdvd)) heven
    · exact hmod
  have hthree : 3 ≤ n.minFac := by
    have := (Nat.minFac_prime (n := n) (by omega)).two_le
    omega
  have hle : n.minFac ≤ n := Nat.minFac_le (by omega)
  have hstep : 3 + 2 * ((n.minFac - 3) / 2) = n.minFac := by omega
  have := isPrimeLoop_sound n 3 h ((n.minFac - 3) / 2) (by omega)
  rw [hstep] at this
  exact this (by rw [← Nat.pow_two]; exact hsq) (Nat.mod_eq_zero_of_dvd hdvd)

theorem isPrimeLoop_of_prime (hn : n.Prime) (fuel : Nat) {d : Nat} (hd : 2 ≤ d) : isPrimeLoop n fuel d = true := by
  induction fuel generalizing d with
  | zero => rfl
  | succ fuel ih =>
    rw [isPrimeLoop]
    split_ifs with hbig hdiv
    · rfl
    · have hdvd := (Nat.dvd_prime hn).mp (Nat.dvd_of_mod_eq_zero hdiv)
      have := Nat.mul_le_mul_right d hd
      omega
    · exact ih (by omega)

theorem isPrime_iff (n : Nat) : isPrime n = true ↔ n.Prime := by
  refine ⟨prime_of_isPrime, fun hn => ?_⟩
  have htwo := hn.two_le
  rw [isPrime, if_neg (by omega)]
  split_ifs with heven
  · have := (Nat.dvd_prime hn).mp (Nat.dvd_of_mod_eq_zero heven)
    exact decide_eq_true (by omega)
  · exact isPrimeLoop_of_prime hn n (by omega)

/-! ### Permutations -/

/-- What `fill` computes for a backend: a slot to start at and a skip that is no multiple of the size. -/
structure Permutation.Valid (p : Permutation) (size : Nat) : Prop where
  offset : p.offset < size
  skip_pos : 0 < p.skip
  skip_lt : p.skip < size

theorem permutation_valid {size : Nat} (hsize : size.Prime) (key : String) : (permutation size key).Valid size := by
  have htwo := hsize.two_le
  refine ⟨Nat.mod_lt _ (by omega), by simp [permutation], ?_⟩
  have : (hashKey key skipSeed).toNat % (size - 1) < size - 1 := Nat.mod_lt _ (by omega)
  simp only [permutation]
  omega

section Permutation
variable {size : Nat} {p : Permutation}

theorem slot_eq (hsmall : size ≤ 2 ^ 31) (hp : p.Valid size) {k : Nat} (hk : k < size) :
    p.slot size k = (p.offset + k * p.skip) % size := by
  have hmul : k * p.skip ≤ 2 ^ 31 * 2 ^ 31 := Nat.mul_le_mul (by omega) (le_trans (le_of_lt hp.skip_lt) hsmall)
  have := hp.offset
  rw [Permutation.slot, Nat.mod_eq_of_lt (a := p.offset + k * p.skip) (by omega)]

theorem exists_step (hsize : size.Prime) (hsmall : size ≤ 2 ^ 31) (hp : p.Valid size) {slot : Nat}
    (hslot : slot < size) : ∃ k < size, p.slot size k = slot := by
  have : Fact size.Prime := ⟨hsize⟩
  have hskip : (p.skip : ZMod size) ≠ 0 := by
    intro hzero
    rw [ZMod.natCast_eq_zero_iff] at hzero
    exact absurd (Nat.le_of_dvd hp.skip_pos hzero) (by have := hp.skip_lt; omega)
  let k : ZMod size := ((slot : ZMod size) - p.offset) * (p.skip : ZMod size)⁻¹
  refine ⟨k.val, ZMod.val_lt k, ?_⟩
  have hcast : ((p.offset + k.val * p.skip : Nat) : ZMod size) = (slot : ZMod size) := by
    push_cast
    rw [ZMod.natCast_zmod_val, mul_assoc, inv_mul_cancel₀ hskip]
    ring
  rw [slot_eq hsmall hp (ZMod.val_lt k)]
  have := (ZMod.natCast_eq_natCast_iff' _ _ _).mp hcast
  rwa [Nat.mod_eq_of_lt hslot] at this

theorem slot_lt (hsize : size.Prime) (k : Nat) : p.slot size k < size := Nat.mod_lt _ hsize.pos

end Permutation

/-! ### One search -/

section
variable {size : Nat} {claimed : Nat → Bool} {p : Permutation}

variable {k : Nat}

theorem propose_inv {fuel slot next : Nat} (h : propose size claimed p fuel k = some (slot, next)) :
    ∃ j, k ≤ j ∧ next = j + 1 ∧ slot = p.slot size j ∧ claimed slot = false ∧
      ∀ i, k ≤ i → i < j → claimed (p.slot size i) := by
  induction fuel generalizing k with
  | zero => cases h
  | succ fuel ih =>
    rw [propose] at h
    split_ifs at h with hclaimed
    · obtain ⟨j, hkj, hnext, hslot, hfree, hpassed⟩ := ih h
      refine ⟨j, by omega, hnext, hslot, hfree, fun i hki hij => ?_⟩
      rcases Nat.eq_or_lt_of_le hki with rfl | hlt
      · exact hclaimed
      · exact hpassed i hlt hij
    · cases h
      exact ⟨k, le_rfl, rfl, rfl, by simpa using hclaimed, fun i hki hij => by omega⟩

theorem propose_isSome (fuel : Nat) {j : Nat} (hkj : k ≤ j) (hfuel : j < k + fuel)
    (hfree : claimed (p.slot size j) = false) : ∃ slot next, propose size claimed p fuel k = some (slot, next) := by
  induction fuel generalizing k with
  | zero => omega
  | succ fuel ih =>
    rw [propose]
    split_ifs with hclaimed
    · have hne : k ≠ j := by
        rintro rfl
        rw [hfree] at hclaimed
        cases hclaimed
      exact ih (by omega) (by omega)
    · exact ⟨_, _, rfl⟩

end

/-! ### The loops -/

section Loops
variable {size : Nat} {perms : List Permutation}

/-- The invariant of the loops. The count is the number of claimed slots, claims name backends, and every slot
that a backend has passed is claimed. -/
structure FillInv (size : Nat) (perms : List Permutation) (st : Fill) : Prop where
  entries_length : st.entries.length = size
  next_length : st.next.length = perms.length
  filled_eq : st.filled = st.entries.countP Option.isSome
  index_lt : ∀ i, some i ∈ st.entries → i < perms.length
  passed : ∀ i < perms.length, ∀ k < st.next.getD i 0, st.claimed ((perms.getD i ⟨0, 1⟩).slot size k) = true

theorem emptyFill_inv (size : Nat) (perms : List Permutation) : FillInv size perms (emptyFill size perms.length) := by
  refine ⟨by simp [emptyFill], by simp [emptyFill], by simp [emptyFill, countP_replicate], ?_, ?_⟩
  · intro i hi
    simp [emptyFill] at hi
  · intro i hi k hk
    simp [emptyFill, getD_eq_getElem?_getD, hi] at hk

section
variable {st : Fill} {slot i : Nat}

theorem FillInv.exists_free (h : FillInv size perms st) (hfull : st.filled < size) :
    ∃ slot < size, st.claimed slot = false := by
  by_contra hno
  have hall : ∀ x ∈ st.entries, x.isSome := by
    intro x hx
    obtain ⟨slot, hslot, rfl⟩ := getElem_of_mem hx
    by_contra hnone
    refine hno ⟨slot, h.entries_length ▸ hslot, ?_⟩
    simpa [Fill.claimed, getD_eq_getElem?_getD, hslot] using hnone
  have hcount := countP_eq_length.mpr hall
  rw [h.filled_eq, hcount, h.entries_length] at hfull
  omega

theorem countP_set_free {l : List (Option Nat)} (hslot : slot < l.length)
    (hfree : (l.getD slot none).isSome = false) {P : Option Nat → Bool} (hP : P none = false) :
    (l.set slot (some i)).countP P = l.countP P + if P (some i) then 1 else 0 := by
  have hget : l[slot] = none := by
    simpa [getD_eq_getElem?_getD, hslot] using hfree
  rw [countP_set hslot]
  simp [hget, hP]

theorem claimed_set (hslot : slot < st.entries.length) (next : List Nat) (filled j : Nat) :
    Fill.claimed ⟨st.entries.set slot (some i), next, filled⟩ j = (st.claimed j || decide (slot = j)) := by
  by_cases hj : slot = j
  · subst hj
    simp [Fill.claimed, getD_eq_getElem?_getD, hslot]
  · simp [Fill.claimed, getD_eq_getElem?_getD, getElem?_set_ne hj, hj]

theorem claim_inv (hsize : size.Prime) (hsmall : size ≤ 2 ^ 31) (hperms : ∀ p ∈ perms, p.Valid size)
    (h : FillInv size perms st) (hfull : st.filled < size) {i : Nat} (hi : i < perms.length) :
    FillInv size perms (claim size perms st i) ∧ (claim size perms st i).filled = st.filled + 1 ∧
      ∀ j, (claim size perms st i).entries.count (some j) = st.entries.count (some j) + if i = j then 1 else 0 := by
  have hp : (perms.getD i ⟨0, 1⟩).Valid size := by
    rw [getD_eq_getElem?_getD, getElem?_eq_getElem hi, Option.getD_some]
    exact hperms _ (getElem_mem hi)
  -- a free slot is reached at a step that the backend has not passed yet
  obtain ⟨free, hfree_lt, hfree⟩ := h.exists_free hfull
  obtain ⟨k, hk, rfl⟩ := exists_step hsize hsmall hp hfree_lt
  have hnext : st.next.getD i 0 ≤ k := by
    by_contra hpassed
    rw [h.passed i hi k (by omega)] at hfree
    cases hfree
  obtain ⟨slot, next, hfound⟩ := propose_isSome size hnext (by omega) hfree
  obtain ⟨j, hj, rfl, rfl, hslotfree, hpassed⟩ := propose_inv hfound
  have hslot : (perms.getD i ⟨0, 1⟩).slot size j < st.entries.length := by
    rw [h.entries_length]
    exact slot_lt hsize j
  rw [claim, hfound]
  refine ⟨⟨by simp [h.entries_length], by simp [h.next_length], ?_, ?_, ?_⟩, rfl, fun j' => ?_⟩
  · rw [countP_set_free hslot hslotfree rfl, h.filled_eq]
    rfl
  · intro i' hi'
    rcases mem_or_eq_of_mem_set hi' with hmem | heq
    · exact h.index_lt i' hmem
    · cases heq
      exact hi
  · intro i' hi' k' hk'
    rw [claimed_set hslot]
    by_cases hii : i = i'
    · subst hii
      have hlen : i < st.next.length := h.next_length ▸ hi
      simp only [getD_eq_getElem?_getD, getElem?_set_self hlen, Option.getD_some] at hk'
      rcases Nat.lt_or_ge k' (st.next.getD i 0) with hlt | hge
      · rw [h.passed i hi k' hlt, Bool.true_or]
      · rcases Nat.eq_or_lt_of_le (Nat.le_of_lt_succ hk') with rfl | hlt
        · simp
        · rw [hpassed k' hge hlt, Bool.true_or]
    · simp only [getD_eq_getElem?_getD, getElem?_set_ne hii] at hk'
      rw [h.passed i' hi' k' (by rwa [getD_eq_getElem?_getD]), Bool.true_or]
  · rw [count, countP_set_free hslot hslotfree rfl]
    simp

theorem FillInv.filled_le (h : FillInv size perms st) : st.filled ≤ size := by
  rw [h.filled_eq, ← h.entries_length]
  exact countP_le_length

end

/-- Every backend had `q` turns, and the first `i` of them one more. -/
structure Fair (n q i : Nat) (st : Fill) : Prop where
  le : i ≤ n
  filled : st.filled = q * n + i
  count : ∀ j < n, st.entries.count (some j) = q + if j < i then 1 else 0

theorem Fair.round {n q : Nat} {st : Fill} (h : Fair n q n st) : Fair n (q + 1) 0 st := by
  refine ⟨by omega, by rw [h.filled, Nat.succ_mul]; omega, fun j hj => ?_⟩
  rw [h.count j hj, if_pos hj, if_neg (by omega), Nat.add_zero]

section
variable (hsize : size.Prime) (hsmall : size ≤ 2 ^ 31) (hperms : ∀ p ∈ perms, p.Valid size)

include hsize hsmall hperms

variable {st : Fill} {q : Nat}

theorem turns_inv (h : FillInv size perms st) (hfair : Fair perms.length q 0 st) (k : Nat) (hk : k ≤ perms.length) :
    let st' := (range k).foldl (fun st i => if st.filled = size then st else claim size perms st i) st
    FillInv size perms st' ∧ ∃ i ≤ k, Fair perms.length q i st' ∧ (i = k ∨ st'.filled = size) := by
  induction k with
  | zero => exact ⟨h, 0, le_rfl, hfair, .inl rfl⟩
  | succ k ih =>
    obtain ⟨hinv, i, hik, hfair', hend⟩ := ih (by omega)
    rw [range_succ, foldl_append, foldl_cons, foldl_nil]
    generalize (range k).foldl _ st = st' at *
    dsimp only
    split_ifs with hfull
    · exact ⟨hinv, i, by omega, hfair', .inr hfull⟩
    obtain rfl := hend.resolve_right hfull
    obtain ⟨hinv', hfilled, hcount⟩ := claim_inv hsize hsmall hperms hinv
      (Nat.lt_of_le_of_ne hinv.filled_le hfull) (by omega : i < perms.length)
    refine ⟨hinv', i + 1, le_rfl, ⟨hk, by rw [hfilled, hfair'.filled]; rfl, fun j hj => ?_⟩, .inl rfl⟩
    rw [hcount, hfair'.count j hj]
    split_ifs <;> omega

theorem fillLoop_inv (hne : perms ≠ []) (fuel : Nat) (h : FillInv size perms st)
    (hfair : Fair perms.length q 0 st) (hfuel : size ≤ st.filled + fuel) :
    FillInv size perms (fillLoop size perms fuel st) ∧ (fillLoop size perms fuel st).filled = size ∧
      ∃ q i, Fair perms.length q i (fillLoop size perms fuel st) := by
  have hfull : ∀ fuel (st : Fill), st.filled = size → fillLoop size perms fuel st = st := by
    intro fuel st hst
    cases fuel with
    | zero => rfl
    | succ fuel => rw [fillLoop, if_neg (by omega)]
  induction fuel generalizing st q with
  | zero => exact ⟨h, Nat.le_antisymm h.filled_le hfuel, q, 0, hfair⟩
  | succ fuel ih =>
    rw [fillLoop]
    split_ifs with hless
    · obtain ⟨hinv, i, -, hfair', hend⟩ := turns_inv hsize hsmall hperms h hfair perms.length le_rfl
      change FillInv size perms (fillRound size perms st) at hinv
      rcases hend with rfl | hend
      · have hround : (fillRound size perms st).filled = (q + 1) * perms.length + 0 := hfair'.round.filled
        have := hfair.filled
        have := length_pos_iff.mpr hne
        refine ih hinv hfair'.round ?_
        rw [Nat.succ_mul] at hround
        omega
      · rw [hfull fuel (fillRound size perms st) hend]
        exact ⟨hinv, hend, q, i, hfair'⟩
    · exact ⟨h, Nat.le_antisymm h.filled_le (by omega), q, 0, hfair⟩

/-- **Completeness.** With a prime size and at least one backend, every slot of the table names a backend. -/
theorem fill_complete (hne : perms ≠ []) :
    (fill size perms).length = size ∧
    (∀ slot < size, ∃ i < perms.length, (fill size perms).getD slot none = some i) ∧
    ∃ q, ∃ r ≤ perms.length, size = q * perms.length + r ∧
      ∀ j < perms.length, (fill size perms).count (some j) = q + if j < r then 1 else 0 := by
  have hempty : Fair perms.length 0 0 (emptyFill size perms.length) :=
    ⟨by omega, by simp [emptyFill], by simp [emptyFill, count_replicate]⟩
  obtain ⟨hinv, hfilled, q, r, hfair⟩ :=
    fillLoop_inv hsize hsmall hperms hne size (emptyFill_inv size perms) hempty (by simp [emptyFill])
  refine ⟨hinv.entries_length, fun slot hslot => ?_, q, r, hfair.le, hfilled.symm.trans hfair.filled, hfair.count⟩
  have hall : ∀ x ∈ fill size perms, x.isSome := by
    rw [← countP_eq_length]
    exact hinv.filled_eq.symm.trans (hfilled.trans hinv.entries_length.symm)
  have hget : (fill size perms).getD slot none ∈ fill size perms := by
    have hlt : slot < (fill size perms).length := hinv.entries_length.symm ▸ hslot
    rw [getD_eq_getElem?_getD, getElem?_eq_getElem hlt, Option.getD_some]
    exact getElem_mem hlt
  obtain ⟨i, hi⟩ := Option.isSome_iff_exists.mp (hall _ hget)
  exact ⟨i, hinv.index_lt i (hi ▸ hget), hi⟩

end

end Loops

/-! ### Tables -/

section Table
variable {β : Type} {key : β → String} {backends : List β} {size : Nat} {t : Table β}

theorem new_inv (h : new key backends size = .ok t) :
    backends ≠ [] ∧ size.Prime ∧ firstDuplicate ((sortByKey key backends).map key) = none ∧
    t = ⟨size, fill size ((sortByKey key backends).map fun b => permutation size (key b)), sortByKey key backends⟩ := by
  rw [new] at h
  split_ifs at h with hnone hsmall hprime
  dsimp only at h
  split at h
  · cases h
  · rename_i hdup
    cases h
    exact ⟨fun hnil => hnone (by rw [hnil]; rfl), prime_of_isPrime hprime, hdup, rfl⟩

theorem sortByKey_perm (key : β → String) (backends : List β) : (sortByKey key backends).Perm backends :=
  mergeSort_perm _ _

/-- What the loops leave behind, by the places of the backends in the sorted list. -/
structure Filled (key : β → String) (backends : List β) (size : Nat) (t : Table β) : Prop where
  size_eq : t.size = size
  backends_eq : t.backends = sortByKey key backends
  entries_length : t.entries.length = size
  complete : ∀ slot < size, ∃ i < t.backends.length, t.entries.getD slot none = some i
  fair : ∃ q, ∃ r ≤ t.backends.length, size = q * t.backends.length + r ∧
    ∀ j < t.backends.length, t.entries.count (some j) = q + if j < r then 1 else 0

theorem filled_of_new (h : new key backends size = .ok t) (hsmall : size ≤ 2 ^ 31) : Filled key backends size t := by
  obtain ⟨hne, hprime, -, rfl⟩ := new_inv h
  have hvalid : ∀ p ∈ (sortByKey key backends).map fun b => permutation size (key b), p.Valid size := by
    intro p hp
    obtain ⟨b, -, rfl⟩ := mem_map.mp hp
    exact permutation_valid hprime (key b)
  have hsorted : sortByKey key backends ≠ [] :=
    fun hnil => hne (by simpa [hnil] using (sortByKey_perm key backends).symm)
  obtain ⟨hlen, hall, hfair⟩ := fill_complete hprime hsmall hvalid (by simpa using hsorted)
  rw [length_map] at hall hfair
  exact ⟨rfl, rfl, hlen, hall, hfair⟩

theorem lookup_mem (h : new key backends size = .ok t) (hsmall : size ≤ 2 ^ 31) (k : Nat) :
    ∃ b ∈ backends, t.lookup k = some b := by
  have hfilled := filled_of_new h hsmall
  obtain ⟨i, hi, hslot⟩ := hfilled.complete (k % size) (Nat.mod_lt _ (new_inv h).2.1.pos)
  refine ⟨t.backends[i], (sortByKey_perm key backends).subset ?_, ?_⟩
  · rw [← hfilled.backends_eq]
    exact getElem_mem hi
  · rw [Table.lookup, hfilled.size_eq, hslot, Option.bind_some, getElem?_eq_getElem hi]

theorem firstDuplicate_eq_none_iff (l : List String) : firstDuplicate l = none ↔ l.IsChain (· ≠ ·) := by
  induction l with
  | nil => simp [firstDuplicate]
  | cons a l ih =>
    cases l with
    | nil => simp [firstDuplicate]
    | cons b l =>
      rw [firstDuplicate, isChain_cons_cons]
      split_ifs with hab
      · simp [hab]
      · simp [ih, Ne.symm hab]

theorem sortByKey_sorted (key : β → String) (backends : List β) :
    ((sortByKey key backends).map key).Pairwise (· ≤ ·) := by
  have : Std.Total fun a b : β => key a ≤ key b := ⟨fun a b => le_total (key a) (key b)⟩
  have : IsTrans β fun a b => key a ≤ key b := ⟨fun a b c => le_trans⟩
  exact pairwise_map.mpr (pairwise_mergeSort' (fun a b => key a ≤ key b) backends)

theorem nodup_iff_firstDuplicate {l : List String} (hsorted : l.Pairwise (· ≤ ·)) :
    l.Nodup ↔ firstDuplicate l = none := by
  rw [firstDuplicate_eq_none_iff]
  constructor
  · exact fun hnodup => List.Pairwise.isChain hnodup
  intro hne
  have hlt : l.IsChain (· < ·) := by
    rw [isChain_iff_getElem] at hne ⊢
    have hle := isChain_iff_getElem.mp hsorted.isChain
    exact fun i hi => lt_of_le_of_ne (hle i hi) (hne i hi)
  exact (isChain_iff_pairwise.mp hlt).imp fun hab => ne_of_lt hab

variable {backends' : List β}

theorem sortByKey_keys_eq (hnodup : (backends.map key).Nodup) (hnodup' : (backends'.map key).Nodup)
    (hkeys : ∀ k, k ∈ backends.map key ↔ k ∈ backends'.map key) :
    (sortByKey key backends).map key = (sortByKey key backends').map key := by
  have hperm : (backends.map key).Perm (backends'.map key) := (perm_ext_iff_of_nodup hnodup hnodup').mpr hkeys
  have hsort : ((sortByKey key backends).map key).Perm ((sortByKey key backends').map key) :=
    (((sortByKey_perm key backends).map key).trans hperm).trans ((sortByKey_perm key backends').map key).symm
  exact hsort.eq_of_pairwise' (sortByKey_sorted key backends) (sortByKey_sorted key backends')

theorem keys_nodup_of_new (h : new key backends size = .ok t) : (backends.map key).Nodup := by
  obtain ⟨-, -, hdup, -⟩ := new_inv h
  have hsorted := (nodup_iff_firstDuplicate (sortByKey_sorted key backends)).mpr hdup
  exact (((sortByKey_perm key backends).map key).nodup_iff).mp hsorted

theorem new_isOk (hne : backends ≠ []) (hlen : backends.length ≤ size) (hprime : isPrime size)
    (hnodup : (backends.map key).Nodup) : ∃ t, new key backends size = .ok t := by
  have hdup : firstDuplicate ((sortByKey key backends).map key) = none := by
    apply (nodup_iff_firstDuplicate (sortByKey_sorted key backends)).mp
    exact (((sortByKey_perm key backends).map key).nodup_iff).mpr hnodup
  rw [new, if_neg (by simpa using hne), if_neg (by omega), if_neg (by simpa using hprime)]
  dsimp only
  rw [hdup]
  exact ⟨_, rfl⟩

theorem sortByKey_eq_of_perm (hperm : backends.Perm backends') (hnodup : (backends.map key).Nodup) :
    sortByKey key backends = sortByKey key backends' := by
  refine @List.Perm.eq_of_pairwise _ (fun a b => key a ≤ key b) _ _ (fun a b ha hb hab hba => ?_)
    (pairwise_map.mp (sortByKey_sorted key backends)) (pairwise_map.mp (sortByKey_sorted key backends'))
    (((sortByKey_perm key backends).trans hperm).trans (sortByKey_perm key backends').symm)
  exact inj_on_of_nodup_map hnodup ((sortByKey_perm key _).subset ha)
    (hperm.symm.subset ((sortByKey_perm key _).subset hb)) (le_antisymm hab hba)

theorem new_eq_error_iff : (∃ e, new key backends size = .error e) ↔
    backends = [] ∨ size < backends.length ∨ ¬ size.Prime ∨ ¬ (backends.map key).Nodup := by
  constructor
  · rintro ⟨e, he⟩
    by_contra hok
    simp only [not_or, not_not, not_lt] at hok
    obtain ⟨t, ht⟩ := new_isOk hok.1 hok.2.1 ((isPrime_iff size).mpr hok.2.2.1) hok.2.2.2
    rw [ht] at he
    cases he
  intro h
  cases hnew : new key backends size with
  | error e => exact ⟨e, rfl⟩
  | ok t =>
    obtain ⟨hne, hprime, -⟩ := new_inv hnew
    have hlen : ¬ size < backends.length := by
      intro hlen
      rw [new, if_neg (by simpa using hne), if_pos hlen] at hnew
      cases hnew
    simp [hne, hprime, hlen, keys_nodup_of_new hnew] at h

theorem countP_lookup (h : new key backends size = .ok t) (hsmall : size ≤ 2 ^ 31) {j : Nat} {b : β}
    (hj : t.backends[j]? = some b) :
    (range size).countP (fun k => (t.lookup k).map key = some (key b)) = t.entries.count (some j) := by
  have hfilled := filled_of_new h hsmall
  have hnodup : (t.backends.map key).Nodup := by
    rw [hfilled.backends_eq, ((sortByKey_perm key backends).map key).nodup_iff]
    exact keys_nodup_of_new h
  have hentries : t.entries = (range size).map fun k => t.entries.getD k none := by
    refine ext_getElem (by simp [hfilled.entries_length]) fun i hi _ => ?_
    simp [getD_eq_getElem?_getD, hi]
  rw [count, hentries, countP_map]
  refine countP_congr fun k hk => ?_
  obtain ⟨i, hi, hslot⟩ := hfilled.complete k (mem_range.mp hk)
  have hkey : (t.backends.map key)[j]? = some (key b) := by rw [getElem?_map, hj, Option.map_some]
  rw [Table.lookup, hfilled.size_eq, Nat.mod_eq_of_lt (mem_range.mp hk), hslot, Option.bind_some,
    ← getElem?_map, ← hkey]
  simp only [decide_eq_true_eq, Function.comp_apply, hslot, beq_iff_eq, Option.some.injEq]
  exact getElem?_inj (by simpa using hi) hnodup

/-- **Total, complete, fair and blind to the order.** -/
theorem new_fair (key : β → String) (backends : List β) (size : Nat) :
    (backends ≠ [] → (backends.map key).Nodup → size.Prime → backends.length ≤ size → size < 2 ^ 31 →
      ∃ t, new key backends size = .ok t ∧ (∀ slot < size, ∃ b ∈ backends, t.lookup slot = some b) ∧
        (∀ b ∈ backends, ∀ slots, slots = (range size).countP (fun k => (t.lookup k).map key = some (key b)) →
          slots = size / backends.length ∨ slots = (size + backends.length - 1) / backends.length) ∧
        ∀ backends', backends.Perm backends' → new key backends' size = .ok t) ∧
    ((∃ e, new key backends size = .error e) ↔
      backends = [] ∨ size < backends.length ∨ ¬ size.Prime ∨ ¬ (backends.map key).Nodup) := by
  refine ⟨fun hne hnodup hprime hlen hsmall => ?_, new_eq_error_iff⟩
  obtain ⟨t, ht⟩ := new_isOk hne hlen ((isPrime_iff size).mpr hprime) hnodup
  have hfilled := filled_of_new ht hsmall.le
  refine ⟨t, ht, fun slot _ => lookup_mem ht hsmall.le slot, fun b hb slots hslots => ?_, fun backends' hperm => ?_⟩
  · obtain ⟨j, hj⟩ := mem_iff_getElem?.mp (hfilled.backends_eq ▸ (sortByKey_perm key backends).mem_iff.mpr hb)
    obtain ⟨q, r, hr, hsum, hcount⟩ := hfilled.fair
    obtain ⟨hjlen, -⟩ := List.getElem?_eq_some_iff.mp hj
    rw [hslots, countP_lookup ht hsmall.le hj, hcount j hjlen]
    have hn : t.backends.length = backends.length :=
      by rw [hfilled.backends_eq, (sortByKey_perm key backends).length_eq]
    rw [hn] at hr hsum hjlen
    split_ifs with hjr
    · -- a slot more than `q` is the quotient rounded up
      exact .inr (Nat.div_eq_of_lt_le (by rw [Nat.succ_mul]; omega) (by rw [Nat.succ_mul, Nat.succ_mul]; omega)).symm
    · rw [Nat.add_zero]
      exact .inl (Nat.div_eq_of_lt_le (by omega) (by rw [Nat.succ_mul]; omega)).symm
  · obtain ⟨t', ht'⟩ := new_isOk (fun hnil => hne (by simpa [hnil] using hperm)) (hperm.length_eq ▸ hlen)
      ((isPrime_iff size).mpr hprime) ((hperm.map key).nodup_iff.mp hnodup)
    rw [ht', (new_inv ht).2.2.2, (new_inv ht').2.2.2, sortByKey_eq_of_perm hperm hnodup]

theorem new_fair_three : ∃ t, new id ["a", "b", "c"] 7 = .ok t ∧ new id ["c", "a", "b"] 7 = .ok t ∧
    ∀ slot < 7, ∃ b ∈ ["a", "b", "c"], t.lookup slot = some b := by
  obtain ⟨t, ht, hfull, -, hperm⟩ := (new_fair id ["a", "b", "c"] 7).1 (by decide) (by decide) (by norm_num)
    (by decide) (by decide)
  exact ⟨t, ht, hperm _ (by decide), hfull⟩

/-- **Placement.** Two tables of one size over the same keys send a slot to the same key, whatever order the
backends came in. -/
theorem lookup_key_eq {t' : Table β} (h : new key backends size = .ok t)
    (h' : new key backends' size = .ok t') (hkeys : ∀ k, k ∈ backends.map key ↔ k ∈ backends'.map key) (k : Nat) :
    (t.lookup k).map key = (t'.lookup k).map key := by
  have hsorted := sortByKey_keys_eq (keys_nodup_of_new h) (keys_nodup_of_new h') hkeys
  obtain ⟨-, -, -, rfl⟩ := new_inv h
  obtain ⟨-, -, -, rfl⟩ := new_inv h'
  have hperms : ((sortByKey key backends).map fun b => permutation size (key b)) =
      (sortByKey key backends').map fun b => permutation size (key b) := by
    have := congrArg (List.map (permutation size)) hsorted
    simpa [map_map, Function.comp_def] using this
  have hindex (i : Nat) : ((sortByKey key backends)[i]?).map key = ((sortByKey key backends')[i]?).map key := by
    rw [← getElem?_map, ← getElem?_map, hsorted]
  unfold Table.lookup
  dsimp only
  rw [hperms]
  cases (fill size _).getD (k % size) none with
  | none => rfl
  | some i => exact hindex i

end Table

end Galactic.Maglev
