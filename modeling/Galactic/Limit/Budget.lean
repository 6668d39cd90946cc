import Galactic.Lib.Meter
import Galactic.Limit.Buckets

/-!
# Rates under eviction

The tokens of a key are those of its bucket, or of a new bucket while it has none. An eviction only takes a full bucket,
so that no key gains a token by it. A charge takes its tokens from the bucket it found; that it takes them from the key
needs the bucket to be still in the table, which the lookup of a further key may have changed. -/

namespace Galactic.Limit

open Metering List Buckets Option Prod

/-! ### Levels -/

theorem seconds_sub (s t : Int) : seconds (t - s) = seconds t - seconds s := by
  unfold seconds
  push_cast
  ring

theorem seconds_le_iff {s t : Int} : seconds s ≤ seconds t ↔ s ≤ t := by
  unfold seconds
  rw [div_le_div_iff_of_pos_right (by norm_num)]
  exact Int.cast_le

namespace Buckets

def RatesPositive (b : Buckets) : Prop := ∀ c : Class, 0 < (b.rate c).perSecond ∧ 0 < (b.rate c).burst

variable {b : Buckets}

theorem ratesPositive_of_limits (h : b.limits.Positive) : b.RatesPositive := by
  intro c
  cases c
  · exact h.requestCell
  · exact h.requestProject
  · exact h.packetCell
  · exact h.packetPrincipal
  · exact h.packetHost
  · exact h.packetPrefix

section Level
variable {k : BucketKey} {bk : Bucket} {s t : Int}

theorem level_le_burst : b.level k bk t ≤ (b.rate k.cls).burst := min_le_left _ _

theorem level_mono (hr : b.RatesPositive) (hst : s ≤ t) : b.level k bk s ≤ b.level k bk t := by
  have hsec : seconds (s - bk.since) ≤ seconds (t - bk.since) := seconds_le_iff.mpr (by omega)
  exact min_le_min_left _ (add_le_add_right (mul_le_mul_of_nonneg_left (max_le_max_right 0 hsec) (hr k.cls).1.le) _)

theorem level_grows (hr : b.RatesPositive) (hst : s ≤ t) :
    b.level k bk t ≤ b.level k bk s + (b.rate k.cls).perSecond * (seconds t - seconds s) := by
  have hpos := (hr k.cls).1.le
  have hsec : (0 : ℚ) ≤ seconds t - seconds s := sub_nonneg.mpr (seconds_le_iff.mpr hst)
  have helapsed : max (seconds (t - bk.since)) 0 ≤ max (seconds (s - bk.since)) 0 + (seconds t - seconds s) := by
    rw [seconds_sub, seconds_sub]
    refine max_le ?_ ?_
    · have := le_max_left (seconds s - seconds bk.since) 0
      linarith
    · have := le_max_right (seconds s - seconds bk.since) 0
      linarith
  have hrefill := mul_le_mul_of_nonneg_left helapsed hpos
  unfold level
  rw [← min_add_add_right]
  refine min_le_min ?_ ?_
  · exact le_add_of_nonneg_right (mul_nonneg hpos hsec)
  · linarith

theorem level_nonneg (hr : b.RatesPositive) (htokens : 0 ≤ bk.tokens) : 0 ≤ b.level k bk t :=
  le_min (hr k.cls).2.le (add_nonneg htokens (mul_nonneg (hr k.cls).1.le (le_max_right _ _)))

end Level

def tokensOf (b : Buckets) (k : BucketKey) (t : Int) : ℚ :=
  match b.find k with
  | some p => b.level k (b.cell p) t
  | none => b.level k ⟨0, b.start⟩ t

/-- The buckets of the table are there, each has one key, and none is overdrawn. -/
structure Sound (b : Buckets) : Prop where
  keys : (b.buckets.map (·.1)).Nodup
  pointers : (b.buckets.map (·.2)).Nodup
  made : ∀ e ∈ b.buckets, e.2 < b.cells.length
  tokens : ∀ bk ∈ b.cells, 0 ≤ bk.tokens

section
variable {k : BucketKey} {p : Nat}

theorem find_eq_some (h : b.Sound) : b.find k = some p ↔ (k, p) ∈ b.buckets := by
  unfold find
  constructor
  · intro hfind
    obtain ⟨e, he, rfl⟩ := map_eq_some_iff.mp hfind
    have hk : e.1 = k := by simpa using find?_some he
    rw [← hk]
    exact mem_of_find?_eq_some he
  intro hmem
  have hsome : (b.buckets.find? fun e => decide (e.1 = k)).isSome := by
    rw [find?_isSome]
    exact ⟨(k, p), hmem, by simp⟩
  obtain ⟨e, he⟩ := isSome_iff_exists.mp hsome
  have hk : e.1 = k := by simpa using find?_some he
  have hsame := inj_on_of_nodup_map h.keys (mem_of_find?_eq_some he) hmem hk
  rw [he, hsame]
  rfl

theorem find_eq_none : b.find k = none ↔ ∀ e ∈ b.buckets, e.1 ≠ k := by
  simp [find, Prod.forall]

theorem tokensOf_of_mem (h : b.Sound) (hmem : (k, p) ∈ b.buckets) (t : Int) :
    b.tokensOf k t = b.level k (b.cell p) t := by
  unfold tokensOf
  rw [(find_eq_some h).mpr hmem]

theorem tokensOf_of_absent (h : b.find k = none) (t : Int) : b.tokensOf k t = b.level k ⟨0, b.start⟩ t := by
  unfold tokensOf
  rw [h]

theorem tokens_cell (h : b.Sound) (p : Nat) : 0 ≤ (b.cell p).tokens := by
  unfold cell
  rw [getD_eq_getElem?_getD]
  rcases hget : b.cells[p]? with _ | bk
  · exact le_refl _
  · exact h.tokens bk (mem_of_getElem? hget)

theorem tokensOf_nonneg (hr : b.RatesPositive) (h : b.Sound) (k : BucketKey) (t : Int) : 0 ≤ b.tokensOf k t := by
  unfold tokensOf
  split
  · exact level_nonneg hr (tokens_cell h _)
  · exact level_nonneg hr (le_refl _)

theorem tokensOf_le_burst (b : Buckets) (k : BucketKey) (t : Int) : b.tokensOf k t ≤ (b.rate k.cls).burst := by
  unfold tokensOf
  split <;> exact level_le_burst

theorem tokensOf_grows (hr : b.RatesPositive) (k : BucketKey) {s t : Int} (hst : s ≤ t) :
    b.tokensOf k t ≤ b.tokensOf k s + (b.rate k.cls).perSecond * (seconds t - seconds s) := by
  unfold tokensOf
  split <;> exact level_grows hr hst

end

/-! ### Lookups -/

/-- What lookups do to the buckets: none is touched, and empty ones are made behind them. -/
structure Grows (b b' : Buckets) : Prop where
  start : b'.start = b.start
  cells : ∃ n, b'.cells = b.cells ++ List.replicate n ⟨0, b.start⟩

theorem Grows.refl (b : Buckets) : Grows b b := ⟨rfl, 0, by simp⟩

variable {b₁ b₂ : Buckets}

theorem Grows.trans (h : Grows b b₁) (h' : Grows b₁ b₂) : Grows b b₂ := by
  obtain ⟨hstart, n, hn⟩ := h
  obtain ⟨hstart', n', hn'⟩ := h'
  refine ⟨hstart'.trans hstart, n + n', ?_⟩
  rw [hn', hn, hstart, append_assoc, replicate_append_replicate]

theorem grows_insert (b : Buckets) (k : BucketKey) : Grows b (b.insert k) := ⟨rfl, 1, rfl⟩

theorem grows_addCount {b' : Buckets} (h : Grows b b') (f : Family) (d : Int) : Grows b (b'.addCount f d) := by
  rcases f with _ | _
  · exact ⟨h.start, h.cells⟩
  · exact ⟨h.start, h.cells⟩

theorem lookup_grows (b : Buckets) (k : BucketKey) (now : Int) (pick : Nat) : Grows b (b.lookup k now pick).2 := by
  unfold lookup
  rcases b.find k with _ | p
  · rcases k.cls.family with _ | f
    · exact grows_insert b k
    dsimp only
    split_ifs with hfull
    · rcases hevict : b.evict f now pick with _ | b'
      · exact Grows.refl b
      obtain ⟨k', -, rfl⟩ := map_eq_some_iff.mp hevict
      have hdrop : Grows b { b with buckets := b.buckets.filter fun e => e.1 ≠ k' } := ⟨rfl, 0, by simp⟩
      exact grows_addCount ((grows_addCount hdrop f (-1)).trans (grows_insert _ k)) f 1
    · exact grows_addCount (grows_insert b k) f 1
  · exact Grows.refl b

variable {now : Int} {picks : Nat → Nat}

theorem lookupAll_keeps_all {I : Buckets → Prop} (hone : ∀ k i b, I b → I (b.lookup k now (picks i)).2)
    (keys : List BucketKey) (i : Nat) (h : I b) : I (lookupAll now picks keys i b).2 := by
  induction keys generalizing i b with
  | nil => exact h
  | cons k keys ih =>
    have h := hone k i b h
    unfold lookupAll
    rcases hlook : b.lookup k now (picks i) with ⟨e | p, b₁⟩ <;> rw [hlook] at h
    · exact h
    have hrest := ih (i + 1) h
    dsimp only
    rcases hall : lookupAll now picks keys (i + 1) b₁ with ⟨e | ps, b₂⟩ <;> rw [hall] at hrest <;> exact hrest

theorem lookupAll_grows (keys : List BucketKey) (i : Nat) (b : Buckets) : Grows b (lookupAll now picks keys i b).2 :=
  lookupAll_keeps_all (fun k i b₁ hb => hb.trans (lookup_grows b₁ k now (picks i))) keys i (Grows.refl b)

/-- What lookups do to the tokens: no key gains one. -/
structure Settles (now : Int) (b b' : Buckets) : Prop where
  limits : b'.limits = b.limits
  sound : b'.Sound
  tokens : ∀ k t, now ≤ t → b'.tokensOf k t ≤ b.tokensOf k t

theorem Settles.refl (h : b.Sound) (now : Int) : Settles now b b := ⟨rfl, h, fun _ _ _ => le_refl _⟩

theorem Settles.trans (h : Settles now b b₁) (h' : Settles now b₁ b₂) : Settles now b b₂ :=
  ⟨h'.limits.trans h.limits, h'.sound, fun k t ht => (h'.tokens k t ht).trans (h.tokens k t ht)⟩

def drop (b : Buckets) (k : BucketKey) : Buckets := { b with buckets := b.buckets.filter fun e => e.1 ≠ k }

section
variable {f : Family} {k : BucketKey} {b' : Buckets}

theorem mem_full {e : BucketKey × Nat} : e ∈ b.full f now ↔ e ∈ b.buckets ∧ e.1.cls.family = some f ∧
      (b.rate e.1.cls).burst ≤ b.level e.1 (b.cell e.2) now := by
  simp [full]

theorem victim_mem {pick : Nat} (h : b.victim f now pick = some k) : ∃ p, (k, p) ∈ b.full f now := by
  obtain ⟨e, he, rfl⟩ := map_eq_some_iff.mp h
  exact ⟨e.2, mem_of_getElem? he⟩

theorem settles_drop (hr : b.RatesPositive) (h : b.Sound) {p : Nat} (hfull : (k, p) ∈ b.full f now) :
    Settles now b (b.drop k) := by
  obtain ⟨hmem, -, hlevel⟩ := mem_full.mp hfull
  have hsub : ((b.drop k).buckets).Sublist b.buckets := filter_sublist
  have hsound : (b.drop k).Sound :=
    ⟨(hsub.map _).nodup h.keys, (hsub.map _).nodup h.pointers, fun e he => h.made e (hsub.subset he), h.tokens⟩
  refine ⟨rfl, hsound, fun k' t ht => ?_⟩
  by_cases hk : k' = k
  · subst hk
    have hbefore : (b.rate k'.cls).burst ≤ b.tokensOf k' t := by
      rw [tokensOf_of_mem h hmem]
      exact hlevel.trans (level_mono hr ht)
    exact (tokensOf_le_burst (b.drop k') k' t).trans hbefore
  have hfind : (b.drop k).find k' = b.find k' := by
    rcases hold : b.find k' with _ | p'
    · rw [find_eq_none] at hold ⊢
      exact fun e he => hold e (hsub.subset he)
    · rw [find_eq_some hsound]
      exact mem_filter.mpr ⟨(find_eq_some h).mp hold, by simpa using hk⟩
  unfold tokensOf
  rw [hfind]
  exact le_refl _

theorem settles_insert (h : b.Sound) (hnone : b.find k = none) (now : Int) : Settles now b (b.insert k) := by
  have hcell : ∀ p, p < b.cells.length → (b.insert k).cell p = b.cell p := by
    intro p hp
    simp only [cell, insert, getD_eq_getElem?_getD]
    rw [getElem?_append_left hp]
  have hnew : (b.insert k).cell b.cells.length = ⟨0, b.start⟩ := by
    simp [cell, insert, getD_eq_getElem?_getD]
  have hsound : (b.insert k).Sound := by
    refine ⟨?_, ?_, ?_, ?_⟩
    · refine nodup_cons.mpr ⟨fun hmem => ?_, h.keys⟩
      obtain ⟨e, he, hek⟩ := mem_map.mp hmem
      exact find_eq_none.mp hnone e he hek
    · refine nodup_cons.mpr ⟨fun hmem => ?_, h.pointers⟩
      obtain ⟨e, he, hep⟩ := mem_map.mp hmem
      exact absurd (h.made e he) (by rw [hep]; exact lt_irrefl _)
    · rw [insert, length_append, length_singleton]
      exact forall_mem_cons.mpr ⟨Nat.lt_succ_self _, fun e he => Nat.lt_succ_of_lt (h.made e he)⟩
    · exact forall_mem_append.mpr ⟨h.tokens, forall_mem_singleton.mpr le_rfl⟩
  refine ⟨rfl, hsound, fun k' t ht => ?_⟩
  by_cases hk : k' = k
  · subst hk
    rw [tokensOf_of_absent hnone, tokensOf_of_mem hsound mem_cons_self, hnew]
    exact le_refl _
  rcases hold : b.find k' with _ | p'
  · have hfind : (b.insert k).find k' = none := by
      rw [find_eq_none] at hold ⊢
      exact forall_mem_cons.mpr ⟨Ne.symm hk, hold⟩
    rw [tokensOf_of_absent hold, tokensOf_of_absent hfind]
    exact le_refl _
  · have hmem := (find_eq_some h).mp hold
    rw [tokensOf_of_mem h hmem, tokensOf_of_mem hsound (mem_cons_of_mem _ hmem), hcell p' (h.made _ hmem)]
    exact le_refl _

theorem settles_addCount (h : Settles now b b') (f : Family) (d : Int) : Settles now b (b'.addCount f d) := by
  obtain ⟨hlimits, hsound, htokens⟩ := h
  cases f <;> exact ⟨hlimits, ⟨hsound.keys, hsound.pointers, hsound.made, hsound.tokens⟩, htokens⟩

@[simp] theorem addCount_cells (b : Buckets) (f : Family) (d : Int) : (b.addCount f d).cells = b.cells := by
  cases f <;> rfl

@[simp] theorem addCount_buckets (b : Buckets) (f : Family) (d : Int) : (b.addCount f d).buckets = b.buckets := by
  cases f <;> rfl

theorem insert_addCount (b : Buckets) (k : BucketKey) (f : Family) (d : Int) :
    (b.addCount f d).insert k = (b.insert k).addCount f d := by
  cases f <;> rfl

theorem RatesPositive.of_limits (hr : b.RatesPositive) (h : b'.limits = b.limits) : b'.RatesPositive := by
  intro c
  have hrate : b'.rate c = b.rate c := by cases c <;> simp [rate, h]
  rw [hrate]
  exact hr c

end

/-- When a lookup takes the bucket of `e` out of the table. -/
def Evicts (b : Buckets) (k : BucketKey) (now : Int) (pick : Nat) (e : BucketKey) : Prop :=
  b.find k = none ∧ ∃ f, k.cls.family = some f ∧ b.limit f ≤ b.count f ∧ b.victim f now pick = some e

section
variable {b' : Buckets} {ps : List Nat}

/-- **Lookup.** -/
theorem lookup_spec (hr : b.RatesPositive) (h : b.Sound) (k : BucketKey) (now : Int) (pick : Nat) :
    Settles now b (b.lookup k now pick).2 ∧ ∀ p, (b.lookup k now pick).1 = .ok p →
      (k, p) ∈ (b.lookup k now pick).2.buckets ∧
      ∀ e ∈ b.buckets, ¬b.Evicts k now pick e.1 → e ∈ (b.lookup k now pick).2.buckets := by
  unfold lookup
  rcases hfind : b.find k with _ | p
  · dsimp only
    rcases hfamily : k.cls.family with _ | f
    · refine ⟨settles_insert h hfind now, fun p hp => ?_⟩
      cases hp
      exact ⟨mem_cons_self, fun e he _ => mem_cons_of_mem _ he⟩
    dsimp only
    split_ifs with hfull
    · rcases hevict : b.evict f now pick with _ | b'
      · exact ⟨Settles.refl h now, fun p hp => nomatch hp⟩
      obtain ⟨k', hk', rfl⟩ := map_eq_some_iff.mp hevict
      obtain ⟨p', hp'⟩ := victim_mem hk'
      have hdrop := settles_drop hr h hp'
      have hnone : (b.drop k').find k = none :=
        find_eq_none.mpr fun e he => find_eq_none.mp hfind e (mem_of_mem_filter he)
      change Settles now b ((((b.drop k').addCount f (-1)).insert k).addCount f 1) ∧ _
      rw [insert_addCount]
      refine ⟨settles_addCount (settles_addCount (hdrop.trans (settles_insert hdrop.sound hnone now)) f (-1)) f 1,
        fun p hp => ?_⟩
      cases hp
      simp only [insert_addCount, addCount_buckets, addCount_cells]
      refine ⟨mem_cons_self, fun e he hkept => mem_cons_of_mem _ ?_⟩
      refine mem_filter.mpr ⟨he, ?_⟩
      rw [decide_eq_true_eq]
      intro heq
      exact hkept ⟨hfind, f, hfamily, hfull, by rw [hk', heq]⟩
    · refine ⟨settles_addCount (settles_insert h hfind now) f 1, fun p hp => ?_⟩
      cases hp
      rw [addCount_buckets]
      exact ⟨mem_cons_self, fun e he _ => mem_cons_of_mem _ he⟩
  · refine ⟨Settles.refl h now, fun p' hp => ?_⟩
    cases hp
    exact ⟨(find_eq_some h).mp hfind, fun e he _ => he⟩

theorem lookupAll_settles (now : Int) (picks : Nat → Nat) (keys : List BucketKey) (i : Nat)
    (hr : b.RatesPositive) (h : b.Sound) : Settles now b (lookupAll now picks keys i b).2 :=
  lookupAll_keeps_all (fun k i _ hb =>
    hb.trans (lookup_spec (hr.of_limits hb.limits) hb.sound k now (picks i)).1) keys i
    (Settles.refl h now)

theorem lookupAll_cons_ok {k : BucketKey} {keys : List BucketKey} {i : Nat}
    (h : lookupAll now picks (k :: keys) i b = (.ok ps, b')) : ∃ p b₁ ps', b.lookup k now (picks i) = (.ok p, b₁) ∧
    lookupAll now picks keys (i + 1) b₁ = (.ok ps', b') ∧ ps = p :: ps' := by
  unfold lookupAll at h
  split at h
  · cases h
  next p b₁ hlook =>
  split at h
  · cases h
  next ps' b₂ hrest =>
  cases h
  exact ⟨p, b₁, ps', hlook, hrest, rfl⟩

theorem lookupAll_length (keys : List BucketKey) (i : Nat) (h : lookupAll now picks keys i b = (.ok ps, b')) :
    ps.length = keys.length := by
  induction keys generalizing i b b' ps with
  | nil =>
    cases h
    rfl
  | cons k keys ih =>
    obtain ⟨p, b₁, ps', -, hrest, rfl⟩ := lookupAll_cons_ok h
    rw [length_cons, length_cons, ih (i + 1) hrest]

end

/-! ### Debits -/

theorem shortage_none (hr : b.RatesPositive) {n : ℚ} {found : List (BucketKey × Nat)}
    {wait w : ℚ} {scope : Option Scope} (hwait : 0 ≤ wait ∧ (scope = none → wait = 0))
    (h : b.shortage n now found (wait, scope) = (w, none)) :
    scope = none ∧ ∀ e ∈ found, n ≤ b.level e.1 (b.cell e.2) now := by
  induction found generalizing wait scope with
  | nil =>
    cases h
    exact ⟨rfl, fun e he => absurd he not_mem_nil⟩
  | cons e found ih =>
    obtain ⟨k, p⟩ := e
    unfold shortage at h
    have hpos := fun hshort : b.level k (b.cell p) now < n => div_pos (sub_pos.mpr hshort) (hr k.cls).1
    dsimp only at h
    split_ifs at h with hshort hlonger
    · obtain ⟨hsome, -⟩ := @ih _ (some k.cls.scopeOf) ⟨(hpos hshort).le, by simp⟩ h
      cases hsome
    · obtain ⟨hnone, -⟩ := ih hwait h
      rw [hwait.2 hnone] at hlonger
      exact absurd (hpos hshort) hlonger
    · obtain ⟨hnone, hall⟩ := ih hwait h
      exact ⟨hnone, forall_mem_cons.mpr ⟨not_lt.mp hshort, hall⟩⟩

theorem level_since (b : Buckets) (k : BucketKey) (bk : Bucket) (now : Int) :
    b.level k bk (max now bk.since) = b.level k bk now := by
  rcases le_total bk.since now with hle | hle
  · rw [max_eq_left hle]
  have hneg : seconds (now - bk.since) ≤ 0 := by
    rw [seconds_sub, sub_nonpos]
    exact seconds_le_iff.mpr hle
  unfold level
  rw [max_eq_right hle, sub_self, max_eq_right hneg, show seconds 0 = 0 by simp [seconds], max_self]

def debitOne (b : Buckets) (n : ℚ) (now : Int) (k : BucketKey) (p : Nat) : Buckets :=
  { b with cells := b.cells.set p
             ⟨b.level k (b.cell p) (max now (b.cell p).since) - n, max now (b.cell p).since⟩ }

section
variable {n : ℚ} {k : BucketKey} {p : Nat}

theorem cell_debitOne_same (hp : p < b.cells.length) :
    (b.debitOne n now k p).cell p = ⟨b.level k (b.cell p) now - n, max now (b.cell p).since⟩ := by
  rw [← level_since]
  simp [cell, debitOne, getD_eq_getElem?_getD, hp]

theorem cell_debitOne_other {p p' : Nat} (hne : p' ≠ p) : (b.debitOne n now k p).cell p' = b.cell p' := by
  simp [cell, debitOne, getD_eq_getElem?_getD, getElem?_set_ne (Ne.symm hne)]

theorem sound_debitOne (h : b.Sound) (henough : n ≤ b.level k (b.cell p) now) : (b.debitOne n now k p).Sound := by
  refine ⟨h.keys, h.pointers, fun e he => ?_, fun bk hbk => ?_⟩
  · rw [debitOne, length_set]
    exact h.made e he
  rcases mem_or_eq_of_mem_set hbk with hbk | rfl
  · exact h.tokens bk hbk
  · rw [level_since]
    exact sub_nonneg.mpr henough

theorem tokensOf_debitOne (h : b.Sound) (hmem : (k, p) ∈ b.buckets) (henough : n ≤ b.level k (b.cell p) now) :
    (b.debitOne n now k p).tokensOf k now ≤ b.tokensOf k now - n ∧
      ∀ k', k' ≠ k → ∀ t, (b.debitOne n now k p).tokensOf k' t = b.tokensOf k' t := by
  have hsound := sound_debitOne h henough
  constructor
  · rw [tokensOf_of_mem hsound hmem, tokensOf_of_mem h hmem, cell_debitOne_same (h.made _ hmem)]
    have hneg : seconds (now - max now (b.cell p).since) ≤ 0 := by
      rw [seconds_sub, sub_nonpos]
      exact seconds_le_iff.mpr (le_max_left _ _)
    refine (min_le_right _ _).trans ?_
    rw [max_eq_right hneg, mul_zero, add_zero]
  intro k' hne t
  have hfind : (b.debitOne n now k p).find k' = b.find k' := rfl
  unfold tokensOf
  rw [hfind]
  rcases hold : b.find k' with _ | p'
  · rfl
  have hmem' := (find_eq_some h).mp hold
  have hp : p' ≠ p := by
    intro heq
    exact hne (congrArg fst (inj_on_of_nodup_map h.pointers hmem' hmem heq))
  dsimp only
  rw [cell_debitOne_other hp]
  rfl

/-- **Debit.** Buckets that are in the table under the keys of the charge are debited once each. -/
theorem debit_spec (found : List (BucketKey × Nat)) (h : b.Sound) (hmem : ∀ e ∈ found, e ∈ b.buckets)
    (hkeys : (found.map (·.1)).Nodup) (henough : ∀ e ∈ found, n ≤ b.level e.1 (b.cell e.2) now) :
    (debit n now found b).Sound ∧ (debit n now found b).limits = b.limits ∧
      ∀ k, (debit n now found b).tokensOf k now ≤ b.tokensOf k now - if k ∈ found.map (·.1) then n else 0 := by
  induction found generalizing b with
  | nil => exact ⟨h, rfl, fun k => by simp [debit]⟩
  | cons e found ih =>
    obtain ⟨k, p⟩ := e
    rw [map_cons, nodup_cons] at hkeys
    have hin := hmem (k, p) mem_cons_self
    have hlevel : n ≤ b.level k (b.cell p) now := henough (k, p) mem_cons_self
    obtain ⟨htake, hother⟩ := tokensOf_debitOne h hin hlevel
    have hrest : ∀ e ∈ found, n ≤ (b.debitOne n now k p).level e.1 ((b.debitOne n now k p).cell e.2) now := by
      intro e he
      have hp : e.2 ≠ p := by
        intro heq
        have hsame := inj_on_of_nodup_map h.pointers (hmem e (mem_cons_of_mem _ he)) hin heq
        exact hkeys.1 (mem_map.mpr ⟨e, he, congrArg fst hsame⟩)
      rw [cell_debitOne_other hp]
      exact henough e (mem_cons_of_mem _ he)
    obtain ⟨hsound, hlimits, htokens⟩ := ih (sound_debitOne h hlevel)
      (fun e he => hmem e (mem_cons_of_mem _ he)) hkeys.2 hrest
    refine ⟨hsound, hlimits, fun k' => ?_⟩
    refine (htokens k').trans ?_
    rw [map_cons]
    by_cases hk : k' = k
    · subst hk
      rw [if_neg hkeys.1, if_pos mem_cons_self, sub_zero]
      exact htake
    rw [hother k' hk]
    by_cases hfound : k' ∈ found.map (·.1)
    · rw [if_pos hfound, if_pos (mem_cons_of_mem _ hfound)]
    · rw [if_neg hfound, if_neg fun hcons => (mem_cons.mp hcons).elim hk hfound]

end

end Buckets

/-! ### Charges -/

/-- Both buckets of the destination are in the table, or there is room for the missing ones, or the host's bucket (a
new one, if it has none) is not full: no eviction made for the prefix can take the host's bucket then. -/
def Charge.SparesHost (b : Buckets) (c : Charge) : Prop :=
  match c.request with
  | .request _ => True
  | .packets _ dst _ =>
    let host : BucketKey := ⟨.packetHost, (destinationKeys dst).1⟩
    let pre : BucketKey := ⟨.packetPrefix, (destinationKeys dst).2⟩
    (b.find host ≠ none ∧ b.find pre ≠ none) ∨
      b.count .destination + [host, pre].countP (b.find · = none) ≤ b.limit .destination ∨
      b.tokensOf host c.now < (b.rate .packetHost).burst

instance (b : Buckets) : (c : Charge) → Decidable (c.SparesHost b)
  | ⟨.request _, _, _⟩ => isTrue trivial
  | ⟨.packets _ _ _, _, _⟩ => inferInstanceAs (Decidable (_ ∨ _ ∨ _))

theorem Request.keys_nodup (r : Request) : r.keys.Nodup := by
  rcases r with project | ⟨principal, dst, n⟩
  · simp [Request.keys]
  · by_cases hprincipal : principal = "" <;> simp [Request.keys, hprincipal]

namespace Buckets

variable {b b' : Buckets}

theorem lookup_keeps (hr : b.RatesPositive) (h : b.Sound) {k : BucketKey} {now : Int} {pick p : Nat}
    (hlook : b.lookup k now pick = (.ok p, b')) : b'.RatesPositive ∧ b'.Sound ∧ (k, p) ∈ b'.buckets ∧
      (∀ e ∈ b.buckets, e.1.cls.family ≠ k.cls.family → e ∈ b'.buckets) ∧
      ∀ e ∈ b.buckets, ¬b.Evicts k now pick e.1 → e ∈ b'.buckets := by
  obtain ⟨hsettles, hfound⟩ := lookup_spec hr h k now pick
  rw [hlook] at hsettles hfound
  obtain ⟨hmem, hkept⟩ := hfound p rfl
  refine ⟨hr.of_limits hsettles.limits, hsettles.sound, hmem, fun e he hne => hkept e he ?_, hkept⟩
  rintro ⟨-, f, hf, -, hvictim⟩
  obtain ⟨p', hp'⟩ := victim_mem hvictim
  exact hne ((mem_full.mp hp').2.1.trans hf.symm)

theorem find_insert_of_ne {k k' : BucketKey} (hne : k' ≠ k) (b : Buckets) : (b.insert k).find k' = b.find k' := by
  simp [find, insert, hne.symm]

/-- A lookup that evicts nothing. -/
theorem lookup_cases {k : BucketKey} {now : Int} {pick p : Nat} (hlook : b.lookup k now pick = (.ok p, b'))
    (hroom : b.find k = none → ∀ f, k.cls.family = some f → b.count f < b.limit f) :
    (b.find k ≠ none ∧ b' = b) ∨ b.find k = none ∧
      b' = match k.cls.family with | none => b.insert k | some f => (b.insert k).addCount f 1 := by
  unfold lookup at hlook
  rcases hfind : b.find k with _ | q <;> rw [hfind] at hlook
  · refine .inr ⟨rfl, ?_⟩
    rcases hfamily : k.cls.family with _ | f <;> rw [hfamily] at hlook
    · exact (Prod.mk.inj hlook).2.symm
    · dsimp only at hlook
      rw [if_neg (not_le.mpr (hroom hfind f hfamily))] at hlook
      exact (Prod.mk.inj hlook).2.symm
  · exact .inl ⟨nofun, (Prod.mk.inj hlook).2.symm⟩

abbrev hostKey (dst : Net.Addr) : BucketKey := ⟨.packetHost, (Limit.destinationKeys dst).1⟩

abbrev prefixKey (dst : Net.Addr) : BucketKey := ⟨.packetPrefix, (Limit.destinationKeys dst).2⟩

section
variable {principal : String} {dst : Net.Addr} {n now : Int} {picks : Nat → Nat} {p₀ p₁ : Nat} {b₀ b₁ : Buckets}

theorem spares_host (hr : b.RatesPositive) (h : b.Sound)
    (hspares : Charge.SparesHost b ⟨.packets principal dst n, now, picks⟩)
    (hcell : b.lookup ⟨.packetCell, ""⟩ now (picks 0) = (.ok p₀, b₀))
    (hhost : b₀.lookup (hostKey dst) now (picks 1) = (.ok p₁, b₁)) (pick : Nat) :
    ¬b₁.Evicts (prefixKey dst) now pick (hostKey dst) := by
  rintro ⟨hnone, f, hf, hfull, hvictim⟩
  obtain rfl : Family.destination = f := some.inj hf
  have hsettles₀ := (lookup_spec hr h ⟨.packetCell, ""⟩ now (picks 0)).1
  rw [hcell] at hsettles₀
  have hsettles₁ := (lookup_spec (hr.of_limits hsettles₀.limits) hsettles₀.sound (hostKey dst) now (picks 1)).1
  rw [hhost] at hsettles₁
  have hsettles := hsettles₀.trans hsettles₁
  -- the lookup of the cell's bucket leaves the table of destinations as it is
  have hsame : (∀ k : BucketKey, k.cls ≠ .packetCell → b₀.find k = b.find k) ∧
    b₀.count .destination = b.count .destination := by
    rcases lookup_cases hcell (fun _ _ hfamily => nomatch hfamily) with ⟨-, rfl⟩ | ⟨-, rfl⟩
    · exact ⟨fun _ _ => rfl, rfl⟩
    · exact ⟨fun k hk => find_insert_of_ne (fun heq => hk (congrArg BucketKey.cls heq)) b, rfl⟩
  have hhost₀ := hsame.1 (hostKey dst) nofun
  have hpre₀ := hsame.1 (prefixKey dst) nofun
  have hlimit₀ : b₀.limit .destination = b.limit .destination := congrArg Limits.destinationKeys hsettles₀.limits
  have hlimit : b₁.limit .destination = b.limit .destination := congrArg Limits.destinationKeys hsettles.limits
  rcases hspares with ⟨hin, hpre⟩ | hroom | hlevel
  · rcases lookup_cases hhost (fun hout => absurd (hhost₀.symm.trans hout) hin) with ⟨-, rfl⟩ | ⟨hout, -⟩
    · exact hpre (hpre₀.symm.trans hnone)
    · exact hin (hhost₀.symm.trans hout)
  · simp only [countP_cons, countP_nil, decide_eq_true_eq] at hroom
    have hfits : b₀.find (hostKey dst) = none → b₀.count .destination < b₀.limit .destination := by
      intro hout
      rw [if_pos (hhost₀.symm.trans hout)] at hroom
      omega
    rcases lookup_cases hhost (fun hout f hf => some.inj hf ▸ hfits hout) with ⟨-, rfl⟩ | ⟨hout, heq⟩
    · rw [if_pos (hpre₀.symm.trans hnone)] at hroom
      omega
    · subst heq
      have hpre : b₀.find (prefixKey dst) = none := by
        have hne : prefixKey dst ≠ hostKey dst := by simp
        exact (find_insert_of_ne hne b₀).symm.trans hnone
      rw [if_pos (hpre₀.symm.trans hpre), if_pos (hhost₀.symm.trans hout)] at hroom
      change _ ≤ b₀.count .destination + 1 at hfull
      omega
  · obtain ⟨p, hp⟩ := victim_mem hvictim
    obtain ⟨hmem, -, hburst⟩ := mem_full.mp hp
    rw [← tokensOf_of_mem hsettles.sound hmem] at hburst
    have hrate : b₁.rate .packetHost = b.rate .packetHost := congrArg Limits.packetHost hsettles.limits
    rw [hrate] at hburst
    exact absurd (hburst.trans (hsettles.tokens _ now (le_refl _))) (not_le.mpr hlevel)

end

variable {c : Charge}

theorem lookupAll_keeps (hr : b.RatesPositive) (h : b.Sound) (hspares : c.SparesHost b)
    {ps : List Nat} (hall : lookupAll c.now c.picks c.request.keys 0 b = (.ok ps, b')) :
    ∀ e ∈ c.request.keys.zip ps, e ∈ b'.buckets := by
  rcases c with ⟨project | ⟨principal, dst, n⟩, now, picks⟩ <;>
    obtain ⟨p₀, b₀, ps₀, hcell, hall₀, rfl⟩ := lookupAll_cons_ok hall <;>
    obtain ⟨hr₀, h₀, hmem₀, -, -⟩ := lookup_keeps hr h hcell
  · obtain ⟨p₁, b₁, ps₁, hproject, hall₁, rfl⟩ := lookupAll_cons_ok hall₀
    obtain ⟨-, -, hmem₁, hkeep₁, -⟩ := lookup_keeps hr₀ h₀ hproject
    obtain ⟨hps₁, rfl⟩ := Prod.mk.inj hall₁
    simp only [Request.keys, zip_cons_cons, zip_nil_left, forall_mem_cons]
    exact ⟨hkeep₁ _ hmem₀ (by simp [Class.family]), hmem₁, nofun⟩
  obtain ⟨p₁, b₁, ps₁, hhost, hall₁, rfl⟩ := lookupAll_cons_ok hall₀
  obtain ⟨hr₁, h₁, hmem₁, hkeep₁, -⟩ := lookup_keeps hr₀ h₀ hhost
  obtain ⟨p₂, b₂, ps₂, hpre, hall₂, rfl⟩ := lookupAll_cons_ok hall₁
  obtain ⟨hr₂, h₂, hmem₂, hkeep₂, hspare₂⟩ := lookup_keeps hr₁ h₁ hpre
  -- the host is looked up before the prefix, and is spared by its eviction
  have hhost₂ : (hostKey dst, p₁) ∈ b₂.buckets := hspare₂ _ hmem₁ (spares_host hr h hspares hcell hhost _)
  have hcell₂ := hkeep₂ _ (hkeep₁ _ hmem₀ (by simp [Class.family])) (by simp [Class.family])
  by_cases hprincipal : principal = ""
  · subst hprincipal
    obtain ⟨hps₂, rfl⟩ := Prod.mk.inj hall₂
    simp only [Request.keys, ne_eq, not_true_eq_false, if_false, append_nil, zip_cons_cons, zip_nil_left,
      forall_mem_cons]
    exact ⟨hcell₂, hhost₂, hmem₂, nofun⟩
  rw [if_pos hprincipal] at hall₂
  obtain ⟨p₃, b₃, ps₃, hlook₃, hall₃, rfl⟩ := lookupAll_cons_ok hall₂
  obtain ⟨-, -, hmem₃, hkeep₃, -⟩ := lookup_keeps hr₂ h₂ hlook₃
  obtain ⟨hps₃, rfl⟩ := Prod.mk.inj hall₃
  simp only [Request.keys, ne_eq, hprincipal, not_false_eq_true, if_true, cons_append, nil_append,
    zip_cons_cons, zip_nil_left, forall_mem_cons]
  refine ⟨hkeep₃ _ hcell₂ ?_, hkeep₃ _ hhost₂ ?_, hkeep₃ _ hmem₂ ?_, hmem₃, nofun⟩ <;> simp [Class.family]

def charged (k : BucketKey) (b : Buckets) (c : Charge) : ℚ :=
  if (c.run b).1.isOk = true ∧ k ∈ c.request.keys then c.request.tokens else 0

theorem charge_refused (hrefused : (c.run b).1.isOk = false) :
    (c.run b).2 = (lookupAll c.now c.picks c.request.keys 0 b).2 := by
  unfold Charge.run charge at hrefused ⊢
  rcases hall : lookupAll c.now c.picks c.request.keys 0 b with ⟨e | ps, b₁⟩
  · rfl
  rw [hall] at hrefused
  dsimp only at hrefused ⊢
  rcases hshort : b₁.shortage c.request.tokens c.now (c.request.keys.zip ps) (0, none) with ⟨w, _ | scope⟩
  · rw [hshort] at hrefused
    cases hrefused
  · rfl

/-- **Step.** A charge that spares its host takes its tokens, and no key gains one. -/
theorem charge_step (hr : b.RatesPositive) (h : b.Sound) (hspares : c.SparesHost b) :
    (c.run b).2.Sound ∧ (c.run b).2.limits = b.limits ∧
      ∀ k, (c.run b).2.tokensOf k c.now ≤ b.tokensOf k c.now - charged k b c := by
  have hsettles := lookupAll_settles c.now c.picks c.request.keys 0 hr h
  by_cases hok : (c.run b).1.isOk
  · unfold charged
    simp only [hok, true_and]
    unfold Charge.run charge at hok ⊢
    rcases hall : lookupAll c.now c.picks c.request.keys 0 b with ⟨e | ps, b₁⟩
    · rw [hall] at hok
      cases hok
    rw [hall] at hsettles hok
    dsimp only at hsettles hok ⊢
    rcases hshort : b₁.shortage c.request.tokens c.now (c.request.keys.zip ps) (0, none) with ⟨w, _ | scope⟩
    · have hkeys : (c.request.keys.zip ps).map (·.1) = c.request.keys := map_fst_zip (lookupAll_length _ _ hall).ge
      obtain ⟨-, henough⟩ := shortage_none (hr.of_limits hsettles.limits) ⟨le_refl 0, fun _ => rfl⟩ hshort
      obtain ⟨hsound, hlimits, htokens⟩ := debit_spec _ hsettles.sound (lookupAll_keeps hr h hspares hall)
        (by rw [hkeys]; exact c.request.keys_nodup) henough
      refine ⟨hsound, hlimits.trans hsettles.limits, fun k => (htokens k).trans ?_⟩
      rw [hkeys]
      exact sub_le_sub_right (hsettles.tokens k c.now (le_refl _)) _
    · rw [hshort] at hok
      cases hok
  · rw [charge_refused (by simpa using hok)]
    refine ⟨hsettles.sound, hsettles.limits, fun k => ?_⟩
    rw [charged, if_neg fun hboth => hok hboth.1, sub_zero]
    exact hsettles.tokens k c.now (le_refl _)

end Buckets

/-! ### Runs -/

/-- The clock readings of a run do not go back. -/
def Ordered : Int → List Charge → Prop
  | _, [] => True
  | τ, c :: charges => τ ≤ c.now ∧ Ordered c.now charges

def AllSpare : Buckets → List Charge → Prop
  | _, [] => True
  | b, c :: charges => c.SparesHost b ∧ AllSpare (c.run b).2 charges

instance decidableOrdered : ∀ (τ : Int) (charges : List Charge), Decidable (Ordered τ charges)
  | _, [] => isTrue trivial
  | τ, c :: charges =>
    have := decidableOrdered c.now charges
    inferInstanceAs (Decidable (τ ≤ c.now ∧ Ordered c.now charges))

instance decidableAllSpare : ∀ (b : Buckets) (charges : List Charge), Decidable (AllSpare b charges)
  | _, [] => isTrue trivial
  | b, c :: charges =>
    have := decidableAllSpare (c.run b).2 charges
    inferInstanceAs (Decidable (c.SparesHost b ∧ AllSpare (c.run b).2 charges))

def chargedIn (k : BucketKey) (s t : Int) : Buckets → List Charge → ℚ
  | _, [] => 0
  | b, c :: charges => (if s ≤ c.now ∧ c.now ≤ t then b.charged k c else 0) + chargedIn k s t (c.run b).2 charges

/-- Every charge of a run that is refused leaves all buckets as they are, apart from new ones that are empty. -/
def RefusalsDebitNothing : Buckets → List Charge → Prop
  | _, [] => True
  | b, c :: charges => ((c.run b).1.isOk = false → b.Grows (c.run b).2) ∧ RefusalsDebitNothing (c.run b).2 charges

theorem refusalsDebitNothing_run (b : Buckets) (charges : List Charge) : RefusalsDebitNothing b charges := by
  induction charges generalizing b with
  | nil => trivial
  | cons c charges ih =>
    refine ⟨fun hrefused => ?_, ih _⟩
    rw [charge_refused hrefused]
    exact lookupAll_grows _ _ b

def meter (l : Limits) (hl : l.Positive) (k : BucketKey) : Meter ℚ Int Buckets Charge where
  reading := seconds
  time c := c.now
  step b c := (c.run b).2
  charged b c := b.charged k c
  level b t := b.tokensOf k t
  burst := ((new l 0).rate k.cls).burst
  rate := ((new l 0).rate k.cls).perSecond
  Inv b := b.Sound ∧ b.limits = l
  Good b c := c.SparesHost b
  reading_mono := fun _ _ h => seconds_le_iff.mpr h
  rate_nonneg := (ratesPositive_of_limits (b := new l 0) hl k.cls).1.le
  level_nonneg := by
    rintro b ⟨hsound, rfl⟩ t
    exact tokensOf_nonneg (ratesPositive_of_limits hl) hsound k t
  level_le := by
    rintro b ⟨-, rfl⟩ t
    exact b.tokensOf_le_burst k t
  level_grows := by
    rintro b t t' ⟨-, rfl⟩ htt
    exact tokensOf_grows (ratesPositive_of_limits hl) k htt
  inv_step := by
    rintro b c ⟨hsound, rfl⟩ hspares
    obtain ⟨hsound', hlimits, -⟩ := charge_step (ratesPositive_of_limits hl) hsound hspares
    exact ⟨hsound', hlimits⟩
  level_step := by
    rintro b c ⟨hsound, rfl⟩ hspares
    exact (charge_step (ratesPositive_of_limits hl) hsound hspares).2.2 k

theorem sound_reset (b : Buckets) (now : Int) : (b.reset now).Sound :=
  ⟨nodup_nil, nodup_nil, fun _ he => absurd he not_mem_nil, fun _ hbk => absurd hbk not_mem_nil⟩

section Meter
variable {l : Limits} {hl : l.Positive} {k : BucketKey}

theorem meter_chargedIn (s t : Int) (b : Buckets) (charges : List Charge) :
    (meter l hl k).chargedIn s t b charges = chargedIn k s t b charges := by
  induction charges generalizing b with
  | nil => rfl
  | cons c charges ih =>
    unfold Meter.chargedIn chargedIn
    rw [ih]
    rfl

theorem meter_ordered (τ : Int) (charges : List Charge) : (meter l hl k).Ordered τ charges ↔ Ordered τ charges := by
  induction charges generalizing τ with
  | nil => exact Iff.rfl
  | cons c charges ih =>
    unfold Meter.Ordered Ordered
    rw [ih]
    exact Iff.rfl

theorem meter_allGood (b : Buckets) (charges : List Charge) :
    (meter l hl k).AllGood b charges ↔ AllSpare b charges := by
  induction charges generalizing b with
  | nil => exact Iff.rfl
  | cons c charges ih =>
    unfold Meter.AllGood AllSpare
    rw [ih]
    exact Iff.rfl

end Meter

/-- **Rate limits.** Since a reset, with readings that do not go back and charges that spare their own host, whatever is
evicted: no key is charged more in an interval than its burst and its refill. A refused charge debits nothing. -/
theorem chargedIn_le_refill {b : Buckets} {t₀ : Int} {charges : List Charge} (hvalid : b.limits.validate = [])
    (hord : Ordered t₀ charges) (hspare : AllSpare (b.reset t₀) charges) : (∀ (k : BucketKey) (s t : Int), s ≤ t →
      chargedIn k s t (b.reset t₀) charges ≤ (b.rate k.cls).burst + (b.rate k.cls).perSecond * seconds (t - s)) ∧
    RefusalsDebitNothing (b.reset t₀) charges := by
  refine ⟨fun k s t hst => ?_, refusalsDebitNothing_run _ _⟩
  have hl := Limits.positive_of_validate hvalid
  have hbound := (meter b.limits hl k).chargedIn_le ⟨sound_reset b t₀, rfl⟩ hst
    ((meter_ordered t₀ charges).mpr hord) ((meter_allGood _ charges).mpr hspare)
  rw [meter_chargedIn] at hbound
  rw [seconds_sub]
  exact hbound

/-- Hosts that may be traced once in two minutes, in a table with room for one destination. -/
def traceLimits : Limits :=
  { defaults with
    packetHost := ⟨1 / 6, 20⟩
    packetPrefix := ⟨20, 20⟩
    destinationKeys := 2 }

/-- Two traces in two minutes, and room for one more key. -/
def roomyLimits : Limits := { traceLimits with packetHost := ⟨1 / 3, 40⟩, destinationKeys := 3 }

/-- A route is traced to a host of `192.0.2.0/24`, `i` seconds after the buckets have filled. -/
def trace (host : UInt8) (i : Int) : Charge :=
  { request := .packets "" (.v4 ⟨[192, 0, 2, host], rfl⟩) traceroutePackets
    now := (200 + i) * 1000000000 }

/-- A host of another prefix. -/
def traceOther (i : Int) : Charge :=
  { request := .packets "" (.v4 ⟨[198, 51, 100, 7], rfl⟩) traceroutePackets
    now := (200 + i) * 1000000000 }

/-- A host whose bucket holds two traces is traced twice; its prefix takes the place of another one, which is full. -/
theorem chargedIn_le_refill_evicting :
    ((trace 1 (-110)).run ((traceOther (-120)).run ((new roomyLimits 0).reset 0)).2).2.find
        ⟨.packetPrefix, "198.51.100.0/24"⟩ = none ∧
      chargedIn ⟨.packetHost, "192.0.2.1/32"⟩ 0 120000000000 ((new roomyLimits 0).reset 0)
          [traceOther (-120), trace 1 (-110), trace 1 (-80)] = 40 ∧
      chargedIn ⟨.packetHost, "192.0.2.1/32"⟩ 0 120000000000 ((new roomyLimits 0).reset 0)
          [traceOther (-120), trace 1 (-110), trace 1 (-80)] ≤
        ((new roomyLimits 0).rate .packetHost).burst +
          ((new roomyLimits 0).rate .packetHost).perSecond * seconds (120000000000 - 0) := by
  have hvalid : (new roomyLimits 0).limits.validate = [] := by decide +kernel
  have hord : Ordered 0 [traceOther (-120), trace 1 (-110), trace 1 (-80)] := by decide +kernel
  have hspare : AllSpare ((new roomyLimits 0).reset 0) [traceOther (-120), trace 1 (-110), trace 1 (-80)] := by
    decide +kernel
  refine ⟨by decide +kernel, by decide +kernel, ?_⟩
  exact (chargedIn_le_refill hvalid hord hspare).1 ⟨.packetHost, "192.0.2.1/32"⟩ 0 120000000000 (by decide)

/-- With the buckets of another destination in the table, the prefix of a host evicts the host itself: it is charged
twice in a second, and its bucket would have refilled a sixth of a token. -/
theorem chargedIn_exceeds_refill :
    traceLimits.validate = [] ∧ Ordered 0 [traceOther 0, trace 1 1, trace 1 2] ∧
      ¬chargedIn ⟨.packetHost, "192.0.2.1/32"⟩ 201000000000 202000000000 ((new traceLimits 0).reset 0)
          [traceOther 0, trace 1 1, trace 1 2] ≤
        ((new traceLimits 0).rate .packetHost).burst +
          ((new traceLimits 0).rate .packetHost).perSecond * seconds (202000000000 - 201000000000) := by
  decide +kernel

end Galactic.Limit
