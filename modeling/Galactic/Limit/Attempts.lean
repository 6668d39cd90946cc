import Galactic.Lib.Entries
import Galactic.Limit.Buckets

/-!
# Attempt keys

`Attempts` of `internal/fabric/gateway/limit`: the keys of admitted requests, each until its request's expiration and a
grace. A key that has expired stays until a registration finds the cache full. -/

namespace Galactic.Limit

open List AList

def attemptGrace : Int := 2000000000
def attemptOverhead : Nat := 64

/-- `attempt`; `ends` is its `until`. -/
structure Attempt where
  digest : String
  ends : Int
  size : Nat
  deriving DecidableEq

inductive AttemptError
  | duplicateRequest
  | duplicateConflict
  | limiterUnavailable (scope : Scope) (retry : Int)
  deriving DecidableEq

structure Attempts where
  max : Int
  maxBytes : Int
  bytes : Int := 0
  m : AList (fun _ : String => Attempt) := ∅

/-- The arguments of `Register`. -/
structure Call where
  key : String
  digest : String
  expires : Int
  now : Int

namespace Attempts

def new (l : Limits) : Attempts := { max := l.attempts, maxBytes := l.attemptBytes }

def sizes (es : List (Σ _ : String, Attempt)) : Nat := (es.map (·.2.size)).sum

def live (a : Attempts) (now : Int) : List (Σ _ : String, Attempt) := a.m.entries.filter (now < ·.2.ends)

/-- `purge`: what is not live is deleted, and its size subtracted. -/
def purge (a : Attempts) (now : Int) : Attempts :=
  { a with
    m := ⟨a.live now, a.m.nodupKeys.sublist filter_sublist⟩
    bytes := a.bytes - sizes (a.m.entries.filter (·.2.ends ≤ now)) }

def full (a : Attempts) (size : Nat) : Bool := a.max ≤ a.m.entries.length ∨ a.maxBytes < a.bytes + size

/-- The attempt that a registration would record. -/
def attempt (c : Call) : Attempt :=
  ⟨c.digest, c.expires + attemptGrace, c.key.utf8ByteSize + c.digest.utf8ByteSize + attemptOverhead⟩

def record (a : Attempts) (key : String) (v : Attempt) : Attempts :=
  { a with bytes := a.bytes - ((a.m.lookup key).map (·.size)).getD 0 + v.size, m := a.m.insert key v }

def room (a : Attempts) (c : Call) : Attempts := if a.full (attempt c).size then a.purge c.now else a

/-- The entry of the key, if it is live. -/
def previous (a : Attempts) (c : Call) : Option Attempt := (a.m.lookup c.key).filter (c.now < ·.ends)

def register (a : Attempts) (c : Call) : Option AttemptError × Attempts :=
  match a.previous c with
  | some prev => (some (if prev.digest = c.digest then .duplicateRequest else .duplicateConflict), a)
  | none =>
    if (a.room c).full (attempt c).size then (some (.limiterUnavailable .cell 1000000000), a.room c)
    else (none, (a.room c).record c.key (attempt c))

def run (l : Limits) (cs : List Call) : Attempts := cs.foldl (fun a c => (a.register c).2) (new l)

/-! ### Purging -/

/-- The counter is the sum of the sizes, and the bounds hold. A bound below zero admits nothing. -/
structure Accounted (l : Limits) (a : Attempts) : Prop where
  limits : a.max = l.attempts ∧ a.maxBytes = l.attemptBytes
  bytes : a.bytes = sizes a.m.entries
  within : a.bytes ≤ l.attemptBytes ⊔ 0 ∧ (a.m.entries.length : Int) ≤ l.attempts ⊔ 0

variable {l : Limits} {a : Attempts} {k : String} {v : Attempt} {c : Call}

theorem erase_entries (a : Attempts) (k : String) :
    sizes a.m.entries = ((a.m.lookup k).map (·.size)).getD 0 + sizes (a.m.erase k).entries ∧
      a.m.entries.length = (a.m.lookup k).toList.length + (a.m.erase k).entries.length := by
  have hperm := Entries.perm_erase a.m k
  have hsum : sizes a.m.entries = _ := (hperm.map _).sum_eq
  rw [hsum, hperm.length_eq]
  cases a.m.lookup k <;> simp [sizes, add_comm]

theorem Accounted.room (h : Accounted l a) (c : Call) : Accounted l (a.room c) := by
  unfold Attempts.room
  split_ifs
  · have hsizes : sizes a.m.entries = sizes (a.live c.now) + sizes (a.m.entries.filter (·.2.ends ≤ c.now)) := by
      unfold sizes live
      induction a.m.entries with
      | nil => rfl
      | cons e es ih => by_cases he : c.now < e.2.ends <;> simp [he, ih, not_le.mpr, not_lt.mp] <;> omega
    have hlen : (a.live c.now).length ≤ a.m.entries.length := length_filter_le ..
    obtain ⟨hlimits, hbytes, hwithin⟩ := h
    exact ⟨hlimits, by dsimp only [purge]; omega, by dsimp only [purge]; omega⟩
  · exact h

theorem lookup_room (hk : a.m.lookup k = some v) (hlive : c.now < v.ends) : (a.room c).m.lookup k = some v := by
  unfold room
  split_ifs
  · exact AList.mem_lookup_iff.mpr (mem_filter.mpr ⟨AList.mem_lookup_iff.mp hk, decide_eq_true hlive⟩)
  · exact hk

/-! ### Registering -/

/-- What a call can do: a live key is refused, the cache has no room, or the key is recorded. -/
inductive Registers (a : Attempts) (c : Call) : Option AttemptError × Attempts → Prop
  | live (e : AttemptError) (h : ∀ scope retry, e ≠ .limiterUnavailable scope retry) : Registers a c (some e, a)
  | full (e : AttemptError) (h : (a.room c).full (attempt c).size) : Registers a c (some e, a.room c)
  | recorded (hroom : ¬(a.room c).full (attempt c).size) (hnot : a.previous c = none) :
    Registers a c (none, (a.room c).record c.key (attempt c))

theorem register_spec (a : Attempts) (c : Call) : Registers a c (a.register c) := by
  unfold register
  split
  · exact .live _ fun _ _ => by split_ifs <;> nofun
  · next hnot =>
    split_ifs with hfull
    · exact .full _ hfull
    · exact .recorded hfull hnot

theorem previous_eq (hk : a.m.lookup c.key = some v) (hlive : c.now < v.ends) : a.previous c = some v := by
  simp [previous, hk, hlive]

section
variable {r : Option AttemptError × Attempts} (h : Registers a c r)
include h

theorem Registers.keeps (hk : a.m.lookup k = some v) (hlive : c.now < v.ends) : r.2.m.lookup k = some v := by
  cases h with
  | live => exact hk
  | full => exact lookup_room hk hlive
  | recorded hroom hnot =>
    refine (lookup_insert_ne ?_).trans (lookup_room hk hlive)
    rintro rfl
    cases hnot.symm.trans (previous_eq hk hlive)

theorem Registers.of_none (hr : r.1 = none) :
    r.2.m.lookup c.key = some (attempt c) ∧ a.previous c = none := by
  cases h with
  | live | full => cases hr
  | recorded hroom hnot => exact ⟨lookup_insert _, hnot⟩

theorem Registers.accounted (ha : Accounted l a) : Accounted l r.2 := by
  obtain hacc := ha.room c
  cases h with
  | live => exact ha
  | full => exact hacc
  | recorded hroom hnot =>
    obtain ⟨hlimits, hbytes, -⟩ := hacc
    have hsplit := erase_entries (a.room c) c.key
    have hsizes : sizes ((a.room c).m.insert c.key (attempt c)).entries =
        (attempt c).size + sizes ((a.room c).m.erase c.key).entries := rfl
    have hlen : ((a.room c).m.insert c.key (attempt c)).entries.length =
        ((a.room c).m.erase c.key).entries.length + 1 := rfl
    simp only [Attempts.full, decide_eq_true_eq] at hroom
    exact ⟨hlimits, by dsimp only [record]; omega, by dsimp only [record]; omega⟩

theorem Registers.of_full (ha : Accounted l a) {scope : Scope} {retry : Int}
    (hr : r.1 = some (.limiterUnavailable scope retry)) :
    l.attempts ≤ (a.live c.now).length ∨ l.attemptBytes < sizes (a.live c.now) + (attempt c).size := by
  obtain ⟨hlimits, hbytes, -⟩ := ha.room c
  cases h with
  | live e hne => exact absurd (Option.some.inj hr) (hne scope retry)
  | full e hfull =>
    -- the cache was full before, so it has been purged
    have hpurged : a.room c = a.purge c.now :=
      if_pos (by by_contra hnot; rw [room, if_neg hnot] at hfull; exact hnot hfull)
    simp only [Attempts.full, hlimits.1, hlimits.2, hbytes, decide_eq_true_eq] at hfull
    rwa [hpurged] at hfull
  | recorded => cases hr

end

/-! ### Runs -/

theorem run_append (l : Limits) (cs : List Call) (c : Call) : run l (cs ++ [c]) = ((run l cs).register c).2 :=
  foldl_append ..

theorem run_accounted (l : Limits) (cs : List Call) : Accounted l (run l cs) := by
  induction cs using List.reverseRecOn with
  | nil => exact ⟨⟨rfl, rfl⟩, rfl, le_max_right _ _, le_max_right _ _⟩
  | append_singleton cs c ih =>
    rw [run_append]
    exact (register_spec _ c).accounted ih

theorem run_keeps (cs mid : List Call) (hk : (run l cs).m.lookup k = some v) (hmid : ∀ d ∈ mid, d.now < v.ends) :
    (run l (cs ++ mid)).m.lookup k = some v := by
  induction mid using List.reverseRecOn with
  | nil => rwa [append_nil]
  | append_singleton mid d ih =>
    rw [← append_assoc, run_append]
    exact (register_spec _ d).keeps (ih fun e he => hmid e (mem_append_left _ he)) (hmid d (by simp))

/-- **Attempts.** In every sequence of calls with non-decreasing time, a key that was admitted is refused until its
expiration and the grace; the counter is the sum of the sizes, within its bound as the number of entries is; and a call
is refused for capacity only if the live entries leave no room for it. -/
theorem register_runs (l : Limits) (cs : List Call) (hcs : cs.Pairwise fun c d => c.now ≤ d.now) :
    (∀ pre c mid d post, cs = pre ++ c :: (mid ++ d :: post) → ((run l pre).register c).1 = none → d.key = c.key →
      d.now < c.expires + attemptGrace → ((run l (pre ++ c :: mid)).register d).1 ≠ none) ∧
    ((run l cs).bytes = sizes (run l cs).m.entries ∧ (run l cs).bytes ≤ l.attemptBytes ⊔ 0 ∧
      ((run l cs).m.entries.length : Int) ≤ l.attempts ⊔ 0) ∧
    ∀ c scope retry, ((run l cs).register c).1 = some (.limiterUnavailable scope retry) →
      l.attempts ≤ ((run l cs).live c.now).length ∨
        l.attemptBytes < sizes ((run l cs).live c.now) + (attempt c).size := by
  have hacc := run_accounted l cs
  refine ⟨?_, ⟨hacc.bytes, hacc.within⟩, fun c _ _ hc => (register_spec _ c).of_full hacc hc⟩
  rintro pre c mid d post rfl hadmitted hkey hsoon
  have hfirst : (run l (pre ++ [c])).m.lookup c.key = some (attempt c) := by
    rw [run_append]
    exact ((register_spec _ c).of_none hadmitted).1
  have hmid : ∀ e ∈ mid, e.now ≤ d.now := fun e he =>
    (pairwise_append.mp (pairwise_cons.mp (pairwise_append.mp hcs).2.1).2).2.2 e he d mem_cons_self
  have hkept := run_keeps (pre ++ [c]) mid hfirst fun e he => (hmid e he).trans_lt hsoon
  rw [append_assoc, singleton_append, ← hkey] at hkept
  exact fun hnone => nomatch ((register_spec _ d).of_none hnone).2.symm.trans (previous_eq hkept hsoon)

theorem register_runs_twice :
    ((run defaults []).register ⟨"a", "x", 5000000000, 0⟩).1 = none ∧
      ((run defaults [⟨"a", "x", 5000000000, 0⟩]).register ⟨"a", "x", 9000000000, 6000000000⟩).1 ≠ none := by
  refine ⟨by decide +kernel, ?_⟩
  exact (register_runs defaults [⟨"a", "x", 5000000000, 0⟩, ⟨"a", "x", 9000000000, 6000000000⟩]
    (by decide)).1 [] _ [] _ []
    rfl (by decide +kernel) rfl (by decide)

end Attempts
end Galactic.Limit
