import Mathlib.Data.List.Sort

/-!
# Table ID reservations

The pure part of `reservation.go` of `internal/plumbing/vrf`: how a table is chosen for a VRF name, recorded for one
that exists, and released. Tables are 32-bit numbers in the source, and only compared. -/

namespace Galactic.Vrf
open List

structure Reservation where
  name : String
  table : Nat
  deriving DecidableEq

structure Range where
  minID : Nat
  maxID : Nat
  deriving DecidableEq

def Range.Has (rg : Range) (table : Nat) : Prop := rg.minID ≤ table ∧ table ≤ rg.maxID

instance (rg : Range) (table : Nat) : Decidable (rg.Has table) :=
  inferInstanceAs (Decidable (rg.minID ≤ table ∧ table ≤ rg.maxID))

def rtTableDefault : Nat := 253
def rtTableMain : Nat := 254
def rtTableLocal : Nat := 255

def Kernel (table : Nat) : Prop := table = rtTableDefault ∨ table = rtTableMain ∨ table = rtTableLocal

instance (table : Nat) : Decidable (Kernel table) :=
  inferInstanceAs (Decidable (table = rtTableDefault ∨ table = rtTableMain ∨ table = rtTableLocal))

def nextFreeTableID (used : List Nat) (rg : Range) : Option Nat :=
  (List.range' rg.minID (rg.maxID + 1 - rg.minID)).find? fun id => ¬Kernel id ∧ id ∉ used

/-- The loop of `reserveTable`, with the reservations kept so far and the tables in use. `live` is the name of the VRF
that holds a table. -/
def reserveTableLoop (all : List Reservation) (live : Nat → Option String) (name : String) (rg : Range) :
    List Reservation → List Reservation → List Nat → Option (Nat × List Reservation)
  | [], kept, used => (nextFreeTableID used rg).map fun table => (table, kept ++ [⟨name, table⟩])
  | r :: res, kept, used =>
    if r.name = name ∧ rg.Has r.table then
      if live r.table = none ∨ live r.table = some name then some (r.table, all)
      else reserveTableLoop all live name rg res kept used
    else reserveTableLoop all live name rg res (kept ++ [r]) (r.table :: used)

/-- `reserveTable`, `none` if no table is free. -/
def reserveTable (res : List Reservation) (liveTables : List Nat) (live : Nat → Option String) (name : String)
    (rg : Range) : Option (Nat × List Reservation) :=
  reserveTableLoop res live name rg res [] liveTables

/-- The loop of `recordTable`. -/
def recordTableLoop (name : String) (table : Nat) (rg : Range) :
    List Reservation → List Reservation → Bool → Bool → List Reservation × Bool × Bool
  | [], kept, found, changed => (kept, found, changed)
  | r :: res, kept, found, changed =>
    if r.name = name ∧ r.table = table then recordTableLoop name table rg res (kept ++ [r]) true changed
    else if r.name = name ∧ rg.Has r.table ∨ r.name ≠ name ∧ r.table = table then
      recordTableLoop name table rg res kept found true
    else recordTableLoop name table rg res (kept ++ [r]) found changed

def recordTable (res : List Reservation) (name : String) (table : Nat) (rg : Range) : List Reservation × Bool :=
  match recordTableLoop name table rg res [] false false with
  | (kept, true, changed) => (kept, changed)
  | (kept, false, _) => (kept ++ [⟨name, table⟩], true)

def releaseTable (res : List Reservation) (name : String) (table : Nat) : List Reservation × Bool :=
  let kept := res.filter fun r => ¬(r.name = name ∧ r.table = table)
  (kept, kept.length ≠ res.length)

/-- The reservations that `releaseNameLocked` keeps. -/
def releaseName (res : List Reservation) (name : String) (rg : Range) : List Reservation :=
  res.filter fun r => ¬(r.name = name ∧ rg.Has r.table)

/-- The order in which `saveReservations` writes. -/
def Reservation.before (a b : Reservation) : Bool :=
  if a.table ≠ b.table then a.table < b.table else a.name ≤ b.name

/-! ### What the choice of a table can do -/

section
variable {used : List Nat} {rg : Range} {table : Nat} {name : String} {res kept : List Reservation}

theorem nextFreeTableID_spec (h : nextFreeTableID used rg = some table) :
    rg.Has table ∧ ¬Kernel table ∧ table ∉ used := by
  unfold nextFreeTableID at h
  have hmem := mem_range'_1.mp (mem_of_find?_eq_some h)
  have hfree := find?_some h
  simp only [decide_eq_true_eq] at hfree
  refine ⟨⟨hmem.1, ?_⟩, hfree⟩
  omega

theorem reserveTableLoop_cases {all : List Reservation} {live : Nat → Option String} {out : List Reservation}
    (h : reserveTableLoop all live name rg res kept used = some (table, out)) :
    (⟨name, table⟩ ∈ res ∧ rg.Has table ∧ out = all) ∨
    (∃ more, out = kept ++ more ++ [⟨name, table⟩] ∧ rg.Has table ∧ ¬Kernel table ∧ table ∉ used ∧ more.Sublist res ∧
      (∀ r ∈ more, r.table ≠ table ∧ ¬(r.name = name ∧ rg.Has r.table)) ∧
      ∀ r ∈ res, r ∈ more ∨ r.name = name ∧ live r.table ≠ none ∧ live r.table ≠ some name) := by
  induction res generalizing kept used with
  | nil =>
    obtain ⟨t, ht, heq⟩ := Option.map_eq_some_iff.mp h
    cases heq
    obtain ⟨hhas, hkernel, hused⟩ := nextFreeTableID_spec ht
    exact .inr ⟨[], by simp, hhas, hkernel, hused, List.Sublist.refl _, by simp, by simp⟩
  | cons r res ih =>
    unfold reserveTableLoop at h
    split_ifs at h with hown hlive
    · cases h
      refine .inl ⟨?_, hown.2, rfl⟩
      rw [← hown.1]
      exact mem_cons_self
    · rcases ih h with ⟨hmem, hhas, hout⟩ | ⟨more, hout, hhas, hkernel, hused, hsub, hmore, hres⟩
      · exact .inl ⟨mem_cons_of_mem _ hmem, hhas, hout⟩
      exact .inr ⟨more, hout, hhas, hkernel, hused, hsub.cons _, hmore,
        forall_mem_cons.mpr ⟨.inr ⟨hown.1, not_or.mp hlive⟩, hres⟩⟩
    · rcases ih h with ⟨hmem, hhas, hout⟩ | ⟨more, hout, hhas, hkernel, hused, hsub, hmore, hres⟩
      · exact .inl ⟨mem_cons_of_mem _ hmem, hhas, hout⟩
      rw [mem_cons, not_or] at hused
      refine .inr ⟨r :: more, by simp [hout], hhas, hkernel, hused.2, hsub.cons_cons _,
        forall_mem_cons.mpr ⟨⟨Ne.symm hused.1, hown⟩, hmore⟩,
          forall_mem_cons.mpr ⟨.inl mem_cons_self, fun r' hr' => ?_⟩⟩
      exact (hres r' hr').imp_left (mem_cons_of_mem _)

theorem recordTableLoop_eq {found changed : Bool} (hown : ∀ r ∈ res, r.name = name → rg.Has r.table → r.table = table)
    (hother : ∀ r ∈ res, r.table = table → r.name = name) : recordTableLoop name table rg res kept found changed =
      (kept ++ res, found || decide (⟨name, table⟩ ∈ res), changed) := by
  induction res generalizing kept found with
  | nil => simp [recordTableLoop]
  | cons r res ih =>
    have ih' := fun kept found => @ih kept found
      (fun r' hr' => hown r' (mem_cons_of_mem _ hr')) (fun r' hr' => hother r' (mem_cons_of_mem _ hr'))
    unfold recordTableLoop
    by_cases hsame : r.name = name ∧ r.table = table
    · rw [if_pos hsame, ih']
      have hr : (⟨name, table⟩ : Reservation) = r := by
        rcases r with ⟨n, t⟩
        simp only at hsame
        rw [hsame.1, hsame.2]
      simp [hr]
    have hkeep : ¬(r.name = name ∧ rg.Has r.table ∨ r.name ≠ name ∧ r.table = table) := by
      rintro (⟨hn, hhas⟩ | ⟨hn, ht⟩)
      · exact hsame ⟨hn, hown r mem_cons_self hn hhas⟩
      · exact hn (hother r mem_cons_self ht)
    rw [if_neg hsame, if_neg hkeep, ih']
    have hne : (⟨name, table⟩ : Reservation) ≠ r :=
      fun heq => hsame ⟨congrArg Reservation.name heq.symm, congrArg Reservation.table heq.symm⟩
    simp [hne]

end

end Galactic.Vrf
