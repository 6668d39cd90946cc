import Mathlib.Algebra.Group.Nat.Defs
import Mathlib.Data.List.AList
import Mathlib.Data.List.Sort

/-!
# Counter blocks

Each published snapshot owns a block of `tp_rule_counters` rows. The allocator computes in `uint32`: a sum past the top
of the range wraps before it is compared with the table's size. -/

namespace Galactic.TrafficPolicy
open List

/-- `used` maps a block's base to its length. -/
structure CounterAllocator where
  size : UInt32
  used : AList fun _ : UInt32 => UInt32

def newCounterAllocator (size : UInt32) : CounterAllocator := { size, used := ∅ }

namespace CounterAllocator

def bases (a : CounterAllocator) : List UInt32 := a.used.keys.insertionSort (· ≤ ·)

/-- The loop of `Allocate`: the first gap of `n` rows, or the end of the last block. -/
def firstFit (a : CounterAllocator) (n : UInt32) : UInt32 → List UInt32 → UInt32
  | next, [] => next
  | next, base :: bases => if base - next ≥ n then next else firstFit a n (base + (a.used.lookup base).getD 0) bases

def allocate (a : CounterAllocator) (n : UInt32) : Option (UInt32 × CounterAllocator) :=
  let n := if n = 0 then 1 else n
  let next := firstFit a n 0 a.bases
  if next + n > a.size then none else some (next, { a with used := a.used.insert next n })

def reserve (a : CounterAllocator) (base n : UInt32) : Option CounterAllocator :=
  let n := max n 1
  if base + n > a.size then none
  else if a.used.entries.any fun ⟨b, l⟩ => base < b + l && b < base + n then none
  else some { a with used := a.used.insert base n }

def free (a : CounterAllocator) (base : UInt32) : CounterAllocator := { a with used := a.used.erase base }

inductive Op
  | allocate (n : UInt32)
  | reserve (base n : UInt32)
  | free (base : UInt32)

/-- A call that fails leaves the blocks as they were. -/
def step (a : CounterAllocator) : Op → CounterAllocator
  | .allocate n => (a.allocate n).elim a Prod.snd
  | .reserve base n => (a.reserve base n).getD a
  | .free base => a.free base

def run (size : UInt32) (ops : List Op) : CounterAllocator := ops.foldl step (newCounterAllocator size)

/-- The sum of the call stays below the top of the range. -/
def Op.Fits (size : UInt32) : Op → Prop
  | .allocate n => size.toNat + max n.toNat 1 < 2 ^ 32
  | .reserve base n => base.toNat + max n.toNat 1 < 2 ^ 32
  | .free _ => True

variable {a : CounterAllocator} {n next b : UInt32}

/-- The rows `[x, x + n)` meet no block. -/
def Clear (a : CounterAllocator) (x n : Nat) : Prop :=
  ∀ b l, a.used.lookup b = some l → b.toNat + l.toNat ≤ x ∨ x + n ≤ b.toNat

structure Held (a : CounterAllocator) : Prop where
  nonempty : ∀ b l, a.used.lookup b = some l → 0 < l.toNat
  inside : ∀ b l, a.used.lookup b = some l → b.toNat + l.toNat ≤ a.size.toNat
  disjoint : ∀ b l b' l', a.used.lookup b = some l → a.used.lookup b' = some l' → b < b' → b.toNat + l.toNat ≤ b'.toNat

theorem mem_bases : b ∈ a.bases ↔ ∃ l, a.used.lookup b = some l := by
  rw [bases, mem_insertionSort, ← AList.mem_keys, ← AList.lookup_isSome, Option.isSome_iff_exists]

theorem bases_sorted : a.bases.Pairwise (· < ·) := by
  have hle : a.bases.Pairwise (· ≤ ·) := pairwise_insertionSort _ _
  have hnodup : a.bases.Nodup := (perm_insertionSort _ _).nodup_iff.mpr a.used.keys_nodup
  exact (hle.and hnodup).imp fun h => UInt32.lt_of_le_of_ne h.1 h.2

/-- The rows found lie past every block passed and before every block to come, and no earlier gap was large enough. -/
theorem firstFit_spec (hheld : a.Held) (bases : List UInt32) (hsorted : bases.Pairwise (· < ·))
    (hsize : next.toNat ≤ a.size.toNat) (hmem : ∀ b ∈ bases, next.toNat ≤ b.toNat ∧ ∃ l, a.used.lookup b = some l)
    (hpast : ∀ b l, a.used.lookup b = some l → b ∉ bases → b.toNat + l.toNat ≤ next.toNat) :
    (firstFit a n next bases).toNat ≤ a.size.toNat ∧ a.Clear (firstFit a n next bases).toNat n.toNat ∧
      ∀ x, a.Clear x n.toNat → next.toNat ≤ x → (firstFit a n next bases).toNat ≤ x := by
  induction bases generalizing next with
  | nil => exact ⟨hsize, fun b l hb => .inl (hpast b l hb not_mem_nil), fun x _ hx => hx⟩
  | cons base bases ih =>
    obtain ⟨hnext, l, hl⟩ := hmem base mem_cons_self
    obtain ⟨hlt, hsorted⟩ := pairwise_cons.mp hsorted
    have hgap : (base - next).toNat = base.toNat - next.toNat := UInt32.toNat_sub_of_le _ _ hnext
    have hin := hheld.inside base l hl
    have hend : (base + l).toNat = base.toNat + l.toNat :=
      (UInt32.toNat_add _ _).trans (Nat.mod_eq_of_lt (Nat.lt_of_le_of_lt hin a.size.toNat_lt))
    rw [firstFit, hl, Option.getD_some]
    split
    case isTrue hfits =>
      have hfits : n.toNat ≤ base.toNat - next.toNat := hgap ▸ hfits
      refine ⟨hsize, fun b l hb => ?_, fun x _ hx => hx⟩
      by_cases hmb : b ∈ base :: bases
      · have hle : base ≤ b := (mem_cons.mp hmb).elim (· ▸ UInt32.le_refl _) fun h => UInt32.le_of_lt (hlt b h)
        have := UInt32.le_iff_toNat_le.mp hle
        omega
      · exact .inl (hpast b l hb hmb)
    case isFalse hsmall =>
      have hsmall : ¬n.toNat ≤ base.toNat - next.toNat := hgap ▸ hsmall
      obtain ⟨h₁, h₂, h₃⟩ := @ih (base + l) hsorted (by omega)
        (fun b hb => by
          obtain ⟨-, l', hl'⟩ := hmem b (mem_cons_of_mem _ hb)
          exact ⟨hend ▸ hheld.disjoint base l b l' hl hl' (hlt b hb), l', hl'⟩)
        (fun b l' hb hmb => by
          by_cases hbase : b = base
          · rw [hbase, hl] at hb
            cases hb
            rw [hend, hbase]
          · have := hpast b l' hb (by simp [hbase, hmb])
            omega)
      -- a run from `next` on does not fit before the block at `base`
      refine ⟨h₁, h₂, fun x hx hle => h₃ x hx ?_⟩
      have := hx base l hl
      omega

theorem fit_spec (hheld : a.Held) (n : UInt32) : (firstFit a n 0 a.bases).toNat ≤ a.size.toNat ∧
    a.Clear (firstFit a n 0 a.bases).toNat n.toNat ∧ ∀ x, a.Clear x n.toNat → (firstFit a n 0 a.bases).toNat ≤ x := by
  obtain ⟨h₁, h₂, h₃⟩ := @firstFit_spec a n 0 hheld a.bases bases_sorted (Nat.zero_le _)
    (fun b hb => ⟨Nat.zero_le _, mem_bases.mp hb⟩) fun b l hb hmb => (hmb (mem_bases.mpr ⟨l, hb⟩)).elim
  exact ⟨h₁, h₂, fun x hx => h₃ x hx (Nat.zero_le _)⟩

theorem toNat_max (n : UInt32) : (max n 1).toNat = max n.toNat 1 := (apply_ite UInt32.toNat (n ≤ 1) 1 n).trans rfl

/-- `Allocate` and `Reserve` count the rows alike. -/
theorem rows_eq (n : UInt32) : (if n = 0 then 1 else n) = max n 1 := by
  change _ = if n ≤ 1 then 1 else n
  grind

theorem Held.insert (hheld : a.Held) (hclear : a.Clear b.toNat (max n 1).toNat)
    (hfit : b.toNat + (max n 1).toNat < 2 ^ 32) (h : ¬b + max n 1 > a.size) :
    Held { a with used := a.used.insert b (max n 1) } := by
  have hin := UInt32.le_iff_toNat_le.mp (UInt32.not_lt.mp h)
  rw [UInt32.toNat_add, Nat.mod_eq_of_lt hfit] at hin
  have hpos := toNat_max n
  obtain ⟨h₁, h₂, h₃⟩ := hheld
  unfold Clear at hclear
  constructor <;> grind [AList.lookup_insert_ne, AList.lookup_insert, UInt32.lt_iff_toNat_lt]

theorem Held.step (hheld : a.Held) (op : Op) (hfit : op.Fits a.size) :
    (a.step op).Held ∧ (a.step op).size = a.size := by
  cases op with
  | allocate n =>
    rw [Op.Fits, ← toNat_max] at hfit
    obtain ⟨hle, hclear, -⟩ := fit_spec hheld (max n 1)
    rw [CounterAllocator.step, allocate, rows_eq]
    split
    · exact ⟨hheld, rfl⟩
    case isFalse h => exact ⟨hheld.insert hclear (by omega) h, rfl⟩
  | reserve base n =>
    rw [Op.Fits, ← toNat_max] at hfit
    rw [CounterAllocator.step, reserve]
    dsimp only
    split
    · exact ⟨hheld, rfl⟩
    split
    · exact ⟨hheld, rfl⟩
    case isFalse h hover =>
      refine ⟨hheld.insert (fun b l hb => ?_) hfit h, rfl⟩
      by_contra hmeet
      refine hover (any_eq_true.mpr ⟨⟨b, l⟩, AList.mem_lookup_iff.mp hb, ?_⟩)
      have := Nat.lt_of_le_of_lt (hheld.inside b l hb) a.size.toNat_lt
      simp only [UInt32.lt_iff_toNat_lt, UInt32.toNat_add, Bool.and_eq_true, decide_eq_true_eq]
      rw [Nat.mod_eq_of_lt hfit, Nat.mod_eq_of_lt this]
      omega
  | free base =>
    obtain ⟨h₁, h₂, h₃⟩ := hheld
    refine ⟨?_, rfl⟩
    constructor <;> grind [CounterAllocator.step, free, AList.lookup_erase_ne, AList.lookup_erase]

theorem Held.run (ops : List Op) (hheld : a.Held) (hfit : ∀ op ∈ ops, op.Fits a.size) :
    (ops.foldl CounterAllocator.step a).Held ∧ (ops.foldl CounterAllocator.step a).size = a.size := by
  induction ops generalizing a with
  | nil => exact ⟨hheld, rfl⟩
  | cons op ops ih =>
    obtain ⟨hheld, hsize⟩ := hheld.step op (hfit op mem_cons_self)
    exact hsize ▸ ih hheld fun op' hop => hsize ▸ hfit op' (mem_cons_of_mem _ hop)

/-- With every sum in range the blocks are non-empty, apart and inside the table, and `Allocate` fails only for want of
a free run (of one row, when no row is asked for). -/
theorem counter_blocks_apart (size : UInt32) (ops : List Op) (hfit : ∀ op ∈ ops, op.Fits size) :
    (run size ops).Held ∧ (run size ops).size = size ∧ ∀ n, (run size ops).allocate n = none →
      ∀ x, x + max n.toNat 1 ≤ size.toNat → ¬(run size ops).Clear x (max n.toNat 1) := by
  obtain ⟨hheld, hsize⟩ : (run size ops).Held ∧ (run size ops).size = size :=
    Held.run (a := newCounterAllocator size) ops (by constructor <;> simp [newCounterAllocator]) hfit
  refine ⟨hheld, hsize, fun n hnone x hin hclear => ?_⟩
  rw [← toNat_max] at hin hclear
  obtain ⟨hle, -, hfirst⟩ := fit_spec hheld (max n 1)
  have hx := hfirst x hclear
  -- the sum is at most the size, so it does not wrap
  have := size.toNat_lt
  rw [hsize] at hle
  rw [allocate, rows_eq, hsize] at hnone
  simp only [gt_iff_lt, UInt32.lt_iff_toNat_lt, UInt32.toNat_add] at hnone
  rw [Nat.mod_eq_of_lt (by omega), if_neg (by omega)] at hnone
  cases hnone

theorem counter_blocks_apart_three : (run 8 [.allocate 3, .reserve 5 2, .free 0]).Held :=
  (counter_blocks_apart 8 [.allocate 3, .reserve 5 2, .free 0] (by simp [Op.Fits])).1

/-- Both sums wrap: a block is reserved outside a table of ten rows, and two blocks hold row 7. -/
theorem counter_blocks_wrap : (run 10 [.reserve 4294967295 1]).used.entries = [⟨4294967295, 1⟩] ∧
    (run 10 [.reserve 0 5, .allocate 4294967295, .reserve 7 2]).used.entries = [⟨7, 2⟩, ⟨5, 4294967295⟩, ⟨0, 5⟩] := by
  decide

end CounterAllocator

end Galactic.TrafficPolicy
