import Galactic.Net.Parse

/-!
# The activation journal, `internal/fabricconfig/activation/journal.go`

An append-only list of records, oldest first: each marks a stage one activation of one revision on this node has
reached. Times are nanoseconds. -/

namespace Galactic.Activator

open Net List

inductive RecordType
  | accepted
  | applied
  | applyFailed
  | committed
  | recovered
  | source
  | rebind
deriving DecidableEq, Repr

/-- `Activation`: one promotion of one revision on one node. -/
structure Activation where
  clusterID : String
  nodeUID : String
  deploymentUID : String
  epoch : Int
  revision : String
  dependencyHash : String
deriving DecidableEq, Repr

def Cidr : Type := { s : String // (parsePrefix s.toList).isSome }

instance : DecidableEq Cidr := inferInstanceAs (DecidableEq { s : String // (parsePrefix s.toList).isSome })

/-- `Recovery`: what an activation may fall back to; the target's name is empty when there is none. -/
structure Recovery where
  targetRevision : String
  targetDigest : String
  revokedPrefixes : List Cidr
  revokedCredentials : List String
  retired : Bool
deriving DecidableEq

structure Record where
  seq : Int
  type : RecordType
  time : Int
  activation : Activation
  previousGood : String
  recovery : Option Recovery
  source : String
  handoff : String
  detail : String
deriving DecidableEq

abbrev Journal : Type := List Record

def Record.of (type : RecordType) (act : Activation) : Record := ⟨0, type, 0, act, "", none, "", "", ""⟩

def Record.explained (rec : Record) (detail : String) : Record := { rec with detail := detail }

def Record.acceptance (act : Activation) (previousGood : String) (recovery : Recovery) : Record :=
  { Record.of .accepted act with previousGood := previousGood, recovery := some recovery }

def Record.ofEpoch (rec : Record) (deploymentUID : String) (epoch : Int) : Prop :=
  rec.activation.deploymentUID = deploymentUID ∧ rec.activation.epoch = epoch ∧ rec.type ≠ .source ∧ rec.type ≠ .rebind

instance (rec : Record) (deploymentUID : String) (epoch : Int) : Decidable (rec.ofEpoch deploymentUID epoch) :=
  inferInstanceAs (Decidable (_ ∧ _))

def Record.accepts (rec : Record) (deploymentUID : String) : Prop :=
  rec.type = .accepted ∧ rec.activation.deploymentUID = deploymentUID

instance (rec : Record) (deploymentUID : String) : Decidable (rec.accepts deploymentUID) :=
  inferInstanceAs (Decidable (_ ∧ _))

namespace Journal

variable (j : Journal)

def nextSeq : Int := (j.getLast?.map Record.seq).getD 0 + 1

/-- The record `Append` writes: numbered after the last one, and timed. -/
def stamp (time : Int) (rec : Record) : Record := { rec with seq := j.nextSeq, time := time }

def highWater (deploymentUID : String) : Option Int :=
  j.foldl (fun high rec =>
    if rec.accepts deploymentUID ∧ high.all (· < rec.activation.epoch) then some rec.activation.epoch else high) none

def lastForEpoch (deploymentUID : String) (epoch : Int) : Option Record :=
  j.reverse.find? fun rec => rec.ofEpoch deploymentUID epoch

def failed (deploymentUID : String) (epoch : Int) : Bool :=
  j.any fun rec => rec.activation.deploymentUID = deploymentUID ∧ rec.activation.epoch = epoch ∧
    (rec.type = .applyFailed ∨ rec.type = .recovered)

def accepted (deploymentUID : String) (epoch : Int) : Option Record :=
  j.find? fun rec => rec.accepts deploymentUID ∧ rec.activation.epoch = epoch

def needsRecovery (deploymentUID : String) (epoch : Int) : Bool :=
  (j.lastForEpoch deploymentUID epoch).any fun rec => rec.type = .applyFailed

def latestRecovery : Option Recovery :=
  j.reverse.findSome? fun rec => if rec.type = .accepted then rec.recovery else none

/-- `BoundDeployment`, empty when the journal is bound to none. -/
def boundDeployment : String :=
  ((j.reverse.find? fun rec => rec.type = .accepted ∨ rec.type = .rebind).map (·.activation.deploymentUID)).getD ""

/-- `Source`, empty when none was recorded. -/
def source : String := ((j.reverse.find? fun rec => rec.type = .source).map Record.source).getD ""

/-- `LatestTime`; the zero time when there is no record. -/
def latestTime : Option Int := (j.map Record.time).max?

end Journal

/-! ### What a record appended changes -/

variable {j : Journal} {rec : Record} {deploymentUID : String} {epoch : Int}

@[simp] theorem Journal.stamp_type (time : Int) : (j.stamp time rec).type = rec.type := rfl

@[simp] theorem Journal.stamp_activation (time : Int) : (j.stamp time rec).activation = rec.activation := rfl

theorem lastForEpoch_append_self (h : rec.ofEpoch deploymentUID epoch) :
    Journal.lastForEpoch (j ++ [rec]) deploymentUID epoch = some rec := by
  unfold Journal.lastForEpoch
  rw [reverse_append, reverse_singleton, singleton_append, find?_cons_of_pos (by simpa using h)]

theorem lastForEpoch_some (h : j.lastForEpoch deploymentUID epoch = some rec) :
    rec ∈ j ∧ rec.ofEpoch deploymentUID epoch := by
  refine ⟨mem_reverse.mp (mem_of_find?_eq_some h), ?_⟩
  have := find?_some h
  simpa using this

theorem lastForEpoch_split (h : j.lastForEpoch deploymentUID epoch = some rec) :
    ∃ before after, j = before ++ rec :: after ∧ ∀ r ∈ after, ¬ r.ofEpoch deploymentUID epoch := by
  obtain ⟨-, after, before, hsplit, hafter⟩ := find?_eq_some_iff_append.mp h
  refine ⟨before.reverse, after.reverse, ?_, fun r hr => ?_⟩
  · rw [← reverse_reverse j, hsplit]
    simp
  · simpa using hafter r (mem_reverse.mp hr)

/-! ### The high water mark -/

theorem highWater_append (j : Journal) (rec : Record) :
    Journal.highWater (j ++ [rec]) deploymentUID =
      if rec.accepts deploymentUID ∧ (j.highWater deploymentUID).all (· < rec.activation.epoch) then
        some rec.activation.epoch
      else j.highWater deploymentUID := by
  unfold Journal.highWater
  rw [foldl_append]
  rfl

theorem highWater_spec (j : Journal) (deploymentUID : String) :
    match j.highWater deploymentUID with
    | none => ∀ rec ∈ j, ¬ rec.accepts deploymentUID
    | some high => (∀ rec ∈ j, rec.accepts deploymentUID → rec.activation.epoch ≤ high) ∧
        ∃ rec ∈ j, rec.accepts deploymentUID ∧ rec.activation.epoch = high := by
  induction j using List.reverseRecOn with
  | nil => exact fun rec hrec => nomatch hrec
  | append_singleton j rec ih =>
    rw [highWater_append]
    split_ifs with hnew
    · obtain ⟨hacc, hlt⟩ := hnew
      refine ⟨fun r hr hracc => ?_, rec, mem_concat_self, hacc, rfl⟩
      rcases mem_append.mp hr with hr | hr
      · cases hhigh : Journal.highWater j deploymentUID with
        | none =>
          rw [hhigh] at ih
          exact absurd hracc (ih r hr)
        | some high =>
          rw [hhigh] at ih hlt
          exact Int.le_of_lt (Int.lt_of_le_of_lt (ih.1 r hr hracc) (by simpa using hlt))
      · rw [mem_singleton.mp hr]
    cases hhigh : Journal.highWater j deploymentUID with
    | none =>
      rw [hhigh] at ih hnew
      exact forall_mem_append.mpr ⟨ih, forall_mem_singleton.mpr fun hacc => hnew ⟨hacc, rfl⟩⟩
    | some high =>
      rw [hhigh] at ih hnew
      obtain ⟨r, hr, hrest⟩ := ih.2
      refine ⟨forall_mem_append.mpr ⟨ih.1, forall_mem_singleton.mpr fun hracc => ?_⟩, r, mem_append_left _ hr, hrest⟩
      exact Int.not_lt.mp fun hlt => hnew ⟨hracc, by simpa using hlt⟩

theorem lt_of_highWater (h : (j.highWater deploymentUID).all (· < epoch)) :
    ∀ rec ∈ j, rec.accepts deploymentUID → rec.activation.epoch < epoch := by
  intro rec hrec hacc
  have hspec := highWater_spec j deploymentUID
  cases hhigh : Journal.highWater j deploymentUID with
  | none =>
    rw [hhigh] at hspec
    exact absurd hacc (hspec rec hrec)
  | some high =>
    rw [hhigh] at hspec h
    have hlt : high < epoch := by simpa using h
    exact Int.lt_of_le_of_lt (hspec.1 rec hrec hacc) hlt

theorem boundDeployment_append_of (h : rec.type = .accepted ∨ rec.type = .rebind) :
    Journal.boundDeployment (j ++ [rec]) = rec.activation.deploymentUID := by
  unfold Journal.boundDeployment
  rw [reverse_append, reverse_singleton, singleton_append, find?_cons_of_pos (by simpa using h)]
  rfl

theorem boundDeployment_append_of_not (h : ¬ (rec.type = .accepted ∨ rec.type = .rebind)) :
    Journal.boundDeployment (j ++ [rec]) = j.boundDeployment := by
  unfold Journal.boundDeployment
  rw [reverse_append, reverse_singleton, singleton_append, find?_cons_of_neg (by simpa using h)]

end Galactic.Activator
