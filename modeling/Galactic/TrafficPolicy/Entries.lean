import Galactic.TrafficPolicy.Compile

/-!
# What an entry accepts

An entry is a conjunction, built field by field. `Entry.Accepts` states the conjunction, and each `with` function adds
one conjunct to it. -/

namespace Galactic.TrafficPolicy
open Net

/-! ### Flags -/

theorem and_bit_or (f g : UInt16) (k : EntryFlag) : (f ||| g) &&& k.bit ≠ 0 ↔ f &&& k.bit ≠ 0 ∨ g &&& k.bit ≠ 0 := by
  have hdist : (f ||| g) &&& k.bit = (f &&& k.bit) ||| (g &&& k.bit) := by
    rw [← UInt16.toBitVec_inj]
    ext i
    simp only [UInt16.toBitVec_and, UInt16.toBitVec_or, BitVec.getElem_and, BitVec.getElem_or,
      Bool.and_or_distrib_right]
  rw [hdist, Ne, UInt16.or_eq_zero_iff]
  tauto

theorem bit_and_bit (j k : EntryFlag) : j.bit &&& k.bit ≠ 0 ↔ j = k := by
  cases j <;> cases k <;> decide

theorem has_of_flags {e e' : Entry} {j : EntryFlag} (h : e'.flags = e.flags ||| j.bit) (k : EntryFlag) :
    e'.has k = (e.has k || decide (j = k)) := by
  rw [Bool.eq_iff_iff]
  simp only [Entry.has, h, Bool.or_eq_true, decide_eq_true_eq, and_bit_or, bit_and_bit]

theorem ite_false_eq_true {c : Prop} [Decidable c] {b : Bool} : (if c then false else b) ↔ ¬c ∧ b := by
  split_ifs with h <;> simp [h]

namespace Entry
variable (e : Entry) (k : EntryFlag)

@[simp] theorem has_withPath (v) : (e.withPath v).has k = (e.has k || decide (.path = k)) := has_of_flags rfl k
@[simp] theorem has_withFamily (v) : (e.withFamily v).has k = (e.has k || decide (.family = k)) := has_of_flags rfl k
@[simp] theorem has_withProto (v) : (e.withProto v).has k = (e.has k || decide (.proto = k)) := has_of_flags rfl k
@[simp] theorem has_withICMPType (v) : (e.withICMPType v).has k = (e.has k || decide (.icmpType = k)) :=
  has_of_flags rfl k
@[simp] theorem has_withICMPCode (v) : (e.withICMPCode v).has k = (e.has k || decide (.icmpCode = k)) :=
  has_of_flags rfl k
@[simp] theorem has_withSource (v) : (e.withSource v).has k = (e.has k || decide (.source = k)) := has_of_flags rfl k
@[simp] theorem has_withDestination (v) : (e.withDestination v).has k = (e.has k || decide (.destination = k)) :=
  has_of_flags rfl k
@[simp] theorem has_withSourcePorts (v) : (e.withSourcePorts v).has k = (e.has k || decide (.sourcePorts = k)) :=
  has_of_flags rfl k
@[simp] theorem has_withDestPorts (v) : (e.withDestPorts v).has k = (e.has k || decide (.destPorts = k)) :=
  has_of_flags rfl k

/-! ### Accepting -/

/-- The field of a flag is the packet's. The allow bit and the path are not matched here. -/
def Agrees (e : Entry) (pkt : Packet) : EntryFlag → Prop
  | .allow => True
  | .path => True
  | .family => e.family = pkt.family
  | .proto => e.proto = pkt.proto
  | .source => e.source.contains pkt.src = true
  | .destination => e.destination.contains pkt.dst = true
  | .sourcePorts => e.sourcePorts.contains pkt.srcPort = true
  | .destPorts => e.destPorts.contains pkt.dstPort = true
  | .icmpType => e.icmpType = pkt.icmpType
  | .icmpCode => e.icmpCode = pkt.icmpCode

/-- Every field that the entry has a flag for, but the path, is the packet's. -/
def Accepts (e : Entry) (pkt : Packet) : Prop := ∀ k, e.has k = true → e.Agrees pkt k

theorem matchesExceptPath_iff (pkt : Packet) : entryMatchesExceptPath e pkt = true ↔ e.Accepts pkt := by
  simp only [entryMatchesExceptPath, ite_false_eq_true, and_true, not_and, not_not, ne_eq]
  constructor
  · intro h k hk
    cases k <;> simp_all [Agrees]
  · exact fun h => ⟨h .family, h .proto, h .source, h .destination, h .sourcePorts, h .destPorts,
      h .icmpType, h .icmpCode⟩

instance (pkt : Packet) : Decidable (e.Accepts pkt) := decidable_of_iff _ (e.matchesExceptPath_iff pkt)

variable {e} {pkt : Packet}

theorem accepts_of_flags {e' : Entry} {j : EntryFlag} (hflags : e'.flags = e.flags ||| j.bit)
    (hother : ∀ k, k ≠ j → (e'.Agrees pkt k ↔ e.Agrees pkt k))
    (hsame : e.has j = true → (e'.Agrees pkt j → e.Agrees pkt j)) :
    e'.Accepts pkt ↔ e.Accepts pkt ∧ e'.Agrees pkt j := by
  constructor
  · intro h
    have hj : e'.Agrees pkt j := h j (by simp [has_of_flags hflags])
    refine ⟨fun k hk => ?_, hj⟩
    by_cases hkj : k = j
    · subst hkj
      exact hsame hk hj
    · exact (hother k hkj).mp (h k (by simp [has_of_flags hflags, hk]))
  · rintro ⟨h, hj⟩ k hk
    by_cases hkj : k = j
    · exact hkj ▸ hj
    · refine (hother k hkj).mpr (h k ?_)
      simpa [has_of_flags hflags, Ne.symm hkj] using hk

theorem accepts_withPath (v : Path) : (e.withPath v).Accepts pkt ↔ e.Accepts pkt :=
  (accepts_of_flags (j := .path) rfl (fun k _ => by cases k <;> rfl) (fun _ _ => trivial)).trans (and_iff_left trivial)

theorem accepts_withFamily {v : Family} (h : e.has .family = true → e.family = v) :
    (e.withFamily v).Accepts pkt ↔ e.Accepts pkt ∧ v = pkt.family :=
  accepts_of_flags (j := .family) rfl (fun k hk => by cases k <;> trivial) (fun hf hv => (h hf).trans hv)

theorem accepts_withProto {v : Proto} (h : e.has .proto = false) :
    (e.withProto v).Accepts pkt ↔ e.Accepts pkt ∧ v = pkt.proto :=
  accepts_of_flags (j := .proto) rfl (fun k hk => by cases k <;> trivial) (by simp [h])

theorem accepts_withSource {v : Prefix} (h : e.has .source = false) :
    (e.withSource v).Accepts pkt ↔ e.Accepts pkt ∧ v.contains pkt.src = true :=
  accepts_of_flags (j := .source) rfl (fun k hk => by cases k <;> trivial) (by simp [h])

theorem accepts_withDestination {v : Prefix} (h : e.has .destination = false) :
    (e.withDestination v).Accepts pkt ↔ e.Accepts pkt ∧ v.contains pkt.dst = true :=
  accepts_of_flags (j := .destination) rfl (fun k hk => by cases k <;> trivial) (by simp [h])

theorem accepts_withSourcePorts {v : PortRange} (h : e.has .sourcePorts = false) :
    (e.withSourcePorts v).Accepts pkt ↔ e.Accepts pkt ∧ v.contains pkt.srcPort = true :=
  accepts_of_flags (j := .sourcePorts) rfl (fun k hk => by cases k <;> trivial) (by simp [h])

theorem accepts_withDestPorts {v : PortRange} (h : e.has .destPorts = false) :
    (e.withDestPorts v).Accepts pkt ↔ e.Accepts pkt ∧ v.contains pkt.dstPort = true :=
  accepts_of_flags (j := .destPorts) rfl (fun k hk => by cases k <;> trivial) (by simp [h])

theorem accepts_withICMPType {v : UInt8} (h : e.has .icmpType = false) :
    (e.withICMPType v).Accepts pkt ↔ e.Accepts pkt ∧ v = pkt.icmpType :=
  accepts_of_flags (j := .icmpType) rfl (fun k hk => by cases k <;> trivial) (by simp [h])

theorem accepts_withICMPCode {v : UInt8} (h : e.has .icmpCode = false) :
    (e.withICMPCode v).Accepts pkt ↔ e.Accepts pkt ∧ v = pkt.icmpCode :=
  accepts_of_flags (j := .icmpCode) rfl (fun k hk => by cases k <;> trivial) (by simp [h])

/-! ### The outcome of an accepted packet -/

def outcome (e : Entry) (pkt : Packet) : Option Verdict :=
  if e.has .path ∧ pkt.path = .unknown then some .classificationError
  else if e.has .path ∧ e.path ≠ pkt.path then none
  else some ⟨e.has .allow, e.rule.toNat, .rule⟩

theorem verdict_eq (e : Entry) (pkt : Packet) : e.verdict pkt = if e.Accepts pkt then e.outcome pkt else none := by
  by_cases hacc : e.Accepts pkt
  · rw [if_pos hacc, verdict, (e.matchesExceptPath_iff pkt).mpr hacc]
    rfl
  · rw [if_neg hacc, verdict, if_pos fun h => hacc ((e.matchesExceptPath_iff pkt).mp h)]

/-- Entries that agree on the path, the allow bit and the rule return alike. -/
structure SameOutcome (e e' : Entry) : Prop where
  allow : e'.has .allow = e.has .allow
  hasPath : e'.has .path = e.has .path
  path : e'.path = e.path
  rule : e'.rule = e.rule

theorem SameOutcome.outcome_eq {e e' : Entry} (h : SameOutcome e e') (pkt : Packet) :
    e'.outcome pkt = e.outcome pkt := by
  simp only [outcome, h.allow, h.hasPath, h.path, h.rule]

theorem SameOutcome.trans {e e' e'' : Entry} (h : SameOutcome e e') (h' : SameOutcome e' e'') : SameOutcome e e'' :=
  ⟨h'.allow.trans h.allow, h'.hasPath.trans h.hasPath, h'.path.trans h.path, h'.rule.trans h.rule⟩

theorem SameOutcome.refl (e : Entry) : SameOutcome e e := ⟨rfl, rfl, rfl, rfl⟩

end Entry

end Galactic.TrafficPolicy
