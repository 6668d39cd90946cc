import Galactic.Activator.Stages
import Galactic.Rollout.Release

/-!
# Revocations

The controller and the node's agent each ask, in code of their own, whether a revision originates a revoked prefix. -/

namespace Galactic.Rollout

open Net List

/-- One revision, as the controller and as the node's agent read it. -/
def OneRevision (rev : Revision) (node : Activator.Revision) : Prop :=
  rev.advertisements = node.advertisements.map fun a => ⟨a.prefixes.map Subtype.val, a.aggregation.map Subtype.val⟩

theorem OneRevision.originated {rev : Revision} {node : Activator.Revision} (h : OneRevision rev node) :
    originated rev = Activator.originations node := by
  unfold Rollout.originated Activator.originations
  rw [h, flatMap_map]
  congr 1
  funext a
  cases a.aggregation <;> rfl

theorem coveredBy_eq (covers : List Prefix) (o : String) :
    coveredBy covers o = ((parsePrefix o.toList).isNone || covers.any (Activator.covers · o)) := by
  unfold coveredBy Activator.covers
  cases parsePrefix o.toList <;> simp

/-- **Revocation.** If every revoked prefix parses, the controller reports a revoked origination iff the node does. -/
theorem revocation_agrees (revoked : List String) (rev : Revision) (node : Activator.Revision)
    (hone : OneRevision rev node) (hparse : ∀ r ∈ revoked, (parsePrefix r.toList).isSome) :
    revokedOrigination revoked rev ≠ none ↔
    Activator.revokedOrigination revoked (Activator.originations node) ≠ "" := by
  have hfind : revoked.find? (fun p => (parsePrefix p.toList).isNone) = none :=
    find?_eq_none.mpr fun r hr => by simp [Option.isSome_iff_ne_none.mp (hparse r hr)]
  unfold revokedOrigination Activator.revokedOrigination
  rw [hfind, ← hone.originated]
  simp only [← coveredBy_eq]
  split_ifs
  · simp
  · cases (originated rev).find? (coveredBy _) <;> simp [Option.filter]

theorem revocation_agrees_inside :
    let rev : Revision := ⟨"ns", "a-1", "a", "", [], [⟨["10.1.0.0/16"], none⟩], []⟩
    let node : Activator.Revision := ⟨"a-1", "", [⟨[⟨"10.1.0.0/16", by decide⟩], none⟩], [], ""⟩
    (revokedOrigination ["10.0.0.0/8"] rev ≠ none ↔
      Activator.revokedOrigination ["10.0.0.0/8"] (Activator.originations node) ≠ "") ∧
      revokedOrigination ["10.0.0.0/8"] rev ≠ none :=
  ⟨revocation_agrees _ _ _ rfl (by decide +kernel), by decide +kernel⟩

/-- A revoked text that is no prefix: the controller leaves it out, the node refuses every revision for it. -/
theorem revocation_disagrees :
    let rev : Revision := ⟨"ns", "a-1", "a", "", [], [], []⟩
    let node : Activator.Revision := ⟨"a-1", "", [], [], ""⟩
    OneRevision rev node ∧ revokedOrigination ["edge"] rev = none ∧
      Activator.revokedOrigination ["edge"] (Activator.originations node) ≠ "" :=
  ⟨rfl, by decide +kernel, by decide +kernel⟩

end Galactic.Rollout
