import Mathlib.Algebra.Order.Field.Basic
import Mathlib.Tactic.Linarith
import Mathlib.Tactic.FieldSimp

/-!
# Clocks with a bounded rate error

A clock shows a reading at every real instant, and its rate is within `δ` of real time. A wait that one clock measures
is long enough for a duration on another one if it is stretched by `(1 + δ) / (1 - δ)`. -/

namespace Drift
variable {K : Type} [Field K] [LinearOrder K] [IsStrictOrderedRing K]

/-- The rate of a clock stays within `δ` of real time. -/
def Drifts (δ : K) (clock : K → K) : Prop :=
  ∀ s t, s ≤ t → (1 - δ) * (t - s) ≤ clock t - clock s ∧ clock t - clock s ≤ (1 + δ) * (t - s)

variable {δ : K} {c c' : K → K}

theorem Drifts.mono (h : Drifts δ c) (hδ : δ ≤ 1) {s t : K} (hst : s ≤ t) : c s ≤ c t := by
  have hlow := (h s t hst).1
  have hpos : 0 ≤ (1 - δ) * (t - s) := mul_nonneg (sub_nonneg.mpr hδ) (sub_nonneg.mpr hst)
  linarith

/-- **Stretching.** What began before `seen` and lasts `d` on the clock `c` is over when the clock `c'` has shown the
stretched wait since `seen`. -/
theorem Drifts.over_of_waited (h : Drifts δ c) (h' : Drifts δ c') (hδ : 0 ≤ δ) (hδ' : δ < 1)
    {d margin began seen now : K} (hmargin : 0 ≤ margin) (hbegan : began ≤ seen) (hseen : seen ≤ now)
    (hwait : d * (1 + δ) / (1 - δ) + margin ≤ c' now - c' seen) : c began + d ≤ c now := by
  have hslow : 0 < 1 - δ := sub_pos.mpr hδ'
  have hfast : 0 < 1 + δ := by linarith
  -- in real time the wait is at least the duration of the slowest clock
  have hreal : d / (1 - δ) ≤ now - seen := by
    have hmeasured : d * (1 + δ) / (1 - δ) ≤ (1 + δ) * (now - seen) := by
      linarith [(h' seen now hseen).2]
    have hfactor : d * (1 + δ) / (1 - δ) = (1 + δ) * (d / (1 - δ)) := by
      rw [mul_comm d, mul_div_assoc]
    rw [hfactor] at hmeasured
    exact le_of_mul_le_mul_left hmeasured hfast
  have hshown : d ≤ (1 - δ) * (now - seen) := by
    have := mul_le_mul_of_nonneg_left hreal hslow.le
    rwa [mul_div_cancel₀ _ hslow.ne'] at this
  have hlonger : (1 - δ) * (now - seen) ≤ (1 - δ) * (now - began) := mul_le_mul_of_nonneg_left (by linarith) hslow.le
  linarith [(h began now (hbegan.trans hseen)).1]

end Drift
