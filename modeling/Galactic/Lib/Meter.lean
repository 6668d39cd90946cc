import Mathlib.Algebra.Order.Field.Basic
import Mathlib.Tactic.Linarith
import Mathlib.Tactic.Ring

/-!
# Budgets that refill

A budget has a level at every instant, at most its burst, that grows by no more than its rate. If every event of a run
takes from the level what it charges, whatever is charged in an interval is covered by the level at its start and the
refill since. -/

namespace Metering

/-- A system with one budget. Instants have a reading in the unit of the rate. `Good s e` says that the event may be
trusted to take what it charges. -/
structure Meter (K T σ E : Type) [Field K] [LinearOrder K] [IsStrictOrderedRing K] [LinearOrder T] where
  reading : T → K
  time : E → T
  step : σ → E → σ
  charged : σ → E → K
  level : σ → T → K
  burst : K
  rate : K
  Inv : σ → Prop
  Good : σ → E → Prop
  reading_mono : Monotone reading
  rate_nonneg : 0 ≤ rate
  level_nonneg : ∀ {s}, Inv s → ∀ t, 0 ≤ level s t
  level_le : ∀ {s}, Inv s → ∀ t, level s t ≤ burst
  level_grows : ∀ {s t t'}, Inv s → t ≤ t' → level s t' ≤ level s t + rate * (reading t' - reading t)
  inv_step : ∀ {s e}, Inv s → Good s e → Inv (step s e)
  level_step : ∀ {s e}, Inv s → Good s e → level (step s e) (time e) ≤ level s (time e) - charged s e

namespace Meter
variable {K T σ E : Type} [Field K] [LinearOrder K] [IsStrictOrderedRing K] [LinearOrder T] (m : Meter K T σ E)

/-- What the events of a run charge in an interval. -/
def chargedIn (a b : T) : σ → List E → K
  | _, [] => 0
  | s, e :: events =>
    (if a ≤ m.time e ∧ m.time e ≤ b then m.charged s e else 0) + chargedIn a b (m.step s e) events

/-- Times that do not go back. -/
def Ordered : T → List E → Prop
  | _, [] => True
  | τ, e :: events => τ ≤ m.time e ∧ Ordered (m.time e) events

def AllGood : σ → List E → Prop
  | _, [] => True
  | s, e :: events => m.Good s e ∧ AllGood (m.step s e) events

variable {m} {a b τ : T} {s : σ} {events : List E}

theorem refill_nonneg (hab : a ≤ b) : 0 ≤ m.rate * (m.reading b - m.reading a) :=
  mul_nonneg m.rate_nonneg (sub_nonneg.mpr (m.reading_mono hab))

theorem chargedIn_of_lt (hτ : b < τ) (hord : m.Ordered τ events) : m.chargedIn a b s events = 0 := by
  induction events generalizing s τ with
  | nil => rfl
  | cons e events ih =>
    obtain ⟨hle, hord⟩ := hord
    have hlt : b < m.time e := lt_of_lt_of_le hτ hle
    rw [chargedIn, if_neg fun h => absurd h.2 (not_le.mpr hlt), zero_add]
    exact ih hlt hord

theorem chargedIn_le_level (hinv : m.Inv s) (ha : a ≤ τ) (hb : τ ≤ b) (hord : m.Ordered τ events)
    (hgood : m.AllGood s events) : m.chargedIn a b s events ≤ m.level s τ + m.rate * (m.reading b - m.reading τ) := by
  have hrefill := m.refill_nonneg hb
  have hlevel := m.level_nonneg hinv τ
  induction events generalizing s τ with
  | nil => exact add_nonneg hlevel hrefill
  | cons e events ih =>
    obtain ⟨hle, hord⟩ := hord
    obtain ⟨hge, hgood⟩ := hgood
    unfold chargedIn
    by_cases hin : m.time e ≤ b
    · have hinv' := m.inv_step hinv hge
      have hrest := ih hinv' (le_trans ha hle) hin hord hgood (m.refill_nonneg hin) (m.level_nonneg hinv' _)
      have htake := m.level_step hinv hge
      have hgrow := m.level_grows hinv hle
      rw [if_pos ⟨le_trans ha hle, hin⟩]
      calc m.charged s e + m.chargedIn a b (m.step s e) events
          ≤ m.charged s e + (m.level (m.step s e) (m.time e) + m.rate * (m.reading b - m.reading (m.time e))) := by
            linarith
        _ ≤ m.level s (m.time e) + m.rate * (m.reading b - m.reading (m.time e)) := by linarith
        _ ≤ m.level s τ + m.rate * (m.reading (m.time e) - m.reading τ) +
              m.rate * (m.reading b - m.reading (m.time e)) := by linarith
        _ = m.level s τ + m.rate * (m.reading b - m.reading τ) := by ring
    · rw [if_neg fun h => hin h.2, zero_add, chargedIn_of_lt (not_le.mp hin) hord]
      exact add_nonneg hlevel hrefill

/-- **Budget.** In every interval of a run, no more is charged than the burst and the refill. -/
theorem chargedIn_le (hinv : m.Inv s) (hab : a ≤ b) (hord : m.Ordered τ events) (hgood : m.AllGood s events) :
    m.chargedIn a b s events ≤ m.burst + m.rate * (m.reading b - m.reading a) := by
  induction events generalizing s τ with
  | nil => exact add_nonneg (le_trans (m.level_nonneg hinv a) (m.level_le hinv a)) (m.refill_nonneg hab)
  | cons e events ih =>
    obtain ⟨hle, hord⟩ := hord
    obtain ⟨hge, hgood⟩ := hgood
    have hinv' := m.inv_step hinv hge
    unfold chargedIn
    by_cases hstart : a ≤ m.time e
    · by_cases hin : m.time e ≤ b
      · -- the first event of the interval: from here on the level covers what is charged
        have hrest := chargedIn_le_level hinv' hstart hin hord hgood
        have htake := m.level_step hinv hge
        have hburst := m.level_le hinv (m.time e)
        have hrefill := mul_le_mul_of_nonneg_left (sub_le_sub_left (m.reading_mono hstart) (m.reading b)) m.rate_nonneg
        rw [if_pos ⟨hstart, hin⟩]
        linarith
      · rw [if_neg fun h => hin h.2, zero_add]
        exact ih hinv' hord hgood
    · rw [if_neg fun h => hstart h.1, zero_add]
      exact ih hinv' hord hgood

end Meter

end Metering
