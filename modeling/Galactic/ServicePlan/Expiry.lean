import Galactic.ServicePlan.Agreement
import Galactic.ServicePlan.Programming

/-!
# How long a plan stays as it is

The planner asks of an entry about a producer only whether it is current, so that a plan stays what it is until the
first current entry expires. -/

namespace Galactic.ServicePlan
open List

/-- The greatest `time.Duration`, where `Sub` stops. -/
def maxDuration : Int := 2 ^ 63 - 1

def nextProducerReportExpiry (endpoint : ServiceEndpoint) (now : Time) : Option Int :=
  endpoint.producers.foldl (fun next e =>
    match e.renewTime with
    | none => next
    | some renewed =>
      if !producerReportCurrent e now then next
      else
        let left := min (renewed + producerReportLifetime - now) maxDuration
        if next.all (left < ·) then some left else next) none

section
variable {endpoint : ServiceEndpoint} {now t : Time}

theorem nextProducerReportExpiry_le {e : ProducerStatus} (he : e ∈ endpoint.producers) {renewed : Time}
    (hrenewed : e.renewTime = some renewed) (hcurrent : producerReportCurrent e now) :
    ∃ d, nextProducerReportExpiry endpoint now = some d ∧ d ≤ renewed + producerReportLifetime - now := by
  unfold nextProducerReportExpiry
  generalize endpoint.producers = es at he
  induction es using reverseRecOn with
  | nil => cases he
  | append_singleton es e' ih =>
    rw [foldl_append, foldl_cons, foldl_nil]
    rcases mem_append.mp he with he | he
    · obtain ⟨d, hd, hle⟩ := ih he
      rw [hd]
      cases e'.renewTime with
      | none => exact ⟨d, rfl, hle⟩
      | some renewed' =>
        dsimp only
        split_ifs with _ hless
        · exact ⟨d, rfl, hle⟩
        · exact ⟨_, rfl, (of_decide_eq_true hless).le.trans hle⟩
        · exact ⟨d, rfl, hle⟩
    · obtain rfl := mem_singleton.mp he
      simp only [hrenewed, hcurrent, Bool.not_true, Bool.false_eq_true, if_false]
      generalize es.foldl _ none = next
      split_ifs with hless
      · exact ⟨_, rfl, min_le_left _ _⟩
      · cases next with
        | none => exact absurd rfl hless
        | some d => exact ⟨d, rfl, (not_lt.mp fun h => hless (decide_eq_true h)).trans (min_le_left _ _)⟩

theorem current_until_expiry (hnow : now ≤ t)
    (hnext : ∀ d, nextProducerReportExpiry endpoint now = some d → t < now + d) {e : ProducerStatus}
    (he : e ∈ endpoint.producers) : producerReportCurrent e t = producerReportCurrent e now := by
  cases hrenewed : e.renewTime with
  | none => simp [producerReportCurrent, hrenewed]
  | some renewed =>
    by_cases hcurrent : producerReportCurrent e now
    · obtain ⟨d, hd, hle⟩ := nextProducerReportExpiry_le he hrenewed hcurrent
      have := hnext d hd
      rw [hcurrent]
      simp only [producerReportCurrent, hrenewed, decide_eq_true_eq]
      linarith
    · rw [Bool.not_eq_true] at hcurrent
      rw [hcurrent]
      simp only [producerReportCurrent, hrenewed, decide_eq_false_iff_not] at hcurrent ⊢
      linarith

theorem health_until_expiry (h : ∀ e ∈ endpoint.producers, producerReportCurrent e t = producerReportCurrent e now)
    (producers : List VPCAttachment) : producersHealth endpoint producers t = producersHealth endpoint producers now ∧
      producersHealthSince endpoint producers t = producersHealthSince endpoint producers now := by
  have hentry : ∀ p, entryHealth (reportedEntry endpoint p) p t = entryHealth (reportedEntry endpoint p) p now := by
    intro p
    cases hfound : reportedEntry endpoint p with
    | none => rfl
    | some e => simp only [entryHealth, h e (mem_reverse.mp (mem_of_find?_eq_some hfound))]
  constructor
  · simp only [producersHealth, hentry]
  unfold producersHealthSince
  congr 1
  refine congrArg (fun f => producers.foldl f _) (funext₂ fun since p => ?_)
  refine foldl_ext _ _ _ fun since e he => ?_
  rw [h e he]

/-- Until the expiry that is announced, the plan and the intents of every node stay as they are. -/
theorem plan_until_expiry (ext : External) (policy : Option ServiceRoutePolicy)
    (attachments : List (Option VPCAttachment)) (identity : String) (hnow : now ≤ t)
    (hnext : ∀ d, nextProducerReportExpiry endpoint now = some d → t < now + d) :
    programmingPlanAt ext policy (some endpoint) attachments identity t =
      programmingPlanAt ext policy (some endpoint) attachments identity now ∧
    ∀ node resolveSID options, compileWithOptions ext policy (some endpoint) attachments node resolveSID options t =
      compileWithOptions ext policy (some endpoint) attachments node resolveSID options now := by
  have hhealth := health_until_expiry fun e (he : e ∈ endpoint.producers) => current_until_expiry hnow hnext he
  cases policy with
  | none => exact ⟨rfl, fun _ _ _ => rfl⟩
  | some policy =>
    have hinput : planInput ext policy endpoint attachments identity t =
      planInput ext policy endpoint attachments identity now := by
      simp only [planInput, (hhealth _).1]
    have hprepare : prepare ext policy endpoint attachments t = prepare ext policy endpoint attachments now := by
      simp only [prepare, (hhealth _).1, (hhealth _).2]
    refine ⟨?_, fun node resolveSID options => ?_⟩
    · simp only [programmingPlanAt, hinput]
    · simp only [compileWithOptions, compile, hprepare]

end

/-- The endpoint with one entry, renewed at the instant zero. -/
def reportedEndpoint : ServiceEndpoint :=
  { dnsEndpoint with producers := [⟨"default", "a", "u-a", "n2", .unhealthy, 0, some 0⟩] }

theorem plan_until_expiry_dns :
    programmingPlanAt plainExternal (some dnsPolicy) (some reportedEndpoint) twoNodes.items "" 59999999999 =
      programmingPlanAt plainExternal (some dnsPolicy) (some reportedEndpoint) twoNodes.items "" 0 := by
  have hnext : nextProducerReportExpiry reportedEndpoint 0 = some 60000000000 := by decide
  refine (plan_until_expiry plainExternal (some dnsPolicy) twoNodes.items "" (by decide) fun d hd => ?_).1
  cases hnext.symm.trans hd
  decide

end Galactic.ServicePlan
