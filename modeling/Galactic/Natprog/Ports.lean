import Galactic.Natprog.Isolation

/-!
# A port stays with its flow

A flow finds its session by its forward row, and without that row by probing its ports from the first one on. So a flow
whose forward row was evicted can settle on a port that has become free meanwhile and leave a live session behind. Where
this does not happen its packets keep the port, and the flow has one live reverse row. -/

namespace Galactic.Natprog
open Function Natprog.Flow Shard

variable {cfg : ShardConfig} {t : Table} {f : Flow} {port : UInt16} {now : UInt32} {v : ConnValue}

/-- Every probe before probe `i` meets a live session of another flow. -/
def Passed (cfg : ShardConfig) (t : Table) (now : UInt32) (f : Flow) (i : Nat) : Prop :=
  ∀ j < i, (t (f.revKey cfg (candidate f.hashBase j))).any fun w => !sessionExpired w now && !ownsSession w f.fwdKey

theorem claim_own (cv : ConnValue) {i n k : Nat} (hk : k ≤ i) (hi : i < k + n) (hpassed : Passed cfg t now f i)
    (hlive : LiveRow cfg t now f (candidate f.hashBase i) v) :
    claimMasqueradePort f.fwdKey (f.revKey cfg 0) cv f.hashBase now n k t =
      (update t (f.revKey cfg (candidate f.hashBase i)) (some { v with lastSeen := now }), candidate f.hashBase i) := by
  induction n generalizing k with
  | zero => omega
  | succ n ih =>
    rcases Nat.eq_or_lt_of_le hk with rfl | hlt
    · simp [claimMasqueradePort, probe, hlive.1, hlive.2.2, owns_of_forwardKey hlive.2.1]
    · obtain ⟨w, hrow, hw⟩ := (Option.any_eq_true ..).mp (hpassed k hlt)
      simp only [Bool.and_eq_true, Bool.not_eq_true'] at hw
      simp only [claimMasqueradePort, revKey_with, probe, hrow, hw]
      exact ih hlt (by omega)

/-- A flow with a live session keeps its port, as long as its forward row names it or, when that row is gone, every
probe before the port meets a live session of another flow. -/
theorem outbound_stays {s : Shard} (tcpFlags : UInt8) (hlive : LiveRow cfg s.table (nowSec s.clock) f port v)
    (hnamed : ∀ x, s.table f.fwdKey = some x → x.shardPort = port)
    (hevicted : s.table f.fwdKey = none →
      ∃ i < patProbeLimit, port = candidate f.hashBase i ∧ Passed cfg s.table (nowSec s.clock) f i) :
    (s.outbound cfg f tcpFlags).2 = port := by
  unfold Shard.outbound Natprog.outbound sessionPort liveSession
  cases hx : s.table f.fwdKey with
  | some x =>
    obtain rfl := hnamed x hx
    simp only [revKey_with, hlive.1, owns_of_forwardKey hlive.2.1, hlive.2.2, and_self, if_true]
  | none =>
    obtain ⟨i, hi, rfl, hpassed⟩ := hevicted hx
    have hclaim := claim_own (n := patProbeLimit) (newSession f.fwdKey (nowSec s.clock) tcpFlags) (Nat.zero_le i)
      (by omega) hpassed hlive
    simp only [hclaim, if_pos (candidate_ne_zero f.hashBase i)]

/-- A packet is not forged and, when its flow lost the forward row of a live session, finds that session before any
other port it could take. -/
def Event.Steady (cfg : ShardConfig) (s : Shard) : Event → Prop
  | .outbound f _ => ¬ f.Forged cfg ∧ (s.table f.fwdKey = none →
      ∀ port v, LiveRow cfg s.table (nowSec s.clock) f port v →
        ∃ i < patProbeLimit, port = candidate f.hashBase i ∧ Passed cfg s.table (nowSec s.clock) f i)
  | _ => True

def Shard.Steady (cfg : ShardConfig) (s : Shard) : List Event → Prop
  | [] => True
  | e :: events => e.Steady cfg s ∧ Shard.Steady cfg (s.step cfg e) events

/-- No row is from the future, and a flow has one live reverse row, which its forward row names. -/
structure Settled (cfg : ShardConfig) (s : Shard) : Prop where
  rows : Rows cfg s.table s.holder
  seen : ∀ k v, s.table k = some v → v.lastSeen ≤ nowSec s.clock
  one : ∀ f p q v w, LiveRow cfg s.table (nowSec s.clock) f p v → LiveRow cfg s.table (nowSec s.clock) f q w → p = q
  named : ∀ f p v x, LiveRow cfg s.table (nowSec s.clock) f p v → s.table f.fwdKey = some x → x.shardPort = p

theorem LiveRow.genuine {holder : ConnKey → Option Flow} (hrows : Rows cfg t holder) (h : LiveRow cfg t now f port v) :
    ¬ f.Forged cfg := by
  obtain ⟨g, hg, hname, -⟩ := hrows.at_rev h.1
  rwa [fwdKey_injective (h.2.1.symm.trans hname)]

namespace Settled
variable {s s' : Shard}

theorem of_fewer (h : Settled cfg s) (hrows : Rows cfg s'.table s'.holder)
    (hseen : ∀ k v, s'.table k = some v → v.lastSeen ≤ nowSec s'.clock)
    (hlive : ∀ f p v, LiveRow cfg s'.table (nowSec s'.clock) f p v → ∃ w, LiveRow cfg s.table (nowSec s.clock) f p w)
    (hfwd : ∀ k x, s'.table k = some x → ∃ y, s.table k = some y ∧ y.shardPort = x.shardPort) : Settled cfg s' where
  rows := hrows
  seen := hseen
  one f p q v w hv hw := by
    obtain ⟨v', hv'⟩ := hlive f p v hv
    obtain ⟨w', hw'⟩ := hlive f q w hw
    exact h.one f p q v' w' hv' hw'
  named f p v x hv hx := by
    obtain ⟨v', hv'⟩ := hlive f p v hv
    obtain ⟨y, hy, hport⟩ := hfwd _ x hx
    exact hport.symm.trans (h.named f p v' y hv' hy)

theorem keeps_port (h : Settled cfg s) {tcpFlags : UInt8} (he : (Event.outbound f tcpFlags).Steady cfg s)
    (hlive : LiveRow cfg s.table (nowSec s.clock) f port v) : (s.outbound cfg f tcpFlags).2 = port :=
  outbound_stays tcpFlags hlive (h.named f port v · hlive) fun hnone => he.2 hnone port v hlive

theorem outbound (h : Settled cfg s) {tcpFlags : UInt8} (he : (Event.outbound f tcpFlags).Steady cfg s) :
    Settled cfg (s.outbound cfg f tcpFlags).1 := by
  have hkeeps (port v) (hlive : LiveRow cfg s.table (nowSec s.clock) f port v) := h.keeps_port he hlive
  have hrows := Shard.rows_step h.rows (e := .outbound f tcpFlags) he.1
  rw [Shard.step] at hrows
  obtain ⟨t', p, hout⟩ : ∃ t' p, Natprog.outbound cfg s.table f (nowSec s.clock) tcpFlags = (t', p) := ⟨_, _, rfl⟩
  simp only [Shard.outbound, hout] at hkeeps hrows ⊢
  rcases outbound_spec h.rows he.1 tcpFlags hout with ⟨-, rfl⟩ | ⟨-, hgives, fv, hfv, -, hshard⟩
  · exact h.of_fewer hrows h.seen (fun _ _ v hv => ⟨v, hv⟩) fun _ x hx => ⟨x, hx, rfl⟩
  -- a live reverse row is an old one or the one the packet got
  have hlive (g q w) (hw : LiveRow cfg t' (nowSec s.clock) g q w) :
      LiveRow cfg s.table (nowSec s.clock) g q w ∨ g = f ∧ q = p := by
    rcases hgives.frame _ w hw.1 with hold | ⟨-, hkey | hkey⟩
    · exact .inl ⟨hold, hw.2⟩
    · exact absurd hkey.symm (fwdKey_ne_revKey he.1 g q)
    · obtain rfl := revKey_port hkey
      obtain ⟨v, hv⟩ := hgives.live
      obtain rfl := Option.some.inj (hw.1.symm.trans ((congrArg t' hkey).trans hv.1))
      exact .inr ⟨fwdKey_injective (hw.2.1.symm.trans hv.2.1), rfl⟩
  have hself (q w) (hw : LiveRow cfg t' (nowSec s.clock) f q w) : q = p := by
    rcases hlive f q w hw with hold | ⟨-, hq⟩
    · exact (hkeeps q w hold).symm
    · exact hq
  refine ⟨hrows, fun k w hw => ?_, fun g q q' w w' hw hw' => ?_, fun g q w x hw hx => ?_⟩
  · rcases hgives.frame k w hw with hold | ⟨hnow, -⟩
    · exact h.seen k w hold
    · rw [hnow]
      exact UInt32.le_refl _
  · rcases eq_or_ne g f with rfl | hne
    · rw [hself q w hw, hself q' w' hw']
    · exact h.one g q q' w w' ((hlive g q w hw).resolve_right fun h => hne h.1)
        ((hlive g q' w' hw').resolve_right fun h => hne h.1)
  · rcases eq_or_ne g f with rfl | hne
    · obtain rfl := Option.some.inj (hx.symm.trans hfv)
      rw [hshard, hself q w hw]
    have hold := (hlive g q w hw).resolve_right fun h => hne h.1
    rcases hgives.frame _ x hx with hx | ⟨-, hkey | hkey⟩
    · exact h.named g q w x hold hx
    · exact absurd (fwdKey_injective hkey) hne
    · exact absurd hkey (fwdKey_ne_revKey (hold.genuine h.rows) f p)

theorem reply (h : Settled cfg s) (p : Inbound) (tcpFlags : UInt8) :
    Settled cfg { s with table := Natprog.reply cfg s.table p (nowSec s.clock) tcpFlags } := by
  have hrows : Rows cfg (Natprog.reply cfg s.table p (nowSec s.clock) tcpFlags) s.holder := h.rows.reply p tcpFlags
  revert hrows
  unfold Natprog.reply
  split
  · rename_i v hv
    obtain ⟨hrow, hlive⟩ := Option.filter_eq_some_iff.mp hv
    have hcases (k w) (hw : update s.table (p.key cfg)
      (some (touchSession v (nowSec s.clock) tcpFlags true)) k = some w) :
        s.table k = some w ∨ s.table k = some v ∧ w = touchSession v (nowSec s.clock) tcpFlags true := by
      rcases eq_or_ne k (p.key cfg) with rfl | hne
      · rw [update_self] at hw
        exact .inr ⟨hrow, (Option.some.inj hw).symm⟩
      · exact .inl (by rwa [update_of_ne hne] at hw)
    intro hrows
    refine h.of_fewer hrows (fun k w hw => ?_) (fun f q w hw => ?_) fun k x hx => ?_
    · rcases hcases k w hw with hold | ⟨-, rfl⟩
      · exact h.seen k w hold
      · exact UInt32.le_refl _
    · rcases hcases _ w hw.1 with hold | ⟨hold, rfl⟩
      · exact ⟨w, hold, hw.2⟩
      · exact ⟨v, hold, hw.2.1, by simpa using hlive⟩
    · rcases hcases k x hx with hold | ⟨hold, rfl⟩
      · exact ⟨x, hold, rfl⟩
      · exact ⟨v, hold, rfl⟩
  · exact fun _ => h

theorem step (h : Settled cfg s) {e : Event} (he : e.Steady cfg s)
    (hclock : (s.step cfg e).clock / 1000000000 < 2 ^ 32) : Settled cfg (s.step cfg e) := by
  cases e with
  | outbound f tcpFlags => exact h.outbound he
  | reply p tcpFlags => exact h.reply p tcpFlags
  | evict k =>
    exact h.of_fewer (h.rows.update_none k) (fun k' v hv => h.seen k' v (row_of_update_none hv))
      (fun f q v hv => ⟨v, row_of_update_none hv.1, hv.2⟩) fun k' x hx => ⟨x, row_of_update_none hx, rfl⟩
  | elapse ns =>
    have hnow := nowSec_mono (Nat.le_add_right s.clock ns) hclock
    exact h.of_fewer h.rows (fun k v hv => UInt32.le_trans (h.seen k v hv) hnow)
      (fun f q v hv => ⟨v, hv.1, hv.2.1, sessionExpired_of_le (h.seen _ v hv.1) hnow hv.2.2⟩) fun k x hx => ⟨x, hx, rfl⟩

end Settled

theorem Shard.clock_le_run (s : Shard) (events : List Event) : s.clock ≤ (s.run cfg events).clock := by
  refine List.foldlRecOn (motive := fun s' : Shard => s.clock ≤ s'.clock) events _ le_rfl fun s' hle e _ => ?_
  cases e with
  | elapse ns => exact hle.trans (Nat.le_add_right ..)
  | _ => exact hle

theorem Shard.steady_append {s : Shard} {before after : List Event} :
    s.Steady cfg (before ++ after) ↔ s.Steady cfg before ∧ (s.run cfg before).Steady cfg after := by
  induction before generalizing s with
  | nil => exact (true_and _).symm ▸ Iff.rfl
  | cons e before ih => exact (and_congr_right fun _ => ih).trans and_assoc.symm

theorem Settled.run {s : Shard} {events : List Event} (h : Settled cfg s) (hsteady : s.Steady cfg events)
    (hclock : (s.run cfg events).clock / 1000000000 < 2 ^ 32) : Settled cfg (s.run cfg events) := by
  induction events generalizing s with
  | nil => exact h
  | cons e events ih =>
    have hle : (s.step cfg e).clock ≤ (s.run cfg (e :: events)).clock := clock_le_run _ events
    exact ih (h.step hsteady.1 ((Nat.div_le_div_right hle).trans_lt hclock)) hsteady.2 hclock

theorem settled_start : Settled cfg start where
  rows _ _ h := nomatch h
  seen _ _ h := nomatch h
  one _ _ _ _ _ h := nomatch h.1
  named _ _ _ _ h := nomatch h.1

/-- **Port stability.** In every steady run in which the second counter does not wrap, a flow's packets leave with the
port of its live session, and no flow ever has two live reverse rows. -/
theorem port_stays (cfg : ShardConfig) (events : List Event) (hsteady : start.Steady cfg events)
    (hclock : (start.run cfg events).clock / 1000000000 < 2 ^ 32) :
    (∀ before f tcpFlags, before ++ [.outbound f tcpFlags] <+: events → let s := start.run cfg before
      ∀ port v, LiveRow cfg s.table (nowSec s.clock) f port v → (s.outbound cfg f tcpFlags).2 = port) ∧
    ∀ before, before <+: events → let s := start.run cfg before
      ∀ f p q v w, LiveRow cfg s.table (nowSec s.clock) f p v → LiveRow cfg s.table (nowSec s.clock) f q w → p = q := by
  have hsettled (before) (hbefore : before <+: events) : Settled cfg (start.run cfg before) := by
    obtain ⟨after, rfl⟩ := hbefore
    refine settled_start.run (steady_append.mp hsteady).1 ((Nat.div_le_div_right ?_).trans_lt hclock)
    rw [Shard.run, Shard.run, List.foldl_append]
    exact Shard.clock_le_run _ after
  refine ⟨fun before f tcpFlags hbefore port v hlive => ?_, fun before hbefore => (hsettled before hbefore).one⟩
  refine (hsettled before ((List.prefix_append ..).trans hbefore)).keeps_port ?_ hlive
  obtain ⟨after, rfl⟩ := hbefore
  exact (steady_append.mp (steady_append.mp hsteady).1).2.1

/-- Two tenants' flows meet at the first probe, so that the second one has the port of its second. -/
def crowded : List Event := [.outbound otherFlow 0, .outbound tenantFlow 0, .evict tenantFlow.fwdKey]

theorem crowded_live : LiveRow oneShard (start.run oneShard crowded).table (nowSec (start.run oneShard crowded).clock)
    tenantFlow (candidate tenantFlow.hashBase 1)
    { newSession tenantFlow.fwdKey 0 0 with shardPort := candidate tenantFlow.hashBase 1 } :=
  ⟨by decide +kernel, rfl, by decide +kernel⟩

/-- The port the second flow got is its own at every later packet: the first probe still meets the other tenant. -/
theorem crowded_steady : start.Steady oneShard (crowded ++ [.outbound tenantFlow 0]) := by
  have hother : (Event.outbound otherFlow 0).Steady oneShard start := ⟨by decide +kernel, fun _ _ _ h => nomatch h.1⟩
  have htenant : (Event.outbound tenantFlow 0).Steady oneShard (start.step oneShard (.outbound otherFlow 0)) := by
    refine ⟨by decide +kernel, fun _ port v hlive => ?_⟩
    -- only the other flow holds a port
    obtain ⟨g, -, hname, -, -, hholder⟩ := (settled_start.step hother (by decide +kernel)).rows.at_rev hlive.1
    obtain rfl := fwdKey_injective (hlive.2.1.symm.trans hname)
    dsimp only [Shard.step, Shard.outbound, start] at hholder
    split at hholder
    · cases hholder
    · rw [update_apply] at hholder
      split_ifs at hholder
      exact absurd (Option.some.inj hholder) (by decide +kernel)
  have hsettled : Settled oneShard (start.run oneShard crowded) :=
    settled_start.run ⟨hother, htenant, trivial, trivial⟩ (by decide +kernel)
  refine ⟨hother, htenant, trivial, ⟨by decide +kernel, fun _ port v hlive => ?_⟩, trivial⟩
  exact ⟨1, by decide, hsettled.one _ _ _ _ _ hlive crowded_live, by unfold Passed; decide +kernel⟩

theorem port_stays_crowded :
    ((start.run oneShard crowded).outbound oneShard tenantFlow 0).2 = candidate tenantFlow.hashBase 1 ∧
      let s := start.run oneShard (crowded ++ [.outbound tenantFlow 0])
      ∀ p q v w, LiveRow oneShard s.table (nowSec s.clock) tenantFlow p v →
        LiveRow oneShard s.table (nowSec s.clock) tenantFlow q w → p = q := by
  have h := port_stays oneShard (crowded ++ [.outbound tenantFlow 0]) crowded_steady (by decide +kernel)
  exact ⟨h.1 crowded tenantFlow 0 (List.prefix_refl _) _ _ crowded_live, h.2 _ (List.prefix_refl _) tenantFlow⟩

/-- Once the other tenant's row goes too, the flow moves to the first port from a live session, and has two. -/
theorem port_moves :
    let s := Shard.start.run oneShard (crowded ++ [.evict (otherFlow.revKey oneShard tenantPort)])
    let r := s.outbound oneShard tenantFlow 0
    let live (t : Table) (port : UInt16) : Bool := (t (tenantFlow.revKey oneShard port)).any fun v =>
      v.forwardKey = tenantFlow.fwdKey ∧ sessionExpired v 0 = false
    live s.table (candidate tenantFlow.hashBase 1) ∧ r.2 ≠ candidate tenantFlow.hashBase 1 ∧
      live r.1.table (candidate tenantFlow.hashBase 1) ∧ live r.1.table r.2 := by
  decide +kernel

end Galactic.Natprog
