import Galactic.Activator.Attempts

/-!
# Activations through crashes

With an FRR that takes the revision well a delivery passes through the stages of `Going` and ends committed as in the
run without a crash. A boot between the `Applied` record and the commit breaks this: FRR then starts with the old
checkpoint. With an FRR that takes the revision badly the delivery passes through the stages of `Sinking` and ends on
the recovery target, unless FRR runs the revision's configuration without a reload and is healthy. -/

namespace Galactic.Activator
open Activator Option

def Checkpoint.timeless (cp : Checkpoint) : Checkpoint := { cp with bootAuthorizedUntil := 0 }

namespace Delivery

/-- The call leaves the node at a stage, and comes to its end if it does not crash. -/
def Leads (stage : Node → Prop) (ends : Out → Prop) (env : Env) (out : Out) : Prop :=
  stage out.1 ∧ (env.Unbroken → ends out)

section
variable {stage : Node → Prop} {ends : Out → Prop} {env : Env} {n : Node}

theorem Leads.fault {point : FaultPoint} {rest : Out} (hstage : stage n) (hrest : Leads stage ends env rest) :
    Leads stage ends env (Activator.fault env n point rest) := by
  unfold Activator.fault
  split_ifs with hfault
  · exact ⟨hstage, fun hun => Bool.noConfusion ((hun point).symm.trans hfault)⟩
  · exact hrest

theorem Leads.append {rec : Record} {k : Node → Out} (hsteady : env.Steady)
    (h : Leads stage ends env (k (n.journaled (n.journal.stamp (env.times rec.type) rec)))) :
    Leads stage ends env (Activator.append env n rec k) := by
  rw [append_steady hsteady]
  exact h

end

variable {host : Host} (d : Delivery host)

/-! ### A revision that FRR takes well -/

/-- FRR takes the revision, and it is healthy. -/
structure Good (env : Env) : Prop where
  reload : (env.reload .own).answer = .ok
  runs : (host.normalize d.rendered).diff (host.normalize (env.reload .own).running) = []
  healthy : stabilize (deadline env d.req) env.polls = .healthy

abbrev applied : Record := Record.of .applied d.act

abbrev committed : Record := Record.of .committed d.act

def Checkpointed (n : Node) : Prop :=
  ∃ env, n.checkpoint = some (checkpointOf host env d.req d.act d.rev d.rendered d.id.nonce)

def Done (n : Node) : Prop := d.At ([d.applied] ++ [d.committed]) n ∧ d.Checkpointed n

/-- The stages of a delivery that goes well. -/
inductive Going (n : Node) : Prop
  | fresh (new : d.New n) (old : d.OnOld n)
  | accepted (at_ : d.At [] n) (kept : n.checkpoint = d.node.checkpoint) (on : d.OnNew n ∨ d.OnOld n)
  | applied (at_ : d.At [d.applied] n) (kept : n.checkpoint = d.node.checkpoint) (on : d.OnNew n)
  | committed (at_ : d.At ([d.applied] ++ [d.committed]) n) (cp : n.checkpoint = d.node.checkpoint ∨ d.Checkpointed n)

/-- The call commits the delivery if it does not crash. -/
abbrev Goes (env : Env) (out : Out) : Prop :=
  Leads d.Going (fun out => out.2 = .ok ⟨.committed, ""⟩ ∧ d.Done out.1) env out

variable {d} {n : Node} {env : Env}

section
variable {rec : Record} {rest : List Record}

theorem stage_applied : Stage d.act d.applied := ⟨rfl, nofun, nofun, nofun⟩

theorem stage_committed : Stage d.act d.committed := ⟨rfl, nofun, nofun, nofun⟩

theorem At.did (h : d.At rest n) (kind : DeedKind) (act : Activation) (rev : Revision) :
  d.At rest (n.did kind act rev) := h.congr rfl rfl

theorem At.reloaded (h : d.At rest n) (which : Which) (act : Activation) (rev : Revision) :
    d.At rest (reload env n which act rev) := h.congr rfl rfl

theorem At.checkpointed (h : d.At rest n) (cp : Checkpoint) : d.At rest { n with checkpoint := some cp } :=
  h.congr rfl rfl

theorem At.first (h : d.At [] n) (hrec : Stage d.act rec) (time : Int) :
    d.At [rec] (n.journaled (n.journal.stamp time rec)) := h.journaled hrec time

end

section
variable (hsteady : env.Steady) (hkept : n.checkpoint = d.node.checkpoint)

include hsteady hkept

theorem commit_goes (hat : d.At [d.applied] n) :
    d.Goes env (commit host env n d.req d.rev d.rendered) := by
  have hnext := (hat.did (.observed n.running d.req env.polled env.polls) d.act d.rev).journaled stage_committed
    (env.times .committed)
  have hdone := hnext.checkpointed (checkpointOf host env d.req d.act d.rev d.rendered d.id.nonce)
  refine .append hsteady (.fault (.committed hnext (.inl hkept)) ?_)
  rw [checkpoint_steady (d := d) hsteady]
  · exact ⟨.committed hdone (.inr ⟨env, rfl⟩), fun _ => ⟨rfl, hdone, env, rfl⟩⟩
  · exact hat.identity

theorem observe_goes (hgood : d.Good env) (hat : d.At [d.applied] n)
    (hon : d.OnNew n) : d.Goes env (observeAndCommit host env n d.req d.rev d.rendered) := by
  unfold observeAndCommit
  rw [runningDiff_steady hsteady, show _ = [] from hon]
  rw [hgood.healthy]
  exact commit_goes hsteady hkept hat

theorem apply_goes (hgood : d.Good env) (hat : d.At [] n) : d.Goes env (apply host env n d.req d.rev d.rendered) := by
  have hreloaded : d.At [] (reload env n .own d.act d.rev) := hat.reloaded .own d.act d.rev
  have hnext := hreloaded.first stage_applied (env.times .applied)
  unfold apply
  rw [hgood.reload]
  refine .fault (.accepted hreloaded hkept (.inl hgood.runs)) (.append hsteady ?_)
  exact .fault (.applied hnext hkept hgood.runs) (observe_goes hsteady hkept hgood hnext hgood.runs)

theorem old_applies (hold : d.OnOld n) :
    d.acceptance.previousGood = "" ∨ runningIsCheckpoint host env n := by
  cases hcp : d.node.checkpoint with
  | none =>
    refine .inl ?_
    show (d.node.checkpoint.map (·.activation.revision)).getD "" = ""
    rw [hcp]
    rfl
  | some cp =>
    refine .inr ?_
    unfold runningIsCheckpoint
    rw [readCheckpoint_steady hsteady, hkept, hcp, any_some, runningDiff_steady hsteady, hold cp hcp]
    exact decide_eq_true rfl

theorem resumeAccepted_goes (hgood : d.Good env) (hat : d.At [] n) (hon : d.OnNew n ∨ d.OnOld n) {rec : Record}
    (hrec : rec.previousGood = d.acceptance.previousGood) :
    d.Goes env (resumeAccepted host env n d.req d.rev d.rendered rec) := by
  unfold resumeAccepted
  rw [runningDiff_steady hsteady]
  split
  · exact nomatch ‹some _ = none›
  · rename_i hnew
    have hnext := hat.first stage_applied (env.times .applied)
    exact .append hsteady (observe_goes hsteady hkept hgood hnext (some.inj hnew))
  rename_i diff hnot hdiff
  have hold : d.OnOld n := hon.resolve_left fun hnew => hnot ((some.inj hdiff).symm.trans hnew)
  rw [if_pos (hrec ▸ old_applies hsteady hkept hold)]
  exact apply_goes hsteady hkept hgood hat

end

theorem checkpoint_other {cp : Checkpoint} (hcp : d.node.checkpoint = some cp) : cp.activation ≠ d.act := by
  intro hact
  obtain ⟨-, rev, credential, -, hfrom⟩ := d.checked.vetted cp hcp
  -- a record of its epoch would stand in the journal
  rcases hfrom with ⟨⟨rec, hrec, htype, hr⟩, -⟩ | ⟨failed, hfailed, ⟨rec, hrec, htype, hr⟩, -⟩
  · refine unknown rec hrec ⟨by rw [hr, hact], by rw [hr, hact], ?_, ?_⟩ <;> rw [htype] <;> nofun
  · rw [hact] at hfailed
    refine unknown rec hrec ⟨by rw [hr, hfailed], by rw [hr, hfailed], ?_, ?_⟩ <;> rw [htype] <;> nofun

theorem resumeCommitted_goes (hsteady : env.Steady) (hat : d.At ([d.applied] ++ [d.committed]) n)
    (hcp : n.checkpoint = d.node.checkpoint ∨ d.Checkpointed n) :
    d.Goes env (resumeCommitted host env n d.req d.rev d.rendered) := by
  unfold resumeCommitted
  rw [readCheckpoint_steady hsteady]
  rcases hcp with hcp | ⟨env', hcp⟩
  · rw [hcp, if_neg]
    · rw [checkpoint_steady hsteady hat.identity]
      have hdone := hat.checkpointed (checkpointOf host env d.req d.act d.rev d.rendered d.id.nonce)
      exact ⟨.committed hdone (.inr ⟨env, rfl⟩), fun _ => ⟨rfl, hdone, env, rfl⟩⟩
    · cases hold : d.node.checkpoint with
      | none => exact Bool.false_ne_true
      | some cp => simpa using checkpoint_other hold
  · rw [hcp]
    split_ifs with hsame
    · exact ⟨.committed hat (.inr ⟨env', hcp⟩), fun _ => ⟨rfl, hat, env', hcp⟩⟩
    · exact absurd (decide_eq_true rfl) hsame

section
variable (h : d.Going n) (hsteady : env.Steady) (hgood : d.Good env)

include h hsteady hgood

theorem Going.call : (d.New n ∧ d.OnOld n) ∨
    (d.Goes env (resume host env n d.req) ∧ d.Goes env (activate host env n d.req)) := by
  cases h with
  | fresh new old => exact .inl ⟨new, old⟩
  | accepted hat hkept hon =>
    obtain ⟨i, time, hlast⟩ := hat.last_accepted
    exact .inr (hat.calls hsteady hlast rfl (.inl rfl) (resumeAccepted_goes hsteady hkept hgood hat hon rfl))
  | applied hat hkept hon =>
    obtain ⟨i, time, hlast⟩ := (show d.At ([] ++ [d.applied]) n from hat).last_stage
    exact .inr (hat.calls hsteady hlast rfl (.inl rfl) (observe_goes hsteady hkept hgood hat hon))
  | committed hat hcp =>
    obtain ⟨i, time, hlast⟩ := hat.last_stage
    exact .inr (hat.calls hsteady hlast rfl (.inl rfl) (resumeCommitted_goes hsteady hat hcp))

theorem Going.activate : d.Goes env (activate host env n d.req) := by
  rcases h.call hsteady hgood with ⟨hnew, hold⟩ | ⟨-, hgoes⟩
  · obtain ⟨time, hactivate⟩ := hnew.activate_eq hsteady
    have hat := hnew.at_accepted time
    rw [hactivate]
    exact .fault (.accepted hat hnew.checkpoint (.inr hold)) (apply_goes hsteady hnew.checkpoint hgood hat)
  · exact hgoes

theorem Going.resume : d.Going (resume host env n d.req).1 := by
  rcases h.call hsteady hgood with ⟨hnew, hold⟩ | ⟨hgoes, -⟩
  · rw [hnew.resume_eq env]
    exact h
  · exact hgoes.1

end

/-- Between the `Applied` record and the commit, FRR is not started with another configuration. -/
def Gentle (d : Delivery host) (n : Node) (r : Restart) : Prop := n.At d.act .applied → d.OnNew (r.node host n)

variable {r : Restart}

theorem Going.restart (h : d.Going n) (hgentle : d.Gentle n r) : d.Going (r.node host n) := by
  have hruns : n.checkpoint = d.node.checkpoint → (r.node host n).running = n.running ∨ d.OnOld (r.node host n) := by
    refine fun hkept => (restart_runs n r).imp_right fun ⟨cp, hcp, hrun⟩ cp' hcp' => ?_
    obtain rfl : cp = cp' := mem_unique hcp (hkept.trans hcp')
    rw [hrun]
    exact Config.diff_self _
  cases h with
  | fresh new old =>
    obtain ⟨hj, hc, hi⟩ := restart_keeps (d := d) new.identity r
    refine .fresh ⟨hj.trans new.journal, hi, hc.trans new.checkpoint⟩
      ((hruns new.checkpoint).elim (fun hrun => ?_) fun h => h)
    unfold OnOld
    rw [hrun]
    exact old
  | accepted hat hkept hon =>
    obtain ⟨-, hc, -⟩ := restart_keeps hat.identity r
    refine .accepted (hat.restart r) (hc.trans hkept) ((hruns hkept).elim (fun hrun => ?_) .inr)
    unfold OnNew OnOld
    rw [hrun]
    exact hon
  | applied hat hkept hon =>
    obtain ⟨-, hc, -⟩ := restart_keeps hat.identity r
    obtain ⟨i, time, hlast⟩ := (show d.At ([] ++ [d.applied]) n from hat).last_stage
    exact .applied (hat.restart r) (hc.trans hkept) (hgentle ⟨_, hlast, rfl, rfl⟩)
  | committed hat hcp =>
    obtain ⟨-, hc, -⟩ := restart_keeps hat.identity r
    refine .committed (hat.restart r) ?_
    unfold Checkpointed
    rw [hc]
    exact hcp

/-- The attempt meets an FRR that takes the revision well, after a gentle restart. -/
structure WellRun (d : Delivery host) (n : Node) (a : Attempt) : Prop where
  steady : a.env.Steady
  good : d.Good a.env
  gentle : d.Gentle n a.restart

variable {a : Attempt}

theorem Going.attempt (h : d.Going n) (hrun : d.WellRun n a) : d.Going (d.attempt n a) := by
  unfold Delivery.attempt
  split_ifs
  · exact (h.restart hrun.gentle).resume hrun.steady hrun.good
  · exact ((h.restart hrun.gentle).activate hrun.steady hrun.good).1

theorem Going.start (d : Delivery host) : d.Going d.node := .fresh ⟨rfl, d.identified, rfl⟩ d.runs

/-! ### A revision that FRR takes badly -/

def Sick (d : Delivery host) (env : Env) : Prop := ∃ text, stabilize (deadline env d.req) env.polls = .unhealthy text

/-- A reload of the revision fails, or FRR then runs something else, or it is unhealthy. -/
inductive Bad (d : Delivery host) (env : Env) : Prop
  | fails (text : String) (answer : (env.reload .own).answer = .failed text)
  | diverges (answer : (env.reload .own).answer = .ok)
      (differs : (host.normalize d.rendered).diff (host.normalize (env.reload .own).running) ≠ [])
  | unhealthy (answer : (env.reload .own).answer = .ok) (sick : d.Sick env)

structure Fallback (d : Delivery host) where
  target : Revision
  config : String
  eligible : eligible host d.req = .ok target
  verified : host.verify target = .ok config

structure Fallback.Taken (f : Fallback d) (env : Env) : Prop where
  reload : (env.reload .target).answer = .ok
  runs : (host.normalize f.config).diff (host.normalize (env.reload .target).running) = []

abbrev failure (d : Delivery host) (detail : String) : Record := (Record.of .applyFailed d.act).explained detail

abbrev Fallback.recovery (f : Fallback d) : Record :=
  (Record.of .recovered d.act).explained ("restored " ++ f.target.name)

def Fallback.Checkpointed (f : Fallback d) (n : Node) : Prop :=
  ∃ env, n.checkpoint =
    some (checkpointOf host env d.req (d.req.restored f.target) f.target f.config d.id.nonce)

/-- The delivery is recovered: journaled, checkpointed, and FRR runs the target. -/
structure Fallback.Recovered (f : Fallback d) (n : Node) : Prop where
  last : ∃ rec, n.journal.lastForEpoch d.act.deploymentUID d.act.epoch = some rec ∧ rec.type = .recovered
  checkpoint : f.Checkpointed n
  runs : (host.normalize f.config).diff (host.normalize n.running) = []

/-- The stages of a delivery that goes wrong. -/
inductive Sinking (f : Fallback d) (n : Node) : Prop
  | fresh (new : d.New n)
  | accepted (at_ : d.At [] n)
  | applied (at_ : d.At [d.applied] n)
  | failed (before : List Record) (detail : String) (at_ : d.At (before ++ [d.failure detail]) n)
  | recovered (before : List Record) (detail : String) (at_ : d.At (before ++ [d.failure detail] ++ [f.recovery]) n)
      (done : f.Recovered n)

/-- The call recovers the delivery if it does not crash. -/
abbrev Sinks (f : Fallback d) (env : Env) (out : Out) : Prop :=
  Leads (Sinking f) (fun out => f.Recovered out.1) env out

variable {f : Fallback d}

theorem stage_failure (detail : String) : Stage d.act (d.failure detail) := ⟨rfl, nofun, nofun, nofun⟩

theorem stage_recovery (f : Fallback d) : Stage d.act f.recovery := ⟨rfl, nofun, nofun, nofun⟩

section
variable (hsteady : env.Steady) {before : List Record} {journaled : String}

include hsteady

theorem finishRecovery_sinks (hat : d.At (before ++ [d.failure journaled]) n)
    (hruns : (host.normalize f.config).diff (host.normalize n.running) = []) (detail : String) :
    Sinks f env (finishRecovery host env n d.req f.target f.config detail) := by
  have hcp := hat.checkpointed (checkpointOf host env d.req (d.req.restored f.target) f.target f.config d.id.nonce)
  have hnext := hcp.journaled (stage_recovery f) (env.times .recovered)
  unfold finishRecovery
  rw [checkpoint_steady hsteady hat.identity]
  refine .fault (.failed before journaled hcp) (.append hsteady ?_)
  obtain ⟨i, time, hlast⟩ := hnext.last_stage
  have hdone : f.Recovered (Node.journaled { n with checkpoint := some (checkpointOf host env d.req
      (d.req.restored f.target) f.target f.config d.id.nonce) } (Journal.stamp n.journal (env.times
        .recovered) f.recovery)) :=
    ⟨⟨_, hlast, rfl⟩, ⟨env, rfl⟩, hruns⟩
  exact ⟨.recovered before journaled hnext hdone, fun _ => hdone⟩

theorem recover_sinks (htaken : f.Taken env) (hat : d.At (before ++ [d.failure journaled]) n) (detail : String) :
    Sinks f env (recover host env n d.req detail) := by
  have hvetted : d.At (before ++ [d.failure journaled]) (n.did (.eligible d.req) d.act f.target) := hat.did _ _ _
  have hrender : render host env .target f.target = .ok f.config := by
    unfold render
    rw [f.verified]
    dsimp only
    rw [if_pos (hsteady.renders .target)]
  unfold recover
  rw [f.eligible]
  refine .fault (.failed before journaled hvetted) ?_
  unfold restore
  rw [hrender]
  rw [htaken.reload]
  exact finishRecovery_sinks hsteady (hvetted.reloaded .target d.act f.target) htaken.runs detail

theorem failWith_sinks (htaken : f.Taken env) (hat : d.At before n) (journaled detail : String) :
    Sinks f env (failWith host env n d.req journaled detail) :=
  .append hsteady
    (recover_sinks hsteady htaken (hat.journaled (stage_failure journaled) (env.times .applyFailed)) detail)

theorem observe_sinks (htaken : f.Taken env) (hat : d.At [d.applied] n) (hsick : d.OnNew n → d.Sick env) :
    Sinks f env (observeAndCommit host env n d.req d.rev d.rendered) := by
  unfold observeAndCommit
  rw [runningDiff_steady hsteady]
  cases hdiff : (host.normalize d.rendered).diff (host.normalize n.running) with
  | cons l ls => exact failWith_sinks hsteady htaken hat _ _
  | nil =>
    obtain ⟨text, htext⟩ := hsick hdiff
    rw [htext]
    exact failWith_sinks hsteady htaken hat _ _

theorem apply_sinks (hbad : d.Bad env) (htaken : f.Taken env) (hat : d.At [] n) :
    Sinks f env (apply host env n d.req d.rev d.rendered) := by
  have hreloaded : d.At [] (reload env n .own d.act d.rev) := hat.reloaded .own d.act d.rev
  have hnext := hreloaded.first stage_applied (env.times .applied)
  have hok : (env.reload .own).answer = .ok → (d.OnNew (reload env n .own d.act d.rev) → d.Sick env) →
      Sinks f env (apply host env n d.req d.rev d.rendered) := by
    intro hanswer hsick
    unfold apply
    rw [hanswer]
    refine .fault (.accepted hreloaded) (.append hsteady ?_)
    exact .fault (.applied hnext) (observe_sinks hsteady htaken hnext hsick)
  cases hbad with
  | fails text answer =>
    unfold apply
    rw [answer]
    exact failWith_sinks hsteady htaken hreloaded text _
  | diverges answer differs => exact hok answer fun hon => absurd hon differs
  | unhealthy answer sick => exact hok answer fun _ => sick

theorem resumeAccepted_sinks (hbad : d.Bad env) (htaken : f.Taken env) (hat : d.At [] n)
    (hsick : d.OnNew n → d.Sick env) (rec : Record) :
    Sinks f env (resumeAccepted host env n d.req d.rev d.rendered rec) := by
  unfold resumeAccepted
  rw [runningDiff_steady hsteady]
  split
  · exact nomatch ‹some _ = none›
  · exact .append hsteady (observe_sinks hsteady htaken (hat.first stage_applied (env.times .applied)) hsick)
  · split_ifs
    · exact apply_sinks hsteady hbad htaken hat
    · exact failWith_sinks hsteady htaken hat _ _

end

section
variable (h : Sinking f n) (hsteady : env.Steady) (hbad : d.Bad env) (htaken : f.Taken env)
  (hsick : d.OnNew n → d.Sick env)

include h hsteady hbad htaken hsick

theorem Sinking.call : d.New n ∨ (Sinks f env (resume host env n d.req) ∧ Sinks f env (activate host env n d.req)) := by
  cases h with
  | fresh new => exact .inl new
  | accepted hat =>
    obtain ⟨i, time, hlast⟩ := hat.last_accepted
    exact .inr (hat.calls hsteady hlast rfl (.inl rfl) (resumeAccepted_sinks hsteady hbad htaken hat hsick _))
  | applied hat =>
    obtain ⟨i, time, hlast⟩ := (show d.At ([] ++ [d.applied]) n from hat).last_stage
    exact .inr (hat.calls hsteady hlast rfl (.inl rfl) (observe_sinks hsteady htaken hat hsick))
  | failed before detail hat =>
    obtain ⟨i, time, hlast⟩ := hat.last_stage
    exact .inr (hat.calls hsteady hlast rfl (.inr rfl) (recover_sinks hsteady htaken hat _))
  | recovered before detail hat hdone =>
    obtain ⟨i, time, hlast⟩ := hat.last_stage
    have hfails : (before ++ [d.failure detail] ++ [f.recovery]).any Record.fails :=
      List.any_eq_true.mpr ⟨f.recovery, List.mem_concat_self, rfl⟩
    have hstay : Sinking f n := .recovered before detail hat hdone
    refine .inr ⟨?_, ?_⟩
    · rw [hat.resume_eq hsteady hlast rfl]
      exact ⟨hstay, fun _ => hdone⟩
    -- the epoch has failed, so a redelivery is refused
    have hsame := hat.activate_recovered hsteady hlast rfl hfails rfl
    unfold Sinks Leads
    dsimp only
    rw [hsame]
    exact ⟨hstay, fun _ => hdone⟩

theorem Sinking.activate : Sinks f env (activate host env n d.req) := by
  rcases h.call hsteady hbad htaken hsick with hnew | ⟨-, hsinks⟩
  · obtain ⟨time, hactivate⟩ := hnew.activate_eq hsteady
    have hat := hnew.at_accepted time
    rw [hactivate]
    exact .fault (.accepted hat) (apply_sinks hsteady hbad htaken hat)
  · exact hsinks

theorem Sinking.resume : Sinking f (resume host env n d.req).1 := by
  rcases h.call hsteady hbad htaken hsick with hnew | ⟨hsinks, -⟩
  · rw [hnew.resume_eq env]
    exact h
  · exact hsinks.1

end

theorem Sinking.restart (h : Sinking f n) (r : Restart) : Sinking f (r.node host n) := by
  cases h with
  | fresh new =>
    obtain ⟨hj, hc, hi⟩ := restart_keeps (d := d) new.identity r
    exact .fresh ⟨hj.trans new.journal, hi, hc.trans new.checkpoint⟩
  | accepted hat =>
    exact .accepted (hat.restart r)
  | applied hat =>
    exact .applied (hat.restart r)
  | failed before detail hat =>
    exact .failed before detail (hat.restart r)
  | recovered before detail hat hdone =>
    obtain ⟨hj, hc, -⟩ := restart_keeps hat.identity r
    refine .recovered before detail (hat.restart r) ⟨?_, ?_, ?_⟩
    · rw [hj]
      exact hdone.last
    · unfold Fallback.Checkpointed
      rw [hc]
      exact hdone.checkpoint
    rcases restart_runs n r with hrun | ⟨cp, hcp, hrun⟩
    · rw [hrun]
      exact hdone.runs
    -- FRR started with the target's checkpoint
    obtain ⟨env, henv⟩ := hdone.checkpoint
    obtain rfl := mem_unique hcp henv
    rw [hrun]
    exact Config.diff_self _

/-- The attempt meets an FRR that takes the revision badly and the recovery target well, and that does not already run
the revision in good health. -/
structure BadlyRun (f : Fallback d) (n : Node) (a : Attempt) : Prop where
  steady : a.env.Steady
  bad : d.Bad a.env
  taken : f.Taken a.env
  sick : d.OnNew (a.restart.node host n) → d.Sick a.env

theorem Sinking.attempt (h : Sinking f n) (hrun : BadlyRun f n a) : Sinking f (d.attempt n a) := by
  unfold Delivery.attempt
  split_ifs
  · exact (h.restart a.restart).resume hrun.steady hrun.bad hrun.taken hrun.sick
  · exact ((h.restart a.restart).activate hrun.steady hrun.bad hrun.taken hrun.sick).1

/-! ### Any number of crashes -/

def Along (d : Delivery host) (p : Node → Attempt → Prop) : Node → List Attempt → Prop
  | _, [] => True
  | n, a :: as => p n a ∧ Along d p (d.attempt n a) as

theorem Along.attempts {p : Node → Attempt → Prop} {stage : Node → Prop}
    (hkeep : ∀ n a, stage n → p n a → stage (d.attempt n a)) (attempts : List Attempt) (h : stage n)
    (hrun : d.Along p n attempts) : stage (attempts.foldl d.attempt n) := by
  induction attempts generalizing n with
  | nil => exact h
  | cons a as ih => exact ih (hkeep n a h hrun.1) hrun.2

def outcome (n : Node) : Journal × Option Checkpoint :=
  (n.journal.map Record.timeless, n.checkpoint.map Checkpoint.timeless)

theorem Done.outcome_eq {n' : Node} (h : d.Done n) (h' : d.Done n') : outcome n = outcome n' := by
  obtain ⟨env, henv⟩ := h.2
  obtain ⟨env', henv'⟩ := h'.2
  unfold outcome
  rw [h.1.chain.timeless h'.1.chain, henv, henv']
  rfl

/-- The last call of a delivery, after any number of crashes. With an FRR that takes the revision well it commits, and
leaves what a call without a crash leaves. With one that takes the revision badly and the recovery target well it leaves
the node recovered. -/
theorem crash_transparent (d : Delivery host) (attempts : List Attempt) (restart : Restart) (env : Env)
    (hunbroken : env.Unbroken) :
    (d.Along d.WellRun d.node attempts → d.WellRun (d.after attempts) ⟨restart, false, env⟩ →
      (d.ending attempts restart env).2 = .ok ⟨.committed, ""⟩ ∧ d.Done (d.ending attempts restart env).1 ∧
      ∀ env' : Env, env'.Steady → d.Good env' → env'.Unbroken →
        outcome (d.ending attempts restart env).1 = outcome (activate host env' d.node d.req).1) ∧
    (∀ f : Fallback d, d.Along (BadlyRun f) d.node attempts → BadlyRun f (d.after attempts) ⟨restart, false, env⟩ →
      f.Recovered (d.ending attempts restart env).1) := by
  refine ⟨fun hrun hlast => ?_, fun f hrun hlast => ?_⟩
  · have hgoing : d.Going (d.after attempts) := hrun.attempts (fun _ _ h => h.attempt) attempts (Going.start d)
    obtain ⟨hresult, hdone⟩ := ((hgoing.restart hlast.gentle).activate hlast.steady hlast.good).2 hunbroken
    refine ⟨hresult, hdone, fun env' hsteady hgood hwhole => ?_⟩
    exact hdone.outcome_eq (((Going.start d).activate hsteady hgood).2 hwhole).2
  · have hsinking : Sinking f (d.after attempts) :=
      hrun.attempts (fun _ _ h => h.attempt) attempts (.fresh ⟨rfl, d.identified, rfl⟩)
    exact ((hsinking.restart restart).activate hlast.steady hlast.bad hlast.taken hlast.sick).2 hunbroken

/-! ### An upgrade -/

/-- A node that runs its first revision is asked for a second one. -/
def upgrade : Delivery plainHost where
  req := requestOf "d1" 2 "r2" "r1"
  rev := revisionOf "r2"
  rendered := "config of r2"
  node := Node.start.run plainHost committedRun
  id := ⟨"node", "machine", "cluster", "nonce"⟩
  promotes := by decide +kernel
  verified := by decide +kernel
  sound := run_sound Sound.start committedRun
  checked := run_checked (Checked.start plainHost) committedRun
  identified := by decide +kernel
  complete := by decide +kernel
  named := by decide +kernel
  serves := by unfold Journal.Serves; decide +kernel
  fresh := by decide +kernel
  runs := by decide +kernel

/-- It may fall back to the first. -/
def upgradeFallback : Fallback upgrade where
  target := revisionOf "r1"
  config := "config of r1"
  eligible := by decide +kernel
  verified := by decide +kernel

def goodEnv : Env := calmEnv "config of r2" "config of r1"

/-- FRR rejects the second revision and keeps the first. -/
def badEnv : Env :=
  { goodEnv with reload := fun which => ⟨match which with | .own => .failed "bad" | .target => .ok, "config of r1"⟩ }

theorem steady_goodEnv : goodEnv.Steady := ⟨rfl, fun _ => rfl, rfl, fun _ => rfl, fun _ => rfl, fun _ => rfl, rfl⟩

theorem steady_badEnv : badEnv.Steady := ⟨rfl, fun _ => rfl, rfl, fun _ => rfl, fun _ => rfl, fun _ => rfl, rfl⟩

theorem steady_crashing (h : env.Steady) (point : FaultPoint) : (env.crashing point).Steady :=
  ⟨h.checks, h.readsIdentity, h.readsCheckpoint, h.renders, h.runs, h.appends, h.writes⟩

theorem Gentle.of_other (h : (n.journal.lastForEpoch d.act.deploymentUID d.act.epoch).map (·.type) ≠ some .applied) :
    d.Gentle n r :=
  fun ⟨rec, hlast, htype, _⟩ => absurd (by rw [hlast, map_some, htype]) h

/-- The first attempt crashes before FRR's new configuration is journaled, and the agent reinstalls the old one; the
second crashes before the checkpoint. -/
def goodAttempts : List Attempt :=
  [⟨.agent, false, goodEnv.crashing .afterReload⟩,
    ⟨.boot machine "" true 5 false, true, goodEnv.crashing .afterCommitted⟩]

/-- The first attempt crashes before the recovery target is reloaded, the second before the recovery is journaled. -/
def badAttempts : List Attempt :=
  [⟨.agent, false, badEnv.crashing .duringRecovery⟩,
    ⟨.boot machine "" true 5 false, true, badEnv.crashing .afterRecovery⟩]

theorem upgrade_good (hreload : env.reload = goodEnv.reload) (hpolled : env.polled = 0)
    (hpolls : env.polls = goodEnv.polls) : upgrade.Good env where
  reload := by rw [hreload]; decide +kernel
  runs := by rw [hreload]; decide +kernel
  healthy := by unfold deadline; rw [hpolls, hpolled]; decide +kernel

theorem upgrade_wellRun (restart : Restart) (resumes : Bool) (point : FaultPoint)
    (h : (n.journal.lastForEpoch "d1" 2).map (·.type) ≠ some .applied) :
    upgrade.WellRun n ⟨restart, resumes, goodEnv.crashing point⟩ :=
  ⟨steady_crashing steady_goodEnv point, upgrade_good rfl rfl rfl, Gentle.of_other h⟩

theorem upgrade_badlyRun (hsteady : a.env.Steady) (hreload : a.env.reload = badEnv.reload)
    (hnot : ¬ upgrade.OnNew (a.restart.node plainHost n)) : BadlyRun upgradeFallback n a := by
  refine ⟨hsteady, .fails "bad" ?_, ⟨?_, ?_⟩, fun hon => absurd hon hnot⟩
  · rw [hreload]; rfl
  · rw [hreload]; rfl
  · rw [hreload]; decide +kernel

theorem crash_transparent_upgrade :
    (upgrade.ending goodAttempts .agent goodEnv).2 = .ok ⟨.committed, ""⟩ ∧
    upgradeFallback.Recovered (upgrade.ending badAttempts .agent badEnv).1 := by
  refine ⟨((crash_transparent upgrade goodAttempts .agent goodEnv fun _ => rfl).1 ?_ ?_).1,
    (crash_transparent upgrade badAttempts .agent badEnv fun _ => rfl).2 upgradeFallback ?_ ?_⟩
  · exact ⟨upgrade_wellRun _ _ _ (by decide +kernel), upgrade_wellRun _ _ _ (by decide +kernel), trivial⟩
  · exact ⟨steady_goodEnv, upgrade_good rfl rfl rfl, Gentle.of_other (by decide +kernel)⟩
  · refine ⟨upgrade_badlyRun (steady_crashing steady_badEnv _) rfl ?_,
      upgrade_badlyRun (steady_crashing steady_badEnv _) rfl ?_, trivial⟩
    · unfold OnNew; decide +kernel
    · unfold OnNew; decide +kernel
  · refine upgrade_badlyRun steady_badEnv rfl ?_
    unfold OnNew; decide +kernel

/-- The agent crashes after the `Applied` record and reinstalls the checkpoint. FRR takes the second revision well
whenever it is reloaded, but the redelivery only journals a failed epoch and restores the first. -/
theorem boot_after_applied :
    goodEnv.Steady ∧ goodEnv.Unbroken ∧ upgrade.Good goodEnv ∧
    (upgrade.ending [] .agent goodEnv).1.journal.map (·.type) =
      [.accepted, .applied, .committed, .accepted, .applied, .committed] ∧
    (upgrade.ending [⟨.agent, false, goodEnv.crashing .afterApplied⟩] (.boot machine "" true 5 false)
      goodEnv).1.journal.map (·.type) =
      [.accepted, .applied, .committed, .accepted, .applied, .applyFailed, .recovered] := by
  refine ⟨steady_goodEnv, fun _ => rfl, upgrade_good rfl rfl rfl, ?_, ?_⟩
  · decide +kernel
  · decide +kernel

end Delivery

end Galactic.Activator
