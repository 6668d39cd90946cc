import Galactic.Activator.Delivery

/-!
# Attempts at a delivery

A delivery may crash any number of times at the fault points. After each crash the agent opens the journal again, on an
FRR that still runs or on one that starts with what `boot` returns, and the same request is resumed or redelivered. -/

namespace Galactic.Activator
open List

inductive Restart
  | agent
  /-- FRR starts too, with what `boot` returns. -/
  | boot (want : Identity) (nonce : String) (readable : Bool) (now : Int) (online : Bool)

def Restart.node (host : Host) (n : Node) : Restart → Node
  | .agent => n
  | .boot want nonce readable now online => Node.booted (Activator.boot host n want nonce readable now online)

/-- A restart and the call after it: a resume, or a redelivery. -/
structure Attempt where
  restart : Restart
  resumes : Bool
  env : Env

def Env.Unbroken (env : Env) : Prop := ∀ p, env.faults p = false

namespace Delivery

variable {host : Host} (d : Delivery host)

def attempt (n : Node) (a : Attempt) : Node :=
  if a.resumes then (Activator.resume host a.env (a.restart.node host n) d.req).1
  else (activate host a.env (a.restart.node host n) d.req).1

def after (attempts : List Attempt) : Node := attempts.foldl d.attempt d.node

def ending (attempts : List Attempt) (restart : Restart) (env : Env) : Out :=
  activate host env (restart.node host (d.after attempts)) d.req

/-- FRR runs the revision's configuration. -/
def OnNew (n : Node) : Prop := (host.normalize d.rendered).diff (host.normalize n.running) = []

/-- FRR runs the checkpoint the delivery found. -/
def OnOld (n : Node) : Prop :=
  ∀ cp, d.node.checkpoint = some cp → (host.normalize cp.config).diff (host.normalize n.running) = []

/-! ### The parts of a call, in a steady world -/

section Steady

variable {d} {n : Node} {env : Env} {rest : List Record}

section
variable (hsteady : env.Steady)

include hsteady

theorem append_steady (rec : Record) (k : Node → Out) :
    append env n rec k = k (n.journaled (n.journal.stamp (env.times rec.type) rec)) :=
  if_pos (hsteady.appends rec.type)

theorem checkpoint_steady (hid : n.identity = some d.id) (act : Activation) (rev : Revision)
    (rendered : String) (k : Node → Out) : checkpoint host env n d.req act rev rendered k =
      k { n with checkpoint := some (checkpointOf host env d.req act rev rendered d.id.nonce) } := by
  unfold checkpoint readIdentity
  rw [if_pos (hsteady.readsIdentity _), hid]
  dsimp only
  rw [if_pos hsteady.writes]

theorem runningDiff_steady (site : RunSite) (rendered : String) :
    runningDiff host env n site rendered = some ((host.normalize rendered).diff (host.normalize n.running)) :=
  if_pos (hsteady.runs site)

theorem readCheckpoint_steady : readCheckpoint env n = n.checkpoint := if_pos hsteady.readsCheckpoint

end

theorem At.journaled (h : d.At rest n) {rec : Record} (hrec : Stage d.act rec) (time : Int) :
    d.At (rest ++ [rec]) (n.journaled (n.journal.stamp time rec)) where
  chain := by
    rw [← append_assoc]
    exact h.chain.snoc rec time
  identity := h.identity
  stages := forall_mem_append.mpr ⟨h.stages, forall_mem_singleton.mpr hrec⟩

theorem At.congr {n' : Node} (h : d.At rest n) (hjournal : n'.journal = n.journal) (hid : n'.identity = n.identity) :
    d.At rest n' := ⟨hjournal ▸ h.chain, hid.trans h.identity, h.stages⟩

theorem At.last_accepted (h : d.At [] n) :
    ∃ i time, n.journal.lastForEpoch d.act.deploymentUID d.act.epoch = some (Journal.stamp i time d.acceptance) :=
  Chain.last (show Chain d.node.journal ([] ++ [d.acceptance]) n.journal from h.chain) rfl ⟨nofun, nofun⟩

theorem At.last_stage {rec : Record} (h : d.At (rest ++ [rec]) n) :
    ∃ i time, n.journal.lastForEpoch d.act.deploymentUID d.act.epoch = some (Journal.stamp i time rec) := by
  have hrec := h.stages rec mem_concat_self
  have hchain : Chain d.node.journal ([d.acceptance] ++ rest ++ [rec]) n.journal := by
    rw [append_assoc]
    exact h.chain
  exact hchain.last hrec.activation ⟨hrec.source, hrec.rebind⟩

structure New (d : Delivery host) (n : Node) : Prop where
  journal : n.journal = d.node.journal
  identity : n.identity = some d.id
  checkpoint : n.checkpoint = d.node.checkpoint

theorem New.activate_eq (h : d.New n) (hsteady : env.Steady) :
    ∃ time, activate host env n d.req = fault env (n.journaled (n.journal.stamp time d.acceptance)) .afterAccepted
      (apply host env (n.journaled (n.journal.stamp time d.acceptance)) d.req d.rev d.rendered) := by
  have hadm : admitEpoch env n d.act = .ok false := by
    unfold admitEpoch
    rw [identity_checks hsteady h.identity, if_neg (by decide), h.journal, if_neg fun hb => d.serves.elim hb.1 hb.2]
    have hfresh := d.fresh
    cases hhigh : d.node.journal.highWater d.act.deploymentUID with
    | none => rfl
    | some high =>
      rw [hhigh] at hfresh
      exact if_pos (by simpa using hfresh)
  refine ⟨env.times .accepted, ?_⟩
  unfold activate
  rw [d.promotes]
  dsimp only
  rw [hadm]
  dsimp only
  unfold accept
  rw [render_own hsteady]
  dsimp only
  rw [if_pos hsteady.checks, append_steady hsteady, readCheckpoint_steady hsteady, h.checkpoint]
  rfl

theorem New.resume_eq (h : d.New n) (env : Env) : (Activator.resume host env n d.req).1 = n := by
  have hnone : n.journal.lastForEpoch d.act.deploymentUID d.act.epoch = none := by
    unfold Journal.lastForEpoch
    rw [find?_eq_none, h.journal]
    intro rec hrec
    simpa using unknown rec (mem_reverse.mp hrec)
  have hrefused : resumable n d.req.activation = .error .neverAccepted := by
    unfold resumable
    rw [hnone]
  unfold Activator.resume
  rw [d.promotes]
  dsimp only
  split_ifs
  · rw [hrefused]
  · rfl

theorem New.at_accepted (h : d.New n) (time : Int) : d.At [] (n.journaled (n.journal.stamp time d.acceptance)) := by
  refine ⟨?_, h.identity, fun _ hr => nomatch hr⟩
  unfold Node.journaled
  rw [h.journal]
  exact Chain.nil.snoc d.acceptance time

theorem restart_keeps (hid : n.identity = some d.id) (r : Restart) :
    (r.node host n).journal = n.journal ∧ (r.node host n).checkpoint = n.checkpoint ∧
      (r.node host n).identity = some d.id := by
  cases r with
  | agent => exact ⟨rfl, rfl, hid⟩
  | boot want nonce readable now online =>
    obtain ⟨hjournal, -, hcp, hident⟩ := bindIdentity_frame n want nonce
    obtain ⟨hj, -, hc, hi⟩ := booted_frame (boot host n want nonce readable now online)
    rw [boot_node] at hj hc hi
    exact ⟨hj.trans hjournal, hc.trans hcp, hi.trans (hident d.id hid)⟩

theorem At.restart (h : d.At rest n) (r : Restart) : d.At rest (r.node host n) :=
  h.congr (restart_keeps h.identity r).1 ((restart_keeps h.identity r).2.2.trans h.identity.symm)

theorem booted_running (out : Node × Option String) : (Node.booted out).running = out.2.getD out.1.running := by
  unfold Node.booted
  cases out.2 <;> rfl

theorem restart_runs (n : Node) (r : Restart) :
    (r.node host n).running = n.running ∨ ∃ cp, n.checkpoint = some cp ∧ (r.node host n).running = cp.config := by
  cases r with
  | agent => exact .inl rfl
  | boot want nonce readable now online =>
    have hbind : (bindIdentity n want nonce).1.running = n.running := by
      unfold bindIdentity
      cases n.identity with
      | none | some got => dsimp only; split_ifs <;> rfl
    have hrun : ((Restart.boot want nonce readable now online).node host n).running =
        (boot host n want nonce readable now online).2.getD n.running := by
      rw [← hbind, ← boot_node host n want nonce readable now online]
      exact booted_running _
    rw [hrun]
    cases hboot : (boot host n want nonce readable now online).2 with
    | none => exact .inl rfl
    | some config =>
      obtain ⟨cp, hcp, hconfig, -, -⟩ := boot_some hboot
      exact .inr ⟨cp, hcp, hconfig.symm⟩

end Steady

end Delivery

end Galactic.Activator
