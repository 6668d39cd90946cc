import Galactic.Activator.Stages

/-!
# The moves of a call

Whatever the world answers and wherever the process crashes, a call takes the node through `Move`s: a record appended, a
reload, an observation, a checkpoint, each under the guard the code has established by then. -/

namespace Galactic.Activator
open List Option Except

/-- The newest record of the activation's epoch is its own, of the given type. -/
def Node.At (n : Node) (act : Activation) (type : RecordType) : Prop :=
  ∃ rec, n.journal.lastForEpoch act.deploymentUID act.epoch = some rec ∧ rec.type = type ∧ rec.activation = act

def Node.Named (n : Node) (act : Activation) : Prop :=
  ∃ id, n.identity = some id ∧ act.nodeUID = id.nodeUID ∧ act.clusterID = id.clusterID

def Journal.Serves (j : Journal) (act : Activation) : Prop :=
  j.boundDeployment = "" ∨ j.boundDeployment = act.deploymentUID

def Journal.Fixes (j : Journal) (act : Activation) (target : Revision) : Prop :=
  ∀ journaled, (j.accepted act.deploymentUID act.epoch).bind Record.recovery = some journaled →
    target.name = journaled.targetRevision ∧ target.activationDependencyDigest = journaled.targetDigest

def Activation.Promotes (act : Activation) (rev : Revision) : Prop :=
  rev.name = act.revision ∧ rev.activationDependencyDigest = act.dependencyHash

/-- FRR was seen to run the revision, healthy through the stabilization window of the request. -/
def Deed.Observes (host : Host) (act : Activation) (d : Deed) : Prop :=
  ∃ running req polled polls rendered, d.kind = .observed running req polled polls ∧ d.activation = act ∧
    req.activation = act ∧ act.Promotes d.revision ∧ host.verify d.revision = .ok rendered ∧
    (host.normalize rendered).diff (host.normalize running) = [] ∧
    stabilize (polled + req.settings.stabilization) polls = .healthy

def Deed.Vets (host : Host) (act : Activation) (target : Revision) (d : Deed) : Prop :=
  ∃ req, d.kind = .eligible req ∧ d.activation = act ∧ d.revision = target ∧ req.activation = act ∧
    eligible host req = .ok target

/-- A checkpoint that a request of the activation writes of a revision running as `as_`. -/
def Written (host : Host) (n : Node) (act as_ : Activation) (rev : Revision) (cp : Checkpoint) : Prop :=
  ∃ (req : Request) (env : Env) (rendered : String) (id : Identity), req.activation = act ∧ n.identity = some id ∧
    host.verify rev = .ok rendered ∧ cp = checkpointOf host env req as_ rev rendered id.nonce

/-- One move of a call for `act`, whose own revision is `own`. -/
inductive Move (host : Host) (act : Activation) (own : Revision) : Node → Node → Prop
  | accepted (n : Node) (rec : Record) (htype : rec.type = .accepted) (hact : rec.activation = act)
      (hrec : rec.recovery.isSome) (hfresh : (n.journal.highWater act.deploymentUID).all (· < act.epoch) = true)
      (hserves : n.journal.Serves act) (hnamed : n.Named act) : Move host act own n (n.journaled rec)
  | reloadOwn (n : Node) (running : String) (hat : n.At act .accepted) (hown : act.Promotes own)
      (hnamed : n.Named act) :
      Move host act own n { n.did (.reload .own) act own with running := running }
  | applied (n : Node) (rec : Record) (htype : rec.type = .applied) (hact : rec.activation = act)
      (hat : n.At act .accepted) : Move host act own n (n.journaled rec)
  | failed (n : Node) (rec : Record) (htype : rec.type = .applyFailed) (hact : rec.activation = act)
      (hat : n.At act .accepted ∨ n.At act .applied) : Move host act own n (n.journaled rec)
  | observed (n : Node) (req : Request) (polled : Int) (polls : List Poll)
      (hseen : Deed.Observes host act ⟨.observed n.running req polled polls, act, own, n.journal.length⟩) :
      Move host act own n (n.did (.observed n.running req polled polls) act own)
  | committed (n : Node) (rec : Record) (htype : rec.type = .committed) (hact : rec.activation = act)
      (hat : n.At act .applied) (hseen : ∃ d ∈ n.deeds, d.Observes host act) : Move host act own n (n.journaled rec)
  | checkpoint (n : Node) (cp : Checkpoint) (hat : n.At act .committed) (hown : act.Promotes own) (hnamed : n.Named act)
      (hcp : Written host n act act own cp) : Move host act own n { n with checkpoint := some cp }
  | eligible (n : Node) (target : Revision) (req : Request) (hat : n.At act .applyFailed) (hreq : req.activation = act)
      (htarget : eligible host req = .ok target) : Move host act own n (n.did (.eligible req) act target)
  | reloadTarget (n : Node) (running : String) (target : Revision) (hat : n.At act .applyFailed)
      (hseen : ∃ d ∈ n.deeds, d.Vets host act target) (hfixed : n.journal.Fixes act target) (hnamed : n.Named act) :
      Move host act own n { n.did (.reload .target) act target with running := running }
  | restored (n : Node) (cp : Checkpoint) (target : Revision) (hat : n.At act .applyFailed) (hnamed : n.Named act)
      (hseen : ∃ d ∈ n.deeds, d.Vets host act target)
      (hreloaded : ∃ d ∈ n.deeds, d.kind = .reload .target ∧ d.activation = act ∧ d.revision = target)
      (hcp : Written host n act
        { act with revision := target.name, dependencyHash := target.activationDependencyDigest } target cp) :
      Move host act own n { n with checkpoint := some cp }
  | recovered (n : Node) (rec : Record) (htype : rec.type = .recovered) (hact : rec.activation = act)
      (hat : n.At act .applyFailed) : Move host act own n (n.journaled rec)

abbrev Moves (host : Host) (act : Activation) (own : Revision) : Node → Node → Prop :=
  Relation.ReflTransGen (Move host act own)

/-! ### The questions a move's guard asks, after a move -/

variable {host : Host} {env : Env} {n : Node} {act : Activation} {own target : Revision} {rec : Record} {req : Request}

theorem Node.at_journaled {type : RecordType} (htype : rec.type = type) (hact : rec.activation = act)
    (hstage : type ≠ .source ∧ type ≠ .rebind) : (n.journaled rec).At act type :=
  ⟨rec, lastForEpoch_append_self ⟨by rw [hact], by rw [hact], htype ▸ hstage⟩, htype, hact⟩

theorem accepted_append_of_not (h : rec.type ≠ .accepted) (j : Journal) (deploymentUID : String) (epoch : Int) :
    Journal.accepted (j ++ [rec]) deploymentUID epoch = j.accepted deploymentUID epoch := by
  unfold Journal.accepted
  rw [find?_append]
  cases j.find? fun rec => rec.accepts deploymentUID ∧ rec.activation.epoch = epoch with
  | some r => rfl
  | none =>
    have hnot : ¬ rec.accepts deploymentUID := fun hacc => h hacc.1
    simp [hnot]

variable {j : Journal}

theorem Journal.Fixes.append (h : j.Fixes act target) (hrec : rec.type ≠ .accepted) :
    Journal.Fixes (j ++ [rec]) act target := by
  intro journaled hj
  rw [accepted_append_of_not hrec] at hj
  exact h journaled hj

theorem accepted_append_self (htype : rec.type = .accepted) (hact : rec.activation = act)
    (hfresh : (j.highWater act.deploymentUID).all (· < act.epoch)) :
    Journal.accepted (j ++ [rec]) act.deploymentUID act.epoch = some rec := by
  unfold Journal.accepted
  rw [find?_append, find?_eq_none.mpr, none_or]
  · simp [Record.accepts, htype, hact]
  intro r hr hmatch
  have hmatch : r.accepts act.deploymentUID ∧ r.activation.epoch = act.epoch := by simpa using hmatch
  have := lt_of_highWater hfresh r hr hmatch.1
  omega

theorem fixes_accepted {recovery : Recovery} (htype : rec.type = .accepted) (hact : rec.activation = act)
    (hrecovery : rec.recovery = some recovery) (hfresh : (n.journal.highWater act.deploymentUID).all (· < act.epoch))
    (hname : target.name = recovery.targetRevision)
    (hdigest : target.activationDependencyDigest = recovery.targetDigest) :
    (n.journaled rec).journal.Fixes act target := by
  intro journaled hj
  unfold Node.journaled at hj
  rw [accepted_append_self htype hact hfresh, bind_some, hrecovery] at hj
  rw [← some.inj hj]
  exact ⟨hname, hdigest⟩

/-! ### Rules for the parts of a call -/

section
variable {rest : Node → Out} {rev : Revision} {rendered : String}

theorem append_moves (hmove : Move host act own n (n.journaled (n.journal.stamp (env.times rec.type) rec)))
    (hrest : Moves host act own (n.journaled (n.journal.stamp (env.times rec.type) rec))
      (rest (n.journaled (n.journal.stamp (env.times rec.type) rec))).1) :
    Moves host act own n (append env n rec rest).1 := by
  unfold append
  split_ifs
  · exact .head hmove hrest
  · exact .refl

theorem fault_moves {point : FaultPoint} {rest : Out} (hrest : Moves host act own n rest.1) :
    Moves host act own n (fault env n point rest).1 := by
  unfold fault
  split_ifs
  · exact .refl
  · exact hrest

theorem checkpoint_moves {as_ : Activation} (hmove : ∀ id, n.identity = some id →
      Move host act own n { n with checkpoint := some (checkpointOf host env req as_ rev rendered id.nonce) })
    (hrest : ∀ id, Moves host act own { n with checkpoint := some (checkpointOf host env req as_ rev rendered id) }
      (rest { n with checkpoint := some (checkpointOf host env req as_ rev rendered id) }).1) :
    Moves host act own n (checkpoint host env n req as_ rev rendered rest).1 := by
  unfold checkpoint
  split
  · exact .refl
  rename_i id hread
  have hid : n.identity = some id := by
    unfold readIdentity at hread
    split_ifs at hread
    exact hread
  split_ifs
  · exact .head (hmove id hid) (hrest id.nonce)
  · exact .refl

theorem verify_of_render {which : Which} (h : render host env which rev = .ok rendered) :
    host.verify rev = .ok rendered := by
  unfold render at h
  split at h
  · cases h
  · rename_i config hconfig
    split_ifs at h
    rw [hconfig, ok.inj h]

theorem eligible_ok (h : eligible host req = .ok target) :
    req.recoveryRevision = some target ∧ req.recovery.retired = false ∧ req.recovery.targetRevision ≠ "" ∧
      target.name = req.recovery.targetRevision ∧ target.activationDependencyDigest = req.recovery.targetDigest := by
  unfold eligible at h
  cases hrev : req.recoveryRevision with
  | none =>
    rw [hrev] at h
    split_ifs at h
  | some rev =>
    rw [hrev] at h
    dsimp only at h
    split_ifs at h with hretired hnone hname hdigest
    have htarget : rev = target := by
      unfold eligibleTarget at h
      split_ifs at h
      split at h
      · cases h
      · split at h
        · cases h
        · exact ok.inj h
    subst htarget
    exact ⟨rfl, by simpa using hretired, hnone, not_not.mp hname, not_not.mp hdigest⟩

theorem checkRevision_ok (h : checkRevision req = .ok rev) : req.activation.Promotes rev := by
  unfold checkRevision at h
  split at h
  · cases h
  · split_ifs at h with hrev
    cases h
    exact ⟨hrev.2, hrev.1⟩

end

theorem named_of_checkIdentity {site : IdentitySite} (h : checkIdentity env n site act) : n.Named act := by
  obtain ⟨-, -, -, hany⟩ := of_decide_eq_true h
  unfold readIdentity at hany
  split_ifs at hany
  · obtain ⟨id, hid, hany⟩ := (any_eq_true _ _).mp hany
    exact ⟨id, hid, of_decide_eq_true hany⟩
  · cases hany

/-! ### Recovering -/

section
variable (hreq : req.activation = act) (hnamed : n.Named act)
  (hfixed : ∀ target, eligible host req = .ok target → n.journal.Fixes act target)

include hreq hnamed hfixed

theorem recover_moves (hat : n.At act .applyFailed) (detail : String) :
    Moves host act own n (recover host env n req detail).1 := by
  unfold recover
  split
  · exact .refl
  rename_i target htarget
  rw [hreq]
  refine .head (.eligible n target req hat hreq htarget) (fault_moves ?_)
  have hseen : ∃ d ∈ (n.did (.eligible req) act target).deeds, d.Vets host act target :=
    ⟨_, mem_concat_self, req, rfl, rfl, rfl, hreq, htarget⟩
  unfold restore
  split
  · exact .refl
  rename_i rendered hrender
  have hreload : Move host act own (n.did (.eligible req) act target)
      (reload env (n.did (.eligible req) act target) .target act target) :=
    .reloadTarget _ _ target hat hseen (hfixed target htarget) hnamed
  rw [hreq]
  split
  · exact .single hreload
  · exact .single hreload
  refine .head hreload (checkpoint_moves (fun id hid => ?_) fun id => fault_moves (append_moves ?_ .refl))
  · have has : req.restored target =
        { act with revision := target.name, dependencyHash := target.activationDependencyDigest } := by
      unfold Request.restored
      rw [hreq, (eligible_ok htarget).2.2.2.2]
    rw [has]
    refine .restored _ _ target hat hnamed ?_ ?_ ⟨req, env, rendered, id, hreq, hid, verify_of_render hrender, rfl⟩
    · obtain ⟨d, hd, hrest⟩ := hseen
      exact ⟨d, mem_append_left _ hd, hrest⟩
    · exact ⟨_, mem_concat_self, rfl, rfl, rfl⟩
  · exact .recovered _ _ rfl hreq hat

theorem failWith_moves (hat : n.At act .accepted ∨ n.At act .applied) (journaled detail : String) :
    Moves host act own n (failWith host env n req journaled detail).1 := by
  refine append_moves (.failed _ _ rfl hreq hat)
    (recover_moves (n := n.journaled _) hreq hnamed (fun target htarget => ?_) ?_ detail)
  · exact (hfixed target htarget).append nofun
  · exact Node.at_journaled rfl hreq ⟨nofun, nofun⟩

/-! ### Applying -/

variable {rendered : String}

theorem observeAndCommit_moves (hat : n.At act .applied) (hown : act.Promotes own)
    (hrender : host.verify own = .ok rendered) :
    Moves host act own n (observeAndCommit host env n req own rendered).1 := by
  have hfail : ∀ detail, Moves host act own n (fail host env n req detail).1 := fun detail =>
    failWith_moves hreq hnamed hfixed (.inr hat) detail detail
  unfold observeAndCommit
  split
  · exact .refl
  · exact hfail _
  rename_i hdiff
  split
  · exact .refl
  · exact hfail _
  rename_i hhealthy
  unfold commit
  rw [hreq]
  have hsame : (host.normalize rendered).diff (host.normalize n.running) = [] := by
    unfold runningDiff at hdiff
    split_ifs at hdiff
    exact some.inj hdiff
  have hseen : Deed.Observes host act ⟨.observed n.running req env.polled env.polls, act, own, n.journal.length⟩ :=
    ⟨_, req, _, _, rendered, rfl, rfl, hreq, hown, hrender, hsame, hhealthy⟩
  refine .head (.observed n req _ _ hseen)
    (append_moves ?_ (fault_moves (checkpoint_moves (fun id hid => ?_) fun _ => .refl)))
  · exact .committed _ _ rfl rfl hat ⟨_, mem_concat_self, hseen⟩
  · exact .checkpoint _ _ (Node.at_journaled rfl rfl ⟨nofun, nofun⟩) hown hnamed
      ⟨req, env, rendered, id, hreq, hid, hrender, rfl⟩

theorem apply_moves (hat : n.At act .accepted) (hown : act.Promotes own) (hrender : host.verify own = .ok rendered) :
    Moves host act own n (apply host env n req own rendered).1 := by
  have hreload : Move host act own n (reload env n .own req.activation own) := by
    rw [hreq]
    exact .reloadOwn n _ hat hown hnamed
  unfold apply
  split
  · exact .single hreload
  · exact .head hreload (failWith_moves (n := reload env n .own req.activation own) hreq hnamed hfixed (.inl hat) _ _)
  refine .head hreload (fault_moves (append_moves (.applied _ _ rfl hreq hat) (fault_moves ?_)))
  refine observeAndCommit_moves (n := (reload env n .own req.activation own).journaled _) hreq hnamed
    (fun target htarget => ?_) (Node.at_journaled rfl hreq ⟨nofun, nofun⟩) hown hrender
  exact (hfixed target htarget).append nofun

end

/-! ### Calls -/

theorem merged_activation (req : Request) (j : Journal) : (req.merged j).activation = req.activation := by
  unfold Request.merged
  split <;> rfl

theorem merged_fixed (hreq : req.activation = act) (htarget : eligible host (req.merged j) = .ok target) :
    j.Fixes act target := by
  intro journaled hj
  have hel := eligible_ok htarget
  unfold Request.merged at hel
  rw [hreq, hj] at hel
  exact ⟨hel.2.2.2.1, hel.2.2.2.2⟩

theorem resumable_ok (h : resumable n act = .ok rec) :
    n.At act rec.type ∧ n.journal.lastForEpoch act.deploymentUID act.epoch = some rec := by
  unfold resumable at h
  split at h
  · cases h
  rename_i r hr
  split_ifs at h with hstale hact
  obtain rfl := ok.inj h
  exact ⟨⟨r, hr, rfl, not_not.mp hact⟩, hr⟩

variable {rev : Revision}

theorem resume_moves (hrev : checkRevision req = .ok rev) :
    Moves host req.activation rev n (resume host env n req).1 := by
  have hown := checkRevision_ok hrev
  unfold resume
  rw [hrev]
  dsimp only
  split_ifs with hid
  · split
    · exact .refl
    rename_i rec hrec
    split
    · exact .refl
    rename_i rendered hrender
    have hnamed := named_of_checkIdentity hid
    have hat := (resumable_ok hrec).1
    have hverify := verify_of_render hrender
    have hreq := merged_activation req n.journal
    have hfixed : ∀ target, eligible host (req.merged n.journal) = .ok target →
        n.journal.Fixes req.activation target := fun target htarget => merged_fixed rfl htarget
    unfold resumeFrom
    generalize rec.type = type at hat ⊢
    cases type with
    | committed =>
      show Moves host req.activation rev n (resumeCommitted host env n (req.merged n.journal) rev rendered).1
      unfold resumeCommitted
      split_ifs
      · exact .refl
      · refine checkpoint_moves (fun id hid => ?_) fun _ => .refl
        rw [hreq]
        exact .checkpoint n _ hat hown hnamed ⟨_, env, rendered, id, hreq, hid, hverify, rfl⟩
    | recovered | source | rebind => exact .refl
    | applyFailed => exact recover_moves hreq hnamed hfixed hat _
    | applied => exact observeAndCommit_moves hreq hnamed hfixed hat hown hverify
    | accepted =>
      show Moves host req.activation rev n (resumeAccepted host env n (req.merged n.journal) rev rendered rec).1
      unfold resumeAccepted
      split
      · exact .refl
      · refine append_moves (.applied n _ rfl hreq hat)
          (observeAndCommit_moves (n := n.journaled _) hreq hnamed
            (fun target htarget => ?_) (Node.at_journaled rfl hreq ⟨nofun, nofun⟩) hown hverify)
        exact (hfixed target htarget).append nofun
      · split_ifs
        · exact apply_moves hreq hnamed hfixed hat hown hverify
        · exact failWith_moves hreq hnamed hfixed (.inl hat) _ _
  · exact .refl

theorem admitEpoch_new (h : admitEpoch env n act = .ok false) :
    n.Named act ∧ n.journal.Serves act ∧ (n.journal.highWater act.deploymentUID).all (· < act.epoch) := by
  unfold admitEpoch at h
  split at h
  · cases h
  next hid =>
  split at h
  · cases h
  next hbound =>
  refine ⟨named_of_checkIdentity (by simpa using hid), ?_, ?_⟩
  · unfold Journal.Serves
    by_contra hnot
    exact hbound (not_or.mp hnot)
  split at h
  · rename_i hhigh
    rw [hhigh]
    rfl
  rename_i high hhigh
  rw [hhigh]
  split_ifs at h with hlt
  · simpa using hlt
  · exact Bool.noConfusion (ok.inj h)

theorem accept_moves (hown : req.activation.Promotes rev) (hadm : admitEpoch env n req.activation = .ok false) :
    Moves host req.activation rev n (accept host env n req rev).1 := by
  obtain ⟨hnamed, hserves, hfresh⟩ := admitEpoch_new hadm
  unfold accept
  split
  · exact .refl
  rename_i rendered hrender
  split_ifs
  · refine append_moves (.accepted n _ rfl rfl rfl hfresh hserves hnamed) (fault_moves ?_)
    refine apply_moves (n := n.journaled _) rfl hnamed (fun target htarget => ?_)
      (Node.at_journaled rfl rfl ⟨nofun, nofun⟩) hown (verify_of_render hrender)
    exact fixes_accepted rfl rfl rfl hfresh (eligible_ok htarget).2.2.2.1 (eligible_ok htarget).2.2.2.2
  · exact .refl

theorem activate_moves (hrev : checkRevision req = .ok rev) :
    Moves host req.activation rev n (activate host env n req).1 := by
  unfold activate
  rw [hrev]
  dsimp only
  split
  · exact accept_moves (checkRevision_ok hrev) ‹_›
  · exact resume_moves hrev
  · split_ifs
    · exact resume_moves hrev
    · exact .refl
  · exact .refl

end Galactic.Activator
