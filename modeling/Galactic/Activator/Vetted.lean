import Galactic.Activator.Replay

/-!
# What boot restores

The checkpoint is written of a revision that was committed, or that `recover` restored after the eligibility check, and
`boot` returns it only when the newest accepted recovery revokes nothing it originates and no credential it uses. -/

namespace Galactic.Activator

open Net List Option

/-! ### Revocation -/

variable {host : Host} {n n' : Node} {act : Activation} {own : Revision}

def Node.Committed (host : Host) (n : Node) (act : Activation) : Prop :=
  (∃ rec ∈ n.journal, rec.type = .committed ∧ rec.activation = act) ∧ ∃ d ∈ n.deeds, d.Observes host act

/-- The revision was restored, running as the activation, for one that failed: it passed the eligibility check, and FRR
was reloaded with it. -/
def Node.Restored (host : Host) (n : Node) (act : Activation) (rev : Revision) : Prop :=
  ∃ failed : Activation,
    act = { failed with revision := rev.name, dependencyHash := rev.activationDependencyDigest } ∧
    (∃ rec ∈ n.journal, rec.type = .applyFailed ∧ rec.activation = failed) ∧ (∃ d ∈ n.deeds, d.Vets host failed rev) ∧
    ∃ d ∈ n.deeds, d.kind = .reload .target ∧ d.activation = failed ∧ d.revision = rev

def Node.Owns (n : Node) (cp : Checkpoint) : Prop :=
  ∃ id, n.identity = some id ∧ cp.nonce = id.nonce ∧ cp.activation.nodeUID = id.nodeUID ∧
    cp.activation.clusterID = id.clusterID

/-- The checkpoint holds what it says of the revision: its configuration, its originations, and the UIDs of its
credentials as a request for the checkpoint's own epoch resolved them. -/
structure Checkpoint.Describes (host : Host) (cp : Checkpoint) (rev : Revision) (req : Request) : Prop where
  config : host.verify rev = .ok cp.config
  activation : cp.activation =
    { req.activation with revision := rev.name, dependencyHash := rev.activationDependencyDigest }
  originates : cp.originates = originations rev
  credentials : cp.credentialUIDs = (credentialNames rev).map fun name => (req.credential name).getD ""
  resolved : cp.requiresAPI = false → ∀ name ∈ credentialNames rev, (req.credential name).isSome

def Checkpoint.Vetted (host : Host) (n : Node) (cp : Checkpoint) : Prop :=
  n.Owns cp ∧ ∃ rev req, cp.Describes host rev req ∧
    (n.Committed host cp.activation ∨ n.Restored host cp.activation rev)

/-- Every commit was observed, and the checkpoint is vetted. -/
structure Checked (host : Host) (n : Node) : Prop where
  observed : ∀ rec ∈ n.journal, rec.type = .committed → ∃ d ∈ n.deeds, d.Observes host rec.activation
  vetted : ∀ cp, n.checkpoint = some cp → cp.Vetted host n

structure Grown (n n' : Node) : Prop where
  journal : ∀ rec ∈ n.journal, rec ∈ n'.journal
  deeds : ∀ d ∈ n.deeds, d ∈ n'.deeds
  identity : ∀ id, n.identity = some id → n'.identity = some id

theorem Checkpoint.Vetted.grown {cp : Checkpoint} (h : cp.Vetted host n) (hg : Grown n n') : cp.Vetted host n' := by
  obtain ⟨⟨id, hid, hid'⟩, rev, req, hdesc, hfrom⟩ := h
  refine ⟨⟨id, hg.identity id hid, hid'⟩, rev, req, hdesc, ?_⟩
  rcases hfrom with ⟨⟨rec, hrec, hrec'⟩, d, hd, hd'⟩ | ⟨failed, hact, ⟨rec, hrec, hrec'⟩, ⟨d, hd, hd'⟩, e, he, he'⟩
  · exact .inl ⟨⟨rec, hg.journal rec hrec, hrec'⟩, d, hg.deeds d hd, hd'⟩
  · exact .inr ⟨failed, hact, ⟨rec, hg.journal rec hrec, hrec'⟩, ⟨d, hg.deeds d hd, hd'⟩, e, hg.deeds e he, he'⟩

theorem Grown.journaled (n : Node) (rec : Record) : Grown n (n.journaled rec) :=
  ⟨fun _ h => mem_append_left _ h, fun _ h => h, fun _ h => h⟩

theorem Grown.did (n : Node) (kind : DeedKind) (act : Activation) (rev : Revision) (running : String) :
    Grown n { n.did kind act rev with running := running } :=
  ⟨fun _ h => h, fun _ h => mem_append_left _ h, fun _ h => h⟩

variable {rec : Record}

theorem Checked.journaled (h : Checked host n)
    (hobs : rec.type = .committed → ∃ d ∈ n.deeds, d.Observes host rec.activation) :
    Checked host (n.journaled rec) where
  observed := forall_mem_append.mpr ⟨h.observed, forall_mem_singleton.mpr hobs⟩
  vetted := fun cp hcp => (h.vetted cp hcp).grown (Grown.journaled n rec)

theorem Checked.did (h : Checked host n) (kind : DeedKind) (act : Activation) (rev : Revision) (running : String) :
    Checked host { n.did kind act rev with running := running } where
  observed := by
    intro r hr htype
    obtain ⟨d, hd, hobs⟩ := h.observed r hr htype
    exact ⟨d, mem_append_left _ hd, hobs⟩
  vetted := fun cp hcp => (h.vetted cp hcp).grown (Grown.did n kind act rev running)

variable {env : Env} {req : Request} {rev : Revision} {rendered nonce : String}

theorem checkpointOf_describes (hverify : host.verify rev = .ok rendered)
    (hact : act = { req.activation with revision := rev.name, dependencyHash := rev.activationDependencyDigest }) :
    (checkpointOf host env req act rev rendered nonce).Describes host rev req where
  config := hverify
  activation := hact
  originates := rfl
  credentials := rfl
  resolved := by
    intro hapi name hname
    obtain ⟨-, hany⟩ := Bool.or_eq_false_iff.mp hapi
    have := any_eq_false.mp hany name hname
    simpa [isNone_iff_eq_none, isSome_iff_ne_none] using this

theorem Node.Owns.of_named {as_ : Activation} {id : Identity} (hid : n.identity = some id) (hnamed : n.Named act)
    (hnode : as_.nodeUID = act.nodeUID) (hcluster : as_.clusterID = act.clusterID) :
    n.Owns (checkpointOf host env req as_ rev rendered id.nonce) := by
  obtain ⟨id', hid', hn, hc⟩ := hnamed
  obtain rfl : id = id' := mem_unique hid hid'
  exact ⟨id, hid, rfl, hnode.trans hn, hcluster.trans hc⟩

theorem Node.At.record {type : RecordType} (h : n.At act type) :
    ∃ rec ∈ n.journal, rec.type = type ∧ rec.activation = act := by
  obtain ⟨rec, hlast, hrest⟩ := h
  exact ⟨rec, (lastForEpoch_some hlast).1, hrest⟩

theorem Move.checked (h : Checked host n) (hmove : Move host act own n n') : Checked host n' := by
  cases hmove with
  | accepted rec htype | applied rec htype | failed rec htype | recovered rec htype =>
    exact h.journaled fun hc => nomatch htype.symm.trans hc
  | committed rec htype hact hat hseen =>
    refine h.journaled fun _ => ?_
    rw [hact]
    exact hseen
  | reloadOwn running | reloadTarget running target => exact h.did _ _ _ running
  | observed req polled polls | eligible target req => exact h.did _ _ _ n.running
  | checkpoint cp hat hown hnamed hcp =>
    refine ⟨h.observed, fun cp' hcp' => ?_⟩
    cases hcp'
    obtain ⟨req, env, rendered, id, hreq, hid, hverify, rfl⟩ := hcp
    obtain ⟨rec, hrec, htype, hact⟩ := hat.record
    obtain ⟨d, hd, hobs⟩ := h.observed rec hrec htype
    rw [hact] at hobs
    refine ⟨Node.Owns.of_named hid hnamed rfl rfl, own, req, checkpointOf_describes hverify ?_,
      .inl ⟨⟨rec, hrec, htype, hact⟩, d, hd, hobs⟩⟩
    rw [hreq, hown.1, hown.2]
  | restored cp target hat hnamed hseen hreloaded hcp =>
    refine ⟨h.observed, fun cp' hcp' => ?_⟩
    cases hcp'
    obtain ⟨req, env, rendered, id, hreq, hid, hverify, rfl⟩ := hcp
    exact ⟨Node.Owns.of_named hid hnamed rfl rfl, target, req, checkpointOf_describes hverify (by rw [hreq]),
      .inr ⟨act, rfl, hat.record, hseen, hreloaded⟩⟩

theorem Moves.checked (h : Checked host n) (hmoves : Moves host act own n n') : Checked host n' := by
  induction hmoves with
  | refl => exact h
  | tail _ hmove ih => exact hmove.checked ih

/-! ### Steps and runs -/

theorem Checked.frame (h : Checked host n) (hjournal : n'.journal = n.journal) (hdeeds : n'.deeds = n.deeds)
    (hcheckpoint : n'.checkpoint = n.checkpoint) (hid : ∀ id, n.identity = some id → n'.identity = some id) :
    Checked host n' := by
  refine ⟨?_, fun cp hcp => ?_⟩
  · rw [hjournal, hdeeds]
    exact h.observed
  · rw [hcheckpoint] at hcp
    exact (h.vetted cp hcp).grown ⟨by rw [hjournal]; exact fun _ h => h, by rw [hdeeds]; exact fun _ h => h, hid⟩

theorem Checked.appended (h : Checked host n) (htype : rec.type ≠ .committed) (writes : Bool) (time : Int) :
    Checked host (n.appended rec writes time) := by
  unfold Node.appended
  split_ifs
  · exact h.journaled fun hc => absurd hc htype
  · exact h

theorem step_checked (h : Checked host n) (e : Event) : Checked host (n.step host e) := by
  rcases step_cases host n e with ⟨_, _, hmoves, -⟩ | ⟨rec, writes, time, htype, heq⟩ | ⟨hjournal, hdeeds, hcp, hid⟩
  · exact Moves.checked h hmoves
  · rw [heq]
    refine h.appended (fun hc => ?_) writes time
    rcases htype with htype | htype <;> exact nomatch hc.symm.trans htype
  · exact h.frame hjournal hdeeds hcp hid

theorem Checked.start (host : Host) : Checked host Node.start := ⟨fun _ hr => (nomatch hr), fun _ hcp => (nomatch hcp)⟩

theorem run_checked (h : Checked host n) (events : List Event) : Checked host (n.run host events) :=
  foldlRecOn events _ h fun _ h e _ => step_checked h e

theorem boot_some {want : Identity} {readable : Bool} {now : Int} {online : Bool} {config : String}
    (h : (boot host n want nonce readable now online).2 = some config) :
    ∃ cp, n.checkpoint = some cp ∧ cp.config = config ∧ cp.requiresAPI = false ∧ allowed n.journal cp := by
  obtain ⟨hjournal, -, hcp, -⟩ := bindIdentity_frame n want nonce
  unfold boot at h
  split at h
  · cases h
  rename_i m recorded hbind
  rw [hbind] at hjournal hcp
  split at h
  · cases h
  rename_i cp hread
  have hsome : m.checkpoint = some cp := by
    split_ifs at hread
    exact hread
  dsimp only at h
  split_ifs at h with hbootable
  have hall := of_decide_eq_true hbootable
  refine ⟨cp, hcp.symm.trans hsome, some.inj h, hall.2.2.2.2.2.1, ?_⟩
  rw [← hjournal]
  exact hall.2.2.2.2.2.2.2

def committedRun : List Event :=
  [.bind machine "nonce", .activate (calmEnv "config of r1" "") (requestOf "d1" 1 "r1" "r0")]

end Galactic.Activator
