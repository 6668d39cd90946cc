import Galactic.Activator.Vetted

/-!
# Redelivering an activation

Once an epoch is accepted, its journal is the one it was accepted on with the epoch's own records after it. From such a
journal the replay rules let the same request through, and a call is the continuation of the newest record. -/

namespace Galactic.Activator

open Net List Record Journal Option Bool

/-! ### Texts -/

theorem Config.lacks_self (sign : String) (c : Config) : Config.lacks sign c c = [] := by
  unfold Config.lacks
  rw [flatMap_eq_nil_iff]
  intro ctx hctx
  cases hlines : c.lines ctx with
  | none =>
    obtain ⟨e, he, rfl⟩ := mem_map.mp (mem_mergeSort.mp hctx)
    have := find?_eq_none.mp (map_eq_none_iff.mp hlines) e he
    exact absurd (decide_eq_true rfl) this
  | some lines =>
    rw [getD_some, flatMap_eq_nil_iff]
    intro l _
    rw [Nat.sub_self]
    rfl

theorem Config.diff_self (c : Config) : c.diff c = [] := by
  unfold Config.diff
  rw [Config.lacks_self, Config.lacks_self]
  rfl

/-! ### Merging a recovery with itself -/

theorem union_of_subset {α : Type} [DecidableEq α] (a b : List α) (h : ∀ s ∈ b, s ∈ a) : union a b = a := by
  unfold union
  induction b with
  | nil => rfl
  | cons s b ih =>
    rw [foldl_cons, if_pos (h s mem_cons_self)]
    exact ih fun s' hs' => h s' (mem_cons_of_mem _ hs')

theorem mergeRecovery_self (rec : Recovery) : mergeRecovery rec rec = rec := by
  unfold mergeRecovery
  rw [union_of_subset _ _ fun _ h => h, union_of_subset _ _ fun _ h => h, Bool.or_self]

/-! ### Chains of records -/

section Chains

inductive Chain (j : Journal) : List Record → Journal → Prop
  | nil : Chain j [] j
  | snoc {recs : List Record} {j' : Journal} (h : Chain j recs j') (rec : Record) (time : Int) :
      Chain j (recs ++ [rec]) (j' ++ [j'.stamp time rec])

def Record.timeless (rec : Record) : Record := { rec with time := 0 }

variable {j j' j'' : Journal} {recs rest : List Record} {rec : Record} {act : Activation}

theorem Chain.snoc_inv (h : Chain j (recs ++ [rec]) j'') :
    ∃ j' time, Chain j recs j' ∧ j'' = j' ++ [j'.stamp time rec] := by
  generalize hall : recs ++ [rec] = all at h
  cases h with
  | nil => exact absurd hall (append_ne_nil_of_right_ne_nil _ (cons_ne_nil _ _))
  | snoc h rec' time =>
    obtain ⟨rfl, heq⟩ := append_inj' hall rfl
    obtain rfl : rec = rec' := head_eq_of_cons_eq heq
    exact ⟨_, time, h, rfl⟩

theorem Chain.nil_inv (h : Chain j [] j') : j' = j := by
  generalize hall : ([] : List Record) = all at h
  cases h with
  | nil => rfl
  | snoc _ _ _ => exact absurd hall.symm (append_ne_nil_of_right_ne_nil _ (cons_ne_nil _ _))

theorem nextSeq_timeless (j : Journal) : nextSeq (j.map timeless) = j.nextSeq := by
  unfold nextSeq
  rw [getLast?_map, Option.map_map]
  rfl

theorem stamp_timeless {time time' : Int} (h : j'.map timeless = j''.map timeless) :
    (j'.stamp time rec).timeless = (j''.stamp time' rec).timeless := by
  unfold stamp timeless
  rw [← nextSeq_timeless j', h, nextSeq_timeless]

theorem Chain.timeless (h : Chain j recs j') (h' : Chain j recs j'') : j'.map timeless = j''.map timeless := by
  induction recs using List.reverseRecOn generalizing j' j'' with
  | nil => rw [h.nil_inv, h'.nil_inv]
  | append_singleton recs rec ih =>
    obtain ⟨i, time, hi, rfl⟩ := h.snoc_inv
    obtain ⟨i', time', hi', rfl⟩ := h'.snoc_inv
    have heq := ih hi hi'
    rw [map_append, map_append, heq, map_singleton, map_singleton, stamp_timeless heq]

theorem Chain.last (h : Chain j (recs ++ [rec]) j') (hact : rec.activation = act)
    (hstage : rec.type ≠ .source ∧ rec.type ≠ .rebind) :
    ∃ i time, j'.lastForEpoch act.deploymentUID act.epoch = some (stamp i time rec) := by
  obtain ⟨i, time, -, rfl⟩ := h.snoc_inv
  refine ⟨i, time, lastForEpoch_append_self ?_⟩
  exact ⟨congrArg Activation.deploymentUID hact, congrArg Activation.epoch hact, hstage⟩

structure Stage (act : Activation) (rec : Record) : Prop where
  activation : rec.activation = act
  accepted : rec.type ≠ .accepted
  source : rec.type ≠ .source
  rebind : rec.type ≠ .rebind

def Record.fails (rec : Record) : Bool := rec.type = .applyFailed ∨ rec.type = .recovered

theorem Record.fails_iff (rec : Record) : rec.fails ↔ rec.type = .applyFailed ∨ rec.type = .recovered :=
  decide_eq_true_iff

structure Begun (j : Journal) (act : Activation) (first : Record) (rest : List Record) (j' : Journal) : Prop where
  high : j'.highWater act.deploymentUID = some act.epoch
  bound : j'.boundDeployment = act.deploymentUID
  accepted : ∃ time, j'.accepted act.deploymentUID act.epoch = some (j.stamp time first)
  failed : j'.failed act.deploymentUID act.epoch = rest.any fails

theorem Chain.begun (hfresh : (j.highWater act.deploymentUID).all (· < act.epoch))
    (hnew : j.failed act.deploymentUID act.epoch = false) {first : Record} (htype : first.type = .accepted)
    (hact : first.activation = act) (hrest : ∀ r ∈ rest, Stage act r) (h : Chain j ([first] ++ rest) j') :
    Begun j act first rest j' := by
  induction rest using List.reverseRecOn generalizing j' with
  | nil =>
    have h : Chain j ([] ++ [first]) j' := h
    obtain ⟨i, time, hi, rfl⟩ := h.snoc_inv
    obtain rfl := hi.nil_inv
    refine ⟨?_, ?_, ⟨time, accepted_append_self htype hact hfresh⟩, ?_⟩
    · rw [highWater_append, if_pos]
      · exact congrArg (fun a => some a.epoch) hact
      · refine ⟨⟨htype, congrArg Activation.deploymentUID hact⟩, ?_⟩
        rw [stamp_activation, hact]
        exact hfresh
    · refine (boundDeployment_append_of ?_).trans (congrArg Activation.deploymentUID hact)
      exact Or.inl htype
    · unfold failed at hnew ⊢
      rw [any_append, hnew]
      simp [htype]
  | append_singleton rest rec ih =>
    rw [← append_assoc] at h
    obtain ⟨i, time, hi, rfl⟩ := h.snoc_inv
    have hbegun := ih (fun r hr => hrest r (mem_append_left _ hr)) hi
    have hrec := hrest rec mem_concat_self
    refine ⟨?_, ?_, ?_, ?_⟩
    · rw [highWater_append, if_neg fun hacc => hrec.accepted hacc.1.1]
      exact hbegun.high
    · refine (boundDeployment_append_of_not ?_).trans hbegun.bound
      exact not_or.mpr ⟨hrec.accepted, hrec.rebind⟩
    · obtain ⟨t, ht⟩ := hbegun.accepted
      refine ⟨t, (accepted_append_of_not ?_ _ _ _).trans ht⟩
      exact hrec.accepted
    have := hbegun.failed
    unfold failed at this ⊢
    rw [any_append, this, any_append]
    congr 1
    rw [Bool.eq_iff_iff, any_cons, any_nil, Bool.or_false, any_cons, any_nil, Bool.or_false,
      fails_iff, decide_eq_true_iff, stamp_activation, stamp_type, hrec.activation]
    exact ⟨fun hf => hf.2.2, fun hf => ⟨rfl, rfl, hf⟩⟩

end Chains

/-! ### A delivery -/

/-- A request that is new to a node whose FRR runs the checkpoint, if there is one. -/
structure Delivery (host : Host) where
  req : Request
  rev : Revision
  rendered : String
  node : Node
  id : Identity
  promotes : checkRevision req = .ok rev
  verified : host.verify rev = .ok rendered
  sound : Sound node
  checked : Checked host node
  identified : node.identity = some id
  complete : req.activation.deploymentUID ≠ "" ∧ req.activation.nodeUID ≠ "" ∧ req.activation.clusterID ≠ ""
  named : req.activation.nodeUID = id.nodeUID ∧ req.activation.clusterID = id.clusterID
  serves : node.journal.Serves req.activation
  fresh : (node.journal.highWater req.activation.deploymentUID).all (· < req.activation.epoch) = true
  runs : ∀ cp, node.checkpoint = some cp → (host.normalize cp.config).diff (host.normalize node.running) = []

/-- Nothing goes wrong in the world besides crashes. -/
structure Env.Steady (env : Env) : Prop where
  checks : env.checks = true
  readsIdentity : ∀ site, env.readsIdentity site = true
  readsCheckpoint : env.readsCheckpoint = true
  renders : ∀ which, env.renders which = true
  runs : ∀ site, env.runs site = true
  appends : ∀ type, env.appends type = true
  writes : env.writes = true

namespace Delivery

variable {host : Host} (d : Delivery host) {rest : List Record}

abbrev act : Activation := d.req.activation

def acceptance : Record :=
  .acceptance d.act ((d.node.checkpoint.map (·.activation.revision)).getD "") d.req.recovery

structure At (rest : List Record) (n : Node) : Prop where
  chain : Chain d.node.journal ([d.acceptance] ++ rest) n.journal
  identity : n.identity = some d.id
  stages : ∀ r ∈ rest, Stage d.act r

variable {d} {n : Node} {env : Env}

theorem unknown : ∀ rec ∈ d.node.journal, ¬ rec.ofEpoch d.act.deploymentUID d.act.epoch := by
  intro rec hrec hof
  obtain ⟨acc, hmem, htype, hact, -⟩ := d.sound.begun rec hrec hof.2.2.1 hof.2.2.2
  have := lt_of_highWater d.fresh acc hmem ⟨htype, by rw [hact]; exact hof.1⟩
  rw [hact, hof.2.1] at this
  exact Int.lt_irrefl _ this

theorem not_failed : d.node.journal.failed d.act.deploymentUID d.act.epoch = false := by
  by_contra hfailed
  rw [not_eq_false] at hfailed
  obtain ⟨r, hr, hmatch⟩ := any_eq_true.mp hfailed
  obtain ⟨huid, hepoch, hkind⟩ := of_decide_eq_true hmatch
  refine unknown r hr ⟨huid, hepoch, ?_, ?_⟩ <;> rcases hkind with hkind | hkind <;> rw [hkind] <;> nofun

theorem At.begun (h : d.At rest n) : Begun d.node.journal d.act d.acceptance rest n.journal :=
  h.chain.begun d.fresh not_failed rfl rfl h.stages

theorem identity_checks (hsteady : env.Steady) (hid : n.identity = some d.id) (site : IdentitySite) :
    checkIdentity env n site d.act := by
  unfold checkIdentity readIdentity
  rw [hsteady.readsIdentity, if_pos rfl, hid]
  have hnamed : d.act.nodeUID = d.id.nodeUID ∧ d.act.clusterID = d.id.clusterID := d.named
  have hcomplete : d.act.deploymentUID ≠ "" ∧ d.act.nodeUID ≠ "" ∧ d.act.clusterID ≠ "" := d.complete
  exact decide_eq_true ⟨hcomplete.1, hcomplete.2.1, hcomplete.2.2, by simpa using hnamed⟩

theorem render_own (hsteady : env.Steady) : render host env .own d.rev = .ok d.rendered := by
  unfold render
  rw [d.verified]
  dsimp only
  rw [hsteady.renders, if_pos rfl]

section
variable (h : d.At rest n) (hsteady : env.Steady) {rec : Record}
  (hlast : n.journal.lastForEpoch d.act.deploymentUID d.act.epoch = some rec) (hact : rec.activation = d.act)

include h hsteady hlast hact

theorem At.resume_eq : Activator.resume host env n d.req = resumeFrom host env n d.req d.rev d.rendered rec := by
  have hresumable : resumable n d.act = .ok rec := by
    unfold resumable
    rw [hlast]
    dsimp only
    rw [h.begun.high, getD_some, if_neg (not_not.mpr rfl), if_neg (not_not.mpr hact)]
  have hmerged : d.req.merged n.journal = d.req := by
    obtain ⟨time, haccepted⟩ := h.begun.accepted
    have hbind : (n.journal.accepted d.req.activation.deploymentUID d.req.activation.epoch).bind recovery =
        some d.req.recovery := by
      show (n.journal.accepted d.act.deploymentUID d.act.epoch).bind recovery = _
      rw [haccepted]
      rfl
    unfold Request.merged
    rw [hbind]
    dsimp only
    rw [mergeRecovery_self]
  unfold Activator.resume
  rw [d.promotes]
  dsimp only
  rw [if_pos (identity_checks hsteady h.identity .resume),
    show resumable n d.req.activation = .ok rec from hresumable]
  dsimp only
  rw [render_own hsteady, hmerged]

theorem At.admitEpoch_eq : admitEpoch env n d.act = if rest.any fails then .error .failedEpoch else .ok true := by
  unfold admitEpoch
  rw [identity_checks hsteady h.identity, if_neg (by decide), h.begun.bound, if_neg fun hb => hb.2 rfl, h.begun.high]
  dsimp only
  rw [if_neg (Int.lt_irrefl _), if_neg (Int.lt_irrefl _), hlast, map_some, hact, if_neg (not_not.mpr rfl),
    h.begun.failed]

theorem At.activate_eq (hfailed : rest.any fails = false ∨ rec.type = .applyFailed) :
    activate host env n d.req = resumeFrom host env n d.req d.rev d.rendered rec := by
  rw [← h.resume_eq hsteady hlast hact]
  unfold activate
  rw [d.promotes]
  dsimp only
  rw [show admitEpoch env n d.req.activation = _ from h.admitEpoch_eq hsteady hlast hact]
  cases hany : rest.any fails with
  | false => rfl
  | true =>
    rcases hfailed with hf | hf
    · exact Bool.noConfusion (hf.symm.trans hany)
    have hneeds : n.journal.needsRecovery d.act.deploymentUID d.act.epoch := by
      unfold needsRecovery
      rw [hlast]
      exact decide_eq_true hf
    exact if_pos hneeds

theorem At.calls {P : Out → Prop} (hfailed : rest.any fails = false ∨ rec.type = .applyFailed)
    (hP : P (resumeFrom host env n d.req d.rev d.rendered rec)) :
    P (Activator.resume host env n d.req) ∧ P (activate host env n d.req) := by
  rw [h.resume_eq hsteady hlast hact, h.activate_eq hsteady hlast hact hfailed]
  exact ⟨hP, hP⟩

theorem At.activate_recovered (hfailed : rest.any fails) (htype : rec.type = .recovered) :
    (activate host env n d.req).1 = n := by
  have hneeds : n.journal.needsRecovery d.act.deploymentUID d.act.epoch = false := by
    unfold needsRecovery
    rw [hlast]
    exact decide_eq_false (by rw [htype]; nofun)
  unfold activate
  rw [d.promotes]
  dsimp only
  rw [show admitEpoch env n d.req.activation = _ from h.admitEpoch_eq hsteady hlast hact, hfailed, if_pos rfl]
  dsimp only
  rw [show n.journal.needsRecovery d.req.activation.deploymentUID d.req.activation.epoch = false from hneeds]
  rfl

end

end Delivery

end Galactic.Activator
