import Galactic.Activator.Moves

/-!
# Replay protection

Over every run the epochs accepted for a deployment rise, a reload serves the deployment and the node the journal and
the identity name, and a failed epoch's own revision is not reloaded again. The binding is checked by `Admit` only, so
the second holds of `Resume` as long as it is called for the deployment the journal is bound to. -/

namespace Galactic.Activator
open List Node Except

/-- What happens to a node. A crash is the end of a call at a fault point; the process that opens the journal again goes
on from the same node. -/
inductive Event
  | activate (env : Env) (req : Request)
  | resume (env : Env) (req : Request)
  | rebind (old new : String) (writes : Bool) (time : Int)
  | setSource (source handoff : String) (writes : Bool) (time : Int)
  /-- `BindIdentity`. -/
  | bind (want : Identity) (nonce : String)
  /-- `Boot` or `BootOnline`; FRR starts with what it returns. -/
  | boot (want : Identity) (nonce : String) (readable : Bool) (now : Int) (online : Bool)
  /-- FRR comes to run something else. -/
  | drift (running : String)

def Node.appended (n : Node) (rec : Record) (writes : Bool) (time : Int) : Node :=
  if writes then n.journaled (n.journal.stamp time rec) else n

def Node.rebind (n : Node) (old new : String) (writes : Bool) (time : Int) : Node :=
  if n.journal.boundDeployment ≠ old then n
  else n.appended (Record.of .rebind ⟨"", "", new, 0, "", ""⟩) writes time

/-- `SetSourceHandoff`. -/
def Node.setSource (n : Node) (source handoff : String) (writes : Bool) (time : Int) : Node :=
  if n.journal.source = source then n
  else
    n.appended { Record.of .source ⟨"", "", "", 0, "", ""⟩ with source := source, handoff := handoff } writes time

/-- The node on which FRR has started with what `boot` returned. -/
def Node.booted (out : Node × Option String) : Node :=
  match out.2 with
  | none => out.1
  | some config => { out.1 with running := config }

def Node.step (host : Host) (n : Node) : Event → Node
  | .activate env req => (activate host env n req).1
  | .resume env req => (Activator.resume host env n req).1
  | .rebind old new writes time => n.rebind old new writes time
  | .setSource source handoff writes time => n.setSource source handoff writes time
  | .bind want nonce => (bindIdentity n want nonce).1
  | .boot want nonce readable now online => booted (Activator.boot host n want nonce readable now online)
  | .drift running => { n with running := running }

def Node.run (host : Host) (n : Node) (events : List Event) : Node := events.foldl (step host) n

/-- A new state directory. -/
def Node.start : Node := ⟨none, [], none, "", []⟩

/-- `Resume` is called for the deployment the journal is bound to. -/
def Event.Orderly (n : Node) : Event → Prop
  | .resume _ req => n.journal.Serves req.activation
  | _ => True

def Node.Orderly (host : Host) (n : Node) : List Event → Prop
  | [] => True
  | e :: es => e.Orderly n ∧ Node.Orderly host (n.step host e) es

/-! ### The journal and the deeds -/

/-- The epochs accepted for a deployment strictly increase. -/
def Journal.Rising (j : Journal) : Prop :=
  j.Pairwise fun a b => a.type = .accepted → b.type = .accepted →
    a.activation.deploymentUID = b.activation.deploymentUID → a.activation.epoch < b.activation.epoch

/-- What a reload is for. The records before it tell: an epoch's own revision is reloaded only while the epoch has not
failed, and the target is the one journaled with the epoch. -/
def Deed.Fair (j : Journal) (d : Deed) : Prop :=
  (d.kind = .reload .own → Journal.failed (j.take d.mark) d.activation.deploymentUID d.activation.epoch = false ∧
    d.activation.Promotes d.revision) ∧
  (d.kind = .reload .target → ∃ acc ∈ j.take d.mark, acc.type = .accepted ∧ acc.activation = d.activation ∧
    ∃ recovery, acc.recovery = some recovery ∧ d.revision.name = recovery.targetRevision ∧
      d.revision.activationDependencyDigest = recovery.targetDigest)

/-- An epoch's records begin with the one that accepted it, and every deed is fair. -/
structure Sound (n : Node) : Prop where
  rising : n.journal.Rising
  first : n.journal.Pairwise fun a b => b.type = .accepted → ¬ a.ofEpoch b.activation.deploymentUID b.activation.epoch
  begun : ∀ rec ∈ n.journal, rec.type ≠ .source → rec.type ≠ .rebind →
    ∃ acc ∈ n.journal, acc.type = .accepted ∧ acc.activation = rec.activation ∧ acc.recovery.isSome
  marked : ∀ d ∈ n.deeds, d.mark ≤ n.journal.length
  fair : ∀ d ∈ n.deeds, d.Fair n.journal
  named : ∀ d ∈ n.deeds, ∀ which, d.kind = .reload which → n.Named d.activation

variable {host : Host} {n n' : Node} {act : Activation} {own : Revision} {rec : Record}

theorem take_append_of_mark {j : Journal} {m : Nat} (h : m ≤ j.length) : (j ++ [rec]).take m = j.take m := by
  rw [take_append_of_le_length h]

theorem pairwise_or {α : Type} {R : α → α → Prop} {l : List α} (h : l.Pairwise R) {a b : α} (ha : a ∈ l) (hb : b ∈ l)
    (hne : a ≠ b) : R a b ∨ R b a := by
  have hsymm : Std.Symm fun a b => R a b ∨ R b a := ⟨fun _ _ => Or.symm⟩
  exact Pairwise.forall (R := fun a b => R a b ∨ R b a) (h.imp Or.inl) ha hb hne

theorem Sound.not_failed (h : Sound n) (hat : n.At act .accepted) :
    n.journal.failed act.deploymentUID act.epoch = false := by
  obtain ⟨acc, hlast, htype, hact⟩ := hat
  obtain ⟨before, after, hsplit, hafter⟩ := lastForEpoch_split hlast
  by_contra hfailed
  rw [Bool.not_eq_false] at hfailed
  obtain ⟨r, hr, hmatch⟩ := any_eq_true.mp hfailed
  obtain ⟨huid, hepoch, hkind⟩ := of_decide_eq_true hmatch
  have hof : r.ofEpoch act.deploymentUID act.epoch := by
    refine ⟨huid, hepoch, ?_, ?_⟩ <;> rcases hkind with hkind | hkind <;> rw [hkind] <;> nofun
  rw [hsplit] at hr
  rcases mem_append.mp hr with hr | hr
  · -- it would stand before the record that accepted the epoch
    have hfirst := h.first
    rw [hsplit, pairwise_append] at hfirst
    have := hfirst.2.2 r hr acc mem_cons_self htype
    rw [hact] at this
    exact this hof
  · rcases mem_cons.mp hr with rfl | hr
    · rcases hkind with hkind | hkind <;> exact nomatch htype.symm.trans hkind
    · exact hafter r hr hof

theorem Sound.acceptance (h : Sound n) {type : RecordType} (hat : n.At act type) :
    ∃ acc ∈ n.journal, acc.type = .accepted ∧ acc.activation = act ∧ acc.recovery.isSome := by
  obtain ⟨rec, hlast, -, hact⟩ := hat
  obtain ⟨hmem, hof⟩ := lastForEpoch_some hlast
  obtain ⟨acc, hacc, htype, heq, hsome⟩ := h.begun rec hmem hof.2.2.1 hof.2.2.2
  exact ⟨acc, hacc, htype, heq.trans hact, hsome⟩

theorem Sound.accepted_eq (h : Sound n) (hacc : rec ∈ n.journal) (htype : rec.type = .accepted)
    (hact : rec.activation = act) : n.journal.accepted act.deploymentUID act.epoch = some rec := by
  have hsome : (n.journal.accepted act.deploymentUID act.epoch).isSome := by
    unfold Journal.accepted
    rw [find?_isSome]
    exact ⟨rec, hacc, by simp [Record.accepts, htype, hact]⟩
  obtain ⟨r, hr⟩ := Option.isSome_iff_exists.mp hsome
  have hmatch : r.accepts act.deploymentUID ∧ r.activation.epoch = act.epoch := by simpa using find?_some hr
  have hmem := mem_of_find?_eq_some hr
  rw [hr]
  by_contra hne
  -- two acceptances of one epoch would rise
  have hne : r ≠ rec := fun heq => hne (congrArg some heq)
  subst hact
  rcases pairwise_or h.rising hmem hacc hne with hlt | hlt
  · exact (hlt hmatch.1.1 htype hmatch.1.2).ne hmatch.2
  · exact (hlt htype hmatch.1.1 hmatch.1.2.symm).ne hmatch.2.symm

/-! ### Moves keep it -/

theorem Sound.journaled (h : Sound n) (hacc : rec.type = .accepted → rec.recovery.isSome ∧
      (n.journal.highWater rec.activation.deploymentUID).all (· < rec.activation.epoch))
    (hbegun : rec.type ≠ .accepted → rec.type ≠ .source → rec.type ≠ .rebind → ∃ acc ∈ n.journal, acc.type = .accepted ∧
      acc.activation = rec.activation ∧ acc.recovery.isSome) : Sound (n.journaled rec) where
  rising := by
    refine pairwise_append.mpr ⟨h.rising, pairwise_singleton _ _, ?_⟩
    intro a ha b hb hta htb huid
    rw [mem_singleton.mp hb] at htb huid ⊢
    exact lt_of_highWater (hacc htb).2 a ha ⟨hta, huid⟩
  first := by
    refine pairwise_append.mpr ⟨h.first, pairwise_singleton _ _, ?_⟩
    intro a ha b hb htb hof
    rw [mem_singleton.mp hb] at htb hof
    -- the record's epoch would have been accepted before
    obtain ⟨acc, hmem, htype, hact, -⟩ := h.begun a ha hof.2.2.1 hof.2.2.2
    have := lt_of_highWater (hacc htb).2 acc hmem ⟨htype, by rw [hact, hof.1]⟩
    rw [hact, hof.2.1] at this
    exact Int.lt_irrefl _ this
  begun := by
    intro r hr hsource hrebind
    rcases mem_append.mp hr with hr | hr
    · obtain ⟨acc, hmem, hrest⟩ := h.begun r hr hsource hrebind
      exact ⟨acc, mem_append_left _ hmem, hrest⟩
    rw [mem_singleton.mp hr] at hsource hrebind ⊢
    by_cases htype : rec.type = .accepted
    · exact ⟨rec, mem_concat_self, htype, rfl, (hacc htype).1⟩
    · obtain ⟨acc, hmem, hrest⟩ := hbegun htype hsource hrebind
      exact ⟨acc, mem_append_left _ hmem, hrest⟩
  marked := by
    intro d hd
    have := h.marked d hd
    unfold Node.journaled
    rw [length_append]
    omega
  fair := by
    intro d hd
    unfold Node.journaled Deed.Fair
    rw [take_append_of_mark (h.marked d hd)]
    exact h.fair d hd
  named := h.named

theorem Sound.staged (h : Sound n) {type : RecordType} (hat : n.At act type) (hact : rec.activation = act)
    (htype : rec.type ≠ .accepted) : Sound (n.journaled rec) := by
  refine h.journaled (fun hacc => absurd hacc htype) fun _ _ _ => ?_
  rw [hact]
  exact h.acceptance hat

theorem Sound.did (h : Sound n) {kind : DeedKind} {rev : Revision} (running : String)
    (hfair : Deed.Fair n.journal ⟨kind, act, rev, n.journal.length⟩)
    (hnamed : ∀ which, kind = .reload which → n.Named act) : Sound { n.did kind act rev with running := running } where
  rising := h.rising
  first := h.first
  begun := h.begun
  marked := forall_mem_append.mpr ⟨h.marked, forall_mem_singleton.mpr (Nat.le_refl _)⟩
  fair := forall_mem_append.mpr ⟨h.fair, forall_mem_singleton.mpr hfair⟩
  named := forall_mem_append.mpr ⟨h.named, forall_mem_singleton.mpr hnamed⟩

theorem Move.sound (h : Sound n) (hmove : Move host act own n n') : Sound n' := by
  cases hmove with
  | accepted rec htype hact hrec hfresh hserves hnamed =>
    exact h.journaled (fun _ => ⟨hrec, by rw [hact]; exact hfresh⟩) fun hne => absurd htype hne
  | reloadOwn running hat hown hnamed =>
    refine h.did running ⟨fun _ => ⟨?_, hown⟩, nofun⟩ fun _ _ => hnamed
    rw [take_length]
    exact h.not_failed hat
  | applied rec htype hact hat | committed rec htype hact hat hseen | recovered rec htype hact hat =>
    exact h.staged hat hact (by rw [htype]; nofun)
  | failed rec htype hact hat =>
    rcases hat with hat | hat
    all_goals exact h.staged hat hact (by rw [htype]; nofun)
  | observed req polled polls hseen | eligible target req hat hreq htarget => exact h.did n.running ⟨nofun, nofun⟩ nofun
  | checkpoint cp hat hown hnamed hcp | restored cp target hat hnamed hseen hreloaded hcp =>
    exact ⟨h.rising, h.first, h.begun, h.marked, h.fair, h.named⟩
  | reloadTarget running target hat hseen hfixed hnamed =>
    refine h.did running ⟨nofun, fun _ => ?_⟩ fun _ _ => hnamed
    obtain ⟨acc, hmem, htype, hact, hsome⟩ := h.acceptance hat
    obtain ⟨recovery, hrecovery⟩ := Option.isSome_iff_exists.mp hsome
    rw [take_length]
    refine ⟨acc, hmem, htype, hact, recovery, hrecovery, hfixed recovery ?_⟩
    rw [h.accepted_eq hmem htype hact]
    exact hrecovery

theorem Moves.sound (h : Sound n) (hmoves : Moves host act own n n') : Sound n' := by
  induction hmoves with
  | refl => exact h
  | tail _ hmove ih => exact hmove.sound ih

/-! ### Serving the bound deployment -/

/-- The reloads an event causes are for the deployment the journal is bound to before it, or it is bound to none. -/
def Event.Serves (host : Host) (n : Node) (e : Event) : Prop :=
  ∀ d ∈ (n.step host e).deeds.drop n.deeds.length, ∀ which, d.kind = .reload which → n.journal.Serves d.activation

theorem Move.deeds (hmove : Move host act own n n') :
    ∃ new, n'.deeds = n.deeds ++ new ∧ ∀ d ∈ new, d.activation = act := by
  cases hmove with
  | accepted | applied | failed | committed | recovered | checkpoint | restored =>
    exact ⟨[], (append_nil _).symm, forall_mem_nil _⟩
  | reloadOwn | observed | eligible | reloadTarget => exact ⟨_, rfl, forall_mem_singleton.mpr rfl⟩

theorem Moves.deeds (hmoves : Moves host act own n n') :
    ∃ new, n'.deeds = n.deeds ++ new ∧ ∀ d ∈ new, d.activation = act := by
  induction hmoves with
  | refl => exact ⟨[], (append_nil _).symm, forall_mem_nil _⟩
  | tail _ hmove ih =>
    obtain ⟨new, heq, hnew⟩ := ih
    obtain ⟨more, hmore, hall⟩ := hmove.deeds
    exact ⟨new ++ more, by rw [hmore, heq, append_assoc], forall_mem_append.mpr ⟨hnew, hall⟩⟩

/-! ### Steps and runs -/

theorem resume_cases (host : Host) (env : Env) (n : Node) (req : Request) :
    (resume host env n req).1 = n ∨ ∃ rev, Moves host req.activation rev n (resume host env n req).1 := by
  cases hrev : checkRevision req with
  | error e =>
    refine .inl ?_
    unfold resume
    rw [hrev]
  | ok rev => exact .inr ⟨rev, resume_moves hrev⟩

theorem admitEpoch_serves {env : Env}
    (h : (∃ b, admitEpoch env n act = .ok b) ∨ admitEpoch env n act = .error .failedEpoch) : n.journal.Serves act := by
  by_contra hnot
  have hconflict :
      admitEpoch env n act = .error .identityMismatch ∨ admitEpoch env n act = .error .recoveryConflict := by
    unfold admitEpoch
    by_cases hid : checkIdentity env n .admission act = false
    · exact .inl (if_pos hid)
    · refine .inr ?_
      rw [if_neg hid, if_pos (not_or.mp hnot)]
  rcases h with ⟨b, h⟩ | h <;> rcases hconflict with hc | hc <;> rw [h] at hc <;> cases hc

theorem activate_cases (host : Host) (env : Env) (n : Node) (req : Request) : (activate host env n req).1 = n ∨
      (n.journal.Serves req.activation ∧ ∃ rev, Moves host req.activation rev n (activate host env n req).1) := by
  cases hrev : checkRevision req with
  | error e =>
    refine .inl ?_
    unfold activate
    rw [hrev]
  | ok rev =>
    have hmoves : Moves host req.activation rev n (activate host env n req).1 := activate_moves hrev
    cases hadm : admitEpoch env n req.activation with
    | ok b => exact .inr ⟨admitEpoch_serves (.inl ⟨b, hadm⟩), rev, hmoves⟩
    | error e =>
      by_cases he : e = .failedEpoch
      · subst he
        exact .inr ⟨admitEpoch_serves (.inr hadm), rev, hmoves⟩
      refine .inl ?_
      unfold activate
      rw [hrev]
      dsimp only
      rw [hadm]
      split
      · exact nomatch ‹error e = ok false›
      · exact nomatch ‹error e = ok true›
      · exact absurd (error.inj ‹_›) he
      · rfl

theorem Sound.frame (h : Sound n) (hjournal : n'.journal = n.journal) (hdeeds : n'.deeds = n.deeds)
    (hid : ∀ id, n.identity = some id → n'.identity = some id) : Sound n' := by
  refine ⟨?_, ?_, ?_, ?_, ?_, ?_⟩
  · rw [hjournal]; exact h.rising
  · rw [hjournal]; exact h.first
  · rw [hjournal]; exact h.begun
  · rw [hjournal, hdeeds]; exact h.marked
  · rw [hjournal, hdeeds]; exact h.fair
  · rw [hdeeds]
    intro d hd which hkind
    obtain ⟨id, hsome, hrest⟩ := h.named d hd which hkind
    exact ⟨id, hid id hsome, hrest⟩

theorem bindIdentity_frame (n : Node) (want : Identity) (nonce : String) :
    (bindIdentity n want nonce).1.journal = n.journal ∧ (bindIdentity n want nonce).1.deeds = n.deeds ∧
      (bindIdentity n want nonce).1.checkpoint = n.checkpoint ∧
      ∀ id, n.identity = some id → (bindIdentity n want nonce).1.identity = some id := by
  unfold bindIdentity
  cases hid : n.identity with
  | none => split_ifs <;> exact ⟨rfl, rfl, rfl, fun _ h => nomatch h⟩
  | some got =>
    dsimp only
    split_ifs <;> exact ⟨rfl, rfl, rfl, fun _ h => hid.trans h⟩

theorem boot_node (host : Host) (n : Node) (want : Identity) (nonce : String) (readable : Bool) (now : Int)
    (online : Bool) : (boot host n want nonce readable now online).1 = (bindIdentity n want nonce).1 := by
  unfold boot
  split
  · rename_i m heq
    rw [heq]
  · rename_i m recorded heq
    rw [heq]
    split <;> rfl

theorem booted_frame (out : Node × Option String) :
    (booted out).journal = out.1.journal ∧ (booted out).deeds = out.1.deeds ∧
      (booted out).checkpoint = out.1.checkpoint ∧ (booted out).identity = out.1.identity := by
  unfold booted
  split <;> exact ⟨rfl, rfl, rfl, rfl⟩

theorem Sound.appended (h : Sound n) (htype : rec.type = .rebind ∨ rec.type = .source) (writes : Bool) (time : Int) :
    Sound (n.appended rec writes time) := by
  unfold Node.appended
  split_ifs
  · refine h.journaled (fun hacc => ?_) fun _ hsource hrebind => ?_
    · rcases htype with htype | htype <;> exact nomatch hacc.symm.trans htype
    · exact (htype.elim (fun hr => hrebind hr) fun hs => hsource hs).elim
  · exact h

/-- What a step can do: it makes the moves of an activation, appends a record of neither stage, or leaves all but the
running configuration and a missing identity. -/
theorem step_cases (host : Host) (n : Node) (e : Event) :
    (∃ act rev, Moves host act rev n (n.step host e) ∧ (e.Orderly n → n.journal.Serves act)) ∨
    (∃ rec writes time, (rec.type = .rebind ∨ rec.type = .source) ∧ n.step host e = n.appended rec writes time) ∨
    ((n.step host e).journal = n.journal ∧ (n.step host e).deeds = n.deeds ∧ (n.step host e).checkpoint = n.checkpoint ∧
      ∀ id, n.identity = some id → (n.step host e).identity = some id) := by
  have hkeeps : ∀ {n' : Node}, n' = n → n'.journal = n.journal ∧ n'.deeds = n.deeds ∧ n'.checkpoint = n.checkpoint ∧
      ∀ id, n.identity = some id → n'.identity = some id := fun h => h ▸ ⟨rfl, rfl, rfl, fun _ hid => hid⟩
  cases e with
  | activate env req =>
    rcases activate_cases host env n req with hsame | ⟨hserves, rev, hmoves⟩
    · exact .inr (.inr (hkeeps hsame))
    · exact .inl ⟨_, rev, hmoves, fun _ => hserves⟩
  | resume env req =>
    rcases resume_cases host env n req with hsame | ⟨rev, hmoves⟩
    · exact .inr (.inr (hkeeps hsame))
    · exact .inl ⟨_, rev, hmoves, id⟩
  | rebind old new writes time =>
    by_cases h : n.journal.boundDeployment ≠ old
    · exact .inr (.inr (hkeeps (if_pos h)))
    · exact .inr (.inl ⟨_, writes, time, .inl rfl, if_neg h⟩)
  | setSource source handoff writes time =>
    by_cases h : n.journal.source = source
    · exact .inr (.inr (hkeeps (if_pos h)))
    · exact .inr (.inl ⟨_, writes, time, .inr rfl, if_neg h⟩)
  | bind want nonce => exact .inr (.inr (bindIdentity_frame n want nonce))
  | boot want nonce readable now online =>
    obtain ⟨hjournal, hdeeds, hcp, hid⟩ := bindIdentity_frame n want nonce
    obtain ⟨hj, hd, hc, hi⟩ := booted_frame (boot host n want nonce readable now online)
    rw [boot_node] at hj hd hc hi
    exact .inr (.inr ⟨hj.trans hjournal, hd.trans hdeeds, hc.trans hcp, fun id hsome => hi.trans (hid id hsome)⟩)
  | drift running => exact .inr (.inr ⟨rfl, rfl, rfl, fun _ hsome => hsome⟩)

theorem step_sound (h : Sound n) (e : Event) : Sound (n.step host e) := by
  rcases step_cases host n e with ⟨_, _, hmoves, -⟩ | ⟨rec, writes, time, htype, heq⟩ | ⟨hjournal, hdeeds, -, hid⟩
  · exact Moves.sound h hmoves
  · rw [heq]
    exact h.appended htype writes time
  · exact h.frame hjournal hdeeds hid

theorem step_serves (e : Event) (he : e.Orderly n) : e.Serves host n := by
  have hnone : (n.step host e).deeds = n.deeds → e.Serves host n := by
    intro hdeeds d hd
    rw [hdeeds, drop_length] at hd
    exact nomatch hd
  rcases step_cases host n e with ⟨_, _, hmoves, hserves⟩ | ⟨rec, writes, time, -, heq⟩ | ⟨-, hdeeds, -, -⟩
  · obtain ⟨new, hdeeds, hnew⟩ := Moves.deeds hmoves
    intro d hd _ _
    rw [hdeeds, drop_left] at hd
    rw [hnew d hd]
    exact hserves he
  · refine hnone ?_
    rw [heq]
    unfold Node.appended
    split_ifs <;> rfl
  · exact hnone hdeeds

theorem Sound.start : Sound start :=
  { rising := List.Pairwise.nil
    first := List.Pairwise.nil
    begun := fun _ h => nomatch h
    marked := fun _ h => nomatch h
    fair := fun _ h => nomatch h
    named := fun _ h => nomatch h }

theorem run_sound (h : Sound n) (events : List Event) : Sound (n.run host events) :=
  foldlRecOn events _ h fun _ h e _ => step_sound h e

theorem Node.Orderly.at (events : List Event) (h : n.Orderly host events) {before : List Event} {e : Event}
    (hpre : before ++ [e] <+: events) : e.Orderly (n.run host before) := by
  induction events generalizing n before with
  | nil => simp at hpre
  | cons e' es ih =>
    cases before with
    | nil => exact (cons_prefix_cons.mp hpre).1 ▸ h.1
    | cons b before =>
      obtain ⟨rfl, hrest⟩ := cons_prefix_cons.mp hpre
      exact ih h.2 hrest

/-- A run is protected against replays: accepted epochs rise, every reload serves the deployment the journal is bound to
before the call that causes it and the node's own identity, and no failed epoch's own revision is reloaded. -/
structure Protected (host : Host) (events : List Event) : Prop where
  rising : (Node.start.run host events).journal.Rising
  served : ∀ before e, before ++ [e] <+: events → e.Serves host (Node.start.run host before)
  named : ∀ d ∈ (Node.start.run host events).deeds, ∀ which, d.kind = .reload which →
    (Node.start.run host events).Named d.activation
  fair : ∀ d ∈ (Node.start.run host events).deeds, d.Fair (Node.start.run host events).journal

/-- **Replay protection**, in every orderly run. -/
theorem run_protected (host : Host) (events : List Event) (h : Node.start.Orderly host events) :
    Protected host events := by
  have hsound : Sound (Node.start.run host events) := run_sound Sound.start events
  exact ⟨hsound.rising, fun _ e hpre => step_serves e (Node.Orderly.at events h hpre), hsound.named, hsound.fair⟩

/-! ### A resume after a rebind -/

def plainHost : Host := ⟨fun rev => .ok rev.content, fun text => [(text, [])], "1", "10"⟩

/-- A world in which everything works and FRR runs what it is given. -/
def calmEnv (own target : String) : Env where
  checks := true
  readsIdentity := fun _ => true
  readsCheckpoint := true
  renders := fun _ => true
  runs := fun _ => true
  reload := fun which => ⟨.ok, match which with | .own => own | .target => target⟩
  polled := 0
  polls := [⟨none, false, 0⟩]
  appends := fun _ => true
  times := fun _ => 0
  writes := true
  written := 0
  faults := fun _ => false

def Env.crashing (env : Env) (point : FaultPoint) : Env := { env with faults := fun p => p = point }

def revisionOf (name : String) : Revision := ⟨name, name ++ "-digest", [], [], "config of " ++ name⟩

def requestOf (deploymentUID : String) (epoch : Int) (name target : String) : Request where
  activation := ⟨"cluster", "node", deploymentUID, epoch, name, name ++ "-digest"⟩
  revision := some (revisionOf name)
  settings := ⟨0, 10⟩
  recovery := ⟨target, target ++ "-digest", [], [], false⟩
  recoveryRevision := some (revisionOf target)
  credentials := []
  requiresAPI := false

def machine : Identity := ⟨"node", "machine", "cluster", ""⟩

/-- The first deployment's epoch is accepted and interrupted; then an operator rebinds the node to a second one. -/
def rebinding : List Event :=
  [.bind machine "nonce",
    .activate ((calmEnv "config of r1" "").crashing .afterAccepted) (requestOf "d1" 1 "r1" "r0"),
    .rebind "d1" "d2" true 0]

/-- The second deployment's activation runs. -/
theorem run_protected_rebound :
    ((Node.start.run plainHost (rebinding ++
        [.activate (calmEnv "config of r2" "") (requestOf "d2" 1 "r2" "r0")])).deeds.map
      (·.activation.deploymentUID)) = ["d2", "d2"] ∧
    Protected plainHost (rebinding ++ [.activate (calmEnv "config of r2" "") (requestOf "d2" 1 "r2" "r0")]) :=
  ⟨by decide +kernel, run_protected plainHost _ ⟨trivial, trivial, trivial, trivial, trivial⟩⟩

/-- A resume of the first deployment's epoch still reloads FRR, with the journal bound to the second. -/
theorem resume_unbound :
    ¬Protected plainHost (rebinding ++ [.resume (calmEnv "config of r1" "") (requestOf "d1" 1 "r1" "r0")]) := by
  intro h
  have hserves := fun d hd => h.served rebinding _ prefix_rfl d hd .own
  revert hserves
  unfold Journal.Serves
  decide +kernel

end Galactic.Activator
