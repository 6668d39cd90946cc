import Galactic.Masque.Server

/-!
# The authority's requests

What each part of a call sends, and what it leaves behind: every update is made from an object that was read and not
retired then, so that every request does what the others may do; `retire` leaves the authorization retired or gone. -/

namespace Galactic.Masque

open Client List World Server

/-! ### What a request did -/

/-- The request leaves a new unretired authorization: it creates one, or sets the `validUntil` of one. -/
def Writes (st : Asked) (t : Service) : Prop :=
  (∃ t₀, st.q = .create t₀ ∨ st.q = .update t₀) ∧ t ∈ st.after.services ∧ t ∉ st.before.services ∧ t.retired = false

def Reads : Asked → Record → Prop
  | ⟨_, .listSecrets, some list, _⟩, r => ∃ x ∈ list, decodeRecord x = .ok r
  | ⟨_, .getSecret _, .ok x, _⟩, r => decodeRecord x = .ok r
  | _, _ => False

/-- A request for an authorization that gets no answer of the server. -/
def Failed : Asked → Bool
  | ⟨_, .create _, none, _⟩ => true
  | ⟨_, .update _, .failed, _⟩ => true
  | ⟨_, .getService _ _, .failed, _⟩ => true
  | _ => false

/-- An update that meets the write of another. -/
def Conflicts : Asked → Bool
  | ⟨_, .update _, .conflict, _⟩ => true
  | _ => false

/-- The request creates no authorization and renews none. -/
def Query.mild : Query → Bool
  | .create _ => false
  | .update t => t.retired
  | _ => true

/-- The request reads no record. -/
def Query.blind : Query → Bool
  | .listSecrets => false
  | .getSecret _ => false
  | _ => true

/-- The request is no update. -/
def Query.quiet : Query → Bool
  | .update _ => false
  | _ => true

/-- What every request of the authority does: the server answers it, and what it does the others may do. -/
def Guar (st : Asked) : Prop :=
  (∃ c, st.reply = (st.before.answer c st.q).1 ∧ st.after = (st.before.answer c st.q).2) ∧
    ∃ ms, st.after = world.moved st.before ms

/-! ### What the others keep -/

theorem stable_sound : world.Stable Server.Sound := fun s m h => (s.move_change m).sound h

theorem stable_knows (t : Service) : world.Stable (·.Knows t) := fun s m h => h.evolves (s.move_change m).evolves

theorem stable_ended (uid : Nat) : world.Stable (·.Ended uid) := fun s m h => h.evolves (s.move_change m).evolves

theorem stable_moved (r : Record) : world.Stable (·.Moved r) := fun _ m h => h.move m

theorem stable_seen (r : Record) : world.Stable (·.Seen r) := fun _ m h => h.move m

variable {st : Asked}

theorem Guar.keeps (h : Guar st) {I : Server → Prop} (hI : world.Stable I) (hbefore : I st.before) : I st.after := by
  obtain ⟨-, ms, hms⟩ := h
  rw [hms]
  exact hI.moved hbefore ms

section Rules

variable {α β : Type} {p : Api α} {s : Server} {tr : List Asked} {I : Server → Prop}

theorem wp_keeps {post : List Asked → Server → α → Prop} (hp : world.wp Guar post p tr s) (hI : world.Stable I)
    (hs : I s) : world.wp Guar (fun tr s a => post tr s a ∧ I s) p tr s :=
  wp_frame hp hI (fun _ hguar hbefore => hguar.keeps hI hbefore) hs

variable {q : Query}

theorem wp_request {f : Answer q → Api β} {post : List Asked → Server → β → Prop} (hI : world.Stable I) (hs : I s)
    (hlaw : ∀ s, I s → s.Lawful q) (hnext : ∀ (s : Server) (c : Server.Choice), I s → I (s.answer c q).2 →
      world.wp Guar post (f (s.answer c q).1) (tr ++ [⟨s, q, (s.answer c q).1, (s.answer c q).2⟩]) (s.answer c q).2) :
    world.wp Guar post ((Prog.ask q Prog.ret : Api (Answer q)) >>= f) tr s := by
  intro ms c
  have hmoved : I (world.moved s ms) := hI.moved hs ms
  obtain ⟨ms', hms'⟩ := answer_moves (hlaw _ hmoved) c
  refine ⟨⟨⟨c, rfl, rfl⟩, ms', hms'⟩, hnext _ c hmoved ?_⟩
  rw [hms']
  exact hI.moved hmoved ms'

theorem lawful_of_quiet (h : q.quiet) (s : Server) : s.Lawful q := by
  intro t ht
  rw [ht] at h
  cases h

theorem always_lawful (h : q.quiet) : ∀ s, I s → s.Lawful q := fun s _ => lawful_of_quiet h s

theorem guar_answer (h : s.Lawful q) (c : Choice) {reply : Answer q} (hreply : (s.answer c q).1 = reply) :
    Guar ⟨s, q, reply, (s.answer c q).2⟩ := ⟨⟨c, hreply.symm, rfl⟩, answer_moves h c⟩

end Rules

/-! ### Answers -/

namespace Server

variable {s : Server} {c : Choice} {t t' : Service}

theorem update_cases (s : Server) (c : Choice) (t : Service) :
    (s.service t.ns t.name = none ∧ s.answer c (.update t) = (.notFound, s)) ∨ s.answer c (.update t) = (.conflict, s) ∨
      s.answer c (.update t) = (.failed, s) ∨ ∃ old ∈ s.services,
        s.answer c (.update t) = (.failed, s.putService old.version t) ∨
          s.answer c (.update t) = (.ok (s.stamped t), s.putService old.version t) := by
  unfold answer
  dsimp only
  cases hfind : s.service t.ns t.name with
  | none =>
    dsimp only
    split_ifs
    · exact .inr (.inr (.inl rfl))
    · exact .inl ⟨rfl, rfl⟩
  | some old =>
    dsimp only
    split_ifs
    · exact .inr (.inr (.inl rfl))
    · exact .inr (.inl rfl)
    have hold := (mem_service hfind).1
    rcases writes_cases (s := s) c .failed (Written.ok (s.stamped t), s.putService old.version t) with
      ⟨heq, -⟩ | ⟨heq, -⟩ | ⟨heq, -⟩
    · exact .inr (.inr (.inl heq))
    · exact .inr (.inr (.inr ⟨old, hold, .inl heq⟩))
    · exact .inr (.inr (.inr ⟨old, hold, .inr heq⟩))

theorem update_ok (h : (s.answer c (.update t)).1 = .ok t') :
    t' = s.stamped t ∧ ∃ old ∈ s.services, (s.answer c (.update t)).2 = s.putService old.version t := by
  rcases update_cases s c t with ⟨-, heq⟩ | heq | heq | ⟨old, hold, heq | heq⟩ <;> rw [heq] at h
  · cases h
  · cases h
  · cases h
  · cases h
  · exact ⟨(Written.ok.inj h).symm, old, hold, by rw [heq]⟩

theorem update_notFound (h : (s.answer c (.update t)).1 = .notFound) :
    s.service t.ns t.name = none ∧ (s.answer c (.update t)).2 = s := by
  rcases update_cases s c t with ⟨hnone, heq⟩ | heq | heq | ⟨old, hold, heq | heq⟩ <;> rw [heq] at h
  · exact ⟨hnone, by rw [heq]⟩
  all_goals cases h

theorem update_refused (h : (s.answer c (.update t)).1 = .conflict ∨ (s.answer c (.update t)).1 = .notFound) :
    (s.answer c (.update t)).2 = s := by
  rcases update_cases s c t with ⟨-, heq⟩ | heq | heq | ⟨old, hold, heq | heq⟩ <;> rw [heq] at h ⊢
  · exact h.elim nofun nofun
  · exact h.elim nofun nofun

variable {u : Service}

theorem update_new (hafter : u ∈ (s.answer c (.update t)).2.services) (hbefore : u ∉ s.services) : u = s.stamped t := by
  rcases update_cases s c t with ⟨-, heq⟩ | heq | heq | ⟨old, hold, heq | heq⟩ <;> rw [heq] at hafter
  · exact absurd hafter hbefore
  · exact absurd hafter hbefore
  · exact absurd hafter hbefore
  all_goals exact (mem_putService hafter).resolve_right fun hu => hbefore hu.1

theorem getService_ok (h : (s.answer c (.getService ns name)).1 = .ok t) :
    t ∈ s.services ∧ t.ns = ns ∧ t.name = name := by
  unfold answer at h
  dsimp only at h
  split_ifs at h
  split at h
  · cases h
  next hfind =>
  cases h
  exact mem_service hfind

theorem getService_notFound (h : (s.answer c (.getService ns name)).1 = .notFound) : s.service ns name = none := by
  unfold answer at h
  dsimp only at h
  cases hfind : s.service ns name with
  | none => rfl
  | some u =>
    rw [hfind] at h
    dsimp only at h
    split_ifs at h

theorem Knows.ended_of_none (h : s.Knows t) (hnone : s.service t.ns t.name = none) : s.Ended t.uid :=
  ⟨h.key.1, fun u hu huid => absurd (h.key.2 u hu huid) (not_mem_of_service hnone u hu)⟩

theorem Knows.ended_of_other (h : s.Knows t) (hs : s.Sound) (hu : u ∈ s.services) (hns : u.ns = t.ns)
    (hname : u.name = t.name) (huid : u.uid ≠ t.uid) : s.Ended t.uid := by
  refine ⟨h.key.1, fun v hv hvuid => ?_⟩
  obtain ⟨hvns, hvname⟩ := h.key.2 v hv hvuid
  rw [hs.keys u hu v hv (hns.trans hvns.symm) (hname.trans hvname.symm)] at huid
  exact absurd hvuid huid

end Server

/-! ### What the calls send -/

/-- The request neither reads a record nor creates or renews an authorization. -/
def Query.Plain (q : Query) : Prop := q.mild = true ∧ q.blind = true

theorem sends_retireLoop (n : Nat) (t : Service) : (retireLoop n t).Sends Query.Plain := by
  induction n generalizing t with
  | zero => trivial
  | succ n ih =>
    unfold retireLoop
    split_ifs
    · trivial
    refine ⟨⟨rfl, rfl⟩, fun at_ => ⟨⟨rfl, rfl⟩, fun now => ⟨⟨rfl, rfl⟩, fun written => ?_⟩⟩⟩
    cases written with
    | ok t' => trivial
    | conflict =>
      refine ⟨⟨rfl, rfl⟩, fun found => ?_⟩
      cases found with
      | ok t' =>
        show Prog.Sends _ (if t'.uid ≠ t.uid then _ else _)
        split_ifs
        · trivial
        · exact ih t'
      | notFound => trivial
      | failed => trivial
    | notFound => trivial
    | failed => trivial

theorem sends_retire (t : Service) : (retire t).Sends Query.Plain := sends_retireLoop _ t

def Query.Idle (q : Query) : Prop := q.Plain ∧ q.quiet = true

theorem sends_ending (t : Service) : (ending t).Sends Query.Plain := by
  unfold ending
  split_ifs
  · trivial
  · exact sends_retire t

theorem sends_reap (t : Service) : (reap t).Sends Query.Idle := by
  have hlately : (retiredLately t).Sends Query.Idle := by
    unfold retiredLately
    cases t.retiredAt with
    | none => trivial
    | some at_ => exact ⟨⟨⟨rfl, rfl⟩, rfl⟩, fun _ => trivial⟩
  unfold reap
  split_ifs
  · trivial
  refine Prog.Sends.bind hlately fun lately => ?_
  cases lately with
  | true => trivial
  | false => exact ⟨⟨⟨rfl, rfl⟩, rfl⟩, fun found => by cases found <;> trivial⟩

theorem sends_vpcID (ref : VPCRef) : (vpcID ref).Sends Query.Idle := by
  refine ⟨⟨⟨rfl, rfl⟩, rfl⟩, fun found => ?_⟩
  cases found with
  | ok v =>
    show Prog.Sends _ (if v.uid ≠ ref.uid ∨ v.deleting then _ else if v.id = "" then _ else _)
    split_ifs <;> trivial
  | notFound => trivial
  | failed => trivial

theorem sends_allocationOf (r : Record) : (allocationOf r).Sends Query.Idle := by
  refine ⟨⟨⟨rfl, rfl⟩, rfl⟩, fun ledger => ?_⟩
  cases ledger with
  | none => trivial
  | some l =>
    dsimp only [Prog.bind]
    cases l.lookup r.connector with
    | none => trivial
    | some e =>
      show Prog.Sends _ (if e.retired then _ else _)
      split_ifs <;> trivial

theorem sends_findRenewable (a : Authority) (id : Identity) (r : Record) (list : List Service) :
    (a.findRenewable id r list).Sends Query.Idle := by
  induction list with
  | nil => trivial
  | cons t ts ih =>
    unfold Authority.findRenewable
    split_ifs
    · refine ⟨⟨⟨rfl, rfl⟩, rfl⟩, fun now => ?_⟩
      show Prog.Sends _ (if a.expired t now then _ else _)
      split_ifs
      · exact ih
      · trivial
    · exact ih

theorem sends_retry (a : Authority) (r : Record) (e : Entry) (vpc : String) (t : Service) :
    (a.retry r e vpc t).Sends Query.Idle := by
  unfold Authority.retry
  split_ifs
  · trivial
  · refine ⟨⟨⟨rfl, rfl⟩, rfl⟩, fun now => ?_⟩
    show Prog.Sends _ (if _ then _ else _)
    split_ifs <;> trivial

theorem sends_drain (list : List Service) : (Authority.drain list).Sends Query.Plain := by
  induction list with
  | nil => trivial
  | cons t ts ih =>
    unfold Authority.drain
    refine Prog.Sends.bind (sends_ending t) fun out => ?_
    obtain ⟨t', err⟩ := out
    cases err with
    | some e => trivial
    | none =>
      refine Prog.Sends.bind ((sends_reap t').mono fun _ h => h.1) fun released => Prog.Sends.bind ih fun out => ?_
      cases out <;> trivial

theorem sends_readRecord (c : String) : (readRecord c).Sends fun q => q.mild ∧ q.quiet := by
  refine ⟨⟨rfl, rfl⟩, fun found => ?_⟩
  cases found with
  | ok x =>
    dsimp only [Prog.bind]
    cases decodeRecord x <;> trivial
  | notFound => trivial
  | failed => trivial

theorem sends_unchanged (t : Service) (r : Record) : (unchanged t r).Sends fun q => q.mild := by
  have hretire : ∀ e : Error,
      (retire t >>= fun out => pure (out.1, some e) : Api (Service × Option Error)).Sends fun q => q.mild :=
    fun e => Prog.Sends.bind ((sends_retire t).mono fun _ h => h.1) fun _ => trivial
  refine Prog.Sends.bind ((sends_readRecord _).mono fun _ h => h.1) fun found => ?_
  cases found with
  | ok cur =>
    show Prog.Sends _ (if r.sameGrant cur then _ else _)
    split_ifs
    · trivial
    · exact hretire _
  | notFound => exact hretire _
  | failed => exact hretire _

theorem Guar.not_writes (h : Guar st) (hmild : st.q.mild) (t : Service) : ¬ Writes st t := by
  obtain ⟨before, q, reply, after⟩ := st
  obtain ⟨⟨c, -, hstate⟩, -⟩ := h
  rintro ⟨⟨t₀, hq⟩, hafter, hbefore, hret⟩
  change after = (before.answer c q).2 at hstate
  change t ∈ after.services at hafter
  rw [hstate] at hafter
  rcases hq with rfl | rfl
  · cases hmild
  · rw [update_new hafter hbefore] at hret
    exact Bool.noConfusion (hmild.symm.trans hret)

theorem not_reads_of_blind (h : st.q.blind) (r : Record) : ¬ Reads st r := by
  obtain ⟨before, q, reply, after⟩ := st
  cases q with
  | listSecrets => cases h
  | getSecret name => cases h
  | now | getVPC | readLedger | listServices | getService | create | update | delete => exact fun hr => hr

/-! ### Retiring -/

section Specs

variable {s : Server} {tr : List Asked} {t : Service} {r : Record}

/-- A copy that may be retired: the server's, or one already marked. -/
def Server.Handles (s : Server) (t : Service) : Prop := s.Knows t ∨ t.retired = true

/-- None of the requests failed, and fewer than `n` updates met the write of another. -/
def Calm (n : Nat) (new : List Asked) : Prop := (∀ st ∈ new, Failed st = false) ∧ new.countP Conflicts < n

variable {n : Nat} {old new : List Asked}

theorem Calm.of_append (h : Calm n (old ++ new)) : Calm n new :=
  ⟨fun st hst => h.1 st (mem_append_right _ hst),
    Nat.lt_of_le_of_lt (by rw [countP_append]; exact Nat.le_add_left _ _) h.2⟩

theorem Calm.of_append_left (h : Calm n (old ++ new)) : Calm n old :=
  ⟨fun st hst => h.1 st (mem_append_left _ hst),
    Nat.lt_of_le_of_lt (by rw [countP_append]; exact Nat.le_add_right _ _) h.2⟩

theorem lawful_ended (h : s.Knows t) (hret : t.retired = false) (at_ past : Int) :
    s.Lawful (.update (t.ended at_ past)) := by
  intro t' ht'
  cases ht'
  exact ⟨t, h, hret, rfl, rfl, rfl, rfl⟩

theorem stable_handed (t : Service) : world.Stable fun s => s.Sound ∧ s.Knows t := stable_sound.and (stable_knows t)

/-- `retire` leaves the authorization retired or gone, unless its requests fail or it meets too many other writers. -/
theorem retireLoop_spec (n : Nat) (hs : s.Sound) (ht : s.Handles t) :
    world.wp Guar (fun tr' s' out => s'.Sound ∧ s'.Handles out.1 ∧
      ∃ new, tr' = tr ++ new ∧ (s.Knows t → Calm n new → s'.Ended t.uid)) (retireLoop n t) tr s := by
  induction n generalizing s tr t with
  | zero => exact ⟨hs, ht, [], (append_nil tr).symm, fun _ hcalm => absurd hcalm.2 (Nat.not_lt_zero _)⟩
  | succ n ih =>
    unfold retireLoop
    split_ifs with hret
    · exact ⟨hs, ht, [], (append_nil tr).symm, fun hknows _ => hknows.retired hret⟩
    rw [Bool.not_eq_true] at hret
    have hknows : s.Knows t := ht.resolve_right fun h => Bool.noConfusion (hret.symm.trans h)
    refine wp_request (q := .now) (stable_handed t) ⟨hs, hknows⟩ (always_lawful rfl) ?_
    intro s₁ c₁ _ hs₁
    refine wp_request (q := .now) (stable_handed t) hs₁ (always_lawful rfl) ?_
    intro s₂ c₂ _ hs₂
    refine wp_request (q := .update _) (stable_handed t) hs₂ (fun s h => lawful_ended h.2 hret _ _) ?_
    intro s₃ c₃ hs₃ hs₃'
    simp only [append_assoc]
    cases hwritten : (s₃.answer c₃ (.update (t.ended (s₁.answer c₁ .now).1
        (truncateSecond ((s₂.answer c₂ .now).1 - seconds 60))))).1 with
    | ok t' =>
      obtain ⟨rfl, old, hold, hput⟩ := update_ok hwritten
      have hmem := service_mem_put (s := s₃) (t := t.ended (s₁.answer c₁ .now).1
        (truncateSecond ((s₂.answer c₂ .now).1 - seconds 60))) hold
      rw [← hput] at hmem
      have hnew := hs₃'.1.knows hmem
      exact ⟨hs₃'.1, .inl hnew, _, rfl, fun _ _ => hnew.retired rfl⟩
    | conflict =>
      refine wp_request (q := .getService _ _) (stable_handed t) hs₃' (always_lawful rfl) ?_
      intro s₄ c₄ hs₄ hs₄'
      simp only [append_assoc]
      cases hfound : (s₄.answer c₄ (.getService t.ns t.name)).1 with
      | ok t' =>
        obtain ⟨hmem, hns, hname⟩ := getService_ok hfound
        show world.wp Guar _ (if t'.uid ≠ t.uid then _ else _) _ _
        split_ifs with huid
        · exact ⟨hs₄'.1, .inl (hs₄.1.knows hmem), _, rfl, fun _ _ => hs₄.2.ended_of_other hs₄.1 hmem hns hname huid⟩
        -- the next turn, with one conflict less to spare
        have hnext := hs₄.1.knows hmem
        refine wp_mono (ih hs₄.1 (.inl hnext)) ?_
        rintro tr' s' out ⟨hsound, hout, new, rfl, hended⟩
        refine ⟨hsound, hout, _, by rw [append_assoc], fun _ hcalm => ?_⟩
        rw [← not_not.mp huid]
        refine hended hnext ⟨fun st hst => hcalm.1 st (mem_append_right _ hst), ?_⟩
        have hcount := hcalm.2
        simp only [countP_append, countP_cons, countP_nil, Conflicts, if_true] at hcount
        omega
      | notFound =>
        exact ⟨hs₄'.1, .inr rfl, _, rfl, fun _ _ => hs₄.2.ended_of_none (getService_notFound hfound)⟩
      | failed =>
        refine ⟨hs₄'.1, .inr rfl, _, rfl, fun _ hcalm => ?_⟩
        have hfailed := hcalm.1 _ (mem_append_right _ (mem_append_right _
          mem_concat_self))
        cases hfailed
    | notFound =>
      obtain ⟨hnone, hstate⟩ := update_notFound hwritten
      refine ⟨hs₃'.1, .inr rfl, _, rfl, fun _ _ => ?_⟩
      rw [hstate]
      exact hs₃.2.ended_of_none hnone
    | failed =>
      refine ⟨hs₃'.1, .inr rfl, _, rfl, fun _ hcalm => ?_⟩
      have hfailed := hcalm.1 _ (mem_append_right _ mem_concat_self)
      cases hfailed

theorem retire_spec (hs : s.Sound) (ht : s.Handles t) : world.wp Guar (fun tr' s' out => s'.Sound ∧ s'.Handles out.1 ∧
      ∃ new, tr' = tr ++ new ∧ (s.Knows t → Calm conflictRetries new → s'.Ended t.uid)) (retire t) tr s :=
  retireLoop_spec conflictRetries hs ht

theorem retire_sound (hs : s.Sound) (ht : s.Handles t) :
    world.wp Guar (fun _ s' out => s'.Sound ∧ s'.Handles out.1) (retire t) tr s :=
  wp_mono (retire_spec hs ht) fun _ _ _ h => ⟨h.1, h.2.1⟩

theorem ending_sound (hs : s.Sound) (ht : s.Handles t) : world.wp Guar (fun _ s' _ => s'.Sound) (ending t) tr s := by
  unfold ending
  split_ifs
  · exact hs
  · exact wp_mono (retire_sound hs ht) fun _ _ _ h => h.1

section
variable {α : Type} {p : Api α} (h : p.Sends Query.Idle)
include h

theorem wp_reads : world.wp Guar (fun _ _ _ => True) p tr s := by
  induction p generalizing tr s with
  | ret a => trivial
  | ask q next ih =>
    intro ms c
    exact ⟨guar_answer (lawful_of_quiet h.1.2 _) c rfl, ih _ (h.2 _)⟩

theorem wp_sound (hs : s.Sound) :
    world.wp Guar (fun _ s' _ => s'.Sound) p tr s :=
  wp_mono (wp_keeps (wp_reads h) stable_sound hs) fun _ _ _ h => h.2

end

theorem reap_sound (hs : s.Sound) : world.wp Guar (fun _ s' _ => s'.Sound) (reap t) tr s :=
  wp_sound (sends_reap t) hs

theorem stable_list (list : List Service) : world.Stable fun s => ∀ t ∈ list, s.Knows t :=
  fun s m hs t ht => stable_knows t s m (hs t ht)

theorem drain_sound (list : List Service) (hs : s.Sound) (hlist : ∀ t ∈ list, s.Knows t) :
    world.wp Guar (fun _ s' _ => s'.Sound) (Authority.drain list) tr s := by
  induction list generalizing s tr with
  | nil => exact hs
  | cons t ts ih =>
    have hts : ∀ u ∈ ts, s.Knows u := fun u hu => hlist u (mem_cons_of_mem _ hu)
    refine wp_bind (wp_keeps (ending_sound hs (.inl (hlist t mem_cons_self))) (stable_list ts) hts) ?_
    rintro tr₁ s₁ ⟨t', err⟩ ⟨hs₁, hts₁⟩
    cases err with
    | some e => exact hs₁
    | none =>
      refine wp_bind (wp_keeps (reap_sound hs₁) (stable_list ts) hts₁) ?_
      rintro tr₂ s₂ released ⟨hs₂, hts₂⟩
      refine wp_bind (ih hs₂ hts₂) ?_
      intro tr₃ s₃ out hs₃
      cases out <;> exact hs₃

/-! ### Reading the record again -/

theorem getSecret_ok {c : Server.Choice} {name : String} {x : Secret} (h : (s.answer c (.getSecret name)).1 = .ok x) :
    x ∈ s.secrets ∧ x.name = name := by
  unfold Server.answer at h
  dsimp only at h
  split_ifs at h
  split at h
  · cases h
  next hfind =>
  cases h
  exact ⟨mem_of_find?_eq_some hfind, by simpa using find?_some hfind⟩

theorem readRecord_spec (hs : s.Sound) (c : String) :
    world.wp Guar (fun tr' s' out => s'.Sound ∧ (∀ r, out = .ok r → s'.record c = some r ∧ r.connector = c) ∧
      ∃ st : Asked, tr' = tr ++ [st] ∧ (∀ r, Reads st r → out = .ok r)) (readRecord c) tr s := by
  refine wp_request (q := .getSecret _) stable_sound hs (always_lawful rfl) ?_
  intro s₁ c₁ hs₁ hs₁'
  cases hfound : (s₁.answer c₁ (.getSecret (recordName c))).1 with
  | ok x =>
    obtain ⟨hmem, hname⟩ := getSecret_ok hfound
    dsimp only
    cases hdec : decodeRecord x with
    | error e =>
      exact ⟨hs₁', nofun, _, rfl, fun r hr => (nomatch hdec.symm.trans hr)⟩
    | ok r =>
      have hcon : r.connector = c := recordName_inj ((decodeRecord_ok hdec).2.symm.trans hname)
      refine ⟨hs₁', ?_, _, rfl, fun r' hr' => ?_⟩
      · intro r' hr'
        cases hr'
        exact ⟨hcon ▸ hs₁.record hmem hdec, hcon⟩
      · rw [Except.ok.inj (hdec.symm.trans hr')]
  | notFound | failed => exact ⟨hs₁', nofun, _, rfl, fun _ hr => False.elim hr⟩

theorem unchanged_spec (hs : s.Sound) (ht : s.Knows t) :
    world.wp Guar (fun tr' s' out => s'.Sound ∧ s'.Handles out.1 ∧ ∃ new, tr' = tr ++ new ∧
      (s.Moved r → out.2 ≠ none ∧ (Calm conflictRetries new → s'.Ended t.uid))) (unchanged t r) tr s := by
  -- the three ways in which the record is not the one read
  have hretire : ∀ {tr₁ : List Asked} {s₁ : Server} {st : Asked} (e : Error), s₁.Sound → s₁.Knows t →
      tr₁ = tr ++ [st] →
      world.wp Guar (fun tr' s' out => s'.Sound ∧ s'.Handles out.1 ∧ ∃ new, tr' = tr ++ new ∧
        (s.Moved r → out.2 ≠ none ∧ (Calm conflictRetries new → s'.Ended t.uid)))
        (retire t >>= fun out => pure (out.1, some e) : Api (Service × Option Error)) tr₁ s₁ := by
    intro tr₁ s₁ st e hs₁ ht₁ htr
    refine wp_bind (retire_spec hs₁ (.inl ht₁)) ?_
    rintro tr₂ s₂ ⟨t', err⟩ ⟨hs₂, ht₂, new, rfl, hended⟩
    refine ⟨hs₂, ht₂, [st] ++ new, by rw [htr, append_assoc], fun _ => ⟨nofun, fun hcalm => ?_⟩⟩
    exact hended ht₁ hcalm.of_append
  refine wp_bind (wp_keeps (wp_keeps (readRecord_spec hs r.connector) (stable_knows t) ht)
    (I := fun s₁ => s.Moved r → s₁.Moved r) (fun s₁ m h hmoved => stable_moved r s₁ m (h hmoved)) id) ?_
  rintro tr₁ s₁ out ⟨⟨⟨hs₁, hfound, st, rfl, -⟩, ht₁⟩, hmoved⟩
  cases out with
  | ok cur =>
    show world.wp Guar _ (if r.sameGrant cur then _ else _) _ _
    split_ifs with hsame
    · refine ⟨hs₁, .inl ht₁, [st], rfl, fun hm => ?_⟩
      have hnot := (hmoved hm).not_sameGrant (hfound cur rfl).1
      exact Bool.noConfusion (hnot.symm.trans hsame)
    · exact hretire _ hs₁ ht₁ rfl
  | notFound | failed => exact hretire _ hs₁ ht₁ rfl

end Specs

end Galactic.Masque
