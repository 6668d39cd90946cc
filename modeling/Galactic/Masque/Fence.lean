import Galactic.Masque.Requests

/-!
# The revocation fence

A call decides on a record it read and then writes an authorization. Between the two an operator may rotate, disable or
delete the record. `issue` and `Refresh` read the record once more after the write; `Authorize` does not when it renews
the authorization the pod already holds. -/

namespace Galactic.Masque

open Client List World Server Authority Option

section Specs

variable {s : Server} {tr : List Asked} {t : Service} {r : Record}

/-! ### The fence -/

/-- A call that wrote an authorization of a record it had read, and that was no longer stored then, returns no grant. It
leaves the authorization retired or gone, unless its requests from the write on fail or meet too many other writers. -/
def Fenced (tr : List Asked) (s : Server) (res : Except Error Grant) : Prop :=
  ∀ pre st post t r, tr = pre ++ st :: post → Writes st t → (∃ rd ∈ pre, Reads rd r) → r.connector = t.connector →
    st.before.record r.connector ≠ some r →
      (∀ g, res ≠ .ok g) ∧ (Failed st = false → Calm conflictRetries post → s.Ended t.uid)

/-- None of the requests wrote an authorization. -/
def Unwritten (tr : List Asked) : Prop := ∀ st ∈ tr, ∀ t, ¬ Writes st t

section
variable {new : List Asked}

theorem Unwritten.append (h : Unwritten tr) (hnew : Unwritten new) : Unwritten (tr ++ new) :=
  forall_mem_append.mpr ⟨h, hnew⟩

theorem unwritten_of_mild (h : ∀ st ∈ new, st.q.mild ∧ Guar st) : Unwritten new :=
  fun st hst => (h st hst).2.not_writes (h st hst).1

theorem Unwritten.fenced (h : Unwritten tr) (res : Except Error Grant) : Fenced tr s res := by
  intro pre st post t r htr hwrites
  exact absurd hwrites (h st (htr ▸ mem_append_right _ mem_cons_self) t)

theorem split_unique {α : Type} {p : α → Prop} {l₁ l₂ l₁' l₂' : List α} {x y : α} (h₁ : ∀ z ∈ l₁, ¬ p z)
    (h₂ : ∀ z ∈ l₂, ¬ p z) (hy : p y) (h : l₁ ++ x :: l₂ = l₁' ++ y :: l₂') : l₁ = l₁' ∧ x = y ∧ l₂ = l₂' :=
  (append_cons_inj_of_notMem (fun hmem => h₁ y hmem hy) fun hmem => h₂ y hmem hy).mp h

theorem fenced_of_write {st : Asked} {res : Except Error Grant} (hpre : Unwritten tr) (hpost : Unwritten new)
    (h : ∀ t r, Writes st t → (∃ rd ∈ tr, Reads rd r) → r.connector = t.connector →
      st.before.record r.connector ≠ some r →
        (∀ g, res ≠ .ok g) ∧ (Failed st = false → Calm conflictRetries new → s.Ended t.uid)) :
    Fenced (tr ++ st :: new) s res := by
  intro pre st' post t r htr hwrites hreads hcon hstored
  have hnot : ∀ {l : List Asked}, Unwritten l → ∀ st ∈ l, ¬ ∃ t, Writes st t := fun hl st hst ⟨t, ht⟩ => hl st hst t ht
  obtain ⟨rfl, rfl, rfl⟩ := split_unique (p := fun st => ∃ t, Writes st t) (hnot hpre) (hnot hpost) ⟨t, hwrites⟩ htr
  exact h t r hwrites hreads hcon hstored

theorem Fenced.extend {s' : Server} {e e' : Error} (h : Fenced tr s (.error e)) (hnew : Unwritten new)
    (hkept : ∀ uid, s.Ended uid → s'.Ended uid) : Fenced (tr ++ new) s' (.error e') := by
  intro pre st post t r htr hwrites hreads hcon hstored
  rcases append_eq_append_iff.mp htr with ⟨mid, rfl, hmid⟩ | ⟨mid, rfl, hmid⟩
  · -- the write would be among the new requests
    have hmem : st ∈ new := hmid ▸ mem_append_right _ mem_cons_self
    exact absurd hwrites (hnew st hmem t)
  cases mid with
  | nil =>
    have hmem : st ∈ new := by
      have : st :: post = new := by simpa using hmid
      exact this ▸ mem_cons_self
    exact absurd hwrites (hnew st hmem t)
  | cons st' mid =>
    cases hmid
    have hended := (h pre st mid t r rfl hwrites hreads hcon hstored).2
    exact ⟨nofun, fun hfailed hcalm => hkept t.uid (hended hfailed hcalm.of_append_left)⟩

end

/-- Before a call writes: the requests so far wrote nothing and read no other record of the connector. -/
structure Decided (r : Record) (tr : List Asked) (s : Server) : Prop where
  sound : s.Sound
  unwritten : Unwritten tr
  only : ∀ rd ∈ tr, ∀ r', Reads rd r' → r'.connector = r.connector → r' = r
  seen : s.Seen r

variable {s' : Server} {new : List Asked}

theorem Decided.append (h : Decided r tr s) (hs : s'.Sound) (hseen : s'.Seen r)
    (hnew : ∀ st ∈ new, st.q.Plain ∧ Guar st) : Decided r (tr ++ new) s' where
  sound := hs
  unwritten := h.unwritten.append (unwritten_of_mild fun st hst => ⟨(hnew st hst).1.1, (hnew st hst).2⟩)
  only := forall_mem_append.mpr ⟨h.only, fun rd hrd r' hr' => absurd hr' (not_reads_of_blind (hnew rd hrd).1.2 r')⟩
  seen := hseen

variable {st : Asked}

theorem Decided.snoc (h : Decided r tr s) (hs : s'.Sound) (hseen : s'.Seen r) (hplain : st.q.Plain) (hguar : Guar st) :
    Decided r (tr ++ [st]) s' :=
  h.append hs hseen fun st' hst' => by
    rw [mem_singleton.mp hst']
    exact ⟨hplain, hguar⟩

variable {α : Type} {p : Api α} {post : List Asked → Server → α → Prop}

theorem wp_decided (h : Decided r tr s) (hsends : p.Sends Query.Plain) (hp : world.wp Guar post p tr s) :
    world.wp Guar (fun tr' s' a => post tr' s' a ∧ Decided r tr' s' ∧ ∃ new, tr' = tr ++ new) p tr s := by
  refine wp_mono (wp_sends (wp_keeps (wp_keeps hp stable_sound h.sound) (stable_seen r) h.seen) hsends) ?_
  rintro tr' s' a ⟨⟨⟨hpost, hs'⟩, hseen⟩, new, rfl, hnew⟩
  exact ⟨hpost, h.append hs' hseen hnew, new, rfl⟩

theorem wp_idle {I : Server → Prop} (h : Decided r tr s) (hsends : p.Sends Query.Idle) (hI : world.Stable I)
    (hi : I s) : world.wp Guar (fun tr' s' _ => I s' ∧ Decided r tr' s' ∧ ∃ new, tr' = tr ++ new) p tr s :=
  wp_mono (wp_decided h (hsends.mono fun _ h => h.1) (wp_keeps (wp_reads hsends) hI hi)) fun _ _ _ h => ⟨h.1.2, h.2⟩

theorem unchanged_fenced (hun : Unwritten tr)
    (honly : ∀ rd ∈ tr, ∀ r', Reads rd r' → r'.connector = r.connector → r' = r) (hseen : st.before.Seen r)
    (hguar : Guar st) (hs : st.after.Sound) (ht : st.after.Knows t)
    (hw : ∀ u, Writes st u → u.uid = t.uid ∧ u.connector = r.connector) :
    world.wp Guar (fun tr' s' out => s'.Sound ∧ s'.Handles out.1 ∧ ∀ res, (out.2 ≠ none → ∀ g, res ≠ .ok g) →
      Fenced tr' s' res) (unchanged t r) (tr ++ [st]) st.after := by
  refine wp_mono (wp_sends (unchanged_spec hs ht) (sends_unchanged t r)) ?_
  rintro tr' s' out ⟨⟨hs', hout, new, rfl, hmoved⟩, new', htr', hnew⟩
  obtain rfl := append_cancel_left htr'
  refine ⟨hs', hout, fun res hres => ?_⟩
  rw [append_assoc]
  refine fenced_of_write hun (unwritten_of_mild hnew) ?_
  rintro u r' hwrites ⟨rd, hrd, hreads⟩ hcon hstored
  obtain ⟨huid, hucon⟩ := hw u hwrites
  obtain rfl := honly rd hrd r' hreads (hcon.trans hucon)
  have hmovedBefore : st.before.Moved r' := hseen.2.resolve_left hstored
  obtain ⟨herr, hended⟩ := hmoved (hguar.keeps (stable_moved r') hmovedBefore)
  rw [huid]
  exact ⟨hres herr, fun _ => hended⟩

variable {c : Server.Choice}

theorem create_some {t' : Service} (h : (s.answer c (.create t)).1 = some t') :
    t' = s.fresh t ∧ (s.answer c (.create t)).2 = s.addService t ∧ s.service t.ns t.name = none := by
  unfold Server.answer at h ⊢
  dsimp only at h ⊢
  split_ifs at h ⊢ with hfind
  rcases writes_cases (s := s) c none (some (s.fresh t), s.addService t) with ⟨heq, -⟩ | ⟨heq, -⟩ | ⟨heq, -⟩
  · rw [heq] at h
    cases h
  · rw [heq] at h
    cases h
  · rw [heq] at h ⊢
    exact ⟨(some.inj h).symm, rfl, not_isSome_iff_eq_none.mp hfind⟩

theorem mem_addService (h : s.service t.ns t.name = none) {u : Service} :
    u ∈ (s.addService t).services ↔ u ∈ s.services ∨ u = s.fresh t := by
  unfold addService
  rw [h, if_neg (by decide), mem_append, mem_singleton]

theorem stable_read (r : Record) : world.Stable fun s => s.Sound ∧ s.Seen r := stable_sound.and (stable_seen r)

theorem issue_fenced (a : Authority) (id : Identity) (e : Entry) (vpc nonce : String) (until_ : Int)
    (h : Decided r tr s) : world.wp Guar Fenced (a.issue id r e vpc nonce until_) tr s := by
  refine wp_request (q := .create _) (stable_read r) ⟨h.sound, h.seen⟩ (always_lawful rfl) ?_
  intro s₁ c₁ hs₁ hs₁'
  have hguar := guar_answer (q := .create (a.newService id r e nonce until_)) (lawful_of_quiet rfl s₁) c₁ rfl
  cases hcreated : (s₁.answer c₁ (.create (a.newService id r e nonce until_))).1 with
  | none =>
    refine fenced_of_write h.unwritten (fun _ hst => nomatch hst) ?_
    exact fun t r' _ _ _ _ => ⟨nofun, fun hfailed => nomatch hfailed⟩
  | some t' =>
    rw [hcreated] at hguar
    obtain ⟨rfl, hadd, hnone⟩ := create_some hcreated
    have hmem : s₁.fresh (a.newService id r e nonce until_) ∈
        (s₁.answer c₁ (.create (a.newService id r e nonce until_))).2.services := by
      rw [hadd]
      exact (mem_addService hnone).mpr (.inr rfl)
    refine wp_bind (unchanged_fenced h.unwritten h.only hs₁.2 hguar hs₁'.1 (hs₁'.1.knows hmem) ?_) ?_
    · rintro u ⟨-, hafter, hbefore, -⟩
      change u ∈ (s₁.answer c₁ _).2.services at hafter
      rw [hadd] at hafter
      obtain rfl := ((mem_addService hnone).mp hafter).resolve_left hbefore
      exact ⟨rfl, rfl⟩
    · rintro tr₂ s₂ ⟨t₂, err⟩ ⟨-, -, hfenced⟩
      cases err with
      | some err => exact hfenced _ fun _ => nofun
      | none => exact hfenced _ fun hne => absurd rfl hne

/-! ### `Refresh` -/

theorem lawful_renewed (h : s.Knows t) (hret : t.retired = false) (until_ : Int) :
    s.Lawful (.update (t.renewed until_)) := by
  intro t' ht'
  cases ht'
  exact ⟨t, h, hret, rfl, rfl, rfl, rfl⟩

theorem renew_spec {I : Server → Prop} (hI : world.Stable I) (hi : I s) (hs : s.Sound) (ht : s.Knows t)
    (hret : t.retired = false) (until_ : Int) : world.wp Guar (fun tr' s' out => s'.Sound ∧
      ((out = (t, none) ∧ tr' = tr ∧ s' = s) ∨ ∃ st, tr' = tr ++ [st] ∧ st.after = s' ∧ Guar st ∧ I st.before ∧
        (∀ u, Writes st u → u.uid = t.uid ∧ u.connector = t.connector) ∧
        ((out.2 = none ∧ s'.Knows out.1 ∧ out.1.uid = t.uid) ∨
          (∃ e, out.2 = some e ∧ e.kind = .unavailable) ∧ (Failed st = false → ∀ u, ¬ Writes st u))))
      (renew t until_) tr s := by
  unfold renew
  split_ifs with hsame
  · exact ⟨hs, .inl ⟨rfl, rfl, rfl⟩⟩
  refine wp_request (q := .update _) ((stable_handed t).and hI) ⟨⟨hs, ht⟩, hi⟩
    (fun s h => lawful_renewed h.1.2 hret _) ?_
  rintro s₁ c₁ ⟨⟨hs₁, ht₁⟩, hi₁⟩ ⟨⟨hs₁', -⟩, -⟩
  have hlawful := lawful_renewed ht₁ hret until_
  have hrefused : ∀ reply, (s₁.answer c₁ (.update (t.renewed until_))).2 = s₁ →
      ∀ u, ¬ Writes ⟨s₁, .update (t.renewed until_), reply, (s₁.answer c₁ (.update (t.renewed until_))).2⟩ u := by
    rintro reply hstate u ⟨-, hafter, hbefore, -⟩
    change u ∈ (s₁.answer c₁ _).2.services at hafter
    rw [hstate] at hafter
    exact hbefore hafter
  have hwrites : ∀ reply u, Writes ⟨s₁, .update (t.renewed until_), reply,
      (s₁.answer c₁ (.update (t.renewed until_))).2⟩ u → u.uid = t.uid ∧ u.connector = t.connector := by
    rintro reply u ⟨-, hafter, hbefore, -⟩
    rw [update_new hafter hbefore]
    exact ⟨rfl, rfl⟩
  cases hwritten : (s₁.answer c₁ (.update (t.renewed until_))).1 with
  | ok t' =>
    obtain ⟨rfl, old, hold, hput⟩ := update_ok hwritten
    have hmem := service_mem_put (s := s₁) (t := t.renewed until_) hold
    rw [← hput] at hmem
    exact ⟨hs₁', .inr ⟨_, rfl, rfl, guar_answer hlawful c₁ hwritten, hi₁, hwrites _, .inl ⟨rfl, hs₁'.knows hmem, rfl⟩⟩⟩
  | conflict =>
    exact ⟨hs₁', .inr ⟨_, rfl, rfl, guar_answer hlawful c₁ hwritten, hi₁, hwrites _,
      .inr ⟨⟨_, rfl, rfl⟩, fun _ => hrefused _ (update_refused (.inl hwritten))⟩⟩⟩
  | notFound =>
    exact ⟨hs₁', .inr ⟨_, rfl, rfl, guar_answer hlawful c₁ hwritten, hi₁, hwrites _,
      .inr ⟨⟨_, rfl, rfl⟩, fun _ => hrefused _ (update_refused (.inr hwritten))⟩⟩⟩
  | failed =>
    exact ⟨hs₁', .inr ⟨_, rfl, rfl, guar_answer hlawful c₁ hwritten, hi₁, hwrites _,
      .inr ⟨⟨_, rfl, rfl⟩, fun hfailed => Bool.noConfusion hfailed⟩⟩⟩

/-- A result with the service as it is afterwards: it can be retired, unless the API server could not be reached. -/
def Prolonged (tr : List Asked) (s : Server) (out : Service × Except Error Grant) : Prop :=
  s.Sound ∧ (∀ e, out.2 = .error e → e.kind ≠ .unavailable → s.Handles out.1) ∧ Fenced tr s out.2

theorem prolong_fenced (h : Decided r tr s) (ht : s.Knows t) (hret : t.retired = false)
    (hcon : t.connector = r.connector) (e : Entry) (vpc : String) (until_ : Int) :
    world.wp Guar Prolonged (prolong t r e vpc until_) tr s := by
  refine wp_bind (renew_spec (stable_seen r) h.seen h.sound ht hret until_) ?_
  rintro tr₁ s₁ out ⟨hs₁, hout⟩
  rcases hout with ⟨rfl, rfl, rfl⟩ | ⟨st, rfl, rfl, hguar, hseen, hwrites, hout⟩
  · -- nothing was written
    refine wp_bind (wp_sends (unchanged_spec (r := r) hs₁ ht) (sends_unchanged t r)) ?_
    rintro tr₂ s₂ ⟨t₂, err⟩ ⟨⟨hs₂, ht₂, -⟩, new, rfl, hnew⟩
    have hun := h.unwritten.append (unwritten_of_mild hnew)
    cases err with
    | some err | none => exact ⟨hs₂, fun _ _ _ => ht₂, hun.fenced _⟩
  obtain ⟨t₁, err⟩ := out
  rcases hout with ⟨herr, hknows, huid⟩ | ⟨⟨err', herr, hkind⟩, hnone⟩
  · obtain rfl : err = none := herr
    refine wp_bind (unchanged_fenced h.unwritten h.only hseen hguar hs₁ hknows
      fun u hu => ⟨(hwrites u hu).1.trans huid.symm, (hwrites u hu).2.trans hcon⟩) ?_
    rintro tr₂ s₂ ⟨t₂, err₂⟩ ⟨hs₂, ht₂, hfenced⟩
    cases err₂ with
    | some err₂ => exact ⟨hs₂, fun _ _ _ => ht₂, hfenced _ fun _ => nofun⟩
    | none => exact ⟨hs₂, fun _ _ _ => ht₂, hfenced _ fun hne => absurd rfl hne⟩
  · obtain rfl : err = some err' := herr
    refine ⟨hs₁, fun e he hne => ?_, fenced_of_write h.unwritten (fun _ hst => nomatch hst) ?_⟩
    · cases he
      exact absurd hkind hne
    · exact fun u r' hu _ _ _ => ⟨nofun, fun hfailed => absurd hu (hnone hfailed u)⟩

theorem Decided.prolonged (h : Decided r tr s) (ht : s.Knows t) (res : Except Error Grant) : Prolonged tr s (t, res) :=
  ⟨h.sound, fun _ _ _ => .inl ht, h.unwritten.fenced res⟩

theorem revalidateRecord_fenced (a : Authority) (h : Decided r tr s) (ht : s.Knows t) (hret : t.retired = false)
    (hcon : t.connector = r.connector) (revision start : Int) :
    world.wp Guar Prolonged (a.revalidateRecord t revision start r) tr s := by
  unfold revalidateRecord
  cases a.current r start with
  | error e => exact h.prolonged ht _
  | ok u =>
    dsimp only
    split_ifs with hchanged
    · exact h.prolonged ht _
    refine wp_bind (wp_idle h (sends_vpcID r.vpc) (stable_knows t) ht) ?_
    rintro tr₁ s₁ out ⟨ht₁, h₁, -⟩
    cases out with
    | error e => exact h₁.prolonged ht₁ _
    | ok vpc =>
      refine wp_bind (wp_idle h₁ (sends_allocationOf r) (stable_knows t) ht₁) ?_
      rintro tr₂ s₂ out ⟨ht₂, h₂, -⟩
      cases out with
      | error e => exact h₂.prolonged ht₂ _
      | ok e =>
        dsimp only
        split_ifs with hallocation
        · exact h₂.prolonged ht₂ _
        · cases a.validity start r with
          | error err => exact h₂.prolonged ht₂ _
          | ok until_ => exact prolong_fenced h₂ ht₂ hret hcon e vpc until_

theorem revalidate_fenced (a : Authority) (hs : s.Sound) (hun : Unwritten tr) (hblind : ∀ rd ∈ tr, ∀ r, ¬ Reads rd r)
    (ht : s.Knows t) (hret : t.retired = false) (revision start : Int) :
    world.wp Guar Prolonged (a.revalidate t revision start) tr s := by
  refine wp_bind (wp_sends (wp_keeps (readRecord_spec hs t.connector) (stable_knows t) ht)
    ((sends_readRecord t.connector).mono fun _ h => h.1)) ?_
  rintro tr₁ s₁ out ⟨⟨⟨hs₁, hfound, st, rfl, hreads⟩, ht₁⟩, new, hnew, hmild⟩
  obtain rfl := append_cancel_left hnew
  have hun₁ : Unwritten (tr ++ [st]) := hun.append (unwritten_of_mild hmild)
  cases out with
  | notFound | failed => exact ⟨hs₁, fun _ _ _ => .inl ht₁, hun₁.fenced _⟩
  | ok r =>
    obtain ⟨hstored, hcon⟩ := hfound r rfl
    have hdecided : Decided r (tr ++ [st]) s₁ := by
      refine ⟨hs₁, hun₁, ?_, hs₁.seen (hcon ▸ hstored)⟩
      intro rd hrd r' hr' _
      rcases mem_append.mp hrd with hrd | hrd
      · exact absurd hr' (hblind rd hrd r')
      · rw [mem_singleton.mp hrd] at hr'
        exact (Found.ok.inj (hreads r' hr')).symm
    exact revalidateRecord_fenced a hdecided ht₁ hret hcon.symm revision start

theorem retire_fenced {e : Error} (hs : s.Sound) (ht : s.Handles t) (h : Fenced tr s (.error e)) :
    world.wp Guar Fenced (do let _ ← retire t; pure (.error e) : Api (Except Error Grant)) tr s := by
  have hkeep : world.Stable fun s' => ∀ uid, s.Ended uid → s'.Ended uid :=
    fun s' m hs' uid huid => stable_ended uid s' m (hs' uid huid)
  refine wp_bind (wp_sends (wp_keeps (retire_sound hs ht) hkeep fun _ h => h)
    ((sends_retire t).mono fun _ h => h.1)) ?_
  rintro tr₁ s₁ out ⟨⟨-, hkept⟩, new, rfl, hnew⟩
  exact h.extend (unwritten_of_mild hnew) hkept

/-- The requests so far read no record and wrote nothing. -/
def Plainly (tr : List Asked) : Prop := ∀ st ∈ tr, st.q.Plain ∧ Guar st

theorem Plainly.unwritten (h : Plainly tr) : Unwritten tr :=
  unwritten_of_mild fun st hst => ⟨(h st hst).1.1, (h st hst).2⟩

theorem Plainly.not_reads (h : Plainly tr) : ∀ rd ∈ tr, ∀ r, ¬ Reads rd r :=
  fun rd hrd => not_reads_of_blind (h rd hrd).1.2

theorem wp_plainly (h : Plainly tr) (hp : world.wp Guar post p tr s) (hsends : p.Sends Query.Plain) :
    world.wp Guar (fun tr' s' a => post tr' s' a ∧ Plainly tr') p tr s := by
  refine wp_mono (wp_sends hp hsends) ?_
  rintro tr' s' a ⟨hpost, new, rfl, hnew⟩
  exact ⟨hpost, forall_mem_append.mpr ⟨h, hnew⟩⟩

theorem sends_now : (now : Api Int).Sends Query.Idle := ⟨⟨⟨rfl, rfl⟩, rfl⟩, fun _ => trivial⟩

theorem sends_readService (id : Identity) (auth : String) (ref : ServiceRef) :
    (readService id auth ref).Sends Query.Idle := by
  refine ⟨⟨⟨rfl, rfl⟩, rfl⟩, fun found => ?_⟩
  cases found with
  | ok t =>
    show Prog.Sends _ (if _ then _ else _)
    split_ifs <;> trivial
  | notFound => trivial
  | failed => trivial

theorem readService_spec (id : Identity) (auth : String) (ref : ServiceRef) (hs : s.Sound) :
    world.wp Guar (fun _ s' out => s'.Sound ∧ ∀ t, out = .ok t → s'.Knows t) (readService id auth ref) tr s := by
  refine wp_request (q := .getService _ _) stable_sound hs (always_lawful rfl) ?_
  intro s₁ c₁ hs₁ hs₁'
  cases hfound : (s₁.answer c₁ (.getService ref.ns ref.name)).1 with
  | notFound | failed => exact ⟨hs₁', by simp⟩
  | ok t =>
    show world.wp Guar _ (if _ then _ else _) _ _
    split_ifs
    · exact ⟨hs₁', by simp⟩
    · refine ⟨hs₁', fun t' ht' => ?_⟩
      cases ht'
      exact hs₁.knows (getService_ok hfound).1

theorem refreshService_fenced (a : Authority) (auth : String) (revision start : Int) (hs : s.Sound) (htr : Plainly tr)
    (ht : s.Knows t) : world.wp Guar Fenced (a.refreshService auth revision start t) tr s := by
  unfold refreshService
  split_ifs with hrevision hover
  · exact htr.unwritten.fenced _
  · exact retire_fenced hs (.inl ht) (htr.unwritten.fenced _)
  have hret : t.retired = false := by simpa using (not_or.mp hover).1
  refine wp_bind (revalidate_fenced a hs htr.unwritten htr.not_reads ht hret revision start) ?_
  rintro tr₁ s₁ ⟨t₁, out⟩ ⟨hs₁, hhandles, hfenced⟩
  cases out with
  | ok g => exact hfenced
  | error e =>
    show world.wp Guar _ (if e.kind = .unavailable then _ else _) _ _
    split_ifs with hkind
    · exact hfenced
    · exact retire_fenced hs₁ (hhandles e rfl hkind) hfenced

theorem refresh_fenced (a : Authority) (id : Identity) (auth : String) (revision : Int) (ref : ServiceRef)
    (hs : s.Sound) : world.wp Guar Fenced (a.refresh id auth revision ref) [] s := by
  have hnil : Plainly [] := fun _ hst => nomatch hst
  unfold refresh
  cases a.caller id with
  | error e => exact hnil.unwritten.fenced _
  | ok u =>
    refine wp_bind (wp_plainly hnil (wp_sound sends_now hs) (sends_now.mono fun _ h => h.1)) ?_
    rintro tr₁ s₁ start ⟨hs₁, htr₁⟩
    refine wp_bind (wp_plainly htr₁ (readService_spec id auth ref hs₁)
      ((sends_readService id auth ref).mono fun _ h => h.1)) ?_
    rintro tr₂ s₂ out ⟨⟨hs₂, hknows⟩, htr₂⟩
    cases out with
    | error e => exact htr₂.unwritten.fenced _
    | ok t => exact refreshService_fenced a auth revision start hs₂ htr₂ (hknows t rfl)

/-! ### `Authorize` -/

def Lists : Asked → List Service → Prop
  | ⟨_, .listServices _ _, some list, _⟩, l => list = l
  | _, _ => False

/-- The request reads the clock. -/
def Tells : Asked → Int → Prop
  | ⟨_, .now, now, _⟩, t => now = t
  | _, _ => False

/-- No authorization that the call lists can be renewed for its pod: each is retired, of another pod or another revision
than that of the record read, or expired whenever the call reads the clock. -/
def NothingToRenew (a : Authority) (id : Identity) (tr : List Asked) : Prop :=
  ∀ rd ∈ tr, ∀ r, Reads rd r → ∀ ls ∈ tr, ∀ list, Lists ls list → ∀ nw ∈ tr, ∀ now, Tells nw now → ∀ t ∈ list,
    t.connector = r.connector → renewable id r t = true → a.expired t now = true

theorem NothingToRenew.of_append {a : Authority} {id : Identity} (h : NothingToRenew a id (tr ++ new)) :
    NothingToRenew a id tr :=
  fun rd hrd r hr ls hls list hlist nw hnw => h rd (mem_append_left _ hrd) r hr ls (mem_append_left _ hls) list hlist
    nw (mem_append_left _ hnw)

theorem listSecrets_some {list : List Secret} (h : (s.answer c .listSecrets).1 = some list) :
    ∀ x ∈ list, x ∈ s.secrets := by
  unfold Server.answer at h
  dsimp only at h
  split_ifs at h
  cases h
  exact fun x hx => mem_of_mem_filter hx

theorem listServices_some {ns connector : Option String} {list : List Service}
    (h : (s.answer c (.listServices ns connector)).1 = some list) :
    ∀ t ∈ list, t ∈ s.services ∧ connector.all (· = t.connector) := by
  unfold Server.answer at h
  dsimp only at h
  split_ifs at h
  cases h
  exact fun t ht => ⟨mem_of_mem_filter ht, (of_decide_eq_true (mem_filter.mp ht).2).2.2⟩

theorem matchRecord_spec (credential : String) (hs : s.Sound) (htr : Plainly tr) :
    world.wp Guar (fun tr' s' out => s'.Sound ∧ Unwritten tr' ∧
      ∀ r, out = .ok r → Decided r tr' s' ∧ ∃ rd ∈ tr', Reads rd r) (matchRecord credential) tr s := by
  unfold matchRecord
  split_ifs
  · exact ⟨hs, htr.unwritten, by simp⟩
  refine wp_request (q := .listSecrets) stable_sound hs (always_lawful rfl) ?_
  intro s₁ c₁ hs₁ hs₁'
  have hstep : ∀ reply, Unwritten (tr ++ [⟨s₁, .listSecrets, reply, (s₁.answer c₁ .listSecrets).2⟩]) := by
    intro reply
    refine htr.unwritten.append fun st hst t ⟨⟨t₀, hq⟩, _⟩ => ?_
    rw [mem_singleton.mp hst] at hq
    simp at hq
  cases hlist : (s₁.answer c₁ .listSecrets).1 with
  | none => exact ⟨hs₁', hstep _, by simp⟩
  | some list =>
    have hmem := listSecrets_some hlist
    dsimp only
    cases hfind : (list.filterMap fun x => (decodeRecord x).toOption).reverse.find?
      (·.digest = digestOf credential) with
    | none => exact ⟨hs₁', hstep _, by simp⟩
    | some r =>
      obtain ⟨x, hx, hdec⟩ := mem_filterMap.mp (mem_reverse.mp (mem_of_find?_eq_some hfind))
      have hok : ∀ {y : Secret} {r' : Record}, (decodeRecord y).toOption = some r' → decodeRecord y = .ok r' := by
        intro y r' hy
        cases hdec' : decodeRecord y with
        | error e => rw [hdec'] at hy; cases hy
        | ok r'' => rw [hdec'] at hy; rw [some.inj hy]
      have hstored := hs₁.record (hmem x hx) (hok hdec)
      refine ⟨hs₁', hstep _, fun r' hr' => ?_⟩
      cases hr'
      refine ⟨⟨hs₁', hstep _, ?_, hs₁.seen hstored⟩, _, mem_concat_self, x, hx, hok hdec⟩
      intro rd hrd r' hr' hcon
      rcases mem_append.mp hrd with hrd | hrd
      · exact absurd hr' (htr.not_reads rd hrd r')
      rw [mem_singleton.mp hrd] at hr'
      obtain ⟨y, hy, hdec'⟩ := hr'
      have hother := hs₁.record (hmem y hy) hdec'
      rw [hcon] at hother
      exact mem_unique hother hstored

section
variable (a : Authority) (id : Identity)

include a id

theorem findRenewable_spec (list : List Service) :
    world.wp Guar (fun tr' _ out => ∀ t, out = some t → t ∈ list ∧ renewable id r t ∧
      ∃ nw ∈ tr', ∃ now, Tells nw now ∧ a.expired t now = false) (a.findRenewable id r list) tr s := by
  induction list generalizing tr s with
  | nil => exact fun t ht => absurd ht (by simp)
  | cons t ts ih =>
    have htail : ∀ {tr s}, world.wp Guar (fun tr' _ out => ∀ u, out = some u → u ∈ t :: ts ∧
        renewable id r u ∧ ∃ nw ∈ tr', ∃ now, Tells nw now ∧ a.expired u now = false)
        (a.findRenewable id r ts) tr s := fun {tr s} => wp_mono (@ih s tr) fun _ _ _ h u hu =>
      ⟨mem_cons_of_mem _ (h u hu).1, (h u hu).2⟩
    unfold findRenewable
    split_ifs with hrenewable
    · refine wp_request (q := .now) (I := fun _ => True) (fun _ _ _ => trivial) trivial (always_lawful rfl) ?_
      intro s₁ c₁ _ _
      show world.wp Guar _ (if a.expired t (s₁.answer c₁ .now).1 then _ else _) _ _
      split_ifs with hexpired
      · exact htail
      intro u hu
      cases hu
      exact ⟨mem_cons_self, hrenewable, _, mem_concat_self, _, rfl, by simpa using hexpired⟩
    · exact htail

theorem authorizeListed_fenced (nonce : String) (until_ : Int) (vpc : String) (e : Entry) (list : List Service)
    (h : Decided r tr s) (hlist : ∀ t ∈ list, s.Knows t) (hcon : ∀ t ∈ list, t.connector = r.connector)
    (hread : ∃ rd ∈ tr, Reads rd r) (hlisted : ∃ ls ∈ tr, Lists ls list) :
    world.wp Guar (fun tr' s' res => NothingToRenew a id tr' → Fenced tr' s' res)
      (a.authorizeListed id nonce r until_ vpc e list) tr s := by
  unfold authorizeListed
  cases list.find? fun t => t.nonce = nonce ∧ t.pod = id.podUID with
  | some t =>
    refine wp_mono (wp_idle h (sends_retry a r e vpc t) stable_sound h.sound) ?_
    rintro tr₁ s₁ res ⟨-, h₁, -⟩ -
    exact h₁.unwritten.fenced res
  | none =>
    have hfind := sends_findRenewable a id r list
    refine wp_bind (wp_decided h (hfind.mono fun _ h => h.1)
      (wp_keeps (findRenewable_spec a id list) (stable_list list) hlist)) ?_
    rintro tr₁ s₁ out ⟨⟨hout, hlist₁⟩, h₁, new, rfl⟩
    cases out with
    | some t =>
      -- the authorization the pod holds is renewed, which `NothingToRenew` excludes
      obtain ⟨hmem, hrenewable, nw, hnw, now, htells, hexpired⟩ := hout t rfl
      have hret : t.retired = false := (of_decide_eq_true hrenewable).1
      have hnot : ¬ NothingToRenew a id (tr ++ new) := by
        intro hnothing
        obtain ⟨rd, hrd, hr⟩ := hread
        obtain ⟨ls, hls, hl⟩ := hlisted
        have := hnothing rd (mem_append_left _ hrd) r hr ls (mem_append_left _ hls) list hl nw hnw now htells t hmem
          (hcon t hmem) hrenewable
        exact Bool.noConfusion (hexpired.symm.trans this)
      refine wp_bind (wp_sends (renew_spec stable_sound h₁.sound h₁.sound (hlist₁ t hmem) hret until_)
        (sends_true _)) ?_
      rintro tr₂ s₂ ⟨t₂, err⟩ ⟨-, new₂, rfl, -⟩
      cases err with
      | some err | none => exact fun hnothing => absurd hnothing.of_append hnot
    | none =>
      refine wp_bind (wp_decided h₁ (sends_drain list) (drain_sound list h₁.sound hlist₁)) ?_
      rintro tr₂ s₂ out ⟨-, h₂, -⟩
      cases out with
      | error err => exact fun _ => h₂.unwritten.fenced _
      | ok draining =>
        dsimp only
        split_ifs
        · exact fun _ => h₂.unwritten.fenced _
        · exact wp_mono (issue_fenced a id e vpc nonce until_ h₂) fun _ _ _ hfenced _ => hfenced

theorem authorizeRecord_fenced (req : AuthorizeRequest) (start : Int) (h : Decided r tr s)
    (hread : ∃ rd ∈ tr, Reads rd r) : world.wp Guar (fun tr' s' res => NothingToRenew a id tr' →
      Fenced tr' s' res) (a.authorizeRecord id req start r) tr s := by
  unfold authorizeRecord
  cases a.validity start r with
  | error e => exact fun _ => h.unwritten.fenced _
  | ok until_ =>
    dsimp only
    split_ifs with hvpc
    · exact fun _ => h.unwritten.fenced _
    refine wp_bind (wp_idle h (sends_vpcID r.vpc) stable_sound h.sound) ?_
    rintro tr₁ s₁ out ⟨-, h₁, new₁, rfl⟩
    cases out with
    | error e => exact fun _ => h₁.unwritten.fenced _
    | ok vpc =>
      refine wp_bind (wp_idle h₁ (sends_allocationOf r) stable_sound h₁.sound) ?_
      rintro tr₂ s₂ out ⟨-, h₂, new₂, rfl⟩
      cases out with
      | error e => exact fun _ => h₂.unwritten.fenced _
      | ok e =>
        refine wp_request (q := .listServices _ _) (stable_read r) ⟨h₂.sound, h₂.seen⟩ (always_lawful rfl) ?_
        intro s₃ c₃ hs₃ hs₃'
        cases hlist : (s₃.answer c₃ (.listServices (some r.vpc.ns) (some r.connector))).1 with
        | none =>
          have h₃ := h₂.snoc hs₃'.1 hs₃'.2 ⟨rfl, rfl⟩ (guar_answer (lawful_of_quiet rfl s₃) c₃ hlist)
          exact fun _ => h₃.unwritten.fenced _
        | some list =>
          have h₃ := h₂.snoc hs₃'.1 hs₃'.2 ⟨rfl, rfl⟩ (guar_answer (lawful_of_quiet rfl s₃) c₃ hlist)
          have hmem := listServices_some hlist
          obtain ⟨rd, hrd, hr⟩ := hread
          refine authorizeListed_fenced a id req.nonce until_ vpc e list h₃ (fun t ht => hs₃.1.knows (hmem t ht).1)
            (fun t ht => (of_decide_eq_true (hmem t ht).2).symm) ⟨rd, ?_, hr⟩ ⟨_, mem_concat_self, rfl⟩
          exact mem_append_left _ (mem_append_left _ (mem_append_left _ hrd))

theorem authorize_fenced (req : AuthorizeRequest) (hs : s.Sound) :
    world.wp Guar (fun tr' s' res => NothingToRenew a id tr' → Fenced tr' s' res) (a.authorize id req) [] s := by
  have hnil : Plainly [] := fun _ hst => nomatch hst
  unfold authorize
  cases a.caller id with
  | error e => exact fun _ => hnil.unwritten.fenced _
  | ok u =>
    dsimp only
    split_ifs with hnonce
    · exact fun _ => hnil.unwritten.fenced _
    refine wp_bind (wp_plainly hnil (wp_sound sends_now hs) (sends_now.mono fun _ h => h.1)) ?_
    rintro tr₁ s₁ start ⟨hs₁, htr₁⟩
    split_ifs with hwindow
    · exact fun _ => htr₁.unwritten.fenced _
    refine wp_bind (matchRecord_spec req.credential hs₁ htr₁) ?_
    rintro tr₂ s₂ out ⟨-, hun, hout⟩
    cases out with
    | error e => exact fun _ => hun.fenced _
    | ok r =>
      obtain ⟨hdecided, hread⟩ := hout r rfl
      exact authorizeRecord_fenced a id req start hdecided hread

end

/-! ### `Retire` and `Sweep` -/

theorem retireCall_sound (a : Authority) (id : Identity) (auth : String) (ref : ServiceRef) (hs : s.Sound) :
    world.wp Guar (fun _ _ _ => True) (a.retireCall id auth ref) tr s := by
  unfold retireCall
  cases a.caller id with
  | error e => trivial
  | ok u =>
    refine wp_request (q := .getService _ _) stable_sound hs (always_lawful rfl) ?_
    intro s₁ c₁ _ hs₁
    dsimp only
    split_ifs
    · trivial
    refine wp_bind (readService_spec id auth ref hs₁) ?_
    rintro tr₂ s₂ out ⟨hs₂, hknows⟩
    cases out with
    | error e => trivial
    | ok t =>
      refine wp_bind (retire_sound hs₂ (.inl (hknows t rfl))) ?_
      rintro tr₃ s₃ ⟨t', err⟩ -
      cases err <;> trivial

theorem sweepService_sound (a : Authority) (records : List Record) (now : Int) (hs : s.Sound) (ht : s.Knows t) :
    world.wp Guar (fun _ s' _ => s'.Sound) (a.sweepService records now t) tr s := by
  unfold sweepService
  split_ifs
  · exact hs
  · exact hs
  refine wp_bind (ending_sound hs (.inl ht)) ?_
  rintro tr₁ s₁ ⟨t', err⟩ hs₁
  cases err with
  | some e => exact hs₁
  | none =>
    refine wp_bind (reap_sound hs₁) ?_
    intro tr₂ s₂ out hs₂
    cases out <;> exact hs₂

theorem sweepServices_sound (a : Authority) (records : List Record) (now : Int) (list : List Service) (hs : s.Sound)
    (hlist : ∀ t ∈ list, s.Knows t) : world.wp Guar (fun _ _ _ => True) (a.sweepServices records now list) tr s := by
  induction list generalizing s tr with
  | nil => trivial
  | cons t ts ih =>
    have hts : ∀ u ∈ ts, s.Knows u := fun u hu => hlist u (mem_cons_of_mem _ hu)
    refine wp_bind (wp_keeps (sweepService_sound a records now hs (hlist t mem_cons_self)) (stable_list ts) hts) ?_
    rintro tr₁ s₁ err ⟨hs₁, hts₁⟩
    exact wp_bind (ih hs₁ hts₁) fun _ _ _ _ => trivial

theorem sweep_sound (a : Authority) (hs : s.Sound) : world.wp Guar (fun _ _ _ => True) a.sweep tr s := by
  refine wp_request (q := .listSecrets) stable_sound hs (always_lawful rfl) ?_
  intro s₁ c₁ _ hs₁
  cases (s₁.answer c₁ .listSecrets).1 with
  | none => trivial
  | some secrets =>
    refine wp_request (q := .listServices _ _) stable_sound hs₁ (always_lawful rfl) ?_
    intro s₂ c₂ hs₂ hs₂'
    cases hlist : (s₂.answer c₂ (.listServices none none)).1 with
    | none => trivial
    | some list =>
      have hknows : ∀ t ∈ list, s₂.Knows t := fun t ht => hs₂.knows (listServices_some hlist t ht).1
      refine wp_request (q := .now) (stable_sound.and (stable_list list)) ⟨hs₂', hknows⟩ (always_lawful rfl) ?_
      intro s₃ c₃ _ hs₃
      exact sweepServices_sound a _ _ list hs₃.1 hs₃.2

end Specs

/-! ### Every call -/

inductive Demand
  | authorize (id : Identity) (req : AuthorizeRequest)
  | refresh (id : Identity) (auth : String) (revision : Int) (ref : ServiceRef)
  | retire (id : Identity) (auth : String) (ref : ServiceRef)
  | sweep

/-- The call; `Authorize` and `Refresh` return a grant or an error. -/
def Demand.prog (a : Authority) : Demand → Api (Option (Except Error Grant))
  | .authorize id req => do
    let res ← a.authorize id req
    pure (some res)
  | .refresh id auth revision ref => do
    let res ← a.refresh id auth revision ref
    pure (some res)
  | .retire id auth ref => do
    let _ ← a.retireCall id auth ref
    pure none
  | .sweep => do
    let _ ← a.sweep
    pure none

/-- The call is not an `Authorize` that could renew an authorization. -/
def Demand.RenewsNothing (a : Authority) (tr : List Asked) : Demand → Prop
  | .authorize id _ => NothingToRenew a id tr
  | _ => True

theorem Demand.fenced (a : Authority) (d : Demand) {s : Server} (hs : s.Sound) :
    world.wp Guar (fun tr s res => ∀ r, res = some r → d.RenewsNothing a tr → Fenced tr s r) (d.prog a) [] s := by
  cases d with
  | authorize id req =>
    refine wp_bind (authorize_fenced a id req hs) ?_
    intro tr s' res hres r hr hrenews
    rw [← some.inj hr]
    exact hres hrenews
  | refresh id auth revision ref =>
    refine wp_bind (refresh_fenced a id auth revision ref hs) ?_
    intro tr s' res hres r hr _
    rw [← some.inj hr]
    exact hres
  | retire id auth ref =>
    refine wp_bind (retireCall_sound a id auth ref hs) ?_
    exact fun _ _ _ _ r hr => absurd hr (by simp)
  | sweep =>
    refine wp_bind (sweep_sound a hs) ?_
    exact fun _ _ _ _ r hr => absurd hr (by simp)

/-- The request leaves a retired authorization as it is, or removes it. -/
def KeepsRetired (st : Asked) : Prop :=
  ∀ t ∈ st.before.services, t.retired = true → ∀ u ∈ st.after.services, u.uid = t.uid →
    u.retired = true ∧ u.validUntil = t.validUntil

theorem Guar.keepsRetired {st : Asked} (h : Guar st) (hs : st.before.Sound) : KeepsRetired st := by
  intro t ht hret u hu huid
  have hstable : world.Stable fun s => s.Each t.uid fun u => u.retired ∧ u.validUntil = t.validUntil := by
    intro s m hs
    refine hs.evolves (s.move_change m).evolves fun old new hallows hold => ?_
    obtain ⟨hnew, huntil⟩ := (Server.allows_iff.mp hallows).2.2.2 hold.1
    exact ⟨hnew, huntil.trans hold.2⟩
  have hbefore : st.before.Each t.uid fun u => u.retired ∧ u.validUntil = t.validUntil := by
    refine ⟨(hs.bound t ht).2, fun v hv hvuid => ?_⟩
    rw [hs.uids v hv t ht hvuid]
    exact ⟨hret, rfl⟩
  exact (h.keeps hstable hbefore).2 u hu huid

/-- **The revocation fence**, for every call and whatever the others do meanwhile; and every request of every call does
what the others are allowed, so a retired authorization stays as it is. -/
theorem revocation_fence (a : Authority) (d : Demand) (s : Server) (hs : s.Sound) (sched : world.Schedule) :
    (∀ res, (world.play (d.prog a) s sched).2.1 = some (some res) →
      d.RenewsNothing a (world.play (d.prog a) s sched).1 →
      Fenced (world.play (d.prog a) s sched).1 (world.play (d.prog a) s sched).2.2 res) ∧
    ∀ st ∈ (world.play (d.prog a) s sched).1, KeepsRetired st ∧ ∃ ms, st.after = world.moved st.before ms := by
  have hwp := d.fenced a hs
  refine ⟨fun res hres => play_post hwp sched hres res rfl, fun st hst => ?_⟩
  have hguar := play_guar hwp sched st hst
  have hsound := play_keeps hwp stable_sound (fun _ h => h.keeps stable_sound) hs sched st hst
  exact ⟨hguar.keepsRetired hsound, hguar.2⟩

/-! ### A pod that connects again while its credential is rotated -/

def edgeAuthority : Authority := ⟨"edge", ⟨"edge-system", "provider"⟩, "cell-1", 0, 0, 0⟩

def edgePod : Identity := ⟨⟨"edge-system", "provider"⟩, "pod-1"⟩

/-- The base64url text of 32 zero bytes. -/
def edgeCredential : String := String.ofList (List.replicate 43 'A')

def edgeRecord : Record where
  connector := "6ba7b810-9dad-11d1-80b4-00c04fd430c8"
  cell := "cell-1"
  vpc := ⟨"tenant", "net", "vpc-uid"⟩
  revision := 1
  digest := "0f007385b6f9d4b7eeb2748605afe1a984a0a3bfa3f014d09e2a784ce9e5cd1a"
  expires := seconds 3600
  enabled := true
  routes := []

def edgeSecret : Secret := ⟨recordName edgeRecord.connector, true, edgeRecord.connector, some edgeRecord⟩

def edgeEntry : Entry := ⟨edgeRecord.connector, "allocation-1", .invalid, .invalid, 0, false⟩

/-- The pod's authorization, issued under the record. -/
def edgeService : Service :=
  { edgeAuthority.newService edgePod edgeRecord edgeEntry "0123456789abcdef" (seconds 20) with
    uid := 1, version := 2, authorization := "authorization-1" }

def edgeServer : Server := ⟨[edgeSecret], [edgeService], 3, [edgeRecord.digest]⟩

theorem edgeServer_sound : edgeServer.Sound where
  bound := by decide
  versions := fun _ ht _ hu _ => (mem_singleton.mp ht).trans (mem_singleton.mp hu).symm
  uids := fun _ ht _ hu _ => (mem_singleton.mp ht).trans (mem_singleton.mp hu).symm
  keys := fun _ ht _ hu _ _ => (mem_singleton.mp ht).trans (mem_singleton.mp hu).symm
  names := fun _ hx _ hy _ => (mem_singleton.mp hx).trans (mem_singleton.mp hy).symm
  issued := by
    intro x hx r hr
    rw [mem_singleton.mp hx] at hr
    cases hr
    exact mem_singleton_self _

def edgeChoice : Server.Choice :=
  ⟨false, false, false, seconds 5, .ok ⟨"vpc-uid", false, "abc"⟩,
    some ⟨⟨"tenant", "net", "vpc-uid"⟩, "cell-1", .invalid, .invalid, [edgeEntry]⟩⟩

def rotatedAt (n total : Nat) : world.Schedule :=
  (List.range total).map fun i =>
    (if i = n then [.rotate edgeRecord.connector (String.ofList (List.replicate 64 'e')) (seconds 7200)] else [],
      edgeChoice)

/-- The pod refreshes its authorization, and the credential is rotated before the sixth request. -/
def refreshed : List Asked × Option (Option (Except Error Grant)) × Server :=
  world.play ((Demand.refresh edgePod edgeService.authorization 1
    ⟨"tenant", serviceName edgeRecord.connector, 1⟩).prog edgeAuthority) edgeServer (rotatedAt 5 12)

theorem revocation_fence_refreshed :
    refreshed.2.1 = some (some (.error ⟨.forbidden, .grantChanged edgeRecord.connector⟩)) ∧
      Fenced refreshed.1 refreshed.2.2 (.error ⟨.forbidden, .grantChanged edgeRecord.connector⟩) := by
  refine ⟨?result, (revocation_fence edgeAuthority _ edgeServer edgeServer_sound (rotatedAt 5 12)).1 _ ?result trivial⟩
  decide +kernel

/-- The pod calls `Authorize` with a new nonce, and the credential is rotated before its last request. -/
def reconnected : List Asked × Option (Option (Except Error Grant)) × Server :=
  world.play
    ((Demand.authorize edgePod ⟨edgeCredential, "tenant/net", "fedcba9876543210", seconds 5⟩).prog edgeAuthority)
    edgeServer (rotatedAt 6 7)

instance (st : Asked) (r : Record) : Decidable (Reads st r) := by
  unfold Reads
  split <;> infer_instance

/-- The pod's authorization as the call leaves it. -/
def renewedService : Service := { edgeService with version := 3, validUntil := some (seconds 33) }

/-- The last request of the call. -/
def renewal : Asked := reconnected.1.getLast (by decide +kernel)

/-- It renews the authorization though the record the call read is no longer stored, and returns a grant. -/
theorem renewal_writes : renewal.q.quiet = false ∧ renewedService ∈ renewal.after.services ∧
    renewedService ∉ renewal.before.services ∧ (∃ rd ∈ reconnected.1.dropLast, Reads rd edgeRecord) ∧
    renewal.before.record edgeRecord.connector ≠ some edgeRecord ∧
    reconnected.2.1.any (fun out => out.any fun res => res.toOption.isSome) := by
  decide +kernel

theorem renewal_unfenced : reconnected.2.1.any (fun out => out.any fun res => res.toOption.isSome) = true ∧
    ∀ g, ¬ Fenced reconnected.1 reconnected.2.2 (.ok g) := by
  obtain ⟨hquiet, hafter, hbefore, hreads, hstored, hgrant⟩ := renewal_writes
  refine ⟨hgrant, fun g hfenced => ?_⟩
  have hsplit : reconnected.1 = reconnected.1.dropLast ++ [renewal] := (dropLast_append_getLast _).symm
  have hupdate : ∃ t₀, renewal.q = .create t₀ ∨ renewal.q = .update t₀ := by
    cases hq : renewal.q with
    | update t₀ => exact ⟨t₀, .inr rfl⟩
    | create t₀ => exact ⟨t₀, .inl rfl⟩
    | now | listSecrets | getSecret | getVPC | readLedger | listServices | getService | delete =>
      rw [hq] at hquiet
      cases hquiet
  exact (hfenced _ _ _ renewedService edgeRecord hsplit ⟨hupdate, hafter, hbefore, rfl⟩ hreads rfl hstored).1 g rfl

end Galactic.Masque
