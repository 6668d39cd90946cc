import Galactic.Lib.Past
import Galactic.Ownership.Authority
import Mathlib.Algebra.Ring.Nat

/-!
# Tickets are fenced

In every run of any number of threads, a mutation starts only under a ticket that nothing has made stale: no mutation
started and no fence finished since it was issued. After a first claim, an adoption, or a mutation that failed or was
cut short, the next incremental commit waits for a snapshot's mutation. -/

namespace Galactic.Ownership

open Client Threads Past List Pact Entry Option Op

/-! ### Reading a history -/

namespace Entry

def issues (t : Ticket) : Entry → Bool
  | finished _ (.ok (.ticket t')) => t' = t
  | _ => false

def starts : Entry → Bool
  | started _ => true
  | _ => false

/-- `Fence` succeeded. -/
def fences : Entry → Bool
  | finished .fence (.ok _) => true
  | _ => false

/-- An unowned scope was claimed, the scope was adopted, or a mutation failed or was interrupted. -/
def demands : Entry → Bool
  | wrote (.claim _) _ _ | wrote (.adopt _ _) _ _ | ended _ false | interrupted _ => true
  | _ => false

/-- The mutation of a `CommitSnapshot` succeeded. -/
def resyncs : Entry → Bool
  | ended (.commitSnapshot _) true => true
  | _ => false

/-- A `CommitSnapshot` succeeded. -/
def snapshots : Entry → Bool
  | finished (.commitSnapshot _) (.ok _) => true
  | _ => false

end Entry

def Op.ticket : Op → Option Ticket
  | .commit t | .commitSnapshot t => some t
  | _ => none

def Op.incremental : Op → Bool
  | .commit _ => true
  | _ => false

/-- What must be true of the history when a mutation of the call starts. -/
structure Ready (op : Op) (log : List Entry) : Prop where
  clean : ∀ t, op = .commit t → after (issues t) starts log = false
  unfenced : ∀ t, op.ticket = some t → after (issues t) fences log = false
  synced : op.incremental = true → unanswered demands resyncs log = false

def Fenced (log : List Entry) : Prop := ∀ op before, .started op :: before <:+ log → Ready op before

/-- No counter of the record wraps around to that of the next one. -/
def Record.Rises (old r : Record) : Prop := old.generation ≤ r.generation ∧ old.revision ≤ r.revision

instance (old r : Record) : Decidable (old.Rises r) := inferInstanceAs (Decidable (_ ∧ _))

def Entry.Rises : Entry → Prop
  | wrote _ old r => old.Rises r
  | _ => True

instance : DecidablePred Entry.Rises := fun e => by
  cases e <;> dsimp only [Entry.Rises] <;> infer_instance

variable {P : Type} {s : State P} {r : Record} {op : Op} {e : Entry} {log : List Entry} {t : Ticket}

def State.record (s : State P) : Record := s.file.getD {}

/-! ### How the record answers for the history -/

structure Answers (r : Record) (log : List Entry) : Prop where
  generation_le : ∀ t, log.any (issues t) = true → t.generation ≤ r.generation
  revision_le : ∀ t, log.any (issues t) = true → t.revision ≤ r.revision
  /-- A mutation since a ticket at the record's generation and revision shows as pending. -/
  clean : ∀ t, t.generation = r.generation → t.revision = r.revision → r.pending = false →
    after (issues t) starts log = false
  unfenced : ∀ t, after (issues t) fences log = true → t.generation < r.generation
  synced : r.pending = false → unanswered demands resyncs log = false
  fenced : Fenced log

structure Inv (s : State P) : Prop where
  answers : Answers s.record s.log
  mutating : s.mutating = true → s.lock ≠ none ∧ s.record.pending = true

/-- Only the thread that has the lock changes anything. -/
def pact : Pact P (State P) where
  inv := Inv
  assumes := fun s => ∀ e ∈ s.log, e.Rises
  rely := fun p s s' => s.lock = some p → s' = s

/-! ### One more entry -/

/-- An entry that is no start, and no demand the record does not show, leaves the record answering for the history. -/
theorem Answers.cons (h : Answers r log)
    (hissues : ∀ t, e.issues t → t.generation = r.generation ∧ t.revision = r.revision) (hstarts : e.starts = false)
    (hfences : e.fences → ∀ t, log.any (issues t) → t.generation < r.generation) (hdemands : e.demands → r.pending) :
    Answers r (e :: log) := by
  have hany : ∀ t, (e :: log).any (issues t) → e.issues t ∨ log.any (issues t) := by
    intro t ht
    rwa [any_cons, Bool.or_eq_true] at ht
  refine ⟨?_, ?_, ?_, ?_, ?_, ?_⟩
  · intro t ht
    rcases hany t ht with hnew | hold
    · exact UInt64.le_of_eq (hissues t hnew).1
    · exact h.generation_le t hold
  · intro t ht
    rcases hany t ht with hnew | hold
    · exact UInt64.le_of_eq (hissues t hnew).2
    · exact h.revision_le t hold
  · intro t hg hr hp
    rw [after_cons_of_not hstarts]
    exact h.clean t hg hr hp
  · intro t ht
    rcases (Bool.or_eq_true _ _).mp ht with hnow | hold
    · rw [Bool.and_eq_true] at hnow
      exact hfences hnow.1 t hnow.2
    · exact h.unfenced t hold
  · intro hp
    cases hd : e.demands with
    | true => exact absurd (hdemands hd) (ne_true_of_eq_false hp)
    | false =>
      cases ha : e.resyncs with
      | true => exact unanswered_cons_of_answers ha
      | false => rw [unanswered_cons_of_not hd ha, h.synced hp]
  · intro op' before hsuffix
    rcases suffix_cons_iff.mp hsuffix with heq | hold
    · cases heq
      cases hstarts
    · exact h.fenced op' before hold

theorem Answers.start (h : Answers r log) (hready : Ready op log) (hpending : r.pending) :
    Answers r (.started op :: log) where
  generation_le := fun t ht => h.generation_le t ht
  revision_le := fun t ht => h.revision_le t ht
  clean := fun t _ _ hp => absurd hpending (ne_true_of_eq_false hp)
  unfenced := fun t ht => h.unfenced t (by rwa [after_cons_of_not rfl] at ht)
  synced := fun hp => absurd hpending (ne_true_of_eq_false hp)
  fenced := by
    intro op' before hsuffix
    rcases suffix_cons_iff.mp hsuffix with heq | hold
    · obtain ⟨hentry, rfl⟩ := List.cons.inj heq
      cases hentry
      exact hready
    · exact h.fenced op' before hold

theorem Answers.ready_commit (h : Answers r log) (hg : r.generation = t.generation) (hr : r.revision = t.revision)
    (hp : r.pending = false) : Ready (.commit t) log where
  clean := by
    rintro t' ⟨⟩
    exact h.clean t hg.symm hr.symm hp
  unfenced := by
    rintro t' ⟨⟩
    refine Bool.eq_false_iff.mpr fun hafter => ?_
    exact absurd (h.unfenced t hafter) (hg ▸ UInt64.lt_irrefl _)
  synced := fun _ => h.synced hp

theorem Answers.ready_commitSnapshot (h : Answers r log) (hg : r.generation = t.generation) :
    Ready (.commitSnapshot t) log where
  clean := fun t' heq => nomatch heq
  unfenced := by
    rintro t' ⟨⟩
    refine Bool.eq_false_iff.mpr fun hafter => ?_
    exact absurd (h.unfenced t hafter) (hg ▸ UInt64.lt_irrefl _)
  synced := fun hinc => nomatch hinc

theorem ready_exclusive (log : List Entry) : Ready .exclusive log :=
  ⟨fun _ heq => (nomatch heq), fun _ heq => (nomatch heq), fun hinc => (nomatch hinc)⟩

theorem Ready.wrote {old : Record} (h : Ready op log) (hop : (wrote op old r).demands = false) :
    Ready op (.wrote op old r :: log) where
  clean := fun t heq => (after_cons_of_not rfl).trans (h.clean t heq)
  unfenced := fun t heq => (after_cons_of_not rfl).trans (h.unfenced t heq)
  synced := fun hinc => (unanswered_cons_of_not hop rfl).trans (h.synced hinc)

/-! ### Writing the record -/

theorem lt_add_one {x : UInt64} (h : x ≤ x + 1) : x < x + 1 := by
  rw [UInt64.le_iff_toNat_le] at h
  rw [UInt64.lt_iff_toNat_lt]
  simp only [UInt64.toNat_add, UInt64.toNat_one] at h ⊢
  omega

theorem Answers.write (h : Answers r log) {old r' : Record} (hrises : r.Rises r') (hclean : r'.pending = false →
      (r.pending = false ∨ r.revision < r'.revision) ∧ unanswered demands resyncs log = false)
    (hdemands : (wrote op old r').demands → r'.pending) : Answers r' (.wrote op old r' :: log) := by
  obtain ⟨hg, hr⟩ := hrises
  have hmoved : Answers r' log := by
    refine ⟨fun t ht => UInt64.le_trans (h.generation_le t ht) hg,
      fun t ht => UInt64.le_trans (h.revision_le t ht) hr, ?_, ?_, ?_, h.fenced⟩
    · intro t htg htr hp
      cases hany : log.any (issues t) with
      | false => exact after_eq_false hany
      | true =>
        rcases (hclean hp).1 with hold | hlt
        · have hgen : t.generation = r.generation := UInt64.le_antisymm (h.generation_le t hany) (htg ▸ hg)
          have hrev : t.revision = r.revision := UInt64.le_antisymm (h.revision_le t hany) (htr ▸ hr)
          exact h.clean t hgen hrev hold
        · exact absurd (h.revision_le t hany) (UInt64.not_le.mpr (htr ▸ hlt))
    · exact fun t ht => UInt64.lt_of_lt_of_le (h.unfenced t ht) hg
    · exact fun hp => (hclean hp).2
  exact hmoved.cons (fun _ h => nomatch h) rfl (fun h => nomatch h) hdemands

/-! ### Under the lock -/

/-- The thread has the lock, and the record reads as given. -/
structure Held (p : P) (r : Record) (s : State P) : Prop where
  lock : s.lock = some p
  inv : Inv s
  record : s.record = r
  idle : s.mutating = false

variable {p : P} {r' : Record} {s' : State P}

theorem Held.keeps (h : s.lock = some p) (hinv : Inv s') : pact.Keeps p s s' where
  inv := hinv
  others := fun _ hne hlock => absurd (mem_unique hlock h) hne

theorem Held.answers (h : Held p r s) : Answers r s.log := h.record ▸ h.inv.answers

variable {file : Option Record}

theorem Held.next (h : Held p r s) (hrecord : file.getD {} = r') (hanswers : Answers r' (e :: s.log)) :
    Held p r' { s with file := file, log := e :: s.log } where
  lock := h.lock
  inv := ⟨by subst hrecord; exact hanswers, fun hm => absurd hm (ne_true_of_eq_false h.idle)⟩
  record := hrecord
  idle := h.idle

/-- What a call may return when it lets go of the lock: a ticket at the record's counters, and from `Fence` a generation
no ticket has. -/
structure Grants (op : Op) (r : Record) (log : List Entry) (out : Outcome) : Prop where
  current : ∀ t, out = .ticket t → t.generation = r.generation ∧ t.revision = r.revision
  barrier : op = .fence → ∀ t, log.any (issues t) = true → t.generation < r.generation

/-- The condition under which a call leaves the lock with a result. -/
def Leaves (p : P) (op : Op) (s : State P) (out : Outcome) : Prop := ∃ r, Held p r s ∧ Grants op r s.log out

/-- The condition under which it leaves the lock with an error. -/
def Fails (p : P) (s : State P) (_ : Failure) : Prop := ∃ r, Held p r s

theorem Held.finish (h : Held p r s) (out : Except Failure Outcome) (hgrants : ∀ o, out = .ok o → Grants op r s.log o) :
    Inv ({ s with lock := none, log := .finished op out :: s.log } : State P) := by
  refine ⟨?_, fun hm => absurd hm (ne_true_of_eq_false h.idle)⟩
  refine h.inv.answers.cons ?_ rfl ?_ (fun hd => nomatch hd)
  · intro t ht
    rw [h.record]
    rcases out with e | _ | _ | _
    · cases ht
    · obtain rfl := of_decide_eq_true ht
      exact (hgrants _ rfl).current _ rfl
    · cases ht
    · cases ht
  · intro hf t ht
    rw [h.record]
    rcases out with e | o
    · cases op <;> cases hf
    · cases op
      case fence => exact (hgrants o rfl).barrier rfl t ht
      all_goals cases hf

section Rules

variable [DecidableEq P] {okUnit : State P → Unit → Prop} {err : State P → Failure → Prop}

/-- The call is safe, with the conditions on its result and on its error. -/
abbrev Safe {α : Type} (p : P) (op : Op) (ok : State P → α → Prop) (err : State P → Failure → Prop) (c : Call α)
    (s : State P) : Prop := pact.safe (machine P) p op (Pact.Outcome ok err) c.run s

/-- The call is safe, and may end where it ends. -/
abbrev Finishes (p : P) (op : Op) : Prog Req Reply (Except Failure Outcome) → State P → Prop :=
  pact.safe (machine P) p op (pact.Ends (machine P) p op)

theorem safe_plainOp (o : PlainOp) (h : Held p r s) (hok : Held p r s → okUnit s ())
    (herr : ∀ e, Held p r s → err s e) : Safe p op okUnit err (plainOp o) s := by
  intro s' hrely _ ok reply s'' hserve _
  obtain rfl := hrely h.lock
  cases hserve
  refine ⟨Held.keeps h.lock h.inv, ?_⟩
  cases ok with
  | true => exact hok h
  | false => exact herr _ h

section
variable (h : Held p r s) (hwrite : r.Rises r' → Answers r' (.wrote op r r' :: s.log))
  (hok : ∀ s', Held p r' s' → r.Rises r' → s'.log = .wrote op r r' :: s.log → okUnit s' ())

include h hwrite hok

theorem safe_rename (herr : ∀ e, Held p r s → err s e) :
    Safe p op okUnit err (rename r') s := by
  intro s' hrely _ ok reply s'' hserve hassume
  obtain rfl := hrely h.lock
  cases hserve
  cases ok with
  | true =>
    obtain rfl := h.record
    have hrises : s'.record.Rises r' := hassume (.wrote op s'.record r') (mem_cons_self ..)
    have hnext : Held p r' { s' with file := some r', log := .wrote op s'.record r' :: s'.log } :=
      h.next rfl (hwrite hrises)
    exact ⟨Held.keeps h.lock hnext.inv, hok _ hnext hrises rfl⟩
  | false => exact ⟨Held.keeps h.lock h.inv, herr _ h⟩

theorem safe_writeRecord (herr : ∀ s' r e, Held p r s' → err s' e) :
    Safe p op okUnit err (writeRecord r') s := by
  iterate 4 refine safe_except_bind (safe_plainOp _ h (fun h => ?_) (herr s r))
  refine safe_except_bind (safe_rename h hwrite (fun s' h' hrises hlog => ?_) (herr s r))
  refine safe_except_bind (safe_plainOp _ h' (fun h' => ?_) (herr s' r'))
  exact safe_plainOp _ h' (fun h' => hok s' h' hrises hlog) (herr s' r')

end

theorem safe_mutate (h : Held p r s) (hpending : r.pending) (hready : Ready op s.log)
    (hok : ∀ s', Held p r s' → s'.log = .ended op true :: .started op :: s.log → okUnit s' ())
    (herr : ∀ s' e, Held p r s' → err s' e) : Safe p op okUnit err mutate s := by
  intro s₁ hrely _ _ _ s₂ hserve _
  obtain rfl := hrely h.lock
  cases hserve
  have hstarted : Answers s₁.record (.started op :: s₁.log) := h.inv.answers.start hready (h.record ▸ hpending)
  have hlock : s₁.lock ≠ none := by
    rw [h.lock]
    exact some_ne_none p
  refine ⟨Held.keeps h.lock ⟨hstarted, fun _ => ⟨hlock, h.record ▸ hpending⟩⟩, ?_⟩
  intro s₃ hrely _ ok reply s₄ hserve _
  obtain rfl := hrely h.lock
  cases hserve
  have hended : Answers s₁.record (.ended op ok :: .started op :: s₁.log) :=
    hstarted.cons (fun _ hi => nomatch hi) rfl (fun hf => nomatch hf) fun _ => h.record ▸ hpending
  have hheld : Held p r { s₁ with mutating := false, log := .ended op ok :: .started op :: s₁.log } :=
    ⟨h.lock, ⟨hended, fun hm => nomatch hm⟩, h.record, rfl⟩
  refine ⟨Held.keeps h.lock hheld.inv, ?_⟩
  cases ok with
  | true => exact hok _ hheld rfl
  | false => exact herr _ _ hheld

theorem ends (p : P) (op : Op) (s : State P) (out : Except Failure Outcome) : pact.Ends (machine P) p op s out :=
  fun _ _ hinv _ => ⟨hinv, fun _ _ _ => rfl⟩

theorem safe_unlock (h : Held p r s) (out : Except Failure Outcome) (hgrants : ∀ o, out = .ok o → Grants op r s.log o) :
    Safe p op (fun _ _ => True) (fun _ _ => True) (unlock out) s := by
  intro s' hrely _ _ _ s'' hserve _
  obtain rfl := hrely h.lock
  cases hserve
  rw [if_pos h.lock]
  refine ⟨Held.keeps h.lock (h.finish out hgrants), ?_⟩
  cases out <;> trivial

theorem safe_openLock (hok : ∀ s, okUnit s ()) (herr : ∀ s e, err s e) :
    Safe p op okUnit err (plainOp .openLock) s := by
  intro s' _ hinv ok _ s'' hserve _
  cases hserve
  refine ⟨⟨hinv, fun _ _ _ => rfl⟩, ?_⟩
  cases ok with
  | true => exact hok _
  | false => exact herr _ _

theorem safe_flock (hok : ∀ s, Held p s.record s → okUnit s ()) (herr : ∀ s e, err s e) :
    Safe p op okUnit err flock s := by
  intro s₁ _ hinv ok reply s₂ hserve _
  cases ok with
  | false =>
    cases hserve
    exact ⟨⟨hinv, fun _ _ _ => rfl⟩, herr _ _⟩
  | true =>
    by_cases hfree : s₁.lock = none
    · have heq := (if_pos hfree).symm.trans hserve
      cases heq
      have hidle : s₁.mutating = false := Bool.eq_false_iff.mpr fun hm => (hinv.mutating hm).1 hfree
      have hheld : Held p s₁.record { s₁ with lock := some p } :=
        ⟨rfl, ⟨hinv.answers, fun hm => absurd hm (ne_true_of_eq_false hidle)⟩, rfl, hidle⟩
      exact ⟨⟨hheld.inv, fun p' _ hp' => absurd (hfree.symm.trans hp') (by simp)⟩, hok _ hheld⟩
    · exact absurd ((if_neg hfree).symm.trans hserve) (by simp)

variable {ok : State P → Record → Prop}

theorem safe_readFile (h : Held p r s) (hok : ok s r) (herr : ∀ e, err s e) :
    Safe p op ok err readFile s := by
  intro s' hrely _ fine _ s'' hserve _
  obtain rfl := hrely h.lock
  cases hserve
  refine ⟨Held.keeps h.lock h.inv, ?_⟩
  cases fine with
  | true =>
    obtain rfl := h.record
    exact hok
  | false => exact herr _

theorem safe_lockedStaged {fn : Record → Call Outcome}
    (hfn : ∀ r s, Held p r s → Safe p op (Leaves p op) (Fails p) (fn r) s) :
    Finishes p op (lockedStaged fn).run s := by
  have hall : Safe p op (fun _ _ => True) (fun _ _ => True) (lockedStaged fn) s := by
    refine safe_except_bind (safe_openLock (fun s₁ => ?_) fun _ _ => trivial)
    refine safe_except_bind (safe_flock (fun s₂ h => ?_) fun _ _ => trivial)
    refine safe_except_bind (safe_bind (safe_mono
      (safe_except_bind (safe_readFile h (hfn _ s₂ h) fun _ => ⟨_, h⟩)) ?_))
    rintro s₃ (e | o) hout
    · obtain ⟨r, hr⟩ := hout
      exact safe_unlock hr _ fun _ ho => nomatch ho
    obtain ⟨r, hr, hgrants⟩ := hout
    refine safe_unlock hr _ ?_
    rintro o' ⟨⟩
    exact hgrants
  exact safe_mono hall fun s out _ => ends p op s out

/-- What `locked` needs of a decision: a result without a write is the record's, and a write one it answers for. -/
structure Permits (op : Op) (fn : Record → Except Failure (Option Record × Outcome)) : Prop where
  reads : ∀ r log out, Answers r log → fn r = .ok (none, out) → Grants op r log out
  writes : ∀ r log r' out, Answers r log → fn r = .ok (some r', out) → r.Rises r' →
    Answers r' (.wrote op r r' :: log) ∧ Grants op r' (.wrote op r r' :: log) out

theorem safe_locked {fn : Record → Except Failure (Option Record × Outcome)} (h : Permits op fn) :
    Finishes p op (locked fn).run s := by
  refine safe_lockedStaged fun r s hr => ?_
  rcases hfn : fn r with e | ⟨_ | r', out⟩
  · exact ⟨r, hr⟩
  · exact ⟨r, hr, h.reads r s.log out hr.answers hfn⟩
  have hwrite := h.writes r s.log r' out hr.answers hfn
  refine safe_except_bind (safe_writeRecord hr (fun hrises => (hwrite hrises).1) (fun s' hs' hrises hlog => ?_)
    fun s' r e h => ⟨r, h⟩)
  refine ⟨r', hs', ?_⟩
  rw [hlog]
  exact (hwrite hrises).2

/-- The two writes around a mutation. Pending is cleared only by a snapshot, or when it was clear before. -/
theorem safe_staged (h : Held p r s) (hready : Ready op s.log) (hop : ∀ old r, (wrote op old r).demands = false)
    {pending : Bool} (hpending : pending = false → r.pending = false ∨ (ended op true).resyncs)
    (hok : ∀ s' next, Held p next s' → ok s' next) :
    Safe p op ok (Fails p) (staged r pending) s := by
  have hr := h.answers
  have hmark (hrises : r.Rises { r with pending := true }) :
      Answers { r with pending := true } (.wrote op r { r with pending := true } :: s.log) :=
    hr.write hrises (fun hp => nomatch hp) fun hd => absurd hd (ne_true_of_eq_false (hop ..))
  refine safe_except_bind (safe_writeRecord h hmark (fun s₁ h₁ _ hlog₁ => ?_) fun _ r _ h => ⟨r, h⟩)
  refine safe_except_bind (safe_mutate h₁ rfl (hlog₁ ▸ hready.wrote (hop ..))
    (fun s₂ h₂ hlog₂ => ?_) fun _ _ h => ⟨_, h⟩)
  have hsynced : pending = false → unanswered demands resyncs s₂.log = false := by
    intro hp
    rw [hlog₂, hlog₁]
    rcases hresyncs : (ended op true).resyncs with _ | _
    · have hclear : r.pending = false := (hpending hp).resolve_right (ne_true_of_eq_false hresyncs)
      rw [unanswered_cons_of_not rfl hresyncs, unanswered_cons_of_not rfl rfl, unanswered_cons_of_not (hop ..) rfl]
      exact hr.synced hclear
    · exact unanswered_cons_of_answers hresyncs
  refine safe_except_bind (safe_writeRecord h₂ (fun hrises => ?_) (fun s₃ h₃ _ _ => hok s₃ _ h₃) fun _ r _ h => ⟨r, h⟩)
  exact h₂.answers.write hrises (fun hp => ⟨.inr (lt_add_one hrises.2), hsynced hp⟩)
    fun hd => absurd hd (ne_true_of_eq_false (hop ..))

/-! ### The calls -/

theorem safe_noOwner : Finishes p op (throw .noOwner : Call Outcome).run s :=
  ends p op s _

theorem grants_ticket (op : Op) (hop : op ≠ .fence) (r : Record) (log : List Entry) :
    Grants op r log (.ticket (ticket r)) where
  current := by
    rintro t ⟨⟩
    exact ⟨rfl, rfl⟩
  barrier := fun h => absurd h hop

theorem safe_claim (owner : String) :
    Finishes p (.claim owner) (Op.claim owner).body s := by
  dsimp only [Op.body, claim]
  split_ifs
  · exact safe_noOwner
  refine safe_locked ⟨?_, ?_⟩
  · intro r log out hr hfn
    split_ifs at hfn
    · cases hfn
    · cases hfn
      exact grants_ticket (.claim owner) (by simp) r log
  intro r log r' out hr hfn hrises
  split_ifs at hfn
  · cases hfn
    exact ⟨hr.write hrises (fun hp => nomatch hp) fun _ => rfl,
      grants_ticket (.claim owner) (by simp) _ _⟩
  · cases hfn

theorem safe_begin (owner : String) :
    Finishes p (.begin owner) (Op.begin owner).body s := by
  dsimp only [Op.body, Ownership.begin]
  split_ifs
  · exact safe_noOwner
  refine safe_locked ⟨?_, ?_⟩
  · intro r log out hr hfn
    rcases hc : checkOwner owner r with e | u <;> rw [hc] at hfn
    · cases hfn
    · cases hfn
      exact grants_ticket (.begin owner) (by simp) r log
  · intro r log r' out hr hfn
    rcases hc : checkOwner owner r with e | u <;> rw [hc] at hfn <;> cases hfn

theorem safe_fence : Finishes p .fence Op.fence.body s := by
  dsimp only [body, fence]
  refine safe_locked ⟨fun r log out hr hfn => (nomatch hfn), ?_⟩
  rintro r log r' out hr ⟨⟩ hrises
  refine ⟨hr.write hrises (fun hp => ⟨.inl hp, hr.synced hp⟩) fun hd => (nomatch hd), ?_, ?_⟩
  · exact fun t ht => nomatch ht
  · exact fun _ t ht => UInt64.lt_of_le_of_lt (hr.generation_le t ht) (lt_add_one hrises.1)

theorem safe_adopt (owner : String) (generation : UInt64) :
    Finishes p (.adopt owner generation)
      (Op.adopt owner generation).body s := by
  dsimp only [Op.body, adopt]
  split_ifs
  · exact safe_noOwner
  refine safe_locked ⟨?_, ?_⟩
  · intro r log out hr hfn
    split_ifs at hfn
    cases hfn
  intro r log r' out hr hfn hrises
  split_ifs at hfn
  cases hfn
  exact ⟨hr.write hrises (fun hp => nomatch hp) fun _ => rfl,
    grants_ticket (.adopt owner generation) (by simp) _ _⟩

variable {snapshot : Bool}

theorem of_checkCommit {u : Unit} (h : checkCommit t snapshot r = .ok u) :
    r.generation = t.generation ∧ r.revision = t.revision ∧ (snapshot = false → r.pending = false) := by
  unfold checkCommit at h
  rcases howner : checkOwner t.owner r with e | u <;> rw [howner] at h
  · cases h
  · by_cases hstale : r.generation ≠ t.generation ∨ r.revision ≠ t.revision
    · simp [hstale, bind, Except.bind, throw, throwThe, MonadExceptOf.throw] at h
    rw [not_or, not_not, not_not] at hstale
    refine ⟨hstale.1, hstale.2, ?_⟩
    rintro rfl
    cases hp : r.pending with
    | false => rfl
    | true => simp [hstale, bind, Except.bind, throw, throwThe, MonadExceptOf.throw, Record.resync, hp] at h

theorem safe_commit {t : Ticket} (hop : ∀ old r, (wrote op old r).demands = false) (hfence : op ≠ .fence)
    (hready : ∀ r log, Answers r log → checkCommit t snapshot r = .ok () → Ready op log)
    (hpending : ∀ r, checkCommit t snapshot r = .ok () → r.pending = false ∨ (ended op true).resyncs) :
    Finishes p op (commit t snapshot).run s := by
  dsimp only [commit]
  split_ifs
  · exact safe_noOwner
  refine safe_lockedStaged fun r s h => ?_
  refine safe_except_bind ?_
  cases hcheck : checkCommit t snapshot r with
  | error e => exact ⟨r, h⟩
  | ok u =>
    refine safe_except_bind (safe_staged h (hready r s.log h.answers hcheck) hop (fun _ => hpending r hcheck) ?_)
    intro s' next hnext
    exact ⟨next, hnext, grants_ticket op hfence next s'.log⟩

theorem safe_exclusive : Finishes p .exclusive Op.exclusive.body s := by
  dsimp only [body, exclusive]
  refine safe_lockedStaged fun r s h => ?_
  cases r.transitioning with
  | true => exact ⟨r, h⟩
  | false =>
    refine safe_except_bind (safe_plainOp _ h (fun h => ?_) fun e h => ⟨r, h⟩)
    refine safe_except_bind (safe_staged h (ready_exclusive s.log) (fun _ _ => rfl) (fun hp => .inl hp) ?_)
    exact fun s' next hnext => ⟨next, hnext, fun t ht => (nomatch ht), fun hf => (nomatch hf)⟩

theorem log_suffix_serve {ok : Bool} {q : Req} {a : Reply q} (h : serve s p op ok q = some (a, s')) :
    s.log <:+ s'.log := by
  cases q with
  | flock =>
    dsimp only [serve] at h
    split_ifs at h <;> cases h <;> exact suffix_refl _
  | rename r =>
    cases h
    cases ok with
    | true => exact suffix_cons _ _
    | false => exact suffix_refl _
  | plain o | read =>
    cases h
    exact suffix_refl _
  | mutateStart | mutateEnd | unlock out =>
    cases h
    exact suffix_cons _ _

theorem log_suffix_die (s : State P) (p : P) (op : Op) : s.log <:+ (die s p op).log := by
  unfold die
  split_ifs with hlock hm
  · exact suffix_cons _ _
  · exact suffix_refl _
  · exact suffix_refl _

theorem sound : Pact.Sound (machine P) body pact where
  refl := fun _ _ _ => rfl
  trans := fun p s s' s'' h h' hlock => by
    obtain rfl := h hlock
    exact h' hlock
  call := fun p op s _ => by
    cases op with
    | claim owner => exact safe_claim owner
    | begin owner => exact safe_begin owner
    | commit t =>
      refine safe_commit (fun _ _ => rfl) (by simp) ?_ ?_
      · intro r log hr hcheck
        obtain ⟨hg, hr', hp⟩ := of_checkCommit hcheck
        exact hr.ready_commit hg hr' (hp rfl)
      · exact fun r hcheck => .inl ((of_checkCommit hcheck).2.2 rfl)
    | commitSnapshot t =>
      refine safe_commit (fun _ _ => rfl) (by simp) ?_ fun _ _ => .inr rfl
      exact fun r log hr hcheck => hr.ready_commitSnapshot (of_checkCommit hcheck).1
    | exclusive => exact safe_exclusive
    | fence => exact safe_fence
    | adopt owner generation => exact safe_adopt owner generation
  die := fun p op s hinv => by
    dsimp only [machine, die]
    split_ifs with hlock hm
    · refine Held.keeps hlock ⟨?_, fun hm => nomatch hm⟩
      exact hinv.answers.cons (fun _ hi => nomatch hi) rfl (fun hf => nomatch hf) fun _ => (hinv.mutating hm).2
    · exact Held.keeps hlock ⟨hinv.answers, fun hm => nomatch hm⟩
    · exact ⟨hinv, fun _ _ _ => rfl⟩
  move := fun m => nomatch m
  back := {
    refl := fun _ h => h
    trans := fun _ _ _ h h' hassume => h (h' hassume)
    serves := fun _ _ _ _ _ _ _ hserve hassume e hmem => hassume e ((log_suffix_serve hserve).subset hmem)
    finishes := fun _ _ _ _ h => h
    dies := fun s p op hassume e hmem => hassume e ((log_suffix_die s p op).subset hmem)
    moves := fun _ _ h => h }

end Rules

/-! ### Every run -/

abbrev Happening (P : Type) [DecidableEq P] := Event P Op (machine P).Choice (machine P).Move

def initial (P : Type) (file : Option Record) : Config P Op (State P) Req Reply (Except Failure Outcome) :=
  ⟨{ file := file }, fun _ => none⟩

theorem inv_initial : Inv (initial P file).shared where
  answers := by
    refine ⟨fun _ hi => (nomatch hi), fun _ hi => (nomatch hi), fun _ _ _ _ => rfl, fun _ ha => (nomatch ha),
      fun _ => rfl, ?_⟩
    intro op before hsuffix
    exact absurd (suffix_nil.mp hsuffix) (cons_ne_nil _ _)
  mutating := fun hm => nomatch hm

/-- In every run from any record, whatever fails and whoever dies, as long as no counter wraps around: an incremental
commit starts its mutation only if none has started since its ticket was issued; no mutation starts under a ticket
issued before a fence that has returned; and after a claim of the unowned scope, an adoption, or a mutation that failed
or was interrupted, no incremental commit starts one before the mutation of a snapshot has succeeded. -/
theorem tickets_fenced (P : Type) [DecidableEq P] (file : Option Record)
    (evs : List (Happening P)) (c : Config P Op (State P) Req Reply (Except Failure Outcome))
    (hrun : (machine P).run body (initial P file) evs = some c) (hrises : ∀ e ∈ c.shared.log, e.Rises) :
    (∀ t before, .started (.commit t) :: before <:+ c.shared.log → after (issues t) starts before = false) ∧
    (∀ op t before, op.ticket = some t → .started op :: before <:+ c.shared.log →
      after (issues t) fences before = false) ∧
    ∀ t before, .started (.commit t) :: before <:+ c.shared.log → unanswered demands resyncs before = false := by
  have hinv : Inv c.shared := sound.run inv_initial hrun hrises
  have hfenced := hinv.answers.fenced
  refine ⟨?_, ?_, ?_⟩
  · exact fun t before h => (hfenced _ before h).clean t rfl
  · exact fun op t before ht h => (hfenced op before h).unfenced t ht
  · exact fun t before h => (hfenced _ before h).synced rfl

/-! ### Runs -/

/-- A call of thread `p` that is answered as given. -/
def call {P : Type} [DecidableEq P] (p : P) (op : Op) (answers : List Bool) : List (Happening P) :=
  .call p op :: answers.map fun ok => .request p ok

def first : Ticket := ⟨"a", 1, 0, true⟩
def second : Ticket := ⟨"a", 1, 1, false⟩
def third : Ticket := ⟨"a", 1, 2, false⟩

/-- Two threads: one claims the scope and commits a snapshot, the other writes it as a non-owner, after which the first
one's ticket is stale, and it begins again. -/
def turns : List (Happening Bool) :=
  call true (.claim "a") (replicate 11 true) ++ [.ends true] ++
  call true (.commitSnapshot first) (replicate 20 true) ++ [.ends true] ++
  call false .exclusive (replicate 21 true) ++ [.ends false] ++
  call true (.commit second) (replicate 4 true) ++ [.ends true] ++
  call true (.begin "a") (replicate 4 true) ++ [.ends true] ++
  call true (.commit third) (replicate 11 true)

theorem tickets_fenced_turns : ∃ c, (machine Bool).run body (initial Bool none) turns = some c ∧
    (.finished (.commit second) (.error (.stale 1 1 1 2)) ∈ c.shared.log ∧
      ∃ before, c.shared.log = .started (.commit third) :: before ∧ after (issues third) starts before = false) := by
  obtain ⟨c, hrun, hstale, hhead, hall⟩ := exists_some (o := (machine Bool).run body (initial Bool none) turns)
    (p := fun c => .finished (.commit second) (.error (.stale 1 1 1 2)) ∈ c.shared.log ∧
      c.shared.log.head? = some (.started (.commit third)) ∧ ∀ e ∈ c.shared.log, e.Rises) (by decide +kernel)
  have hlog := eq_cons_of_mem_head? hhead
  exact ⟨c, hrun, hstale, _, hlog, (tickets_fenced Bool none turns c hrun hall).1 third _ ⟨[], hlog.symm⟩⟩

/-- Nobody is in a call, and the scope is owned at revision `v`. -/
def ownedAt (v : UInt64) (log : List Entry) : Config Unit Op (State Unit) Req Reply (Except Failure Outcome) :=
  ⟨⟨some ⟨"a", 1, v, false, false⟩, none, false, log⟩, fun _ => none⟩

def exclusiveLog (v : UInt64) : List Entry :=
  let marked : Record := ⟨"a", 1, v, false, true⟩
  [.finished .exclusive (.ok .done), .wrote .exclusive marked ⟨"a", 1, v + 1, false, false⟩, .ended .exclusive true,
    .started .exclusive, .wrote .exclusive ⟨"a", 1, v, false, false⟩ marked]

theorem exclusive_runs (v : UInt64) (log : List Entry) :
    (machine Unit).run body (ownedAt v log) (call () .exclusive (replicate 21 true) ++ [.ends ()]) =
      some (ownedAt (v + 1) (exclusiveLog v ++ log)) := by
  rfl

theorem exclusives_run (v : UInt64) (log : List Entry) (n : Nat) :
    ∃ evs log', (machine Unit).run body (ownedAt v log) evs = some (ownedAt (v + UInt64.ofNat (n + 1)) (log' ++ log)) ∧
      log'.any starts := by
  induction n generalizing v log with
  | zero => exact ⟨_, _, exclusive_runs v log, rfl⟩
  | succ n ih =>
    obtain ⟨evs, log', hrun, hstarts⟩ := ih (v + 1) (exclusiveLog v ++ log)
    have hsum : v + 1 + UInt64.ofNat (n + 1) = v + UInt64.ofNat (n + 1 + 1) := by
      rw [UInt64.ofNat_add (n + 1) 1, UInt64.add_assoc, UInt64.add_comm 1]
      rfl
    refine ⟨call () .exclusive (replicate 21 true) ++ [.ends ()] ++ evs, log' ++ exclusiveLog v, ?_, ?_⟩
    · rw [Machine.run_append, exclusive_runs, bind_some, hrun, hsum, append_assoc]
    · rw [any_append, hstarts, Bool.true_or]

/-- A claim and a first snapshot. -/
def settle : List (Happening Unit) :=
  call () (.claim "a") (replicate 11 true) ++ [.ends ()] ++
  call () (.commitSnapshot first) (replicate 20 true) ++ [.ends ()]

def settledLog : List Entry :=
  let claimed : Record := ⟨"a", 1, 0, false, true⟩
  [.finished (.commitSnapshot first) (.ok (.ticket second)),
    .wrote (.commitSnapshot first) claimed ⟨"a", 1, 1, false, false⟩, .ended (.commitSnapshot first) true,
    .started (.commitSnapshot first), .wrote (.commitSnapshot first) claimed claimed,
    .finished (.claim "a") (.ok (.ticket first)), .wrote (.claim "a") {} claimed]

theorem settle_runs : (machine Unit).run body (initial Unit none) settle = some (ownedAt 1 settledLog) := by
  rfl

theorem commit_starts (log : List Entry) :
    ∃ c, (machine Unit).run body (ownedAt 1 log) (call () (.commit second) (replicate 11 true)) = some c ∧
      c.shared.log = .started (.commit second) ::
        .wrote (.commit second) ⟨"a", 1, 1, false, false⟩ ⟨"a", 1, 1, false, true⟩ :: log :=
  ⟨_, rfl, rfl⟩

/-- After 2^64 writes by a non-owner the revision is back where it was, and a ticket from before them commits. And a
snapshot whose last sync of the directory fails returns an error, yet opens the scope to incremental commits. -/
theorem stale_and_unsynced_commits_start : (∃ evs c before, (machine Unit).run body (initial Unit none) evs = some c ∧
      c.shared.log = .started (.commit second) :: before ∧ after (issues second) starts before = true) ∧
    ∃ evs c before, (machine Unit).run body (initial Unit none) evs = some c ∧
      c.shared.log = .started (.commit second) :: before ∧ unanswered demands snapshots before = true := by
  refine ⟨?_, ?_⟩
  · obtain ⟨evs, log', hrun, hstarts⟩ := exclusives_run 1 settledLog (2 ^ 64 - 1)
    have hback : (1 : UInt64) + UInt64.ofNat (2 ^ 64 - 1 + 1) = 1 := rfl
    rw [hback] at hrun
    obtain ⟨c, hcommit, hlog⟩ := commit_starts (log' ++ settledLog)
    refine ⟨settle ++ evs ++ call () (.commit second) (replicate 11 true), c, _, ?_, hlog, ?_⟩
    · rw [Machine.run_append, Machine.run_append, settle_runs, bind_some, hrun, bind_some, hcommit]
    · rw [after_cons_of_not rfl]
      exact after_append hstarts rfl
  obtain ⟨c, hrun, hhead, htail⟩ := exists_some (o := (machine Unit).run body (initial Unit none)
    (call () (.claim "a") (replicate 11 true) ++ [.ends ()] ++
      call () (.commitSnapshot first) (replicate 18 true ++ [false, true]) ++ [.ends ()] ++
      call () (.begin "a") (replicate 4 true) ++ [.ends ()] ++ call () (.commit second) (replicate 11 true)))
    (p := fun c => c.shared.log.head? = some (.started (.commit second)) ∧
      unanswered demands snapshots c.shared.log.tail = true)
    (by decide +kernel)
  exact ⟨_, c, c.shared.log.tail, hrun, eq_cons_of_mem_head? hhead, htail⟩

end Galactic.Ownership
