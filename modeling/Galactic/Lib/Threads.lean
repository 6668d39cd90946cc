import Galactic.Lib.Client

/-!
# Threads over a shared state

Any number of threads run client programs over one shared state. A thread takes a job, sends the requests of its program
one after the other, returns, or dies in the middle; between any two steps others step, and the surroundings move the
state.

`safe` is a thread's own proof: under its rely, every request keeps the invariant and what the other threads rely on. -/

namespace Threads

open Client Function Option

variable {P J σ Q α β : Type} {R : Q → Type}

/-- How the shared state answers a thread's request (not at all while the request blocks), and what the end or the death
of a thread and the surroundings do to it. A choice stands for all that decides an answer besides the state. -/
structure Machine (P J σ Q : Type) (R : Q → Type) (α : Type) where
  Choice : Type
  Move : Type
  serve : σ → P → J → Choice → (q : Q) → Option (R q × σ)
  finish : σ → P → J → α → σ
  die : σ → P → J → σ
  move : σ → Move → σ

theorem exists_some {o : Option α} {p : α → Prop} [DecidablePred p] (h : o.any p) : ∃ a, o = some a ∧ p a := by
  cases o with
  | none => cases h
  | some a => exact ⟨a, rfl, of_decide_eq_true h⟩

/-- The shared state, and what is left of each thread's program. -/
structure Config (P J σ Q : Type) (R : Q → Type) (α : Type) where
  shared : σ
  running : P → Option (J × Prog Q R α)

inductive Event (P J C M : Type)
  | call (p : P) (j : J)
  | request (p : P) (c : C)
  | ends (p : P)
  | dies (p : P)
  | moves (m : M)

namespace Machine

variable (M : Machine P J σ Q R α) (prog : J → Prog Q R α)

/-- A request of a thread in the middle of its program. -/
def ask (c : Config P J σ Q R α) (p : P) (ch : M.Choice) : Option (J × Prog Q R α) → Option (σ × J × Prog Q R α)
  | some (j, .ask q next) => (M.serve c.shared p j ch q).map fun rs => (rs.2, j, next rs.1)
  | _ => none

/-- The end of a thread's program. -/
def conclude (c : Config P J σ Q R α) (p : P) : Option (J × Prog Q R α) → Option σ
  | some (j, .ret a) => some (M.finish c.shared p j a)
  | _ => none

variable [DecidableEq P]

def step (c : Config P J σ Q R α) : Event P J M.Choice M.Move → Option (Config P J σ Q R α)
  | .call p j => if (c.running p).isNone then some ⟨c.shared, update c.running p (some (j, prog j))⟩ else none
  | .request p ch => (M.ask c p ch (c.running p)).map fun out => ⟨out.1, update c.running p (some out.2)⟩
  | .ends p => (M.conclude c p (c.running p)).map fun s => ⟨s, update c.running p none⟩
  | .dies p => (c.running p).map fun job => ⟨M.die c.shared p job.1, update c.running p none⟩
  | .moves m => some ⟨M.move c.shared m, c.running⟩

def run (c : Config P J σ Q R α) : List (Event P J M.Choice M.Move) → Option (Config P J σ Q R α)
  | [] => some c
  | e :: rest => (M.step prog c e).bind (run · rest)

theorem run_append (c : Config P J σ Q R α) (evs evs' : List (Event P J M.Choice M.Move)) :
    M.run prog c (evs ++ evs') = (M.run prog c evs).bind (M.run prog · evs') := by
  induction evs generalizing c with
  | nil => rfl
  | cons e rest ih =>
    rw [List.cons_append, run, run]
    cases M.step prog c e with
    | none => rfl
    | some c' => exact ih c'

/-- What an event may do, one case for each kind. -/
inductive Steps (c : Config P J σ Q R α) : Config P J σ Q R α → Prop
  | call (p : P) (j : J) : Steps c ⟨c.shared, update c.running p (some (j, prog j))⟩
  | request (p : P) (j : J) (ch : M.Choice) (q : Q) (next : R q → Prog Q R α) (r : R q) (s : σ)
      (hrun : c.running p = some (j, .ask q next)) (hserve : M.serve c.shared p j ch q = some (r, s)) :
      Steps c ⟨s, update c.running p (some (j, next r))⟩
  | ends (p : P) (j : J) (a : α) (hrun : c.running p = some (j, .ret a)) :
      Steps c ⟨M.finish c.shared p j a, update c.running p none⟩
  | dies (p : P) (j : J) (m : Prog Q R α) (hrun : c.running p = some (j, m)) :
      Steps c ⟨M.die c.shared p j, update c.running p none⟩
  | moves (m : M.Move) : Steps c ⟨M.move c.shared m, c.running⟩

variable {M prog} {c c' : Config P J σ Q R α}

theorem steps_of_step {e : Event P J M.Choice M.Move} (h : M.step prog c e = some c') : M.Steps prog c c' := by
  cases e with
  | call p j =>
    dsimp only [step] at h
    split_ifs at h
    cases h
    exact .call p j
  | request p ch =>
    obtain ⟨⟨s', j, m'⟩, hask, rfl⟩ := map_eq_some_iff.mp h
    rcases hrun : c.running p with _ | ⟨j', a | ⟨q, next⟩⟩ <;> rw [hrun] at hask
    · cases hask
    · cases hask
    obtain ⟨⟨r, s''⟩, hserve, heq⟩ := map_eq_some_iff.mp hask
    obtain ⟨rfl, rfl, rfl⟩ : s'' = s' ∧ j' = j ∧ next r = m' := by
      injection heq with h₁ h₂
      injection h₂ with h₂ h₃
      exact ⟨h₁, h₂, h₃⟩
    exact .request p j' ch q next r s'' hrun hserve
  | ends p =>
    obtain ⟨s', hend, rfl⟩ := map_eq_some_iff.mp h
    rcases hrun : c.running p with _ | ⟨j, a | ⟨q, next⟩⟩ <;> rw [hrun] at hend
    · cases hend
    · cases hend
      exact .ends p j a hrun
    · cases hend
  | dies p =>
    obtain ⟨⟨j, m⟩, hrun, rfl⟩ := map_eq_some_iff.mp h
    exact .dies p j m hrun
  | moves m =>
    cases h
    exact .moves m

/-- A relation between states that everything that can happen keeps. -/
structure Follows (M : Machine P J σ Q R α) (rel : σ → σ → Prop) : Prop where
  refl : ∀ s, rel s s
  trans : ∀ s s' s'', rel s s' → rel s' s'' → rel s s''
  serves : ∀ s p j ch q r s', M.serve s p j ch q = some (r, s') → rel s s'
  finishes : ∀ s p j a, rel s (M.finish s p j a)
  dies : ∀ s p j, rel s (M.die s p j)
  moves : ∀ s m, rel s (M.move s m)

variable {rel : σ → σ → Prop}

theorem Follows.step (h : Follows M rel) (hstep : M.Steps prog c c') : rel c.shared c'.shared := by
  cases hstep with
  | call p j => exact h.refl _
  | request p j ch q next r s hrun hserve => exact h.serves _ _ _ _ _ _ _ hserve
  | ends p j a hrun => exact h.finishes _ _ _ _
  | dies p j m hrun => exact h.dies _ _ _
  | moves m => exact h.moves _ _

theorem Follows.run (h : Follows M rel) {evs : List (Event P J M.Choice M.Move)} (hrun : M.run prog c evs = some c') :
    rel c.shared c'.shared := by
  induction evs generalizing c with
  | nil =>
    cases hrun
    exact h.refl _
  | cons e rest ih =>
    obtain ⟨c₁, hstep, hrest⟩ := bind_eq_some_iff.mp hrun
    exact h.trans _ _ _ (h.step (steps_of_step hstep)) (ih hrest)

end Machine

/-- What is to hold in every state, in which states a run is assumed to stay, and what a thread relies on. -/
structure Pact (P σ : Type) where
  inv : σ → Prop
  assumes : σ → Prop
  rely : P → σ → σ → Prop

namespace Pact

variable (M : Machine P J σ Q R α) (K : Pact P σ)

/-- A change by `p` keeps the invariant and what the others rely on. -/
structure Keeps (p : P) (s s' : σ) : Prop where
  inv : K.inv s'
  others : ∀ p', p' ≠ p → K.rely p' s s'

/-- From the state, where the thread last stepped, every request of the program keeps the pact, and the result meets the
postcondition. -/
def safe (p : P) (j : J) (post : σ → β → Prop) : Prog Q R β → σ → Prop
  | .ret a, s => post s a
  | .ask q next, s => ∀ s', K.rely p s s' → K.inv s' → ∀ ch r s'', M.serve s' p j ch q = some (r, s'') → K.assumes s'' →
      K.Keeps p s' s'' ∧ safe p j post (next r) s''

variable {M K} {p : P} {j : J}

variable {m : Prog Q R β} {s : σ}

theorem safe_mono {post post' : σ → β → Prop} (hm : K.safe M p j post m s) (h : ∀ s a, post s a → post' s a) :
    K.safe M p j post' m s := by
  induction m generalizing s with
  | ret a => exact h s a hm
  | ask q next ih =>
    intro s' hrely hinv ch r s'' hserve hassume
    have hstep := hm s' hrely hinv ch r s'' hserve hassume
    exact ⟨hstep.1, ih r hstep.2⟩

variable {γ : Type}

theorem safe_bind {post : σ → γ → Prop} {f : β → Prog Q R γ}
    (hm : K.safe M p j (fun s a => K.safe M p j post (f a) s) m s) : K.safe M p j post (m >>= f) s := by
  induction m generalizing s with
  | ret a => exact hm
  | ask q next ih =>
    intro s' hrely hinv ch r s'' hserve hassume
    have hstep := hm s' hrely hinv ch r s'' hserve hassume
    exact ⟨hstep.1, ih r hstep.2⟩

/-- A postcondition for results and one for errors. -/
def Outcome {ε : Type} (ok : σ → β → Prop) (err : σ → ε → Prop) (s : σ) : Except ε β → Prop
  | .ok a => ok s a
  | .error e => err s e

theorem safe_except_bind {ε : Type} {ok : σ → γ → Prop} {err : σ → ε → Prop} {m : ExceptT ε (Prog Q R) β}
    {f : β → ExceptT ε (Prog Q R) γ}
    (hm : K.safe M p j (Outcome (fun s a => K.safe M p j (Outcome ok err) (f a).run s) err) m.run s) :
    K.safe M p j (Outcome ok err) (m >>= f).run s := by
  refine safe_bind (safe_mono hm ?_)
  rintro s (e | a) h
  · exact h
  · exact h

def Ends (M : Machine P J σ Q R α) (K : Pact P σ) (p : P) (j : J) (s : σ) (a : α) : Prop :=
  ∀ s', K.rely p s s' → K.inv s' → K.assumes (M.finish s' p j a) → K.Keeps p s' (M.finish s' p j a)

/-- Every step of the machine keeps the pact: what is to be proved of each job, and of deaths and the surroundings. -/
structure Sound (M : Machine P J σ Q R α) (prog : J → Prog Q R α) (K : Pact P σ) : Prop where
  refl : ∀ p s, K.rely p s s
  trans : ∀ p s s' s'', K.rely p s s' → K.rely p s' s'' → K.rely p s s''
  call : ∀ p j s, K.inv s → K.safe M p j (K.Ends M p j) (prog j) s
  die : ∀ p j s, K.inv s → K.Keeps p s (M.die s p j)
  move : ∀ m s, K.inv s → K.inv (M.move s m) ∧ ∀ p, K.rely p s (M.move s m)
  back : M.Follows fun s s' => K.assumes s' → K.assumes s

/-- The invariant holds, and every thread in the middle of a job has its proof at a state the others led on from. -/
structure Kept (M : Machine P J σ Q R α) (K : Pact P σ) (c : Config P J σ Q R α) : Prop where
  inv : K.inv c.shared
  threads : ∀ p j m, c.running p = some (j, m) → ∃ s, K.rely p s c.shared ∧ K.safe M p j (K.Ends M p j) m s

variable {prog : J → Prog Q R α} {c c' : Config P J σ Q R α}

theorem Kept.update [DecidableEq P] (h : Sound M prog K) (hc : Kept M K c) {rest : Option (J × Prog Q R α)}
    (hkeeps : K.Keeps p c.shared s) (hrest : ∀ j m, rest = some (j, m) → K.safe M p j (K.Ends M p j) m s) :
    Kept M K ⟨s, update c.running p rest⟩ where
  inv := hkeeps.inv
  threads := by
    intro p' j m hm
    dsimp only at hm
    by_cases hp : p' = p
    · subst hp
      rw [update_self] at hm
      exact ⟨s, h.refl p' s, hrest j m hm⟩
    · rw [update_of_ne hp] at hm
      obtain ⟨s₀, hrely, hsafe⟩ := hc.threads p' j m hm
      exact ⟨s₀, h.trans _ _ _ _ hrely (hkeeps.others p' hp), hsafe⟩

variable [DecidableEq P]

section
variable (h : Sound M prog K) {evs : List (Event P J M.Choice M.Move)}

include h

theorem Sound.step (hc : Kept M K c) (hstep : M.Steps prog c c') (hassume : K.assumes c'.shared) : Kept M K c' := by
  cases hstep with
  | call p j =>
    refine hc.update h ⟨hc.inv, fun p' _ => h.refl p' _⟩ ?_
    rintro j' m ⟨⟩
    exact h.call p j _ hc.inv
  | request p j ch q next r s hrun hserve =>
    obtain ⟨s₀, hrely, hsafe⟩ := hc.threads p j _ hrun
    have hnext := hsafe _ hrely hc.inv ch r s hserve hassume
    refine hc.update h hnext.1 ?_
    rintro j m ⟨⟩
    exact hnext.2
  | ends p j a hrun =>
    obtain ⟨s₀, hrely, hends⟩ := hc.threads p j _ hrun
    exact hc.update h (hends _ hrely hc.inv hassume) fun _ _ hm => nomatch hm
  | dies p j m hrun => exact hc.update h (h.die p j _ hc.inv) fun _ _ hm => nomatch hm
  | moves m =>
    refine ⟨(h.move m _ hc.inv).1, fun p j m' hm => ?_⟩
    obtain ⟨s₀, hrely, hsafe⟩ := hc.threads p j m' hm
    exact ⟨s₀, h.trans _ _ _ _ hrely ((h.move m _ hc.inv).2 p), hsafe⟩

theorem Sound.kept (hc : Kept M K c) (hrun : M.run prog c evs = some c') (hassume : K.assumes c'.shared) :
    Kept M K c' := by
  induction evs generalizing c with
  | nil =>
    cases hrun
    exact hc
  | cons e rest ih =>
    obtain ⟨c₁, hstep, hrest⟩ := bind_eq_some_iff.mp hrun
    exact ih (h.step hc (Machine.steps_of_step hstep) (h.back.run hrest hassume)) hrest

theorem Sound.run {s : σ} (hs : K.inv s)
    (hrun : M.run prog ⟨s, fun _ => none⟩ evs = some c') (hassume : K.assumes c'.shared) : K.inv c'.shared :=
  (h.kept ⟨hs, fun _ _ _ hm => absurd hm (some_ne_none _).symm⟩ hrun hassume).inv

end

end Pact

end Threads
