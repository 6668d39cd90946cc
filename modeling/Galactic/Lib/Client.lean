import Mathlib.Data.List.Basic

/-!
# A client of a shared server

A client program sends requests one after the other and goes on with the replies. Between two requests the others move
the server as they like. `play` runs a program against a schedule, which says before each request what the others do and
how the server answers. `wp` is the weakest precondition over all schedules, with a guarantee that every request of the
program meets, whether or not the program ends. -/

namespace Client
open List

variable {σ Q : Type} {R : Q → Type} {α β : Type}

/-- A program that sends requests `q : Q` and gets replies in `R q`. -/
inductive Prog (Q : Type) (R : Q → Type) (α : Type) : Type
  | ret (a : α)
  | ask (q : Q) (next : R q → Prog Q R α)

namespace Prog

def bind : Prog Q R α → (α → Prog Q R β) → Prog Q R β
  | ret a, f => f a
  | ask q next, f => ask q fun r => (next r).bind f

instance : Monad (Prog Q R) where
  pure := ret
  bind := bind

def Sends (ok : Q → Prop) : Prog Q R α → Prop
  | ret _ => True
  | ask q next => ok q ∧ ∀ r, (next r).Sends ok

variable {ok : Q → Prop}

theorem Sends.bind {p : Prog Q R α} {f : α → Prog Q R β} (hp : p.Sends ok) (hf : ∀ a, (f a).Sends ok) :
    (p >>= f).Sends ok := by
  induction p with
  | ret a => exact hf a
  | ask q next ih => exact ⟨hp.1, fun r => ih r (hp.2 r)⟩

theorem Sends.mono {ok' : Q → Prop} {p : Prog Q R α} (hp : p.Sends ok) (h : ∀ q, ok q → ok' q) : p.Sends ok' := by
  induction p with
  | ret a => trivial
  | ask q next ih => exact ⟨h q hp.1, fun r => ih r (hp.2 r)⟩

end Prog

/-- A server with state `σ`: what the others may do to it, and how it answers. A choice stands for all that decides an
answer besides the state. -/
structure World (σ Q : Type) (R : Q → Type) where
  Choice : Type
  Move : Type
  answer : σ → Choice → (q : Q) → R q × σ
  move : σ → Move → σ

/-- A request with its reply, and the server's states around it. -/
structure Step (σ Q : Type) (R : Q → Type) where
  before : σ
  q : Q
  reply : R q
  after : σ

namespace World

variable (w : World σ Q R)

def moved (s : σ) (ms : List w.Move) : σ := ms.foldl w.move s

/-- A request after some moves of the others. -/
def step (s : σ) (ms : List w.Move) (c : w.Choice) (q : Q) : Step σ Q R :=
  ⟨w.moved s ms, q, (w.answer (w.moved s ms) c q).1, (w.answer (w.moved s ms) c q).2⟩

/-- What happens before and at each request. -/
abbrev Schedule := List (List w.Move × w.Choice)

def play : Prog Q R α → σ → w.Schedule → List (Step σ Q R) × Option α × σ
  | .ret a, s, _ => ([], some a, s)
  | .ask _ _, s, [] => ([], none, s)
  | .ask q next, s, (ms, c) :: rest =>
    (w.step s ms c q :: (play (next (w.step s ms c q).reply) (w.step s ms c q).after rest).1,
      (play (next (w.step s ms c q).reply) (w.step s ms c q).after rest).2)

/-- The moves keep the condition. -/
def Stable (I : σ → Prop) : Prop := ∀ s m, I s → I (w.move s m)

variable {w} in
theorem Stable.moved {I : σ → Prop} (h : w.Stable I) {s : σ} (hs : I s) (ms : List w.Move) : I (w.moved s ms) := by
  induction ms generalizing s with
  | nil => exact hs
  | cons m ms ih => exact ih (h s m hs)

variable {w} in
theorem Stable.and {I J : σ → Prop} (hI : w.Stable I) (hJ : w.Stable J) : w.Stable fun s => I s ∧ J s :=
  fun s m h => ⟨hI s m h.1, hJ s m h.2⟩

/-- From the requests sent so far, every request meets the guarantee and the result the postcondition. -/
def wp (guar : Step σ Q R → Prop) (post : List (Step σ Q R) → σ → α → Prop) :
    Prog Q R α → List (Step σ Q R) → σ → Prop
  | .ret a, tr, s => post tr s a
  | .ask q next, tr, s => ∀ ms c, guar (w.step s ms c q) ∧
      wp guar post (next (w.step s ms c q).reply) (tr ++ [w.step s ms c q]) (w.step s ms c q).after

variable {w} {guar : Step σ Q R → Prop} {post post' : List (Step σ Q R) → σ → α → Prop} {p : Prog Q R α}
  {tr : List (Step σ Q R)} {s : σ}

theorem wp_mono (hp : w.wp guar post p tr s) (h : ∀ tr s a, post tr s a → post' tr s a) : w.wp guar post' p tr s := by
  induction p generalizing tr s with
  | ret a => exact h tr s a hp
  | ask q next ih => exact fun ms c => ⟨(hp ms c).1, ih _ (hp ms c).2⟩

theorem wp_bind {f : α → Prog Q R β} {post' : List (Step σ Q R) → σ → β → Prop} (hp : w.wp guar post p tr s)
    (h : ∀ tr s a, post tr s a → w.wp guar post' (f a) tr s) : w.wp guar post' (p >>= f) tr s := by
  induction p generalizing tr s with
  | ret a => exact h tr s a hp
  | ask q next ih => exact fun ms c => ⟨(hp ms c).1, ih _ (hp ms c).2⟩

theorem wp_sends {ok : Q → Prop} (hp : w.wp guar post p tr s) (hsends : p.Sends ok) :
    w.wp guar (fun tr' s a => post tr' s a ∧ ∃ new, tr' = tr ++ new ∧ ∀ st ∈ new, ok st.q ∧ guar st) p tr s := by
  induction p generalizing tr s with
  | ret a => exact ⟨hp, [], (append_nil tr).symm, fun _ h => nomatch h⟩
  | ask q next ih =>
    intro ms c
    refine ⟨(hp ms c).1, wp_mono (ih _ (hp ms c).2 (hsends.2 _)) ?_⟩
    rintro tr' s' a ⟨hpost, new, rfl, hnew⟩
    exact ⟨hpost, w.step s ms c q :: new, append_assoc _ _ _, forall_mem_cons.mpr ⟨⟨hsends.1, (hp ms c).1⟩, hnew⟩⟩

theorem sends_true (p : Prog Q R α) : p.Sends fun _ => True := by
  induction p with
  | ret a => trivial
  | ask q next ih => exact ⟨trivial, fun r => ih r⟩

section
variable {I : σ → Prop} (hp : w.wp guar post p tr s)

include hp

theorem wp_frame (hstable : w.Stable I) (hguar : ∀ st, guar st → I st.before → I st.after) (hI : I s) :
    w.wp guar (fun tr s a => post tr s a ∧ I s) p tr s := by
  induction p generalizing tr s with
  | ret a => exact ⟨hp, hI⟩
  | ask q next ih =>
    exact fun ms c => ⟨(hp ms c).1, ih _ (hp ms c).2 (hguar _ (hp ms c).1 (hstable.moved hI ms))⟩

theorem play_guar (sched : w.Schedule) : ∀ st ∈ (w.play p s sched).1, guar st := by
  induction p generalizing tr s sched with
  | ret a => exact fun _ h => nomatch h
  | ask q next ih =>
    cases sched with
    | nil => exact fun _ h => nomatch h
    | cons mc rest => exact forall_mem_cons.mpr ⟨(hp mc.1 mc.2).1, ih _ (hp mc.1 mc.2).2 rest⟩

theorem play_keeps (hstable : w.Stable I) (hguar : ∀ st, guar st → I st.before → I st.after) (hs : I s)
    (sched : w.Schedule) : ∀ st ∈ (w.play p s sched).1, I st.before := by
  induction p generalizing tr s sched with
  | ret a => exact fun _ h => nomatch h
  | ask q next ih =>
    cases sched with
    | nil => exact fun _ h => nomatch h
    | cons mc rest =>
      have hbefore : I (w.step s mc.1 mc.2 q).before := hstable.moved hs mc.1
      exact forall_mem_cons.mpr ⟨hbefore, ih _ (hp mc.1 mc.2).2 (hguar _ (hp mc.1 mc.2).1 hbefore) rest⟩

theorem play_post (sched : w.Schedule) {a : α} (ha : (w.play p s sched).2.1 = some a) :
    post (tr ++ (w.play p s sched).1) (w.play p s sched).2.2 a := by
  induction p generalizing tr s sched with
  | ret b =>
    obtain rfl : b = a := Option.some.inj ha
    rw [show (w.play (Prog.ret b) s sched).1 = [] from rfl, append_nil]
    exact hp
  | ask q next ih =>
    cases sched with
    | nil => cases ha
    | cons mc rest =>
      have := ih _ (hp mc.1 mc.2).2 rest ha
      rw [append_assoc] at this
      exact this

end

end World

end Client
