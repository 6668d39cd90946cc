import Mathlib.Logic.Basic

/-!
# Programs that may fail part-way

A program changes a state and returns a value or an error; what it did before an error stays. A triple says what holds
after a run from a state with the precondition: one condition for a value, one for an error. -/

namespace FallibleProg

/-- A program on the state `σ` with errors `ε`. -/
abbrev Prog (σ ε : Type) := ExceptT ε (StateM σ)

variable {σ ε α β : Type}

def exec (m : Prog σ ε α) (s : σ) : Except ε α × σ := StateT.run (ExceptT.run m) s

def check (fails : Bool) (e : ε) : Prog σ ε Unit := if fails then throw e else pure ()

/-- A step whose error is only looked at. -/
def attempt (m : Prog σ ε α) : Prog σ ε (Except ε α) :=
  tryCatch (m >>= fun a => pure (.ok a)) fun e => pure (.error e)

@[simp] theorem exec_get (s : σ) : exec (get : Prog σ ε σ) s = (.ok s, s) := rfl

theorem exec_bind (m : Prog σ ε α) (f : α → Prog σ ε β) (s : σ) :
    exec (m >>= f) s = match exec m s with
      | (.ok a, s') => exec (f a) s'
      | (.error e, s') => (.error e, s') := by
  change (match exec m s with
      | (r, s') => StateT.run (ExceptT.bindCont (fun a => f a) r) s') = _
  rcases exec m s with ⟨e | a, s'⟩ <;> rfl

theorem exec_tryCatch (m : Prog σ ε α) (f : ε → Prog σ ε α) (s : σ) :
    exec (tryCatch m f) s = match exec m s with
      | (.ok a, s') => (.ok a, s')
      | (.error e, s') => exec (f e) s' := by
  have hrun : exec (tryCatch m f) s = StateT.run (match (exec m s).1 with
      | Except.ok a => (pure (Except.ok a) : StateM σ (Except ε α))
      | Except.error e => ExceptT.run (f e)) (exec m s).2 := rfl
  rw [hrun]
  rcases exec m s with ⟨e | a, s'⟩ <;> rfl

/-! ### Triples -/

def Triple (P : σ → Prop) (m : Prog σ ε α) (Q : α → σ → Prop) (E : ε → σ → Prop) : Prop :=
  ∀ s, P s → match exec m s with
    | (.ok a, s') => Q a s'
    | (.error e, s') => E e s'

variable {P P' : σ → Prop} {m : Prog σ ε α} {f : α → Prog σ ε β} {Q Q' : α → σ → Prop} {R : β → σ → Prop}
  {E E' : ε → σ → Prop}

/-- A triple for the runs from one state. -/
abbrev From (s₀ : σ) (m : Prog σ ε α) (Q : α → σ → Prop) (E : ε → σ → Prop) : Prop := Triple (fun s => s = s₀) m Q E

theorem Triple.pure {a : α} (h : ∀ s, P s → Q a s) : Triple P (pure a) Q E := h

theorem Triple.throw {e : ε} (h : ∀ s, P s → E e s) : Triple P (throw e) Q E := h

theorem Triple.modify {f : σ → σ} {Q : PUnit → σ → Prop} (h : ∀ s, P s → Q ⟨⟩ (f s)) : Triple P (modify f) Q E := h

theorem Triple.bind (hm : Triple P m Q E) (hf : ∀ a, Triple (Q a) (f a) R E) : Triple P (m >>= f) R E := by
  intro s hs
  have hfirst := hm s hs
  rw [exec_bind]
  rcases hexec : exec m s with ⟨e | a, s'⟩ <;> rw [hexec] at hfirst
  · exact hfirst
  · exact hf a s' hfirst

theorem Triple.named (h : ∀ s₀, P s₀ → From s₀ m Q E) : Triple P m Q E := fun s hs => h s hs s rfl

theorem Triple.get_bind {f : σ → Prog σ ε β} (h : ∀ s₀, P s₀ → From s₀ (f s₀) R E) :
    Triple P (get >>= f) R E := by
  intro s hs
  rw [exec_bind, exec_get]
  exact h s hs s rfl

theorem Triple.get_from {s₀ : σ} {f : σ → Prog σ ε β} (h : From s₀ (f s₀) R E) : From s₀ (get >>= f) R E :=
  .get_bind fun _ hs => hs ▸ h

section
variable (hm : Triple P m Q E)

include hm

theorem Triple.weaken (hP : ∀ s, P' s → P s) (hQ : ∀ a s, Q a s → Q' a s) (hE : ∀ e s, E e s → E' e s) :
    Triple P' m Q' E' := by
  intro s hs
  have h := hm s (hP s hs)
  rcases hexec : exec m s with ⟨e | a, s'⟩ <;> rw [hexec] at h
  · exact hE e s' h
  · exact hQ a s' h

theorem Triple.imp (hQ : ∀ a s, Q a s → Q' a s) (hE : ∀ e s, E e s → E' e s) : Triple P m Q' E' :=
  hm.weaken (fun _ h => h) hQ hE

theorem Triple.given (hP : ∀ s, P' s → P s) : Triple P' m Q E := fun s hs => hm s (hP s hs)

theorem Triple.onError (hE : ∀ e s, E e s → E' e s) : Triple P m Q E' := hm.imp (fun _ _ h => h) hE

theorem Triple.and (hm' : Triple P' m Q' E') :
    Triple (fun s => P s ∧ P' s) m (fun a s => Q a s ∧ Q' a s) fun e s => E e s ∧ E' e s := by
  intro s hs
  have h := hm s hs.1
  have h' := hm' s hs.2
  rcases hexec : exec m s with ⟨e | a, s'⟩ <;> rw [hexec] at h h'
  · exact ⟨h, h'⟩
  · exact ⟨h, h'⟩

end

theorem Triple.state {R : σ → Prop} (hm : Triple P m (fun _ => R) fun _ => R) {s : σ} (hs : P s) : R (exec m s).2 := by
  have h := hm s hs
  rcases hexec : exec m s with ⟨e | a, s'⟩ <;> rw [hexec] at h
  · exact h
  · exact h

section
variable {F : ε → σ → Prop} {fails : Bool} {e : ε} {f : Unit → Prog σ ε β}

theorem Triple.tryCatch {h : ε → Prog σ ε α} (hm : Triple P m Q F) (hh : ∀ e, Triple (F e) (h e) Q E) :
    Triple P (tryCatch m h) Q E := by
  intro s hs
  have hfirst := hm s hs
  rw [exec_tryCatch]
  rcases hexec : exec m s with ⟨e | a, s'⟩ <;> rw [hexec] at hfirst
  · exact hh e s' hfirst
  · exact hfirst

theorem Triple.attempt (hm : Triple P m Q F) :
    Triple P (attempt m)
      (fun out s => match out with
        | .ok a => Q a s
        | .error e => F e s) E :=
  Triple.tryCatch (Triple.bind hm fun _ => Triple.pure fun _ hs => hs) fun _ => Triple.pure fun _ hs => hs

theorem Triple.sure {f : Except ε α → Prog σ ε β} (hm : Triple P m Q fun _ _ => False)
    (hf : ∀ a, Triple (Q a) (f (.ok a)) R E) : Triple P (FallibleProg.attempt m >>= f) R E := by
  refine Triple.bind hm.attempt fun out => ?_
  rcases out with e | a
  · exact fun _ hfalse => hfalse.elim
  · exact hf a

theorem Triple.check_bind (hE : ∀ s, P s → E e s) (hf : Triple P (f ()) R E) : Triple P (check fails e >>= f) R E := by
  rcases fails with _ | _
  · exact Triple.bind (Triple.pure fun s hs => hs) fun _ => hf
  · exact Triple.bind (Triple.throw hE) fun _ => hf

theorem Triple.guard {Q : Unit → σ → Prop} (hE : fails → ∀ s, P s → E e s) (hQ : fails = false → ∀ s, P s → Q () s) :
    Triple P (check fails e) Q E := by
  rcases fails with _ | _
  · exact Triple.pure (hQ rfl)
  · exact Triple.throw (hE rfl)

theorem Triple.guard_bind (hE : fails → ∀ s, P s → E e s) (hf : fails = false → Triple P (f ()) R E) :
    Triple P (check fails e >>= f) R E := by
  rcases fails with _ | _
  · exact Triple.bind (Triple.pure fun s hs => hs) fun _ => hf rfl
  · exact Triple.bind (Triple.throw (hE rfl)) fun _ => (fun s hs => hs.elim : Triple (fun _ => False) _ R E)

theorem Triple.pass (h : fails = false) (hf : Triple P (f ()) R E) : Triple P (check fails e >>= f) R E :=
  Triple.guard_bind (fun hfails => nomatch h.symm.trans hfails) fun _ => hf

end

end FallibleProg
