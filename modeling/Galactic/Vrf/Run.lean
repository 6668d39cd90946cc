import Galactic.Vrf.Bound

/-!
# Runs of calls

A reservation that is in the file stays there until a call that is meant to release it does, and as long as it is there
nobody else has its table and its name has no other one. -/

namespace Galactic.Vrf

open FallibleProg List

variable {s : Node}

theorem Call.step_safe (hinv : Inv s) {c : Call} (hc : c.Regular) : Safe c.Releases s (c.step s) := by
  rcases c with ⟨w, vpc, rg⟩ | ⟨w, vpc⟩ | ⟨w, vpc, rg⟩ | ⟨w, name⟩ | ⟨w, name, table⟩ | links
  · exact Good.safe (Triple.state (.imp (addInRange_spec hc.2 hc.1) (fun _ _ h => h.1)
      fun _ _ h => h) (Good.refl hinv))
  · exact Good.safe (Triple.state (.imp (ensureAndEnslave_spec hc) (fun _ _ h => h.1)
      fun _ _ h => h) (Good.refl hinv))
  · exact Shrinks.safe (Triple.state (deleteInRange_spec fun r hname hhas => ⟨hname, hhas⟩) (Shrinks.refl hinv))
  · exact Shrinks.safe (Triple.state deleteIfUnused_spec (Shrinks.refl hinv))
  · exact Shrinks.safe (Triple.state (releaseLocked_spec fun r hname htable => ⟨hname, htable⟩) (Shrinks.refl hinv))
  · exact ⟨⟨hinv.links, hinv.file, hinv.missing⟩, fun r hr => .inl hr, fun l hl => .inl hl⟩

theorem Inv.empty : Inv Node.empty where
  links := ⟨nodup_nil, nodup_nil, fun _ hl => nomatch hl⟩
  file := ⟨nodup_nil, fun _ hr => (nomatch hr), fun _ hr => (nomatch hr), fun _ hl => (nomatch hl),
    fun _ hl => (nomatch hl)⟩
  missing _ := rfl

variable {calls : List Call}

theorem Inv.run (hinv : Inv s) (hcalls : ∀ c ∈ calls, c.Regular) : Inv (run s calls) := by
  induction calls generalizing s with
  | nil => exact hinv
  | cons c calls ih =>
    obtain ⟨hc, hcalls⟩ := forall_mem_cons.mp hcalls
    exact ih (Call.step_safe hinv hc).inv hcalls

variable {r : Reservation}

/-- What a reservation in the file means for the VRFs and for the next ADD of its name. -/
structure Held (r : Reservation) (s : Node) : Prop where
  reserved : r ∈ s.reservations
  alone : ∀ r' ∈ s.reservations, r'.table = r.table → r' = r
  owner : ∀ l ∈ s.vrfs, l.table = r.table → l.name = r.name
  again : ∀ w vpc rg l, (Call.addInRange w vpc rg).Regular → generateInterfaceNameVRF vpc = r.name → rg.Has r.table →
    (exec (addInRange w vpc rg) s).1 = .ok l → l.name = r.name ∧ l.table = r.table
  ensured : ∀ w vpc l, (Call.ensureAndEnslave w vpc).Regular → generateInterfaceNameVRF vpc = r.name →
    hostRange.Has r.table → (exec (ensureAndEnslave w vpc) s).1 = .ok l → l.name = r.name ∧ l.table = r.table

theorem table_eq_of_good (hr : r ∈ s.reservations) {m : M VrfLink} {rg : Range}
    (hrg : rg = hostRange ∨ rg = sidecarRange) (hhas : rg.Has r.table) (hinv : Inv s)
    (hm : Triple (Good s) m (fun l s' => Good s s' ∧ l ∈ s'.vrfs ∧ l.name = r.name ∧ rg.Has l.table) fun _ => Good s)
    {l : VrfLink} (hok : (exec m s).1 = .ok l) : l.name = r.name ∧ l.table = r.table := by
  have hend := hm s (Good.refl hinv)
  rcases hexec : exec m s with ⟨e | l', s'⟩
  · rw [hexec] at hok
    cases hok
  rw [hexec] at hend hok
  cases hok
  obtain ⟨hgood, hl, hname, hhas'⟩ := hend
  exact ⟨hname, (hgood.inv.file.own _ hl r (hgood.keeps r hr) hname.symm ⟨rg, hrg, hhas, hhas'⟩).symm⟩

theorem Inv.held (hinv : Inv s) (hr : r ∈ s.reservations) : Held r s where
  reserved := hr
  alone _ hr' htable := hinv.file.eq_of_table hr' hr htable
  owner l hl htable := (hinv.file.owner l hl r hr htable.symm).symm
  again _ _ _ _ hc hname hhas hok := table_eq_of_good hr hc.2 hhas hinv (hname ▸ addInRange_spec hc.2 hc.1) hok
  ensured _ _ _ hc hname hhas hok := table_eq_of_good hr (.inl rfl) hhas hinv (hname ▸ ensureAndEnslave_spec hc) hok

end Galactic.Vrf
