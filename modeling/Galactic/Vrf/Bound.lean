import Galactic.Vrf.Node

/-!
# A table stays with its name

The file never has a table twice, a live VRF's table is reserved for nobody else, and a name has at most one reservation
in each range. So a reservation in the file is neither given away nor replaced, whatever fails. -/

namespace Galactic.Vrf

open FallibleProg List Node Option

/-- One of the two ranges has both tables. -/
def SameRange (t t' : Nat) : Prop := ∃ rg, (rg = hostRange ∨ rg = sidecarRange) ∧ rg.Has t ∧ rg.Has t'

variable {t t' : Nat}

theorem SameRange.symm (h : SameRange t t') : SameRange t' t := by
  obtain ⟨rg, hrg, ht, ht'⟩ := h
  exact ⟨rg, hrg, ht', ht⟩

theorem SameRange.has {rg : Range} (hrg : rg = hostRange ∨ rg = sidecarRange) (ht : rg.Has t) (h : SameRange t' t) :
    rg.Has t' := by
  obtain ⟨rg', hrg', hhas', hhas⟩ := h
  have hdisjoint : ∀ t, hostRange.Has t → sidecarRange.Has t → False := by
    intro t h1 h2
    have hmax : t ≤ 0xEFFF := h1.2
    have hmin : sidecarTableIDBase + 1 ≤ t := h2.1
    unfold sidecarTableIDBase at hmin
    omega
  rcases hrg with rfl | rfl <;> rcases hrg' with rfl | rfl
  · exact hhas'
  · exact (hdisjoint t ht hhas).elim
  · exact (hdisjoint t hhas ht).elim
  · exact hhas'

structure FileOk (vrfs : List VrfLink) (res : List Reservation) : Prop where
  tables : (res.map (·.table)).Nodup
  usable : ∀ r ∈ res, ¬Kernel r.table
  single : ∀ r ∈ res, ∀ r' ∈ res, r.name = r'.name → SameRange r.table r'.table → r = r'
  owner : ∀ l ∈ vrfs, ∀ r ∈ res, r.table = l.table → r.name = l.name
  own : ∀ l ∈ vrfs, ∀ r ∈ res, r.name = l.name → SameRange r.table l.table → r.table = l.table

structure LinksOk (vrfs : List VrfLink) : Prop where
  names : (vrfs.map (·.name)).Nodup
  tables : (vrfs.map (·.table)).Nodup
  ranges : ∀ l ∈ vrfs, (l.range = hostRange ∨ l.range = sidecarRange) ∧ l.range.Has l.table ∧ ¬Kernel l.table

structure Inv (s : Node) : Prop where
  links : LinksOk s.vrfs
  file : FileOk s.vrfs s.reservations
  missing : s.file = none → s.vrfs = []

section FileOk
variable {vrfs : List VrfLink} {res : List Reservation}

section
variable (h : FileOk vrfs res) {res' : List Reservation}

include h

theorem FileOk.eq_of_table {r r' : Reservation} (hr : r ∈ res) (hr' : r' ∈ res) (htable : r.table = r'.table) :
    r = r' :=
  inj_on_of_nodup_map h.tables hr hr' htable

theorem FileOk.of_subset (htables : (res'.map (·.table)).Nodup) (hsub : res' ⊆ res) : FileOk vrfs res' :=
  ⟨htables, fun r hr => h.usable r (hsub hr), fun r hr r' hr' => h.single r (hsub hr) r' (hsub hr'),
    fun l hl r hr => h.owner l hl r (hsub hr), fun l hl r hr => h.own l hl r (hsub hr)⟩

theorem FileOk.sublist (hsub : res'.Sublist res) : FileOk vrfs res' :=
  h.of_subset ((hsub.map _).nodup h.tables) hsub.subset

end

theorem nodup_map_concat {α β : Type} {f : α → β} {l : List α} {a : α} (h : (l.map f).Nodup) (ha : ∀ x ∈ l, f x ≠ f a) :
    ((l ++ [a]).map f).Nodup := by
  rw [map_append, nodup_append_comm, map_singleton, singleton_append, nodup_cons, List.mem_map]
  exact ⟨fun ⟨x, hx, heq⟩ => ha x hx heq, h⟩

theorem FileOk.snoc (h : FileOk vrfs res) {r : Reservation} (hkernel : ¬Kernel r.table)
    (hfresh : ∀ r' ∈ res, r'.table ≠ r.table) (hsingle : ∀ r' ∈ res, r'.name = r.name → ¬SameRange r'.table r.table)
    (howner : ∀ l ∈ vrfs, r.table = l.table → r.name = l.name)
    (hown : ∀ l ∈ vrfs, r.name = l.name → SameRange r.table l.table → r.table = l.table) :
    FileOk vrfs (res ++ [r]) := by
  have hcases : ∀ r' ∈ res ++ [r], r' ∈ res ∨ r' = r := fun r' hr' => by
    rcases mem_append.mp hr' with hr' | hr'
    · exact .inl hr'
    · exact .inr (mem_singleton.mp hr')
  refine ⟨nodup_map_concat h.tables hfresh, fun r' hr' => ?_, fun r' hr' r'' hr'' hname hrange => ?_,
    fun l hl r' hr' => ?_, fun l hl r' hr' => ?_⟩
  · rcases hcases r' hr' with hr' | rfl
    · exact h.usable r' hr'
    · exact hkernel
  · rcases hcases r' hr' with hin' | rfl <;> rcases hcases r'' hr'' with hin'' | rfl
    · exact h.single r' hin' r'' hin'' hname hrange
    · exact absurd hrange (hsingle r' hin' hname)
    · exact absurd hrange.symm (hsingle r'' hin'' hname.symm)
    · rfl
  · rcases hcases r' hr' with hr' | rfl
    · exact h.owner l hl r' hr'
    · exact howner l hl
  · rcases hcases r' hr' with hr' | rfl
    · exact h.own l hl r' hr'
    · exact hown l hl

theorem mem_of_liveNames {t : Nat} {m : String} (h : liveNames vrfs t = some m) :
    ∃ l ∈ vrfs, l.table = t ∧ l.name = m := by
  obtain ⟨l, hl, rfl⟩ := map_eq_some_iff.mp h
  exact ⟨l, mem_reverse.mp (mem_of_find?_eq_some hl), by simpa using find?_some hl, rfl⟩

variable {rg : Range}

theorem FileOk.reserveTable (h : FileOk vrfs res) {name : String} (hrg : rg = hostRange ∨ rg = sidecarRange)
    (hdead : ∀ l ∈ vrfs, l.name ≠ name) {table : Nat} {out : List Reservation}
    (hout : reserveTable res (vrfs.map (·.table)) (liveNames vrfs) name rg = some (table, out)) :
    FileOk vrfs out ∧ (∀ r ∈ res, r ∈ out) ∧ ⟨name, table⟩ ∈ out ∧ rg.Has table ∧ ¬Kernel table ∧
      ∀ l ∈ vrfs, l.table ≠ table := by
  rcases reserveTableLoop_cases hout with ⟨hmem, hhas, rfl⟩ | ⟨more, rfl, hhas, hkernel, hused, hsub, hmore, hres⟩
  · refine ⟨h, fun r hr => hr, hmem, hhas, h.usable _ hmem, fun l hl heq => ?_⟩
    exact hdead l hl (h.owner l hl _ hmem heq.symm).symm
  rw [nil_append]
  have hkept : ∀ r ∈ res, r ∈ more := by
    intro r hr
    rcases hres r hr with hin | ⟨hname, hsome, hnot⟩
    · exact hin
    -- a reservation of the name is only dropped for a VRF of another name, which cannot have the table
    obtain ⟨m, hm⟩ := ne_none_iff_exists'.mp hsome
    obtain ⟨l, hl, htable, hlname⟩ := mem_of_liveNames hm
    have : name = m := by rw [← hname, ← hlname, h.owner l hl r hr htable.symm]
    exact absurd (this ▸ hm) hnot
  have hfree : ∀ l ∈ vrfs, l.table ≠ table := fun l hl heq => hused (heq ▸ mem_map_of_mem hl)
  refine ⟨?_, fun r hr => mem_append_left _ (hkept r hr), by simp, hhas, hkernel, hfree⟩
  refine (h.sublist hsub).snoc hkernel (fun r hr => (hmore r hr).1) ?_ (fun l hl heq => absurd heq.symm (hfree l hl))
    (fun l hl hname => absurd hname.symm (hdead l hl))
  intro r hr hname hrange
  exact (hmore r hr).2 ⟨hname, hrange.has hrg hhas⟩

theorem FileOk.recordTable (h : FileOk vrfs res) (hlinks : LinksOk vrfs) {l : VrfLink} (hl : l ∈ vrfs)
    (hrg : rg = hostRange ∨ rg = sidecarRange) (hhas : rg.Has l.table) :
    FileOk vrfs (recordTable res l.name l.table rg).1 ∧ ∀ r ∈ res, r ∈ (recordTable res l.name l.table rg).1 := by
  have hloop : recordTableLoop l.name l.table rg res [] false false =
      (res, decide (⟨l.name, l.table⟩ ∈ res), false) := by
    rw [recordTableLoop_eq]
    · simp
    · exact fun r hr hname hr' => h.own l hl r hr hname ⟨rg, hrg, hr', hhas⟩
    · exact fun r hr => h.owner l hl r hr
  unfold Vrf.recordTable
  rw [hloop]
  by_cases hfound : (⟨l.name, l.table⟩ : Reservation) ∈ res
  · rw [decide_eq_true hfound]
    exact ⟨h, fun r hr => hr⟩
  rw [decide_eq_false hfound]
  have hresult : ∀ r : Reservation, r.name = l.name → r.table = l.table → r = ⟨l.name, l.table⟩ := by
    rintro ⟨n, t⟩ rfl rfl
    rfl
  refine ⟨h.snoc (hlinks.ranges l hl).2.2 (fun r hr heq => hfound ?_) (fun r hr hname hrange => hfound ?_)
    (fun l' hl' heq => ?_) (fun l' hl' hname _ => ?_), fun r hr => mem_append_left _ hr⟩
  · rw [← hresult r (h.owner l hl r hr heq) heq]
    exact hr
  · rw [← hresult r hname (h.own l hl r hr hname hrange)]
    exact hr
  · rw [inj_on_of_nodup_map hlinks.tables hl hl' heq]
  · rw [inj_on_of_nodup_map hlinks.names hl hl' hname]

end FileOk

/-! ### Links that come and go -/

section
variable {vrfs vrfs' : List VrfLink} {res : List Reservation} {l : VrfLink}

theorem LinksOk.sublist (h : LinksOk vrfs) (hsub : vrfs'.Sublist vrfs) : LinksOk vrfs' :=
  ⟨(hsub.map _).nodup h.names, (hsub.map _).nodup h.tables, fun l hl => h.ranges l (hsub.subset hl)⟩

theorem FileOk.fewer (h : FileOk vrfs res) (hsub : ∀ l ∈ vrfs', l ∈ vrfs) : FileOk vrfs' res :=
  ⟨h.tables, h.usable, h.single, fun l hl => h.owner l (hsub l hl), fun l hl => h.own l (hsub l hl)⟩

theorem LinksOk.snoc (h : LinksOk vrfs) (hname : ∀ l' ∈ vrfs, l'.name ≠ l.name)
    (htable : ∀ l' ∈ vrfs, l'.table ≠ l.table)
    (hrange : (l.range = hostRange ∨ l.range = sidecarRange) ∧ l.range.Has l.table ∧ ¬Kernel l.table) :
    LinksOk (vrfs ++ [l]) := by
  exact ⟨nodup_map_concat h.names hname, nodup_map_concat h.tables htable,
    forall_mem_append.mpr ⟨h.ranges, forall_mem_singleton.mpr hrange⟩⟩

theorem FileOk.created (h : FileOk vrfs res) (hres : ⟨l.name, l.table⟩ ∈ res) : FileOk (vrfs ++ [l]) res := by
  refine ⟨h.tables, h.usable, h.single, forall_mem_append.mpr ⟨h.owner, forall_mem_singleton.mpr fun r hr heq => ?_⟩,
    forall_mem_append.mpr ⟨h.own, forall_mem_singleton.mpr fun r hr hname hrange => ?_⟩⟩
  · rw [h.eq_of_table hr hres heq]
  · rw [h.single r hr _ hres hname hrange]

end

/-! ### The steps of a call -/

/-- What every point of a call that releases nothing keeps, since its start in `s₀`: no reservation is lost, and a VRF
that was created has one. -/
structure Good (s₀ s : Node) : Prop where
  inv : Inv s
  keeps : ∀ r ∈ s₀.reservations, r ∈ s.reservations
  bound : ∀ l ∈ s.vrfs, l ∈ s₀.vrfs ∨ ⟨l.name, l.table⟩ ∈ s.reservations

variable {s₀ : Node} {w : World}

section
variable {s : Node} {res : List Reservation}

theorem Good.refl (h : Inv s) : Good s s := ⟨h, fun _ hr => hr, fun _ hl => .inl hl⟩

theorem Inv.reservations_eq (h : Inv s) : s.reservations = s.file.getD [] := by
  unfold reservations
  rcases hfile : s.file with _ | res
  · rw [h.missing hfile]
    rfl
  · rfl

theorem loadReservations_spec {P : Node → Prop} :
    Triple P (loadReservations w) (fun res s => P s ∧ res = s.reservations) fun _ => P := by
  refine .check_bind (fun s hs => hs) (.get_bind fun s hs => ?_)
  rcases hfile : s.file with _ | res
  · refine .check_bind (fun s' hs' => hs' ▸ hs) (.pure fun s' hs' => ?_)
    subst hs'
    exact ⟨hs, by rw [reservations, hfile]; rfl⟩
  · refine .pure fun s' hs' => ?_
    subst hs'
    exact ⟨hs, by rw [reservations, hfile]; rfl⟩

theorem Inv.saved (h : Inv s) (hres : FileOk s.vrfs res) :
    Inv { s with file := some (res.insertionSort fun a b => a.before b) } ∧
      ∀ r, r ∈ reservations { s with file := some (res.insertionSort fun a b => a.before b) } ↔ r ∈ res := by
  have hperm := perm_insertionSort (fun a b : Reservation => a.before b) res
  exact ⟨⟨h.links, hres.of_subset ((hperm.map _).nodup_iff.mpr hres.tables) hperm.subset, fun hnone => nomatch hnone⟩,
    fun r => hperm.mem_iff⟩

theorem saveReservations_spec (hgood : Good s₀ s) (hfile : FileOk s.vrfs res) (hsub : ∀ r ∈ s.reservations, r ∈ res) :
    From s (saveReservations w res)
      (fun _ s' => Good s₀ s' ∧ s'.vrfs = s.vrfs ∧ ∀ r ∈ res, r ∈ s'.reservations) fun _ s' => s' = s := by
  refine .check_bind (fun s' hs' => hs') (.modify fun s' hs' => ?_)
  subst hs'
  obtain ⟨hinv, hmem⟩ := hgood.inv.saved hfile
  refine ⟨⟨hinv, fun r hr => (hmem r).mpr (hsub r (hgood.keeps r hr)), fun l hl => ?_⟩, rfl,
    fun r hr => (hmem r).mpr hr⟩
  rcases hgood.bound l hl with hold | hnew
  · exact .inl hold
  · exact .inr ((hmem _).mpr (hsub _ hnew))

end

def Absent (s : Node) (name : String) : Prop := ∀ l ∈ s.vrfs, l.name ≠ name

section
variable {s : Node} {name : String} {rg : Range}

theorem absent_of_find (h : s.vrf? name = none) : Absent s name := by
  intro l hl
  simpa using find?_eq_none.mp h l hl

theorem mem_of_find {l : VrfLink} (h : s.vrf? name = some l) : l ∈ s.vrfs ∧ l.name = name :=
  ⟨mem_of_find?_eq_some h, by simpa using find?_some h⟩

theorem reserveVRFTable_spec (hrg : rg = hostRange ∨ rg = sidecarRange) :
    Triple (fun s => Good s₀ s ∧ Absent s name) (reserveVRFTable w name rg)
      (fun table s => Good s₀ s ∧ Absent s name ∧ ⟨name, table⟩ ∈ s.reservations ∧ rg.Has table ∧ ¬Kernel table ∧
        ∀ l ∈ s.vrfs, l.table ≠ table) fun _ => Good s₀ := by
  refine .check_bind (fun s hs => hs.1) (.get_bind fun s hs => ?_)
  refine .bind (.onError loadReservations_spec fun _ s' hs' => hs' ▸ hs.1) fun res => .named fun s' hs' => ?_
  obtain ⟨rfl, rfl⟩ := hs'
  rcases hout : reserveTable s'.reservations (s'.vrfs.map (·.table))
    (liveNames s'.vrfs) name rg with _ | ⟨table, out⟩ <;> rw [hout]
  · exact .throw fun s hs' => hs' ▸ hs.1
  obtain ⟨hfile, hsub, hmem, hhas, hkernel, hfree⟩ := hs.1.inv.file.reserveTable hrg hs.2 hout
  refine .bind (.onError (saveReservations_spec hs.1 hfile hsub)
    fun _ s hs' => hs' ▸ hs.1) fun _ => .pure fun s hsaved => ?_
  obtain ⟨hgood, hvrfs, hin⟩ := hsaved
  exact ⟨hgood, fun l hl => hs.2 l (hvrfs ▸ hl), hin _ hmem, hhas, hkernel, by rw [hvrfs]; exact hfree⟩

theorem linkAdd_spec {table : Nat} (hrg : rg = hostRange ∨ rg = sidecarRange) :
    Triple (fun s => Good s₀ s ∧ Absent s name ∧ ⟨name, table⟩ ∈ s.reservations ∧ rg.Has table ∧ ¬Kernel table ∧
      ∀ l ∈ s.vrfs, l.table ≠ table) (linkAdd w name table rg) (fun _ s => Good s₀ s ∧ ∃ l ∈ s.vrfs, l.name = name ∧
      rg.Has l.table) fun _ => Good s₀ := by
  refine .check_bind (fun s hs => hs.1) (.get_bind fun s hs => ?_)
  obtain ⟨hgood, habsent, hres, hhas, hkernel, hfree⟩ := hs
  have hfile : s.file ≠ none := by
    intro hnone
    rw [hgood.inv.reservations_eq, hnone] at hres
    cases hres
  obtain ⟨res, hsome⟩ := ne_none_iff_exists'.mp hfile
  have hsame : ∀ vrfs, reservations { s with vrfs := vrfs } = s.reservations := by
    intro vrfs
    simp only [reservations, hsome, getD_some]
  rcases hv : s.vrf? name with _ | l
  · rcases ho : s.other? name with _ | l
    · refine .modify fun s' hs' => ?_
      subst hs'
      refine ⟨⟨⟨hgood.inv.links.snoc habsent hfree ⟨hrg, hhas, hkernel⟩, ?_, fun hnone => absurd hnone hfile⟩, ?_, ?_⟩,
        ⟨name, table, w.index, rg⟩, by simp, rfl, hhas⟩
      · rw [hsame]
        exact hgood.inv.file.created hres
      · rw [hsame]
        exact hgood.keeps
      rw [hsame]
      exact forall_mem_append.mpr ⟨hgood.bound, forall_mem_singleton.mpr (.inr hres)⟩
    · exact .throw fun s' hs' => hs' ▸ hgood
  · exact .throw fun s' hs' => hs' ▸ hgood

end

theorem LinksOk.eq_of_name {vrfs : List VrfLink} (h : LinksOk vrfs) {l l' : VrfLink} (hl : l ∈ vrfs) (hl' : l' ∈ vrfs)
    (hname : l.name = l'.name) : l = l' :=
  inj_on_of_nodup_map h.names hl hl' hname

section
variable {rg : Range} (hrg : rg = hostRange ∨ rg = sidecarRange) {l : VrfLink} {vpc : String}

include hrg

theorem create_spec {name : String} : Triple (fun s => Good s₀ s ∧ Absent s name) (create w name rg)
      (fun l s => Good s₀ s ∧ l ∈ s.vrfs ∧ l.name = name ∧ rg.Has l.table) fun _ => Good s₀ := by
  refine .bind (reserveVRFTable_spec hrg) fun table => .check_bind (fun s hs => hs.1) ?_
  refine .bind (linkAdd_spec hrg) fun _ => ?_
  refine .check_bind (fun s hs => hs.1) (.check_bind (fun s hs => hs.1) (.check_bind (fun s hs => hs.1) ?_))
  refine .check_bind (fun s hs => hs.1) (.get_bind fun s hs => ?_)
  obtain ⟨hgood, l, hl, hname, hhas⟩ := hs
  rcases hv : s.vrf? name with _ | l'
  · exact absurd hname (absent_of_find hv l hl)
  refine .pure fun s' hs' => ?_
  subst hs'
  obtain ⟨hl', hname'⟩ := mem_of_find hv
  rw [hgood.inv.links.eq_of_name hl' hl (hname'.trans hname.symm)]
  exact ⟨hgood, hl, hname, hhas⟩

theorem recordExistingTable_spec :
    Triple (fun s => Good s₀ s ∧ l ∈ s.vrfs ∧ rg.Has l.table) (recordExistingTable w l.name l.table rg)
      (fun _ s => Good s₀ s ∧ l ∈ s.vrfs ∧ rg.Has l.table) fun _ s => Good s₀ s ∧ l ∈ s.vrfs ∧ rg.Has l.table := by
  refine .bind loadReservations_spec fun res => .named fun s hs => ?_
  obtain ⟨⟨hgood, hl, hhas⟩, rfl⟩ := hs
  obtain ⟨hfile, hsub⟩ := hgood.inv.file.recordTable hgood.inv.links hl hrg hhas
  rcases hrec : recordTable s.reservations l.name l.table rg with ⟨kept, _ | _⟩
  · exact .pure fun s' hs' => hs' ▸ ⟨hgood, hl, hhas⟩
  rw [hrec] at hfile hsub
  refine .imp (saveReservations_spec hgood hfile hsub) ?_ fun _ s' hs' => hs' ▸ ⟨hgood, hl, hhas⟩
  rintro _ s' ⟨hgood', hvrfs, -⟩
  exact ⟨hgood', hvrfs ▸ hl, hhas⟩

theorem reuse_spec : Triple (fun s => Good s₀ s ∧ l ∈ s.vrfs) (reuse w l rg)
      (fun l' s => l' = l ∧ Good s₀ s ∧ l ∈ s.vrfs ∧ rg.Has l.table) fun _ => Good s₀ := by
  unfold reuse
  split_ifs with hhas
  · refine .bind (Q := fun _ s => Good s₀ s ∧ l ∈ s.vrfs ∧ rg.Has l.table) ?_ fun _ =>
      .check_bind (fun s hs => hs.1) (.pure fun s hs => ⟨rfl, hs⟩)
    -- a failure to record the table is swallowed, and has changed nothing
    exact .tryCatch (.given (recordExistingTable_spec hrg) (fun s hs => ⟨hs.1, hs.2, hhas⟩))
      fun _ => .pure fun s hs => hs
  · exact .throw fun s hs => hs.1

theorem addLocked_spec (hw : w.addLookup = false) : Triple (Good s₀) (addLocked w vpc rg) (fun l s => Good s₀ s ∧
      l ∈ s.vrfs ∧ l.name = generateInterfaceNameVRF vpc ∧ rg.Has l.table) fun _ => Good s₀ := by
  refine .get_bind fun s hs => ?_
  rw [if_neg (ne_true_of_eq_false hw)]
  rcases hv : s.vrf? (generateInterfaceNameVRF vpc) with _ | l
  · rcases ho : s.other? (generateInterfaceNameVRF vpc) with _ | l
    · exact .given (create_spec hrg) (fun s' hs' => hs' ▸ ⟨hs, absent_of_find hv⟩)
    · exact .throw fun s' hs' => hs' ▸ hs
  obtain ⟨hl, hname⟩ := mem_of_find hv
  refine .weaken (reuse_spec hrg) (fun s' hs' => hs' ▸ ⟨hs, hl⟩) ?_ fun _ _ h => h
  rintro _ s' ⟨rfl, hgood, hmem, hhas⟩
  exact ⟨hgood, hmem, hname, hhas⟩

theorem addInRange_spec (hw : w.addLookup = false) : Triple (Good s₀) (addInRange w vpc rg)
      (fun l s => Good s₀ s ∧ l ∈ s.vrfs ∧ l.name = generateInterfaceNameVRF vpc ∧ rg.Has l.table) fun _ => Good s₀ :=
  .check_bind (fun _ hs => hs) (addLocked_spec hrg hw)

end

theorem ensureAndEnslave_spec {vpc : String} (hw : w.addLookup = false) : Triple (Good s₀) (ensureAndEnslave w vpc)
      (fun l s => Good s₀ s ∧ l ∈ s.vrfs ∧ l.name = generateInterfaceNameVRF vpc ∧ hostRange.Has l.table)
      fun _ => Good s₀ :=
  .check_bind (fun _ hs => hs) (.bind (addLocked_spec (.inl rfl) hw) fun _ =>
    .check_bind (fun _ hs => hs.1) (.pure fun _ hs => hs))

/-! ### Releases -/

/-- What every point of a call keeps: a reservation is only lost to a call that may release it. -/
structure Safe (may : Reservation → Prop) (s₀ s : Node) : Prop where
  inv : Inv s
  keeps : ∀ r ∈ s₀.reservations, r ∈ s.reservations ∨ may r
  bound : ∀ l ∈ s.vrfs, l ∈ s₀.vrfs ∨ ⟨l.name, l.table⟩ ∈ s.reservations

variable {may : Reservation → Prop} {s : Node}

theorem Good.safe (h : Good s₀ s) : Safe may s₀ s :=
  ⟨h.inv, fun r hr => .inl (h.keeps r hr), h.bound⟩

/-- What a call that creates nothing keeps. -/
structure Shrinks (may : Reservation → Prop) (s₀ s : Node) : Prop where
  inv : Inv s
  keeps : ∀ r ∈ s₀.reservations, r ∈ s.reservations ∨ may r
  links : ∀ l ∈ s.vrfs, l ∈ s₀.vrfs

theorem Shrinks.refl (h : Inv s) : Shrinks may s s :=
  ⟨h, fun _ hr => .inl hr, fun _ hl => hl⟩

theorem Shrinks.safe (h : Shrinks may s₀ s) : Safe may s₀ s :=
  ⟨h.inv, h.keeps, fun l hl => .inl (h.links l hl)⟩

section Shrinks
variable {may : Reservation → Prop}

abbrev Shrinking {α : Type} (may : Reservation → Prop) (s₀ : Node) (m : M α) : Prop :=
  Triple (Shrinks may s₀) m (fun _ => Shrinks may s₀) fun _ => Shrinks may s₀

theorem saveFewer_spec {own : Reservation → Prop} [DecidablePred own] {s : Node} (h : Shrinks may s₀ s)
    (hmay : ∀ r, own r → may r) : From s (saveReservations w (s.reservations.filter fun r => ¬own r))
      (fun _ => Shrinks may s₀) fun _ => Shrinks may s₀ := by
  refine .check_bind (fun s' hs' => hs' ▸ h) (.modify fun s' hs' => ?_)
  subst hs'
  obtain ⟨hinv, hmem⟩ := h.inv.saved (h.inv.file.sublist filter_sublist)
  refine ⟨hinv, fun r hr => ?_, h.links⟩
  by_cases hown : own r
  · exact .inr (hmay r hown)
  · exact (h.keeps r hr).imp_left fun hin => (hmem r).mpr (mem_filter.mpr ⟨hin, decide_eq_true hown⟩)

section
variable {name : String} {rg : Range}

theorem releaseNameLocked_spec (hmay : ∀ r : Reservation, r.name = name → rg.Has r.table → may r) :
    Shrinking may s₀ (releaseNameLocked w name rg) := by
  refine .bind loadReservations_spec fun res => .named fun s hs => ?_
  obtain ⟨hs, rfl⟩ := hs
  split_ifs with hlen
  · exact .pure fun s' hs' => hs' ▸ hs
  exact saveFewer_spec hs fun r hown => hmay r hown.1 hown.2

theorem linkDel_spec : Shrinking may s₀ (linkDel w name) := by
  refine .check_bind (fun s hs => hs) (.modify fun s hs => ?_)
  have hsub : (s.vrfs.filter fun l => l.name ≠ name).Sublist s.vrfs := filter_sublist
  have hsame : reservations { s with vrfs := s.vrfs.filter fun l => l.name ≠ name } = s.reservations := by
    rcases hfile : s.file with _ | res
    · simp only [reservations, hfile, hs.inv.missing hfile, filter_nil]
    · simp only [reservations, hfile, getD_some]
  refine ⟨⟨hs.inv.links.sublist hsub, ?_, fun hnone => ?_⟩, ?_, fun l hl => hs.links l (hsub.subset hl)⟩
  · rw [hsame]
    exact hs.inv.file.fewer fun l hl => hsub.subset hl
  · exact eq_nil_of_subset_nil (hs.inv.missing hnone ▸ hsub.subset)
  · rw [hsame]
    exact hs.keeps

theorem deleteInRange_spec {vpc : String}
    (hmay : ∀ r : Reservation, r.name = generateInterfaceNameVRF vpc → rg.Has r.table → may r) :
    Shrinking may s₀ (deleteInRange w vpc rg) := by
  refine .check_bind (fun s hs => hs) (.check_bind (fun s hs => hs) (.get_bind fun s hs => ?_))
  have hstart : ∀ s', s' = s → Shrinks may s₀ s' := fun s' hs' => hs' ▸ hs
  rcases hv : s.vrf? (generateInterfaceNameVRF vpc) with _ | l
  · exact .given (releaseNameLocked_spec hmay) hstart
  · refine .check_bind hstart (.check_bind hstart (.bind ?_ fun _ => releaseNameLocked_spec hmay))
    exact .given linkDel_spec hstart

theorem deleteIfUnused_spec : Shrinking may s₀ (deleteIfUnused w name) := by
  refine .check_bind (fun s hs => hs) (.check_bind (fun s hs => hs) (.get_bind fun s hs => ?_))
  have hstart : ∀ s', s' = s → Shrinks may s₀ s' := fun s' hs' => hs' ▸ hs
  rcases hv : s.vrf? name with _ | l
  · rcases ho : s.other? name with _ | l
    · exact .pure hstart
    · exact .throw hstart
  by_cases hslaves : enslavedTo s.others l.index ≠ []
  · simp only [if_pos hslaves]
    exact .throw hstart
  · simp only [if_neg hslaves]
    refine .check_bind hstart (.bind ?_ fun _ => .pure fun _ h => h)
    exact .given linkDel_spec hstart

theorem releaseLocked_spec {table : Nat} (hmay : ∀ r : Reservation, r.name = name → r.table = table → may r) :
    Shrinking may s₀ (releaseLocked w name table) := by
  refine .bind loadReservations_spec fun res => .named fun s hs => ?_
  obtain ⟨hs, rfl⟩ := hs
  rcases hrel : releaseTable s.reservations name table with ⟨kept, _ | _⟩
  · exact .pure fun s' hs' => hs' ▸ hs
  obtain rfl : s.reservations.filter (fun r => ¬(r.name = name ∧ r.table = table)) = kept := congrArg Prod.fst hrel
  exact saveFewer_spec hs fun r hown => hmay r hown.1 hown.2

end

end Shrinks

end Galactic.Vrf
