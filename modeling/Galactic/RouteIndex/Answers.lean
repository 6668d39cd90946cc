import Galactic.Lib.FallibleLoop
import Galactic.RouteIndex.Interning

/-!
# What the index answers

A search is measured against the session itself: `announced` is the latest announcement of each prefix that the session
has made and not withdrawn, however the index stores it. While the table fits into `MaxRoutes`, the index follows it.
-/

namespace Galactic.RouteIndex

open Net List Index AList Option

/-! ### The session's table -/

abbrev Table := AList fun _ : Prefix => Attrs

namespace Update

variable (u : Update)

def attrs : Attrs := u.pathAttributes.foldl Attrs.add {}

def reachOf : PathAttribute → List NLRI
  | .mpReachNLRI _ value => value
  | _ => []

def unreachOf : PathAttribute → List NLRI
  | .mpUnreachNLRI value => value
  | _ => []

def reach : List Prefix := (u.pathAttributes.flatMap reachOf ++ u.nlri).filterMap prefixOf

def unreach : List Prefix := (u.withdrawnRoutes ++ u.pathAttributes.flatMap unreachOf).filterMap prefixOf

end Update

namespace Table

def withdrawAll (t : Table) (ps : List Prefix) : Table := ps.foldl (fun t p => t.erase p) t

def announceAll (t : Table) (ps : List Prefix) (a : Attrs) : Table := ps.foldl (fun t p => t.insert p a) t

/-- A session begins with an empty table, and the UPDATEs from the Loc-RIB change it. -/
def step (t : Table) : Event → Table
  | .up => ∅
  | .message _ (.routeMonitoring .no true u) => (t.withdrawAll u.unreach).announceAll u.reach u.attrs
  | _ => t

end Table

/-- The latest announcement of each prefix since the session began, unless it has been withdrawn. -/
def announced (evs : List Event) : Table := evs.foldl Table.step ∅

/-- The answer is exact: it counts the family's prefixes that match, and lists the first of them in order. -/
def Exact (t : Table) (m : Attrs → Bool) (f : Family) (limit : Int) (res : Result) : Prop :=
  ∃ l : List Prefix, (l.Pairwise fun p q => prefixLess p q = true) ∧
    (∀ p, p ∈ l ↔ famOf p = f ∧ ∃ a, t.lookup p = some a ∧ m a = true) ∧
    res.matched = l.length ∧ res.routes.map (·.cidr) = (l.take limit.toNat).map Prefix.string

/-! ### The order of prefixes -/

def rank (p : Prefix) : (ℕ ×ₗ ℕ ×ₗ String) ×ₗ ℤ := toLex (p.addr.rank, bitsOf p)

theorem prefixLess_iff (p q : Prefix) : prefixLess p q ↔ rank p < rank q := by
  unfold prefixLess rank
  rw [Addr.compare_eq, Prod.Lex.toLex_lt_toLex]
  dsimp only
  rcases lt_trichotomy p.addr.rank q.addr.rank with haddr | haddr | haddr
  · simp [compare_lt_iff_lt.mpr haddr, haddr]
  · simp [haddr]
  · simp [compare_gt_iff_gt.mpr haddr, haddr.ne', haddr.le]

theorem prefixLess_eq_false (p q : Prefix) : prefixLess p q = false ↔ rank q ≤ rank p := by
  rw [← Bool.not_eq_true, prefixLess_iff, not_lt]

theorem rank_injective : Function.Injective rank := by
  intro p q h
  have haddr : p.addr = q.addr := Addr.rank_injective (congrArg (fun r => (ofLex r).1) h)
  have hbits : bitsOf p = bitsOf q := congrArg (fun r => (ofLex r).2) h
  have hbits' : p.bits? = q.bits? := by
    unfold bitsOf at hbits
    cases hp : p.bits? <;> cases hq : q.bits? <;> (simp [hp, hq] at hbits ⊢; try omega)
  cases p
  cases q
  simp_all

theorem order_entryLess : BinaryHeap.Order entryLess where
  asymm := fun h => (prefixLess_eq_false _ _).mpr ((prefixLess_iff _ _).mp h).le
  trans := fun h₁ h₂ =>
    (prefixLess_eq_false _ _).mpr (le_trans ((prefixLess_eq_false _ _).mp h₁) ((prefixLess_eq_false _ _).mp h₂))

/-! ### The index follows the table -/

structure Tracks (maxRoutes : Int) (ix : Index) (t : Table) : Prop where
  sound : ix.Sound none
  keys : ∀ p, ix.keyAt p = (t.lookup p).map Attrs.computeKey
  plain : ∀ p a, t.lookup p = some a → a.Plain
  maxRoutes : ix.maxRoutes = maxRoutes

variable {maxRoutes : Int} {ix : Index} {t : Table}

theorem Tracks.mem_iff (h : Tracks maxRoutes ix t) (p : Prefix) : p ∈ ix.routes (famOf p) ↔ p ∈ t := by
  have := congrArg isSome (h.keys p)
  rw [keyAt, isSome_map, isSome_map] at this
  rw [← lookup_isSome, ← lookup_isSome, this]

variable {p : Prefix}

theorem Tracks.mem_routes (h : Tracks maxRoutes ix t) {f : Family} (hp : p ∈ ix.routes f) : famOf p = f := by
  obtain ⟨o, ho⟩ := isSome_iff_exists.mp (AList.lookup_isSome.mpr hp)
  exact (h.sound.held f p o ho).1

theorem Tracks.held (h : Tracks maxRoutes ix t) : ix.held = t.entries.length := by
  have hperm : (ix.v4.keys ++ ix.v6.keys).Perm t.keys := by
    refine (perm_ext_iff_of_nodup ?_ t.keys_nodup).mpr fun p => ?_
    · refine nodup_append.mpr ⟨ix.v4.keys_nodup, ix.v6.keys_nodup, ?_⟩
      rintro p hp q hq rfl
      have h4 : famOf p = .v4 := h.mem_routes (f := .v4) hp
      have h6 : famOf p = .v6 := h.mem_routes (f := .v6) hq
      exact nomatch h4.symm.trans h6
    rw [mem_append]
    constructor
    · rintro (hp | hp)
      · exact (h.mem_iff p).mp (h.mem_routes (f := .v4) hp ▸ hp)
      · exact (h.mem_iff p).mp (h.mem_routes (f := .v6) hp ▸ hp)
    intro hp
    have := (h.mem_iff p).mpr hp
    cases hf : famOf p with
    | v4 => rw [hf] at this; exact Or.inl this
    | v6 => rw [hf] at this; exact Or.inr this
  have hlen := hperm.length_eq
  simpa [AList.keys, List.keys, Index.held] using hlen

/-- The two hold the same routes and objects, up to the verdicts of searches. -/
structure SameStore (ix ix' : Index) : Prop where
  routes : ∀ f, ix'.routes f = ix.routes f
  attrs : ix'.attrs = ix.attrs
  next : ix'.next = ix.next
  maxRoutes : ix'.maxRoutes = ix.maxRoutes
  key : ∀ o, (ix'.heap o).key = (ix.heap o).key
  object : ∀ o, (ix'.heap o).attrs = (ix.heap o).attrs
  refs : ∀ o, (ix'.heap o).refs = (ix.heap o).refs

variable {ix' : Index}

theorem SameStore.keyAt (h : SameStore ix ix') (p : Prefix) : ix'.keyAt p = ix.keyAt p := by
  unfold Index.keyAt
  rw [h.routes]
  exact congrArg (Option.map · _) (funext h.key)

theorem Tracks.of_same (h : Tracks maxRoutes ix t) (hs : SameStore ix ix') : Tracks maxRoutes ix' t where
  sound := {
    key := fun o ho => by
      rw [hs.key, hs.object]
      exact h.sound.key o (hs.next ▸ ho)
    interned := fun k o ho => by
      rw [hs.next, hs.key]
      exact h.sound.interned k o (hs.attrs ▸ ho)
    held := fun f p o ho => by
      rw [hs.key, hs.attrs]
      exact h.sound.held f p o (hs.routes f ▸ ho)
    refs := fun o ho => by
      rw [hs.refs, users, hs.routes, hs.routes]
      exact h.sound.refs o (hs.next ▸ ho) }
  keys := fun p => (hs.keyAt p).trans (h.keys p)
  plain := h.plain
  maxRoutes := hs.maxRoutes.trans h.maxRoutes

theorem sameStore_touch (ix : Index) (now : Int) : SameStore ix (ix.touch now) :=
  ⟨fun f => by cases f <;> rfl, rfl, rfl, rfl, fun _ => rfl, fun _ => rfl, fun _ => rfl⟩

theorem sameStore_endSession (ix : Index) : SameStore ix ix.endSession :=
  ⟨fun f => by cases f <;> rfl, rfl, rfl, rfl, fun _ => rfl, fun _ => rfl, fun _ => rfl⟩

theorem sameStore_endOfRIB (ix : Index) (ipv4 : Bool) (now : Int) : SameStore ix (ix.endOfRIB ipv4 now) := by
  unfold endOfRIB sync
  split_ifs <;> exact ⟨fun f => by cases f <;> rfl, rfl, rfl, rfl, fun _ => rfl, fun _ => rfl, fun _ => rfl⟩

theorem sameStore_mark (ix : Index) (m : Attrs → Bool) : SameStore ix (ix.mark m) := by
  have hheap : ∀ o, ((ix.mark m).heap o).key = (ix.heap o).key ∧ ((ix.mark m).heap o).attrs = (ix.heap o).attrs ∧
      ((ix.mark m).heap o).refs = (ix.heap o).refs := by
    intro o
    unfold mark
    dsimp only
    split_ifs <;> exact ⟨rfl, rfl, rfl⟩
  exact ⟨fun f => by cases f <;> rfl, rfl, rfl, rfl, fun o => (hheap o).1, fun o => (hheap o).2.1,
    fun o => (hheap o).2.2⟩

theorem SameStore.refl (ix : Index) : SameStore ix ix :=
  ⟨fun _ => rfl, rfl, rfl, rfl, fun _ => rfl, fun _ => rfl, fun _ => rfl⟩

theorem sameStore_search (posix : String → Option (String → Bool)) (ix : Index) (q : Query) (limit : Int)
    (order : List Entry) : SameStore ix (ix.search posix q limit order).2 := by
  unfold search
  split
  · exact .refl ix
  · split_ifs
    · exact .refl ix
    · exact sameStore_mark ix _

theorem tracks_new (maxRoutes : Int) : Tracks maxRoutes { maxRoutes } ∅ where
  sound := sound_new maxRoutes
  keys := fun p => by cases h : famOf p <;> simp [keyAt, routes, h]
  plain := fun p a h => absurd h (by simp)
  maxRoutes := rfl

theorem Tracks.beginSession (h : Tracks maxRoutes ix t) : Tracks maxRoutes ix.beginSession ∅ where
  sound := {
    key := h.sound.key
    interned := fun k o ho => absurd ho (by simp [Index.beginSession, Index.reset])
    held := fun f p o ho => absurd ho (by cases f <;> simp [Index.beginSession, Index.reset, Index.routes])
    refs := fun o ho => by
      have hrefs := h.sound.refs o ho
      have hnone : ix.beginSession.users o = 0 := rfl
      rw [hnone]
      show _ ≤ (ix.heap o).refs
      rw [if_neg (by simp)] at hrefs ⊢
      omega }
  keys := fun p => by cases hf : famOf p <;> simp [Index.keyAt, Index.beginSession, Index.reset, Index.routes, hf]
  plain := fun p a h => absurd h (by simp)
  maxRoutes := h.maxRoutes

/-! ### Announcements and withdrawals -/

theorem maxRoutes_setRoutes (ix : Index) (f : Family) (r : Routes) : (ix.setRoutes f r).maxRoutes = ix.maxRoutes := by
  cases f <;> rfl

theorem maxRoutes_release (ix : Index) (o : Nat) : (ix.release o).maxRoutes = ix.maxRoutes := by
  unfold release
  dsimp only
  split_ifs <;> rfl

theorem maxRoutes_intern (ix : Index) (a : Attrs) : (ix.intern a).1.maxRoutes = ix.maxRoutes := by
  unfold intern
  split <;> rfl

theorem Tracks.withdraw (h : Tracks maxRoutes ix t) (p : Prefix) (now : Int) :
    Tracks maxRoutes (ix.withdraw p now) (t.erase p) := by
  have hplain : ∀ q a, (t.erase p).lookup q = some a → a.Plain := by
    simp only [Entries.lookup_erased]
    exact Entries.forall_update nofun fun q _ => h.plain q
  have hkeys : ∀ {ix' : Index}, (∀ q, ix'.keyAt q = if q = p then none else ix.keyAt q) →
      ∀ q, ix'.keyAt q = ((t.erase p).lookup q).map Attrs.computeKey := by
    intro ix' hix' q
    rw [hix']
    split_ifs with hqp
    · rw [hqp, lookup_erase]
      rfl
    · rw [lookup_erase_ne hqp]
      exact h.keys q
  unfold Index.withdraw
  split
  · next hnone =>
    refine Tracks.of_same ⟨h.sound, hkeys fun q => ?_, hplain, h.maxRoutes⟩ (sameStore_touch _ _)
    split_ifs with hqp
    · rw [hqp, keyAt, hnone]
      rfl
    · rfl
  next old hold =>
  refine Tracks.of_same ⟨(h.sound.erase hold).release ?_, hkeys fun q => ?_, hplain, ?_⟩ (sameStore_touch _ _)
  · rw [attrs_setRoutes, heap_setRoutes]
    exact (h.sound.held _ p old hold).2
  · rw [keyAt_release, keyAt_erase]
  · rw [maxRoutes_release, maxRoutes_setRoutes]
    exact h.maxRoutes

variable {a : Attrs}

theorem Tracks.update (h : Tracks maxRoutes ix t) (ha : a.Plain) (now : Int)
    (hroom : maxRoutes ≤ 0 ∨ ((t.insert p a).entries.length : Int) ≤ maxRoutes) :
    Tracks maxRoutes (ix.update p a now) (t.insert p a) := by
  have hkept : ¬((ix.routes (famOf p)).lookup p = none ∧ 0 < ix.maxRoutes ∧ ix.maxRoutes ≤ ix.held) := by
    rintro ⟨hnone, hpos, hfull⟩
    have hp : p ∉ t := fun hp => AList.lookup_eq_none.mp hnone ((h.mem_iff p).mpr hp)
    have hlen : (t.insert p a).entries.length = t.entries.length + 1 := by
      rw [entries_insert, kerase_of_notMem_keys hp, length_cons]
    rw [h.maxRoutes] at hpos hfull
    rw [h.held] at hfull
    omega
  obtain ⟨hsound, hfound, hroutes, hkey⟩ := h.sound.intern ha
  have hmax := maxRoutes_intern ix a
  unfold Index.update
  dsimp only
  rw [if_neg hkept]
  generalize (ix.intern a).1 = ix₁ at hsound hfound hroutes hkey hmax ⊢
  generalize (ix.intern a).2 = o at hfound ⊢
  have hpoint := hsound.point hfound p
  rw [hroutes] at hpoint
  have hkeys : ∀ q, (ix₁.point p o).keyAt q = ((t.insert p a).lookup q).map Attrs.computeKey := by
    intro q
    rw [keyAt_point]
    split_ifs with hqp
    · rw [hqp, lookup_insert, (hsound.interned _ _ hfound).2]
      rfl
    rw [lookup_insert_ne hqp, ← h.keys q, keyAt, keyAt, hroutes]
    cases hq : (ix.routes (famOf q)).lookup q with
    | none => rfl
    | some o' => exact congrArg some (hkey o' (h.sound.lt_next hq))
  have hplain : ∀ q b, (t.insert p a).lookup q = some b → b.Plain := by
    simp only [Entries.lookup_inserted]
    exact Entries.forall_update (fun _ hb => some.inj hb ▸ ha) fun q _ => h.plain q
  have hmax' : (ix₁.point p o).maxRoutes = maxRoutes := by
    rw [point, maxRoutes_setRoutes]
    exact hmax.trans h.maxRoutes
  refine Tracks.of_same ?_ (sameStore_touch _ _)
  cases hold : (ix.routes (famOf p)).lookup p with
  | none =>
    rw [hold] at hpoint
    exact ⟨hpoint, hkeys, hplain, hmax'⟩
  | some old =>
    rw [hold] at hpoint
    -- the old object is still interned: only its route has moved
    have hstill : (ix₁.point p o).attrs.lookup ((ix₁.point p o).heap old).key = some old := by
      rw [point_heap, point, attrs_setRoutes]
      exact (hsound.held _ p old ((hroutes _).symm ▸ hold)).2
    exact ⟨hpoint.release hstill, fun q => (keyAt_release _ _ q).trans (hkeys q), hplain,
      (maxRoutes_release _ _).trans hmax'⟩

/-! ### UPDATE messages -/

theorem Attrs.Plain.add (h : a.Plain) (pa : PathAttribute) : (a.add pa).Plain := by
  cases pa with
  | origin v => exact ⟨h.asPath, bar_notMem_originName v⟩
  | asPath v => exact ⟨bar_notMem_asPathOf v, h.origin⟩
  | nextHop | multiExitDisc | localPref | communities | largeCommunities | mpReachNLRI | mpUnreachNLRI | other =>
    exact ⟨h.asPath, h.origin⟩

theorem Update.attrs_plain (u : Update) : u.attrs.Plain :=
  foldlRecOn u.pathAttributes Attrs.add ⟨by decide, by decide⟩ fun _ h pa _ => h.add pa

theorem withdrawAll_eq (ix : Index) (ns : List NLRI) (now : Int) :
    ix.withdrawAll ns now = (ns.filterMap prefixOf).foldl (fun ix p => ix.withdraw p now) ix := by
  rw [foldl_filterMap]
  exact congrArg (foldl · ix ns) (funext₂ fun ix n => by cases prefixOf n <;> rfl)

theorem updateAll_eq (ix : Index) (ns : List NLRI) (a : Attrs) (now : Int) :
    ix.updateAll ns a now = (ns.filterMap prefixOf).foldl (fun ix p => ix.update p a now) ix := by
  rw [foldl_filterMap]
  exact congrArg (foldl · ix ns) (funext₂ fun ix n => by cases prefixOf n <;> rfl)

theorem foldl_applyAttribute (now : Int) (pas : List PathAttribute) (ix : Index) (a : Attrs) (ns : List NLRI) :
    pas.foldl (applyAttribute now) (ix, a, ns) =
      (ix.withdrawAll (pas.flatMap Update.unreachOf) now, pas.foldl Attrs.add a, ns ++ pas.flatMap Update.reachOf) := by
  induction pas generalizing ix a ns with
  | nil => simp [withdrawAll]
  | cons pa pas ih =>
    rw [foldl_cons, foldl_cons, flatMap_cons, flatMap_cons]
    cases pa with
    | mpReachNLRI nh value =>
      rw [show applyAttribute now (ix, a, ns) (.mpReachNLRI nh value) = (ix, a.add (.mpReachNLRI nh value), ns ++ value)
        from rfl, ih, append_assoc]
      rfl
    | mpUnreachNLRI value =>
      rw [show applyAttribute now (ix, a, ns) (.mpUnreachNLRI value) = (ix.withdrawAll value now, a, ns) from rfl, ih,
        show Update.unreachOf (.mpUnreachNLRI value) = value from rfl, withdrawAll, withdrawAll,
        withdrawAll, foldl_append]
      rfl
    | origin | asPath | nextHop | multiExitDisc | localPref | communities | largeCommunities | other => exact ih _ _ _

theorem applyUpdate_eq (ix : Index) (u : Update) (now : Int) : ix.applyUpdate u now =
      u.reach.foldl (fun ix p => ix.update p u.attrs now) (u.unreach.foldl (fun ix p => ix.withdraw p now) ix) := by
  rw [applyUpdate, foldl_applyAttribute]
  dsimp only
  rw [nil_append, updateAll_eq, withdrawAll_eq, withdrawAll_eq, ← foldl_append, ← filterMap_append]
  rfl

theorem Tracks.withdrawAll (ps : List Prefix) (now : Int) (h : Tracks maxRoutes ix t) :
    Tracks maxRoutes (ps.foldl (fun ix p => ix.withdraw p now) ix) (t.withdrawAll ps) :=
  foldl_rel h fun p _ _ _ h => h.withdraw p now

theorem length_announceAll (ps : List Prefix) (a : Attrs) (t : Table) :
    t.entries.length ≤ (t.announceAll ps a).entries.length := by
  induction ps generalizing t with
  | nil => exact le_rfl
  | cons p ps ih =>
    refine le_trans ?_ (ih (t.insert p a))
    have hlen := (Entries.perm_erase t p).length_eq
    show t.entries.length ≤ (t.erase p).entries.length + 1
    cases hp : t.lookup p <;> simp [hp] at hlen <;> omega

theorem Tracks.updateAll (ps : List Prefix) (ha : a.Plain) (now : Int) (h : Tracks maxRoutes ix t)
    (hroom : maxRoutes ≤ 0 ∨ ((t.announceAll ps a).entries.length : Int) ≤ maxRoutes) :
    Tracks maxRoutes (ps.foldl (fun ix p => ix.update p a now) ix) (t.announceAll ps a) := by
  induction ps generalizing ix t with
  | nil => exact h
  | cons p ps ih =>
    refine ih (h.update ha now (hroom.imp_right fun hle => le_trans ?_ hle)) hroom
    exact_mod_cast length_announceAll ps a (t.insert p a)

/-! ### Runs -/

/-- The table fits into `MaxRoutes`, or there is no bound. -/
def Fits (maxRoutes : Int) (t : Table) : Prop := maxRoutes ≤ 0 ∨ (t.entries.length : Int) ≤ maxRoutes

instance (maxRoutes : Int) (t : Table) : Decidable (Fits maxRoutes t) := inferInstanceAs (Decidable (_ ∨ _))

variable {posix : String → Option (String → Bool)}

theorem Tracks.step (h : Tracks maxRoutes ix t) (ev : Event) (hfits : Fits maxRoutes (t.step ev)) :
    Tracks maxRoutes (ix.step posix ev) (t.step ev) := by
  cases ev with
  | up => exact h.beginSession
  | down => exact h.of_same (sameStore_endSession ix)
  | settled now => exact (h.of_same (sameStore_endOfRIB _ _ _)).of_same (sameStore_endOfRIB _ _ _)
  | search q limit => exact h.of_same (sameStore_search posix ix q limit _)
  | message now m =>
    cases m with
    | other => exact h
    | routeMonitoring eor locRib u =>
      cases eor with
      | ipv4 => exact h.of_same (sameStore_endOfRIB ix true now)
      | ipv6 => exact h.of_same (sameStore_endOfRIB ix false now)
      | other => exact h
      | no =>
        cases locRib with
        | false => exact h
        | true =>
          show Tracks maxRoutes (ix.applyUpdate u now) _
          rw [applyUpdate_eq]
          exact (h.withdrawAll u.unreach now).updateAll u.reach u.attrs_plain now hfits

theorem run_tracks (evs : List Event) (hfits : ∀ evs', evs' <+: evs → Fits maxRoutes (announced evs')) :
    Tracks maxRoutes (run posix maxRoutes evs) (announced evs) := by
  induction evs using List.reverseRecOn with
  | nil => exact tracks_new maxRoutes
  | append_singleton evs ev ih =>
    rw [run, announced, foldl_append, foldl_append]
    refine Tracks.step (ih fun evs' h => hfits evs' (h.trans (prefix_append _ _))) ev ?_
    have := hfits (evs ++ [ev]) (prefix_refl _)
    rwa [announced, foldl_append] at this

/-! ### Searches -/

theorem foldl_visit (ix : Index) (limit : Int) (order : List Entry) (acc : Array Entry × Nat) :
    order.foldl (ix.visit limit) acc =
      (if limit ≤ 0 then acc.1 else (order.filter ix.hit).foldl (BinaryHeap.offer entryLess limit.toNat) acc.1,
        acc.2 + (order.filter ix.hit).length) := by
  induction order generalizing acc with
  | nil => simp
  | cons e order ih =>
    rw [foldl_cons, ih, visit]
    cases hhit : ix.hit e with
    | false => simp [hhit]
    | true =>
      simp only [hhit, filter_cons, if_true, Bool.true_eq_false, if_false]
      split_ifs
      · simp; omega
      · simp; omega

section
variable (h : Tracks maxRoutes ix t) {q : Query} {m : Attrs → Bool} (hm : compile posix q = .ok m) {f : Family}

include h hm

theorem Tracks.hit_mark {e : Entry} (he : e ∈ (ix.routes f).entries) :
    famOf e.1 = f ∧ ∃ a, t.lookup e.1 = some a ∧ (ix.mark m).hit e = m a := by
  have hlook : (ix.routes f).lookup e.1 = some e.2 := AList.mem_lookup_iff.mpr he
  obtain ⟨hf, hint⟩ := h.sound.held f e.1 e.2 hlook
  have hlt := h.sound.lt_next hlook
  have hkey := h.keys e.1
  rw [keyAt, hf, hlook] at hkey
  obtain ⟨a, ha, hak⟩ := map_eq_some_iff.mp hkey.symm
  refine ⟨hf, a, ha, ?_⟩
  have hmem : e.2 ∈ ix.attrs.entries.map (·.2) := mem_map.mpr ⟨⟨_, e.2⟩, AList.mem_lookup_iff.mp hint, rfl⟩
  have hhit : (ix.mark m).hit e = m (ix.heap e.2).attrs := by
    unfold hit mark
    simp [hmem]
  rw [hhit]
  refine compile_alike hm (Attrs.alike_of_computeKey (h.sound.key _ hlt).2 (h.plain _ _ ha) ?_)
  rw [← (h.sound.key _ hlt).1, hak]

theorem Tracks.exact (limit : Int) {order : List Entry} (horder : order.Perm (ix.routes f).entries) :
    Exact t m f limit ((ix.mark m).answer limit order) := by
  have hmem : ∀ e ∈ order, e ∈ (ix.routes f).entries := fun e he => horder.subset he
  have hnodup : (order.map (·.1)).Nodup := (horder.map _).nodup_iff.mpr (ix.routes f).nodupKeys
  -- any sorted list of the routes that match is the list of the prefixes that do
  have hlist : ∀ l : List Entry, l.Perm (order.filter (ix.mark m).hit) → (l.Pairwise fun a b => entryLess b a = false) →
      ((l.map (·.1)).Pairwise fun p p' => prefixLess p p') ∧
      ∀ p, p ∈ l.map (·.1) ↔ famOf p = f ∧ ∃ a, t.lookup p = some a ∧ m a := by
    intro l hl hsorted
    constructor
    · have hl' : (l.map (·.1)).Nodup := (hl.map _).nodup_iff.mpr (hnodup.sublist (filter_sublist.map _))
      have hle : (l.map (·.1)).Pairwise fun p p' => prefixLess p' p = false := pairwise_map.mpr hsorted
      refine hle.imp₂ (fun p p' hle hne => ?_) hl'
      rw [prefixLess_iff]
      exact lt_of_le_of_ne ((prefixLess_eq_false _ _).mp hle) fun heq => hne (rank_injective heq)
    intro p
    constructor
    · intro hp
      obtain ⟨e, he, rfl⟩ := mem_map.mp hp
      obtain ⟨heo, hhit⟩ := mem_filter.mp (hl.subset he)
      obtain ⟨hf, a, ha, heq⟩ := h.hit_mark hm (hmem e heo)
      exact ⟨hf, a, ha, heq ▸ hhit⟩
    rintro ⟨rfl, a, ha, hma⟩
    have hp : p ∈ ix.routes (famOf p) := (h.mem_iff p).mpr (AList.lookup_isSome.mp (by rw [ha]; rfl))
    obtain ⟨o, ho⟩ := isSome_iff_exists.mp (AList.lookup_isSome.mpr hp)
    have he : (⟨p, o⟩ : Entry) ∈ (ix.routes (famOf p)).entries := AList.mem_lookup_iff.mp ho
    obtain ⟨-, a', ha', heq⟩ := h.hit_mark hm he
    obtain rfl := mem_unique ha ha'
    exact mem_map.mpr ⟨⟨p, o⟩, hl.symm.subset (mem_filter.mpr ⟨horder.symm.subset he, heq.trans hma⟩), rfl⟩
  unfold answer
  rw [foldl_visit]
  dsimp only
  by_cases hlimit : limit ≤ 0
  · obtain ⟨l, hl, hsorted⟩ := order_entryLess.exists_sorted (order.filter (ix.mark m).hit)
    refine ⟨l.map (·.1), (hlist l hl hsorted).1, (hlist l hl hsorted).2, ?_, ?_⟩
    · simp [hl.length_eq]
    · rw [if_pos hlimit, Int.toNat_of_nonpos hlimit]
      rfl
  obtain ⟨l, hl, hsorted, hdrain⟩ := BinaryHeap.drain_offer order_entryLess (show 0 < limit.toNat by omega)
    (order.filter (ix.mark m).hit)
  refine ⟨l.map (·.1), (hlist l hl hsorted).1, (hlist l hl hsorted).2, ?_, ?_⟩
  · simp [hl.length_eq]
  · rw [if_neg hlimit, hdrain]
    simp [← map_take]

end

/-- **Searches.** In every run whose table always fits into `MaxRoutes`, a search that succeeds answers from the whole
table, whatever order the map of routes is iterated in. -/
theorem search_exact (posix : String → Option (String → Bool)) (maxRoutes : Int) (evs : List Event)
    (hfits : ∀ evs', evs' <+: evs → Fits maxRoutes (announced evs')) (q : Query) (limit : Int) (order : List Entry)
    (horder : order.Perm ((run posix maxRoutes evs).routes q.family).entries) (res : Result)
    (h : ((run posix maxRoutes evs).search posix q limit order).1 = .ok res) :
    ∃ m, compile posix q = .ok m ∧ Exact (announced evs) m q.family limit res := by
  unfold search at h
  cases hm : compile posix q with
  | error e =>
    rw [hm] at h
    cases h
  | ok m =>
    rw [hm] at h
    dsimp only at h
    split_ifs at h
    cases h
    exact ⟨m, rfl, (run_tracks evs hfits).exact hm limit horder⟩

def twelve : Prefix := .ofAddr (.v4 ⟨[12, 0, 0, 0], rfl⟩) 8
def thirteen : Prefix := .ofAddr (.v4 ⟨[13, 0, 0, 0], rfl⟩) 8

/-- A session that announces two prefixes with the community no-export and ends both tables. -/
def twoRoutes : List Event :=
  [.up, .message 1 (.routeMonitoring .no true ⟨[], [.communities [0xFFFFFF01]], [.ip thirteen, .ip twelve]⟩),
    .message 2 (.routeMonitoring .ipv4 true ⟨[], [], []⟩), .message 3 (.routeMonitoring .ipv6 true ⟨[], [], []⟩)]

def noExport : Query := ⟨.community, .ipv4, "no-export"⟩

theorem search_exact_two :
    ∃ res, ((run (fun _ => none) 2 twoRoutes).search (fun _ => none) noExport 1
        ((run (fun _ => none) 2 twoRoutes).routes .v4).entries).1 = .ok res ∧
      (res.matched = 2 ∧ res.routes.map (·.cidr) = ["12.0.0.0/8"]) ∧
      ∃ m, compile (fun _ => none) noExport = .ok m ∧ Exact (announced twoRoutes) m .v4 1 res := by
  have hfits : ∀ evs' ∈ twoRoutes.inits, Fits 2 (announced evs') := by decide +kernel
  obtain ⟨res, hres, hans⟩ := FallibleLoop.exists_ok
    (p := fun res => res.matched = 2 ∧ res.routes.map (·.cidr) = ["12.0.0.0/8"])
    (x := ((run (fun _ => none) 2 twoRoutes).search (fun _ => none) noExport 1
      ((run (fun _ => none) 2 twoRoutes).routes .v4).entries).1) (by decide +kernel)
  refine ⟨res, hres, hans, ?_⟩
  exact search_exact (fun _ => none) 2 twoRoutes (fun evs' h => hfits evs' (mem_inits _ _ |>.mpr h)) noExport 1 _
    (List.Perm.refl _) res hres

/-- With `MaxRoutes` one, the second prefix is dropped: the search counts one match, the session announced two. -/
theorem dropped_unreported : ∃ res m, ((run (fun _ => none) 1 twoRoutes).search (fun _ => none) noExport 10
        ((run (fun _ => none) 1 twoRoutes).routes .v4).entries).1 = .ok res ∧
      compile (fun _ => none) noExport = .ok m ∧ ¬ Exact (announced twoRoutes) m .v4 10 res := by
  obtain ⟨res, hres, hone⟩ := FallibleLoop.exists_ok (p := (·.matched = 1))
    (x := ((run (fun _ => none) 1 twoRoutes).search (fun _ => none) noExport 10
      ((run (fun _ => none) 1 twoRoutes).routes .v4).entries).1) (by decide +kernel)
  have hboth : (((announced twoRoutes).lookup twelve).map (·.community),
      ((announced twoRoutes).lookup thirteen).map (·.community)) = (some [0xFFFFFF01], some [0xFFFFFF01]) := by
    decide +kernel
  have hfam : famOf twelve = .v4 ∧ famOf thirteen = .v4 ∧ twelve ≠ thirteen := by decide +kernel
  have hvalue : communityValue "no-export" = .ok 0xFFFFFF01 := by decide +kernel
  have hm : compile (fun _ => none) noExport = .ok fun a => a.community.contains 0xFFFFFF01 := by
    simp only [compile, noExport, hvalue]
    rfl
  refine ⟨res, _, hres, hm, ?_⟩
  rintro ⟨l, -, hl, hmatched, -⟩
  have hin : ∀ p, famOf p = .v4 → ((announced twoRoutes).lookup p).map (·.community) = some [0xFFFFFF01] → p ∈ l := by
    intro p hp hcomm
    obtain ⟨a, ha, hca⟩ := Option.map_eq_some_iff.mp hcomm
    exact (hl p).mpr ⟨hp, a, ha, by dsimp only; rw [hca]; decide⟩
  obtain ⟨x, rfl⟩ := length_eq_one_iff.mp (hmatched.symm.trans hone)
  have htwelve := mem_singleton.mp (hin twelve hfam.1 (Prod.mk.inj hboth).1)
  have hthirteen := mem_singleton.mp (hin thirteen hfam.2.1 (Prod.mk.inj hboth).2)
  exact hfam.2.2 (htwelve.trans hthirteen.symm)

end Galactic.RouteIndex
