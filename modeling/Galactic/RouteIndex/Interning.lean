import Galactic.RouteIndex.Index

/-!
# Interned attributes

What the index keeps in every state: each route points to an interned object, and an object's count is at least the
number of routes that point to it, so that an object is dropped from `attrs` only when no route needs it. -/

namespace Galactic.RouteIndex

open Net List Function AList

/-! ### Tables of routes -/

def uses (t : Routes) (o : Nat) : Nat := t.entries.countP (·.2 = o)

theorem uses_erase (t : Routes) (p : Prefix) (o : Nat) :
    uses t o = (if t.lookup p = some o then 1 else 0) + uses (t.erase p) o := by
  unfold uses
  rw [(Entries.perm_erase t p).countP_eq, countP_append]
  cases t.lookup p <;> simp

theorem uses_insert (t : Routes) (p : Prefix) (o o' : Nat) :
    uses (t.insert p o) o' = (if o = o' then 1 else 0) + uses (t.erase p) o' := by
  unfold uses
  rw [entries_insert, countP_cons, add_comm]
  simp only [decide_eq_true_eq]
  rfl

variable {t : Routes} {o : Nat}

theorem uses_pos {p : Prefix} (h : t.lookup p = some o) : 0 < uses t o := by
  rw [uses_erase t p o, if_pos h]
  omega

theorem uses_eq_zero (h : ∀ p, t.lookup p ≠ some o) : uses t o = 0 := by
  refine countP_eq_zero.mpr fun e he => ?_
  rw [decide_eq_true_eq]
  rintro rfl
  exact h e.1 (AList.mem_lookup_iff.mpr he)

namespace Index

variable {ix : Index}

@[simp] theorem routes_setRoutes (ix : Index) (f f' : Family) (t : Routes) :
    (ix.setRoutes f t).routes f' = if f' = f then t else ix.routes f' := by
  cases f <;> cases f' <;> rfl

@[simp] theorem heap_setRoutes (ix : Index) (f : Family) (t : Routes) : (ix.setRoutes f t).heap = ix.heap :=
  by cases f <;> rfl
@[simp] theorem next_setRoutes (ix : Index) (f : Family) (t : Routes) : (ix.setRoutes f t).next = ix.next :=
  by cases f <;> rfl
@[simp] theorem attrs_setRoutes (ix : Index) (f : Family) (t : Routes) : (ix.setRoutes f t).attrs = ix.attrs :=
  by cases f <;> rfl

@[simp] theorem routes_addRefs (ix : Index) (o : Nat) (n : Int) (f : Family) :
    (ix.addRefs o n).routes f = ix.routes f := by
  cases f <;> rfl

theorem heap_addRefs (ix : Index) (o : Nat) (n : Int) (o' : Nat) :
    (ix.addRefs o n).heap o' = { ix.heap o' with refs := (ix.heap o').refs + if o = o' then n else 0 } := by
  by_cases ho : o' = o
  · subst ho
    simp [addRefs, setObject]
  · simp [addRefs, setObject, ho, Ne.symm ho]

def users (ix : Index) (o : Nat) : Nat := uses (ix.routes .v4) o + uses (ix.routes .v6) o

theorem users_setRoutes (ix : Index) (f : Family) (t : Routes) (o : Nat) :
    (ix.setRoutes f t).users o + uses (ix.routes f) o = ix.users o + uses t o := by
  cases f <;> simp [users] <;> omega

/-! ### The invariant -/

/-- Each route points to an interned object that counts it. The object `debt` counts one route more than point to it. -/
structure Sound (ix : Index) (debt : Option Nat) : Prop where
  key : ∀ o, o < ix.next → (ix.heap o).key = (ix.heap o).attrs.computeKey ∧ (ix.heap o).attrs.Plain
  interned : ∀ k o, ix.attrs.lookup k = some o → o < ix.next ∧ (ix.heap o).key = k
  held : ∀ f p o, (ix.routes f).lookup p = some o → famOf p = f ∧ ix.attrs.lookup (ix.heap o).key = some o
  refs : ∀ o, o < ix.next → (ix.users o : Int) + (if debt = some o then 1 else 0) ≤ (ix.heap o).refs

variable {debt : Option Nat}

variable {p : Prefix} {o : Nat}

theorem Sound.lt_next (h : ix.Sound debt) {f : Family} (hp : (ix.routes f).lookup p = some o) : o < ix.next :=
  (h.interned _ _ (h.held f p o hp).2).1

theorem Sound.users_next (h : ix.Sound debt) : ix.users ix.next = 0 := by
  have huses : ∀ f, uses (ix.routes f) ix.next = 0 := fun f =>
    uses_eq_zero fun p hp => Nat.lt_irrefl _ (h.lt_next hp)
  rw [users, huses, huses]

theorem sound_new (maxRoutes : Int) : Sound { maxRoutes } none where
  key := fun o ho => absurd ho (Nat.not_lt_zero o)
  interned := fun k o ho => absurd ho (by simp)
  held := fun f p o ho => absurd ho (by cases f <;> simp [routes])
  refs := fun o ho => absurd ho (Nat.not_lt_zero o)

def keyAt (ix : Index) (p : Prefix) : Option String := ((ix.routes (famOf p)).lookup p).map fun o => (ix.heap o).key

/-! ### Interning -/

theorem alloc_heap (ix : Index) (a : Attrs) (o : Nat) (h : o ≠ ix.next) : (ix.alloc a).heap o = ix.heap o :=
  update_of_ne h _ _

variable {a : Attrs}

@[simp] theorem alloc_heap_next (ix : Index) (a : Attrs) :
    (ix.alloc a).heap ix.next = { attrs := a, key := a.computeKey } := update_self _ _ _

theorem Sound.alloc (h : ix.Sound none) (ha : a.Plain) (hnew : ix.attrs.lookup a.computeKey = none) :
    (ix.alloc a).Sound none := by
  have hheap : ∀ o, o < ix.next → (ix.alloc a).heap o = ix.heap o := fun o ho => alloc_heap ix a o (by omega)
  have hroutes : ∀ f, (ix.alloc a).routes f = ix.routes f := fun f => by cases f <;> rfl
  constructor
  · intro o ho
    rcases Nat.lt_succ_iff_lt_or_eq.mp ho with ho | rfl
    · rw [hheap o ho]
      exact h.key o ho
    · rw [alloc_heap_next]
      exact ⟨rfl, ha⟩
  · intro k o ho
    change (ix.attrs.insert a.computeKey ix.next).lookup k = some o at ho
    by_cases hk : k = a.computeKey
    · subst hk
      rw [lookup_insert] at ho
      cases ho
      exact ⟨Nat.lt_succ_self _, by rw [alloc_heap_next]⟩
    · rw [lookup_insert_ne hk] at ho
      obtain ⟨hlt, hkey⟩ := h.interned k o ho
      exact ⟨Nat.lt_succ_of_lt hlt, by rw [hheap o hlt]; exact hkey⟩
  · intro f p o ho
    rw [hroutes] at ho
    obtain ⟨hf, hlook⟩ := h.held f p o ho
    have hlt := h.lt_next ho
    refine ⟨hf, ?_⟩
    rw [hheap o hlt]
    show (ix.attrs.insert a.computeKey ix.next).lookup _ = some o
    rw [lookup_insert_ne]
    · exact hlook
    · rintro hk
      rw [hk, hnew] at hlook
      cases hlook
  · intro o ho
    rw [show (ix.alloc a).users o = ix.users o by rw [users, users, hroutes, hroutes]]
    rcases Nat.lt_succ_iff_lt_or_eq.mp ho with ho | rfl
    · rw [hheap o ho]
      exact h.refs o ho
    · rw [alloc_heap_next, h.users_next]
      simp

structure Interned (ix ix' : Index) (a : Attrs) (o : Nat) : Prop where
  sound : ix'.Sound none
  found : ix'.attrs.lookup a.computeKey = some o
  routes : ∀ f, ix'.routes f = ix.routes f
  key : ∀ o', o' < ix.next → (ix'.heap o').key = (ix.heap o').key

theorem Sound.intern (h : ix.Sound none) (ha : a.Plain) : Interned ix (ix.intern a).1 a (ix.intern a).2 := by
  unfold Index.intern
  cases hlook : ix.attrs.lookup a.computeKey with
  | some o => exact ⟨h, hlook, fun _ => rfl, fun _ _ => rfl⟩
  | none =>
    refine ⟨h.alloc ha hlook, lookup_insert _, fun f => by cases f <;> rfl, fun o' ho' => ?_⟩
    rw [alloc_heap ix a o' (by omega)]

/-! ### Pointing and releasing -/

@[simp] theorem point_routes (ix : Index) (p : Prefix) (o : Nat) (f : Family) :
    (ix.point p o).routes f = if f = famOf p then (ix.routes f).insert p o else ix.routes f := by
  unfold point
  rw [routes_setRoutes, routes_addRefs]
  split_ifs with hf
  · rw [hf]
  · rfl

theorem point_heap (ix : Index) (p : Prefix) (o o' : Nat) :
    (ix.point p o).heap o' = { ix.heap o' with refs := (ix.heap o').refs + if o = o' then 1 else 0 } := by
  rw [point, heap_setRoutes, heap_addRefs]

theorem users_point (ix : Index) (p : Prefix) (o o' : Nat) :
    (ix.point p o).users o' + (if (ix.routes (famOf p)).lookup p = some o' then 1 else 0) =
      ix.users o' + if o = o' then 1 else 0 := by
  have hset := users_setRoutes (ix.addRefs o 1) (famOf p) ((ix.routes (famOf p)).insert p o) o'
  have husers : (ix.addRefs o 1).users o' = ix.users o' := by simp [users]
  rw [routes_addRefs, uses_insert, uses_erase (ix.routes (famOf p)) p o', husers] at hset
  rw [point]
  omega

theorem Sound.point (h : ix.Sound none) {k : String} (ho : ix.attrs.lookup k = some o) (p : Prefix) :
    (ix.point p o).Sound ((ix.routes (famOf p)).lookup p) := by
  have hattrs : (ix.point p o).attrs = ix.attrs := attrs_setRoutes _ _ _
  have hnext : (ix.point p o).next = ix.next := next_setRoutes _ _ _
  constructor
  · intro o' ho'
    rw [point_heap]
    exact h.key o' (hnext ▸ ho')
  · intro k' o' ho'
    rw [hnext, point_heap]
    exact h.interned k' o' (hattrs ▸ ho')
  · intro f q o' hq
    rw [hattrs, point_heap]
    rw [point_routes] at hq
    split_ifs at hq with hf
    · by_cases hqp : q = p
      · subst hqp
        rw [lookup_insert] at hq
        cases hq
        exact ⟨hf.symm, (h.interned k o ho).2.symm ▸ ho⟩
      · rw [lookup_insert_ne hqp] at hq
        exact h.held f q o' hq
    · exact h.held f q o' hq
  · intro o' ho'
    have husers := users_point ix p o o'
    have hrefs := h.refs o' (hnext ▸ ho')
    rw [point_heap]
    show _ ≤ (ix.heap o').refs + if o = o' then 1 else 0
    split_ifs at husers hrefs ⊢ <;> omega

theorem keyAt_point (ix : Index) (p q : Prefix) (o : Nat) :
    (ix.point p o).keyAt q = if q = p then some (ix.heap o).key else ix.keyAt q := by
  unfold keyAt
  have hkey : (fun o' => ((ix.point p o).heap o').key) = fun o' => (ix.heap o').key := by
    funext o'
    rw [point_heap]
  rw [hkey, point_routes]
  by_cases hqp : q = p
  · subst hqp
    rw [if_pos rfl, if_pos rfl, lookup_insert]
    rfl
  rw [if_neg hqp]
  split_ifs
  · rw [lookup_insert_ne hqp]
  · rfl

@[simp] theorem release_routes (ix : Index) (o : Nat) (f : Family) : (ix.release o).routes f = ix.routes f := by
  unfold release
  dsimp only
  split_ifs
  · cases f <;> rfl
  · exact routes_addRefs ix o _ f

theorem release_heap (ix : Index) (o o' : Nat) :
    (ix.release o).heap o' = { ix.heap o' with refs := (ix.heap o').refs + if o = o' then -1 else 0 } := by
  rw [← heap_addRefs]
  unfold release
  dsimp only
  split_ifs <;> rfl

theorem release_attrs (ix : Index) (o : Nat) :
    (ix.release o).attrs = if (ix.heap o).refs = 1 then ix.attrs.erase (ix.heap o).key else ix.attrs := by
  unfold release
  dsimp only
  rw [heap_addRefs, if_pos rfl]
  dsimp only
  by_cases hone : (ix.heap o).refs = 1
  · rw [if_pos (by omega), if_pos hone]
    rfl
  · rw [if_neg (by omega), if_neg hone]
    rfl

theorem release_next (ix : Index) (o : Nat) : (ix.release o).next = ix.next := by
  unfold release
  dsimp only
  split_ifs <;> rfl

theorem keyAt_release (ix : Index) (o : Nat) (q : Prefix) : (ix.release o).keyAt q = ix.keyAt q := by
  unfold keyAt
  rw [release_routes]
  congr 1
  funext o'
  rw [release_heap]

theorem Sound.release (h : ix.Sound (some o)) (ho : ix.attrs.lookup (ix.heap o).key = some o) :
    (ix.release o).Sound none := by
  -- an interned object stays unless it is `o` and the last route has gone
  have hlook : ∀ o', ix.attrs.lookup (ix.heap o').key = some o' → (o' = o → (ix.heap o).refs ≠ 1) →
      (ix.release o).attrs.lookup (ix.heap o').key = some o' := by
    intro o' ho' hne
    rw [release_attrs]
    split_ifs with hzero
    · rw [lookup_erase_ne]
      · exact ho'
      · intro hkey
        rw [hkey, ho] at ho'
        exact hne (Option.some.inj ho').symm hzero
    · exact ho'
  constructor
  · intro o' ho'
    rw [release_heap]
    exact h.key o' (release_next ix o ▸ ho')
  · intro k o' ho'
    rw [release_next, release_heap]
    refine h.interned k o' ?_
    rw [release_attrs] at ho'
    split_ifs at ho' with hzero
    · by_cases hk : k = (ix.heap o).key
      · rw [hk, lookup_erase] at ho'
        cases ho'
      · rwa [lookup_erase_ne hk] at ho'
    · exact ho'
  · intro f q o' hq
    rw [release_routes] at hq
    obtain ⟨hf, hq'⟩ := h.held f q o' hq
    refine ⟨hf, ?_⟩
    rw [release_heap]
    refine hlook o' hq' ?_
    rintro rfl
    have hrefs := h.refs o' (h.lt_next hq)
    have hpos : 0 < ix.users o' := by
      have := uses_pos hq
      cases f <;> simp only [users] <;> omega
    rw [if_pos rfl] at hrefs
    omega
  · intro o' ho'
    have hrefs := h.refs o' (release_next ix o ▸ ho')
    rw [release_heap, show (ix.release o).users o' = ix.users o' by simp [users]]
    show _ ≤ (ix.heap o').refs + if o = o' then -1 else 0
    rw [if_neg nofun]
    simp only [Option.some.injEq] at hrefs
    split_ifs at hrefs ⊢ <;> omega

theorem Sound.erase (h : ix.Sound none) (hp : (ix.routes (famOf p)).lookup p = some o) :
    (ix.setRoutes (famOf p) ((ix.routes (famOf p)).erase p)).Sound (some o) := by
  constructor
  · intro o' ho'
    rw [heap_setRoutes]
    exact h.key o' (next_setRoutes ix _ _ ▸ ho')
  · intro k o' ho'
    rw [next_setRoutes, heap_setRoutes]
    exact h.interned k o' (attrs_setRoutes ix _ _ ▸ ho')
  · intro f q o' hq
    rw [attrs_setRoutes, heap_setRoutes]
    refine h.held f q o' ?_
    rw [routes_setRoutes] at hq
    split_ifs at hq with hf
    · by_cases hqp : q = p
      · rw [hqp, lookup_erase] at hq
        cases hq
      · rw [lookup_erase_ne hqp] at hq
        rwa [hf]
    · exact hq
  · intro o' ho'
    have hrefs := h.refs o' (next_setRoutes ix _ _ ▸ ho')
    have husers := users_setRoutes ix (famOf p) ((ix.routes (famOf p)).erase p) o'
    rw [uses_erase (ix.routes (famOf p)) p o', hp] at husers
    rw [heap_setRoutes]
    rw [if_neg nofun] at hrefs
    split_ifs at husers ⊢ <;> omega

theorem keyAt_erase (ix : Index) (p q : Prefix) :
    (ix.setRoutes (famOf p) ((ix.routes (famOf p)).erase p)).keyAt q = if q = p then none else ix.keyAt q := by
  unfold keyAt
  rw [heap_setRoutes, routes_setRoutes]
  by_cases hqp : q = p
  · subst hqp
    rw [if_pos rfl, if_pos rfl, lookup_erase]
    rfl
  rw [if_neg hqp]
  split_ifs with hf
  · rw [lookup_erase_ne hqp, hf]
  · rfl

end Index

end Galactic.RouteIndex
