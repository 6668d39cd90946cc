import Galactic.Masque.Authority

/-!
# The API server the authority shares

Operators change grant records: `Create`, `Rotate` and `Disable` of `Grants` write a record under the version they read,
so each takes effect as one change of the stored record, and a record may be deleted. Every new credential has a digest
no credential had before. EdgeServices are created, changed and deleted by anybody, as long as a retired one keeps its
mark and its `validUntil`. -/

namespace Galactic.Masque

open Client List Option Nat Prod String

/-- The stored Secrets and EdgeServices, the next version or UID, and the digests of the credentials issued so far. -/
structure Server where
  secrets : List Secret
  services : List Service
  next : Nat
  used : List String

/-! ### Records -/

def Record.rotated (r : Record) (digest : String) (expires : Int) : Record :=
  { r with revision := r.revision + 1, digest := digest, expires := expires }

def Record.disabled (r : Record) : Record :=
  if r.enabled then { r with enabled := false, revision := r.revision + 1 } else r

namespace Server

def record (s : Server) (connector : String) : Option Record :=
  (s.secrets.find? (·.name = recordName connector)).bind fun x => (decodeRecord x).toOption

def putSecret (s : Server) (x : Secret) : Server :=
  { s with secrets := s.secrets.map fun y => if y.name = x.name then x else y }

/-- `update` of `Grants` takes effect. -/
def updateRecord (s : Server) (connector : String) (change : Record → Option Record) : Server :=
  match s.record connector with
  | none => s
  | some r =>
    match (change r).bind fun r => (encodeRecord r).toOption with
    | none => s
    | some x => s.putSecret x

def issueDigest (s : Server) (digest : String) : Server := { s with used := digest :: s.used }

/-- `Create` takes effect. -/
def createRecord (s : Server) (r : Record) : Server :=
  match encodeRecord r with
  | .error _ => s
  | .ok x =>
    if r.digest ∈ s.used ∨ s.secrets.any (·.name = x.name) then s
    else { s.issueDigest r.digest with secrets := s.secrets ++ [x] }

def rotate (s : Server) (connector digest : String) (expires : Int) : Server :=
  if digest ∈ s.used then s
  else (s.issueDigest digest).updateRecord connector fun r => if r.enabled then some
    (r.rotated digest expires) else none

def disable (s : Server) (connector : String) : Server := s.updateRecord connector fun r => some r.disabled

def deleteRecord (s : Server) (name : String) : Server :=
  { s with secrets := s.secrets.filter (·.name ≠ name) }

/-! ### EdgeServices -/

def service (s : Server) (ns name : String) : Option Service := s.services.find? fun t => t.ns = ns ∧ t.name = name

def fresh (s : Server) (t : Service) : Service := { t with uid := s.next, version := s.next }

def addService (s : Server) (t : Service) : Server :=
  if (s.service t.ns t.name).isSome then s
  else { s with services := s.services ++ [s.fresh t], next := s.next + 1 }

def stamped (s : Server) (t : Service) : Service := { t with version := s.next }

/-- The change keeps the object's name and UID, and a retired object's mark and `validUntil`. -/
def allows (old new : Service) : Bool :=
  new.ns = old.ns ∧ new.name = old.name ∧ new.uid = old.uid ∧
    (old.retired = true → new.retired = true ∧ new.validUntil = old.validUntil)

def putService (s : Server) (version : Nat) (t : Service) : Server :=
  { s with services := s.services.map fun u => if u.version = version then s.stamped t else u, next := s.next + 1 }

def changeService (s : Server) (t : Service) : Server :=
  match s.service t.ns t.name with
  | none => s
  | some old => if allows old t then s.putService old.version t else s

def removeService (s : Server) (uid : Nat) : Server := { s with services := s.services.filter (·.uid ≠ uid) }

/-! ### The world -/

/-- What others do. -/
inductive Move
  | create (r : Record)
  | rotate (connector digest : String) (expires : Int)
  | disable (connector : String)
  | deleteRecord (name : String)
  | add (t : Service)
  | change (t : Service)
  | remove (uid : Nat)

def move (s : Server) : Move → Server
  | .create r => s.createRecord r
  | .rotate connector digest expires => s.rotate connector digest expires
  | .disable connector => s.disable connector
  | .deleteRecord name => s.deleteRecord name
  | .add t => s.addService t
  | .change t => s.changeService t
  | .remove uid => s.removeService uid

/-- What decides an answer besides the state: whether the request fails and, for a write, takes effect all the same;
whether a finalizer holds a deleted object; the clock; and the VPC and the ledger as they are then. -/
structure Choice where
  fails : Bool
  lost : Bool
  held : Bool
  now : Int
  vpc : Found VPC
  ledger : Option Ledger

/-- A write that may fail, and may be lost or take effect when it does. -/
def Choice.writes {α : Type} (c : Choice) (s : Server) (failed : α) (ok : α × Server) : α × Server :=
  if c.fails then (failed, if c.lost then s else ok.2) else ok

def answer (s : Server) (c : Choice) : (q : Query) → Answer q × Server
  | .now => (c.now, s)
  | .listSecrets => (if c.fails then none else some (s.secrets.filter (·.grant)), s)
  | .getSecret name =>
    (if c.fails then .failed
      else match s.secrets.find? (·.name = name) with
        | none => .notFound
        | some x => .ok x, s)
  | .getVPC _ _ => (c.vpc, s)
  | .readLedger _ _ => (c.ledger, s)
  | .listServices ns connector =>
    (if c.fails then none
      else some (s.services.filter fun t => t.managed = true ∧ ns.all (· = t.ns) ∧ connector.all (· = t.connector)), s)
  | .getService ns name =>
    (if c.fails then .failed
      else match s.service ns name with
        | none => .notFound
        | some t => .ok t, s)
  | .create t =>
    if (s.service t.ns t.name).isSome then (none, s) else c.writes s none (some (s.fresh t), s.addService t)
  | .update t =>
    match s.service t.ns t.name with
    | none => (if c.fails then .failed else .notFound, s)
    | some old =>
      if old.uid ≠ t.uid ∨ old.version ≠ t.version then (if c.fails then .failed else .conflict, s)
      else c.writes s .failed (.ok (s.stamped t), s.putService old.version t)
  | .delete t =>
    match s.service t.ns t.name with
    | none => (if c.fails then .failed else .notFound, s)
    | some old =>
      if old.uid ≠ t.uid then (.failed, s)
      else c.writes s .failed
        (.ok (), if c.held then s.changeService { old with deleting := true } else s.removeService old.uid)

end Server

def world : World Server Query Answer where
  Choice := Server.Choice
  Move := Server.Move
  answer := Server.answer
  move := Server.move

abbrev Asked := Step Server Query Answer

/-! ### What holds of every state -/

/-- Versions, UIDs and names are used once, and every stored digest has been issued. -/
structure Server.Sound (s : Server) : Prop where
  bound : ∀ t ∈ s.services, t.version < s.next ∧ t.uid < s.next
  versions : ∀ t ∈ s.services, ∀ u ∈ s.services, t.version = u.version → t = u
  uids : ∀ t ∈ s.services, ∀ u ∈ s.services, t.uid = u.uid → t = u
  keys : ∀ t ∈ s.services, ∀ u ∈ s.services, t.ns = u.ns → t.name = u.name → t = u
  names : ∀ x ∈ s.secrets, ∀ y ∈ s.secrets, x.name = y.name → x = y
  issued : ∀ x ∈ s.secrets, ∀ r, x.record = some r → r.digest ∈ s.used

def Server.Each (s : Server) (uid : Nat) (p : Service → Prop) : Prop := uid < s.next ∧ ∀ t ∈ s.services, t.uid = uid →
  p t

/-- The authorization is retired, or gone. -/
def Server.Ended (s : Server) (uid : Nat) : Prop := s.Each uid fun t => t.retired = true

structure Server.Knows (s : Server) (t : Service) : Prop where
  version : t.version < s.next
  same : ∀ u ∈ s.services, u.version = t.version → u = t
  key : s.Each t.uid fun u => u.ns = t.ns ∧ u.name = t.name
  retired : t.retired = true → s.Ended t.uid

/-- The record was read, and has since been replaced or deleted for good: what is stored now has a later revision or the
digest of another credential. -/
def Server.Moved (s : Server) (r : Record) : Prop :=
  r.digest ∈ s.used ∧ ∀ r', s.record r.connector = some r' → r.revision < r'.revision ∨ r'.digest ≠ r.digest

def Server.Seen (s : Server) (r : Record) : Prop := r.digest ∈ s.used ∧ (s.record r.connector = some r ∨ s.Moved r)

namespace Server

variable {s : Server} {t old : Service} {uid : Nat} {p : Service → Prop}

theorem mem_service {ns name : String} (h : s.service ns name = some t) : t ∈ s.services ∧ t.ns = ns ∧ t.name = name :=
  ⟨mem_of_find?_eq_some h, by simpa using find?_some h⟩

theorem not_mem_of_service (h : s.service t.ns t.name = none) :
    ∀ u ∈ s.services, ¬ (u.ns = t.ns ∧ u.name = t.name) := by
  intro u hu hkey
  exact find?_eq_none.mp h u hu (decide_eq_true hkey)

/-! ### Secrets -/

section
variable {x : Secret} {r : Record}

theorem decodeRecord_ok (h : decodeRecord x = .ok r) : x.record = some r ∧ x.name = recordName r.connector := by
  revert h
  fun_cases decodeRecord x with
  | case1 | case2 | case3 => nofun
  | case4 r' hrec hval hname =>
    rintro ⟨⟩
    exact ⟨hrec, not_not.mp (not_or.mp hname).1⟩

theorem encodeRecord_ok (h : encodeRecord r = .ok x) : decodeRecord x = .ok r ∧ x.name = recordName r.connector := by
  unfold encodeRecord at h
  cases hval : r.validate <;> rw [hval] at h <;> cases h
  refine ⟨?_, rfl⟩
  unfold decodeRecord
  dsimp only
  rw [hval]
  dsimp only
  rw [if_neg (by simp)]

theorem recordName_inj {c c' : String} (h : recordName c = recordName c') : c = c' := by
  have := congrArg String.toList h
  unfold recordName at this
  rw [String.toList_append, String.toList_append] at this
  exact String.toList_injective (append_cancel_left this)

theorem record_some {c : String} (h : s.record c = some r) :
    ∃ x ∈ s.secrets, decodeRecord x = .ok r ∧ x.name = recordName c ∧ r.connector = c := by
  obtain ⟨x, hfind, h⟩ := Option.bind_eq_some_iff.mp h
  have hname : x.name = recordName c := by simpa using find?_some hfind
  cases hdec : decodeRecord x <;> rw [hdec] at h <;> cases h
  exact ⟨x, mem_of_find?_eq_some hfind, hdec, hname, recordName_inj ((decodeRecord_ok hdec).2.symm.trans hname)⟩

theorem Sound.record (hs : s.Sound) (hx : x ∈ s.secrets) (hdec : decodeRecord x = .ok r) :
    s.record r.connector = some r := by
  have hname := (decodeRecord_ok hdec).2
  unfold Server.record
  cases hfind : s.secrets.find? (·.name = recordName r.connector) with
  | none => exact absurd (decide_eq_true hname) (find?_eq_none.mp hfind x hx)
  | some y =>
    have hy : y.name = recordName r.connector := by simpa using find?_some hfind
    rw [hs.names y (mem_of_find?_eq_some hfind) x hx (hy.trans hname.symm), bind_some, hdec]
    rfl

end

/-! ### What a move does to the EdgeServices -/

theorem allows_iff {new : Service} : allows old new ↔ new.ns = old.ns ∧ new.name = old.name ∧ new.uid = old.uid ∧
    (old.retired → new.retired ∧ new.validUntil = old.validUntil) := decide_eq_true_iff

/-- An object is as it was, or new, or an allowed change of one that was there. -/
structure Evolves (s s' : Server) : Prop where
  next : s.next ≤ s'.next
  origin : ∀ u ∈ s'.services, u ∈ s.services ∨
    (s.next ≤ u.version ∧ (s.next ≤ u.uid ∨ ∃ old ∈ s.services, allows old u = true))

variable {s' : Server}

theorem Evolves.of_subset (hnext : s.next ≤ s'.next) (h : ∀ u ∈ s'.services, u ∈ s.services) : Evolves s s' :=
  ⟨hnext, fun u hu => .inl (h u hu)⟩

theorem Each.evolves (h : s.Each uid p) (he : Evolves s s') (hp : ∀ old new, allows old new → p old → p new) :
    s'.Each uid p := by
  refine ⟨lt_of_lt_of_le h.1 he.next, fun u hu huid => ?_⟩
  rcases he.origin u hu with hold | ⟨-, hnew | ⟨old, hold, hallows⟩⟩
  · exact h.2 u hold huid
  · have := h.1
    omega
  · exact hp old u hallows (h.2 old hold ((allows_iff.mp hallows).2.2.1.symm.trans huid))

theorem Ended.evolves (h : s.Ended uid) (he : Evolves s s') : s'.Ended uid :=
  Each.evolves h he fun _ _ hallows hold => ((allows_iff.mp hallows).2.2.2 hold).1

theorem Knows.evolves (h : s.Knows t) (he : Evolves s s') : s'.Knows t where
  version := lt_of_lt_of_le h.version he.next
  same := by
    intro u hu hversion
    rcases he.origin u hu with hold | ⟨hnew, -⟩
    · exact h.same u hold hversion
    · have := h.version
      omega
  key := h.key.evolves he fun _ _ hallows hold =>
    ⟨(allows_iff.mp hallows).1.trans hold.1, (allows_iff.mp hallows).2.1.trans hold.2⟩
  retired := fun ht => (h.retired ht).evolves he

theorem Sound.knows (hs : s.Sound) (ht : t ∈ s.services) : s.Knows t where
  version := (hs.bound t ht).1
  same := fun u hu h => hs.versions u hu t ht h
  key := ⟨(hs.bound t ht).2, fun u hu h => by rw [hs.uids u hu t ht h]; exact ⟨rfl, rfl⟩⟩
  retired := fun hret => ⟨(hs.bound t ht).2, fun u hu h => by rw [hs.uids u hu t ht h]; exact hret⟩

theorem mem_putService {u : Service} (hu : u ∈ (s.putService old.version t).services) :
    u = s.stamped t ∨ (u ∈ s.services ∧ u ≠ old) := by
  obtain ⟨v, hv, rfl⟩ := mem_map.mp hu
  split_ifs with hversion
  · exact .inl rfl
  · exact .inr ⟨hv, fun h => hversion (by rw [h])⟩

/-! ### What a move changes -/

/-- Every move is one of these, or issues digests and changes nothing else. -/
inductive Change (s : Server) : Server → Prop
  | issue (digests : List String) : Change s { s with used := digests ++ s.used }
  | add (t : Service) (hnew : s.service t.ns t.name = none) :
      Change s { s with services := s.services ++ [s.fresh t], next := s.next + 1 }
  | put {old t : Service} (hold : old ∈ s.services) (hallows : allows old t = true) :
      Change s (s.putService old.version t)
  | remove (uid : Nat) : Change s (s.removeService uid)
  | create {r : Record} {x : Secret} (henc : encodeRecord r = .ok x) (hnew : r.digest ∉ s.used)
      (hname : ∀ y ∈ s.secrets, y.name ≠ x.name) : Change s { s.issueDigest r.digest with secrets := s.secrets ++ [x] }
  | replace {c : String} {r r' : Record} {x : Secret} (digests : List String) (hrec : s.record c = some r)
      (hcon : r'.connector = c) (henc : encodeRecord r' = .ok x)
      (hnext : r'.digest ∈ digests ∧ r'.digest ∉ s.used ∨ r'.digest = r.digest ∧ (r' = r ∨ r.revision < r'.revision)) :
      Change s (Server.putSecret { s with used := digests ++ s.used } x)
  | delete (name : String) : Change s (s.deleteRecord name)

theorem updateRecord_cases (s : Server) (c : String) (change : Record → Option Record) :
    s.updateRecord c change = s ∨ ∃ r r' x, s.record c = some r ∧ change r = some r' ∧ encodeRecord r' = .ok x ∧
      s.updateRecord c change = s.putSecret x := by
  unfold updateRecord
  cases hrec : s.record c with
  | none => exact .inl rfl
  | some r =>
    dsimp only
    cases hchange : change r with
    | none => exact .inl rfl
    | some r' =>
      rw [bind_some]
      cases henc : encodeRecord r' with
      | error e => exact .inl rfl
      | ok x => exact .inr ⟨r, r', x, rfl, hchange, henc, rfl⟩

theorem move_change (s : Server) (m : Move) : Change s (s.move m) := by
  cases m with
  | create r =>
    show Change s (s.createRecord r)
    unfold createRecord
    cases henc : encodeRecord r with
    | error e => exact .issue []
    | ok x =>
      dsimp only
      split_ifs with hno
      · exact .issue []
      · obtain ⟨hnew, hname⟩ := not_or.mp hno
        exact .create henc hnew fun y hy h => hname (any_eq_true.mpr ⟨y, hy, decide_eq_true h⟩)
  | rotate c digest expires =>
    show Change s (s.rotate c digest expires)
    unfold rotate
    split_ifs with hused
    · exact .issue []
    rcases updateRecord_cases (s.issueDigest digest) c
      (fun r => if r.enabled then some (r.rotated digest expires) else none) with heq | ⟨r, r', x, hrec, hr', henc, heq⟩
    · rw [heq]
      exact .issue [digest]
    split_ifs at hr'
    cases hr'
    obtain ⟨_, -, -, -, hcon⟩ := record_some hrec
    have hcon : (r.rotated digest expires).connector = c := hcon
    rw [heq]
    exact .replace [digest] hrec hcon henc (.inl ⟨mem_singleton_self _, hused⟩)
  | disable c =>
    show Change s (s.updateRecord c _)
    rcases updateRecord_cases s c (fun r => some r.disabled) with heq | ⟨r, r', x, hrec, hr', henc, heq⟩
    · rw [heq]
      exact .issue []
    cases hr'
    obtain ⟨_, -, -, -, hcon⟩ := record_some hrec
    have hnext : r.disabled.connector = r.connector ∧ r.disabled.digest = r.digest ∧
        (r.disabled = r ∨ r.revision < r.disabled.revision) := by
      unfold Record.disabled
      split_ifs
      · exact ⟨rfl, rfl, .inr (Int.lt_succ _)⟩
      · exact ⟨rfl, rfl, .inl rfl⟩
    rw [heq]
    exact .replace [] hrec (hnext.1.trans hcon) henc (.inr hnext.2)
  | deleteRecord name => exact .delete name
  | add t =>
    show Change s (s.addService t)
    unfold addService
    split_ifs with hfind
    · exact .issue []
    · exact .add t (Option.not_isSome_iff_eq_none.mp hfind)
  | change t =>
    show Change s (s.changeService t)
    unfold changeService
    cases hfind : s.service t.ns t.name with
    | none => exact .issue []
    | some old =>
      dsimp only
      split_ifs with hallows
      · exact .put (mem_service hfind).1 hallows
      · exact .issue []
  | remove uid => exact .remove uid

theorem Change.evolves (h : Change s s') : Evolves s s' := by
  cases h with
  | add t hnew =>
    refine ⟨le_succ _, fun u hu => (mem_append.mp hu).imp_right fun hu => ?_⟩
    rw [mem_singleton.mp hu]
    exact ⟨le_refl _, .inl (le_refl _)⟩
  | put hold hallows =>
    refine ⟨le_succ _, fun u hu => ?_⟩
    rcases mem_putService hu with rfl | ⟨hu, -⟩
    · exact .inr ⟨le_refl _, .inr ⟨_, hold, hallows⟩⟩
    · exact .inl hu
  | remove uid => exact .of_subset (le_refl _) fun _ hu => mem_of_mem_filter hu
  | issue | create | replace | delete => exact .of_subset (le_refl _) fun _ hu => hu

theorem Change.used {digest : String} (h : Change s s') (hd : digest ∈ s.used) : digest ∈ s'.used := by
  cases h with
  | issue | replace => exact mem_append_right _ hd
  | create => exact mem_cons_of_mem _ hd
  | add | put | remove | delete => exact hd

theorem inj_of_new {α β : Type} {f : α → β} {l l' : List α} {b : α} (h : ∀ x ∈ l, ∀ y ∈ l, f x = f y → x = y)
    (hl' : ∀ x ∈ l', x = b ∨ (x ∈ l ∧ f x ≠ f b)) : ∀ x ∈ l', ∀ y ∈ l', f x = f y → x = y := by
  intro x hx y hy heq
  rcases hl' x hx with rfl | ⟨hx, hxb⟩ <;> rcases hl' y hy with rfl | ⟨hy, hyb⟩
  · rfl
  · exact absurd heq.symm hyb
  · exact absurd heq hxb
  · exact h x hx y hy heq

theorem Sound.store (hs : s.Sound) {u : Service} {l : List Service} (hversion : u.version = s.next)
    (huid : u.uid ≤ s.next)
    (hmem : ∀ t ∈ l, t = u ∨ (t ∈ s.services ∧ t.uid ≠ u.uid ∧ (t.ns, t.name) ≠ (u.ns, u.name))) :
    Sound { s with services := l, next := s.next + 1 } := by
  refine ⟨fun t ht => ?_, inj_of_new hs.versions fun t ht => (hmem t ht).imp_right fun h => ⟨h.1, ?_⟩,
    inj_of_new hs.uids fun t ht => (hmem t ht).imp_right fun h => ⟨h.1, h.2.1⟩,
    fun t ht v hv hns hname => ?_, hs.names, hs.issued⟩
  · rcases hmem t ht with rfl | ⟨ht, -⟩
    · exact ⟨hversion ▸ Nat.lt_succ_self _, Nat.lt_succ_of_le huid⟩
    · exact ⟨Nat.lt_succ_of_lt (hs.bound t ht).1, Nat.lt_succ_of_lt (hs.bound t ht).2⟩
  · exact hversion ▸ Nat.ne_of_lt (hs.bound t h.1).1
  · exact inj_of_new (f := fun t : Service => (t.ns, t.name))
      (fun t ht v hv h => hs.keys t ht v hv (Prod.mk.inj h).1 (Prod.mk.inj h).2)
      (fun t ht => (hmem t ht).imp_right fun h => ⟨h.1, h.2.2⟩) t ht v hv (Prod.ext hns hname)

theorem Sound.add (hs : s.Sound) (hnew : s.service t.ns t.name = none) :
    Sound { s with services := s.services ++ [s.fresh t], next := s.next + 1 } := by
  refine hs.store rfl (Nat.le_refl _) fun u hu => (mem_append.mp hu).symm.imp mem_singleton.mp fun hu => ⟨hu, ?_, ?_⟩
  · exact Nat.ne_of_lt (hs.bound u hu).2
  · exact fun h => not_mem_of_service hnew u hu (Prod.mk.inj h)

theorem Sound.putService (hs : s.Sound) (hold : old ∈ s.services) (hallows : allows old t) :
    (s.putService old.version t).Sound := by
  obtain ⟨hns, hname, huid, -⟩ := allows_iff.mp hallows
  refine hs.store rfl (huid ▸ (hs.bound old hold).2.le) fun u hu => (mem_putService hu).imp_right fun ⟨hu, hne⟩ =>
    ⟨hu, fun h => hne (hs.uids u hu old hold (h.trans huid)), fun h => hne ?_⟩
  exact hs.keys u hu old hold ((Prod.mk.inj h).1.trans hns) ((Prod.mk.inj h).2.trans hname)

section
variable {c : String} {r : Record} {x : Secret}

theorem Sound.digest_used (hs : s.Sound) (h : s.record c = some r) : r.digest ∈ s.used := by
  obtain ⟨x, hx, hdec, -, -⟩ := record_some h
  exact hs.issued x hx r (decodeRecord_ok hdec).1

theorem Sound.secrets (hs : s.Sound) (digests : List String) {secrets : List Secret} (henc : encodeRecord r = .ok x)
    (hmem : ∀ y ∈ secrets, y = x ∨ (y ∈ s.secrets ∧ y.name ≠ x.name)) (hused : r.digest ∈ digests ++ s.used) :
    Sound { s with secrets := secrets, used := digests ++ s.used } := by
  refine ⟨hs.bound, hs.versions, hs.uids, hs.keys, inj_of_new hs.names hmem, fun y hy r' hr' => ?_⟩
  rcases hmem y hy with rfl | ⟨hy, -⟩
  · obtain rfl : r = r' := Option.some.inj ((decodeRecord_ok (encodeRecord_ok henc).1).1.symm.trans hr')
    exact hused
  · exact mem_append_right _ (hs.issued y hy r' hr')

theorem Change.sound (h : Change s s') (hs : s.Sound) : s'.Sound := by
  cases h with
  | issue digests =>
    exact ⟨hs.bound, hs.versions, hs.uids, hs.keys, hs.names, fun x hx r hr => mem_append_right _ (hs.issued x hx r hr)⟩
  | add t hnew => exact hs.add hnew
  | put hold hallows => exact hs.putService hold hallows
  | remove uid =>
    exact ⟨fun t ht => hs.bound t (mem_of_mem_filter ht),
      fun t ht u hu => hs.versions t (mem_of_mem_filter ht) u (mem_of_mem_filter hu),
      fun t ht u hu => hs.uids t (mem_of_mem_filter ht) u (mem_of_mem_filter hu),
      fun t ht u hu => hs.keys t (mem_of_mem_filter ht) u (mem_of_mem_filter hu), hs.names, hs.issued⟩
  | create henc hnew hname =>
    exact hs.secrets [_] henc (fun y hy => (mem_append.mp hy).elim (fun hy => .inr ⟨hy, hname y hy⟩)
      fun hy => .inl (mem_singleton.mp hy)) mem_cons_self
  | replace digests hrec hcon henc hnext =>
    refine hs.secrets digests henc (fun y hy => ?_) (mem_append.mpr ?_)
    · obtain ⟨z, hz, rfl⟩ := mem_map.mp hy
      split_ifs with hname
      · exact .inl rfl
      · exact .inr ⟨hz, hname⟩
    · rcases hnext with ⟨hnew, -⟩ | ⟨hdigest, -⟩
      · exact .inl hnew
      · exact .inr (hdigest ▸ hs.digest_used hrec)
  | delete name =>
    exact ⟨hs.bound, hs.versions, hs.uids, hs.keys,
      fun x hx y hy => hs.names x (mem_of_mem_filter hx) y (mem_of_mem_filter hy),
      fun x hx => hs.issued x (mem_of_mem_filter hx)⟩

theorem record_putSecret {c c' : String} {r r' : Record} (hrec : s.record c = some r) (henc : encodeRecord r' = .ok x)
    (hc : r'.connector = c) : (s.putSecret x).record c' = if c' = c then some r' else s.record c' := by
  obtain ⟨hdec, hname⟩ := encodeRecord_ok henc
  rw [hc] at hname
  have hkeeps : ((fun y : Secret => decide (y.name = recordName c')) ∘ fun y => if y.name = x.name then x else y) =
      fun y => decide (y.name = recordName c') := by
    funext y
    by_cases hy : y.name = x.name <;> simp [hy]
  unfold putSecret record at *
  rw [find?_map, hkeeps]
  cases hfind : s.secrets.find? (·.name = recordName c') with
  | none =>
    rw [if_neg]
    · rfl
    · rintro rfl
      rw [hfind] at hrec
      cases hrec
  | some y =>
    have hy : y.name = recordName c' := by simpa using find?_some hfind
    by_cases hcc : c' = c
    · subst hcc
      rw [if_pos rfl, map_some, if_pos (hy.trans hname.symm), bind_some, hdec]
      rfl
    · rw [if_neg hcc, map_some, if_neg fun h => hcc (recordName_inj (hy.symm.trans (h.trans hname)))]

theorem Change.record {r' : Record} (hch : Change s s') (h : s'.record c = some r') :
    s.record c = some r' ∨ r'.digest ∉ s.used ∨
      ∃ r, s.record c = some r ∧ r'.digest = r.digest ∧ r.revision < r'.revision := by
  cases hch with
  | issue | add | put | remove => exact .inl h
  | create henc hnew hname =>
    change ((s.secrets ++ [_]).find? fun y : Secret => y.name = recordName c).bind _ = _ at h
    rw [find?_append] at h
    unfold Server.record
    cases hfind : s.secrets.find? (·.name = recordName c) with
    | some y =>
      rw [hfind] at h
      exact .inl h
    | none =>
      -- the new Secret is found
      rw [hfind, none_or, find?_singleton] at h
      split_ifs at h
      · rw [bind_some, (encodeRecord_ok henc).1] at h
        exact .inr (.inl (Option.some.inj h ▸ hnew))
      · exact .inl h
  | replace digests hrec hcon henc hnext =>
    rw [record_putSecret (s := { s with used := digests ++ s.used }) hrec henc hcon] at h
    split_ifs at h with hcc
    · cases h
      subst hcc
      rcases hnext with hnew | ⟨hdigest, rfl | hrevision⟩
      · exact .inr (.inl hnew.2)
      · exact .inl hrec
      · exact .inr (.inr ⟨_, hrec, hdigest, hrevision⟩)
    · exact .inl h
  | delete name =>
    change ((s.secrets.filter (·.name ≠ name)).find? (·.name = recordName c)).bind _ = _ at h
    by_cases hname : recordName c = name
    · have hnone : (s.secrets.filter (·.name ≠ name)).find? (·.name = recordName c) = none := by
        rw [find?_eq_none]
        intro x hx
        have := of_decide_eq_true (mem_filter.mp hx).2
        simpa [hname] using this
      rw [hnone] at h
      cases h
    refine .inl ?_
    rw [← h]
    unfold Server.record
    rw [find?_filter]
    congr 2
    funext x
    by_cases hx : x.name = recordName c
    · simp [hx, hname]
    · simp [hx]

theorem Moved.move (h : s.Moved r) (m : Move) : (s.move m).Moved r := by
  refine ⟨(s.move_change m).used h.1, fun r' hr' => ?_⟩
  rcases (s.move_change m).record hr' with hsame | hnew | ⟨r₀, hr₀, hdigest, hrevision⟩
  · exact h.2 r' hsame
  · exact .inr fun heq => hnew (heq ▸ h.1)
  · rcases h.2 r₀ hr₀ with hlt | hne
    · exact .inl (Int.lt_trans hlt hrevision)
    · exact .inr (hdigest ▸ hne)

theorem Seen.move (h : s.Seen r) (m : Move) : (s.move m).Seen r := by
  refine ⟨(s.move_change m).used h.1, ?_⟩
  rcases h.2 with hstored | hmoved
  · by_cases hstill : (s.move m).record r.connector = some r
    · exact .inl hstill
    refine .inr ⟨(s.move_change m).used h.1, fun r' hr' => ?_⟩
    rcases (s.move_change m).record hr' with hsame | hnew | ⟨r₀, hr₀, hdigest, hrevision⟩
    · obtain rfl := mem_unique hstored hsame
      exact absurd hr' hstill
    · exact .inr fun heq => hnew (heq ▸ h.1)
    · obtain rfl := mem_unique hstored hr₀
      exact .inl hrevision
  · exact .inr (hmoved.move m)

theorem Sound.seen (hs : s.Sound) (h : s.record r.connector = some r) : s.Seen r := ⟨hs.digest_used h, .inl h⟩

end

theorem Moved.not_sameGrant {r cur : Record} (h : s.Moved r) (hcur : s.record r.connector = some cur) :
    r.sameGrant cur = false := by
  refine decide_eq_false fun hsame => ?_
  rcases h.2 cur hcur with hlt | hne
  · exact absurd hsame.1 (Int.ne_of_gt hlt)
  · exact hne hsame.2.2

/-! ### The authority's requests -/

/-- An update is made from an object that was read, and not retired then. -/
def Lawful (s : Server) (q : Query) : Prop :=
  ∀ t, q = .update t → ∃ u, s.Knows u ∧ u.retired = false ∧ t.ns = u.ns ∧ t.name = u.name ∧ t.uid = u.uid ∧
    t.version = u.version

theorem service_mem_put (hold : old ∈ s.services) : s.stamped t ∈ (s.putService old.version t).services :=
  mem_map.mpr ⟨old, hold, if_pos rfl⟩

theorem writes_cases {α : Type} (c : Choice) (failed : α) (ok : α × Server) :
    (c.writes s failed ok = (failed, s) ∧ c.fails) ∨ (c.writes s failed ok = (failed, ok.2) ∧ c.fails) ∨
      (c.writes s failed ok = ok ∧ c.fails = false) := by
  unfold Choice.writes
  cases hfails : c.fails with
  | false => exact .inr (.inr ⟨if_neg Bool.false_ne_true, rfl⟩)
  | true =>
    cases c.lost with
    | false => exact .inr (.inl ⟨rfl, rfl⟩)
    | true => exact .inl ⟨rfl, rfl⟩

theorem Lawful.allows (h : s.Lawful (.update t)) (hfind : s.service t.ns t.name = some old)
    (hversion : old.version = t.version) : allows old t := by
  obtain ⟨u, hknows, hret, hns, hname, huid, hver⟩ := h t rfl
  obtain rfl := hknows.same old (mem_service hfind).1 (hversion.trans hver)
  exact allows_iff.mpr ⟨hns, hname, huid, fun hold => Bool.noConfusion (hret.symm.trans hold)⟩

theorem answer_moves {q : Query} (h : s.Lawful q) (c : Choice) : ∃ ms, (s.answer c q).2 = world.moved s ms := by
  have hwrites : ∀ {α : Type} (failed : α) (ok : α × Server), (∃ ms, ok.2 = world.moved s ms) →
      ∃ ms, (c.writes s failed ok).2 = world.moved s ms := by
    intro α failed ok hok
    rcases writes_cases c failed ok with ⟨heq, -⟩ | ⟨heq, -⟩ | ⟨heq, -⟩ <;> rw [heq]
    · exact ⟨[], rfl⟩
    · exact hok
    · exact hok
  cases q with
  | create t =>
    unfold answer
    dsimp only
    split_ifs
    · exact ⟨[], rfl⟩
    · exact hwrites _ _ ⟨[.add t], rfl⟩
  | update t =>
    unfold answer
    dsimp only
    cases hfind : s.service t.ns t.name with
    | none => exact ⟨[], rfl⟩
    | some old =>
      dsimp only
      split
      · exact ⟨[], rfl⟩
      next hstale =>
      refine hwrites _ _ ⟨[.change t], ?_⟩
      have hallows := h.allows hfind (not_not.mp (not_or.mp hstale).2)
      show s.putService old.version t = s.changeService t
      unfold changeService
      rw [hfind]
      exact (if_pos hallows).symm
  | delete t =>
    unfold answer
    dsimp only
    cases hfind : s.service t.ns t.name with
    | none => exact ⟨[], rfl⟩
    | some old =>
      dsimp only
      split_ifs
      · exact ⟨[], rfl⟩
      · exact hwrites _ _ ⟨[.change { old with deleting := true }], rfl⟩
      · exact hwrites _ _ ⟨[.remove old.uid], rfl⟩
  | now | listSecrets | getSecret | getVPC | readLedger | listServices | getService => exact ⟨[], rfl⟩

end Server

end Galactic.Masque
