import Galactic.Masque.Ledger
import Galactic.Lib.FallibleLoop

/-!
# What the ledger hands out

Entry number `i` of a ledger holds the `i + 1`-st `/96` and `/120` of its ranges, which is why no two overlap; a change
appends an entry for a connector that has none, or retires one. -/

namespace Galactic.Masque

open Net List Masque.System IP Option Nat Prod Except UInt64

/-! ### Addresses of the entries -/

/-- A masked IPv6 `/80`. -/
def IsRange (p : Prefix) : Prop := p.bits? = some rangeBits ∧ p.addr.is6 = true ∧ p = p.masked

theorem number_append (a b : IP) : number (a ++ b) = 256 ^ b.length * number a + number b := by
  unfold number
  rw [reverse_append, ByteWord.value_append, length_reverse, add_comm]

variable {a : Addr}

theorem as16_of_is6 (h : a.is6) : a.as16 = a.bytes := by
  cases a with
  | zero => cases h
  | v4 b => cases h
  | v6 b z => rfl

theorem number_withIndex (h6 : a.is6) {n : UInt64} (hn : a.number % 2 ^ 64 + n.toNat < 2 ^ 64) :
    (withIndex a n).number = a.number + n.toNat := by
  have hlen := a.length_as16
  have hsplit : a.number = 256 ^ 8 * number (a.as16.take 8) + number (a.as16.drop 8) := by
    have := number_append (a.as16.take 8) (a.as16.drop 8)
    rw [take_append_drop, length_drop, hlen, as16_of_is6 h6] at this
    rw [Addr.number, this, as16_of_is6 h6]
  have hlo : (ByteWord.Endian.big.uint64 (a.as16.drop 8)).toNat = number (a.as16.drop 8) :=
    ByteWord.Endian.toNat_uint64 _ (by rw [length_drop, hlen])
  have hlt : number (a.as16.drop 8) < 256 ^ 8 := by
    have := number_lt (a.as16.drop 8)
    rwa [length_drop, hlen] at this
  have hword : (ByteWord.Endian.big.uint64 (a.as16.drop 8) + n).toNat = number (a.as16.drop 8) + n.toNat := by
    rw [UInt64.toNat_add, hlo]
    omega
  change number (a.as16.take 8 ++ ByteWord.bigEndian64 _) = _
  rw [number_append, number, number, ByteWord.value_bigEndian64, hword, hsplit]
  change 256 ^ 8 * number _ + _ = _
  omega

variable {n : Nat} {p : Prefix} {k : UInt64}

theorem offset_lt (hn : n < 2 ^ 16) (hk : k.toNat ≤ 32) : n * 2 ^ k.toNat < 2 ^ 48 :=
  calc n * 2 ^ k.toNat ≤ n * 2 ^ 32 := Nat.mul_le_mul_left n (Nat.pow_le_pow_right (by omega) hk)
    _ < 2 ^ 48 := by omega

theorem number_block (hp : IsRange p) (hn : n < 2 ^ 16) (hk : k.toNat ≤ 32) :
    (withIndex p.addr (UInt64.ofNat n <<< k)).number = p.addr.number + n * 2 ^ k.toNat := by
  have hdvd := Prefix.number_of_masked hp.1 hp.2.1 hp.2.2
  have hsmall := offset_lt hn hk
  have hshift : (UInt64.ofNat n <<< k).toNat = n * 2 ^ k.toNat := by
    rw [UInt64.toNat_shiftLeft, UInt64.toNat_ofNat', Nat.mod_eq_of_lt (a := n) (by omega),
      Nat.mod_eq_of_lt (a := k.toNat) (by omega), Nat.shiftLeft_eq, Nat.mod_eq_of_lt (by omega)]
  rw [number_withIndex hp.2.1, hshift]
  obtain ⟨m, hm⟩ := hdvd
  change p.addr.number = 2 ^ 48 * m at hm
  omega

def block (p : Prefix) (n : Nat) (k : UInt64) : Prefix := Prefix.ofAddr (withIndex p.addr (UInt64.ofNat n <<< k))
  (128 - k.toNat)

theorem bits_block (p : Prefix) (n : Nat) (k : UInt64) : (block p n k).bits? = some (128 - k.toNat) := by
  refine if_pos ⟨?_, ?_⟩
  · simp [withIndex]
  · exact sub_le 128 _

theorem block_disjoint (hp : IsRange p) {m : Nat} (hn : n < 2 ^ 16) (hm : m < 2 ^ 16) (hne : n ≠ m) (hk : k.toNat ≤ 32)
    (a : Addr) : ¬ ((block p n k).contains a ∧ (block p m k).contains a) := by
  apply Prefix.disjoint_of_number (bits_block p n k) (bits_block p m k) rfl rfl
  rw [Nat.sub_sub_self (by omega)]
  change (withIndex p.addr _).number / _ ≠ (withIndex p.addr _).number / _
  rw [number_block hp hn hk, number_block hp hm hk, Nat.add_mul_div_right _ _ (by positivity),
    Nat.add_mul_div_right _ _ (by positivity)]
  omega

theorem block_inside (hp : IsRange p) (hn : n < 2 ^ 16) (hk : k.toNat ≤ 32) (ha : (block p n k).contains a) :
    p.contains a := by
  refine Prefix.inside_of_number (bits_block p n k) hp.1 rfl hp.2.1 (by unfold rangeBits; omega) ?_ ha
  change (withIndex p.addr _).number / 2 ^ 48 = _ / 2 ^ 48
  obtain ⟨m, hm⟩ := Prefix.number_of_masked hp.1 hp.2.1 hp.2.2
  change p.addr.number = 2 ^ 48 * m at hm
  have hsmall := offset_lt hn hk
  rw [number_block hp hn hk, hm]
  omega

/-! ### Ledgers that only grow -/

def Entry.Ages (e e' : Entry) : Prop := e' = e ∨ e.retired = false ∧ e' = { e with retired := true }

/-- Every entry is still at its place and unchanged, except that live ones may have been retired. -/
def Keeps (es es' : List Entry) : Prop := ∀ (i : Nat) (e : Entry), es[i]? = some e → ∃ e', es'[i]? = some e' ∧ e.Ages e'

/-- The entries stand at their places, one for each connector. -/
structure Ledger.Sound (l : Ledger) : Prop where
  connectors : IsRange l.connectors
  pools : IsRange l.pools
  bound : l.entries.length ≤ maxEntries
  place : ∀ i e, l.entries[i]? = some e → e.pfx = block l.connectors (i + 1) 32 ∧ e.pool = block l.pools (i + 1) 8
  once : (l.entries.map Entry.connector).Nodup

inductive Ledger.Next (l : Ledger) : Ledger → Prop
  | allocated (connector : String) (t : Stamp) (hnew : l.lookup connector = none)
      (hroom : l.entries.length < maxEntries) :
      Next l { l with entries := l.entries ++ [l.newEntry connector t] }
  | retired (before after : List Entry) (e : Entry) (hsplit : l.entries = before ++ e :: after)
      (hlive : e.retired = false) :
      Next l { l with entries := before ++ { e with retired := true } :: after }

theorem Entry.Ages.refl (e : Entry) : e.Ages e := .inl rfl

variable {e e' : Entry}

theorem Entry.Ages.connector (h : e.Ages e') : e'.connector = e.connector := by
  rcases h with rfl | ⟨-, rfl⟩ <;> rfl

variable {e'' : Entry}

theorem Entry.Ages.trans (h : e.Ages e') (h' : e'.Ages e'') : e.Ages e'' := by
  rcases h with rfl | ⟨hlive, rfl⟩
  · exact h'
  · rcases h' with rfl | ⟨hlive', -⟩
    · exact .inr ⟨hlive, rfl⟩
    · cases hlive'

theorem Entry.Ages.unique (h : e.Ages e'') (h' : e'.Ages e'') (hlive : e.retired = false)
    (hlive' : e'.retired = false) : e = e' := by
  rcases e with ⟨_, _, _, _, _, r⟩
  rcases e' with ⟨_, _, _, _, _, r'⟩
  obtain rfl : r = false := hlive
  obtain rfl : r' = false := hlive'
  rcases h with rfl | ⟨-, rfl⟩
  · rcases h' with h' | ⟨-, h'⟩
    · exact h'
    · exact absurd (congrArg Entry.retired h') (by simp)
  · rcases h' with h' | ⟨-, h'⟩
    · exact absurd (congrArg Entry.retired h') (by simp)
    · simpa using h'

theorem Keeps.refl (es : List Entry) : Keeps es es := fun _ e he => ⟨e, he, Entry.Ages.refl e⟩

variable {es es' : List Entry}

theorem Keeps.trans {es'' : List Entry} (h : Keeps es es') (h' : Keeps es' es'') : Keeps es es'' := by
  intro i e he
  obtain ⟨e', he', hages⟩ := h i e he
  obtain ⟨e'', he'', hages'⟩ := h' i e' he'
  exact ⟨e'', he'', hages.trans hages'⟩

theorem Keeps.mem (h : Keeps es es') (he : e ∈ es) : ∃ e' ∈ es', e.Ages e' := by
  obtain ⟨i, hi⟩ := List.getElem?_of_mem he
  obtain ⟨e', he', hages⟩ := h i e hi
  exact ⟨e', mem_of_getElem? he', hages⟩

theorem keeps_append (es new : List Entry) : Keeps es (es ++ new) := by
  intro i e he
  refine ⟨e, ?_, Entry.Ages.refl e⟩
  rw [List.getElem?_append_left (List.getElem?_eq_some_iff.mp he).1, he]

theorem keeps_retired (before after : List Entry) (hlive : e.retired = false) :
    Keeps (before ++ e :: after) (before ++ { e with retired := true } :: after) := by
  intro i d hd
  rcases Nat.lt_trichotomy i before.length with hlt | heq | hgt
  · rw [List.getElem?_append_left hlt] at hd ⊢
    exact ⟨d, hd, Entry.Ages.refl d⟩
  · subst heq
    rw [getElem?_append_right (Nat.le_refl _), Nat.sub_self] at hd ⊢
    obtain rfl : e = d := by simpa using hd
    exact ⟨_, rfl, .inr ⟨hlive, rfl⟩⟩
  · obtain ⟨k, hk⟩ : ∃ k, i - before.length = k + 1 := ⟨i - before.length - 1, by omega⟩
    rw [getElem?_append_right (by omega), hk] at hd ⊢
    exact ⟨d, hd, Entry.Ages.refl d⟩

variable {l l' : Ledger}

theorem Ledger.Next.keeps (h : l.Next l') : Keeps l.entries l'.entries := by
  cases h with
  | allocated connector t hnew hroom => exact keeps_append _ _
  | retired before after e hsplit hlive =>
    rw [hsplit]
    exact keeps_retired before after hlive

variable {connector : String}

theorem lookup_eq_none : l.lookup connector = none ↔ connector ∉ l.entries.map Entry.connector := by
  simp [Ledger.lookup, find?_eq_none]

theorem lookup_eq_some (h : l.lookup connector = some e) : e ∈ l.entries ∧ e.connector = connector :=
  ⟨mem_of_find?_eq_some h, by simpa using find?_some h⟩

theorem Ledger.Sound.next (hl : l.Sound) (h : l.Next l') : l'.Sound := by
  cases h with
  | allocated connector t hnew hroom =>
    refine ⟨hl.connectors, hl.pools, ?_, ?_, ?_⟩
    · rw [length_append]
      exact hroom
    · intro i e he
      rcases lt_or_ge i l.entries.length with hlt | hge
      · rw [List.getElem?_append_left hlt] at he
        exact hl.place i e he
      rw [getElem?_append_right hge, getElem?_singleton] at he
      split_ifs at he with hi
      obtain rfl : i = l.entries.length := by omega
      cases he
      exact ⟨rfl, rfl⟩
    · rw [map_append, nodup_append]
      refine ⟨hl.once, nodup_singleton _, ?_⟩
      intro c hc d hd hcd
      rw [mem_singleton.mp hd] at hcd
      obtain rfl : c = connector := hcd
      exact lookup_eq_none.mp hnew hc
  | retired before after e hsplit hlive =>
    have hmap :
        (before ++ { e with retired := true } :: after).map Entry.connector = l.entries.map Entry.connector := by
      rw [hsplit, map_append, map_append]
      rfl
    refine ⟨hl.connectors, hl.pools, ?_, ?_, ?_⟩
    · have := hl.bound
      rw [hsplit, length_append] at this
      rw [length_append]
      exact this
    · intro i d hd
      obtain ⟨d', hd', hages⟩ : ∃ d', l.entries[i]? = some d' ∧ d'.Ages d := by
        have hlen : i < l.entries.length := by
          have := (List.getElem?_eq_some_iff.mp hd).1
          rw [hsplit]
          simpa using this
        obtain ⟨d', hd'⟩ : ∃ d', l.entries[i]? = some d' := ⟨_, getElem?_eq_getElem hlen⟩
        obtain ⟨d'', hd'', hages⟩ := keeps_retired before after hlive i d' (by rw [← hsplit, hd'])
        obtain rfl : d = d'' := mem_unique hd hd''
        exact ⟨d', hd', hages⟩
      obtain ⟨hp, hq⟩ := hl.place i d' hd'
      rcases hages with rfl | ⟨-, rfl⟩ <;> exact ⟨hp, hq⟩
    · rw [hmap]
      exact hl.once

theorem Ledger.Sound.eq_of_connector (hl : l.Sound) (he : e ∈ l.entries) (he' : e' ∈ l.entries)
    (h : e.connector = e'.connector) : e = e' :=
  inj_on_of_nodup_map hl.once he he' h

/-! ### What a call computes -/

/-- What a successful call returns: `Allocate` a live entry of its connector for which `P` holds, `Retire` nothing. -/
def Op.Answers (P : Entry → Prop) : Op → Option Entry → Prop
  | .allocate _ _ connector, out => ∃ e, out = some e ∧ e.connector = connector ∧ e.retired = false ∧ P e
  | .retire _ _ _, out => out = none

theorem Op.Answers.imp {P Q : Entry → Prop} (hPQ : ∀ e, P e → Q e) {op : Op} {out : Option Entry}
    (h : op.Answers P out) : op.Answers Q out := by
  cases op with
  | allocate u v connector =>
    obtain ⟨e, rfl, hconn, hlive, he⟩ := h
    exact ⟨e, rfl, hconn, hlive, hPQ e he⟩
  | retire => exact h

theorem retireFirst_eq_some (h : retireFirst connector es = some es') : ∃ before e after, es = before ++ e :: after ∧
    e.retired = false ∧ es' = before ++ { e with retired := true } :: after := by
  induction es generalizing es' with
  | nil => cases h
  | cons e es ih =>
    rw [retireFirst] at h
    split_ifs at h with hc
    · cases h
      exact ⟨[], e, es, rfl, hc.2, rfl⟩
    · obtain ⟨rest, hrest, rfl⟩ := map_eq_some_iff.mp h
      obtain ⟨before, d, after, rfl, hd, rfl⟩ := ih hrest
      exact ⟨e :: before, d, after, rfl, hd, rfl⟩

section
variable {op : Op} {t : Stamp} {out : Option Entry}

theorem change_none (h : op.change t l = .ok (none, out)) : op.Answers (· ∈ l.entries) out := by
  cases op with
  | allocate u c connector =>
    simp only [Op.change, Ledger.allocate] at h
    split at h
    · rename_i d hd
      split_ifs at h with hr
      obtain ⟨-, rfl⟩ := mk.inj (ok.inj h)
      exact ⟨d, rfl, (lookup_eq_some hd).2, by simpa using hr, (lookup_eq_some hd).1⟩
    · split_ifs at h
      exact nomatch (mk.inj (ok.inj h)).1
  | retire u c connector => exact (mk.inj (ok.inj h)).2.symm

theorem change_some {l l' : Ledger} (h : op.change t l = .ok (some l', out)) :
    l.Next l' ∧ op.Answers (· ∈ l'.entries) out := by
  cases op with
  | allocate u c connector =>
    simp only [Op.change, Ledger.allocate] at h
    split at h
    · split_ifs at h
      exact nomatch (mk.inj (ok.inj h)).1
    rename_i hnew
    split_ifs at h with hfull
    obtain ⟨hl, rfl⟩ := mk.inj (ok.inj h)
    cases hl
    exact ⟨.allocated connector t hnew (by omega), _, rfl, rfl, rfl, mem_concat_self⟩
  | retire u c connector =>
    obtain ⟨hl, rfl⟩ := mk.inj (ok.inj h)
    obtain ⟨es, hes, rfl⟩ := map_eq_some_iff.mp hl
    obtain ⟨before, e, after, hsplit, hlive, rfl⟩ := retireFirst_eq_some hes
    exact ⟨.retired before after e hsplit hlive, rfl⟩

theorem change_retired (hl : l.Sound) {e : Entry} (he : e ∈ l.entries) (hr : e.retired) (u c : String) (t : Stamp) :
    (Op.allocate u c e.connector).change t l = .error (.retiredConnector e.connector) := by
  have hlookup : l.lookup e.connector = some e := by
    cases hd : l.lookup e.connector with
    | none => exact absurd (mem_map_of_mem he) (lookup_eq_none.mp hd)
    | some d =>
      obtain ⟨hmem, hconn⟩ := lookup_eq_some hd
      rw [hl.eq_of_connector hmem he hconn]
  simp only [Op.change, Ledger.allocate, hlookup, hr, if_true]

end

section Calls

variable {encoded : Ledger → Option Nat}

theorem attempt_ok {failure : Option LedgerError} {t : Stamp} {op : Op}
    {r : Option Ledger × Option Entry} (h : op.attempt encoded failure t l = .ok r) : op.change t l = .ok r := by
  revert h
  fun_cases Op.attempt encoded failure t l op with
  | case1 | case2 | case3 => nofun
  | case4 hwrong out hchange =>
    rintro ⟨⟩
    exact hchange
  | case5 hwrong l' out hchange =>
    intro h
    cases hencode : encodeLedger encoded l' <;> rw [hencode] at h <;> cases h
    exact hchange

/-! ### Runs -/

/-- A call's write is on its way with the answer in it; what it returned is an entry of the ledger, or was one before
its retirement. -/
def Call.Sound (store : Cas.Store Ledger) (c : Call) : Prop :=
  match c.phase with
  | .reading => True
  | .waiting k out => ∃ r, store.requests[k]? = some r ∧ c.op.Answers (· ∈ r.value.entries) out
  | .done (.error _) => True
  | .done (.ok out) => c.op.Answers (fun e => ∃ e' ∈ store.cell.value.entries, e.Ages e') out

structure Later (store store' : Cas.Store Ledger) : Prop where
  requests : ∀ (k : Nat) (r : Cas.Request Ledger), store.requests[k]? = some r →
    ∃ r', store'.requests[k]? = some r' ∧ r'.value = r.value
  entries : Keeps store.cell.value.entries store'.cell.value.entries

structure System.Inv (s : System) : Prop where
  sound : s.store.cell.value.Sound
  fresh : s.store.Fresh Ledger.Next
  calls : ∀ c ∈ s.calls, c.Sound s.store

theorem Later.refl (store : Cas.Store Ledger) : Later store store := ⟨fun _ r hr => ⟨r, hr, rfl⟩, Keeps.refl _⟩

theorem later_send (store : Cas.Store Ledger) (l : Ledger) : Later store (store.send l) :=
  ⟨fun _ r hr => ⟨r, Cas.Store.request_send hr l, rfl⟩, Keeps.refl _⟩

variable {store : Cas.Store Ledger}

theorem later_deliver (h : store.Fresh Ledger.Next) (k : Nat) : Later store (store.deliver k) := by
  refine ⟨fun i r hr => Cas.Store.request_deliver hr, ?_⟩
  rcases h.deliver_value k with heq | hnext
  · rw [heq]
    exact Keeps.refl _
  · exact hnext.keeps

variable {c : Call}

theorem Call.Sound.later {store' : Cas.Store Ledger} (h : c.Sound store) (hlater : Later store store') :
    c.Sound store' := by
  rcases c with ⟨op, left, _ | ⟨k, out⟩ | e | out⟩
  · trivial
  · obtain ⟨r, hr, hout⟩ := h
    obtain ⟨r', hr', hvalue⟩ := hlater.requests k r hr
    exact ⟨r', hr', by rwa [hvalue]⟩
  · trivial
  · refine Op.Answers.imp (fun e he => ?_) h
    obtain ⟨e', he', hages⟩ := he
    obtain ⟨e'', he'', hages'⟩ := hlater.entries.mem he'
    exact ⟨e'', he'', hages.trans hages'⟩

theorem keeps_of_chain {l' : Ledger} (h : Relation.ReflTransGen Ledger.Next l l') : Keeps l.entries l'.entries := by
  induction h with
  | refl => exact Keeps.refl _
  | tail _ hnext ih => exact ih.trans hnext.keeps

variable {s s' : System}

variable {i : Nat}

theorem System.Inv.setPhase (h : s.Inv) {p : Phase} (hc : Call.Sound s.store { c with phase := p }) :
    (s.setPhase i c p).Inv := by
  refine ⟨h.sound, h.fresh, fun d hd => ?_⟩
  rcases mem_or_eq_of_mem_set hd with hd | rfl
  · exact h.calls d hd
  · exact hc

theorem System.Inv.read (h : s.Inv) (i : Nat) (failure : Option LedgerError) (t : Stamp) (c : Call) :
    (s.read encoded i failure t c).Inv ∧ Later s.store (s.read encoded i failure t c).store := by
  unfold System.read
  rcases hattempt : c.op.attempt encoded failure t s.store.cell.value with e | ⟨_ | l, out⟩
  · exact ⟨h.setPhase trivial, Later.refl _⟩
  · refine ⟨h.setPhase ?_, Later.refl _⟩
    exact (change_none (attempt_ok hattempt)).imp fun e hmem => ⟨e, hmem, Entry.Ages.refl e⟩
  obtain ⟨hnext, hout⟩ := change_some (attempt_ok hattempt)
  refine ⟨⟨h.sound, h.fresh.send hnext, fun d hd => ?_⟩, later_send _ _⟩
  rcases mem_or_eq_of_mem_set hd with hd | rfl
  · exact (h.calls d hd).later (later_send _ _)
  · exact ⟨_, Cas.Store.request_sent _ _, hout⟩

variable {r : Reply} {k : Nat} {out : Option Entry}

theorem System.Inv.reply (h : s.Inv) (hc : Call.Sound s.store { c with phase := .waiting k out })
    (hreply : s.reply i c k out r = some s') : s'.Inv ∧ s'.store = s.store := by
  cases r with
  | ok =>
    simp only [System.reply] at hreply
    split_ifs at hreply with hcommitted
    cases hreply
    obtain ⟨r, hr, hout⟩ := hc
    -- the write took effect, so the stored ledger came from the one it wrote
    have hkeeps := keeps_of_chain (h.fresh.past_of_committed hr hcommitted)
    exact ⟨h.setPhase (hout.imp fun _ he => hkeeps.mem he), rfl⟩
  | conflict =>
    simp only [System.reply] at hreply
    split_ifs at hreply
    · cases hreply
      exact ⟨h.setPhase trivial, rfl⟩
    · cases hreply
      exact ⟨h.setPhase trivial, rfl⟩
  | failed =>
    cases hreply
    exact ⟨h.setPhase trivial, rfl⟩

inductive System.Happens (encoded : Ledger → Option Nat) (s : System) : System → Prop
  | call (op : Op) : Happens encoded s { s with calls := s.calls ++ [⟨op, conflictRetries, .reading⟩] }
  | deliver (k : Nat) : Happens encoded s { s with store := s.store.deliver k }
  | read (i : Nat) (failure : Option LedgerError) (t : Stamp) (c : Call) (hc : s.calls[i]? = some c)
      (hphase : c.phase = .reading) : Happens encoded s (s.read encoded i failure t c)
  | reply (i k : Nat) (c : Call) (out : Option Entry) (r : Reply) (s' : System) (hc : s.calls[i]? = some c)
      (hphase : c.phase = .waiting k out) (hreply : s.reply i c k out r = some s') : Happens encoded s s'

theorem System.happens_of_step {ev : Event} (h : s.step encoded ev = some s') : s.Happens encoded s' := by
  cases ev with
  | call op =>
    cases h
    exact .call op
  | deliver k =>
    cases h
    exact .deliver k
  | read i failure t =>
    simp only [step] at h
    split at h
    · rename_i c hc
      split at h
      · rename_i hphase
        cases h
        exact .read i failure t c hc hphase
      · cases h
    · cases h
  | reply i r =>
    simp only [step] at h
    split at h
    · rename_i c hc
      split at h
      · rename_i k out hphase
        exact .reply i k c out r s' hc hphase h
      · cases h
    · cases h

theorem System.Inv.happens (h : s.Inv) (hstep : s.Happens encoded s') : s'.Inv ∧ Later s.store s'.store := by
  cases hstep with
  | call op =>
    refine ⟨⟨h.sound, h.fresh, forall_mem_append.mpr ⟨h.calls, forall_mem_singleton.mpr ?_⟩⟩, Later.refl _⟩
    trivial
  | deliver k =>
    have hlater := later_deliver h.fresh k
    refine ⟨⟨?_, h.fresh.deliver k, fun c hc => (h.calls c hc).later hlater⟩, hlater⟩
    rcases h.fresh.deliver_value k with heq | hnext
    · rw [heq]
      exact h.sound
    · exact h.sound.next hnext
  | read i failure t c hc hphase => exact h.read i failure t c
  | reply i k c out r s' hc hphase hreply =>
    have hsound := h.calls c (mem_of_getElem? hc)
    obtain ⟨hinv, hstore⟩ := h.reply (by rw [← hphase]; exact hsound) hreply
    rw [hstore]
    exact ⟨hinv, Later.refl _⟩

theorem System.run_induction {motive : System → Prop} (h : s.Inv) (h0 : motive s)
    (hstep : ∀ s s', s.Inv → motive s → s.Happens encoded s' → motive s') {events : List Event}
    (hrun : s.run encoded events = some s') : s'.Inv ∧ motive s' := by
  induction events generalizing s with
  | nil =>
    cases hrun
    exact ⟨h, h0⟩
  | cons ev events ih =>
    obtain ⟨s₁, hs₁, hrun⟩ := bind_eq_some_iff.mp hrun
    have hhappens := happens_of_step hs₁
    exact ih (h.happens hhappens).1 (hstep s s₁ h h0 hhappens) hrun

/-- The connector is retired, and what the call `i` has to say about it is a refusal. -/
structure System.Refuses (connector : String) (i : Nat) (s : System) : Prop where
  retired : ∃ e ∈ s.entries, e.connector = connector ∧ e.retired = true
  call : ∀ c u v, s.calls[i]? = some c → c.op = .allocate u v connector →
    c.phase = .reading ∨ ∃ err, c.phase = .done (.error err)

theorem retired_later (h : ∃ e ∈ s.entries, e.connector = connector ∧ e.retired) (hlater : Later s.store s'.store) :
    ∃ e ∈ s'.entries, e.connector = connector ∧ e.retired := by
  obtain ⟨e, he, hconn, hretired⟩ := h
  obtain ⟨e', he', rfl | ⟨hlive, -⟩⟩ := hlater.entries.mem he
  · exact ⟨e', he', hconn, hretired⟩
  · exact absurd hretired (by simp [hlive])

theorem System.calls_read (encoded : Ledger → Option Nat) (s : System) (i : Nat) (failure : Option LedgerError)
  (t : Stamp) (c : Call) :
    ∃ p, (s.read encoded i failure t c).calls = s.calls.set i { c with phase := p } ∧
      ∀ e, c.op.change t s.store.cell.value = .error e → ∃ e', p = .done (.error e') := by
  unfold read
  rcases hattempt : c.op.attempt encoded failure t s.store.cell.value with e | ⟨_ | l, out⟩
  · exact ⟨_, rfl, fun _ _ => ⟨e, rfl⟩⟩
  all_goals exact ⟨_, rfl, fun e he => nomatch (attempt_ok hattempt).symm.trans he⟩

theorem System.calls_reply (h : s.reply i c k out r = some s') :
    ∃ left p, s'.calls = s.calls.set i ⟨c.op, left, p⟩ := by
  cases r with
  | ok =>
    simp only [reply] at h
    split_ifs at h
    cases h
    exact ⟨_, _, rfl⟩
  | conflict =>
    simp only [reply] at h
    split_ifs at h
    all_goals
      cases h
      exact ⟨_, _, rfl⟩
  | failed =>
    cases h
    exact ⟨_, _, rfl⟩

theorem System.Refuses.happens (h : s.Refuses connector i) (hinv : s.Inv) (hstep : s.Happens encoded s') :
    s'.Refuses connector i := by
  refine ⟨retired_later h.retired (hinv.happens hstep).2, fun d u v hd hop => ?_⟩
  cases hstep with
  | call op =>
    rw [getElem?_append] at hd
    split_ifs at hd
    · exact h.call d u v hd hop
    rw [getElem?_singleton] at hd
    split_ifs at hd
    cases hd
    exact .inl rfl
  | deliver k => exact h.call d u v hd hop
  | read j failure t c hc hphase =>
    obtain ⟨p, hcalls, herror⟩ := s.calls_read encoded j failure t c
    rw [hcalls, getElem?_set] at hd
    split_ifs at hd with hij hlen
    · cases hd
      obtain ⟨e, he, rfl, hretired⟩ := h.retired
      obtain ⟨e', rfl⟩ := herror _ ((congrArg (Op.change t _) hop).trans (change_retired hinv.sound he hretired u v t))
      exact .inr ⟨e', rfl⟩
    · exact h.call d u v hd hop
  | reply j k c out r s' hc hphase hreply =>
    obtain ⟨left, p, hcalls⟩ := calls_reply hreply
    rw [hcalls, getElem?_set] at hd
    split_ifs at hd with hij hlen
    · subst hij
      cases hd
      -- a call about the retired connector is not waiting for a reply
      rcases h.call c u v hc hop with hreading | ⟨err, hdone⟩
      · exact nomatch hphase.symm.trans hreading
      · exact nomatch hphase.symm.trans hdone
    · exact h.call d u v hd hop

end Calls

/-! ### Created ledgers -/

section
variable {networks : List String} {w : InitWorld} {vpc : VPCRef} {cell : String} {connectors pools : Prefix}

theorem isRange_of_checkRange {selector : String} {p : Prefix} (h : checkRange networks selector p = .ok ()) :
    IsRange p := by
  unfold checkRange at h
  split_ifs at h with hbad
  push Not at hbad
  exact ⟨hbad.2.2.2.1, by simpa using hbad.2.1, hbad.2.2.2.2⟩

theorem initRanges_ok (h : initRanges w networks vpc cell connectors pools = .ok l) :
    IsRange connectors ∧ IsRange pools ∧ l = ⟨vpc, cell, connectors, pools, []⟩ := by
  obtain ⟨_, hconnectors, h⟩ := FallibleLoop.bind_eq_ok.mp h
  obtain ⟨_, hpools, h⟩ := FallibleLoop.bind_eq_ok.mp h
  split_ifs at h
  · obtain ⟨_, -, h⟩ := FallibleLoop.bind_eq_ok.mp h
    cases h
  · obtain ⟨_, -, h⟩ := FallibleLoop.bind_eq_ok.mp h
    exact ⟨isRange_of_checkRange hconnectors, isRange_of_checkRange hpools, (ok.inj h).symm⟩

theorem init_ok (h : init w vpc cell connectors pools = .ok l) :
    l.connectors = connectors ∧ l.pools = pools ∧ l.Sound := by
  unfold init at h
  split_ifs at h
  split at h
  · cases h
  · split_ifs at h
    obtain ⟨hconnectors, hpools, rfl⟩ := initRanges_ok h
    exact ⟨rfl, rfl, hconnectors, hpools, zero_le _, fun i e he => (nomatch he), nodup_nil⟩

theorem System.inv_start (h : l.Sound) : (start l).Inv :=
  ⟨h, ⟨fun _ hr => (nomatch hr), fun _ hr => (nomatch hr), fun _ hr => (nomatch hr)⟩, fun _ hc => (nomatch hc)⟩

end

variable {i : Nat} {s : System}

theorem System.result_eq {op : Op} {r : Except LedgerError (Option Entry)} (h : s.result i = some (op, r)) :
    ∃ left, s.calls[i]? = some ⟨op, left, .done r⟩ := by
  unfold result at h
  split at h
  · rename_i op' left r' hc
    cases h
    exact ⟨left, hc⟩
  · cases h

/-- The call has not read the ledger since it began or last met a conflict. -/
def System.NotRead (s : System) (i : Nat) : Prop := ∀ c, s.calls[i]? = some c → c.phase = .reading

theorem Ledger.Next.ranges (h : l.Next l') : l'.connectors = l.connectors ∧ l'.pools = l.pools := by
  cases h <;> exact ⟨rfl, rfl⟩

section
variable {field : Entry → Prefix}

theorem System.Inv.ranges {encoded : Ledger → Option Nat} {s s' : System} (h : s.Inv) (hstep : s.Happens encoded s') :
    s'.store.cell.value.connectors = s.store.cell.value.connectors ∧
      s'.store.cell.value.pools = s.store.cell.value.pools := by
  cases hstep with
  | call op => exact ⟨rfl, rfl⟩
  | deliver k =>
    rcases h.fresh.deliver_value k with heq | hnext
    · rw [heq]
      exact ⟨rfl, rfl⟩
    · exact hnext.ranges
  | read i failure t c hc hphase =>
    unfold System.read
    split <;> exact ⟨rfl, rfl⟩
  | reply i k c out r s' hc hphase hreply =>
    rw [(h.reply (by rw [← hphase]; exact h.calls c (mem_of_getElem? hc)) hreply).2]
    exact ⟨rfl, rfl⟩

section
variable (hl : l.Sound) (hp : IsRange p) (hk : k.toNat ≤ 32)
  (hfield : ∀ i e, l.entries[i]? = some e → field e = block p (i + 1) k)

include hl hp hk hfield

theorem Ledger.Sound.pairwise :
    l.entries.Pairwise fun e e' => ∀ a, ¬ ((field e).contains a ∧ (field e').contains a) := by
  rw [pairwise_iff_getElem]
  intro i j hi hj hij a
  have hbound := hl.bound
  unfold maxEntries at hbound
  rw [hfield i _ (getElem?_eq_getElem hi), hfield j _ (getElem?_eq_getElem hj)]
  exact block_disjoint hp (by omega) (by omega) (by omega) hk a

theorem Ledger.Sound.inside {e : Entry} (he : e ∈ l.entries) :
    (field e).bits? = some (128 - k.toNat) ∧ ∀ a, (field e).contains a → p.contains a := by
  obtain ⟨i, hi⟩ := List.getElem?_of_mem he
  have hlt := (List.getElem?_eq_some_iff.mp hi).1
  have hbound := hl.bound
  unfold maxEntries at hbound
  rw [hfield i e hi]
  exact ⟨bits_block p _ k, fun a ha => block_inside hp (by omega) hk ha⟩

end

end

theorem System.Inv.answer (h : s.Inv) {u v : String} {out : Option Entry}
    (hi : s.result i = some (.allocate u v connector, .ok out)) :
    ∃ e, out = some e ∧ e.connector = connector ∧ e.retired = false ∧ ∃ e' ∈ s.entries, e.Ages e' := by
  obtain ⟨left, hc⟩ := result_eq hi
  exact h.calls _ (mem_of_getElem? hc)

theorem System.Inv.same_entry (h : s.Inv) {j : Nat} {u v u' v' : String}
    (hi : s.result i = some (.allocate u v connector, .ok (some e)))
    (hj : s.result j = some (.allocate u' v' connector, .ok (some e'))) : e = e' := by
  obtain ⟨_, ⟨⟩, hconn, hlive, d, hd, hages⟩ := h.answer hi
  obtain ⟨_, ⟨⟩, hconn', hlive', d', hd', hages'⟩ := h.answer hj
  obtain rfl : d = d' := h.sound.eq_of_connector hd hd' (by rw [hages.connector, hages'.connector, hconn, hconn'])
  exact hages.unique hages' hlive hlive'

/-- **What the ledger hands out.** Blocks inside the ranges that are pairwise disjoint, for good; one entry for each
connector, which every successful `Allocate` for it returns; and nothing for a retired connector. -/
theorem allocations (encoded : Ledger → Option Nat) {w : InitWorld} {vpc : VPCRef} {cell : String}
    {connectors pools : Prefix} {l : Ledger} (hinit : init w vpc cell connectors pools = .ok l) {events : List Event}
    {s : System} (hrun : (start l).run encoded events = some s) :
    s.entries.Pairwise (fun e e' => ∀ a, ¬ (e.pfx.contains a = true ∧ e'.pfx.contains a = true)) ∧
    s.entries.Pairwise (fun e e' => ∀ a, ¬ (e.pool.contains a = true ∧ e'.pool.contains a = true)) ∧
    (∀ e ∈ s.entries,
      e.pfx.bits? = some 96 ∧ (∀ a, e.pfx.contains a = true → connectors.contains a = true) ∧
      e.pool.bits? = some 120 ∧ ∀ a, e.pool.contains a = true → pools.contains a = true) ∧
    (∀ more s', s.run encoded more = some s' → Keeps s.entries s'.entries) ∧
    (∀ i u v connector out, s.result i = some (.allocate u v connector, .ok out) →
      ∃ e, out = some e ∧ e.connector = connector ∧ e.retired = false ∧ ∃ e' ∈ s.entries, e.Ages e') ∧
    (∀ i j u v u' v' connector e e', s.result i = some (.allocate u v connector, .ok (some e)) →
      s.result j = some (.allocate u' v' connector, .ok (some e')) → e = e') ∧
    (s.entries.map Entry.connector).Nodup ∧
    ∀ e ∈ s.entries, e.retired = true → ∀ i, s.NotRead i → ∀ more s', s.run encoded more = some s' →
    ∀ u v r, s'.result i = some (.allocate u v e.connector, r) → ∃ err, r = .error err := by
  obtain ⟨hconnectors, hpools, hsound⟩ := init_ok hinit
  obtain ⟨hinv, hsame⟩ := run_induction
    (motive := fun s => s.store.cell.value.connectors = l.connectors ∧ s.store.cell.value.pools = l.pools)
    (inv_start hsound) ⟨rfl, rfl⟩ (fun s s' hs hranges hstep => by
      obtain ⟨hc, hp⟩ := hs.ranges hstep
      exact ⟨hc.trans hranges.1, hp.trans hranges.2⟩) hrun
  have hpfx := fun i e he => (hinv.sound.place i e he).1
  have hpool := fun i e he => (hinv.sound.place i e he).2
  refine ⟨hinv.sound.pairwise hinv.sound.connectors (by decide) hpfx,
    hinv.sound.pairwise hinv.sound.pools (by decide) hpool, fun e he => ?_, fun more s' hmore => ?_,
    fun i u v connector out hi => hinv.answer hi,
    fun i j u v u' v' connector e e' hi hj => hinv.same_entry hi hj, hinv.sound.once,
    fun e he hretired i hread more s' hmore u v r hr => ?_⟩
  · have h96 := hinv.sound.inside hinv.sound.connectors (by decide) hpfx he
    have h120 := hinv.sound.inside hinv.sound.pools (by decide) hpool he
    rw [hsame.1, hconnectors] at h96
    rw [hsame.2, hpools] at h120
    exact ⟨h96.1, h96.2, h120.1, h120.2⟩
  · exact (run_induction (motive := fun s' => Keeps s.entries s'.entries) hinv (Keeps.refl _)
      (fun s₁ s₂ hs hkeeps hstep => hkeeps.trans (hs.happens hstep).2.entries) hmore).2
  have hrefuses : s.Refuses e.connector i := ⟨⟨e, he, rfl, hretired⟩, fun c u v hc _ => .inl (hread c hc)⟩
  obtain ⟨-, hrefuses'⟩ := run_induction hinv hrefuses
    (fun s₁ s₂ hs h hstep => h.happens hs hstep) hmore
  obtain ⟨left, hc⟩ := result_eq hr
  rcases hrefuses'.call _ u v hc rfl with hreading | ⟨err, hdone⟩
  · cases hreading
  · exact ⟨err, (Phase.done.inj hdone)⟩

/-- The range `fd00:0:0:0:b::/80`. -/
def range80 (b : UInt8) : Prefix := Prefix.ofAddr (.v6 ⟨[0xfd, 0, 0, 0, 0, 0, 0, 0, 0, b, 0, 0, 0, 0, 0, 0], rfl⟩ "") 80

def oneVPC : InitWorld := ⟨some ("uid", ["fd00::/64"]), some [], some [], true⟩

def freshLedger : Ledger := ⟨⟨"ns", "vpc", "uid"⟩, "cell", range80 1, range80 2, []⟩

/-- Two connectors allocate at once: `b` meets a conflict and comes second, and the reply to `a` is lost; `a` asks
again and is retired. -/
def twoConnectors : List Event :=
  [.call (.allocate "uid" "cell" "a"), .call (.allocate "uid" "cell" "b"), .read 0 none ⟨"u0", 0⟩,
    .read 1 none ⟨"u1", 0⟩,
    .deliver 0, .deliver 1, .reply 0 .failed, .reply 1 .conflict, .read 1 none ⟨"u2", 0⟩, .deliver 2, .reply 1 .ok,
    .call (.allocate "uid" "cell" "a"), .read 2 none ⟨"u3", 0⟩, .call (.retire "uid" "cell" "a"),
      .read 3 none ⟨"u4", 0⟩,
    .deliver 3, .reply 3 .ok]

theorem allocations_twoConnectors : ∃ s, (start freshLedger).run (fun _ => some 0) twoConnectors = some s ∧
    s.entries.map (fun e => (e.connector, e.allocation, e.retired)) = [("a", "u0", true), ("b", "u2", false)] ∧
    s.entries.Pairwise (fun e e' => ∀ a, ¬ (e.pfx.contains a = true ∧ e'.pfx.contains a = true)) := by
  have hinit : init oneVPC ⟨"ns", "vpc", ""⟩ "cell" (range80 1) (range80 2) = .ok freshLedger := by decide +kernel
  obtain ⟨s, hs⟩ : ∃ s, (start freshLedger).run (fun _ => some 0) twoConnectors = some s :=
    Option.isSome_iff_exists.mp (by decide +kernel)
  have hentries : ((start freshLedger).run (fun _ => some 0) twoConnectors).map
      (fun s => s.entries.map fun e => (e.connector, e.allocation, e.retired)) =
      some [("a", "u0", true), ("b", "u2", false)] := by decide +kernel
  rw [hs] at hentries
  exact ⟨s, hs, Option.some.inj hentries, (allocations (fun _ => some 0) hinit hs).1⟩

end Galactic.Masque
