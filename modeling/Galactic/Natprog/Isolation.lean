import Galactic.Lib.Entries
import Galactic.Natprog.Sessions

/-!
# One port, one flow

Every row names a flow and stands under that flow's forward key or, with the port it names, under its reverse key; the
reverse key at a port is held by the flow that was last given the port. A packet keeps this as long as no tenant key can
be mistaken for a reverse key: forward and reverse rows share the table, a reverse key has both tenant fields zero, and
nothing stops a packet with the unspecified address as outer source from forging one. -/

namespace Galactic.Natprog
open Function Natprog.Flow Shard

variable {cfg : ShardConfig} {t : Table} {f g : Flow} {port : UInt16} {now : UInt32} {v : ConnValue}

/-- The flow's forward key looks like a reverse key: no tenant, and the shard's own address as destination. -/
def Flow.Forged (f : Flow) (cfg : ShardConfig) : Prop :=
  f.tenantArg = 0 ∧ f.usid = zeroAddr ∧ f.daddr = cfg.pubAddr f.family

instance (f : Flow) (cfg : ShardConfig) : Decidable (f.Forged cfg) := by unfold Flow.Forged; infer_instance

/-! ### Keys -/

theorem Family.byte_injective : Function.Injective Family.byte := by
  intro a b h
  cases a <;> cases b <;> first | rfl | exact absurd h (by decide)

theorem L4.proto_injective : Function.Injective L4.proto := by
  intro a b h
  cases a <;> cases b <;> first | rfl | exact absurd h (by decide)

theorem L4.replyProto_injective (fam : Family) : Function.Injective (L4.replyProto fam) := by
  intro a b h
  cases fam <;> cases a <;> cases b <;> first | rfl | exact absurd h (by decide)

theorem Flow.fwdKey_injective : Function.Injective fwdKey := by
  intro a b h
  rcases a with ⟨fam, l4, arg, usid, saddr, sport, daddr, dport⟩
  rcases b with ⟨fam', l4', arg', usid', saddr', sport', daddr', dport'⟩
  simp only [fwdKey, ConnKey.mk.injEq] at h
  obtain ⟨hfam, hl4, rfl, rfl, rfl, rfl, rfl, rfl⟩ := h
  obtain rfl := Family.byte_injective hfam
  obtain rfl := L4.proto_injective hl4
  rfl

theorem Flow.fwdKey_ne_revKey (hf : ¬ f.Forged cfg) (g : Flow) (port : UInt16) : f.fwdKey ≠ g.revKey cfg port := by
  intro h
  simp only [fwdKey, revKey, ConnKey.mk.injEq] at h
  obtain ⟨hfam, -, harg, -, -, -, hdaddr, husid⟩ := h
  rw [← Family.byte_injective hfam] at hdaddr
  exact hf ⟨harg, husid, hdaddr⟩

@[simp] theorem Flow.revKey_with (f : Flow) (port port' : UInt16) :
    { f.revKey cfg port with dport := port' } = f.revKey cfg port' := rfl

theorem Flow.revKey_port {port' : UInt16} (h : f.revKey cfg port = g.revKey cfg port') : port = port' :=
  congrArg ConnKey.dport h

theorem Flow.eq_of_owns {port' : UInt16} (hkey : f.revKey cfg port = g.revKey cfg port') (hv : v.forwardKey = g.fwdKey)
    (howns : ownsSession v f.fwdKey) : f = g := by
  have hfam : f.family = g.family := Family.byte_injective (congrArg ConnKey.family hkey)
  have hl4 : f.l4 = g.l4 := L4.replyProto_injective f.family (by
    have := congrArg ConnKey.proto hkey
    simp only [revKey] at this
    rw [this, hfam])
  have hdport : f.dport = g.dport := congrArg ConnKey.sport hkey
  simp only [ownsSession, decide_eq_true_eq] at howns
  obtain ⟨hsport, harg, hsaddr, husid, hdaddr⟩ := howns
  rcases f with ⟨fam, l4, arg, usid, saddr, sport, daddr, dport⟩
  rcases g with ⟨fam', l4', arg', usid', saddr', sport', daddr', dport'⟩
  simp only [ConnValue.forwardKey, fwdKey, ConnKey.mk.injEq] at hv hsport harg hsaddr husid hdaddr hfam hl4 hdport
  obtain ⟨-, -, harg', hsport', -, hsaddr', hdaddr', husid'⟩ := hv
  simp only [Flow.mk.injEq]
  exact ⟨hfam, hl4, harg.symm.trans harg', husid.symm.trans husid', hsaddr.symm.trans hsaddr',
    hsport.symm.trans hsport',
    hdaddr.symm.trans hdaddr', hdport⟩

theorem forwardKey_newSession (f : Flow) (now : UInt32) (tcpFlags : UInt8) (port : UInt16) :
    ({ newSession f.fwdKey now tcpFlags with shardPort := port } : ConnValue).forwardKey = f.fwdKey := rfl

theorem owns_of_forwardKey (h : v.forwardKey = f.fwdKey) : ownsSession v f.fwdKey := by
  rw [← h]
  simp [ownsSession, ConnValue.forwardKey]

/-! ### Times -/

theorem sessionExpired_of_lastSeen (h : v.lastSeen = now) : sessionExpired v now = false := by
  unfold sessionExpired
  rw [h, UInt32.sub_self]
  simp

theorem sessionExpired_of_le {now' : UInt32} (hseen : v.lastSeen ≤ now) (hnow : now ≤ now')
    (h : sessionExpired v now' = false) : sessionExpired v now = false := by
  simp only [sessionExpired, decide_eq_false_iff_not, UInt32.not_lt, UInt32.le_iff_toNat_le,
    UInt32.toNat_sub_of_le _ _ hseen, UInt32.toNat_sub_of_le _ _ (UInt32.le_trans hseen hnow)] at h ⊢
  rw [UInt32.le_iff_toNat_le] at hnow
  omega

theorem nowSec_mono {ns ns' : Nat} (h : ns ≤ ns') (hwrap : ns' / 1000000000 < 2 ^ 32) : nowSec ns ≤ nowSec ns' := by
  have hle := Nat.div_le_div_right (c := 1000000000) h
  rw [nowSec, nowSec, UInt32.le_iff_toNat_le, UInt32.toNat_ofNat_of_lt' hwrap,
    UInt32.toNat_ofNat_of_lt' (hle.trans_lt hwrap)]
  exact hle

/-! ### Rows and what a packet leaves alone -/

/-- Every row is a forward row of the flow it names or the reverse row of the flow that holds its port. -/
def Rows (cfg : ShardConfig) (t : Table) (holder : ConnKey → Option Flow) : Prop :=
  ∀ k v, t k = some v → ∃ f : Flow, ¬ f.Forged cfg ∧ v.forwardKey = f.fwdKey ∧
    (k = f.fwdKey ∨ k = f.revKey cfg v.shardPort ∧ holder k = some f)

/-- A live reverse row of the flow `g`. -/
def LiveRow (cfg : ShardConfig) (t : Table) (now : UInt32) (g : Flow) (port : UInt16) (v : ConnValue) : Prop :=
  t (g.revKey cfg port) = some v ∧ v.forwardKey = g.fwdKey ∧ sessionExpired v now = false

/-- No live reverse row of another flow than `f` is touched. -/
def Spares (cfg : ShardConfig) (now : UInt32) (f : Flow) (t t' : Table) : Prop :=
  ∀ g port v, g ≠ f → LiveRow cfg t now g port v → t' (g.revKey cfg port) = some v

theorem Spares.refl : Spares cfg now f t t := fun _ _ _ _ h => h.1

theorem Spares.trans {t' t'' : Table} (h : Spares cfg now f t t') (h' : Spares cfg now f t' t'') :
    Spares cfg now f t t'' :=
  fun g port v hg hlive => h' g port v hg ⟨h g port v hg hlive, hlive.2⟩

theorem spares_update_fwd (hg : ¬ g.Forged cfg) (r : Option ConnValue) : Spares cfg now f t (update t g.fwdKey r) := by
  intro g' port v _ hlive
  rw [update_of_ne (fwdKey_ne_revKey hg g' port).symm]
  exact hlive.1

theorem spares_update_rev {k : ConnKey} (r : Option ConnValue)
    (hk : ∀ g port v, g ≠ f → k = g.revKey cfg port → ¬ LiveRow cfg t now g port v) :
    Spares cfg now f t (update t k r) := by
  intro g port v hg hlive
  rw [update_of_ne]
  · exact hlive.1
  · intro h
    exact hk g port v hg h.symm hlive

section
variable {holder : ConnKey → Option Flow} (h : Rows cfg t holder)

include h

theorem Rows.update_none (k : ConnKey) : Rows cfg (update t k none) holder :=
  Entries.forall_update nofun fun k' _ => h k'

theorem Rows.update_rev (hf : ¬ f.Forged cfg) (hv : v.forwardKey = f.fwdKey) (hport : v.shardPort = port) :
    Rows cfg (update t (f.revKey cfg port) (some v)) (update holder (f.revKey cfg port) (some f)) := by
  refine Entries.forall_update (fun w hw => ?_) fun k hk w hw => ?_
  · cases hw
    exact ⟨f, hf, hv, .inr ⟨by rw [hport], update_self ..⟩⟩
  · rw [update_of_ne hk]
    exact h k w hw

theorem Rows.update_fwd (hf : ¬ f.Forged cfg) (hv : v.forwardKey = f.fwdKey) :
    Rows cfg (update t f.fwdKey (some v)) holder :=
  Entries.forall_update (fun _ hw => ⟨f, hf, Option.some.inj hw ▸ hv, .inl rfl⟩) fun k _ => h k

theorem Rows.at_rev (hv : t (f.revKey cfg port) = some v) :
    ∃ g : Flow, ¬ g.Forged cfg ∧ v.forwardKey = g.fwdKey ∧ f.revKey cfg port = g.revKey cfg port ∧ v.shardPort = port ∧
      holder (f.revKey cfg port) = some g := by
  obtain ⟨g, hg, hname, hkey | ⟨hkey, hholder⟩⟩ := h _ v hv
  · exact absurd hkey.symm (fwdKey_ne_revKey hg f port)
  · obtain rfl := revKey_port hkey
    exact ⟨g, hg, hname, hkey, rfl, hholder⟩

end

/-! ### One packet -/

/-- The outcome when the flow gets a port: its reverse row is live, others' live rows are as before, the rows are in
order with the flow as the port's holder, and no other row is new. -/
structure Gives (cfg : ShardConfig) (now : UInt32) (f : Flow) (port : UInt16) (holder : ConnKey → Option Flow)
    (t t' : Table) : Prop where
  live : ∃ v, LiveRow cfg t' now f port v
  spares : Spares cfg now f t t'
  rows : Rows cfg t' (update holder (f.revKey cfg port) (some f))
  frame : ∀ k w, t' k = some w → t k = some w ∨ w.lastSeen = now ∧ (k = f.fwdKey ∨ k = f.revKey cfg port)

variable {holder : ConnKey → Option Flow}

theorem gives_update (hrows : Rows cfg t holder) (hf : ¬ f.Forged cfg) (hname : v.forwardKey = f.fwdKey)
    (hport : v.shardPort = port) (hseen : v.lastSeen = now)
    (hfree : ∀ g w, g ≠ f → f.revKey cfg port = g.revKey cfg port → ¬ LiveRow cfg t now g port w) :
    Gives cfg now f port holder t (update t (f.revKey cfg port) (some v)) where
  live := ⟨v, update_self .., hname, sessionExpired_of_lastSeen hseen⟩
  spares := by
    apply spares_update_rev
    intro g port' w hg hkey
    obtain rfl := revKey_port hkey
    exact hfree g w hg hkey
  rows := hrows.update_rev hf hname hport
  frame := Entries.forall_update (fun _ hw => .inr ⟨Option.some.inj hw ▸ hseen, .inr rfl⟩) fun _ _ _ => .inl

theorem row_of_update_none {k k' : ConnKey} (h : update t k none k' = some v) : t k' = some v := by
  rcases eq_or_ne k' k with rfl | hne
  · rw [update_self] at h
    exact nomatch h
  · rwa [update_of_ne hne] at h

theorem dropForward_cases (t : Table) (rev : ConnKey) (v : ConnValue) :
    dropForward t rev v = t ∨ dropForward t rev v = update t v.forwardKey none := by
  unfold dropForward
  split
  · split_ifs
    · exact .inr rfl
    · exact .inl rfl
  · exact .inl rfl

theorem dropForward_spec (now : UInt32) (f : Flow) (hrows : Rows cfg t holder) (hg : ¬ g.Forged cfg)
    (hname : v.forwardKey = g.fwdKey) (rev : ConnKey) :
    Rows cfg (dropForward t rev v) holder ∧ Spares cfg now f t (dropForward t rev v) ∧
      ∀ (g' : Flow) (port : UInt16), dropForward t rev v (g'.revKey cfg port) = t (g'.revKey cfg port) := by
  rcases dropForward_cases t rev v with heq | heq
  · rw [heq]
    exact ⟨hrows, Spares.refl, fun _ _ => rfl⟩
  · rw [heq, hname]
    refine ⟨hrows.update_none _, spares_update_fwd hg none, fun g' port => ?_⟩
    rw [update_of_ne (fwdKey_ne_revKey hg g' port).symm]

section
variable {cv : ConnValue} {t' : Table} {p : UInt16}

theorem probe_spec (hrows : Rows cfg t holder) (hf : ¬ f.Forged cfg) (hname : cv.forwardKey = f.fwdKey)
    (hport : cv.shardPort = port) (hseen : cv.lastSeen = now) {taken : Bool}
    (h : probe t f.fwdKey (f.revKey cfg port) cv now = (t', taken)) :
    (taken = false ∧ t' = t) ∨ (taken ∧ Gives cfg now f port holder t t') := by
  unfold probe at h
  split at h
  · rename_i hfree
    cases h
    refine .inr ⟨rfl, gives_update hrows hf hname hport hseen fun g w _ hkey hlive => ?_⟩
    rw [LiveRow, ← hkey, hfree] at hlive
    exact nomatch hlive.1
  rename_i held hheld
  obtain ⟨g, hg, hheldName, hkey, hheldPort, -⟩ := hrows.at_rev hheld
  split_ifs at h with hlive howns
  · -- the flow's own live session, whose forward row was lost
    cases h
    obtain rfl := eq_of_owns hkey hheldName howns
    refine .inr ⟨rfl, gives_update hrows hf hheldName hheldPort rfl fun g' w hg' hkey' hlive' => ?_⟩
    rw [LiveRow, ← hkey', hheld] at hlive'
    obtain rfl := Option.some.inj hlive'.1
    exact hg' (fwdKey_injective (hlive'.2.1.symm.trans hheldName))
  · cases h
    exact .inl ⟨rfl, rfl⟩
  have hrelease : releaseSession t (f.revKey cfg port) held (f.revKey cfg port) = none := update_self ..
  rw [hrelease] at h
  cases h
  obtain ⟨hdrop, hspares, hsame⟩ := dropForward_spec now f hrows hg hheldName (f.revKey cfg port)
  rw [releaseSession, update_idem]
  have hgives := gives_update hdrop hf hname hport hseen fun g' w _ hkey' hlive' => by
    -- the only row there is the expired one
    rw [LiveRow, ← hkey', hsame, hheld] at hlive'
    obtain rfl := Option.some.inj hlive'.1
    exact hlive hlive'.2.2
  refine .inr ⟨rfl, hgives.live, hspares.trans hgives.spares, hgives.rows, fun k w hw => ?_⟩
  refine (hgives.frame k w hw).imp_left fun hw => ?_
  rcases dropForward_cases t (f.revKey cfg port) held with heq | heq <;> rw [heq] at hw
  · exact hw
  · exact row_of_update_none hw

theorem bswap16_ne_zero {x : UInt16} (hx : x ≠ 0) : bswap16 x ≠ 0 := by
  intro h
  have hn := congrArg UInt16.toNat h
  have hlt := x.toNat_lt
  rw [bswap16, UInt16.toNat_or, UInt16.toNat_shiftLeft, UInt16.toNat_shiftRight, UInt16.toNat_zero,
    Nat.or_eq_zero_iff] at hn
  simp only [UInt16.reduceToNat, Nat.reduceMod, Nat.shiftLeft_eq, Nat.shiftRight_eq_div_pow, Nat.reducePow] at hn
  exact hx (UInt16.toNat_inj.mp (by rw [UInt16.toNat_zero]; omega))

theorem candidate_ne_zero (hashBase : UInt32) (i : Nat) : candidate hashBase i ≠ 0 := by
  apply bswap16_ne_zero
  intro h
  have hn := congrArg UInt16.toNat h
  rw [UInt32.toNat_toUInt16, UInt32.toNat_add, UInt32.toNat_mod, UInt16.toNat_zero] at hn
  simp only [patPortBase, patPortRange, UInt32.reduceToNat] at hn
  omega

theorem claim_spec (hf : ¬ f.Forged cfg) (hname : cv.forwardKey = f.fwdKey) (hseen : cv.lastSeen = now)
    (hashBase : UInt32) (n i : Nat) {t : Table} (hrows : Rows cfg t holder)
    (h : claimMasqueradePort f.fwdKey (f.revKey cfg 0) cv hashBase now n i t = (t', p)) :
    (p = 0 ∧ t' = t) ∨ (p ≠ 0 ∧ Gives cfg now f p holder t t') := by
  induction n generalizing i t with
  | zero =>
    cases h
    exact .inl ⟨rfl, rfl⟩
  | succ n ih =>
    rw [claimMasqueradePort] at h
    obtain ⟨t₁, taken, hprobe⟩ : ∃ t₁ taken, probe t f.fwdKey (f.revKey cfg (candidate hashBase i))
        { cv with shardPort := candidate hashBase i } now = (t₁, taken) := ⟨_, _, rfl⟩
    simp only [revKey_with, hprobe] at h
    have hname' : ({ cv with shardPort := candidate hashBase i } : ConnValue).forwardKey = f.fwdKey := hname
    rcases probe_spec hrows hf hname' rfl hseen hprobe with ⟨rfl, rfl⟩ | ⟨rfl, hgives⟩
    · exact ih (i + 1) hrows h
    · cases h
      exact .inr ⟨candidate_ne_zero hashBase i, hgives⟩

theorem forwardKey_touch (v : ConnValue) (now : UInt32) (tcpFlags : UInt8) (inbound : Bool) :
    (touchSession v now tcpFlags inbound).forwardKey = v.forwardKey := rfl

theorem liveSession_some {fwd rev : ConnKey} {rv : ConnValue} (h : liveSession t fwd rev now = some (port, rv)) :
    ∃ existing, t fwd = some existing ∧ existing.shardPort = port ∧ t { rev with dport := port } = some rv ∧
      ownsSession rv fwd := by
  unfold liveSession at h
  split at h
  · cases h
  rename_i existing hexisting
  split at h
  · cases h
  rename_i rv' hrv
  split_ifs at h with hlive
  cases h
  exact ⟨existing, hexisting, rfl, hrv, hlive.1⟩

theorem Rows.at_fwd (h : Rows cfg t holder) (hf : ¬ f.Forged cfg) (hv : t f.fwdKey = some v) :
    v.forwardKey = f.fwdKey := by
  obtain ⟨g, -, hname, hkey | ⟨hkey, -⟩⟩ := h _ v hv
  · rw [hname, hkey]
  · exact absurd hkey (fwdKey_ne_revKey hf g _)

/-- **One outbound packet.** A port is given with both rows in place, or nothing changes. -/
theorem outbound_spec (hrows : Rows cfg t holder) (hf : ¬ f.Forged cfg) (tcpFlags : UInt8)
    (h : outbound cfg t f now tcpFlags = (t', p)) :
    (p = 0 ∧ t' = t) ∨ (p = 0 → Rows cfg t' holder) ∧ Gives cfg now f p holder t t' ∧
      ∃ fv, t' f.fwdKey = some fv ∧ fv.forwardKey = f.fwdKey ∧ fv.shardPort = p := by
  unfold outbound sessionPort at h
  split at h
  · rename_i port rv hlive
    obtain ⟨rfl, rfl⟩ := Prod.mk.inj h
    obtain ⟨existing, hexisting, hshard, hrv, howns⟩ := liveSession_some hlive
    rw [revKey_with] at hrv ⊢
    obtain ⟨g, hg, hname, hkey, hport, hholder⟩ := hrows.at_rev hrv
    obtain rfl := eq_of_owns hkey hname howns
    have hgives := gives_update (v := touchSession rv now tcpFlags false) hrows hf
      (by rw [forwardKey_touch, hname]) hport rfl
      fun g' w hg' hkey' hlive' => by
        rw [LiveRow, ← hkey', hrv] at hlive'
        obtain rfl := Option.some.inj hlive'.1
        exact hg' (fwdKey_injective (hlive'.2.1.symm.trans hname))
    refine .inr ⟨fun _ => ?_, hgives, existing, ?_, hrows.at_fwd hf hexisting, hshard⟩
    · have := hgives.rows
      rwa [← hholder, update_eq_self] at this
    · rw [update_of_ne (fwdKey_ne_revKey hf f port), hexisting]
  · obtain ⟨t₁, p₁, hclaim⟩ : ∃ t₁ p₁, claimMasqueradePort f.fwdKey (f.revKey cfg 0) (newSession f.fwdKey now tcpFlags)
        f.hashBase now patProbeLimit 0 t = (t₁, p₁) := ⟨_, _, rfl⟩
    simp only [hclaim] at h
    rcases claim_spec hf rfl rfl f.hashBase patProbeLimit 0 hrows hclaim with ⟨rfl, rfl⟩ | ⟨hp, hgives⟩
    · cases h
      exact .inl ⟨rfl, rfl⟩
    rw [if_pos hp] at h
    obtain ⟨rfl, rfl⟩ := Prod.mk.inj h
    obtain ⟨v, hv⟩ := hgives.live
    refine .inr ⟨fun h0 => absurd h0 hp, ⟨⟨v, ?_, hv.2⟩, hgives.spares.trans (spares_update_fwd hf _),
      hgives.rows.update_fwd hf (forwardKey_newSession f now tcpFlags p₁), ?_⟩, _, update_self .., rfl, rfl⟩
    · rw [update_of_ne (fwdKey_ne_revKey hf f p₁).symm]
      exact hv.1
    · exact Entries.forall_update (fun w hw => .inr ⟨Option.some.inj hw ▸ rfl, .inl rfl⟩) fun k _ => hgives.frame k

end

/-! ### Runs -/

/-- The packet is not forged. -/
def Event.Genuine (cfg : ShardConfig) : Event → Prop
  | .outbound f _ => ¬ f.Forged cfg
  | _ => True

theorem Rows.reply (h : Rows cfg t holder) (p : Inbound) (tcpFlags : UInt8) :
    Rows cfg (Natprog.reply cfg t p now tcpFlags) holder := by
  unfold Natprog.reply
  split
  · rename_i v hv
    refine Entries.forall_update (fun w hw => ?_) fun k _ => h k
    cases hw
    exact h (p.key cfg) v (Option.filter_eq_some_iff.mp hv).1
  · exact h

theorem Shard.rows_step {s : Shard} (h : Rows cfg s.table s.holder) {e : Event} (he : e.Genuine cfg) :
    Rows cfg (s.step cfg e).table (s.step cfg e).holder := by
  cases e with
  | outbound f tcpFlags =>
    obtain ⟨t', p, hout⟩ : ∃ t' p, Natprog.outbound cfg s.table f (nowSec s.clock) tcpFlags = (t', p) := ⟨_, _, rfl⟩
    simp only [step, outbound, hout]
    rcases outbound_spec h he tcpFlags hout with ⟨rfl, rfl⟩ | ⟨hzero, hgives, -⟩
    · exact h
    · split_ifs with hp
      · exact hzero hp
      · exact hgives.rows
  | reply p tcpFlags => exact h.reply p tcpFlags
  | evict k => exact h.update_none k
  | elapse ns => exact h

theorem Shard.rows_run {events : List Event} (hgenuine : ∀ e ∈ events, e.Genuine cfg) {s : Shard}
    (h : Rows cfg s.table s.holder) : Rows cfg (s.run cfg events).table (s.run cfg events).holder :=
  List.foldlRecOn (motive := fun s : Shard => Rows cfg s.table s.holder) events _ h fun _ h e he =>
    rows_step h (hgenuine e he)

def ConnValue.BackTo (v : ConnValue) (f : Flow) : Prop :=
  v.backendAddr = f.saddr ∧ v.backendPort = f.sport ∧ v.backendUsid = f.usid ∧ v.destAddr = f.daddr ∧
    v.destPort = f.dport

/-- **Sessions are isolated** in every run without forged packets. When a packet of `f` leaves with a port, the reverse
row at that port is live and owned by `f`, the forward row names the port, and live reverse rows of other flows are as
they were. A reply is translated back to the flow that was last given the port it arrives on. -/
theorem sessions_isolated (cfg : ShardConfig) (events : List Event) (hgenuine : ∀ e ∈ events, e.Genuine cfg) :
    (∀ f tcpFlags, ¬ f.Forged cfg → let s := Shard.start.run cfg events
      let r := s.outbound cfg f tcpFlags
      r.2 ≠ 0 →
        (∃ v, r.1.table (f.revKey cfg r.2) = some v ∧ sessionExpired v (nowSec s.clock) = false ∧
          ownsSession v f.fwdKey = true) ∧
        (∃ v, r.1.table f.fwdKey = some v ∧ v.shardPort = r.2) ∧
        ∀ g port v, g ≠ f → LiveRow cfg s.table (nowSec s.clock) g port v → r.1.table (g.revKey cfg port) = some v) ∧
    ∀ p v, replyRow cfg (Shard.start.run cfg events).table p (nowSec (Shard.start.run cfg events).clock) = some v →
      ∃ f, (Shard.start.run cfg events).holder (p.key cfg) = some f ∧ p.key cfg = f.revKey cfg p.dport ∧
        v.BackTo f := by
  have hrows := rows_run hgenuine (s := start) fun k v hv => nomatch hv
  refine ⟨fun f tcpFlags hf => ?_, fun p v hv => ?_⟩
  · intro s r hport
    obtain ⟨t', p, hout⟩ : ∃ t' p, outbound cfg s.table f (nowSec s.clock) tcpFlags = (t', p) := ⟨_, _, rfl⟩
    have htable : r.1.table = t' := congrArg Prod.fst hout
    have hp : r.2 = p := congrArg Prod.snd hout
    rw [htable, hp]
    rcases outbound_spec hrows hf tcpFlags hout with ⟨h0, -⟩ | ⟨-, hgives, fv, hfv, -, hshard⟩
    · exact absurd (hp.trans h0) hport
    · obtain ⟨v, hv, hname, hlive⟩ := hgives.live
      exact ⟨⟨v, hv, hlive, owns_of_forwardKey hname⟩, ⟨fv, hfv, hshard⟩, hgives.spares⟩
  obtain ⟨hv, -⟩ := Option.filter_eq_some_iff.mp hv
  obtain ⟨f, hf, hname, hkey | ⟨hkey, hholder⟩⟩ := hrows _ v hv
  · -- a forward row under a reply's key would be forged
    have hfam : p.family = f.family := Family.byte_injective (congrArg ConnKey.family hkey)
    refine absurd ⟨congrArg ConnKey.tenantArg hkey.symm, congrArg ConnKey.encapSrc hkey.symm, ?_⟩ hf
    rw [← hfam]
    exact congrArg ConnKey.daddr hkey.symm
  · have hport : p.dport = v.shardPort := congrArg ConnKey.dport hkey
    refine ⟨f, hholder, by rw [hkey, hport], ?_⟩
    simp only [ConnValue.forwardKey, fwdKey, ConnKey.mk.injEq] at hname
    exact ⟨hname.2.2.2.2.2.1, hname.2.2.2.1, hname.2.2.2.2.2.2.2, hname.2.2.2.2.2.2.1, hname.2.2.2.2.1⟩

/-! ### A forged packet -/

def docAddr (b : UInt8) : Addr16 := ⟨[0x20, 0x01, 0x0d, 0xb8, 0, 7, 0, 0, 0, 0, 0, 0, 0, 0, 0, b], rfl⟩

def oneShard : ShardConfig := ⟨docAddr 1, ⟨[198, 51, 100, 1], rfl⟩⟩

def tenantFlow : Flow := ⟨.v6, .tcp, 0, docAddr 2, docAddr 3, 40000, docAddr 4, 443⟩

def otherFlow : Flow := ⟨.v6, .tcp, 0, docAddr 5, docAddr 3, 40000, docAddr 4, 443⟩

/-- The port `tenantFlow` gets first. -/
def tenantPort : UInt16 := (Shard.start.outbound oneShard tenantFlow 0).2

/-- A packet without an outer source, whose inner header claims to come from the peer and to go to the shard. -/
def forgedFlow : Flow := ⟨.v6, .tcp, 0, zeroAddr, docAddr 4, 443, docAddr 1, tenantPort⟩

def firstPacket : List Event := [.outbound tenantFlow 0, .elapse 5000000000]

/-- The second tenant's flow collides with the first one's port and gets the next; both rows are live. -/
theorem sessions_isolated_twoTenants :
    ((Shard.start.run oneShard firstPacket).outbound oneShard otherFlow 0).2 ≠ tenantPort ∧
      (∃ v, ((Shard.start.run oneShard firstPacket).outbound oneShard otherFlow 0).1.table
        (otherFlow.revKey oneShard ((Shard.start.run oneShard firstPacket).outbound oneShard otherFlow 0).2) = some v) ∧
      ∃ v, ((Shard.start.run oneShard firstPacket).outbound oneShard otherFlow 0).1.table
        (tenantFlow.revKey oneShard tenantPort) = some v := by
  have hgenuine : ∀ e ∈ firstPacket, e.Genuine oneShard :=
    List.forall_mem_cons.mpr ⟨(by decide +kernel : ¬ tenantFlow.Forged oneShard), List.forall_mem_singleton.mpr trivial⟩
  have hother : ¬ otherFlow.Forged oneShard := by decide +kernel
  have hlive : LiveRow oneShard (Shard.start.run oneShard firstPacket).table
      (nowSec (Shard.start.run oneShard firstPacket).clock) tenantFlow tenantPort
      { newSession tenantFlow.fwdKey 0 0 with shardPort := tenantPort } :=
    ⟨by decide +kernel, rfl, by decide +kernel⟩
  obtain ⟨⟨v, hv, -⟩, -, hspares⟩ := (sessions_isolated oneShard firstPacket hgenuine).1 otherFlow 0 hother
    (by decide +kernel)
  exact ⟨by decide +kernel, ⟨v, hv⟩, _, hspares tenantFlow tenantPort _ (by decide +kernel) hlive⟩

/-- After the forged packet the peer's reply to the tenant goes elsewhere, though the tenant still holds the port. -/
theorem forged_redirects :
    let s := Shard.start.run oneShard [.outbound tenantFlow 0]
    let r := s.outbound oneShard forgedFlow 0
    let p : Inbound := ⟨.v6, ipprotoTCP, docAddr 4, 443, tenantPort⟩
    r.2 ≠ 0 ∧ tenantFlow ≠ forgedFlow ∧
      ((s.table (p.key oneShard)).map fun v => (v.forwardKey, sessionExpired v (nowSec s.clock))) = some
        (tenantFlow.fwdKey, false) ∧
      r.1.table (p.key oneShard) ≠ s.table (p.key oneShard) ∧
      r.1.holder (p.key oneShard) = some tenantFlow ∧
      (replyRow oneShard r.1.table p (nowSec r.1.clock)).map ConnValue.backendAddr = some (docAddr 4) := by
  decide +kernel

end Galactic.Natprog
