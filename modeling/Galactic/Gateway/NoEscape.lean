import Galactic.Gateway.Recording

/-!
# Runs of calls on the datapath

In every sequence of `ApplyRule` and `RemoveRule` calls that are covered, a row or range that the process wrote is
recorded, and a removal in which nothing fails takes it away. -/

namespace Galactic.Gateway

open Net FallibleProg

variable {d₀ d : Datapath}

/-! ### A removal in which nothing fails -/

section
variable {w : World} (hw : ∀ site op, (w site).fails op = false) (h : Recorded d₀ d)

include hw h

theorem removeLoop_removes {t : Which} (i : Nat) (keys : List VIPKey)
  (hwire : ∀ key ∈ keys.dropLast, (toWireKey key).isSome)
    {d₁ : Datapath} (hd₁ : Fewer d d₁) :
    From d₁
      (forKeys (fun i key => do removeRange (w (.remove i)) key; unregister (w (.remove i)) t key) i keys)
      (fun _ d' => Fewer d₁ d' ∧ ∀ key ∈ keys, (toWireKey key).isSome → GoneRow t key d' ∧ GoneRange key d')
      fun _ d' => Fewer d₁ d' ∧ ∀ key ∈ keys, (toWireKey key).isSome → GoneRow t key d' ∧ GoneRange key d' := by
  refine .given (forKeys_rule (I :=
    fun done d' => Fewer d₁ d' ∧ ∀ key ∈ done, (toWireKey key).isSome → GoneRow t key d' ∧
    GoneRange key d') (fun i done key hpre => ?_) i) fun d' hd' => ⟨hd' ▸ Fewer.refl d₁, fun key hkey => nomatch hkey⟩
  refine .named fun d₂ ⟨hfewer, hdone⟩ => ?_
  have hkept : ∀ {d'}, Fewer d₂ d' → ∀ key ∈ done, (toWireKey key).isSome → GoneRow t key d' ∧ GoneRange key d' :=
    fun hd' key hkey hsome => ⟨(hdone key hkey hsome).1.fewer hd', (hdone key hkey hsome).2.fewer hd'⟩
  refine .imp (removeStep_spec (h.counts (hd₁.trans hfewer))) ?_ ?_
  · rintro _ d' ⟨hd', hgone⟩
    exact ⟨hfewer.trans hd', List.forall_mem_append.mpr ⟨hkept hd', List.forall_mem_singleton.mpr fun _ => hgone⟩⟩
  · -- without a failure only a key that has no wire form stops the loop, and it is the last
    rintro _ d' ⟨hd', ⟨op, hop⟩ | hnone⟩
    · rw [hw] at hop
      cases hop
    refine ⟨hfewer.trans hd', ?_⟩
    obtain ⟨rest, rfl⟩ := hpre
    rcases rest with _ | ⟨next, rest⟩
    · rw [List.append_nil]
      exact List.forall_mem_append.mpr ⟨hkept hd', List.forall_mem_singleton.mpr fun hsome => by simp [hnone] at hsome⟩
    · have := hwire key (by rw [List.dropLast_append_of_ne_nil (by simp)]; simp)
      rw [hnone] at this
      cases this

theorem removeRule_removes (rule : String) {key : VIPKey} (hkey : key ∈ d.keysOf rule) (hsome : (toWireKey key).isSome)
    : GoneRow (d.tableOf rule) key (exec (removeRule w rule) d).2 ∧ GoneRange key (exec (removeRule w rule) d).2 := by
  refine Triple.state (P := fun d' => d' = d) (R := fun d' => GoneRow (d.tableOf rule) key d' ∧ GoneRange key d')
    (.get_from ?_) rfl
  refine .bind (.onError (removeLoop_removes hw h 0 (d.keysOf rule) (h.wireable rule)
    (Fewer.refl d)) fun _ _ hd => hd.2 key hkey hsome) fun _ =>
    .modify fun d hd => hd.2 key hkey hsome

end

/-! ### Runs -/

inductive Call
  | apply (w : World) (rule : DesiredRule)
  | remove (w : World) (rule : String)

def Call.step (d : Datapath) : Call → Datapath
  | .apply w rule => (exec (applyRule w rule) d).2
  | .remove w rule => (exec (removeRule w rule) d).2

def runCalls : Datapath → List Call → Datapath
  | d, [] => d
  | d, c :: calls => runCalls (c.step d) calls

/-- Every `ApplyRule` is covered in the state it is called in. -/
def AllCovered : Datapath → List Call → Prop
  | _, [] => True
  | d, .apply w rule :: calls => Covered w rule d ∧ AllCovered (Call.step d (.apply w rule)) calls
  | d, .remove w rule :: calls => AllCovered (Call.step d (.remove w rule)) calls

theorem Recorded.run (h : Recorded d₀ d) {calls : List Call} (hcalls : AllCovered d calls) :
    Recorded d₀ (runCalls d calls) := by
  induction calls generalizing d with
  | nil => exact h
  | cons c calls ih =>
    rcases c with ⟨w, rule⟩ | ⟨w, rule⟩
    · exact ih (Triple.state (applyRule_spec h hcalls.1) rfl) hcalls.2
    · exact ih (Triple.state (removeRule_spec h) rfl) hcalls

theorem wireable_of_eq {key : VIPKey} {wk : WireKey} (h : toWireKey key = some wk) : (toWireKey key).isSome := by
  rw [h]
  rfl

/-- **Inventory.** What the process wrote and is still there is recorded for a rule, whose removal takes it away when
nothing fails. -/
theorem no_row_escapes (d₀ : Datapath) (hfresh : Fresh d₀) (calls : List Call) (hcalls : AllCovered d₀ calls) :
    (∀ t wk v, ((runCalls d₀ calls).rows t).lookup wk = some v → (d₀.rows t).lookup wk = some v ∨
      ∃ rule, (runCalls d₀ calls).RecordsRow t wk rule ∧ ∀ w : World, (∀ site op, (w site).fails op = false) →
      ((Call.step (runCalls d₀ calls) (.remove w rule)).rows t).lookup wk = none) ∧
    (∀ raw value, (runCalls d₀ calls).ranges.lookup raw = some value →
      (value.ranges = [] → d₀.ranges.lookup raw = some value) ∧ ∀ rg ∈ value.ranges, rg ∈ d₀.rangesAt raw ∨
      ∃ rule, (runCalls d₀ calls).RecordsRange raw rg.first rule ∧ ∀ w : World, (∀ site op, (w site).fails op = false) →
      ∀ rg' ∈ (Call.step (runCalls d₀ calls) (.remove w rule)).rangesAt raw, rg'.first ≠ rg.first) := by
  have h : Recorded d₀ (runCalls d₀ calls) := hfresh.recorded.run hcalls
  refine ⟨fun t wk v hv => ?_, fun raw value hvalue => ?_⟩
  · rcases h.rows t wk v hv with ⟨rule, ht, key, hkey, hwk⟩ | ⟨-, key, hkey, -⟩ | hold
    · refine .inr ⟨rule, ⟨ht, key, hkey, hwk⟩, fun w hw => ?_⟩
      obtain ⟨⟨wk', hwk', hgone⟩, -⟩ := removeRule_removes hw h rule hkey (wireable_of_eq hwk)
      rw [hwk] at hwk'
      cases hwk'
      rw [← ht]
      exact hgone
    · cases hkey
    · exact .inl hold
  obtain ⟨-, hall, hnil⟩ := h.ranges raw value hvalue
  refine ⟨hnil, fun rg hrg => ?_⟩
  rcases hall rg hrg with ⟨rule, key, hkey, hraw, hfirst⟩ | hold
  · refine .inr ⟨rule, ⟨key, hkey, hraw, hfirst⟩, fun w hw => ?_⟩
    have hsome : (toWireKey key).isSome := by rw [← rangeKey_isSome, hraw]; rfl
    obtain ⟨-, raw', hraw', hgone⟩ := removeRule_removes hw h rule hkey hsome
    rw [hraw] at hraw'
    cases hraw'
    rw [← hfirst]
    exact hgone
  · exact .inl hold

/-! ### Two reconciles of one rule -/

def address (last : UInt8) : Addr := .v6 ⟨[0x20, 0x01, 0x0d, 0xb8, 0, 0, 0, 0, 0, 0, 0, 0, 0, 0, 0, last], rfl⟩ ""

def webRule (key : String) (vips : List Addr) : DesiredRule :=
  ⟨key, "vpc", vips, protocolTCP, 80, 0, "", [⟨address 10, 8080, address 20⟩], []⟩

def moveCalls : List Call :=
  [.apply (fun _ => {}) (webRule "a" [address 1]), .apply (fun _ => {}) (webRule "a" [address 2])]

theorem no_row_escapes_moved :
    (runCalls Engine.empty.datapath moveCalls).keysOf "a" = [⟨6, 80, address 2⟩] ∧
    ∀ t wk v, ((runCalls Engine.empty.datapath moveCalls).rows t).lookup wk = some v →
      (Engine.empty.datapath.rows t).lookup wk = some v ∨
      ∃ rule, (runCalls Engine.empty.datapath moveCalls).RecordsRow t wk rule ∧
        ∀ w : World, (∀ site op, (w site).fails op = false) →
          ((Call.step (runCalls Engine.empty.datapath moveCalls) (.remove w rule)).rows t).lookup wk = none := by
  have hfresh : Fresh Engine.empty.datapath := ⟨rfl, rfl, fun raw value h => by cases h⟩
  have hcovered : AllCovered Engine.empty.datapath moveCalls := ⟨.inl fun _ _ => rfl, .inl fun _ _ => rfl, trivial⟩
  exact ⟨by decide +kernel, (no_row_escapes Engine.empty.datapath hfresh moveCalls hcovered).1⟩

def moves : List (EngineWorld × EngineState) :=
  [({}, .ofRules [webRule "a" [address 1]]),
    ({ apply := fun _ site => match site with
        | .prune _ => { fails := fun op => match op with
            | .delete => true
            | _ => false }
        | _ => {} }, .ofRules [webRule "a" [address 2]])]

theorem row_escapes :
    (((Engine.empty.run moves).datapath.rows .scalar).lookup ⟨6, beU16 80, (address 2).as16⟩).isSome = true ∧
    ∀ t wk rule, ¬(Engine.empty.run moves).datapath.RecordsRow t wk rule := by
  have hentries : (Engine.empty.run moves).datapath.vipKeysByName.entries = [] := by decide +kernel
  have hkeys : (Engine.empty.run moves).datapath.vipKeysByName = ∅ := AList.ext hentries
  refine ⟨by decide +kernel, ?_⟩
  rintro t wk rule ⟨-, key, hkey, -⟩
  unfold Datapath.keysOf at hkey
  rw [hkeys, AList.lookup_empty] at hkey
  cases hkey

end Galactic.Gateway
