import Galactic.Net.IP
import Mathlib.Data.List.TakeWhile

/-!
# The text of IP addresses

How Go's packages `net` and `net/netip` print an address and read it back: dotted decimal for IPv4, and for IPv6
hexadecimal groups with the longest run of at least two zero groups written `::`. -/

namespace Galactic.Net
open List Nat

/-! ### Digits -/

def hexVal (c : Char) : Option Nat :=
  if '0' ≤ c ∧ c ≤ '9' then some (c.toNat - '0'.toNat)
  else if 'a' ≤ c ∧ c ≤ 'f' then some (c.toNat - 'a'.toNat + 10)
  else if 'A' ≤ c ∧ c ≤ 'F' then some (c.toNat - 'A'.toNat + 10)
  else none

def isHex (c : Char) : Bool := (hexVal c).isSome

/-- The accumulator of the hexadecimal digit loop. -/
def hexFold (ds : List Char) : Nat := ds.foldl (fun acc c => acc * 16 + (hexVal c).getD 0) 0

theorem hexVal_digitChar {d : Nat} (hd : d < 16) : hexVal d.digitChar = some d := by
  have h : ∀ d : Fin 16, hexVal (d : Nat).digitChar = some (d : Nat) := by decide
  exact h ⟨d, hd⟩

theorem isHex_of_mem_toDigits (n : Nat) : ∀ c ∈ Nat.toDigits 16 n, isHex c := by
  induction n using Nat.strong_induction_on with
  | _ n ih =>
    intro c hc
    by_cases hn : n < 16
    · rw [toDigits_of_lt_base hn, mem_singleton] at hc
      rw [hc, isHex, hexVal_digitChar hn]
      rfl
    rw [toDigits_of_base_le (by omega) (by omega), mem_append, mem_singleton] at hc
    rcases hc with hc | hc
    · exact ih (n / 16) (by omega) c hc
    · rw [hc, isHex, hexVal_digitChar (by omega)]
      rfl

theorem hexFold_toDigits (n : Nat) : hexFold (Nat.toDigits 16 n) = n := by
  induction n using Nat.strong_induction_on with
  | _ n ih =>
    by_cases hn : n < 16
    · rw [toDigits_of_lt_base hn]
      simp [hexFold, hexVal_digitChar hn]
    rw [toDigits_of_base_le (by omega) (by omega), hexFold, foldl_append]
    have := ih (n / 16) (by omega)
    rw [hexFold] at this
    simp only [foldl_cons, foldl_nil, this, hexVal_digitChar (show n % 16 < 16 by omega), Option.getD_some]
    omega

/-! ### IPv4 -/

/-- The loop of `parseIPv4Fields`. `digLen` is the number of digits read of the current octet, `val`
its value so far and `fields` the octets before it. -/
def parse4Loop : List Char → Nat → Nat → List UInt8 → Option (List UInt8)
  | [], val, _, fields => if fields.length < 3 then none else some (fields ++ [val.toUInt8])
  | c :: rest, val, digLen, fields =>
    if '0' ≤ c ∧ c ≤ '9' then
      if digLen = 1 ∧ val = 0 then none
      else if 255 < val * 10 + (c.toNat - '0'.toNat) then none
      else parse4Loop rest (val * 10 + (c.toNat - '0'.toNat)) (digLen + 1) fields
    else if c = '.' then
      -- no digit before the dot, or nothing after it
      if digLen = 0 ∨ rest = [] then none
      else if fields.length = 3 then none
      else parse4Loop rest 0 0 (fields ++ [val.toUInt8])
    else none

/-- `parseIPv4Fields`: the four octets of a dotted address. -/
def parse4 (s : List Char) : Option (List UInt8) := parse4Loop s 0 0 []

def string4 (b : List UInt8) : List Char :=
  List.intercalate ['.'] (b.map fun x => toDigits 10 x.toNat)

theorem parse4Loop_digit {d val digLen : Nat} (hd : d < 10) (hzero : ¬(digLen = 1 ∧ val = 0))
    (hval : val * 10 + d ≤ 255) (rest : List Char) (fields : List UInt8) :
    parse4Loop (d.digitChar :: rest) val digLen fields = parse4Loop rest (val * 10 + d) (digLen + 1) fields := by
  have hchar : ∀ d : Fin 10, ('0' ≤ (d : Nat).digitChar ∧ (d : Nat).digitChar ≤ '9') ∧
      (d : Nat).digitChar.toNat - '0'.toNat = d := by decide
  obtain ⟨hrange, hsub⟩ := hchar ⟨d, hd⟩
  simp only at hrange hsub
  rw [parse4Loop, if_pos hrange, if_neg hzero, hsub, if_neg (by omega)]

theorem parse4Loop_octet (x : UInt8) (rest : List Char) (fields : List UInt8) : ∃ digLen, 0 < digLen ∧
    parse4Loop (toDigits 10 x.toNat ++ rest) 0 0 fields = parse4Loop rest x.toNat digLen fields := by
  have hx : x.toNat < 256 := x.toNat_lt
  generalize x.toNat = n at hx ⊢
  by_cases h1 : n < 10
  · refine ⟨1, by omega, ?_⟩
    rw [toDigits_of_lt_base h1, singleton_append, parse4Loop_digit h1 (by omega) (by omega)]
    simp
  rw [toDigits_of_base_le (by omega) (by omega)]
  by_cases h2 : n < 100
  · refine ⟨2, by omega, ?_⟩
    rw [toDigits_of_lt_base (by omega), append_assoc, singleton_append,
      singleton_append, parse4Loop_digit (by omega) (by omega) (by omega),
      parse4Loop_digit (by omega) (by omega) (by omega)]
    congr 1
    omega
  refine ⟨3, by omega, ?_⟩
  rw [toDigits_of_base_le (by omega) (by omega), toDigits_of_lt_base (by omega)]
  simp only [cons_append, nil_append]
  rw [parse4Loop_digit (by omega) (by omega) (by omega), parse4Loop_digit (by omega) (by omega) (by omega),
    parse4Loop_digit (by omega) (by omega) (by omega)]
  congr 1
  omega

theorem toDigits_append_ne_nil (b n : Nat) (rest : List Char) : toDigits b n ++ rest ≠ [] := by
  simp [toDigits_ne_nil]

theorem parse4Loop_dot {val digLen : Nat} (hdig : 0 < digLen) {rest : List Char} (hrest : rest ≠ [])
    {fields : List UInt8} (hfields : fields.length ≠ 3) :
    parse4Loop ('.' :: rest) val digLen fields = parse4Loop rest 0 0 (fields ++ [val.toUInt8]) := by
  rw [parse4Loop, if_neg (by decide), if_pos rfl, if_neg (by simp [hrest]; omega), if_neg hfields]

theorem parse4_string4 (a b c d : UInt8) : parse4 (string4 [a, b, c, d]) = some [a, b, c, d] := by
  have hof : ∀ x : UInt8, x.toNat.toUInt8 = x := fun x => by simp [toUInt8]
  have htext : string4 [a, b, c, d] = toDigits 10 a.toNat ++ ('.' :: (toDigits 10 b.toNat ++
      ('.' :: (toDigits 10 c.toNat ++ ('.' :: (toDigits 10 d.toNat ++ [])))))) := by
    simp [string4, intercalate, intersperse]
  rw [htext, parse4]
  obtain ⟨_, hk, h⟩ := parse4Loop_octet a ('.' :: (toDigits 10 b.toNat ++
    ('.' :: (toDigits 10 c.toNat ++ ('.' :: (toDigits 10 d.toNat ++ [])))))) []
  rw [h, parse4Loop_dot hk (toDigits_append_ne_nil _ _ _) (by simp)]
  obtain ⟨_, hk, h⟩ := parse4Loop_octet b ('.' :: (toDigits 10 c.toNat ++
    ('.' :: (toDigits 10 d.toNat ++ [])))) ([] ++ [a.toNat.toUInt8])
  rw [h, parse4Loop_dot hk (toDigits_append_ne_nil _ _ _) (by simp)]
  obtain ⟨_, hk, h⟩ := parse4Loop_octet c ('.' :: (toDigits 10 d.toNat ++ []))
    ([] ++ [a.toNat.toUInt8] ++ [b.toNat.toUInt8])
  rw [h, parse4Loop_dot hk (toDigits_append_ne_nil _ _ _) (by simp)]
  obtain ⟨_, hk, h⟩ := parse4Loop_octet d [] ([] ++ [a.toNat.toUInt8] ++ [b.toNat.toUInt8] ++ [c.toNat.toUInt8])
  rw [h]
  simp [parse4Loop, hof]

/-! ### IPv6 -/

def groupsOf : List UInt8 → List Nat
  | hi :: lo :: rest => (hi.toNat * 256 + lo.toNat) :: groupsOf rest
  | _ => []

def bytesOfGroup (n : Nat) : List UInt8 := [(n / 256).toUInt8, n.toUInt8]

/-- The number of zero groups from index `i` on. -/
def zerosFrom (gs : List Nat) (i : Nat) : Nat := ((gs.drop i).takeWhile (· == 0)).length

/-- The run starting at `i` replaces a strictly shorter one. -/
def zeroRunStep (gs : List Nat) (best : Option (Nat × Nat)) (i : Nat) : Option (Nat × Nat) :=
  if 2 ≤ zerosFrom gs i ∧ (best.elim 0 fun r => r.2 - r.1) < zerosFrom gs i then
    some (i, i + zerosFrom gs i)
  else best

def zeroRun (gs : List Nat) : Option (Nat × Nat) :=
  (List.range gs.length).foldl (zeroRunStep gs) none

def joinGroups (gs : List Nat) : List Char := List.intercalate [':'] (gs.map (toDigits 16))

def string6 (b : List UInt8) : List Char :=
  match zeroRun (groupsOf b) with
  | none => joinGroups (groupsOf b)
  | some (zeroStart, zeroEnd) =>
    joinGroups ((groupsOf b).take zeroStart) ++ ':' :: ':' :: joinGroups ((groupsOf b).drop zeroEnd)

/-- The loop of `parseIPv6`: at most `n` more groups, `done` the bytes read so far and `ellipsis` the
position of `::` in them. Returns what is left of the text too. -/
def parse6Loop : Nat → List UInt8 → Option Nat → List Char →
    Option (List UInt8 × Option Nat × List Char)
  | 0, done, ellipsis, s => some (done, ellipsis, s)
  | n + 1, done, ellipsis, s =>
    let ds := s.takeWhile isHex
    if ds.length = 0 ∨ 4 < ds.length then none
    else
      match s.dropWhile isHex with
      | [] => some (done ++ bytesOfGroup (hexFold ds), ellipsis, [])
      | '.' :: _ =>
        -- an IPv4 address in place of the last two groups
        if (ellipsis = none ∧ done.length ≠ 12) ∨ 16 < done.length + 4 then none
        else (parse4 s).map fun fields => (done ++ fields, ellipsis, [])
      | [_] => none
      | c :: d :: rest =>
        if c ≠ ':' then none
        else if d = ':' then
          if ellipsis.isSome then none
          else if rest = [] then
            some (done ++ bytesOfGroup (hexFold ds), some (done.length + 2), [])
          else parse6Loop n (done ++ bytesOfGroup (hexFold ds)) (some (done.length + 2)) rest
        else parse6Loop n (done ++ bytesOfGroup (hexFold ds)) ellipsis (d :: rest)

/-- Expands `::` to the zeros that are missing, at least one group of them. -/
def expandEllipsis (done : List UInt8) (ellipsis : Option Nat) : Option (List UInt8) :=
  if done.length < 16 then
    ellipsis.map fun at_ => done.take at_ ++ List.replicate (16 - done.length) 0 ++ done.drop at_
  else if ellipsis.isSome then none
  else some done

/-- `parseIPv6` on a text without a zone. -/
def parse6 (s : List Char) : Option (List UInt8) :=
  match s with
  | [':', ':'] => some (List.replicate 16 0)
  | _ =>
    let start := if s.take 2 = [':', ':'] then (some 0, s.drop 2) else (none, s)
    match parse6Loop 8 [] start.1 start.2 with
    | some (done, ellipsis, []) => expandEllipsis done ellipsis
    | _ => none

theorem length_bytesOfGroup (n : Nat) : (bytesOfGroup n).length = 2 := rfl

theorem flatMap_groupsOf (b : List UInt8) (heven : b.length % 2 = 0) : (groupsOf b).flatMap bytesOfGroup = b := by
  induction b using groupsOf.induct with
  | case1 hi lo rest ih =>
    simp only [length_cons] at heven
    rw [groupsOf, flatMap_cons, ih (by omega)]
    have hhi : ((hi.toNat * 256 + lo.toNat) / 256).toUInt8 = hi := by
      have := lo.toNat_lt
      rw [show (hi.toNat * 256 + lo.toNat) / 256 = hi.toNat by omega]
      simp [toUInt8]
    have hlo : (hi.toNat * 256 + lo.toNat).toUInt8 = lo := by
      apply UInt8.toNat_inj.mp
      have := lo.toNat_lt
      simp [toUInt8]
    simp [bytesOfGroup, hhi, hlo]
  | case2 b hshape =>
    match b, hshape, heven with
    | [], _, _ => rfl
    | [x], _, h => simp at h
    | x :: y :: r, hshape, _ => exact absurd rfl (hshape x y r)

theorem length_groupsOf (b : List UInt8) : (groupsOf b).length = b.length / 2 := by
  induction b using groupsOf.induct with
  | case1 hi lo rest ih =>
    simp only [groupsOf, length_cons, ih]
    omega
  | case2 b hshape =>
    match b, hshape with
    | [], _ => rfl
    | [x], _ => simp [groupsOf]
    | x :: y :: r, hshape => exact absurd rfl (hshape x y r)

theorem groupsOf_lt (b : List UInt8) : ∀ g ∈ groupsOf b, g < 65536 := by
  induction b using groupsOf.induct with
  | case1 hi lo rest ih =>
    intro g hg
    rw [groupsOf, mem_cons] at hg
    rcases hg with rfl | hg
    · have := hi.toNat_lt
      have := lo.toNat_lt
      omega
    · exact ih g hg
  | case2 b hshape =>
    match b, hshape with
    | [], _ => simp [groupsOf]
    | [x], _ => simp [groupsOf]
    | x :: y :: r, hshape => exact absurd rfl (hshape x y r)

def IsZeroRun (gs : List Nat) (r : Nat × Nat) : Prop :=
  r.1 < r.2 ∧ r.2 ≤ gs.length ∧ gs = gs.take r.1 ++ List.replicate (r.2 - r.1) 0 ++ gs.drop r.2

theorem isZeroRun_zerosFrom (gs : List Nat) (i : Nat) (h : 0 < zerosFrom gs i) :
    IsZeroRun gs (i, i + zerosFrom gs i) := by
  have hzeros : (gs.drop i).takeWhile (· == 0) = List.replicate (zerosFrom gs i) 0 := by
    rw [eq_replicate_iff]
    exact ⟨rfl, fun x hx => by simpa using mem_takeWhile_imp hx⟩
  have hsplit := takeWhile_append_dropWhile (p := fun x : Nat => x == 0) (l := gs.drop i)
  have hlen := congrArg List.length hsplit
  rw [length_append, length_drop] at hlen
  change zerosFrom gs i + _ = _ at hlen
  have hrest : (gs.drop i).dropWhile (· == 0) = gs.drop (i + zerosFrom gs i) := by
    rw [← drop_drop]
    conv_rhs => rw [← hsplit]
    exact drop_left.symm
  refine ⟨by simp only; omega, by simp only; omega, ?_⟩
  simp only [Nat.add_sub_cancel_left]
  rw [← hzeros, ← hrest, append_assoc, hsplit, take_append_drop]

theorem zeroRunStep_spec (gs : List Nat) (best : Option (Nat × Nat)) (i : Nat) (hbest : ∀ r ∈ best, IsZeroRun gs r) :
    ∀ r ∈ zeroRunStep gs best i, IsZeroRun gs r := by
  intro r hr
  rw [zeroRunStep] at hr
  split_ifs at hr with hc
  · rw [Option.mem_some_iff] at hr
    exact hr ▸ isZeroRun_zerosFrom gs i (by omega)
  · exact hbest r hr

theorem zeroRun_spec (gs : List Nat) (r : Nat × Nat) (h : zeroRun gs = some r) : IsZeroRun gs r := by
  have hfold : ∀ (l : List Nat) (best : Option (Nat × Nat)), (∀ r ∈ best, IsZeroRun gs r) →
      ∀ r ∈ l.foldl (zeroRunStep gs) best, IsZeroRun gs r := by
    intro l
    induction l with
    | nil => intro best hbest; exact hbest
    | cons i l ih => intro best hbest; exact ih _ (zeroRunStep_spec gs best i hbest)
  exact hfold _ none (by simp) r h

/-! ### Reading back IPv6 -/

section
variable {gs : List Nat} {g : Nat} {c : Char} {rest : List Char}

theorem joinGroups_cons (g : Nat) (hgs : gs ≠ []) : joinGroups (g :: gs) = toDigits 16 g ++ ':' :: joinGroups gs := by
  obtain ⟨h, t, rfl⟩ := exists_cons_of_ne_nil hgs
  simp [joinGroups, intercalate]

theorem joinGroups_singleton (g : Nat) : joinGroups [g] = toDigits 16 g := by
  simp [joinGroups, intercalate]

theorem joinGroups_head (hgs : gs ≠ []) : ∃ c rest, joinGroups gs = c :: rest ∧ isHex c := by
  obtain ⟨g, t, rfl⟩ := exists_cons_of_ne_nil hgs
  obtain ⟨c, ds, hds⟩ := exists_cons_of_ne_nil (toDigits_ne_nil (n := g) (b := 16))
  have hc : isHex c := isHex_of_mem_toDigits g c (by simp [hds])
  cases t with
  | nil => exact ⟨c, ds, by rw [joinGroups_singleton, hds], hc⟩
  | cons h t => exact ⟨c, ds ++ ':' :: joinGroups (h :: t), by rw [joinGroups_cons _ (by simp), hds]; rfl, hc⟩

theorem span_toDigits (g : Nat) (rest : List Char) (hrest : ∀ c ∈ rest.head?, isHex c = false) :
    (toDigits 16 g ++ rest).takeWhile isHex = toDigits 16 g ∧ (toDigits 16 g ++ rest).dropWhile isHex = rest := by
  have hall := isHex_of_mem_toDigits g
  rw [takeWhile_append_of_pos hall, dropWhile_append_of_pos hall]
  cases rest with
  | nil => simp
  | cons c rest => simp [hrest c rfl]

theorem length_toDigits_le (hg : g < 65536) : ¬((toDigits 16 g).length = 0 ∨ 4 < (toDigits 16 g).length) := by
  have hpos : 0 < (toDigits 16 g).length := length_toDigits_pos
  have hle := (length_toDigits_le_iff (b := 16) (n := g) (k := 4) (by omega) (by omega)).mpr (by omega)
  omega

theorem isHex_colon : isHex ':' = false := by decide

theorem parse6Loop_last (n : Nat) (done : List UInt8) (ellipsis : Option Nat) (hg : g < 65536) :
    parse6Loop (n + 1) done ellipsis (toDigits 16 g) = some (done ++ bytesOfGroup g, ellipsis, []) := by
  obtain ⟨htake, hdrop⟩ := span_toDigits g [] (by simp)
  rw [append_nil] at htake hdrop
  rw [parse6Loop, htake, hdrop, if_neg (length_toDigits_le hg), hexFold_toDigits]

theorem parse6Loop_group (n : Nat) (done : List UInt8) (ellipsis : Option Nat) (hg : g < 65536)
    {d : Char} (hd : d ≠ ':') (rest : List Char) :
    parse6Loop (n + 1) done ellipsis (toDigits 16 g ++ ':' :: d :: rest) =
      parse6Loop n (done ++ bytesOfGroup g) ellipsis (d :: rest) := by
  obtain ⟨htake, hdrop⟩ := span_toDigits g (':' :: d :: rest) (by simp [isHex_colon])
  rw [parse6Loop, htake, hdrop, if_neg (length_toDigits_le hg), hexFold_toDigits]
  simp [hd]

theorem parse6Loop_ellipsis (n : Nat) (done : List UInt8) (hg : g < 65536) (rest : List Char) :
    parse6Loop (n + 1) done none (toDigits 16 g ++ ':' :: ':' :: rest) =
      if rest = [] then some (done ++ bytesOfGroup g, some (done.length + 2), [])
      else parse6Loop n (done ++ bytesOfGroup g) (some (done.length + 2)) rest := by
  obtain ⟨htake, hdrop⟩ := span_toDigits g (':' :: ':' :: rest) (by simp [isHex_colon])
  rw [parse6Loop, htake, hdrop, if_neg (length_toDigits_le hg), hexFold_toDigits]
  simp

theorem ne_colon_of_isHex (h : isHex c) : c ≠ ':' := by
  rintro rfl
  exact absurd h (by decide)

theorem parse6Loop_join (gs : List Nat) (hne : gs ≠ []) (hlt : ∀ g ∈ gs, g < 65536) (n : Nat)
    (hn : gs.length ≤ n) (done : List UInt8) (ellipsis : Option Nat) :
    parse6Loop n done ellipsis (joinGroups gs) = some (done ++ gs.flatMap bytesOfGroup, ellipsis, []) := by
  induction gs generalizing n done with
  | nil => exact absurd rfl hne
  | cons g gs ih =>
    obtain ⟨n, rfl⟩ : ∃ m, n = m + 1 := ⟨n - 1, by simp at hn; omega⟩
    have hg := hlt g (by simp)
    by_cases hgs : gs = []
    · subst hgs
      rw [joinGroups_singleton, parse6Loop_last n done ellipsis hg]
      simp
    obtain ⟨c, rest, hjoin, hc⟩ := joinGroups_head hgs
    rw [joinGroups_cons g hgs, hjoin, parse6Loop_group n done ellipsis hg (ne_colon_of_isHex hc), ← hjoin,
      ih hgs (fun x hx => hlt x (by simp [hx])) n (by simp at hn; omega)]
    simp

theorem parse6Loop_join_ellipsis (gs hs : List Nat) (hne : gs ≠ []) (hlt : ∀ g ∈ gs, g < 65536)
    (hlt' : ∀ h ∈ hs, h < 65536) (n : Nat) (hn : gs.length + hs.length ≤ n) (done : List UInt8) :
    parse6Loop n done none (joinGroups gs ++ ':' :: ':' :: joinGroups hs) =
      some (done ++ gs.flatMap bytesOfGroup ++ hs.flatMap bytesOfGroup, some (done.length + 2 * gs.length), []) := by
  induction gs generalizing n done with
  | nil => exact absurd rfl hne
  | cons g gs ih =>
    obtain ⟨n, rfl⟩ : ∃ m, n = m + 1 := ⟨n - 1, by simp at hn; omega⟩
    have hg := hlt g (by simp)
    by_cases hgs : gs = []
    · subst hgs
      rw [joinGroups_singleton, parse6Loop_ellipsis n done hg]
      by_cases hhs : hs = []
      · subst hhs
        simp [joinGroups, intercalate]
      · obtain ⟨c, rest, hjoin, -⟩ := joinGroups_head hhs
        rw [if_neg (by simp [hjoin]), parse6Loop_join hs hhs hlt' n (by simp at hn; omega)]
        simp
    obtain ⟨c, rest, hjoin, hc⟩ := joinGroups_head hgs
    rw [joinGroups_cons g hgs, append_assoc, cons_append]
    have hcat : joinGroups gs ++ ':' :: ':' :: joinGroups hs =
        c :: (rest ++ ':' :: ':' :: joinGroups hs) := by rw [hjoin]; rfl
    rw [hcat, parse6Loop_group n done none hg (ne_colon_of_isHex hc), ← hcat,
      ih hgs (fun x hx => hlt x (by simp [hx])) n (by simp at hn; omega)]
    simp [length_bytesOfGroup]
    omega

theorem flatMap_replicate_zero (k : Nat) :
    (List.replicate k 0).flatMap bytesOfGroup = List.replicate (2 * k) (0 : UInt8) := by
  induction k with
  | zero => rfl
  | succ k ih => rw [replicate_succ, flatMap_cons, ih]; rfl

theorem length_flatMap_bytesOfGroup (gs : List Nat) : (gs.flatMap bytesOfGroup).length = 2 * gs.length := by
  induction gs with
  | nil => rfl
  | cons g gs ih => simp only [flatMap_cons, length_append, length_bytesOfGroup, ih, length_cons]; omega

theorem parse6_of_isHex (hc : isHex c) :
    parse6 (c :: rest) = match parse6Loop 8 [] none (c :: rest) with
      | some (done, ellipsis, []) => expandEllipsis done ellipsis
      | _ => none := by
  have hne := ne_colon_of_isHex hc
  have htake : (c :: rest).take 2 ≠ [':', ':'] := by simp [hne]
  rw [parse6.eq_def]
  split
  · rename_i heq
    exact absurd (List.cons.inj heq).1 hne
  · simp only [if_neg htake]

theorem parse6_of_ellipsis (hrest : rest ≠ []) :
    parse6 (':' :: ':' :: rest) = match parse6Loop 8 [] (some 0) rest with
      | some (done, ellipsis, []) => expandEllipsis done ellipsis
      | _ => none := by
  rw [parse6.eq_def]
  split
  · rename_i heq
    exact absurd (by simpa using heq) hrest
  · simp

theorem expandEllipsis_run (hlen : gs.length = 8) {r : Nat × Nat} (hr : IsZeroRun gs r) :
    expandEllipsis ((gs.take r.1).flatMap bytesOfGroup ++ (gs.drop r.2).flatMap bytesOfGroup)
      (some (2 * r.1)) = some (gs.flatMap bytesOfGroup) := by
  obtain ⟨hlt, hle, hgs⟩ := hr
  have hfront : ((gs.take r.1).flatMap bytesOfGroup).length = 2 * r.1 := by
    rw [length_flatMap_bytesOfGroup, length_take]
    omega
  have hback : ((gs.drop r.2).flatMap bytesOfGroup).length = 2 * (8 - r.2) := by
    rw [length_flatMap_bytesOfGroup, length_drop, hlen]
  have hmissing : 16 - (2 * r.1 + 2 * (8 - r.2)) = 2 * (r.2 - r.1) := by omega
  rw [expandEllipsis, length_append, hfront, hback, if_pos (by omega), Option.map_some,
    take_left' hfront, drop_left' hfront, hmissing, ← flatMap_replicate_zero,
    ← flatMap_append, ← flatMap_append, ← hgs]

end

theorem parse6_string6 (b : List UInt8) (hb : b.length = 16) : parse6 (string6 b) = some b := by
  have hbytes := flatMap_groupsOf b (by omega)
  have hlen : (groupsOf b).length = 8 := by rw [length_groupsOf, hb]
  have hlt := groupsOf_lt b
  unfold string6
  generalize groupsOf b = gs at hbytes hlen hlt ⊢
  rw [← hbytes]
  cases hrun : zeroRun gs with
  | none =>
    have hne : gs ≠ [] := by rintro rfl; simp at hlen
    obtain ⟨c, rest, hjoin, hc⟩ := joinGroups_head hne
    simp only
    rw [hjoin, parse6_of_isHex hc, ← hjoin, parse6Loop_join gs hne hlt 8 (by omega)]
    simp only [nil_append, expandEllipsis, length_flatMap_bytesOfGroup, hlen]
    rfl
  | some r =>
    have hspec := zeroRun_spec gs r hrun
    have hexpand := expandEllipsis_run hlen hspec
    obtain ⟨hr, hle, hgs⟩ := hspec
    have hback : ∀ g ∈ gs.drop r.2, g < 65536 := fun g hg => hlt g (mem_of_mem_drop hg)
    have hfront : ∀ g ∈ gs.take r.1, g < 65536 := fun g hg => hlt g (mem_of_mem_take hg)
    simp only
    by_cases hstart : gs.take r.1 = []
    · -- the text starts with `::`
      have hzero : r.1 = 0 := by simpa [take_eq_nil_iff, show gs ≠ [] by rintro rfl; simp at hlen] using hstart
      rw [hstart, show joinGroups ([] : List Nat) = [] from rfl, nil_append]
      by_cases hend : gs.drop r.2 = []
      · have hall : r.2 = 8 := by rw [drop_eq_nil_iff] at hend; omega
        rw [hend, hstart, hzero, hall] at hgs
        rw [hend, hgs, append_nil, nil_append, flatMap_replicate_zero]
        rfl
      · obtain ⟨c, rest, hjoin, -⟩ := joinGroups_head hend
        rw [parse6_of_ellipsis (by simp [hjoin]), parse6Loop_join _ hend hback 8 (by simp; omega)]
        simpa [hstart, hzero] using hexpand
    · obtain ⟨c, rest, hjoin, hc⟩ := joinGroups_head hstart
      rw [hjoin, cons_append, parse6_of_isHex hc, ← cons_append, ← hjoin,
        parse6Loop_join_ellipsis _ _ hstart hfront hback 8 (by simp; omega)]
      simpa [show min r.1 gs.length = r.1 by omega] using hexpand

end Galactic.Net
