import Galactic.Lib.ByteWord
import Mathlib.Tactic

/-!
# Maglev lookup tables

The consistent-hash table of `internal/maglev`: every backend has a permutation of the slots, given by an
offset and a skip that are hashes of its key, and the backends take turns at claiming their next free slot
until none is left. -/

namespace Galactic.Maglev

def offsetSeed : UInt64 := 0xda7a5eed0ffce7e5
def skipSeed : UInt64 := 0x5eedda7a1ceb00c5

def hashKey (key : String) (seed : UInt64) : UInt64 := ByteWord.fnv64a (key.toUTF8.toList ++ ByteWord.bigEndian64 seed)

/-- `IsPrime`: trial division by the odd numbers from `d` on, `fuel` of them at most. -/
def isPrimeLoop (n : Nat) : Nat → Nat → Bool
  | 0, _ => true
  | fuel + 1, d => if n < d * d then true else if n % d = 0 then false else isPrimeLoop n fuel (d + 2)

def isPrime (n : Nat) : Bool :=
  if n < 2 then false else if n % 2 = 0 then n = 2 else isPrimeLoop n n 3

/-! ### Filling -/

/-- The permutation of one backend: step `k` is the slot `offset + k * skip`. -/
structure Permutation where
  offset : Nat
  skip : Nat
  deriving DecidableEq, Repr

def permutation (size : Nat) (key : String) : Permutation :=
  ⟨(hashKey key offsetSeed).toNat % size, (hashKey key skipSeed).toNat % (size - 1) + 1⟩

/-- The slot of step `k`, in 64-bit arithmetic. -/
def Permutation.slot (p : Permutation) (size k : Nat) : Nat := (p.offset + k * p.skip) % 2 ^ 64 % size

/-- The state of `fill`: who claimed each slot, named by its place in the sorted backends, the next step of
each backend, and the number of claims. -/
structure Fill where
  entries : List (Option Nat)
  next : List Nat
  filled : Nat
  deriving DecidableEq, Repr

def Fill.claimed (st : Fill) (slot : Nat) : Bool := (st.entries.getD slot none).isSome

/-- The search of one turn: the first free slot from step `k` on, and the step behind it. The source searches
without a bound; `fuel` steps are enough (`propose_isSome`). -/
def propose (size : Nat) (claimed : Nat → Bool) (p : Permutation) : Nat → Nat → Option (Nat × Nat)
  | 0, _ => none
  | fuel + 1, k =>
    if claimed (p.slot size k) then propose size claimed p fuel (k + 1) else some (p.slot size k, k + 1)

/-- One turn of backend `i`. -/
def claim (size : Nat) (perms : List Permutation) (st : Fill) (i : Nat) : Fill :=
  match propose size st.claimed (perms.getD i ⟨0, 1⟩) size (st.next.getD i 0) with
  | none => st
  | some (slot, next) => ⟨st.entries.set slot (some i), st.next.set i next, st.filled + 1⟩

/-- The inner loop: every backend has one turn, until the table is full. -/
def fillRound (size : Nat) (perms : List Permutation) (st : Fill) : Fill :=
  (List.range perms.length).foldl (fun st i => if st.filled = size then st else claim size perms st i) st

/-- The outer loop, for at most `fuel` rounds. -/
def fillLoop (size : Nat) (perms : List Permutation) : Nat → Fill → Fill
  | 0, st => st
  | fuel + 1, st => if st.filled < size then fillLoop size perms fuel (fillRound size perms st) else st

def emptyFill (size n : Nat) : Fill := ⟨List.replicate size none, List.replicate n 0, 0⟩

/-- `fill`. Every round claims a slot, so that `size` rounds are enough. -/
def fill (size : Nat) (perms : List Permutation) : List (Option Nat) :=
  (fillLoop size perms size (emptyFill size perms.length)).entries

/-! ### Tables -/

inductive Error
  | noBackend
  | tooSmall (size backends : Nat)
  | notPrime (size : Nat)
  | duplicateKey (key : String)
  deriving DecidableEq, Repr

def Error.text : Error → String
  | noBackend => "maglev: at least one backend is required"
  | tooSmall size n =>
    "maglev: table size " ++ toString size ++ " smaller than backend count " ++ toString n
  | notPrime size => "maglev: table size " ++ toString size ++ " is not prime"
  | duplicateKey key => "maglev: duplicate backend key " ++ key.quote

section Table
variable {β : Type} (key : β → String)

structure Table (β : Type) where
  size : Nat
  entries : List (Option Nat)
  backends : List β

def sortByKey (backends : List β) : List β := backends.mergeSort fun a b => key a ≤ key b

def firstDuplicate : List String → Option String
  | a :: b :: rest => if b = a then some b else firstDuplicate (b :: rest)
  | _ => none

def new (backends : List β) (size : Nat) : Except Error (Table β) :=
  if backends.length = 0 then .error .noBackend
  else if size < backends.length then .error (.tooSmall size backends.length)
  else if ¬isPrime size then .error (.notPrime size)
  else
    let sorted := sortByKey key backends
    match firstDuplicate (sorted.map key) with
    | some k => .error (.duplicateKey k)
    | none => .ok ⟨size, fill size (sorted.map fun b => permutation size (key b)), sorted⟩

def Table.lookup (t : Table β) (k : Nat) : Option β := (t.entries.getD (k % t.size) none).bind (t.backends[·]?)

end Table

end Galactic.Maglev
