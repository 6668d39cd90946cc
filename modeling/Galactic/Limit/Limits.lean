import Mathlib.Data.Rat.Floor

/-!
# The limits of a cell

`Limits` of `internal/fabric/gateway/limit`, with the check that a configuration passes before it is used. Rates are
exact numbers here, where the source has floating-point ones and refuses those that are not finite. -/

namespace Galactic.Limit

structure Rate where
  perSecond : ℚ
  burst : ℚ
  deriving DecidableEq

/-- Twenty hops with one probe each. -/
def traceroutePackets : Nat := 20 * 1

def maxProjectKeys : Int := 4096
def maxDestinationKeys : Int := 16384
def maxAttempts : Int := 4096
def maxAttemptBytes : Int := 2097152
def maxSlots : Int := 8
def maxQueue : Int := 256
def maxStreams : Int := 16
def maxBurstSeconds : ℚ := 120
def maxQueueWait : Int := 10000000000

structure Limits where
  requestCell : Rate
  requestProject : Rate
  packetCell : Rate
  packetPrincipal : Rate
  packetHost : Rate
  packetPrefix : Rate
  slots : Int
  principalSlots : Int
  queue : Int
  principalQueue : Int
  streams : Int
  projectStreams : Int
  queueWait : Int
  projectKeys : Int
  destinationKeys : Int
  attempts : Int
  attemptBytes : Int
  deriving DecidableEq

def defaults : Limits where
  requestCell := ⟨2, 8⟩
  requestProject := ⟨1 / 5, 2⟩
  packetCell := ⟨100, 640⟩
  packetPrincipal := ⟨20, 640⟩
  packetHost := ⟨20, 640⟩
  packetPrefix := ⟨40, 640⟩
  slots := maxSlots
  principalSlots := 2
  queue := maxQueue
  principalQueue := 32
  streams := maxStreams
  projectStreams := 2
  queueWait := maxQueueWait
  projectKeys := maxProjectKeys
  destinationKeys := maxDestinationKeys
  attempts := maxAttempts
  attemptBytes := maxAttemptBytes

/-! ### Validation -/

/-- What `Validate` reports, with the name of the field. -/
inductive LimitError
  | notPositive (name : String)
  | burstTooLong (name : String)
  | cannotFund (name : String) (burst minBurst : ℚ)
  | exceedsCell (name : String)
  | outOfBounds (name : String) (lo hi v : Int)
  | queueWait
  deriving DecidableEq

def checkRate (name : String) (r : Rate) (minBurst : ℚ) : List LimitError :=
  if ¬0 < r.perSecond ∨ ¬0 < r.burst then [.notPositive name]
  else if maxBurstSeconds < r.burst / r.perSecond then [.burstTooLong name]
  else if r.burst < minBurst then [.cannotFund name r.burst minBurst]
  else []

def checkWithin (name : String) (inner outer : Rate) : List LimitError :=
  if outer.perSecond < inner.perSecond ∨ outer.burst < inner.burst then [.exceedsCell name] else []

def checkBound (name : String) (v lo hi : Int) : List LimitError :=
  if v < lo ∨ hi < v then [.outOfBounds name lo hi v] else []

/-- `Limits.Validate`: no error is reported for limits that are accepted. -/
def Limits.validate (l : Limits) : List LimitError :=
  checkRate "request cell" l.requestCell 1 ++ checkRate "request project" l.requestProject 1 ++
  checkRate "packet cell" l.packetCell traceroutePackets ++
  checkRate "packet principal" l.packetPrincipal traceroutePackets ++
  checkRate "packet host" l.packetHost traceroutePackets ++
  checkRate "packet prefix" l.packetPrefix traceroutePackets ++
  checkWithin "request project" l.requestProject l.requestCell ++
  checkWithin "packet principal" l.packetPrincipal l.packetCell ++
  checkWithin "packet host" l.packetHost l.packetCell ++ checkWithin "packet prefix" l.packetPrefix l.packetCell ++
  checkBound "slots" l.slots 1 maxSlots ++ checkBound "principal slots" l.principalSlots 1 l.slots ++
  checkBound "queue" l.queue 1 maxQueue ++ checkBound "principal queue" l.principalQueue 1 l.queue ++
  checkBound "streams" l.streams 1 maxStreams ++ checkBound "project streams" l.projectStreams 1 l.streams ++
  checkBound "project keys" l.projectKeys 1 maxProjectKeys ++
  checkBound "destination keys" l.destinationKeys 2 maxDestinationKeys ++
  checkBound "attempts" l.attempts 1 maxAttempts ++ checkBound "attempt bytes" l.attemptBytes 1 maxAttemptBytes ++
  if l.queueWait ≤ 0 ∨ maxQueueWait < l.queueWait then [.queueWait] else []

theorem positive_of_checkRate {name : String} {r : Rate} {minBurst : ℚ} (h : checkRate name r minBurst = []) :
    0 < r.perSecond ∧ 0 < r.burst := by
  unfold checkRate at h
  split_ifs at h with hpos
  exact ⟨by_contra fun hno => hpos (Or.inl hno), by_contra fun hno => hpos (Or.inr hno)⟩

structure Limits.Positive (l : Limits) : Prop where
  requestCell : 0 < l.requestCell.perSecond ∧ 0 < l.requestCell.burst
  requestProject : 0 < l.requestProject.perSecond ∧ 0 < l.requestProject.burst
  packetCell : 0 < l.packetCell.perSecond ∧ 0 < l.packetCell.burst
  packetPrincipal : 0 < l.packetPrincipal.perSecond ∧ 0 < l.packetPrincipal.burst
  packetHost : 0 < l.packetHost.perSecond ∧ 0 < l.packetHost.burst
  packetPrefix : 0 < l.packetPrefix.perSecond ∧ 0 < l.packetPrefix.burst

theorem Limits.positive_of_validate {l : Limits} (h : l.validate = []) : l.Positive := by
  unfold Limits.validate at h
  simp only [List.append_eq_nil_iff, and_assoc] at h
  obtain ⟨h1, h2, h3, h4, h5, h6, -⟩ := h
  exact ⟨positive_of_checkRate h1, positive_of_checkRate h2, positive_of_checkRate h3, positive_of_checkRate h4,
    positive_of_checkRate h5, positive_of_checkRate h6⟩

theorem validate_defaults : defaults.validate = [] := by decide +kernel

end Galactic.Limit
