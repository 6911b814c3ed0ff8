import Mathlib.Algebra.Order.Group.Defs
import ThreatIntel.Errors
import ThreatIntel.Runs

/-!
# The circuit breaker

`CircuitBreaker` of `app/core/resilience.py`, and the system of calls
that share one breaker.

`call` takes the lock twice, around `_can_attempt` and around the
`record_*` that follows the awaited function. Nothing is awaited while
the lock is held, so each of the two is one step, and the awaited
function in between is where other calls run and where a cancellation
is delivered. A cancelled call raises `CancelledError`, which is not an
`Exception`: it passes both handlers and records nothing.

Times are elements of an ordered group, the values of the injectable
clock.
-/

namespace ThreatIntel

inductive CircuitState where
  | closed
  | «open»
  | halfOpen
  deriving DecidableEq, Repr

structure CircuitBreaker (K : Type*) where
  name : String
  failureThreshold : Int
  recoveryTimeout : K
  state : CircuitState
  failures : Int
  openedAt : K
  probeInFlight : Bool
  deriving DecidableEq, Repr

namespace CircuitBreaker

variable {K : Type*}

/-- A breaker as the dataclass constructor leaves it. -/
def new [Zero K] (name : String) (failureThreshold : Int) (recoveryTimeout : K) :
    CircuitBreaker K :=
  { name, failureThreshold, recoveryTimeout
    state := .closed
    failures := 0
    openedAt := 0
    probeInFlight := false }

/-- `_can_attempt`, with the clock's reading: the answer and the breaker
it leaves behind. -/
def canAttempt [Sub K] [LinearOrder K] (b : CircuitBreaker K) (now : K) : Bool × CircuitBreaker K :=
  match b.state with
  | .closed => (true, b)
  | .open =>
      if b.recoveryTimeout ≤ now - b.openedAt then
        (true, { b with state := .halfOpen, probeInFlight := true })
      else (false, b)
  | .halfOpen =>
      if b.probeInFlight then (false, b)
      else (true, { b with probeInFlight := true })

/-- `record_success`. -/
def recordSuccess (b : CircuitBreaker K) : CircuitBreaker K :=
  { b with failures := 0, state := .closed, probeInFlight := false }

/-- Whether the failure being recorded opens the circuit: the condition
of `record_failure`, after the counter has been raised. -/
def opens (b : CircuitBreaker K) : Bool :=
  b.state = .halfOpen || b.failureThreshold ≤ b.failures + 1

/-- `record_failure`. -/
def recordFailure (b : CircuitBreaker K) (now : K) : CircuitBreaker K :=
  let b' := { b with failures := b.failures + 1, probeInFlight := false }
  if b.opens then { b' with state := .open, openedAt := now } else b'

/-- A recorded failure never leaves the breaker half-open. -/
theorem recordFailure_ne_halfOpen (b : CircuitBreaker K) (now : K) :
    (b.recordFailure now).state ≠ .halfOpen := by
  unfold recordFailure
  by_cases ho : b.opens = true
  · simp [ho]
  · have hst : b.state ≠ .halfOpen := fun h => ho (by simp [opens, h])
    simpa [ho] using hst

theorem recordFailure_openedAt (b : CircuitBreaker K) (now : K) :
    (b.recordFailure now).openedAt = if b.opens then now else b.openedAt := by
  unfold recordFailure
  split <;> rfl

/-- `CircuitOpenError(details={"circuit": self.name})`. -/
def openError (b : CircuitBreaker K) : AppError :=
  .raise .circuitOpen "" [("circuit", .str b.name)]

/-- The first half of `call`: pass, or raise. -/
def enter [Sub K] [LinearOrder K] (b : CircuitBreaker K) (now : K) :
    Except AppError Unit × CircuitBreaker K :=
  match b.canAttempt now with
  | (true, b') => (.ok (), b')
  | (false, b') => (.error b.openError, b')

end CircuitBreaker

/-! ## Calls sharing one breaker -/

/-- How the awaited function of an admitted call ends. -/
inductive Outcome where
  | returned
  | raised
  | cancelled
  deriving DecidableEq, Repr

/-- What can be observed of the breaker over time. -/
inductive BreakerEntry (K : Type*) where
  | admitted (id : Nat) (t : K)
  | refused (error : AppError) (t : K)
  | ended (id : Nat) (outcome : Outcome) (t : K)
  /-- The code's own `circuit_opened` log line. -/
  | opened (t : K)
  deriving DecidableEq, Repr

/-- The breaker, the clock, the admitted calls whose function has not
ended, and the observations so far (newest first). -/
structure Calls (K : Type*) where
  breaker : CircuitBreaker K
  now : K
  running : List Nat
  nextId : Nat
  log : List (BreakerEntry K)
  deriving DecidableEq, Repr

inductive CallEvent (K : Type*) where
  | advance (t : K)
  | start
  | finish (id : Nat) (outcome : Outcome)
  deriving DecidableEq, Repr

namespace Calls

variable {K : Type*}

/-- `call` from the end of the await on: `record_success` in the `else`
branch, `record_failure` in the handler, neither on a cancellation. -/
def finish (s : Calls K) (id : Nat) (outcome : Outcome) : Calls K :=
  if id ∈ s.running then
    let s' := { s with
      running := s.running.erase id
      log := .ended id outcome s.now :: s.log }
    match outcome with
    | .returned => { s' with breaker := s.breaker.recordSuccess }
    | .raised =>
        { s' with
          breaker := s.breaker.recordFailure s.now
          log := if s.breaker.opens then .opened s.now :: s'.log else s'.log }
    | .cancelled => s'
  else s

theorem finish_of_notMem {s : Calls K} {id : Nat} (h : id ∉ s.running) (o : Outcome) :
    s.finish id o = s := by
  simp [finish, h]

theorem finish_returned {s : Calls K} {id : Nat} (h : id ∈ s.running) :
    s.finish id .returned = { s with
      breaker := s.breaker.recordSuccess
      running := s.running.erase id
      log := .ended id .returned s.now :: s.log } := by
  simp [finish, h]

theorem finish_raised {s : Calls K} {id : Nat} (h : id ∈ s.running) :
    s.finish id .raised = { s with
      breaker := s.breaker.recordFailure s.now
      running := s.running.erase id
      log := if s.breaker.opens then .opened s.now :: .ended id .raised s.now :: s.log
        else .ended id .raised s.now :: s.log } := by
  simp [finish, h]

theorem finish_cancelled {s : Calls K} {id : Nat} (h : id ∈ s.running) :
    s.finish id .cancelled = { s with
      running := s.running.erase id
      log := .ended id .cancelled s.now :: s.log } := by
  simp [finish, h]

variable [AddCommGroup K] [LinearOrder K]

def init (name : String) (failureThreshold : Int) (recoveryTimeout start : K) : Calls K :=
  { breaker := .new name failureThreshold recoveryTimeout
    now := start
    running := []
    nextId := 0
    log := [] }

/-- `call` up to the await. -/
def start (s : Calls K) : Calls K :=
  match s.breaker.enter s.now with
  | (.ok (), b) =>
      { s with
        breaker := b
        running := s.nextId :: s.running
        nextId := s.nextId + 1
        log := .admitted s.nextId s.now :: s.log }
  | (.error e, b) => { s with breaker := b, log := .refused e s.now :: s.log }

def step (s : Calls K) : CallEvent K → Calls K
  | .advance t => { s with now := max s.now t }
  | .start => s.start
  | .finish id outcome => s.finish id outcome

/-- A call is either admitted, in one of three ways, or refused. -/
theorem start_cases (s : Calls K) :
    (∃ b : CircuitBreaker K,
        s.start = { s with
          breaker := b
          running := s.nextId :: s.running
          nextId := s.nextId + 1
          log := .admitted s.nextId s.now :: s.log } ∧
        ((s.breaker.state = .closed ∧ b = s.breaker) ∨
          (s.breaker.state = .open ∧ s.breaker.recoveryTimeout ≤ s.now - s.breaker.openedAt ∧
            b = { s.breaker with state := .halfOpen, probeInFlight := true }) ∨
          (s.breaker.state = .halfOpen ∧ s.breaker.probeInFlight = false ∧
            b = { s.breaker with probeInFlight := true }))) ∨
    (s.start = { s with log := .refused s.breaker.openError s.now :: s.log } ∧
        s.breaker.state ≠ .closed) := by
  rcases hst : s.breaker.state with _ | _ | _
  · left
    exact ⟨s.breaker, by simp [start, CircuitBreaker.enter, CircuitBreaker.canAttempt, hst],
      Or.inl ⟨rfl, rfl⟩⟩
  · by_cases hel : s.breaker.recoveryTimeout ≤ s.now - s.breaker.openedAt
    · left
      exact ⟨{ s.breaker with state := .halfOpen, probeInFlight := true },
        by simp [start, CircuitBreaker.enter, CircuitBreaker.canAttempt, hst, hel],
        Or.inr (Or.inl ⟨rfl, hel, rfl⟩)⟩
    · right
      exact ⟨by simp [start, CircuitBreaker.enter, CircuitBreaker.canAttempt, hst, hel], by simp⟩
  · by_cases hp : s.breaker.probeInFlight = true
    · right
      exact ⟨by simp [start, CircuitBreaker.enter, CircuitBreaker.canAttempt, hst, hp], by simp⟩
    · left
      exact ⟨{ s.breaker with probeInFlight := true },
        by simp [start, CircuitBreaker.enter, CircuitBreaker.canAttempt, hst, hp],
        Or.inr (Or.inr ⟨rfl, by simpa using hp, rfl⟩)⟩

end Calls

end ThreatIntel
