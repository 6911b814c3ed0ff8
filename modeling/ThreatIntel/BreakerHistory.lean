import Mathlib.Algebra.Order.Ring.Int
import ThreatIntel.Breaker

/-!
# Calls one after another

`CircuitBreaker.call` when no call starts before the one before it has
ended, and every one ends by returning or raising an `Exception`. The three
states, the counter, the time and the probe flag then say no more than the
history does: how many admitted calls have failed since one succeeded, and
when the last of them did (`Follows`). Between two calls the breaker is
never half-open, so a probe that fails takes it from open to open.
-/

namespace ThreatIntel

variable {K T E : Type*}

/-- A call: the clock when it is made, what the awaited function does, and
the clock when that has happened. -/
structure Invocation (K T E : Type*) where
  started : K
  outcome : Except E T
  ended : K

/-- What a caller gets: the error of an open breaker, or what the function
returned or raised. -/
inductive Reply (T E : Type*) where
  | rejected (error : AppError)
  | passed (outcome : Except E T)

namespace CircuitBreaker

/-- The end of an admitted call: `record_failure` in the handler,
`record_success` in the `else` branch. -/
def record (b : CircuitBreaker K) (i : Invocation K T E) : CircuitBreaker K :=
  match i.outcome with
  | .ok _ => b.recordSuccess
  | .error _ => b.recordFailure i.ended

theorem record_config (b : CircuitBreaker K) (i : Invocation K T E) :
    (b.record i).name = b.name ∧ (b.record i).failureThreshold = b.failureThreshold ∧
      (b.record i).recoveryTimeout = b.recoveryTimeout := by
  unfold record recordFailure
  split
  · exact ⟨rfl, rfl, rfl⟩
  · split <;> exact ⟨rfl, rfl, rfl⟩

variable [Sub K] [LinearOrder K]

/-- `call`. -/
def call (b : CircuitBreaker K) (i : Invocation K T E) : Reply T E × CircuitBreaker K :=
  match b.enter i.started with
  | (.error e, b') => (.rejected e, b')
  | (.ok (), b') => (.passed i.outcome, b'.record i)

theorem call_of_closed {b : CircuitBreaker K} (h : b.state = .closed) (i : Invocation K T E) :
    b.call i = (.passed i.outcome, b.record i) := by
  simp [call, enter, canAttempt, h]

theorem call_of_waiting {b : CircuitBreaker K} (h : b.state = .open) {i : Invocation K T E}
    (hwait : i.started - b.openedAt < b.recoveryTimeout) :
    b.call i = (.rejected b.openError, b) := by
  simp [call, enter, canAttempt, h, not_le.mpr hwait]

/-- The call is the probe. -/
theorem call_of_waited {b : CircuitBreaker K} (h : b.state = .open) {i : Invocation K T E}
    (hwaited : b.recoveryTimeout ≤ i.started - b.openedAt) :
    b.call i =
      (.passed i.outcome, { b with state := .halfOpen, probeInFlight := true }.record i) := by
  simp [call, enter, canAttempt, h, hwaited]

end CircuitBreaker

/-! ## The history -/

/-- The calls that have been made and what each got, the newest first. -/
abbrev History (K T E : Type*) := List (Invocation K T E × Reply T E)

namespace History

/-- How many admitted calls have failed since an admitted call succeeded, or
since the beginning. -/
def failures : History K T E → Nat
  | [] => 0
  | (_, .passed (.ok _)) :: _ => 0
  | (_, .passed (.error _)) :: past => failures past + 1
  | (_, .rejected _) :: past => failures past

/-- When the last failure of an admitted call was recorded. -/
def lastFailure : History K T E → Option K
  | [] => none
  | (i, .passed (.error _)) :: _ => some i.ended
  | (_, .passed (.ok _)) :: past => lastFailure past
  | (_, .rejected _) :: past => lastFailure past

end History

/-- A breaker and the calls it has served. -/
structure Session (K T E : Type*) where
  breaker : CircuitBreaker K
  past : History K T E

namespace Session

def new [Zero K] (name : String) (failureThreshold : Int) (recoveryTimeout : K) : Session K T E where
  breaker := .new name failureThreshold recoveryTimeout
  past := []

section

variable [Sub K] [LinearOrder K]

def serve (s : Session K T E) (i : Invocation K T E) : Session K T E where
  breaker := (s.breaker.call i).2
  past := (i, (s.breaker.call i).1) :: s.past

/-! ## The invariant -/

/-- The breaker is what its configuration and the history make of it. -/
structure Follows (name : String) (threshold : Int) (timeout : K) (b : CircuitBreaker K)
    (past : History K T E) : Prop where
  config : b.name = name ∧ b.failureThreshold = threshold ∧ b.recoveryTimeout = timeout
  failures : b.failures = History.failures past
  /-- Half-open is a state within a call. -/
  settled : b.state = .closed ∧ b.failures < threshold ∨
    b.state = .open ∧ threshold ≤ b.failures ∧ History.lastFailure past = some b.openedAt

variable {name : String} {threshold : Int} {timeout : K} {b : CircuitBreaker K}
  {past : History K T E}

omit [Sub K] [LinearOrder K] in
theorem follows_new [Zero K] (name : String) (h : 1 ≤ threshold) (timeout : K) :
    Follows name threshold timeout (.new name threshold timeout) ([] : History K T E) where
  config := ⟨rfl, rfl, rfl⟩
  failures := rfl
  settled := .inl ⟨rfl, show (0 : Int) < threshold by omega⟩

omit [Sub K] [LinearOrder K] in
/-- The end of an admitted call: of one that found the breaker closed, or of
a probe that found it open. -/
theorem Follows.record (h : Follows name threshold timeout b past) (hthreshold : 1 ≤ threshold)
    (i : Invocation K T E) {b' : CircuitBreaker K}
    (hb' : b' = b ∧ b.state = .closed ∨
      b' = { b with state := .halfOpen, probeInFlight := true } ∧ b.state = .open) :
    Follows name threshold timeout (b'.record i) ((i, .passed i.outcome) :: past) := by
  obtain ⟨hname, hlimit, htimeout⟩ := h.config
  have hconfig : b'.name = name ∧ b'.failureThreshold = threshold ∧ b'.recoveryTimeout = timeout := by
    rcases hb' with ⟨rfl, -⟩ | ⟨rfl, -⟩ <;> exact h.config
  have hcount : b'.failures = History.failures past := by
    rcases hb' with ⟨rfl, -⟩ | ⟨rfl, -⟩ <;> exact h.failures
  obtain ⟨hname', hlimit', htimeout'⟩ := b'.record_config i
  have hrest : (b'.record i).failures = History.failures ((i, .passed i.outcome) :: past) ∧
      ((b'.record i).state = .closed ∧ (b'.record i).failures < threshold ∨
        (b'.record i).state = .open ∧ threshold ≤ (b'.record i).failures ∧
          History.lastFailure ((i, .passed i.outcome) :: past) = some (b'.record i).openedAt) := by
    obtain ⟨started, outcome, ended⟩ := i
    cases outcome with
    | ok result => exact ⟨rfl, .inl ⟨rfl, show (0 : Int) < threshold by omega⟩⟩
    | error e =>
        have hfailures : (b'.recordFailure ended).failures = (History.failures past + 1 : Nat) := by
          unfold CircuitBreaker.recordFailure
          split <;> simp [hcount]
        refine ⟨hfailures, ?_⟩
        by_cases hopens : b'.opens = true
        · -- the failure opens the breaker, or opens it anew
          right
          have hfull : threshold ≤ b'.failures + 1 := by
            rcases hb' with ⟨rfl, hclosed⟩ | ⟨rfl, hopen⟩
            · simpa [CircuitBreaker.opens, hclosed, hlimit] using hopens
            · rcases h.settled with ⟨hclosed, -⟩ | ⟨-, hfull, -⟩
              · rw [hopen] at hclosed
                cases hclosed
              · exact hfull.trans (Int.le_add_one (le_refl _))
          simp only [CircuitBreaker.record, CircuitBreaker.recordFailure, hopens, if_true]
          exact ⟨trivial, hfull, rfl⟩
        · left
          simp only [CircuitBreaker.record, CircuitBreaker.recordFailure, hopens]
          rcases hb' with ⟨rfl, hclosed⟩ | ⟨rfl, -⟩
          · exact ⟨hclosed, by simpa [CircuitBreaker.opens, hclosed, hlimit] using hopens⟩
          · simp [CircuitBreaker.opens] at hopens
  exact ⟨⟨hname'.trans hconfig.1, hlimit'.trans hconfig.2.1, htimeout'.trans hconfig.2.2⟩, hrest.1,
    hrest.2⟩

/-- Every call keeps the breaker in line with the history. -/
theorem Follows.call (h : Follows name threshold timeout b past) (hthreshold : 1 ≤ threshold)
    (i : Invocation K T E) :
    Follows name threshold timeout (b.call i).2 ((i, (b.call i).1) :: past) := by
  rcases h.settled with ⟨hclosed, -⟩ | ⟨hopen, hfull, hlast⟩
  · rw [CircuitBreaker.call_of_closed hclosed]
    exact h.record hthreshold i (.inl ⟨rfl, hclosed⟩)
  · rcases lt_or_ge (i.started - b.openedAt) b.recoveryTimeout with hwait | hwaited
    · rw [CircuitBreaker.call_of_waiting hopen hwait]
      exact ⟨h.config, h.failures, .inr ⟨hopen, hfull, hlast⟩⟩
    · rw [CircuitBreaker.call_of_waited hopen hwaited]
      exact h.record hthreshold i (.inr ⟨rfl, hopen⟩)

/-- The verdict on a call by the history: the limit has been reached, and the
last failure is too recent. -/
def Rejecting (threshold : Int) (timeout : K) (past : History K T E) (now : K) : Prop :=
  threshold ≤ History.failures past ∧ ∃ t, History.lastFailure past = some t ∧ now - t < timeout

/-- What a call gets from a breaker that follows the history. -/
theorem Follows.reply (h : Follows name threshold timeout b past) (i : Invocation K T E) :
    (Rejecting threshold timeout past i.started ∧
        (b.call i).1 = .rejected (.raise .circuitOpen "" [("circuit", .str name)])) ∨
      (¬ Rejecting threshold timeout past i.started ∧ (b.call i).1 = .passed i.outcome) := by
  obtain ⟨hname, -, htimeout⟩ := h.config
  rcases h.settled with ⟨hclosed, hfew⟩ | ⟨hopen, hfull, hlast⟩
  · right
    rw [h.failures] at hfew
    exact ⟨fun hreject => absurd hreject.1 (not_le.mpr hfew), by rw [CircuitBreaker.call_of_closed hclosed]⟩
  · rw [h.failures] at hfull
    rcases lt_or_ge (i.started - b.openedAt) timeout with hwait | hwaited
    · left
      refine ⟨⟨hfull, b.openedAt, hlast, hwait⟩, ?_⟩
      rw [CircuitBreaker.call_of_waiting hopen (htimeout ▸ hwait), CircuitBreaker.openError, hname]
    · right
      refine ⟨?_, by rw [CircuitBreaker.call_of_waited hopen (htimeout ▸ hwaited)]⟩
      rintro ⟨-, t, ht, hlt⟩
      obtain rfl := Option.some.inj (hlast.symm.trans ht)
      exact absurd hlt (not_lt.mpr hwaited)

theorem follows_run {s : Session K T E} (h : Follows name threshold timeout s.breaker s.past)
    (hthreshold : 1 ≤ threshold) (calls : List (Invocation K T E)) :
    Follows name threshold timeout (Runs.run serve s calls).breaker (Runs.run serve s calls).past :=
  Runs.run_preserves (I := fun s : Session K T E => Follows name threshold timeout s.breaker s.past)
    (fun _ i hs => hs.call hthreshold i) h calls

/-- **A breaker used by one call at a time** turns a call away if and only
if as many admitted calls as the threshold have failed since one succeeded
and the last failure is less than the timeout ago. A call that is admitted
gets what its function returned or raised. -/
theorem rejected_iff_recent_failures [Zero K] (name : String) (timeout : K)
    (hthreshold : 1 ≤ threshold) (calls : List (Invocation K T E)) (i : Invocation K T E) :
    (((Runs.run serve (new name threshold timeout) calls).breaker.call i).1 =
        .rejected (.raise .circuitOpen "" [("circuit", .str name)]) ↔
      Rejecting threshold timeout (Runs.run serve (new name threshold timeout) calls).past
        i.started) ∧
    (((Runs.run serve (new name threshold timeout) calls).breaker.call i).1 =
        .rejected (.raise .circuitOpen "" [("circuit", .str name)]) ∨
      ((Runs.run serve (new name threshold timeout) calls).breaker.call i).1 =
        .passed i.outcome) := by
  have hrun := follows_run (s := new name threshold timeout) (follows_new name hthreshold timeout)
    hthreshold calls
  rcases hrun.reply i with ⟨hreject, heq⟩ | ⟨hlet, heq⟩
  · exact ⟨iff_of_true heq hreject, .inl heq⟩
  · refine ⟨iff_of_false ?_ hlet, .inr heq⟩
    rw [heq]
    exact nofun

end

/-- Two failures open the breaker, and a probe that fails opens it anew. -/
def sampleCalls : List (Invocation Int String String) :=
  [⟨0, .error "down", 1⟩, ⟨2, .error "down", 3⟩, ⟨9, .error "down", 10⟩]

/-- It comes too early. -/
def sampleCall : Invocation Int String String := ⟨14, .ok "up", 14⟩

theorem rejected_iff_recent_failures_sample :
    (((Runs.run serve (new "feed" 2 5) sampleCalls).breaker.call sampleCall).1 =
        .rejected (.raise .circuitOpen "" [("circuit", .str "feed")]) ↔
      Rejecting 2 5 (Runs.run serve (new "feed" 2 5) sampleCalls).past 14) ∧
    (((Runs.run serve (new "feed" 2 5) sampleCalls).breaker.call sampleCall).1 =
        .rejected (.raise .circuitOpen "" [("circuit", .str "feed")]) ∨
      ((Runs.run serve (new "feed" 2 5) sampleCalls).breaker.call sampleCall).1 =
        .passed (.ok "up")) :=
  rejected_iff_recent_failures "feed" 5 (by decide) sampleCalls sampleCall

/-! ## The same call in the system of calls -/

section

variable [AddCommGroup K] [LinearOrder K]

/-- How the call ends, for a system in which calls overlap. -/
def outcomeOf (i : Invocation K T E) : Outcome :=
  match i.outcome with
  | .ok _ => .returned
  | .error _ => .raised

/-- A call is a start and a finish with nothing in between. -/
theorem breaker_run_call (s : Calls K) (hid : s.nextId ∉ s.running) {i : Invocation K T E}
    (hstarted : s.now ≤ i.started) (hended : i.started ≤ i.ended) :
    (Runs.run Calls.step s [.advance i.started, .start, .advance i.ended,
      .finish s.nextId (outcomeOf i)]).breaker = (s.breaker.call i).2 := by
  simp only [Runs.run_cons, Runs.run_nil, Calls.step, max_eq_right hstarted, Calls.start,
    CircuitBreaker.call]
  cases henter : s.breaker.enter i.started with
  | mk admitted b =>
      cases admitted with
      | error e => simp [Calls.finish, hid]
      | ok u =>
          obtain ⟨started, outcome, ended⟩ := i
          cases outcome with
          | ok result => simp [Calls.finish, outcomeOf, CircuitBreaker.record]
          | error e =>
              simp [Calls.finish, outcomeOf, CircuitBreaker.record, max_eq_right hended]

end

end Session

end ThreatIntel
