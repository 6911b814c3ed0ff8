import Mathlib.Algebra.Order.Ring.Int
import ThreatIntel.Breaker

/-!
# The half-open state cannot wedge

While the breaker is half-open it admits nobody until the probe reports
back, so a half-open breaker whose probe is gone would refuse every call
for good. `NotWedged` says that this does not happen; `Recovers` is what
it buys.

A probe that returns or raises reports back. A probe that is cancelled
does not: `CancelledError` passes the `except Exception` handler, and
the flag it took stays up. The state survives such a cancellation only
if some other admitted call, from before the breaker opened, is still
running and will report in the probe's place. `CancelSafe` is that
condition, and `wedgeFree_iff` says that it is exact.
-/

namespace ThreatIntel

namespace Calls

variable {K : Type*} [AddCommGroup K] [LinearOrder K]

/-- A probe that is in flight is still running (or some other admitted
call is). -/
def NotWedged (s : Calls K) : Prop :=
  s.breaker.state = .halfOpen → s.breaker.probeInFlight = true → s.running ≠ []

/-- With no call running, the breaker admits a call once
`recovery_timeout` has elapsed. -/
def Recovers (s : Calls K) : Prop :=
  s.running = [] → ∀ t, s.now ≤ t →
    (s.breaker.state = .open → s.breaker.recoveryTimeout ≤ t - s.breaker.openedAt) →
    (s.breaker.canAttempt t).1 = true

/-- The condition on a step: a cancellation does not hit the only
running call of a half-open breaker. -/
def CancelSafe (s : Calls K) : CallEvent K → Prop
  | .finish id .cancelled => s.breaker.state = .halfOpen → s.running ≠ [id]
  | _ => True

instance (s : Calls K) (e : CallEvent K) : Decidable (CancelSafe s e) := by
  unfold CancelSafe; split <;> infer_instance

theorem recovers_of_notWedged {s : Calls K} (h : NotWedged s) : Recovers s := by
  intro hrun t _ hel
  rcases hst : s.breaker.state with _ | _ | _
  · simp [CircuitBreaker.canAttempt, hst]
  · simp [CircuitBreaker.canAttempt, hst, hel hst]
  · have hp : s.breaker.probeInFlight = false := by
      by_contra hp
      exact h hst (by simpa using hp) hrun
    simp [CircuitBreaker.canAttempt, hst, hp]

/-! ## The half-open state and the probe flag go together -/

/-- A half-open breaker has its probe flag up: the flag comes down only
in `record_*`, and both leave the half-open state. -/
def ProbeFlagged (s : Calls K) : Prop :=
  s.breaker.state = .halfOpen → s.breaker.probeInFlight = true

theorem probeFlagged_step (s : Calls K) (e : CallEvent K) (h : ProbeFlagged s) :
    ProbeFlagged (step s e) := by
  cases e with
  | advance t => exact h
  | start =>
      rcases start_cases s with ⟨b, heq, hb⟩ | ⟨heq, -⟩
      · simp only [step, heq, ProbeFlagged]
        rcases hb with ⟨hc, rfl⟩ | ⟨-, -, rfl⟩ | ⟨-, -, rfl⟩
        · simp [hc]
        · simp
        · simp
      · simp only [step, heq]
        exact h
  | finish id o =>
      by_cases hid : id ∈ s.running
      · cases o with
        | returned =>
            simp [step, finish_returned hid, ProbeFlagged, CircuitBreaker.recordSuccess]
        | raised =>
            intro hst
            simp only [step, finish_raised hid] at hst
            exact absurd hst (CircuitBreaker.recordFailure_ne_halfOpen _ _)
        | cancelled =>
            simp only [step, finish_cancelled hid]
            exact h
      · simpa only [step, finish_of_notMem hid] using h

/-! ## One step -/

theorem erase_eq_nil_iff_singleton {l : List Nat} {id : Nat} (h : id ∈ l) :
    l.erase id = [] ↔ l = [id] := by
  constructor
  · intro he
    have hperm := List.perm_cons_erase h
    rw [he] at hperm
    exact List.perm_singleton.mp hperm
  · rintro rfl
    simp

/-- The step lemma: from a state that is not wedged, a step leads to one
exactly if it meets `CancelSafe`. -/
theorem notWedged_step_iff (s : Calls K) (e : CallEvent K) (hp : ProbeFlagged s)
    (hs : NotWedged s) : NotWedged (step s e) ↔ CancelSafe s e := by
  cases e with
  | advance t => exact iff_of_true hs trivial
  | start =>
      refine iff_of_true ?_ trivial
      rcases start_cases s with ⟨b, heq, -⟩ | ⟨heq, -⟩
      · simp only [step, heq, NotWedged]
        exact fun _ _ => List.cons_ne_nil _ _
      · simp only [step, heq]
        exact hs
  | finish id o =>
      by_cases hid : id ∈ s.running
      · cases o with
        | returned =>
            refine iff_of_true ?_ trivial
            simp [step, finish_returned hid, NotWedged, CircuitBreaker.recordSuccess]
        | raised =>
            refine iff_of_true (fun hst => ?_) trivial
            simp only [step, finish_raised hid] at hst
            exact absurd hst (CircuitBreaker.recordFailure_ne_halfOpen _ _)
        | cancelled =>
            simp only [step, finish_cancelled hid, NotWedged, CancelSafe, ne_eq,
              erase_eq_nil_iff_singleton hid]
            exact ⟨fun h hst => h hst (hp hst), fun h hst _ => h hst⟩
      · have hsafe : CancelSafe s (.finish id o) := by
          cases o with
          | cancelled => exact fun _ hrun => hid (by simp [hrun])
          | returned => trivial
          | raised => trivial
        exact iff_of_true (by simpa only [step, finish_of_notMem hid] using hs) hsafe

/-! ## Whole runs -/

/-- **When the breaker cannot wedge.** In every state of a run the
breaker is not wedged, and recovers when idle, exactly if no
cancellation of the run hits the only running call of a half-open
breaker. -/
theorem wedgeFree_iff (name : String) (failureThreshold : Int) (recoveryTimeout t₀ : K)
    (es : List (CallEvent K)) :
    Runs.Always step (fun s => NotWedged s ∧ Recovers s)
        (init name failureThreshold recoveryTimeout t₀) es ↔
      Runs.Meets step CancelSafe (init name failureThreshold recoveryTimeout t₀) es := by
  refine Runs.always_iff_meets (I := ProbeFlagged) probeFlagged_step ?_ ?_ ?_
  · intro s e hp hs
    rw [← notWedged_step_iff s e hp hs.1]
    exact ⟨fun h => h.1, fun h => ⟨h, recovers_of_notWedged h⟩⟩
  · simp [ProbeFlagged, init, CircuitBreaker.new]
  · have h : NotWedged (init name failureThreshold recoveryTimeout t₀) := by
      simp [NotWedged, init, CircuitBreaker.new]
    exact ⟨h, recovers_of_notWedged h⟩

/-- A run that cancels a probe: the breaker opens on its first failure,
admits the probe thirty time units later, and the probe's caller goes
away. -/
def cancelledProbe : List (CallEvent Int) :=
  [.start, .finish 0 .raised, .advance 30, .start, .finish 1 .cancelled]

/-- Cancelling the probe wedges the breaker: it stays half-open with the
flag up and no call running, and refuses callers at every later time. -/
theorem cancelledProbe_wedges :
    ¬ ∀ es : List (CallEvent Int),
      Runs.Always step (fun s => NotWedged s ∧ Recovers s) (init "collector:otx" 1 30 0) es := by
  intro h
  have hw := (h cancelledProbe).last.1
  exact hw (by decide) (by decide) (by decide)

end Calls

end ThreatIntel
