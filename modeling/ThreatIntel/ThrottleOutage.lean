import Mathlib.Data.Int.ConditionallyCompleteOrder
import ThreatIntel.Runs
import ThreatIntel.Throttle

/-!
# A Redis outage never opens the lock

Every method of `RedisLoginThrottle` catches what its commands raise, and
`record_failure` counts locally before it turns to the server. So the
private throttle alone has to carry the lock, whatever the server does.

The argument is about one identity and the times of its failures since
the last success, newest first. The private entry counts a first part of
that list (`Window`); the failures behind that part were forgiven when a
lock elapsed, and lie at least a lockout period before everything that
followed. A burst that fits into one lockout period is therefore counted
in full.
-/

namespace ThreatIntel

open Routine
open LoginThrottle (normalise Entry)

/-! ## Redis methods seen from the replica -/

namespace RedisLoginThrottle

variable {K : Type} [Ring K] [LinearOrder K]

/-- All but the server is as in `t`. -/
def LocallySame (t t' : RedisLoginThrottle K) : Prop := t' = { t with redis := t'.redis }

variable {t : RedisLoginThrottle K} {α : Type}

omit [LinearOrder K] in
theorem keeps_execute (fate : Fate) (command : RedisServer K → Except Exn α × RedisServer K) :
    Keeps (LocallySame t) (execute fate command) := by
  intro t' h
  cases fate <;> exact h ▸ rfl

omit [LinearOrder K] in
/-- A call whose exceptions are caught ends with an answer. -/
theorem run_degraded {x : ThrottleRoutine K α} (hx : Keeps (LocallySame t) x) (a : α) :
    ∃ b server, run (degraded x a) t = (.ok b, { t with redis := server }) := by
  have hsame : LocallySame t (run x t).2 := hx t rfl
  rcases hres : run x t with ⟨e | b, t'⟩
  · rw [hres] at hsame
    exact ⟨a, t'.redis, (run_degraded_error hres a).trans (congrArg (Prod.mk _) hsame)⟩
  · rw [hres] at hsame
    exact ⟨b, t'.redis, (run_degraded_ok hres a).trans (congrArg (Prod.mk _) hsame)⟩

variable (lower : String → String) (clock : K) (fates : RedisCommand → Fate) (identity : String)
  (t : RedisLoginThrottle K)

/-- `is_locked` answers yes if the private throttle does. -/
theorem run_isLocked : ∃ found server,
    run (isLocked lower clock fates identity) t =
      (.ok (found || (t.fallback.isLocked lower clock identity).1),
        { t with
          redis := server
          fallback := if found then t.fallback else (t.fallback.isLocked lower clock identity).2 }) := by
  obtain ⟨found, server, h⟩ := run_degraded (t := t) (keeps_execute (fates .exists) fun r =>
    (.ok (r.exists (lockKey (normalise lower identity))), r)) false
  refine ⟨found, server, ?_⟩
  rw [isLocked, run_bind_ok h]
  cases found <;> rfl

theorem run_retryAfter [FloorRing K] : ∃ seconds server,
    run (retryAfter lower clock fates identity) t = (.ok seconds, { t with redis := server }) := by
  obtain ⟨ttl, server, h⟩ := run_degraded (t := t) (keeps_execute (fates .ttl) fun r =>
    (.ok (r.ttl (lockKey (normalise lower identity))), r)) 0
  rw [retryAfter, run_bind_ok h]
  split
  · exact ⟨ttl, server, rfl⟩
  · exact ⟨_, server, rfl⟩

/-- A failure counts locally, whatever becomes of the commands. -/
theorem run_recordFailure : ∃ server,
    run (recordFailure lower clock fates identity) t =
      (.ok (), { t with
        redis := server
        fallback := t.fallback.recordFailure lower clock identity }) := by
  have hkeeps : ∀ t' : RedisLoginThrottle K, Keeps (LocallySame t')
      (countFleetWide fates (normalise lower identity)) := by
    intro t'
    refine (keeps_execute _ _).bind fun failures => Keeps.bind ?_ fun _ => ?_
    · intro u hu
      simp only [startWindow, run]
      split
      · exact keeps_execute _ _ u hu
      · exact hu
    · intro u hu
      simp only [lockAt, run]
      split
      · exact keeps_execute _ _ u hu
      · exact hu
  obtain ⟨⟨⟩, server, h⟩ := run_degraded (hkeeps
    { t with fallback := t.fallback.recordFailure lower clock identity }) ()
  exact ⟨server, h⟩

omit [LinearOrder K] in
theorem run_recordSuccess : ∃ server,
    run (recordSuccess lower fates identity) t =
      (.ok (), { t with
        redis := server
        fallback := t.fallback.recordSuccess lower identity }) := by
  obtain ⟨⟨⟩, server, h⟩ := run_degraded
    (t := { t with fallback := t.fallback.recordSuccess lower identity })
    (keeps_execute (fates .delete) fun r => (.ok (), r.delete
      (failureKey (normalise lower identity)) (lockKey (normalise lower identity)))) ()
  exact ⟨server, h⟩

end RedisLoginThrottle

/-! ## A replica over time -/

/-- A call that was served: when, which method, and for which identity. -/
structure ThrottleCall (K : Type) where
  clock : K
  method : ThrottleMethod
  key : String

/-- One replica: its throttle, its monotonic clock, and the calls it
served, newest first. The clock counts from a point in the past, so no
deadline is ever the zero that stands for no lock. -/
structure Replica (K : Type) [Zero K] [LE K] where
  throttle : RedisLoginThrottle K
  clock : K
  clock_nonneg : 0 ≤ clock
  calls : List (ThrottleCall K)

inductive ReplicaEvent (K : Type) where
  | advance (t : K)
  /-- What time and the other replicas do to the server. -/
  | others (redis : RedisServer K)
  | call (method : ThrottleMethod) (identity : String) (fates : RedisCommand → Fate)

namespace Replica

section

variable {K : Type} [Ring K] [LinearOrder K] [FloorRing K]

/-- One call, its answer aside. -/
def perform (lower : String → String) (clock : K) (fates : RedisCommand → Fate)
    (identity : String) : ThrottleMethod → ThrottleRoutine K Unit
  | .isLocked => do
      let _ ← RedisLoginThrottle.isLocked lower clock fates identity
  | .retryAfter => do
      let _ ← RedisLoginThrottle.retryAfter lower clock fates identity
  | .recordFailure => RedisLoginThrottle.recordFailure lower clock fates identity
  | .recordSuccess => RedisLoginThrottle.recordSuccess lower fates identity

def step (lower : String → String) (r : Replica K) : ReplicaEvent K → Replica K
  | .advance t => { r with clock := max r.clock t, clock_nonneg := le_max_of_le_left r.clock_nonneg }
  | .others redis => { r with throttle := { r.throttle with redis } }
  | .call method identity fates =>
      { r with
        throttle := (run (perform lower r.clock fates identity method) r.throttle).2
        calls := ⟨r.clock, method, normalise lower identity⟩ :: r.calls }

/-- A replica that has just been started. -/
def start (redis : RedisServer K) (maxAttempts lockoutSeconds : Int) (clock : { t : K // 0 ≤ t }) :
    Replica K where
  throttle := { redis, maxAttempts, lockoutSeconds }
  clock := clock
  clock_nonneg := clock.2
  calls := []

end

variable {K : Type}

/-- The times of the `record_failure` calls for `key` since its last
`record_success`, newest first. -/
def failureTimes (key : String) : List (ThrottleCall K) → List K
  | [] => []
  | c :: calls =>
      if c.key = key then
        match c.method with
        | .recordFailure => c.clock :: failureTimes key calls
        | .recordSuccess => []
        | _ => failureTimes key calls
      else failureTimes key calls

/-- The last `maxAttempts` failures fell within less than the lockout
period, and the last of them less than a lockout period ago. -/
def Burst [Ring K] [LinearOrder K] (maxAttempts lockoutSeconds : Int) (clock : K)
    (times : List K) : Prop :=
  ∃ first last, times.head? = some last ∧ times[(maxAttempts - 1).toNat]? = some first ∧
    last - first < lockoutSeconds ∧ clock - last < lockoutSeconds

end Replica

/-! ## The window -/

/-- How the entry of an identity stands to the failures since its last
success: it counts the newest of them, and the others lie a lockout
period before those and before now. -/
structure Window {K : Type} [Ring K] [LinearOrder K] (maxAttempts lockoutSeconds : Int) (clock : K)
    (times : List K) (entry : Entry K) : Prop where
  past : ∀ s ∈ times, 0 ≤ s ∧ s ≤ clock
  sorted : times.Pairwise (· ≥ ·)
  unlocked : (entry.failures : Int) < maxAttempts → entry.lockedUntil = 0
  locked : maxAttempts ≤ entry.failures →
    ∀ last ∈ times.head?, entry.lockedUntil = last + lockoutSeconds
  counted : entry.failures ≤ times.length
  forgiven : ∀ s ∈ times.drop entry.failures, s + lockoutSeconds ≤ clock
  apart : ∀ s ∈ times.drop entry.failures, ∀ u ∈ times.take entry.failures, s + lockoutSeconds ≤ u

namespace Window

variable {K : Type} [Ring K] [LinearOrder K] {maxAttempts lockoutSeconds : Int} {clock : K}
  {times : List K} {entry : Entry K}

theorem nil (hmax : 1 ≤ maxAttempts) : Window maxAttempts lockoutSeconds clock [] {} where
  past := by simp
  sorted := .nil
  unlocked _ := rfl
  locked h := absurd h (by simp; omega)
  counted := le_refl _
  forgiven := by simp
  apart := by simp

theorem advance (h : Window maxAttempts lockoutSeconds clock times entry) {clock' : K}
    (hle : clock ≤ clock') : Window maxAttempts lockoutSeconds clock' times entry :=
  { h with
    past := fun s hs => ⟨(h.past s hs).1, (h.past s hs).2.trans hle⟩
    forgiven := fun s hs => (h.forgiven s hs).trans hle }

/-- One more failure: it is the newest, and it is counted. -/
theorem count (h : Window maxAttempts lockoutSeconds clock times entry) (hclock : 0 ≤ clock)
    {t : InMemoryLoginThrottle K} (hmax : t.maxAttempts = maxAttempts)
    (hlock : t.lockoutSeconds = lockoutSeconds) :
    Window maxAttempts lockoutSeconds clock (clock :: times) (t.count clock entry) where
  past := by
    intro s hs
    rcases List.mem_cons.mp hs with rfl | hs
    · exact ⟨hclock, le_refl _⟩
    · exact h.past s hs
  sorted := List.pairwise_cons.mpr ⟨fun s hs => (h.past s hs).2, h.sorted⟩
  unlocked := by
    intro hlt
    simp only [InMemoryLoginThrottle.count, hmax] at hlt ⊢
    rw [if_neg (not_le.mpr hlt)]
    exact h.unlocked (by push_cast at hlt; omega)
  locked := by
    intro hle last hlast
    simp only [InMemoryLoginThrottle.count, hmax, hlock] at hle ⊢
    obtain rfl : clock = last := by simpa using hlast
    rw [if_pos hle]
  counted := Nat.succ_le_succ h.counted
  forgiven := h.forgiven
  apart := by
    intro s hs u hu
    rcases List.mem_cons.mp hu with rfl | hu
    · exact h.forgiven s hs
    · exact h.apart s hs u hu

/-- A lock that has elapsed forgives every failure, and by then each of
them is a lockout period old. -/
theorem forgive [IsOrderedRing K] (hmax : 1 ≤ maxAttempts)
    (h : Window maxAttempts lockoutSeconds clock times entry) (hset : entry.lockedUntil ≠ 0)
    (helapsed : entry.lockedUntil ≤ clock) :
    Window maxAttempts lockoutSeconds clock times {} := by
  have hfull : maxAttempts ≤ entry.failures := by
    by_contra hlt
    exact hset (h.unlocked (not_le.mp hlt))
  refine { past := h.past, sorted := h.sorted, unlocked := fun _ => rfl, locked := ?_,
           counted := Nat.zero_le _, forgiven := ?_, apart := by simp }
  · intro hle
    exact absurd hle (by simp; omega)
  · intro s hs
    have hs : s ∈ times := by simpa using hs
    cases times with
    | nil => cases hs
    | cons last rest =>
        have hlast : entry.lockedUntil = last + lockoutSeconds := h.locked hfull last rfl
        have hle : s ≤ last := by
          rcases List.mem_cons.mp hs with rfl | hs
          · exact le_refl _
          · exact (List.pairwise_cons.mp h.sorted).1 s hs
        calc s + lockoutSeconds ≤ last + lockoutSeconds := add_le_add_left hle _
          _ = entry.lockedUntil := hlast.symm
          _ ≤ clock := helapsed

/-- During a burst the entry is locked. -/
theorem locked_of_burst [IsOrderedRing K] (hmax : 1 ≤ maxAttempts)
    (h : Window maxAttempts lockoutSeconds clock times entry)
    (hburst : Replica.Burst maxAttempts lockoutSeconds clock times) :
    entry.lockedUntil ≠ 0 ∧ clock < entry.lockedUntil := by
  obtain ⟨first, last, hhead, hfirst, hspan, hnow⟩ := hburst
  rw [sub_lt_iff_lt_add'] at hspan hnow
  have hlastMem : last ∈ times := List.mem_of_mem_head? hhead
  by_cases hfull : maxAttempts ≤ entry.failures
  · -- the burst is counted: the newest failure has set the lock
    have hlock : entry.lockedUntil = last + lockoutSeconds := h.locked hfull last hhead
    have hpast : 0 ≤ last ∧ last ≤ clock := h.past last hlastMem
    rw [hlock]
    exact ⟨(hpast.1.trans_lt (hpast.2.trans_lt hnow)).ne', hnow⟩
  · -- otherwise its first failure has been forgiven, and lies too far back
    have hdrop : first ∈ times.drop entry.failures := by
      have hidx : entry.failures ≤ (maxAttempts - 1).toNat := by omega
      refine List.mem_of_getElem? (i := (maxAttempts - 1).toNat - entry.failures) ?_
      rw [List.getElem?_drop, Nat.add_sub_cancel' hidx, hfirst]
    rcases Nat.eq_zero_or_pos entry.failures with hzero | hpos
    · have hforgiven : last + lockoutSeconds ≤ clock := h.forgiven last (by rw [hzero]; exact hlastMem)
      exact absurd hnow (not_lt.mpr hforgiven)
    · have htake : last ∈ times.take entry.failures := by
        obtain ⟨rest, rfl⟩ := List.head?_eq_some_iff.mp hhead
        obtain ⟨n, hn⟩ := Nat.exists_eq_add_of_lt hpos
        rw [hn]
        simp
      exact absurd hspan (not_lt.mpr (h.apart first hdrop last htake))

end Window

/-! ## Every history -/

namespace Replica

variable {K : Type} [Ring K] [LinearOrder K] [FloorRing K] [IsOrderedRing K]

/-- The private throttle is configured as the replica is, and its entries
are windows onto the failures served. -/
structure Inv (maxAttempts lockoutSeconds : Int) (r : Replica K) : Prop where
  attempts : r.throttle.fallback.maxAttempts = maxAttempts
  seconds : r.throttle.fallback.lockoutSeconds = lockoutSeconds
  window : ∀ key, Window maxAttempts lockoutSeconds r.clock (failureTimes key r.calls)
    (r.throttle.fallback.entry key)

variable {maxAttempts lockoutSeconds : Int} (lower : String → String)

/-- What a call does to the private throttle. -/
theorem inv_call (hmax : 1 ≤ maxAttempts) {r : Replica K} (h : Inv maxAttempts lockoutSeconds r)
    (method : ThrottleMethod) (identity : String) (fates : RedisCommand → Fate) :
    Inv maxAttempts lockoutSeconds (step lower r (.call method identity fates)) := by
  cases method with
  | isLocked =>
      obtain ⟨found, server, hrun⟩ :=
        RedisLoginThrottle.run_isLocked lower r.clock fates identity r.throttle
      simp only [step, perform]
      rw [run_bind_ok hrun]
      cases found with
      | true =>
          refine ⟨h.attempts, h.seconds, fun key => ?_⟩
          simpa [failureTimes] using h.window key
      | false =>
          refine ⟨by simpa using h.attempts, by simpa using h.seconds, fun key => ?_⟩
          have hwindow : Window maxAttempts lockoutSeconds r.clock (failureTimes key r.calls)
              ((r.throttle.fallback.isLocked lower r.clock identity).2.entry key) := by
            rw [InMemoryLoginThrottle.entry_isLocked]
            split
            · next hpop => exact (h.window key).forgive hmax hpop.2.1 hpop.2.2
            · exact h.window key
          simpa [failureTimes] using hwindow
  | retryAfter =>
      obtain ⟨seconds, server, hrun⟩ :=
        RedisLoginThrottle.run_retryAfter lower r.clock fates identity r.throttle
      simp only [step, perform]
      rw [run_bind_ok hrun]
      refine ⟨h.attempts, h.seconds, fun key => ?_⟩
      simpa [failureTimes] using h.window key
  | recordFailure =>
      obtain ⟨server, hrun⟩ :=
        RedisLoginThrottle.run_recordFailure lower r.clock fates identity r.throttle
      simp only [step, perform]
      rw [hrun]
      refine ⟨h.attempts, h.seconds, fun key => ?_⟩
      dsimp only
      rw [InMemoryLoginThrottle.entry_recordFailure]
      by_cases hkey : key = normalise lower identity
      · simpa [failureTimes, hkey] using
          (h.window (normalise lower identity)).count r.clock_nonneg h.attempts h.seconds
      · simpa [failureTimes, hkey, Ne.symm hkey] using h.window key
  | recordSuccess =>
      obtain ⟨server, hrun⟩ :=
        RedisLoginThrottle.run_recordSuccess lower fates identity r.throttle
      simp only [step, perform]
      rw [hrun]
      refine ⟨h.attempts, h.seconds, fun key => ?_⟩
      dsimp only
      rw [InMemoryLoginThrottle.entry_recordSuccess]
      by_cases hkey : key = normalise lower identity
      · have hnil : Window maxAttempts lockoutSeconds r.clock [] {} := .nil hmax
        simpa [failureTimes, hkey] using hnil
      · simpa [failureTimes, hkey, Ne.symm hkey] using h.window key

theorem inv_step (hmax : 1 ≤ maxAttempts) (r : Replica K) (e : ReplicaEvent K)
    (h : Inv maxAttempts lockoutSeconds r) : Inv maxAttempts lockoutSeconds (step lower r e) := by
  cases e with
  | advance t =>
      exact ⟨h.attempts, h.seconds, fun key => (h.window key).advance (le_max_left _ _)⟩
  | others redis => exact ⟨h.attempts, h.seconds, h.window⟩
  | call method identity fates => exact inv_call lower hmax h method identity fates

omit [IsOrderedRing K] in
theorem perform_ok (t : RedisLoginThrottle K) (clock : K) (fates : RedisCommand → Fate)
    (identity : String) (method : ThrottleMethod) :
    ∃ t', run (perform lower clock fates identity method) t = (.ok (), t') := by
  cases method with
  | isLocked =>
      obtain ⟨found, server, h⟩ := RedisLoginThrottle.run_isLocked lower clock fates identity t
      exact ⟨_, by rw [perform, run_bind_ok h]; rfl⟩
  | retryAfter =>
      obtain ⟨seconds, server, h⟩ := RedisLoginThrottle.run_retryAfter lower clock fates identity t
      exact ⟨_, by rw [perform, run_bind_ok h]; rfl⟩
  | recordFailure =>
      obtain ⟨server, h⟩ := RedisLoginThrottle.run_recordFailure lower clock fates identity t
      exact ⟨_, h⟩
  | recordSuccess =>
      obtain ⟨server, h⟩ := RedisLoginThrottle.run_recordSuccess lower fates identity t
      exact ⟨_, h⟩

/-- **An outage never opens the lock.** In every history of a replica,
whatever commands fail and whatever else happens to the server, no method
raises, and an identity that has just failed too often is locked. -/
theorem outage_keeps_lock (redis : RedisServer K) (maxAttempts lockoutSeconds : Int)
    (clock : { t : K // 0 ≤ t }) (history : List (ReplicaEvent K)) :
    let r := Runs.run (step lower) (start redis maxAttempts lockoutSeconds clock) history
    (∀ method identity fates, ∃ t',
      run (perform lower r.clock fates identity method) r.throttle = (.ok (), t')) ∧
    ∀ identity fates, 1 ≤ maxAttempts →
      Burst maxAttempts lockoutSeconds r.clock (failureTimes (normalise lower identity) r.calls) →
      (run (RedisLoginThrottle.isLocked lower r.clock fates identity) r.throttle).1 = .ok true := by
  intro r
  refine ⟨fun method identity fates => perform_ok lower _ _ fates identity method, ?_⟩
  intro identity fates hmax hburst
  have hstart : Inv maxAttempts lockoutSeconds (start redis maxAttempts lockoutSeconds clock) :=
    ⟨rfl, rfl, fun _ => .nil hmax⟩
  have hinv : Inv maxAttempts lockoutSeconds r :=
    Runs.run_preserves (inv_step lower hmax) hstart history
  obtain ⟨hset, hlt⟩ := (hinv.window (normalise lower identity)).locked_of_burst hmax hburst
  obtain ⟨found, server, hrun⟩ :=
    RedisLoginThrottle.run_isLocked lower r.clock fates identity r.throttle
  rw [hrun, InMemoryLoginThrottle.isLocked_eq]
  simp [hset, hlt]

/-- Two failures during an outage, ten seconds apart, and a request
shortly after. -/
def outage : List (ReplicaEvent ℤ) :=
  [.call .recordFailure "a@b.com" fun _ => .refused, .advance 10,
    .call .recordFailure "a@b.com" fun _ => .lost, .advance 200]

theorem outage_keeps_lock_twice :
    let r : Replica ℤ := Runs.run (step id) (start { now := 0 } 2 300 ⟨0, le_refl 0⟩) outage
    (run (RedisLoginThrottle.isLocked id r.clock (fun _ => .refused) "a@b.com") r.throttle).1 =
      .ok true :=
  (outage_keeps_lock id { now := (0 : ℤ) } 2 300 ⟨0, le_refl 0⟩ outage).2 "a@b.com" (fun _ => .refused)
    (by decide) ⟨(0 : ℤ), 10, by decide +kernel, by decide +kernel, by decide, by decide +kernel⟩

end Replica

end ThreatIntel
