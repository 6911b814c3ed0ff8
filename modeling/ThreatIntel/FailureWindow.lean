import ThreatIntel.ThrottleFleet

/-!
# The window of a counter

A counter of failures on the shared server is made by one command, and
gets its expiry by another, which only the call sends that has counted to
one. If the first is applied but its reply lost, or the second never
reaches the server, then nobody sends the second again, and the counter
stays until a success deletes it. Here commands may fail, before or after
the server has applied them, and the theorem says when no counter stays
for ever.
-/

namespace ThreatIntel

open Routine
open LoginThrottle (normalise)
open RedisLoginThrottle (failureKey lockKey)

namespace FleetPhase

/-- Where a call goes on when its command fails: whatever is raised is
caught, and only `is_locked` has something left to do. -/
def afterError : FleetPhase → FleetPhase
  | .exists => .consult
  | .consult => .consult
  | _ => .done

/-- The counter has its expiry still to come. -/
def isExpire : FleetPhase → Bool
  | .expire _ => true
  | _ => false

/-- The command that is sent, if it is one. -/
def command? : FleetPhase → Option RedisCommand
  | .exists => some .exists
  | .incr => some .incr
  | .expire _ => some .expire
  | .set => some .set
  | .delete => some .delete
  | .consult => none
  | .done => none

end FleetPhase

namespace Fleet

variable {R K : Type} [DecidableEq R] [Ring K] [LinearOrder K]

/-- A call sends its next command, which fares as it may. -/
def send (lower : String → String) (s : Fleet R K) (call : Nat) (c : FleetCall R) :
    Fate → Fleet R K
  | .answered => s.proceed lower call c
  | .lost => { s with redis := (s.proceed lower call c).redis }.goto call c c.phase.afterError
  | .refused => s.goto call c c.phase.afterError

/-- What happens, and how the command fares if it is one. -/
abbrev FatedEvent (R K : Type) := FleetEvent R K × Fate

def fatedStep (lower : String → String) (s : Fleet R K) : FatedEvent R K → Fleet R K
  | (.proceed call, fate) =>
      match s.calls[call]? with
      | some c => s.send lower call c fate
      | none => s
  | (e, _) => step lower s e

/-- Without failures it is the healthy fleet. -/
theorem fatedStep_answered (lower : String → String) (s : Fleet R K) (e : FleetEvent R K) :
    fatedStep lower s (e, .answered) = step lower s e := by
  cases e <;> rfl

/-! ## The steps in a row are the methods -/

/-- The next command of a call fares as the fates say. -/
def sendBy (lower : String → String) (fates : RedisCommand → Fate) (s : Fleet R K) (call : Nat) :
    Fleet R K :=
  match s.calls[call]? with
  | some c => s.send lower call c ((c.phase.command?.map fates).getD .answered)
  | none => s

omit [LinearOrder K] in
/-- One command, and what follows it if it is answered. -/
theorem run_execute_bind {α β : Type} (fate : Fate)
    (command : RedisServer K → Except Exn α × RedisServer K) (f : α → ThrottleRoutine K β)
    (t : RedisLoginThrottle K) :
    run (RedisLoginThrottle.execute fate command >>= f) t =
      match fate with
      | .answered => run (RedisLoginThrottle.execute .answered command >>= f) t
      | .lost => (.error .redis, { t with redis := (command t.redis).2 })
      | .refused => (.error .redis, t) := by
  cases fate <;> rfl

variable {lower : String → String} {s : Fleet R K} {r : R} {identity : String} {n : Nat}

/-- A call that has ended sends nothing. -/
theorem sendBy_done (fates : RedisCommand → Fate) {c : FleetCall R} (hc : s.calls[n]? = some c)
    (hphase : c.phase = .done) : sendBy lower fates s n = s := by
  simp [sendBy, hc, send, proceed, hphase, FleetPhase.command?]

theorem sendBy_eq (fates : RedisCommand → Fate) {c : FleetCall R} (hc : s.calls[n]? = some c)
    {command : RedisCommand} (hcommand : c.phase.command? = some command) :
    sendBy lower fates s n = s.send lower n c (fates command) := by
  simp [sendBy, hc, hcommand]

/-- The lock that is set in the end. -/
theorem sendBy_set (fates : RedisCommand → Fate) (hc : s.calls[n]? = some ⟨r, identity, .set⟩) :
    (sendBy lower fates s n).throttle r =
        (run (RedisLoginThrottle.execute (fates .set) (RedisServer.setEx
          (lockKey (normalise lower identity)) 1 s.lockoutSeconds)) (s.throttle r)).2 ∧
      (sendBy lower fates s n).calls[n]? = some ⟨r, identity, .done⟩ := by
  obtain ⟨hlt, -⟩ := List.getElem?_eq_some_iff.mp hc
  rw [sendBy_eq fates hc rfl]
  cases fates .set <;>
    simp [send, proceed, goto, throttle, FleetPhase.afterError, RedisLoginThrottle.execute, run, hlt]

/-- What is left once the window has been started. -/
theorem sendBy_afterWindow (fates : RedisCommand → Fate) {failures : Int}
    (hc : s.calls[n]? = some ⟨r, identity, s.afterWindow failures⟩) :
    (sendBy lower fates s n).throttle r = (run (RedisLoginThrottle.lockAt fates
      (normalise lower identity) failures) (s.throttle r)).2 ∧
      (sendBy lower fates s n).calls[n]? = some ⟨r, identity, .done⟩ := by
  by_cases hmax : s.maxAttempts ≤ failures
  · rw [afterWindow, if_pos hmax] at hc
    simpa [RedisLoginThrottle.lockAt, run, throttle, hmax] using sendBy_set fates hc
  · rw [afterWindow, if_neg hmax] at hc
    rw [sendBy_done fates hc rfl]
    exact ⟨by simp [RedisLoginThrottle.lockAt, run, throttle, hmax], hc⟩

/-- What is left once the failure has been counted. -/
theorem sendBy_afterIncr (fates : RedisCommand → Fate) {failures : Int}
    (hc : s.calls[n]? = some ⟨r, identity, s.afterIncr failures⟩) :
    (Runs.run (sendBy lower fates) s [n, n]).throttle r =
      (run (RedisLoginThrottle.startWindow fates (normalise lower identity) failures >>= fun _ =>
        RedisLoginThrottle.lockAt fates (normalise lower identity) failures) (s.throttle r)).2 := by
  obtain ⟨hlt, -⟩ := List.getElem?_eq_some_iff.mp hc
  simp only [Runs.run_cons, Runs.run_nil]
  by_cases hone : failures = 1
  · rw [afterIncr, if_pos hone] at hc
    rw [sendBy_eq fates hc rfl]
    have hstart : run (RedisLoginThrottle.startWindow fates (normalise lower identity) failures)
        (s.throttle r) = run (RedisLoginThrottle.execute (fates .expire) (fun redis => (.ok (),
          redis.expire (failureKey (normalise lower identity)) s.lockoutSeconds)))
            (s.throttle r) := by
      rw [run, RedisLoginThrottle.startWindow, if_pos hone]
      rfl
    rw [run_bind_congr hstart, run_execute_bind]
    cases fates .expire with
    | answered =>
        refine (sendBy_afterWindow fates ?_).1
        simp only [send, proceed, goto, List.getElem?_set_self hlt]
        rfl
    | lost =>
        rw [sendBy_done fates (c := ⟨r, identity, .done⟩)
          (by simp [send, goto, FleetPhase.afterError, hlt]) rfl]
        simp [send, proceed, goto, throttle]
    | refused =>
        rw [sendBy_done fates (c := ⟨r, identity, .done⟩)
          (by simp [send, goto, FleetPhase.afterError, hlt]) rfl]
        simp [send, goto, throttle]
  · rw [afterIncr, if_neg hone] at hc
    obtain ⟨hthrottle, hdone⟩ : (sendBy lower fates s n).throttle r = _ ∧
        (sendBy lower fates s n).calls[n]? = _ := sendBy_afterWindow fates hc
    have hstart : run (RedisLoginThrottle.startWindow fates (normalise lower identity) failures)
        (s.throttle r) = (.ok (), s.throttle r) := by
      rw [run, RedisLoginThrottle.startWindow, if_neg hone]
    rw [run_bind_ok hstart, sendBy_done fates hdone rfl, hthrottle]

/-- What is left of the commands of `record_failure`. -/
theorem sendBy_incr (fates : RedisCommand → Fate)
    (hc : s.calls[n]? = some ⟨r, identity, .incr⟩) :
    (Runs.run (sendBy lower fates) s [n, n, n]).throttle r =
      (run (RedisLoginThrottle.countFleetWide fates (normalise lower identity))
        (s.throttle r)).2 := by
  obtain ⟨hlt, -⟩ := List.getElem?_eq_some_iff.mp hc
  rw [Runs.run_cons, sendBy_eq fates hc rfl, RedisLoginThrottle.countFleetWide, run_execute_bind]
  cases fates .incr with
  | answered =>
      rcases hincr : s.redis.incr (failureKey (normalise lower identity)) with ⟨failures, counted⟩
      have hcount : run (RedisLoginThrottle.execute .answered fun redis =>
          (.ok (redis.incr (failureKey (normalise lower identity))).1,
            (redis.incr (failureKey (normalise lower identity))).2)) (s.throttle r) =
          (.ok failures, { s.throttle r with redis := counted }) := by
        simp [run, RedisLoginThrottle.execute, throttle, hincr]
      dsimp only
      have hnext : (s.send lower n ⟨r, identity, .incr⟩ .answered).calls[n]? =
          some ⟨r, identity, (s.send lower n ⟨r, identity, .incr⟩ .answered).afterIncr
            failures⟩ := by
        simp only [send, proceed, goto, hincr, List.getElem?_set_self hlt]
        rfl
      rw [run_bind_ok hcount, sendBy_afterIncr fates hnext]
      simp [send, proceed, goto, throttle, hincr]
  | lost =>
      simp only [Runs.run_cons, Runs.run_nil]
      have hdone : (s.send lower n ⟨r, identity, .incr⟩ .lost).calls[n]? =
          some ⟨r, identity, .done⟩ := by simp [send, goto, FleetPhase.afterError, hlt]
      rw [sendBy_done fates hdone rfl, sendBy_done fates hdone rfl]
      simp [send, proceed, goto, throttle]
  | refused =>
      simp only [Runs.run_cons, Runs.run_nil]
      have hdone : (s.send lower n ⟨r, identity, .incr⟩ .refused).calls[n]? =
          some ⟨r, identity, .done⟩ := by simp [send, goto, FleetPhase.afterError, hlt]
      rw [sendBy_done fates hdone rfl, sendBy_done fates hdone rfl]
      simp [send, goto, throttle]

/-- A `record_failure` that nothing interrupts leaves what the method
leaves, whichever commands fail. -/
theorem solo_recordFailure (lower : String → String) (fates : RedisCommand → Fate) (s : Fleet R K)
    (r : R) (identity : String) :
    let n := s.calls.length
    let s' := Runs.run (sendBy lower fates) (step lower s (.start r .recordFailure identity))
      [n, n, n]
    s'.throttle r =
      (run (RedisLoginThrottle.recordFailure lower (s.clock r) fates identity) (s.throttle r)).2 := by
  intro n s'
  have hc : (step lower s (.start r .recordFailure identity)).calls[n]? =
      some ⟨r, identity, .incr⟩ := by simp [step, n]
  rw [RedisLoginThrottle.recordFailure, RedisLoginThrottle.run_onFallback_bind,
    RedisLoginThrottle.run_degraded_unit]
  refine (sendBy_incr fates hc).trans ?_
  simp [step, throttle]

/-- And so does a `record_success`. -/
theorem solo_recordSuccess (lower : String → String) (fates : RedisCommand → Fate) (s : Fleet R K)
    (r : R) (identity : String) :
    let n := s.calls.length
    let s' := sendBy lower fates (step lower s (.start r .recordSuccess identity)) n
    s'.throttle r =
      (run (RedisLoginThrottle.recordSuccess lower fates identity) (s.throttle r)).2 := by
  intro n s'
  have hc : (step lower s (.start r .recordSuccess identity)).calls[n]? =
      some ⟨r, identity, .delete⟩ := by simp [step, n]
  rw [RedisLoginThrottle.recordSuccess, RedisLoginThrottle.run_onFallback_bind,
    RedisLoginThrottle.run_degraded_unit]
  simp only [s', sendBy_eq fates hc rfl]
  cases fates .delete <;>
    simp [send, proceed, goto, step, throttle, RedisLoginThrottle.execute, run]

end Fleet

/-! ## What the commands do to a key that has not expired -/

namespace RedisServer

variable {K : Type}

section

variable [LinearOrder K] (r : RedisServer K) {r' : RedisServer K} {key : String}

theorem live?_congr (hnow : r'.now = r.now) (hkey : r'.keys.get? key = r.keys.get? key) :
    r'.live? key = r.live? key := by rw [live?, live?, hnow, hkey]

theorem get?_of_live? {entry : RedisEntry K} (h : r.live? key = some entry) :
    r.keys.get? key = some entry := by
  rcases r.live?_cases key with hlive | hlive
  · rw [hlive] at h
    cases h
  · rwa [hlive] at h

/-- As time passes keys only expire. -/
theorem live?_mono {t : K} (ht : r.now ≤ t) {entry : RedisEntry K}
    (h : { r with now := t }.live? key = some entry) : r.live? key = some entry := by
  obtain ⟨hget, hexpires⟩ := Option.filter_eq_some_iff.mp h
  refine Option.filter_eq_some_iff.mpr ⟨hget, ?_⟩
  cases hentry : entry.expiresAt with
  | none => rfl
  | some u =>
      rw [hentry] at hexpires
      exact decide_eq_true (ht.trans_lt (of_decide_eq_true hexpires))

/-- A counter keeps its expiry, and a new one has none. -/
theorem live?_incr_self (key : String) :
    (r.incr key).2.live? key = some
      { value := (r.incr key).1, expiresAt := (r.live? key).bind RedisEntry.expiresAt } := by
  rw [live?]
  refine Option.filter_eq_some_iff.mpr ⟨?_, ?_⟩
  · rw [incr, Dict.get?_set_self]
    cases r.live? key <;> rfl
  · cases hlive : r.live? key with
    | none => rfl
    | some entry => exact (Option.filter_eq_some_iff.mp hlive).2

theorem incr_eq_one_of_not_exists (h : r.exists key = false) : (r.incr key).1 = 1 := by
  rw [«exists», Option.isSome_eq_false_iff, Option.isNone_iff_eq_none] at h
  simp [incr, h]

end

variable [Ring K] [LinearOrder K] (r : RedisServer K) {key : String}

/-- A key that is given an expiry has it from now on, or is gone. -/
theorem expiresAt_expire {seconds : Int} {entry : RedisEntry K}
    (h : (r.expire key seconds).keys.get? key = some entry) (hlive : r.exists key = true) :
    entry.expiresAt = some (r.now + seconds) := by
  obtain ⟨old, hold⟩ := Option.isSome_iff_exists.mp hlive
  simp only [expire, hold] at h
  split at h
  · simp at h
  · rw [Dict.get?_set_self] at h
    cases h
    rfl

theorem now_expire (key : String) (seconds : Int) : (r.expire key seconds).now = r.now := by
  rw [expire]
  split
  · rfl
  · split <;> rfl

omit [LinearOrder K] in
theorem now_setEx (key : String) (value seconds : Int) :
    (r.setEx key value seconds).2.now = r.now := by
  rw [setEx]
  split <;> rfl

end RedisServer

namespace Fleet

variable {R K : Type} [Ring K] [LinearOrder K]

/-! ## The condition -/

/-- A call for `key` has its `EXPIRE` still to send. -/
def starting (lower : String → String) (calls : List (FleetCall R)) (key : String) : Bool :=
  calls.any fun c => decide (normalise lower c.identity = key) && c.phase.isExpire

/-- The counter of `key`, if there is one, has a time to live of at most
the lockout period. -/
def Expires (s : Fleet R K) (key : String) : Prop :=
  ∀ entry ∈ s.redis.live? (failureKey key),
    ∃ t, entry.expiresAt = some t ∧ t - s.redis.now ≤ s.lockoutSeconds

/-- **Failure windows always expire.** Every counter has its time to live,
but for one that is about to get it. -/
def WindowsExpire (lower : String → String) (s : Fleet R K) : Prop :=
  ∀ key, starting lower s.calls key = false → s.Expires key

/-- The command makes a counter and its reply is lost, or it would start
the window of a counter that has none and does not reach the server. -/
def LosesWindow (lower : String → String) (s : Fleet R K) (c : FleetCall R) (fate : Fate) : Prop :=
  let key := failureKey (normalise lower c.identity)
  (c.phase = .incr ∧ fate = .lost ∧ s.redis.exists key = false) ∨
    (c.phase.isExpire = true ∧ fate = .refused ∧
      ∃ entry ∈ s.redis.live? key, entry.expiresAt = none)

/-- The condition on a step: it loses no window, unless another call is
about to start one for the same counter. -/
def Spares (lower : String → String) (s : Fleet R K) : FatedEvent R K → Prop
  | (.proceed call, fate) =>
      ∀ c ∈ s.calls[call]?, LosesWindow lower s c fate →
        starting lower (s.calls.eraseIdx call) (normalise lower c.identity) = true
  | _ => True

/-! ## One command -/

/-- The server once the command of a call has been applied. -/
def applied (lower : String → String) (s : Fleet R K) (c : FleetCall R) : RedisServer K :=
  let key := normalise lower c.identity
  match c.phase with
  | .incr => (s.redis.incr (failureKey key)).2
  | .expire _ => s.redis.expire (failureKey key) s.lockoutSeconds
  | .set => (s.redis.setEx (lockKey key) 1 s.lockoutSeconds).2
  | .delete => s.redis.delete (failureKey key) (lockKey key)
  | _ => s.redis

/-- What a call does when it sends its next command. -/
structure Sent (lower : String → String) (s : Fleet R K) (call : Nat) (c : FleetCall R)
    (fate : Fate) (s' : Fleet R K) : Prop where
  redis : s'.redis = if fate = .refused then s.redis else s.applied lower c
  lockoutSeconds : s'.lockoutSeconds = s.lockoutSeconds
  calls : ∃ phase : FleetPhase, s'.calls = s.calls.set call { c with phase } ∧
    (phase.isExpire = true ↔ c.phase = .incr ∧ fate = .answered ∧
      (s.redis.incr (failureKey (normalise lower c.identity))).1 = 1)

variable {lower : String → String} {s : Fleet R K} {call : Nat} {c : FleetCall R}

omit [LinearOrder K] in
theorem isExpire_afterWindow (s : Fleet R K) (failures : Int) :
    (s.afterWindow failures).isExpire = false := by
  rw [afterWindow]
  split <;> rfl

omit [LinearOrder K] in
theorem isExpire_afterIncr (s : Fleet R K) (failures : Int) :
    (s.afterIncr failures).isExpire = true ↔ failures = 1 := by
  rw [afterIncr]
  split
  · next h => simp [h, FleetPhase.isExpire]
  · next h => simp [h, isExpire_afterWindow]

theorem sent [DecidableEq R] (hc : s.calls[call]? = some c) (fate : Fate) :
    Sent lower s call c fate (s.send lower call c fate) := by
  obtain ⟨replica, identity, phase⟩ := c
  cases fate with
  | refused =>
      refine ⟨rfl, rfl, phase.afterError, rfl, ?_⟩
      cases phase <;> simp [FleetPhase.afterError, FleetPhase.isExpire]
  | lost =>
      refine ⟨?_, rfl, phase.afterError, rfl, ?_⟩
      · cases phase with
        | «exists» =>
            simp only [send, goto, proceed]
            split <;> rfl
        | _ => rfl
      · cases phase <;> simp [FleetPhase.afterError, FleetPhase.isExpire]
  | answered =>
      cases phase with
      | «exists» =>
          simp only [send, proceed]
          split
          · exact ⟨rfl, rfl, .done, rfl, by simp [FleetPhase.isExpire]⟩
          · exact ⟨rfl, rfl, .consult, rfl, by simp [FleetPhase.isExpire]⟩
      | consult => exact ⟨rfl, rfl, .done, rfl, by simp [FleetPhase.isExpire]⟩
      | incr =>
          refine ⟨rfl, rfl, _, rfl, ?_⟩
          rw [isExpire_afterIncr]
          exact ⟨fun h => ⟨rfl, rfl, h⟩, fun h => h.2.2⟩
      | expire failures => exact ⟨rfl, rfl, _, rfl, by simp [isExpire_afterWindow]⟩
      | set => exact ⟨rfl, rfl, .done, rfl, by simp [FleetPhase.isExpire]⟩
      | delete => exact ⟨rfl, rfl, .done, rfl, by simp [FleetPhase.isExpire]⟩
      | done =>
          obtain ⟨hlt, hget⟩ := List.getElem?_eq_some_iff.mp hc
          have hset : s.calls.set call ⟨replica, identity, .done⟩ = s.calls := by
            rw [← hget, List.set_getElem_self]
          exact ⟨rfl, rfl, .done, hset.symm, by simp [FleetPhase.isExpire]⟩

theorem now_applied (lower : String → String) (s : Fleet R K) (c : FleetCall R) :
    (s.applied lower c).now = s.redis.now := by
  rw [applied]
  split
  · rfl
  · exact s.redis.now_expire _ _
  · exact s.redis.now_setEx _ _ _
  · rfl
  · rfl

/-- The counters of other identities are not touched. -/
theorem get?_applied_ne {key : String} (h : key ≠ normalise lower c.identity) :
    (s.applied lower c).keys.get? (failureKey key) = s.redis.keys.get? (failureKey key) := by
  have hne : failureKey key ≠ failureKey (normalise lower c.identity) := fun heq =>
    h (RedisLoginThrottle.failureKey_injective heq)
  rw [applied]
  split
  · exact s.redis.get?_incr_ne hne
  · exact s.redis.get?_expire_ne hne _
  · exact s.redis.get?_setEx_ne (RedisLoginThrottle.failureKey_ne_lockKey _ _) _ _
  · rw [s.redis.get?_delete]
    exact if_neg fun hor => hor.elim hne (RedisLoginThrottle.failureKey_ne_lockKey _ _)
  · rfl

/-- What the command of a call does to the counter of its identity. -/
theorem live?_applied {entry : RedisEntry K}
    (h : (s.applied lower c).live? (failureKey (normalise lower c.identity)) = some entry) :
    (c.phase = .incr ∧ entry.expiresAt =
        (s.redis.live? (failureKey (normalise lower c.identity))).bind RedisEntry.expiresAt) ∨
      (c.phase.isExpire = true ∧ entry.expiresAt = some (s.redis.now + s.lockoutSeconds)) ∨
        (c.phase ≠ .incr ∧ c.phase.isExpire = false ∧
          s.redis.live? (failureKey (normalise lower c.identity)) = some entry) := by
  obtain ⟨replica, identity, phase⟩ := c
  cases phase with
  | incr =>
      refine .inl ⟨rfl, ?_⟩
      have hself := s.redis.live?_incr_self (failureKey (normalise lower identity))
      exact (congrArg RedisEntry.expiresAt (Option.some.inj (hself.symm.trans h))).symm
  | expire failures =>
      refine .inr (.inl ⟨rfl, ?_⟩)
      have hget := RedisServer.get?_of_live? _ h
      cases hlive : s.redis.exists (failureKey (normalise lower identity)) with
      | true => exact s.redis.expiresAt_expire hget hlive
      | false =>
          rw [RedisServer.exists, Option.isSome_eq_false_iff, Option.isNone_iff_eq_none] at hlive
          simp only [applied, RedisServer.expire, hlive] at h
          cases h
  | delete =>
      have hget := RedisServer.get?_of_live? _ h
      simp [applied, s.redis.get?_delete] at hget
  | set =>
      refine .inr (.inr ⟨by simp, rfl, ?_⟩)
      rw [← h]
      exact (s.redis.live?_congr (s.redis.now_setEx _ _ _)
        (s.redis.get?_setEx_ne (RedisLoginThrottle.failureKey_ne_lockKey _ _) _ _)).symm
  | _ => exact .inr (.inr ⟨by simp, rfl, h⟩)

/-! ## The invariant -/

/-- No counter has a time to live of more than the lockout period. -/
def Bounded (s : Fleet R K) : Prop :=
  ∀ key entry t, s.redis.live? (failureKey key) = some entry → entry.expiresAt = some t →
    t ≤ s.redis.now + s.lockoutSeconds

theorem bounded_initial (maxAttempts lockoutSeconds : Int) (now : K) (clock : R → K) :
    (initial maxAttempts lockoutSeconds now clock).Bounded := by
  intro key entry t h
  have hget := RedisServer.get?_of_live? _ h
  simp [initial] at hget

/-- What another identity has on the server is what it had. -/
theorem live?_sent_ne {fate : Fate} {s' : Fleet R K} (h : Sent lower s call c fate s')
    {key : String} (hkey : key ≠ normalise lower c.identity) :
    s'.redis.live? (failureKey key) = s.redis.live? (failureKey key) := by
  rw [h.redis]
  split
  · rfl
  · exact s.redis.live?_congr (now_applied lower s c) (get?_applied_ne hkey)

theorem now_sent {fate : Fate} {s' : Fleet R K} (h : Sent lower s call c fate s') :
    s'.redis.now = s.redis.now := by
  rw [h.redis]
  split
  · rfl
  · exact now_applied lower s c

theorem bounded_sent {fate : Fate} {s' : Fleet R K} (h : Sent lower s call c fate s')
    (hs : s.Bounded) : s'.Bounded := by
  intro key entry t hlive hexpires
  rw [now_sent h, h.lockoutSeconds]
  by_cases hkey : key = normalise lower c.identity
  · rw [h.redis, hkey] at hlive
    split at hlive
    · exact hs _ entry t hlive hexpires
    · rcases live?_applied hlive with ⟨-, hsame⟩ | ⟨-, hnew⟩ | ⟨-, -, hsame⟩
      · rw [hexpires] at hsame
        obtain ⟨old, hold, hold'⟩ := Option.bind_eq_some_iff.mp hsame.symm
        exact hs _ old t hold hold'
      · rw [hexpires] at hnew
        rw [Option.some.inj hnew]
      · exact hs _ entry t hsame hexpires
  · rw [live?_sent_ne h hkey] at hlive
    exact hs key entry t hlive hexpires

/-! ## What a step does to the windows -/

section

variable {fate : Fate} {s' : Fleet R K}

/-- The calls for an identity, once one of them has sent its command. -/
theorem starting_sent (hc : s.calls[call]? = some c) (h : Sent lower s call c fate s')
    (key : String) :
    starting lower s'.calls key = true ↔
      starting lower (s.calls.eraseIdx call) key = true ∨
        normalise lower c.identity = key ∧ c.phase = .incr ∧ fate = .answered ∧
          (s.redis.incr (failureKey (normalise lower c.identity))).1 = 1 := by
  obtain ⟨phase, hcalls, hphase⟩ := h.calls
  rw [hcalls, starting, InFlight.any_set hc, Bool.or_eq_true, Bool.and_eq_true, decide_eq_true_eq,
    hphase, starting]

variable [IsOrderedRing K]

/-- The counter of the identity itself, which no other call is about to
give its window. -/
theorem expires_sent_iff (hc : s.calls[call]? = some c) (h : Sent lower s call c fate s')
    (hbounded : s.Bounded) (hs : WindowsExpire lower s)
    (hothers : starting lower (s.calls.eraseIdx call) (normalise lower c.identity) = false) :
    (starting lower s'.calls (normalise lower c.identity) = false →
        s'.Expires (normalise lower c.identity)) ↔
      ¬ LosesWindow lower s c fate := by
  have hstarting := starting_sent hc h (normalise lower c.identity)
  -- what the counter had, if the call was not about to start its window
  have hbefore : c.phase.isExpire = false → s.Expires (normalise lower c.identity) := by
    intro hphase
    refine hs _ ?_
    rw [starting, InFlight.any_eq_others hc]
    rw [starting] at hothers
    simp [hothers, hphase]
  constructor
  · rintro hafter (⟨hphase, rfl, hmissing⟩ | ⟨hphase, rfl, entry, hlive, hnone⟩)
    · have hidle : starting lower s'.calls (normalise lower c.identity) = false := by
        rw [← Bool.not_eq_true, hstarting]
        simp [hothers]
      have hself := s.redis.live?_incr_self (failureKey (normalise lower c.identity))
      rw [RedisServer.exists, Option.isSome_eq_false_iff, Option.isNone_iff_eq_none] at hmissing
      have hredis : s'.redis = (s.redis.incr (failureKey (normalise lower c.identity))).2 := by
        rw [h.redis, if_neg (by decide), applied, hphase]
      obtain ⟨t, ht, -⟩ := hafter hidle _ (by rw [hredis]; exact hself)
      rw [hmissing] at ht
      cases ht
    · have hidle : starting lower s'.calls (normalise lower c.identity) = false := by
        rw [← Bool.not_eq_true, hstarting]
        simp [hothers]
      obtain ⟨t, ht, -⟩ := hafter hidle entry (by rw [h.redis, if_pos rfl]; exact hlive)
      rw [hnone] at ht
      cases ht
  · intro hkeeps hidle entry hlive
    rw [now_sent h, h.lockoutSeconds]
    rw [h.redis] at hlive
    split at hlive
    · next hrefused =>
        cases hphase : c.phase.isExpire with
        | false => exact hbefore hphase entry hlive
        | true =>
            cases hexpires : entry.expiresAt with
            | none => exact absurd (.inr ⟨hphase, hrefused, entry, hlive, hexpires⟩) hkeeps
            | some t => exact ⟨t, rfl, sub_le_iff_le_add'.mpr (hbounded _ entry t hlive hexpires)⟩
    · next hsent =>
        rcases live?_applied hlive with ⟨hphase, hsame⟩ | ⟨-, hnew⟩ | ⟨-, hphase, hsame⟩
        · -- the counter was there: it has been made neither now nor in vain
          have hthere : s.redis.exists (failureKey (normalise lower c.identity)) = true := by
            by_contra hmissing
            rw [Bool.not_eq_true] at hmissing
            cases fate with
            | answered =>
                refine absurd (hstarting.mpr (.inr ⟨rfl, hphase, rfl, ?_⟩)) (by simp [hidle])
                exact s.redis.incr_eq_one_of_not_exists hmissing
            | lost => exact hkeeps (.inl ⟨hphase, rfl, hmissing⟩)
            | refused => exact hsent rfl
          obtain ⟨old, hold⟩ := Option.isSome_iff_exists.mp hthere
          obtain ⟨t, ht, hle⟩ := hbefore (by rw [hphase]; rfl) old hold
          exact ⟨t, by rw [hsame, hold]; exact ht, hle⟩
        · exact ⟨_, hnew, by rw [add_sub_cancel_left]⟩
        · exact hbefore hphase entry hsame

theorem windowsExpire_sent_iff (hc : s.calls[call]? = some c) (h : Sent lower s call c fate s')
    (hbounded : s.Bounded) (hs : WindowsExpire lower s) :
    WindowsExpire lower s' ↔ (LosesWindow lower s c fate →
      starting lower (s.calls.eraseIdx call) (normalise lower c.identity) = true) := by
  have hown : WindowsExpire lower s' ↔ (starting lower s'.calls (normalise lower c.identity) = false →
      s'.Expires (normalise lower c.identity)) := by
    refine ⟨fun hall => hall _, fun hself key hidle => ?_⟩
    by_cases hkey : key = normalise lower c.identity
    · subst hkey
      exact hself hidle
    · have hbefore : starting lower s.calls key = false := by
        rw [← Bool.not_eq_true, starting_sent hc h] at hidle
        rw [starting, InFlight.any_eq_others hc]
        simpa [Ne.symm hkey, starting] using hidle
      have hexpires := hs key hbefore
      rwa [Expires, live?_sent_ne h hkey, now_sent h, h.lockoutSeconds]
  rw [hown]
  cases hothers : starting lower (s.calls.eraseIdx call) (normalise lower c.identity) with
  | true =>
      have hstarting := (starting_sent hc h (normalise lower c.identity)).mpr (.inl hothers)
      simp [hstarting]
  | false =>
      rw [expires_sent_iff hc h hbounded hs hothers]
      simp

/-- Time passes, a call is started: no counter is new, and none is left. -/
theorem windowsExpire_later {s' : Fleet R K} (hs : WindowsExpire lower s)
    (hnow : s.redis.now ≤ s'.redis.now) (hredis : s'.redis = { s.redis with now := s'.redis.now })
    (hlockout : s'.lockoutSeconds = s.lockoutSeconds)
    (hstarting : ∀ key, starting lower s'.calls key = starting lower s.calls key) :
    WindowsExpire lower s' := by
  intro key hidle entry hlive
  rw [hredis] at hlive
  obtain ⟨t, ht, hle⟩ := hs key ((hstarting key).symm.trans hidle) entry
    (s.redis.live?_mono hnow hlive)
  refine ⟨t, ht, ?_⟩
  rw [hlockout]
  exact (sub_le_sub_left hnow t).trans hle

theorem bounded_later {s' : Fleet R K} (hs : s.Bounded) (hnow : s.redis.now ≤ s'.redis.now)
    (hredis : s'.redis = { s.redis with now := s'.redis.now })
    (hlockout : s'.lockoutSeconds = s.lockoutSeconds) : s'.Bounded := by
  intro key entry t hlive hexpires
  rw [hredis] at hlive
  rw [hlockout]
  exact (hs key entry t (s.redis.live?_mono hnow hlive) hexpires).trans (add_le_add_left hnow _)

/-- A call that has just been started is about to give no window. -/
theorem starting_concat {calls : List (FleetCall R)} (hphase : c.phase.isExpire = false)
    (key : String) : starting lower (calls ++ [c]) key = starting lower calls key := by
  simp [starting, hphase]

theorem bounded_step [DecidableEq R] (lower : String → String) (s : Fleet R K)
    (e : FatedEvent R K) (hs : s.Bounded) : (fatedStep lower s e).Bounded := by
  obtain ⟨e, fate⟩ := e
  cases e with
  | tick t => exact bounded_later hs (le_max_left _ _) rfl rfl
  | advance r t => exact bounded_later hs (le_refl _) rfl rfl
  | start r method identity =>
      cases method with
      | retryAfter => exact hs
      | _ => exact bounded_later hs (le_refl _) rfl rfl
  | proceed call =>
      simp only [fatedStep]
      cases hc : s.calls[call]? with
      | none => exact hs
      | some c => exact bounded_sent (sent hc fate) hs

theorem windowsExpire_step_iff [DecidableEq R] (lower : String → String) (s : Fleet R K)
    (e : FatedEvent R K) (hbounded : s.Bounded) (hs : WindowsExpire lower s) :
    WindowsExpire lower (fatedStep lower s e) ↔ Spares lower s e := by
  obtain ⟨e, fate⟩ := e
  cases e with
  | tick t =>
      exact iff_of_true (windowsExpire_later hs (le_max_left _ _) rfl rfl fun _ => rfl) trivial
  | advance r t => exact iff_of_true (windowsExpire_later hs (le_refl _) rfl rfl fun _ => rfl) trivial
  | start r method identity =>
      cases method with
      | retryAfter => exact iff_of_true hs trivial
      | _ =>
          exact iff_of_true (windowsExpire_later hs (le_refl _) rfl rfl (starting_concat rfl)) trivial
  | proceed call =>
      simp only [fatedStep, Spares]
      cases hc : s.calls[call]? with
      | none => simpa using hs
      | some c => simpa using windowsExpire_sent_iff hc (sent hc fate) hbounded hs

end

/-- **When failure windows expire.** In every interleaving of any number of
calls on any replicas, with commands that fail before or after the server
has applied them: in every state, every counter that is there has a time
to live of at most the lockout period, or a call that is about to give it
one, if and only if no step loses the window of a counter. And then every
counter has its time to live whenever no call is about to. -/
theorem windows_expire_iff [DecidableEq R] [IsOrderedRing K] (lower : String → String)
    (maxAttempts lockoutSeconds : Int) (now : K) (clock : R → K) (events : List (FatedEvent R K)) :
    (Runs.Always (fatedStep lower) (WindowsExpire lower)
        (initial maxAttempts lockoutSeconds now clock) events ↔
      Runs.Meets (fatedStep lower) (Spares lower)
        (initial maxAttempts lockoutSeconds now clock) events) ∧
    (Runs.Meets (fatedStep lower) (Spares lower)
        (initial maxAttempts lockoutSeconds now clock) events →
      (∀ c ∈ (Runs.run (fatedStep lower) (initial maxAttempts lockoutSeconds now clock)
        events).calls, c.phase.isExpire = false) →
      ∀ key, (Runs.run (fatedStep lower) (initial maxAttempts lockoutSeconds now clock)
        events).Expires key) := by
  have hstart : WindowsExpire lower (initial maxAttempts lockoutSeconds now clock) := by
    intro key _ entry hlive
    have hget := RedisServer.get?_of_live? _ hlive
    simp [initial] at hget
  have hiff : Runs.Always (fatedStep lower) (WindowsExpire lower) _ events ↔
      Runs.Meets (fatedStep lower) (Spares lower) _ events :=
    Runs.always_iff_meets (bounded_step lower) (windowsExpire_step_iff lower)
      (bounded_initial maxAttempts lockoutSeconds now clock) hstart
  refine ⟨hiff, fun hmeets hidle key => (hiff.mpr hmeets).last key ?_⟩
  rw [starting, List.any_eq_false]
  intro c hc
  simp [hidle c hc]

/-! ## One failure -/

instance (lower : String → String) (s : Fleet R K) (c : FleetCall R) (fate : Fate) :
    Decidable (LosesWindow lower s c fate) := by
  unfold LosesWindow
  infer_instance

instance (lower : String → String) (s : Fleet R K) (e : FatedEvent R K) :
    Decidable (Spares lower s e) := by
  unfold Spares
  split <;> infer_instance

/-- A failure that is counted on a healthy server. -/
def countedFailure : List (FatedEvent Bool ℤ) :=
  [(.start true .recordFailure "a@b.com", .answered), (.proceed 0, .answered),
    (.proceed 0, .answered)]

theorem windows_expire_countedFailure :
    (Runs.run (fatedStep id) (initial 5 300 (0 : ℤ) fun _ => 0)
      countedFailure).redis.live? (failureKey "a@b.com") = some ⟨1, some 300⟩ ∧
    (Runs.run (fatedStep id) (initial 5 300 (0 : ℤ) fun _ => 0)
      countedFailure).Expires "a@b.com" :=
  ⟨by decide +kernel,
    (windows_expire_iff id 5 300 (0 : ℤ) (fun _ => 0) countedFailure).2 (by decide +kernel)
      (by decide +kernel) "a@b.com"⟩

/-- The second command does not reach the server. -/
def stuckFailure : List (FatedEvent Bool ℤ) :=
  [(.start true .recordFailure "a@b.com", .answered), (.proceed 0, .answered),
    (.proceed 0, .refused)]

/-- The call is over, and the counter stays for ever. -/
theorem stuckFailure_counter :
    ¬ ∀ (lower : String → String) (maxAttempts lockoutSeconds : Int) (now : ℤ) (clock : Bool → ℤ)
        (events : List (FatedEvent Bool ℤ)),
      (∀ c ∈ (Runs.run (fatedStep lower) (initial maxAttempts lockoutSeconds now clock)
          events).calls, c.phase = .done) →
      ∀ key, (Runs.run (fatedStep lower) (initial maxAttempts lockoutSeconds now clock)
        events).Expires key := by
  intro h
  have hlive : (Runs.run (fatedStep id) (initial 5 300 (0 : ℤ) fun _ => 0)
      stuckFailure).redis.live? (failureKey "a@b.com") = some ⟨1, none⟩ := by decide +kernel
  obtain ⟨t, ht, -⟩ := h id 5 300 0 (fun _ => 0) stuckFailure (by decide +kernel) "a@b.com" _ hlive
  cases ht

end Fleet

end ThreatIntel
