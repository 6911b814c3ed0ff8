import Mathlib.Data.Fintype.Basic
import Mathlib.Logic.Function.Basic
import ThreatIntel.InFlight
import ThreatIntel.ThrottleOutage

/-!
# A success forgives the replica that served it

The replicas of a fleet share one Redis server, and each keeps a private
throttle besides. `record_success` deletes the shared keys and the
private entry of the replica it runs on; the private entries of the
others stay, and `is_locked` is the disjunction of both.

Every method is split into the commands it sends, so a list of events is
an interleaving of any number of calls on any replicas. The server is
healthy: every command is answered. The invariant is that nothing in the
fleet, shared or private or on its way, counts more failures of an
identity than were recorded since its last success. Only the deletion of
the shared keys can break it, and it does not if the condition
`ForgetsAll` holds there.
-/

namespace ThreatIntel

open Routine
open LoginThrottle (normalise)
open RedisLoginThrottle (failureKey lockKey)

/-- The command a call sends next; `consult` is the look at the private
throttle that ends `is_locked`. -/
inductive FleetPhase where
  | exists
  | consult
  | incr
  | expire (failures : Int)
  | set
  | delete
  | done
  deriving DecidableEq, Repr

structure FleetCall (R : Type) where
  replica : R
  identity : String
  phase : FleetPhase
  deriving DecidableEq, Repr

/-- An answer of `is_locked`, and how many failures of the identity the
fleet had recorded since its last success when it was decided. -/
structure LockAnswer where
  key : String
  locked : Bool
  failures : Nat
  deriving DecidableEq, Repr

/-- The shared server, the private throttles and clocks of the replicas,
the calls in the order they were started, how often `record_failure` was
called for an identity since its last `record_success`, and the answers
given so far, newest first. -/
structure Fleet (R K : Type) [Zero K] where
  maxAttempts : Int
  lockoutSeconds : Int
  redis : RedisServer K
  fallback : R → InMemoryLoginThrottle K
  clock : R → K
  calls : List (FleetCall R) := []
  failures : String → Nat := fun _ => 0
  answers : List LockAnswer := []

inductive FleetEvent (R K : Type) where
  | tick (t : K)
  | advance (replica : R) (t : K)
  | start (replica : R) (method : ThrottleMethod) (identity : String)
  /-- A call sends its next command. -/
  | proceed (call : Nat)

namespace Fleet

variable {R K : Type} [DecidableEq R] [Ring K] [LinearOrder K]

/-- A fleet that has just been started on an empty server. -/
def initial (maxAttempts lockoutSeconds : Int) (now : K) (clock : R → K) : Fleet R K where
  maxAttempts
  lockoutSeconds
  redis := { now }
  fallback _ := { maxAttempts, lockoutSeconds }
  clock

/-- What a replica has of the throttle. -/
def throttle (s : Fleet R K) (r : R) : RedisLoginThrottle K :=
  { redis := s.redis
    maxAttempts := s.maxAttempts
    lockoutSeconds := s.lockoutSeconds
    fallback := s.fallback r }

/-- A call moves on to `phase`. -/
def goto (s : Fleet R K) (call : Nat) (c : FleetCall R) (phase : FleetPhase) : Fleet R K :=
  { s with calls := s.calls.set call { c with phase } }

def answer (s : Fleet R K) (key : String) (locked : Bool) : Fleet R K :=
  { s with answers := ⟨key, locked, s.failures key⟩ :: s.answers }

/-- What follows once the window has been started: `failures >=
self.max_attempts` sets the lock. -/
def afterWindow (s : Fleet R K) (failures : Int) : FleetPhase :=
  if s.maxAttempts ≤ failures then .set else .done

/-- What follows the count: the first failure starts the window. -/
def afterIncr (s : Fleet R K) (failures : Int) : FleetPhase :=
  if failures = 1 then .expire failures else s.afterWindow failures

def proceed (lower : String → String) (s : Fleet R K) (call : Nat) (c : FleetCall R) : Fleet R K :=
  let key := normalise lower c.identity
  match c.phase with
  | .exists =>
      if s.redis.exists (lockKey key) then (s.answer key true).goto call c .done
      else s.goto call c .consult
  | .consult =>
      let (locked, t) := (s.fallback c.replica).isLocked lower (s.clock c.replica) c.identity
      let s' := { s with fallback := Function.update s.fallback c.replica t }
      (s'.answer key locked).goto call c .done
  | .incr =>
      let (failures, redis) := s.redis.incr (failureKey key)
      { s with redis }.goto call c (s.afterIncr failures)
  | .expire failures =>
      { s with redis := s.redis.expire (failureKey key) s.lockoutSeconds }.goto call c
        (s.afterWindow failures)
  | .set =>
      { s with redis := (s.redis.setEx (lockKey key) 1 s.lockoutSeconds).2 }.goto call c .done
  | .delete =>
      let s' := { s with
        redis := s.redis.delete (failureKey key) (lockKey key)
        failures := Function.update s.failures key 0 }
      s'.goto call c .done
  | .done => s

def step (lower : String → String) (s : Fleet R K) : FleetEvent R K → Fleet R K
  | .tick t => { s with redis := { s.redis with now := max s.redis.now t } }
  | .advance r t => { s with clock := Function.update s.clock r (max (s.clock r) t) }
  | .start r .isLocked identity => { s with calls := s.calls ++ [⟨r, identity, .exists⟩] }
  | .start _ .retryAfter _ => s
  | .start r .recordFailure identity =>
      let key := normalise lower identity
      { s with
        fallback := Function.update s.fallback r
          ((s.fallback r).recordFailure lower (s.clock r) identity)
        failures := Function.update s.failures key (s.failures key + 1)
        calls := s.calls ++ [⟨r, identity, .incr⟩] }
  | .start r .recordSuccess identity =>
      { s with
        fallback := Function.update s.fallback r ((s.fallback r).recordSuccess lower identity)
        calls := s.calls ++ [⟨r, identity, .delete⟩] }
  | .proceed call =>
      match s.calls[call]? with
      | some c => s.proceed lower call c
      | none => s

/-! ## The steps in a row are the methods -/

end Fleet

namespace RedisLoginThrottle

variable {K : Type} [Ring K] [LinearOrder K]

omit [LinearOrder K] in
/-- A call without an answer ends as if nothing had been raised. -/
theorem run_degraded_unit (x : ThrottleRoutine K Unit) (t : RedisLoginThrottle K) :
    run (degraded x ()) t = (.ok (), (run x t).2) := by
  rcases hres : run x t with ⟨e | ⟨⟩, t'⟩
  · exact run_degraded_error hres ()
  · exact run_degraded_ok hres ()

/-- `record_failure` on a healthy server. -/
theorem run_recordFailure_answered (lower : String → String) (clock : K) (identity : String)
    {t : RedisLoginThrottle K} {failures : Int} {counted : RedisServer K}
    (hincr : t.redis.incr (failureKey (normalise lower identity)) = (failures, counted)) :
    let key := normalise lower identity
    let windowed :=
      if failures = 1 then counted.expire (failureKey key) t.lockoutSeconds else counted
    run (recordFailure lower clock (fun _ => .answered) identity) t =
      (.ok (), { t with
        redis :=
          if t.maxAttempts ≤ failures then (windowed.setEx (lockKey key) 1 t.lockoutSeconds).2
          else windowed
        fallback := t.fallback.recordFailure lower clock identity }) := by
  intro key windowed
  rw [recordFailure, run_onFallback_bind, run_degraded_unit]
  set t' : RedisLoginThrottle K :=
    { t with fallback := t.fallback.recordFailure lower clock identity }
  have hcount : run (execute .answered fun r =>
      (.ok (r.incr (failureKey key)).1, (r.incr (failureKey key)).2)) t' =
        ((.ok failures : Except Exn Int), { t' with redis := counted }) := by
    simp [run, execute, key, t', hincr]
  have hwindow : run (startWindow (fun _ => .answered) key failures) { t' with redis := counted } =
      (.ok (), { t' with redis := windowed }) := by
    by_cases hone : failures = 1
    · simp [run, startWindow, execute, hone, t', windowed]
    · simp [run, startWindow, hone, t', windowed]
  rw [countFleetWide, run_bind_ok hcount, run_bind_ok hwindow]
  by_cases hmax : t.maxAttempts ≤ failures
  · simp [run, lockAt, execute, hmax, t', key]
  · simp [run, lockAt, hmax, t']

theorem run_isLocked_answered (lower : String → String) (clock : K) (identity : String)
    (t : RedisLoginThrottle K) :
    run (isLocked lower clock (fun _ => .answered) identity) t =
      if t.redis.exists (lockKey (normalise lower identity)) then (.ok true, t)
      else (.ok (t.fallback.isLocked lower clock identity).1,
        { t with fallback := (t.fallback.isLocked lower clock identity).2 }) := by
  have hexists : run (degraded (execute .answered fun r =>
      (.ok (r.exists (lockKey (normalise lower identity))), r)) false) t =
        (.ok (t.redis.exists (lockKey (normalise lower identity))), t) := run_degraded_ok rfl false
  rw [isLocked, run_bind_ok hexists]
  split <;> rfl

theorem run_retryAfter_answered [FloorRing K] (lower : String → String) (clock : K)
    (identity : String) (t : RedisLoginThrottle K) :
    run (retryAfter lower clock (fun _ => .answered) identity) t =
      (.ok (if 0 < t.redis.ttl (lockKey (normalise lower identity)) then
          t.redis.ttl (lockKey (normalise lower identity))
        else t.fallback.retryAfter lower clock identity), t) := by
  have httl : run (degraded (execute .answered fun r =>
      (.ok (r.ttl (lockKey (normalise lower identity))), r)) 0) t =
        (.ok (t.redis.ttl (lockKey (normalise lower identity))), t) := run_degraded_ok rfl 0
  rw [retryAfter, run_bind_ok httl]
  split <;> rfl

omit [LinearOrder K] in
theorem run_recordSuccess_answered (lower : String → String) (identity : String)
    (t : RedisLoginThrottle K) :
    let key := normalise lower identity
    run (recordSuccess lower (fun _ => .answered) identity) t =
      (.ok (), { t with
        redis := t.redis.delete (failureKey key) (lockKey key)
        fallback := t.fallback.recordSuccess lower identity }) := by
  intro key
  rw [recordSuccess, run_onFallback_bind]
  exact run_degraded_ok rfl ()

end RedisLoginThrottle

namespace Fleet

variable {R K : Type} [DecidableEq R] [Ring K] [LinearOrder K]

section

variable [FloorRing K]

/-- A call that nothing interrupts leaves what the method leaves. -/
theorem solo_eq_perform (lower : String → String) (s : Fleet R K) (r : R)
    (method : ThrottleMethod) (identity : String) :
    let n := s.calls.length
    let s' := Runs.run (step lower) s
      [.start r method identity, .proceed n, .proceed n, .proceed n]
    s'.throttle r = (run (Replica.perform lower (s.clock r) (fun _ => .answered) identity method)
      (s.throttle r)).2 := by
  simp only [Runs.run_cons, Runs.run_nil]
  cases method with
  | isLocked =>
      have hlocked := RedisLoginThrottle.run_isLocked_answered lower (s.clock r) identity (s.throttle r)
      rw [Replica.perform, run_bind, hlocked]
      by_cases hex : s.redis.exists (lockKey (normalise lower identity)) = true
      · simp [step, proceed, goto, answer, throttle, hex]
      · simp [step, proceed, goto, answer, throttle, hex]
  | retryAfter =>
      rw [Replica.perform, run_bind, RedisLoginThrottle.run_retryAfter_answered]
      simp [step]
  | recordFailure =>
      rcases hincr : s.redis.incr (failureKey (normalise lower identity)) with ⟨failures, counted⟩
      have hrun := RedisLoginThrottle.run_recordFailure_answered lower (s.clock r) identity
        (t := s.throttle r) hincr
      dsimp only at hrun
      rw [Replica.perform, hrun]
      by_cases hone : failures = 1
      · by_cases hmax : s.maxAttempts ≤ 1
        · simp [step, proceed, goto, throttle, afterIncr, afterWindow, hincr, hone, hmax]
        · simp [step, proceed, goto, throttle, afterIncr, afterWindow, hincr, hone, hmax]
      · by_cases hmax : s.maxAttempts ≤ failures
        · simp [step, proceed, goto, throttle, afterIncr, afterWindow, hincr, hone, hmax]
        · simp [step, proceed, goto, throttle, afterIncr, afterWindow, hincr, hone, hmax]
  | recordSuccess =>
      rw [Replica.perform, RedisLoginThrottle.run_recordSuccess_answered]
      simp [step, proceed, goto, throttle]

omit [FloorRing K] in
/-- An `is_locked` that nothing interrupts answers as the method does. -/
theorem solo_answer (lower : String → String) (s : Fleet R K) (r : R) (identity : String) :
    let n := s.calls.length
    let key := normalise lower identity
    let s' := Runs.run (step lower) s [.start r .isLocked identity, .proceed n, .proceed n]
    ∃ locked, s'.answers = ⟨key, locked, s.failures key⟩ :: s.answers ∧
      (run (RedisLoginThrottle.isLocked lower (s.clock r) (fun _ => .answered) identity)
        (s.throttle r)).1 = .ok locked := by
  simp only [Runs.run_cons, Runs.run_nil]
  rw [RedisLoginThrottle.run_isLocked_answered]
  by_cases hex : s.redis.exists (lockKey (normalise lower identity)) = true
  · exact ⟨true, by simp [step, proceed, goto, answer, throttle, hex]⟩
  · exact ⟨((s.fallback r).isLocked lower (s.clock r) identity).1,
      by simp [step, proceed, goto, answer, hex], by simp [throttle, hex]⟩

end

end Fleet

/-! ## What the commands do to a key -/

namespace RedisServer

variable {K : Type}

/-- The number under a key, expired or not. -/
def stored (r : RedisServer K) (key : String) : Int :=
  ((r.keys.get? key).map RedisEntry.value).getD 0

section

variable [LinearOrder K] (r : RedisServer K) {key key' : String}

theorem live?_cases (key : String) : r.live? key = none ∨ r.live? key = r.keys.get? key := by
  rw [live?]
  cases h : r.keys.get? key with
  | none => exact Or.inl rfl
  | some entry =>
      rw [Option.filter_some]
      split
      · exact Or.inr rfl
      · exact Or.inl rfl

theorem isSome_of_exists (h : r.exists key = true) : (r.keys.get? key).isSome := by
  rcases r.live?_cases key with hlive | hlive
  · simp [«exists», hlive] at h
  · simpa [«exists», hlive] using h

/-- The reply is one more than the number stored, or one. -/
theorem incr_le (h : 0 ≤ r.stored key) : (r.incr key).1 ≤ r.stored key + 1 := by
  rcases r.live?_cases key with hlive | hlive
  · simp only [incr, hlive, Option.getD_none]
    omega
  · simp only [incr, hlive, stored]
    cases r.keys.get? key <;> simp

theorem incr_pos (h : 0 ≤ r.stored key) : 1 ≤ (r.incr key).1 := by
  rcases r.live?_cases key with hlive | hlive
  · simp [incr, hlive]
  · rw [stored] at h
    simp only [incr, hlive]
    cases hget : r.keys.get? key with
    | none => simp
    | some entry =>
        rw [hget] at h
        simpa using h

theorem stored_incr_self : (r.incr key).2.stored key = (r.incr key).1 := by
  simp [incr, stored]

theorem get?_incr_ne (h : key' ≠ key) : (r.incr key).2.keys.get? key' = r.keys.get? key' := by
  simp [incr, Dict.get?_set_ne _ _ h]

end

variable [Ring K] [LinearOrder K] (r : RedisServer K) {key key' : String}

theorem stored_expire_self (key : String) (seconds : Int) :
    (r.expire key seconds).stored key = 0 ∨ (r.expire key seconds).stored key = r.stored key := by
  rcases r.live?_cases key with hlive | hlive
  · exact Or.inr (by simp [expire, hlive])
  · simp only [expire, hlive]
    cases hget : r.keys.get? key with
    | none => exact Or.inr rfl
    | some entry =>
        dsimp only
        split
        · exact Or.inl (by simp [stored])
        · exact Or.inr (by simp [stored, hget])

theorem get?_expire_ne (h : key' ≠ key) (seconds : Int) :
    (r.expire key seconds).keys.get? key' = r.keys.get? key' := by
  simp only [expire]
  split
  · rfl
  · split
    · exact Dict.get?_erase_ne _ h
    · exact Dict.get?_set_ne _ _ h

omit [LinearOrder K] in
theorem get?_setEx_ne (h : key' ≠ key) (value seconds : Int) :
    (r.setEx key value seconds).2.keys.get? key' = r.keys.get? key' := by
  simp only [setEx]
  split
  · rfl
  · exact Dict.get?_set_ne _ _ h

omit [Ring K] [LinearOrder K] in
theorem get?_delete (key₁ key₂ : String) :
    (r.delete key₁ key₂).keys.get? key =
      if key = key₁ ∨ key = key₂ then none else r.keys.get? key := by
  simp only [delete]
  by_cases h₂ : key = key₂
  · subst h₂
    simp
  · by_cases h₁ : key = key₁
    · subst h₁
      simp [h₂, Dict.get?_erase_ne _ h₂]
    · simp [h₁, h₂, Dict.get?_erase_ne _ h₁, Dict.get?_erase_ne _ h₂]

end RedisServer

namespace RedisLoginThrottle

theorem failureKey_injective : Function.Injective failureKey := fun a b h => by
  simpa [failureKey, String.ext_iff] using h

theorem lockKey_injective : Function.Injective lockKey := fun a b h => by
  simpa [lockKey, String.ext_iff] using h

theorem failureKey_ne_lockKey (a b : String) : failureKey a ≠ lockKey b := by
  intro h
  simp [failureKey, lockKey, String.ext_iff] at h

end RedisLoginThrottle
namespace Fleet

variable {R K : Type} [DecidableEq R] [Ring K] [LinearOrder K]

/-! ## The condition -/

/-- The call is counting a failure of `key`. -/
def counting (lower : String → String) (key : String) (c : FleetCall R) : Bool :=
  normalise lower c.identity = key &&
    match c.phase with
    | .incr | .expire _ | .set => true
    | _ => false

/-- The condition on a step: when a success deletes the shared keys of an
identity, no private throttle holds failures of it, and no failure of it
is being counted. -/
def ForgetsAll (lower : String → String) (s : Fleet R K) : FleetEvent R K → Prop
  | .proceed call =>
      ∀ c ∈ s.calls[call]?, c.phase = .delete →
        (∀ r, ((s.fallback r).entry (normalise lower c.identity)).failures = 0) ∧
          s.calls.any (counting lower (normalise lower c.identity)) = false
  | _ => True

/-- **Locks are earned.** Whoever was told that an identity is locked had
at least `max_attempts` failures of it recorded in the fleet since its
last success. -/
def LocksEarned (s : Fleet R K) : Prop :=
  ∀ a ∈ s.answers, a.locked = true → s.maxAttempts ≤ a.failures

/-! ## The invariant -/

/-- The call is about to increment the shared counter of `key`. -/
def incrementing (lower : String → String) (key : String) (c : FleetCall R) : Bool :=
  normalise lower c.identity = key && c.phase = .incr

/-- The shared counter of `key`. -/
def counter (s : Fleet R K) (key : String) : Int := s.redis.stored (failureKey key)

/-- What a call has read or is about to write is covered by the failures
of its identity. -/
def Covered (maxAttempts : Int) (failures : Nat) : FleetPhase → Prop
  | .expire n => n ≤ failures
  | .set => maxAttempts ≤ failures
  | _ => True

structure Inv (lower : String → String) (s : Fleet R K) : Prop where
  configured : ∀ r, (s.fallback r).maxAttempts = s.maxAttempts
  entry_le : ∀ r key, ((s.fallback r).entry key).failures ≤ s.failures key
  locked_le : ∀ r key, ((s.fallback r).entry key).lockedUntil ≠ 0 →
    s.maxAttempts ≤ ((s.fallback r).entry key).failures
  counter_nonneg : ∀ key, 0 ≤ s.counter key
  counter_le : ∀ key, s.counter key + s.calls.countP (incrementing lower key) ≤ s.failures key
  lock_le : ∀ key, (s.redis.keys.get? (lockKey key)).isSome → s.maxAttempts ≤ s.failures key
  covered : ∀ c ∈ s.calls, Covered s.maxAttempts (s.failures (normalise lower c.identity)) c.phase
  earned : s.LocksEarned

/-! ## One step -/

section

variable {R K : Type} [Ring K] {lower : String → String} {s : Fleet R K}

theorem inv_initial (lower : String → String) (maxAttempts lockoutSeconds : Int) (now : K)
    (clock : R → K) : Inv lower (initial maxAttempts lockoutSeconds now clock) where
  configured _ := rfl
  entry_le _ _ := le_refl _
  locked_le _ _ h := absurd rfl h
  counter_nonneg _ := le_refl _
  counter_le _ := le_refl _
  lock_le _ h := by simp [initial] at h
  covered := List.forall_mem_nil _
  earned := List.forall_mem_nil _

/-- A call that is not about to count may be added. -/
theorem Inv.concat (h : Inv lower s) {c : FleetCall R} (hphase : c.phase ≠ .incr)
    (hcovered : Covered s.maxAttempts (s.failures (normalise lower c.identity)) c.phase) :
    Inv lower { s with calls := s.calls ++ [c] } :=
  { h with
    counter_le := fun key => by
      simpa [counter, List.countP_append, incrementing, hphase] using h.counter_le key
    covered := InFlight.forall_mem_concat h.covered hcovered }

/-- A call may move on to a phase that does not count. -/
theorem Inv.goto (h : Inv lower s) {call : Nat} {c : FleetCall R} (hc : s.calls[call]? = some c)
    {phase : FleetPhase} (hphase : phase ≠ .incr)
    (hcovered : Covered s.maxAttempts (s.failures (normalise lower c.identity)) phase) :
    Inv lower (s.goto call c phase) :=
  { h with
    counter_le := fun key => by
      have hle : (s.calls.set call { c with phase }).countP (incrementing lower key) ≤
          s.calls.countP (incrementing lower key) :=
        InFlight.countP_set_le hc (by simp [incrementing, hphase])
      have := h.counter_le key
      simp only [Fleet.goto, counter] at this ⊢
      omega
    covered := InFlight.forall_mem_set h.covered hcovered }

/-- An answer that is earned may be given. -/
theorem Inv.answer (h : Inv lower s) {key : String} {locked : Bool}
    (hearned : locked = true → s.maxAttempts ≤ s.failures key) : Inv lower (s.answer key locked) :=
  { h with earned := List.forall_mem_cons.mpr ⟨hearned, h.earned⟩ }

/-- The server may forget a counter, and hold locks that are earned. -/
theorem Inv.redis (h : Inv lower s) {redis : RedisServer K}
    (hcounter : ∀ key, redis.stored (failureKey key) = 0 ∨
      redis.stored (failureKey key) = s.redis.stored (failureKey key))
    (hlock : ∀ key, (redis.keys.get? (lockKey key)).isSome → s.maxAttempts ≤ s.failures key) :
    Inv lower { s with redis } := by
  refine { h with counter_nonneg := ?_, counter_le := ?_, lock_le := hlock }
  · intro key
    rcases hcounter key with heq | heq
    · exact heq.ge
    · exact (h.counter_nonneg key).trans heq.ge
  · intro key
    have hle := h.counter_le key
    have hnonneg := h.counter_nonneg key
    simp only [counter] at hle hnonneg ⊢
    rcases hcounter key with heq | heq <;> omega

variable [DecidableEq R]

/-- A private throttle may forget. -/
theorem Inv.forget (h : Inv lower s) {r : R} {t : InMemoryLoginThrottle K}
    (hmax : t.maxAttempts = (s.fallback r).maxAttempts)
    (hentry : ∀ key, t.entry key = (s.fallback r).entry key ∨ t.entry key = {}) :
    Inv lower { s with fallback := Function.update s.fallback r t } := by
  have hforget : ∀ r' key, (Function.update s.fallback r t r').entry key =
      (s.fallback r').entry key ∨ (Function.update s.fallback r t r').entry key = {} := by
    intro r' key
    by_cases hr : r' = r
    · subst hr
      simpa using hentry key
    · exact Or.inl (by rw [Function.update_of_ne hr])
  refine { h with configured := ?_, entry_le := ?_, locked_le := ?_ }
  · intro r'
    by_cases hr : r' = r
    · subst hr
      simpa [hmax] using h.configured r'
    · simpa [Function.update_of_ne hr] using h.configured r'
  · intro r' key
    rcases hforget r' key with heq | heq
    · simpa only [heq] using h.entry_le r' key
    · simp [heq]
  · intro r' key hlocked
    rcases hforget r' key with heq | heq
    · simp only [heq] at hlocked ⊢
      exact h.locked_le r' key hlocked
    · exact absurd rfl (heq ▸ hlocked)

variable [LinearOrder K]

theorem inv_recordFailure (h : Inv lower s) (r : R) (identity : String) :
    Inv lower (step lower s (.start r .recordFailure identity)) := by
  have hgrow : ∀ key, s.failures key ≤
      Function.update s.failures (normalise lower identity)
        (s.failures (normalise lower identity) + 1) key := by
    intro key
    by_cases hkey : key = normalise lower identity
    · subst hkey
      simp
    · simp [Function.update_of_ne hkey]
  refine ⟨?_, ?_, ?_, h.counter_nonneg, ?_, ?_, ?_, h.earned⟩
  · intro r'
    by_cases hr : r' = r
    · subst hr
      simpa [step, InMemoryLoginThrottle.recordFailure] using h.configured r'
    · simpa [step, Function.update_of_ne hr] using h.configured r'
  · intro r' key
    by_cases hr : r' = r
    · subst hr
      simp only [step, Function.update_self, InMemoryLoginThrottle.entry_recordFailure]
      have hle := h.entry_le r' key
      by_cases hkey : key = normalise lower identity
      · subst hkey
        simpa [InMemoryLoginThrottle.count] using hle
      · simpa [hkey, Function.update_of_ne hkey] using hle
    · simp only [step, Function.update_of_ne hr]
      exact (h.entry_le r' key).trans (hgrow key)
  · intro r' key hlocked
    by_cases hr : r' = r
    · subst hr
      simp only [step, Function.update_self, InMemoryLoginThrottle.entry_recordFailure]
        at hlocked ⊢
      by_cases hkey : key = normalise lower identity
      · rw [if_pos hkey] at hlocked ⊢
        simp only [InMemoryLoginThrottle.count] at hlocked ⊢
        split at hlocked
        · next hfull => exact h.configured r' ▸ hfull
        · have := h.locked_le r' key hlocked
          push_cast
          omega
      · rw [if_neg hkey] at hlocked ⊢
        exact h.locked_le r' key hlocked
    · simp only [step, Function.update_of_ne hr] at hlocked ⊢
      exact h.locked_le r' key hlocked
  · intro key
    have hle := h.counter_le key
    simp only [counter, step] at hle ⊢
    by_cases hkey : key = normalise lower identity
    · subst hkey
      simp [List.countP_append, incrementing]
      omega
    · simpa [List.countP_append, incrementing, Ne.symm hkey, Function.update_of_ne hkey] using hle
  · intro key hlock
    exact (h.lock_le key hlock).trans (by exact_mod_cast hgrow key)
  · refine InFlight.forall_mem_concat (fun c hc => ?_) trivial
    have hcovered := h.covered c hc
    have := hgrow (normalise lower c.identity)
    simp only [step]
    cases hphase : c.phase with
    | expire n =>
        simp only [hphase, Covered] at hcovered ⊢
        exact hcovered.trans (by exact_mod_cast this)
    | set =>
        simp only [hphase, Covered] at hcovered ⊢
        exact hcovered.trans (by exact_mod_cast this)
    | _ => trivial


theorem inv_incr (h : Inv lower s) {call : Nat} {c : FleetCall R} (hc : s.calls[call]? = some c)
    (hphase : c.phase = .incr) : Inv lower (s.proceed lower call c) := by
  generalize hkey : normalise lower c.identity = key
  have hnonneg := h.counter_nonneg key
  have hle := h.counter_le key
  have hreply : (s.redis.incr (failureKey key)).1 ≤ s.counter key + 1 := s.redis.incr_le hnonneg
  have hpos : 1 ≤ (s.redis.incr (failureKey key)).1 := s.redis.incr_pos hnonneg
  -- the call stops being one that is about to count
  have hafter : s.afterIncr (s.redis.incr (failureKey key)).1 ≠ .incr := by
    simp only [afterIncr, afterWindow]
    split
    · simp
    · split <;> simp
  have hmove : ∀ key',
      (s.calls.set call { c with phase := s.afterIncr (s.redis.incr (failureKey key)).1 }).countP
        (incrementing lower key') + (if key = key' then 1 else 0) =
          s.calls.countP (incrementing lower key') := by
    intro key'
    have := InFlight.countP_set hc (incrementing lower key')
      { c with phase := s.afterIncr (s.redis.incr (failureKey key)).1 }
    simpa [incrementing, hphase, hafter, hkey] using this
  have hself := hmove key
  rw [if_pos rfl] at hself
  have hcounter : ∀ key', (s.redis.incr (failureKey key)).2.stored (failureKey key') =
      if key' = key then (s.redis.incr (failureKey key)).1 else s.counter key' := by
    intro key'
    by_cases hkey' : key' = key
    · rw [if_pos hkey', hkey', s.redis.stored_incr_self]
    · rw [if_neg hkey', RedisServer.stored, s.redis.get?_incr_ne fun heq =>
        hkey' (RedisLoginThrottle.failureKey_injective heq)]
      rfl
  simp only [proceed, hphase, hkey]
  refine ⟨h.configured, h.entry_le, h.locked_le, ?_, ?_, ?_, ?_, h.earned⟩
  · intro key'
    simp only [counter, goto, hcounter]
    split
    · omega
    · exact h.counter_nonneg key'
  · intro key'
    have hmove' := hmove key'
    have hle' := h.counter_le key'
    simp only [counter, goto, hcounter]
    by_cases hkey' : key' = key
    · subst hkey'
      rw [if_pos rfl] at hmove' ⊢
      omega
    · rw [if_neg (Ne.symm hkey')] at hmove'
      rw [if_neg hkey']
      simp only [counter] at hle' ⊢
      omega
  · intro key' hlock
    have hne : lockKey key' ≠ failureKey key :=
      fun heq => RedisLoginThrottle.failureKey_ne_lockKey key key' heq.symm
    simp only [goto, s.redis.get?_incr_ne hne] at hlock
    exact h.lock_le key' hlock
  · refine InFlight.forall_mem_set h.covered ?_
    have hreach : (s.redis.incr (failureKey key)).1 ≤ s.failures key := by omega
    simp only [hkey, afterIncr, afterWindow]
    split
    · exact hreach
    · split
      · next hfull => exact hfull.trans hreach
      · trivial

theorem inv_delete (h : Inv lower s) {call : Nat} {c : FleetCall R} (hc : s.calls[call]? = some c)
    (hphase : c.phase = .delete) (hforgets : ForgetsAll lower s (.proceed call)) :
    Inv lower (s.proceed lower call c) := by
  generalize hkey : normalise lower c.identity = key
  obtain ⟨hprivate, hcounting⟩ := hforgets c hc hphase
  rw [hkey] at hprivate hcounting
  have hget : ∀ k, (s.redis.delete (failureKey key) (lockKey key)).keys.get? k =
      if k = failureKey key ∨ k = lockKey key then none else s.redis.keys.get? k :=
    fun k => s.redis.get?_delete _ _
  have hidle : s.calls.countP (incrementing lower key) = 0 := by
    rw [List.countP_eq_zero]
    intro c' hc' hincr
    simp only [incrementing, Bool.and_eq_true, decide_eq_true_eq] at hincr
    have := List.any_eq_false.mp hcounting c' hc'
    simp [counting, hincr.1, hincr.2] at this
  have hcount : ∀ key', (s.calls.set call { c with phase := .done }).countP
      (incrementing lower key') ≤ s.calls.countP (incrementing lower key') :=
    fun key' => InFlight.countP_set_le hc (by simp [incrementing])
  simp only [proceed, hphase, hkey]
  refine ⟨h.configured, ?_, h.locked_le, ?_, ?_, ?_, ?_, h.earned⟩
  · intro r key'
    simp only [goto]
    by_cases hkey' : key' = key
    · subst hkey'
      simp [hprivate r]
    · rw [Function.update_of_ne hkey']
      exact h.entry_le r key'
  · intro key'
    simp only [counter, goto, RedisServer.stored, hget]
    split
    · simp
    · exact h.counter_nonneg key'
  · intro key'
    have hle := h.counter_le key'
    have hcount' := hcount key'
    simp only [counter, goto, RedisServer.stored, hget] at hle ⊢
    by_cases hkey' : key' = key
    · subst hkey'
      simp only [true_or, if_true, Option.map_none, Option.getD_none, Function.update_self]
      omega
    · have hne : ¬ (failureKey key' = failureKey key ∨ failureKey key' = lockKey key) := by
        rintro (heq | heq)
        · exact hkey' (RedisLoginThrottle.failureKey_injective heq)
        · exact RedisLoginThrottle.failureKey_ne_lockKey key' key heq
      rw [if_neg hne, Function.update_of_ne hkey']
      omega
  · intro key' hlock
    simp only [goto, hget] at hlock ⊢
    by_cases hkey' : key' = key
    · subst hkey'
      simp at hlock
    · split at hlock
      · simp at hlock
      · rw [Function.update_of_ne hkey']
        exact h.lock_le key' hlock
  · refine InFlight.forall_mem_set (fun c' hc' => ?_) trivial
    have hcovered := h.covered c' hc'
    simp only [goto]
    by_cases hkey' : normalise lower c'.identity = key
    · have := List.any_eq_false.mp hcounting c' hc'
      cases hphase' : c'.phase with
      | expire n => simp [counting, hkey', hphase'] at this
      | set => simp [counting, hkey', hphase'] at this
      | _ => trivial
    · rwa [Function.update_of_ne hkey']

theorem inv_proceed (h : Inv lower s) {call : Nat} {c : FleetCall R} (hc : s.calls[call]? = some c)
    (hforgets : ForgetsAll lower s (.proceed call)) : Inv lower (s.proceed lower call c) := by
  cases hphase : c.phase with
  | «exists» =>
      simp only [proceed, hphase]
      split
      · next hlock =>
          refine (h.answer fun _ => h.lock_le _ ?_).goto hc (by simp) trivial
          exact s.redis.isSome_of_exists hlock
      · exact h.goto hc (by simp) trivial
  | consult =>
      simp only [proceed, hphase]
      have hforget : ∀ key, ((s.fallback c.replica).isLocked lower (s.clock c.replica)
          c.identity).2.entry key = (s.fallback c.replica).entry key ∨
            ((s.fallback c.replica).isLocked lower (s.clock c.replica) c.identity).2.entry key =
              {} := by
        intro key
        rw [InMemoryLoginThrottle.entry_isLocked]
        split
        · exact Or.inr rfl
        · exact Or.inl rfl
      refine ((h.forget (by simp) hforget).answer fun hlocked => ?_).goto hc (by simp) trivial
      rw [InMemoryLoginThrottle.isLocked_eq, Bool.and_eq_true, decide_eq_true_eq] at hlocked
      have hfull := h.locked_le c.replica _ hlocked.1
      exact hfull.trans (by exact_mod_cast h.entry_le c.replica _)
  | incr => exact inv_incr h hc hphase
  | expire failures =>
      have hcovered : failures ≤ s.failures (normalise lower c.identity) := by
        have := h.covered c (List.mem_of_getElem? hc)
        rwa [hphase] at this
      have hexpire : Inv lower { s with
          redis := s.redis.expire (failureKey (normalise lower c.identity)) s.lockoutSeconds } := by
        refine h.redis (fun key => ?_) fun key hsome => h.lock_le key ?_
        · by_cases hkey : failureKey key = failureKey (normalise lower c.identity)
          · rw [hkey]
            exact s.redis.stored_expire_self _ _
          · exact Or.inr (by simp only [RedisServer.stored, s.redis.get?_expire_ne hkey])
        · rwa [s.redis.get?_expire_ne fun heq =>
            RedisLoginThrottle.failureKey_ne_lockKey _ _ heq.symm] at hsome
      simp only [proceed, hphase]
      refine hexpire.goto hc ?_ ?_
      · simp only [afterWindow]
        split <;> simp
      · simp only [afterWindow]
        split
        · next hfull => exact hfull.trans hcovered
        · trivial
  | set =>
      have hcovered : s.maxAttempts ≤ s.failures (normalise lower c.identity) := by
        have := h.covered c (List.mem_of_getElem? hc)
        rwa [hphase] at this
      have hset : Inv lower { s with
          redis := (s.redis.setEx (lockKey (normalise lower c.identity)) 1 s.lockoutSeconds).2 } := by
        refine h.redis (fun key => Or.inr ?_) fun key hsome => ?_
        · simp only [RedisServer.stored, s.redis.get?_setEx_ne
            (RedisLoginThrottle.failureKey_ne_lockKey key (normalise lower c.identity))]
        · by_cases hkey : key = normalise lower c.identity
          · exact hkey ▸ hcovered
          · rw [s.redis.get?_setEx_ne fun heq =>
              hkey (RedisLoginThrottle.lockKey_injective heq)] at hsome
            exact h.lock_le key hsome
      simp only [proceed, hphase]
      exact hset.goto hc (by simp) trivial
  | delete => exact inv_delete h hc hphase hforgets
  | done =>
      simp only [proceed, hphase]
      exact h


theorem inv_step (h : Inv lower s) {e : FleetEvent R K} (hforgets : ForgetsAll lower s e) :
    Inv lower (step lower s e) := by
  cases e with
  | tick t => exact { h with }
  | advance r t => exact { h with }
  | start r method identity =>
      cases method with
      | isLocked => exact h.concat (by simp) trivial
      | retryAfter => exact h
      | recordFailure => exact inv_recordFailure h r identity
      | recordSuccess =>
          refine (h.forget (t := (s.fallback r).recordSuccess lower identity) rfl
            fun key => ?_).concat (by simp) trivial
          rw [InMemoryLoginThrottle.entry_recordSuccess]
          split
          · exact Or.inr rfl
          · exact Or.inl rfl
  | proceed call =>
      simp only [step]
      split
      · next c hc => exact inv_proceed h hc hforgets
      · exact h

/-- **A success forgives fleet-wide, if nothing else remembers.** In every
interleaving in which each deletion of the shared keys finds no private
failures and no count in progress, every lock reported was earned since
the last success of the identity. -/
theorem locksEarned_run (lower : String → String) (maxAttempts lockoutSeconds : Int) (now : K)
    (clock : R → K) {events : List (FleetEvent R K)}
    (h : Runs.Meets (step lower) (ForgetsAll lower) (initial maxAttempts lockoutSeconds now clock)
      events) :
    (Runs.run (step lower) (initial maxAttempts lockoutSeconds now clock) events).LocksEarned := by
  have hstep : ∀ (s : Fleet R K) (e : FleetEvent R K), Inv lower s → ForgetsAll lower s e →
      Inv lower (step lower s e) := fun _ _ hinv hforgets => inv_step hinv hforgets
  have hinv : Inv lower (Runs.run (step lower) (initial maxAttempts lockoutSeconds now clock)
      events) := Runs.run_invariant hstep (inv_initial lower maxAttempts lockoutSeconds now clock) h
  exact hinv.earned

end

/-! ## Two replicas -/

instance [Fintype R] (lower : String → String) (s : Fleet R K) (e : FleetEvent R K) :
    Decidable (ForgetsAll lower s e) := by
  unfold ForgetsAll
  split <;> infer_instance

/-- Two failures and a success on one replica, and then a look at the
lock. -/
def forgiven : List (FleetEvent Bool ℤ) :=
  [.start true .recordFailure "a@b.com", .proceed 0, .proceed 0,
    .start true .recordFailure " a@b.com", .proceed 1, .proceed 1,
    .start true .recordSuccess "a@b.com", .proceed 2,
    .start true .isLocked "a@b.com", .proceed 3, .proceed 3]

theorem locksEarned_forgiven :
    (Runs.run (step id) (initial 2 300 (0 : ℤ) fun _ => 0) forgiven).LocksEarned :=
  locksEarned_run id 2 300 (0 : ℤ) (fun _ => 0) (by decide +kernel)

/-- The same, but the other replica serves the success. -/
def forgivenElsewhere : List (FleetEvent Bool ℤ) :=
  [.start true .recordFailure "a@b.com", .proceed 0, .proceed 0,
    .start true .recordFailure "a@b.com", .proceed 1, .proceed 1,
    .start false .recordSuccess "a@b.com", .proceed 2,
    .start true .isLocked "a@b.com", .proceed 3, .proceed 3]

/-- The first replica still reports the lock: no failure has been recorded
since the success. -/
theorem forgivenElsewhere_locked :
    (Runs.run (step id) (initial 2 300 (0 : ℤ) fun _ => 0) forgivenElsewhere).answers =
        [⟨"a@b.com", true, 0⟩] ∧
      ¬ (Runs.run (step id) (initial 2 300 (0 : ℤ) fun _ => 0) forgivenElsewhere).LocksEarned := by
  have hanswers : (Runs.run (step id) (initial 2 300 (0 : ℤ) fun _ => 0)
      forgivenElsewhere).answers = [⟨"a@b.com", true, 0⟩] := by decide +kernel
  refine ⟨hanswers, fun hearned => ?_⟩
  have hle := hearned ⟨"a@b.com", true, 0⟩ (by rw [hanswers]; exact List.mem_singleton.mpr rfl) rfl
  exact absurd hle (by decide +kernel)

end Fleet

end ThreatIntel
