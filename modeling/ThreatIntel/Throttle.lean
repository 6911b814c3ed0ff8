import ThreatIntel.Dict
import ThreatIntel.Errors
import ThreatIntel.PyText
import ThreatIntel.Routine
import ThreatIntel.Tokens

/-!
# The login throttle

`app/security/throttle.py`: failed logins are counted per identity, and
an identity that fails too often is locked for a while.

The in-process backend keeps a dictionary. The Redis backend keeps its
counters and locks on a server that the whole fleet shares, and besides
that a private in-process throttle it degrades onto. Its methods are
routines over the server and the private throttle: every command may
fail (`Fate`), and a command that fails may or may not have been applied.

A method takes the reading of the replica's monotonic clock; the server
counts its expiries on a clock of its own.
-/

namespace ThreatIntel

namespace LoginThrottle

/-- `normalise`, over the library's `str.lower`. -/
def normalise (lower : String → String) (identity : String) : String :=
  lower (String.ofList (PyStr.strip identity.toList))

/-- `_Entry`; a `locked_until` of zero stands for no lock. -/
structure Entry (K : Type) [Zero K] where
  failures : Nat := 0
  lockedUntil : K := 0
  deriving DecidableEq, Repr

end LoginThrottle

open LoginThrottle (normalise Entry)

variable {K : Type} [Ring K] [LinearOrder K]

inductive ThrottleMethod where
  | isLocked
  | retryAfter
  | recordFailure
  | recordSuccess
  deriving DecidableEq, Repr

/-! ## In process -/

structure InMemoryLoginThrottle (K : Type) [Zero K] where
  maxAttempts : Int := 5
  lockoutSeconds : Int := 300
  entries : Dict String (Entry K) := .empty

namespace InMemoryLoginThrottle

/-- `is_locked`: once the lock has elapsed the failures are forgiven. -/
def isLocked (lower : String → String) (clock : K) (identity : String)
    (t : InMemoryLoginThrottle K) : Bool × InMemoryLoginThrottle K :=
  let key := normalise lower identity
  match t.entries.get? key with
  | none => (false, t)
  | some entry =>
      if entry.lockedUntil = 0 then (false, t)
      else if clock < entry.lockedUntil then (true, t)
      else (false, { t with entries := t.entries.erase key })

def retryAfter [FloorRing K] (lower : String → String) (clock : K) (identity : String)
    (t : InMemoryLoginThrottle K) : Int :=
  match t.entries.get? (normalise lower identity) with
  | none => 0
  | some entry =>
      if entry.lockedUntil = 0 then 0 else max 0 (truncate (entry.lockedUntil - clock))

/-- The entry after one more failure. -/
def count (t : InMemoryLoginThrottle K) (clock : K) (entry : Entry K) : Entry K :=
  { failures := entry.failures + 1
    lockedUntil :=
      if t.maxAttempts ≤ (entry.failures + 1 : Nat) then clock + t.lockoutSeconds
      else entry.lockedUntil }

def recordFailure (lower : String → String) (clock : K) (identity : String)
    (t : InMemoryLoginThrottle K) : InMemoryLoginThrottle K :=
  let key := normalise lower identity
  let entry := (t.entries.get? key).getD {}
  { t with entries := t.entries.set key (t.count clock entry) }

def recordSuccess (lower : String → String) (identity : String) (t : InMemoryLoginThrottle K) :
    InMemoryLoginThrottle K :=
  { t with entries := t.entries.erase (normalise lower identity) }

/-- The entry of `key`; one that is missing counts no failures. -/
def entry (t : InMemoryLoginThrottle K) (key : String) : Entry K := (t.entries.get? key).getD {}

section

variable (lower : String → String) (clock : K) (identity : String) (t : InMemoryLoginThrottle K)

/-- `is_locked` reads the entry of the identity alone. -/
theorem isLocked_eq :
    (t.isLocked lower clock identity).1 =
      (decide ((t.entry (normalise lower identity)).lockedUntil ≠ 0) &&
        decide (clock < (t.entry (normalise lower identity)).lockedUntil)) := by
  cases hget : t.entries.get? (normalise lower identity) with
  | none => simp [isLocked, entry, hget]
  | some e =>
      by_cases hzero : e.lockedUntil = 0
      · simp [isLocked, entry, hget, hzero]
      · by_cases hlt : clock < e.lockedUntil <;> simp [isLocked, entry, hget, hzero, hlt]

/-- What `is_locked` leaves: an entry whose lock has elapsed is gone. -/
theorem entry_isLocked (key : String) :
    (t.isLocked lower clock identity).2.entry key =
      if key = normalise lower identity ∧ (t.entry key).lockedUntil ≠ 0 ∧
          (t.entry key).lockedUntil ≤ clock then {} else t.entry key := by
  simp only [isLocked]
  by_cases hkey : key = normalise lower identity
  · subst hkey
    simp only [entry, true_and]
    cases hget : t.entries.get? (normalise lower identity) with
    | none => simp [hget]
    | some e =>
        by_cases hzero : e.lockedUntil = 0
        · simp [hzero, hget]
        · by_cases hlt : clock < e.lockedUntil
          · simp [hzero, hlt, hget]
          · simp [hzero, hlt, not_lt.mp hlt]
  · simp only [hkey, false_and, if_false]
    split
    · rfl
    · split
      · rfl
      · split
        · rfl
        · simp only [entry, Dict.get?_erase_ne _ hkey]

omit [LinearOrder K] in
theorem entry_recordFailure (key : String) :
    (t.recordFailure lower clock identity).entry key =
      if key = normalise lower identity then t.count clock (t.entry key) else t.entry key := by
  by_cases hkey : key = normalise lower identity
  · subst hkey
    simp [recordFailure, entry]
  · simp [recordFailure, entry, hkey, Dict.get?_set_ne]

omit [LinearOrder K] in
theorem entry_recordSuccess (key : String) :
    (t.recordSuccess lower identity).entry key =
      if key = normalise lower identity then {} else t.entry key := by
  by_cases hkey : key = normalise lower identity
  · subst hkey
    simp [recordSuccess, entry]
  · simp [recordSuccess, entry, hkey, Dict.get?_erase_ne]

@[simp] theorem maxAttempts_isLocked :
    (t.isLocked lower clock identity).2.maxAttempts = t.maxAttempts := by
  simp only [isLocked]
  split
  · rfl
  · split
    · rfl
    · split <;> rfl

@[simp] theorem lockoutSeconds_isLocked :
    (t.isLocked lower clock identity).2.lockoutSeconds = t.lockoutSeconds := by
  simp only [isLocked]
  split
  · rfl
  · split
    · rfl
    · split <;> rfl

end

end InMemoryLoginThrottle

/-! ## The Redis server -/

structure RedisEntry (K : Type) where
  value : Int
  expiresAt : Option K := none
  deriving DecidableEq, Repr

/-- The server: its clock, and its keys with the time they expire. -/
structure RedisServer (K : Type) where
  now : K
  keys : Dict String (RedisEntry K) := .empty

namespace RedisServer

/-- The entry of a key that has not expired. -/
def live? (r : RedisServer K) (key : String) : Option (RedisEntry K) :=
  (r.keys.get? key).filter fun entry => entry.expiresAt.all fun t => r.now < t

/-- `EXISTS key`. -/
def «exists» (key : String) (r : RedisServer K) : Bool := (r.live? key).isSome

-- `ttl` rounds with a literal 2 of `K`, which needs this and no proof of its own
local instance atLeastTwo_two : Nat.AtLeastTwo 2 := ⟨le_rfl⟩

/-- `TTL key`, in whole seconds: -2 for a missing key, -1 for one that
does not expire. -/
def ttl [FloorRing K] (key : String) (r : RedisServer K) : Int :=
  match r.live? key with
  | none => -2
  | some entry =>
      match entry.expiresAt with
      | none => -1
      | some t => ⌊2 * (t - r.now) + 1⌋ / 2

/-- `INCR key`: a key that is missing or has expired starts from zero. -/
def incr (key : String) (r : RedisServer K) : Int × RedisServer K :=
  let entry := (r.live? key).getD { value := 0 }
  (entry.value + 1, { r with keys := r.keys.set key { entry with value := entry.value + 1 } })

/-- `EXPIRE key seconds`; a time that is not positive deletes the key. -/
def expire (key : String) (seconds : Int) (r : RedisServer K) : RedisServer K :=
  match r.live? key with
  | none => r
  | some entry =>
      if seconds ≤ 0 then { r with keys := r.keys.erase key }
      else { r with keys := r.keys.set key { entry with expiresAt := some (r.now + seconds) } }

/-- `SET key value EX seconds`; a time that is not positive is an error. -/
def setEx (key : String) (value seconds : Int) (r : RedisServer K) :
    Except Exn Unit × RedisServer K :=
  if seconds ≤ 0 then (.error .redis, r)
  else (.ok (), { r with keys := r.keys.set key { value, expiresAt := some (r.now + seconds) } })

/-- `DEL key₁ key₂`. -/
def delete (key₁ key₂ : String) (r : RedisServer K) : RedisServer K :=
  { r with keys := (r.keys.erase key₁).erase key₂ }

end RedisServer

/-! ## Fleet-wide -/

inductive RedisCommand where
  | exists
  | ttl
  | incr
  | expire
  | set
  | delete
  deriving DecidableEq, Repr

/-- How a command fares: it is answered, or it fails after the server has
applied it, or it fails without having reached the server. -/
inductive Fate where
  | answered
  | lost
  | refused
  deriving DecidableEq, Repr

/-- `RedisLoginThrottle`, with the server it is connected to. -/
structure RedisLoginThrottle (K : Type) [Zero K] where
  redis : RedisServer K
  maxAttempts : Int := 5
  lockoutSeconds : Int := 300
  fallback : InMemoryLoginThrottle K := { maxAttempts, lockoutSeconds }

abbrev ThrottleRoutine (K : Type) [Zero K] := Routine Exn (RedisLoginThrottle K)

namespace RedisLoginThrottle

/-- `_FAILURE_PREFIX + key`. -/
def failureKey (key : String) : String := "login_fail:" ++ key

/-- `_LOCK_PREFIX + key`. -/
def lockKey (key : String) : String := "login_lock:" ++ key

/-- Send one command. -/
def execute {α : Type} (fate : Fate)
    (command : RedisServer K → Except Exn α × RedisServer K) : ThrottleRoutine K α := fun t =>
  match fate with
  | .answered => ((command t.redis).1, { t with redis := (command t.redis).2 })
  | .lost => (.error .redis, { t with redis := (command t.redis).2 })
  | .refused => (.error .redis, t)

/-- `except Exception as exc: self._degraded(exc)`. -/
def degraded {α : Type} (x : ThrottleRoutine K α) (fallback : α) : ThrottleRoutine K α :=
  .tryExcept x fun _ => some (pure fallback)

/-- A method of `self._fallback`. -/
def onFallback {α : Type} (f : InMemoryLoginThrottle K → α × InMemoryLoginThrottle K) :
    ThrottleRoutine K α :=
  .modifyGet fun t => ((f t.fallback).1, { t with fallback := (f t.fallback).2 })

def isLocked (lower : String → String) (clock : K) (fates : RedisCommand → Fate)
    (identity : String) : ThrottleRoutine K Bool := do
  let found ← degraded
    (execute (fates .exists) fun r => (.ok (r.exists (lockKey (normalise lower identity))), r))
    false
  if found then pure true
  else onFallback (InMemoryLoginThrottle.isLocked lower clock identity)

def retryAfter [FloorRing K] (lower : String → String) (clock : K) (fates : RedisCommand → Fate)
    (identity : String) : ThrottleRoutine K Int := do
  let ttl ← degraded
    (execute (fates .ttl) fun r => (.ok (r.ttl (lockKey (normalise lower identity))), r)) 0
  if 0 < ttl then pure ttl
  else .gets fun t => t.fallback.retryAfter lower clock identity

/-- Set the lock once the fleet has counted `failures`. -/
def lockAt (fates : RedisCommand → Fate) (key : String) (failures : Int) :
    ThrottleRoutine K Unit := fun t =>
  if t.maxAttempts ≤ failures then
    execute (fates .set) (RedisServer.setEx (lockKey key) 1 t.lockoutSeconds) t
  else (.ok (), t)

/-- The window of a counter starts with its first failure. -/
def startWindow (fates : RedisCommand → Fate) (key : String) (failures : Int) :
    ThrottleRoutine K Unit := fun t =>
  if failures = 1 then
    execute (fates .expire) (fun r => (.ok (), r.expire (failureKey key) t.lockoutSeconds)) t
  else (.ok (), t)

/-- The commands of `record_failure`. -/
def countFleetWide (fates : RedisCommand → Fate) (key : String) : ThrottleRoutine K Unit := do
  let failures ← execute (fates .incr) fun r =>
    (.ok (r.incr (failureKey key)).1, (r.incr (failureKey key)).2)
  startWindow fates key failures
  lockAt fates key failures

/-- `record_failure`: counted locally as well, whatever becomes of the
commands. -/
def recordFailure (lower : String → String) (clock : K) (fates : RedisCommand → Fate)
    (identity : String) : ThrottleRoutine K Unit := do
  onFallback fun f => ((), f.recordFailure lower clock identity)
  degraded (countFleetWide fates (normalise lower identity)) ()

def recordSuccess (lower : String → String) (fates : RedisCommand → Fate) (identity : String) :
    ThrottleRoutine K Unit := do
  onFallback fun f => ((), f.recordSuccess lower identity)
  let key := normalise lower identity
  degraded (execute (fates .delete) fun r => (.ok (), r.delete (failureKey key) (lockKey key))) ()

/-! ### Run equations -/

omit [LinearOrder K] in
@[simp] theorem run_onFallback_bind {α β : Type}
    (f : InMemoryLoginThrottle K → α × InMemoryLoginThrottle K) (k : α → ThrottleRoutine K β)
    (t : RedisLoginThrottle K) :
    Routine.run (onFallback f >>= k) t =
      Routine.run (k (f t.fallback).1) { t with fallback := (f t.fallback).2 } := rfl

omit [LinearOrder K] in
theorem run_degraded_ok {α : Type} {x : ThrottleRoutine K α} {t t' : RedisLoginThrottle K}
    {b : α} (h : Routine.run x t = (.ok b, t')) (a : α) :
    Routine.run (degraded x a) t = (.ok b, t') :=
  Routine.tryExcept_ok h

omit [LinearOrder K] in
theorem run_degraded_error {α : Type} {x : ThrottleRoutine K α} {t t' : RedisLoginThrottle K}
    {e : Exn} (h : Routine.run x t = (.error e, t')) (a : α) :
    Routine.run (degraded x a) t = (.ok a, t') :=
  Routine.tryExcept_caught h rfl

end RedisLoginThrottle

/-! ## Either backend -/

inductive LoginThrottle (K : Type) [Zero K] where
  | inMemory (throttle : InMemoryLoginThrottle K)
  | redis (throttle : RedisLoginThrottle K)

namespace LoginThrottle

def isLocked (lower : String → String) (clock : K) (fates : RedisCommand → Fate)
    (identity : String) : Routine Exn (LoginThrottle K) Bool
  | inMemory t =>
      (.ok (t.isLocked lower clock identity).1, inMemory (t.isLocked lower clock identity).2)
  | redis t =>
      let (result, t') := (RedisLoginThrottle.isLocked lower clock fates identity).run t
      (result, redis t')

def retryAfter [FloorRing K] (lower : String → String) (clock : K) (fates : RedisCommand → Fate)
    (identity : String) : Routine Exn (LoginThrottle K) Int
  | inMemory t => (.ok (t.retryAfter lower clock identity), inMemory t)
  | redis t =>
      let (result, t') := (RedisLoginThrottle.retryAfter lower clock fates identity).run t
      (result, redis t')

def recordFailure (lower : String → String) (clock : K) (fates : RedisCommand → Fate)
    (identity : String) : Routine Exn (LoginThrottle K) Unit
  | inMemory t => (.ok (), inMemory (t.recordFailure lower clock identity))
  | redis t =>
      let (result, t') := (RedisLoginThrottle.recordFailure lower clock fates identity).run t
      (result, redis t')

def recordSuccess (lower : String → String) (fates : RedisCommand → Fate) (identity : String) :
    Routine Exn (LoginThrottle K) Unit
  | inMemory t => (.ok (), inMemory (t.recordSuccess lower identity))
  | redis t =>
      let (result, t') := (RedisLoginThrottle.recordSuccess lower fates identity).run t
      (result, redis t')

end LoginThrottle

end ThreatIntel
