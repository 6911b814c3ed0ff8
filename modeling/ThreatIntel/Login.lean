import ThreatIntel.Auth
import ThreatIntel.ThrottleOutage

/-!
# Logging in

`AuthService.authenticate` of `app/services/auth_service.py`, as a
routine on the accounts and the login throttle, and the unit of work
around it. An error rolls the database back, the audit row included; the
throttle is not part of the database and keeps what was recorded.

`decision` says which of the four ways a request takes, read off the
state before it, and `authenticate_spec` what each of them leaves behind.
-/

namespace ThreatIntel

open Routine
open LoginThrottle (normalise)

/-- What `authenticate` is built with, besides the rest of the service. -/
structure LoginEnv (K : Type) extends AuthEnv K where
  /-- `PasswordHasher.verify`, with the stored hash first. -/
  verify : String → String → Bool
  needsRehash : String → Bool
  /-- `_decoy_hash()` -/
  decoyHash : String

/-- The accounts, the throttle, and how far the throttle's clock is ahead
of the wall clock. -/
structure LoginWorld (K : Type) [Zero K] where
  auth : AuthWorld K
  throttle : LoginThrottle K
  throttleOffset : K

/-- A request, with what is drawn while it is served: the salt of a new
hash, the token ids, and how the Redis commands fare. -/
structure LoginAttempt where
  email : String
  password : String
  ip : Option String := none
  salt : String := ""
  jtis : String × String := ("", "")
  fates : RedisCommand → Fate := fun _ => .answered

variable {K : Type} [Ring K] [LinearOrder K] [FloorRing K]

abbrev LoginRoutine (K : Type) [Zero K] := Routine Exn (LoginWorld K)

namespace UserRepository

def getByEmail (env : AuthEnv K) (email : String) : AuthRoutine K (Option User) :=
  .gets fun w => w.db.users.rows.find? fun u => u.email = env.lower email

end UserRepository

namespace LoginWorld

/-- The reading of the throttle's clock. -/
def throttleNow (w : LoginWorld K) : K := w.auth.now + w.throttleOffset

/-- `session.rollback()`. -/
def rollback (before after : LoginWorld K) : LoginWorld K :=
  { after with auth := before.auth.rollback after.auth }

def onAuth {α : Type} (x : AuthRoutine K α) : LoginRoutine K α :=
  .zoom auth (fun auth w => { w with auth }) x

def onThrottle {α : Type} (x : Routine Exn (LoginThrottle K) α) : LoginRoutine K α :=
  .zoom throttle (fun throttle w => { w with throttle }) x

end LoginWorld

namespace AuthService

open LoginWorld (onAuth onThrottle)

def invalidCredentials : Exn := .app (.raise .authentication "Invalid email or password.")

/-- How a failed guess ends, for an unknown email or a known account. -/
def rejectGuess (env : LoginEnv K) (a : LoginAttempt) (userId : Option String) :
    LoginRoutine K TokenPair := do
  let clock ← .gets LoginWorld.throttleNow
  onThrottle (LoginThrottle.recordFailure env.lower clock a.fates (env.lower a.email))
  onAuth (AuditRepository.record "auth.login_failed" userId a.ip)
  .raise invalidCredentials

/-- How a login ends that is granted. -/
def grant (env : LoginEnv K) (a : LoginAttempt) (user : User) : LoginRoutine K TokenPair := do
  onThrottle (LoginThrottle.recordSuccess env.lower a.fates (env.lower a.email))
  if env.needsRehash user.passwordHash then
    onAuth (UserRepository.modify user.id
      (fun u => { u with passwordHash := env.hash a.salt a.password }) fun _ => rfl)
  onAuth (AuditRepository.record "auth.login" (some user.id) a.ip)
  let now ← .gets fun w : LoginWorld K => w.auth.now
  pure (env.tokens.issuePair now a.jtis user.id user.role)

def authenticate (env : LoginEnv K) (a : LoginAttempt) : LoginRoutine K TokenPair := do
  let email := env.lower a.email
  let clock ← .gets LoginWorld.throttleNow
  let locked ← onThrottle (LoginThrottle.isLocked env.lower clock a.fates email)
  if locked then
    let retryAfter ← onThrottle (LoginThrottle.retryAfter env.lower clock a.fates email)
    .raise (.app (.raise .accountLocked "" [("retry_after", .int retryAfter)]))
  else
    let user ← onAuth (UserRepository.getByEmail env.toAuthEnv email)
    match user with
    | none =>
        -- the decoy is verified for the time it takes; its verdict is dropped
        let _ := env.verify env.decoyHash a.password
        rejectGuess env a none
    | some user =>
        if !env.verify user.passwordHash a.password then rejectGuess env a (some user.id)
        else if !user.isActive then .raise invalidCredentials
        else grant env a user

end AuthService

/-! ## Runs -/

inductive LoginEvent (K : Type) where
  | advance (t : K)
  /-- What time and other replicas do to the server of a Redis throttle. -/
  | server (redis : RedisServer K)
  | login (attempt : LoginAttempt)

namespace LoginWorld

/-- `get_session` around an operation. -/
def unitOfWork {α : Type} (x : LoginRoutine K α) (w : LoginWorld K) : LoginWorld K :=
  (run (.atomically rollback x) w).2

def step (env : LoginEnv K) (w : LoginWorld K) : LoginEvent K → LoginWorld K
  | .advance t => { w with auth := { w.auth with now := max w.auth.now t } }
  | .server redis =>
      match w.throttle with
      | .inMemory _ => w
      | .redis t => { w with throttle := .redis { t with redis } }
  | .login a => unitOfWork (AuthService.authenticate env a) w

end LoginWorld

/-! ## The throttle always answers -/

namespace LoginThrottle

variable (lower : String → String) (clock : K) (fates : RedisCommand → Fate) (identity : String)
  (t : LoginThrottle K)

omit [FloorRing K] in
theorem isLocked_ok : ∃ locked, (run (isLocked lower clock fates identity) t).1 = .ok locked := by
  cases t with
  | inMemory t => exact ⟨_, rfl⟩
  | redis t =>
      obtain ⟨found, server, h⟩ := RedisLoginThrottle.run_isLocked lower clock fates identity t
      simp only [run] at h
      simp only [run, isLocked, h]
      exact ⟨_, rfl⟩

theorem retryAfter_ok : ∃ seconds,
    (run (retryAfter lower clock fates identity) t).1 = .ok seconds := by
  cases t with
  | inMemory t => exact ⟨_, rfl⟩
  | redis t =>
      obtain ⟨seconds, server, h⟩ := RedisLoginThrottle.run_retryAfter lower clock fates identity t
      simp only [run] at h
      simp only [run, retryAfter, h]
      exact ⟨_, rfl⟩

omit [FloorRing K] in
theorem recordFailure_ok : (run (recordFailure lower clock fates identity) t).1 = .ok () := by
  cases t with
  | inMemory t => rfl
  | redis t =>
      obtain ⟨server, h⟩ := RedisLoginThrottle.run_recordFailure lower clock fates identity t
      simp only [run] at h
      simp only [run, recordFailure, h]

omit [LinearOrder K] [FloorRing K] in
theorem recordSuccess_ok : (run (recordSuccess lower fates identity) t).1 = .ok () := by
  cases t with
  | inMemory t => rfl
  | redis t =>
      obtain ⟨server, h⟩ := RedisLoginThrottle.run_recordSuccess lower fates identity t
      simp only [run] at h
      simp only [run, recordSuccess, h]

end LoginThrottle

/-! ## The four ways a request can take -/

/-- What `authenticate` decides; a rejected guess names the account, if
there is one. -/
inductive LoginDecision where
  | locked
  | rejected (user : Option User)
  | disabled (user : User)
  | granted (user : User)
  deriving DecidableEq, Repr

namespace LoginWorld

section

variable (env : LoginEnv K) (w : LoginWorld K) (a : LoginAttempt)

/-- What `is_locked` answers, and leaves. -/
def checked : Except Exn Bool × LoginThrottle K :=
  run (LoginThrottle.isLocked env.lower w.throttleNow a.fates (env.lower a.email)) w.throttle

def locked : Bool :=
  match (w.checked env a).1 with
  | .ok locked => locked
  | .error _ => false

/-- The account a request is for. -/
def account : Option User :=
  w.auth.db.users.rows.find? fun u => u.email = env.lower (env.lower a.email)

def decision : LoginDecision :=
  if w.locked env a then .locked
  else
    match w.account env a with
    | none => .rejected none
    | some user =>
        if !env.verify user.passwordHash a.password then .rejected (some user)
        else if !user.isActive then .disabled user
        else .granted user

/-- The accounts after a granted request: an outdated hash is replaced. -/
def rehashed (user : User) : Table User User.id :=
  if env.needsRehash user.passwordHash then
    w.auth.db.users.modify user.id (fun u => { u with passwordHash := env.hash a.salt a.password })
      fun _ => rfl
  else w.auth.db.users

/-- What `retry_after` answers to a locked request, and leaves. -/
def retried : Except Exn Int × LoginThrottle K :=
  run (LoginThrottle.retryAfter env.lower w.throttleNow a.fates (env.lower a.email))
    (w.checked env a).2

end

end LoginWorld

def AuthService.accountLocked (retryAfter : Except Exn Int) : Exn :=
  match retryAfter with
  | .ok seconds => .app (.raise .accountLocked "" [("retry_after", .int seconds)])
  | .error e => e

/-- The audit row of a decision. -/
def LoginDecision.row? (ip : Option String) : LoginDecision → Option AuditLog
  | rejected user => some ⟨"auth.login_failed", user.map User.id, ip, []⟩
  | granted user => some ⟨"auth.login", some user.id, ip, []⟩
  | locked | disabled _ => none

namespace LoginWorld

variable (env : LoginEnv K) (w : LoginWorld K) (a : LoginAttempt)

/-- How a request ends. -/
def outcome : Except Exn TokenPair :=
  match w.decision env a with
  | .locked => .error (AuthService.accountLocked (w.retried env a).1)
  | .rejected _ | .disabled _ => .error AuthService.invalidCredentials
  | .granted user => .ok (env.tokens.issuePair w.auth.now a.jtis user.id user.role)

/-- What it leaves in the throttle. -/
def throttleAfter : LoginThrottle K :=
  match w.decision env a with
  | .locked => (w.retried env a).2
  | .rejected _ =>
      (run (LoginThrottle.recordFailure env.lower w.throttleNow a.fates (env.lower a.email))
        (w.checked env a).2).2
  | .disabled _ => (w.checked env a).2
  | .granted _ =>
      (run (LoginThrottle.recordSuccess env.lower a.fates (env.lower a.email)) (w.checked env a).2).2

/-- What it has written to the database when it ends. -/
def written : AuthDb K :=
  { w.auth.db with
    users :=
      match w.decision env a with
      | .granted user => w.rehashed env a user
      | _ => w.auth.db.users
    auditLogs := w.auth.db.auditLogs ++ ((w.decision env a).row? a.ip).toList }

end LoginWorld

/-! ### Run equations -/

section

variable {K : Type} [Ring K] {α β : Type} {w : LoginWorld K}

theorem LoginWorld.run_onThrottle {x : Routine Exn (LoginThrottle K) α} {r : α}
    {t : LoginThrottle K} (h : run x w.throttle = (.ok r, t)) :
    run (onThrottle x) w = (.ok r, { w with throttle := t }) := by
  rw [onThrottle, run_zoom, h]

theorem LoginWorld.run_onAuth {x : AuthRoutine K α} {r : α} {auth : AuthWorld K}
    (h : run x w.auth = (.ok r, auth)) : run (onAuth x) w = (.ok r, { w with auth }) := by
  rw [onAuth, run_zoom, h]

omit [Ring K] in
/-- An audit row for nobody, or for an account that exists. -/
theorem AuditRepository.run_record (auth : AuthWorld K) (userId : Option String)
    (hknown : userId.all (fun id => auth.db.users.hasKey id) = true) (action : String)
    (ip : Option String) :
    run (AuditRepository.record action userId ip) auth =
      (.ok (), { auth with db := { auth.db with
        auditLogs := auth.db.auditLogs ++ [⟨action, userId, ip, []⟩] } }) := by
  simp [AuditRepository.record, hknown]

end

namespace AuthService

open LoginWorld (run_onThrottle run_onAuth)

variable (env : LoginEnv K) (w : LoginWorld K) (a : LoginAttempt)

omit [LinearOrder K] [FloorRing K] in
theorem hasKey_of_account {user : User} (h : w.account env a = some user) :
    w.auth.db.users.hasKey user.id = true := by
  have hmem : user ∈ w.auth.db.users.rows := List.mem_of_find?_eq_some h
  exact Table.hasKey_of_get? ((Table.get?_eq_some_iff _ _ _).mpr ⟨hmem, rfl⟩)

omit [FloorRing K] in
/-- A failed guess is counted and written down, and then raises. -/
theorem run_rejectGuess (userId : Option String)
    (hknown : userId.all (fun id => w.auth.db.users.hasKey id) = true) :
    run (rejectGuess env a userId) w = (.error invalidCredentials,
      { w with
        throttle := (run (LoginThrottle.recordFailure env.lower w.throttleNow a.fates
          (env.lower a.email)) w.throttle).2
        auth := { w.auth with db := { w.auth.db with
          auditLogs := w.auth.db.auditLogs ++ [⟨"auth.login_failed", userId, a.ip, []⟩] } } }) := by
  rcases ht : run (LoginThrottle.recordFailure env.lower w.throttleNow a.fates
    (env.lower a.email)) w.throttle with ⟨result, t⟩
  obtain rfl : result = .ok () := by
    rw [← LoginThrottle.recordFailure_ok env.lower w.throttleNow a.fates (env.lower a.email)
      w.throttle, ht]
  have hrow : run (LoginWorld.onAuth (AuditRepository.record "auth.login_failed" userId a.ip))
      { w with throttle := t } = (.ok (), { w with
        throttle := t
        auth := { w.auth with db := { w.auth.db with
          auditLogs := w.auth.db.auditLogs ++ [⟨"auth.login_failed", userId, a.ip, []⟩] } } }) :=
    run_onAuth (AuditRepository.run_record w.auth userId hknown _ _)
  rw [rejectGuess, run_bind_gets, run_bind_ok (run_onThrottle ht), run_bind_ok hrow, run_raise]

theorem run_grant {user : User} (hkey : w.auth.db.users.hasKey user.id = true) :
    run (grant env a user) w =
      (.ok (env.tokens.issuePair w.auth.now a.jtis user.id user.role),
        { w with
          throttle := (run (LoginThrottle.recordSuccess env.lower a.fates (env.lower a.email))
            w.throttle).2
          auth := { w.auth with db := { w.auth.db with
            users := w.rehashed env a user
            auditLogs := w.auth.db.auditLogs ++ [⟨"auth.login", some user.id, a.ip, []⟩] } } }) := by
  rcases ht : run (LoginThrottle.recordSuccess env.lower a.fates (env.lower a.email))
    w.throttle with ⟨result, t⟩
  obtain rfl : result = .ok () := by
    rw [← LoginThrottle.recordSuccess_ok env.lower a.fates (env.lower a.email) w.throttle, ht]
  rw [grant, run_bind_ok (run_onThrottle ht)]
  -- the row can be written whether or not the hash has been replaced
  have hrow : ∀ users : Table User User.id, users.hasKey user.id = true →
      run (LoginWorld.onAuth (AuditRepository.record "auth.login" (some user.id) a.ip))
        { w with throttle := t, auth := { w.auth with db := { w.auth.db with users } } } =
      (.ok (), { w with
        throttle := t
        auth := { w.auth with db := { w.auth.db with
          users
          auditLogs := w.auth.db.auditLogs ++ [⟨"auth.login", some user.id, a.ip, []⟩] } } }) :=
    fun users h => run_onAuth (AuditRepository.run_record
      { w.auth with db := { w.auth.db with users } } (some user.id) h _ _)
  cases hrehash : env.needsRehash user.passwordHash with
  | false =>
      simp only [LoginWorld.rehashed, hrehash, Bool.false_eq_true, if_false]
      rw [run_bind_ok (hrow w.auth.db.users hkey)]
      rfl
  | true =>
      simp only [LoginWorld.rehashed, hrehash, if_true]
      have hmodify : run (LoginWorld.onAuth (UserRepository.modify user.id
          (fun u => { u with passwordHash := env.hash a.salt a.password }) fun _ => rfl))
            { w with throttle := t } =
          (.ok (), { w with
            throttle := t
            auth := { w.auth with db := { w.auth.db with
              users := w.auth.db.users.modify user.id
                (fun u => { u with passwordHash := env.hash a.salt a.password }) fun _ => rfl } } }) :=
        rfl
      rw [run_bind_ok hmodify, run_bind_ok (hrow _ (by simpa using hkey))]
      rfl

/-- **What a login does**, read off the state before it. -/
theorem authenticate_spec :
    run (authenticate env a) w = (w.outcome env a,
      { w with
        throttle := w.throttleAfter env a
        auth := { w.auth with db := w.written env a } }) := by
  obtain ⟨locked, hlocked⟩ := LoginThrottle.isLocked_ok env.lower w.throttleNow a.fates
    (env.lower a.email) w.throttle
  have hcheck : run (LoginThrottle.isLocked env.lower w.throttleNow a.fates (env.lower a.email))
      w.throttle = (.ok locked, (w.checked env a).2) := Prod.ext hlocked rfl
  have hw : w.locked env a = locked := by rw [LoginWorld.locked, LoginWorld.checked, hlocked]
  have hfound : run (LoginWorld.onAuth (UserRepository.getByEmail env.toAuthEnv (env.lower a.email)))
      { w with throttle := (w.checked env a).2 } =
        (.ok (w.account env a), { w with throttle := (w.checked env a).2 }) := rfl
  rw [authenticate, run_bind_gets, run_bind_ok (run_onThrottle hcheck)]
  simp only [LoginWorld.outcome, LoginWorld.throttleAfter, LoginWorld.written, LoginWorld.decision, hw]
  cases locked with
  | true =>
      obtain ⟨seconds, hseconds⟩ := LoginThrottle.retryAfter_ok env.lower w.throttleNow a.fates
        (env.lower a.email) (w.checked env a).2
      have hretry : run (LoginWorld.onThrottle (LoginThrottle.retryAfter env.lower w.throttleNow
          a.fates (env.lower a.email))) { w with throttle := (w.checked env a).2 } =
            (.ok seconds, { w with throttle := (w.retried env a).2 }) :=
        run_onThrottle (Prod.ext hseconds rfl)
      have hretried : (w.retried env a).1 = .ok seconds := hseconds
      simp only [if_true]
      rw [run_bind_ok hretry, run_raise, hretried]
      simp [accountLocked, LoginDecision.row?]
  | false =>
      simp only [Bool.false_eq_true, if_false]
      rw [run_bind_ok hfound]
      cases haccount : w.account env a with
      | none => exact run_rejectGuess env { w with throttle := (w.checked env a).2 } a none rfl
      | some user =>
          have hkey : w.auth.db.users.hasKey user.id = true := hasKey_of_account env w a haccount
          cases hverify : env.verify user.passwordHash a.password with
          | false =>
              simp only [hverify, Bool.not_false, if_true]
              exact run_rejectGuess env { w with throttle := (w.checked env a).2 } a (some user.id) hkey
          | true =>
              cases hactive : user.isActive with
              | false => simp [hverify, hactive, LoginDecision.row?]
              | true =>
                  simp only [hverify, hactive, Bool.not_true, Bool.false_eq_true, if_false]
                  exact run_grant env { w with throttle := (w.checked env a).2 } a hkey

end AuthService

/-! ## A login inside its unit of work -/

namespace LoginWorld

variable (env : LoginEnv K) (w : LoginWorld K) (a : LoginAttempt)

/-- What is committed: only a granted login leaves anything. -/
def committed : AuthDb K :=
  match w.decision env a with
  | .granted _ => w.written env a
  | _ => w.auth.db

theorem step_login :
    step env w (.login a) =
      { w with
        throttle := w.throttleAfter env a
        auth := { w.auth with db := w.committed env a } } := by
  have hspec := AuthService.authenticate_spec env w a
  rw [committed]
  cases hd : w.decision env a with
  | granted user =>
      simp only [outcome, hd] at hspec
      rw [step, unitOfWork, atomically_ok hspec]
  | locked =>
      simp only [outcome, hd] at hspec
      rw [step, unitOfWork, atomically_error hspec]
      rfl
  | rejected user =>
      simp only [outcome, hd] at hspec
      rw [step, unitOfWork, atomically_error hspec]
      rfl
  | disabled user =>
      simp only [outcome, hd] at hspec
      rw [step, unitOfWork, atomically_error hspec]
      rfl

end LoginWorld

/-! ## A deployment to try things on -/

/-- A password hash that names its password. -/
def LoginEnv.sample : LoginEnv ℤ where
  allowOpenRegistration := false
  registrationDefaultRole := "viewer"
  tokens := { accessTtl := 1800, refreshTtl := 1209600 }
  lower := String.toLower
  hash _ password := "$argon2id$" ++ password
  sha256 := id
  verify hash password := hash = "$argon2id$" ++ password
  needsRehash _ := false
  decoyHash := "$argon2id$decoy-password-for-constant-time-auth"

/-- The given accounts, and a throttle that locks after `maxAttempts`. -/
def LoginWorld.sample (users : Table User User.id) (maxAttempts : Int) : LoginWorld ℤ where
  auth :=
    { db := { users, apiKeys := .empty, auditLogs := [] }
      tokenStore := .inMemory ⟨.empty⟩
      now := 0
      storeOffset := 0 }
  throttle := .inMemory { maxAttempts }
  throttleOffset := 0

end ThreatIntel
