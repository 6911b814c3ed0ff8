import ThreatIntel.Login

/-!
# What login responses tell about an account

Every rejected login is answered alike, whether the email is unknown, the
password wrong or the account disabled. But a guess at an unknown email
and a wrong password are counted by the throttle, and the right password
of a disabled account is not, and how the throttle has counted shows in
the later responses.

So the statement is about two deployments that differ in their accounts
alone, and about whole sequences of responses. As long as nobody who gets
past the lock presents the password of a disabled account, the throttle
goes through the same states in both.
-/

namespace ThreatIntel

open Routine

/-! ## Responses -/

/-- A JSON error response: its status, the entries of its body, and the
`Retry-After` header. -/
structure ErrorResponse where
  status : Nat
  code : String
  message : String
  details : List (String × Detail)
  retryAfter : Option Int
  deriving DecidableEq, Repr

inductive LoginResponse where
  | token (pair : TokenPair)
  | error (response : ErrorResponse)
  deriving DecidableEq, Repr

/-- `int(retry_after)`, for the integers the application puts there. -/
def Detail.toInt? : Detail → Option Int
  | int n => some n
  | str s => s.toInt?

/-- `_handle_app_error`. -/
def handleAppError (exc : AppError) : ErrorResponse where
  status := exc.cls.statusCode
  code := exc.cls.code
  message := exc.message
  details := exc.details
  retryAfter := (exc.details.lookup "retry_after").bind Detail.toInt?

/-- `_handle_unexpected`. -/
def handleUnexpected : ErrorResponse where
  status := 500
  code := "internal_error"
  message := "An unexpected error occurred."
  details := []
  retryAfter := none

def respond : Except Exn TokenPair → LoginResponse
  | .ok pair => .token pair
  | .error (.app exc) => .error (handleAppError exc)
  | .error _ => .error handleUnexpected

namespace LoginWorld

variable {K : Type} [Ring K] [LinearOrder K] [FloorRing K]

/-- The responses to the logins of a run. -/
def responses (env : LoginEnv K) : LoginWorld K → List (LoginEvent K) → List LoginResponse
  | _, [] => []
  | w, .login a :: es =>
      respond (run (AuthService.authenticate env a) w).1 :: responses env (step env w (.login a)) es
  | w, e :: es => responses env (step env w e) es

/-- The same deployment with other accounts. -/
def withUsers (w : LoginWorld K) (users : Table User User.id) : LoginWorld K :=
  { w with auth := { w.auth with db := { w.auth.db with users } } }

/-- The accounts differ at most in the row of an email. -/
def AgreeExcept (email : String) (users₁ users₂ : Table User User.id) : Prop :=
  ∀ user, user.email ≠ email → (user ∈ users₁.rows ↔ user ∈ users₂.rows)

/-- The request presents the password of an account whose active flag is
as given. -/
def PresentsPassword (env : LoginEnv K) (w : LoginWorld K) (isActive : Bool) (a : LoginAttempt) :
    Prop :=
  ∃ user ∈ w.account env a, user.isActive = isActive ∧ env.verify user.passwordHash a.password = true

/-- The condition on a step: a request that gets past the lock does not
present the password of a disabled account. -/
def SparesDisabled (env : LoginEnv K) (w : LoginWorld K) : LoginEvent K → Prop
  | .login a => w.locked env a = true ∨ ¬ PresentsPassword env w false a
  | _ => True

instance (env : LoginEnv K) (w : LoginWorld K) (isActive : Bool) (a : LoginAttempt) :
    Decidable (PresentsPassword env w isActive a) :=
  decidable_of_iff ((w.account env a).any fun user =>
    user.isActive = isActive && env.verify user.passwordHash a.password) <| by
      simp [PresentsPassword, Option.any_eq_true]

instance (env : LoginEnv K) (w : LoginWorld K) (e : LoginEvent K) :
    Decidable (SparesDisabled env w e) := by
  unfold SparesDisabled
  split <;> infer_instance

/-! ## Two deployments side by side -/

variable {env : LoginEnv K} {w : LoginWorld K}

omit [FloorRing K] in
/-- A request that knows no password is locked out or counted. -/
theorem decision_of_unknowing {a : LoginAttempt} (hactive : ¬ PresentsPassword env w true a)
    (hspare : SparesDisabled env w (.login a)) :
    (w.locked env a = true ∧ w.decision env a = .locked) ∨
      (w.locked env a = false ∧ ∃ user, w.decision env a = .rejected user) := by
  simp only [decision]
  cases hlocked : w.locked env a with
  | true => exact Or.inl ⟨rfl, rfl⟩
  | false =>
      refine Or.inr ⟨rfl, ?_⟩
      have hdisabled : ¬ PresentsPassword env w false a := by
        rcases hspare with h | h
        · rw [hlocked] at h
          cases h
        · exact h
      cases haccount : w.account env a with
      | none => exact ⟨none, rfl⟩
      | some user =>
          cases hverify : env.verify user.passwordHash a.password with
          | false => exact ⟨some user, by simp [hverify]⟩
          | true =>
              cases hflag : user.isActive with
              | true => exact absurd ⟨user, haccount, hflag, hverify⟩ hactive
              | false => exact absurd ⟨user, haccount, hflag, hverify⟩ hdisabled

/-- What becomes of such a request does not depend on the accounts. -/
theorem step_unknowing {users₁ users₂ : Table User User.id} {a : LoginAttempt}
    (hactive₁ : ¬ PresentsPassword env (w.withUsers users₁) true a)
    (hactive₂ : ¬ PresentsPassword env (w.withUsers users₂) true a)
    (hspare₁ : SparesDisabled env (w.withUsers users₁) (.login a))
    (hspare₂ : SparesDisabled env (w.withUsers users₂) (.login a)) :
    (w.withUsers users₁).outcome env a = (w.withUsers users₂).outcome env a ∧
      ∃ throttle,
        step env (w.withUsers users₁) (.login a) = { w with throttle }.withUsers users₁ ∧
        step env (w.withUsers users₂) (.login a) = { w with throttle }.withUsers users₂ := by
  have hlock : (w.withUsers users₁).locked env a = (w.withUsers users₂).locked env a := rfl
  rw [step_login, step_login]
  rcases decision_of_unknowing hactive₁ hspare₁ with ⟨h₁, hd₁⟩ | ⟨h₁, user₁, hd₁⟩
  · rcases decision_of_unknowing hactive₂ hspare₂ with ⟨h₂, hd₂⟩ | ⟨h₂, user₂, hd₂⟩
    · simp only [outcome, throttleAfter, committed, hd₁, hd₂]
      exact ⟨rfl, (w.retried env a).2, rfl, rfl⟩
    · rw [hlock, h₂] at h₁
      cases h₁
  · rcases decision_of_unknowing hactive₂ hspare₂ with ⟨h₂, hd₂⟩ | ⟨h₂, user₂, hd₂⟩
    · rw [hlock, h₂] at h₁
      cases h₁
    · simp only [outcome, throttleAfter, committed, hd₁, hd₂]
      exact ⟨trivial, (run (LoginThrottle.recordFailure env.lower w.throttleNow a.fates
        (env.lower a.email)) (w.checked env a).2).2, rfl, rfl⟩

/-- **Login does not reveal account status** to those who know no
password: two deployments that differ in their accounts alone answer a
sequence of attempts alike, if no attempt presents the password of an
active account, nor, past the lock, that of a disabled one. -/
theorem responses_eq (env : LoginEnv K) {w : LoginWorld K} {users₁ users₂ : Table User User.id}
    {es : List (LoginEvent K)}
    (hactive₁ : ∀ a, .login a ∈ es → ¬ PresentsPassword env (w.withUsers users₁) true a)
    (hactive₂ : ∀ a, .login a ∈ es → ¬ PresentsPassword env (w.withUsers users₂) true a)
    (hspare₁ : Runs.Meets (step env) (SparesDisabled env) (w.withUsers users₁) es)
    (hspare₂ : Runs.Meets (step env) (SparesDisabled env) (w.withUsers users₂) es) :
    responses env (w.withUsers users₁) es = responses env (w.withUsers users₂) es := by
  induction es generalizing w with
  | nil => rfl
  | cons e es ih =>
      have hrest₁ : ∀ a, .login a ∈ es → ¬ PresentsPassword env (w.withUsers users₁) true a :=
        fun a ha => hactive₁ a (List.mem_cons_of_mem _ ha)
      have hrest₂ : ∀ a, .login a ∈ es → ¬ PresentsPassword env (w.withUsers users₂) true a :=
        fun a ha => hactive₂ a (List.mem_cons_of_mem _ ha)
      obtain ⟨hone₁, hspare₁⟩ := hspare₁
      obtain ⟨hone₂, hspare₂⟩ := hspare₂
      cases e with
      | login a =>
          obtain ⟨houtcome, throttle, hs₁, hs₂⟩ := step_unknowing
            (hactive₁ a (List.mem_cons_self ..)) (hactive₂ a (List.mem_cons_self ..)) hone₁ hone₂
          simp only [responses, AuthService.authenticate_spec, houtcome]
          rw [hs₁] at hspare₁ ⊢
          rw [hs₂] at hspare₂ ⊢
          exact congrArg _ (ih hrest₁ hrest₂ hspare₁ hspare₂)
      | advance t =>
          exact ih (w := { w with auth := { w.auth with now := max w.auth.now t } })
            hrest₁ hrest₂ hspare₁ hspare₂
      | server redis =>
          cases hthrottle : w.throttle with
          | inMemory t =>
              have hstep : ∀ users, step env (w.withUsers users) (.server redis) =
                  w.withUsers users := fun users => by simp [step, withUsers, hthrottle]
              rw [hstep] at hspare₁ hspare₂
              simp only [responses, hstep]
              exact ih hrest₁ hrest₂ hspare₁ hspare₂
          | redis t =>
              have hstep : ∀ users, step env (w.withUsers users) (.server redis) =
                  { w with throttle := .redis { t with redis } }.withUsers users :=
                fun users => by simp [step, withUsers, hthrottle]
              rw [hstep] at hspare₁ hspare₂
              simp only [responses, hstep]
              exact ih hrest₁ hrest₂ hspare₁ hspare₂

/-! ## A disabled account -/

/-- One account, disabled; its password is `correct`. -/
def disabledAccount : Table User User.id where
  rows := [{
    id := "u1"
    email := "alice@example.com"
    passwordHash := "$argon2id$correct"
    role := "viewer"
    isActive := false }]
  nodupKeys := by simp

/-- The same request twice. -/
def twice (password : String) : List (LoginEvent ℤ) :=
  List.replicate 2 (.login { email := "alice@example.com", password })

theorem mem_twice {password : String} {a : LoginAttempt}
    (h : LoginEvent.login a ∈ twice password) : a = { email := "alice@example.com", password } := by
  have := List.eq_of_mem_replicate h
  injection this

/-- Without the password the two deployments answer alike. -/
theorem responses_guess :
    responses LoginEnv.sample ((LoginWorld.sample .empty 1).withUsers disabledAccount)
        (twice "guess") =
      responses LoginEnv.sample ((LoginWorld.sample .empty 1).withUsers .empty) (twice "guess") :=
  responses_eq LoginEnv.sample
    (fun a ha => by rw [mem_twice ha]; decide +kernel)
    (fun a ha => by rw [mem_twice ha]; decide +kernel)
    (by decide +kernel) (by decide +kernel)

/-- With it, the second response differs: the unknown email is locked, the
disabled account is not. -/
theorem responses_correct :
    ¬ ∀ (email : String) (users₁ users₂ : Table User User.id) (es : List (LoginEvent ℤ)),
      AgreeExcept email users₁ users₂ →
      (∀ a, .login a ∈ es → LoginEnv.sample.lower a.email = email) →
      (∀ a, .login a ∈ es →
        ¬ PresentsPassword LoginEnv.sample ((LoginWorld.sample .empty 1).withUsers users₁) true a) →
      (∀ a, .login a ∈ es →
        ¬ PresentsPassword LoginEnv.sample ((LoginWorld.sample .empty 1).withUsers users₂) true a) →
      responses LoginEnv.sample ((LoginWorld.sample .empty 1).withUsers users₁) es =
        responses LoginEnv.sample ((LoginWorld.sample .empty 1).withUsers users₂) es := by
  intro h
  refine absurd (h "alice@example.com" disabledAccount .empty (twice "correct") ?_ ?_ ?_ ?_)
    (by decide +kernel)
  · intro user hne
    simp only [disabledAccount, Table.empty, List.mem_singleton, List.not_mem_nil, iff_false]
    rintro rfl
    exact hne rfl
  · intro a ha
    rw [mem_twice ha]
    decide +kernel
  · intro a ha
    rw [mem_twice ha]
    decide +kernel
  · intro a ha
    rw [mem_twice ha]
    decide +kernel

end LoginWorld

end ThreatIntel
