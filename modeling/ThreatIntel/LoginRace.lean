import Mathlib.Logic.Function.Basic
import ThreatIntel.InFlight
import ThreatIntel.Login

/-!
# How many guesses a lockout allows

`authenticate` asks for the lock when it starts and counts a failure when
it ends, with database work in between. Here its calls are split into
their steps, against an in-process throttle, and every list of events is
an interleaving of any number of calls.

A call that has passed the lock and not recorded its result yet is
*pending*: it may still turn out to be one more guess. The invariant is
that the failures recorded and the pending calls of an identity are
together at most `max_attempts`. Only the check admits calls, so one
condition on that step keeps it (`Admits`).
-/

namespace ThreatIntel

open Routine
open LoginThrottle (normalise)

/-- Where a call of `authenticate` stands. -/
inductive LoginPhase where
  | started (email password : String)
  | checked (email password : String)
  | found (email password : String) (user : Option User)
  /-- The verification failed. -/
  | rejected (email : String)
  /-- It succeeded, and the account is active. -/
  | accepted (email : String)
  | done
  deriving DecidableEq, Repr

namespace LoginPhase

/-- The call has passed the lock, and may yet add to the failures of
`key`. -/
def pending (lower : String → String) (key : String) : LoginPhase → Bool
  | checked email _ | found email _ _ | rejected email => normalise lower (lower email) = key
  | _ => false

/-- The call is about to record a failure of `key`. -/
def failing (lower : String → String) (key : String) : LoginPhase → Bool
  | rejected email => normalise lower (lower email) = key
  | _ => false

end LoginPhase

/-- The throttle and its clock, the calls in the order they were started,
and how many verifications have failed for an identity since it was last
forgiven. -/
structure LoginCalls (K : Type) [Zero K] where
  throttle : InMemoryLoginThrottle K
  clock : K
  calls : List LoginPhase := []
  guesses : String → Nat := fun _ => 0

inductive LoginCallEvent (K : Type) where
  | advance (t : K)
  | start (email password : String)
  /-- `is_locked`. -/
  | check (call : Nat)
  /-- The user lookup, and what it finds at that moment. -/
  | lookup (call : Nat) (user : Option User)
  /-- The password verification, and the look at the active flag. -/
  | verify (call : Nat)
  /-- `record_failure` or `record_success`. -/
  | record (call : Nat)

namespace LoginCalls

variable {K : Type} [Ring K]

/-- A call moves on to `phase`. -/
def goto (s : LoginCalls K) (call : Nat) (phase : LoginPhase) : LoginCalls K :=
  { s with calls := s.calls.set call phase }

/-- The verdict on a password. -/
def verdict (env : LoginEnv K) (email password : String) : Option User → LoginPhase
  | none => .rejected email
  | some user =>
      if !env.verify user.passwordHash password then .rejected email
      else if !user.isActive then .done
      else .accepted email

variable [LinearOrder K]

/-- The lock of the identity has been set and has elapsed. -/
def elapsed (s : LoginCalls K) (key : String) : Bool :=
  (s.throttle.entry key).lockedUntil ≠ 0 && (s.throttle.entry key).lockedUntil ≤ s.clock

def step (env : LoginEnv K) (s : LoginCalls K) : LoginCallEvent K → LoginCalls K
  | .advance t => { s with clock := max s.clock t }
  | .start email password => { s with calls := s.calls ++ [.started email password] }
  | .check call =>
      match s.calls[call]? with
      | some (.started email password) =>
          let key := normalise env.lower (env.lower email)
          let (locked, throttle) := s.throttle.isLocked env.lower s.clock (env.lower email)
          -- an elapsed lock is where the failures are forgiven
          let guesses := if s.elapsed key then Function.update s.guesses key 0 else s.guesses
          { s with throttle, guesses }.goto call
            (if locked then .done else .checked email password)
      | _ => s
  | .lookup call user =>
      match s.calls[call]? with
      | some (.checked email password) => s.goto call (.found email password user)
      | _ => s
  | .verify call =>
      match s.calls[call]? with
      | some (.found email password user) =>
          let key := normalise env.lower (env.lower email)
          match verdict env email password user with
          | .rejected email =>
              { s with guesses := Function.update s.guesses key (s.guesses key + 1) }.goto call
                (.rejected email)
          | phase => s.goto call phase
      | _ => s
  | .record call =>
      match s.calls[call]? with
      | some (.rejected email) =>
          { s with throttle := s.throttle.recordFailure env.lower s.clock (env.lower email) }.goto
            call .done
      | some (.accepted email) =>
          let key := normalise env.lower (env.lower email)
          { s with
            throttle := s.throttle.recordSuccess env.lower (env.lower email)
            guesses := Function.update s.guesses key 0 }.goto call .done
      | _ => s

/-! ## The steps in a row are the service's `authenticate` -/

/-- A call that nothing interrupts leaves the throttle that
`AuthService.authenticate` leaves. -/
theorem solo_eq_authenticate [FloorRing K] (env : LoginEnv K) (w : LoginWorld K)
    (a : LoginAttempt) (t : InMemoryLoginThrottle K) (ht : w.throttle = .inMemory t)
    (calls : List LoginPhase) (guesses : String → Nat) :
    let s : LoginCalls K := ⟨t, w.throttleNow, calls, guesses⟩
    let n := calls.length
    let s' := Runs.run (step env) s
      [.start a.email a.password, .check n, .lookup n (w.account env a), .verify n, .record n]
    (run (AuthService.authenticate env a) w).2.throttle = .inMemory s'.throttle := by
  rw [AuthService.authenticate_spec]
  simp only [Runs.run_cons, Runs.run_nil, LoginWorld.throttleAfter]
  rcases hq : t.isLocked env.lower w.throttleNow (env.lower a.email) with ⟨locked, t'⟩
  have hchecked : w.checked env a = (.ok locked, .inMemory t') := by
    rw [LoginWorld.checked, ht]
    simp only [run, LoginThrottle.isLocked, hq]
  cases locked with
  | true =>
      have hdecision : w.decision env a = .locked := by
        simp [LoginWorld.decision, LoginWorld.locked, hchecked]
      simp [hdecision, LoginWorld.retried, hchecked, step, goto, hq, run, LoginThrottle.retryAfter]
  | false =>
      have hlocked : w.locked env a = false := by rw [LoginWorld.locked, hchecked]
      simp only [LoginWorld.decision, hlocked, hchecked, Bool.false_eq_true, if_false]
      cases haccount : w.account env a with
      | none =>
          simp [step, goto, hq, verdict, run, LoginThrottle.recordFailure]
      | some user =>
          cases hverify : env.verify user.passwordHash a.password with
          | false => simp [step, goto, hq, verdict, hverify, run, LoginThrottle.recordFailure]
          | true =>
              cases hactive : user.isActive with
              | false => simp [step, goto, hq, verdict, hverify, hactive]
              | true =>
                  simp [step, goto, hq, verdict, hverify, hactive, run, LoginThrottle.recordSuccess]

/-! ## The condition -/

def failures (s : LoginCalls K) (key : String) : Nat := (s.throttle.entry key).failures

def pending (lower : String → String) (s : LoginCalls K) (key : String) : Nat :=
  s.calls.countP (LoginPhase.pending lower key)

def failing (lower : String → String) (s : LoginCalls K) (key : String) : Nat :=
  s.calls.countP (LoginPhase.failing lower key)

/-- The condition on a step: a check that lets a call through finds fewer
failures recorded (what it forgives aside) and calls pending, counted
together, than are allowed. -/
def Admits (env : LoginEnv K) (s : LoginCalls K) : LoginCallEvent K → Prop
  | .check call =>
      match s.calls[call]? with
      | some (.started email _) =>
          let key := normalise env.lower (env.lower email)
          let (locked, throttle) := s.throttle.isLocked env.lower s.clock (env.lower email)
          locked = false →
            ((throttle.entry key).failures + s.pending env.lower key : Int) < s.throttle.maxAttempts
      | _ => True
  | _ => True

instance (env : LoginEnv K) (s : LoginCalls K) (e : LoginCallEvent K) :
    Decidable (Admits env s e) := by
  unfold Admits
  split
  · split <;> infer_instance
  · infer_instance

/-- **The lockout bounds guesses.** Since an identity was last forgiven, at
most `max_attempts` verifications have failed for it. -/
def GuessesBounded (s : LoginCalls K) : Prop :=
  ∀ key, s.guesses key ≤ s.throttle.maxAttempts.toNat

/-! ## The invariant -/

structure Inv (env : LoginEnv K) (s : LoginCalls K) : Prop where
  /-- The calls that may yet fail have their seats. -/
  seats : ∀ key, s.failures key + s.pending env.lower key ≤ s.throttle.maxAttempts.toNat
  /-- A guess is recorded, or about to be. -/
  recorded : ∀ key, s.guesses key ≤ s.failures key + s.failing env.lower key

variable {env : LoginEnv K} {s : LoginCalls K}

omit [LinearOrder K] in
theorem failing_le_pending (lower : String → String) (s : LoginCalls K) (key : String) :
    s.failing lower key ≤ s.pending lower key :=
  List.countP_mono_left fun phase _ h => by
    cases phase <;> simp_all [LoginPhase.failing, LoginPhase.pending]

omit [LinearOrder K] in
theorem Inv.bounded (h : Inv env s) : s.GuessesBounded := fun key => by
  have hseats := h.seats key
  have hrecorded := h.recorded key
  have := failing_le_pending env.lower s key
  omega

omit [LinearOrder K] in
/-- A call that moves on, all else unchanged. -/
theorem Inv.goto (h : Inv env s) {call : Nat} {old new : LoginPhase}
    (hc : s.calls[call]? = some old)
    (hpending : ∀ key, new.pending env.lower key = true → old.pending env.lower key = true)
    (hfailing : ∀ key, new.failing env.lower key = old.failing env.lower key) :
    Inv env (s.goto call new) := by
  refine ⟨fun key => ?_, fun key => ?_⟩
  · have hle : (s.goto call new).pending env.lower key ≤ s.pending env.lower key :=
      InFlight.countP_set_le hc (hpending key)
    exact (Nat.add_le_add_left hle _).trans (h.seats key)
  · have heq : (s.goto call new).failing env.lower key = s.failing env.lower key :=
      InFlight.countP_set_eq hc (hfailing key)
    rw [heq]
    exact h.recorded key

theorem inv_check (h : Inv env s) {call : Nat} {email password : String}
    (hc : s.calls[call]? = some (.started email password)) (hadmits : Admits env s (.check call)) :
    Inv env (step env s (.check call)) := by
  simp only [Admits, hc] at hadmits
  have hentry := fun key' => s.throttle.entry_isLocked env.lower s.clock (env.lower email) key'
  have hmax := s.throttle.maxAttempts_isLocked env.lower s.clock (env.lower email)
  simp only [step, hc]
  generalize hkey : normalise env.lower (env.lower email) = key at *
  rcases hq : s.throttle.isLocked env.lower s.clock (env.lower email) with ⟨locked, throttle⟩
  rw [hq] at hmax hadmits
  replace hmax : throttle.maxAttempts = s.throttle.maxAttempts := hmax
  simp only [hq] at hentry
  -- the throttle counts as before, or has forgiven the identity
  have hforgiven : s.elapsed key = true → (throttle.entry key).failures = 0 := by
    intro helapsed
    simp only [elapsed, Bool.and_eq_true, decide_eq_true_eq] at helapsed
    rw [hentry, if_pos ⟨rfl, helapsed⟩]
  have hkept : ∀ key', ¬ (key' = key ∧ s.elapsed key = true) →
      (throttle.entry key').failures = s.failures key' := by
    intro key' hnot
    rw [hentry, if_neg]
    · rfl
    · rintro ⟨rfl, helapsed⟩
      exact hnot ⟨rfl, by simpa [elapsed] using helapsed⟩
  have hle : ∀ key', (throttle.entry key').failures ≤ s.failures key' := by
    intro key'
    by_cases hcase : key' = key ∧ s.elapsed key = true
    · rw [hcase.1, hforgiven hcase.2]
      exact Nat.zero_le _
    · exact (hkept key' hcase).le
  have hguesses : ∀ key', (if s.elapsed key then Function.update s.guesses key 0 else s.guesses) key' ≤
      (throttle.entry key').failures + s.failing env.lower key' := by
    intro key'
    by_cases hcase : key' = key ∧ s.elapsed key = true
    · obtain ⟨rfl, helapsed⟩ := hcase
      simp [helapsed]
    · have hsame : (if s.elapsed key then Function.update s.guesses key 0 else s.guesses) key' =
          s.guesses key' := by
        split
        · next helapsed =>
            rw [Function.update_of_ne fun heq => hcase ⟨heq, helapsed⟩]
        · rfl
      rw [hsame, hkept key' hcase]
      exact h.recorded key'
  cases locked with
  | true =>
      refine Inv.goto (s := { s with
        throttle
        guesses := if s.elapsed key then Function.update s.guesses key 0 else s.guesses })
        ⟨fun key' => ?_, hguesses⟩ hc (by simp [LoginPhase.pending]) (by simp [LoginPhase.failing])
      have hseats := h.seats key'
      have := hle key'
      simp only [failures, pending, hmax] at hseats this ⊢
      omega
  | false =>
      have hseat : ((throttle.entry key).failures + s.pending env.lower key : Int) <
          s.throttle.maxAttempts := hadmits rfl
      refine ⟨fun key' => ?_, fun key' => ?_⟩
      · simp only [LoginCalls.goto, failures, pending, hmax, Bool.false_eq_true, if_false]
        by_cases hkey' : key' = key
        · subst hkey'
          rw [InFlight.countP_set_enter hc rfl (by simp [LoginPhase.pending, hkey])]
          simp only [pending] at hseat
          omega
        · rw [InFlight.countP_set_eq hc (by simp [LoginPhase.pending, hkey, Ne.symm hkey'])]
          exact (Nat.add_le_add_right (hle key') _).trans (h.seats key')
      · simp only [LoginCalls.goto, failures, failing, Bool.false_eq_true, if_false]
        rw [InFlight.countP_set_eq hc (by simp [LoginPhase.failing])]
        exact hguesses key'

omit [Ring K] [LinearOrder K] in
/-- The outcome of a verification: a guess, or a phase in which the call
is not pending any more. -/
theorem verdict_cases (env : LoginEnv K) (email password : String) (user : Option User) :
    verdict env email password user = .rejected email ∨
      verdict env email password user = .accepted email ∨
        verdict env email password user = .done := by
  cases user with
  | none => exact Or.inl rfl
  | some user =>
      simp only [verdict]
      split
      · exact Or.inl rfl
      · split
        · exact Or.inr (Or.inr rfl)
        · exact Or.inr (Or.inl rfl)

omit [LinearOrder K] in
/-- A guess is counted among the failing calls. -/
theorem inv_guess (h : Inv env s) {call : Nat} {email password : String} {user : Option User}
    (hc : s.calls[call]? = some (.found email password user)) :
    let key := normalise env.lower (env.lower email)
    Inv env ({ s with guesses := Function.update s.guesses key (s.guesses key + 1) }.goto call
      (.rejected email)) := by
  intro key
  refine ⟨fun key' => ?_, fun key' => ?_⟩
  · simp only [goto, failures, pending]
    rw [InFlight.countP_set_eq hc (by simp [LoginPhase.pending])]
    exact h.seats key'
  · have hrecorded := h.recorded key'
    simp only [goto, failures, failing] at hrecorded ⊢
    by_cases hkey' : key' = key
    · subst hkey'
      rw [InFlight.countP_set_enter hc rfl (by simp [LoginPhase.failing, key]), Function.update_self]
      omega
    · rw [InFlight.countP_set_eq hc (by simp [LoginPhase.failing, key, Ne.symm hkey']),
        Function.update_of_ne hkey']
      exact hrecorded

omit [LinearOrder K] in
/-- A failing call turns into a recorded failure. -/
theorem inv_recordFailure (h : Inv env s) {call : Nat} {email : String}
    (hc : s.calls[call]? = some (.rejected email)) :
    Inv env ({ s with
      throttle := s.throttle.recordFailure env.lower s.clock (env.lower email) }.goto call .done) := by
  generalize hkey : normalise env.lower (env.lower email) = key
  have hentry : ∀ key', ((s.throttle.recordFailure env.lower s.clock (env.lower email)).entry
      key').failures = if key' = key then s.failures key' + 1 else s.failures key' := by
    intro key'
    rw [InMemoryLoginThrottle.entry_recordFailure, hkey]
    split <;> rfl
  refine ⟨fun key' => ?_, fun key' => ?_⟩
  · have hseats := h.seats key'
    simp only [goto, failures, pending, hentry] at hseats ⊢
    by_cases hkey' : key' = key
    · subst hkey'
      have hleave : (s.calls.set call .done).countP (LoginPhase.pending env.lower key') + 1 =
          s.calls.countP (LoginPhase.pending env.lower key') :=
        InFlight.countP_set_leave hc (by simp [LoginPhase.pending, hkey]) (by simp [LoginPhase.pending])
      rw [if_pos rfl]
      simp only [InMemoryLoginThrottle.recordFailure]
      omega
    · rw [if_neg hkey', InFlight.countP_set_eq hc (by simp [LoginPhase.pending, hkey, Ne.symm hkey'])]
      exact hseats
  · have hrecorded := h.recorded key'
    simp only [goto, failures, failing, hentry] at hrecorded ⊢
    by_cases hkey' : key' = key
    · subst hkey'
      have hleave : (s.calls.set call .done).countP (LoginPhase.failing env.lower key') + 1 =
          s.calls.countP (LoginPhase.failing env.lower key') :=
        InFlight.countP_set_leave hc (by simp [LoginPhase.failing, hkey]) (by simp [LoginPhase.failing])
      rw [if_pos rfl]
      omega
    · rw [if_neg hkey', InFlight.countP_set_eq hc (by simp [LoginPhase.failing, hkey, Ne.symm hkey'])]
      exact hrecorded

omit [LinearOrder K] in
theorem inv_recordSuccess (h : Inv env s) {call : Nat} {email : String}
    (hc : s.calls[call]? = some (.accepted email)) :
    Inv env ({ s with
      throttle := s.throttle.recordSuccess env.lower (env.lower email)
      guesses := Function.update s.guesses (normalise env.lower (env.lower email)) 0 }.goto
        call .done) := by
  generalize hkey : normalise env.lower (env.lower email) = key
  have hentry : ∀ key', ((s.throttle.recordSuccess env.lower (env.lower email)).entry
      key').failures = if key' = key then 0 else s.failures key' := by
    intro key'
    rw [InMemoryLoginThrottle.entry_recordSuccess, hkey]
    split <;> rfl
  refine Inv.goto (s := { s with
    throttle := s.throttle.recordSuccess env.lower (env.lower email)
    guesses := Function.update s.guesses key 0 }) ⟨fun key' => ?_, fun key' => ?_⟩ hc
      (by simp [LoginPhase.pending]) (by simp [LoginPhase.failing])
  · have hseats := h.seats key'
    simp only [failures, pending, hentry] at hseats ⊢
    split
    · exact (Nat.add_le_add_right (Nat.zero_le _) _).trans hseats
    · exact hseats
  · have hrecorded := h.recorded key'
    simp only [failures, failing, hentry] at hrecorded ⊢
    by_cases hkey' : key' = key
    · subst hkey'
      simp
    · rw [if_neg hkey', Function.update_of_ne hkey']
      exact hrecorded

theorem inv_step (h : Inv env s) {e : LoginCallEvent K} (hadmits : Admits env s e) :
    Inv env (step env s e) := by
  cases e with
  | advance t => exact ⟨h.seats, h.recorded⟩
  | start email password =>
      refine ⟨fun key => ?_, fun key => ?_⟩
      · simpa [step, pending, failures, LoginPhase.pending] using h.seats key
      · simpa [step, failing, failures, LoginPhase.failing] using h.recorded key
  | check call =>
      simp only [step]
      split
      · next email password hc =>
          have := inv_check h hc hadmits
          simpa only [step, hc] using this
      · exact h
  | lookup call user =>
      simp only [step]
      split
      · next email password hc =>
          exact h.goto hc (by simp [LoginPhase.pending]) (by simp [LoginPhase.failing])
      · exact h
  | verify call =>
      simp only [step]
      split
      · next email password user hc =>
          rcases verdict_cases env email password user with hv | hv | hv <;> simp only [hv]
          · exact inv_guess h hc
          · exact h.goto hc (by simp [LoginPhase.pending]) (by simp [LoginPhase.failing])
          · exact h.goto hc (by simp [LoginPhase.pending]) (by simp [LoginPhase.failing])
      · exact h
  | record call =>
      simp only [step]
      split
      · next email hc => exact inv_recordFailure h hc
      · next email hc => exact inv_recordSuccess h hc
      · exact h

/-- A deployment that has just been started. -/
def initial (maxAttempts lockoutSeconds : Int) (clock : K) : LoginCalls K where
  throttle := { maxAttempts, lockoutSeconds }
  clock

theorem inv_run (env : LoginEnv K) (maxAttempts lockoutSeconds : Int) (clock : K)
    {es : List (LoginCallEvent K)}
    (h : Runs.Meets (step env) (Admits env) (initial maxAttempts lockoutSeconds clock) es) :
    Inv env (Runs.run (step env) (initial maxAttempts lockoutSeconds clock) es) := by
  have hinit : Inv env (initial maxAttempts lockoutSeconds clock) :=
    ⟨fun _ => Nat.zero_le _, fun _ => Nat.zero_le _⟩
  have hstep : ∀ (s : LoginCalls K) (e : LoginCallEvent K), Inv env s → Admits env s e →
      Inv env (step env s e) := fun _ _ hinv hadmits => inv_step hinv hadmits
  exact Runs.run_invariant hstep hinit h

/-- **The lockout bounds password guesses, if no check admits too many.**
In every interleaving in which each check that lets a call through finds
fewer failures and pending calls than are allowed, at most `max_attempts`
verifications fail for an identity between two points where it is
forgiven. -/
theorem guessesBounded_run (env : LoginEnv K) (maxAttempts lockoutSeconds : Int) (clock : K)
    {es : List (LoginCallEvent K)}
    (h : Runs.Meets (step env) (Admits env) (initial maxAttempts lockoutSeconds clock) es) :
    (Runs.run (step env) (initial maxAttempts lockoutSeconds clock) es).GuessesBounded :=
  (inv_run env maxAttempts lockoutSeconds clock h).bounded

/-- Three guesses, one after the other: the third finds the lock. -/
def inTurn : List (LoginCallEvent ℤ) :=
  [.start "a@b.com" "x", .check 0, .lookup 0 none, .verify 0, .record 0,
    .start "a@b.com" "y", .check 1, .lookup 1 none, .verify 1, .record 1,
    .start "a@b.com" "z", .check 2, .lookup 2 none, .verify 2, .record 2]

theorem guessesBounded_inTurn :
    (Runs.run (step LoginEnv.sample) (initial 2 300 (0 : ℤ)) inTurn).GuessesBounded :=
  guessesBounded_run LoginEnv.sample 2 300 (0 : ℤ) (by decide +kernel)

/-- Three guesses that pass the lock before any of them is counted. -/
def atOnce : List (LoginCallEvent ℤ) :=
  [.start "a@b.com" "x", .start "a@b.com" "y", .start "a@b.com" "z", .check 0, .check 1, .check 2,
    .lookup 0 none, .lookup 1 none, .lookup 2 none, .verify 0, .verify 1, .verify 2]

/-- All three are verified, where two are allowed. -/
theorem atOnce_not_bounded :
    ¬ (Runs.run (step LoginEnv.sample) (initial 2 300 (0 : ℤ)) atOnce).GuessesBounded := by
  intro h
  exact absurd (h "a@b.com") (by decide +kernel)

end LoginCalls

end ThreatIntel
