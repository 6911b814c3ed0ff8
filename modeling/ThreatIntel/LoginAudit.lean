import ThreatIntel.Login

/-!
# The audit trail of logins

`authenticate` writes an `auth.login_failed` row and then raises, and the
unit of work around it rolls back what a request that raises has written.
So the rows of granted logins are committed, one for each, and those of
rejected guesses never are. The trail is complete exactly if no request
was rejected for an unknown email or a wrong password.
-/

namespace ThreatIntel

namespace LoginWorld

variable {K : Type} [Ring K] [LinearOrder K] [FloorRing K]

/-- The logins of a run, each with what was decided about it. -/
def decisions (env : LoginEnv K) : LoginWorld K → List (LoginEvent K) →
    List (LoginAttempt × LoginDecision)
  | _, [] => []
  | w, .login a :: es => (a, w.decision env a) :: decisions env (step env w (.login a)) es
  | w, e :: es => decisions env (step env w e) es

/-- The rows the decisions of a run ask for under an action. -/
def expectedRows (action : String) (ds : List (LoginAttempt × LoginDecision)) : List AuditLog :=
  (ds.filterMap fun d => d.2.row? d.1.ip).filter fun row => row.action = action

def rowsOf (action : String) (logs : List AuditLog) : List AuditLog :=
  logs.filter fun row => row.action = action

/-- **A complete trail.** Of each action, the run has committed one row
for each decision that asks for one. -/
def Audited (env : LoginEnv K) (w : LoginWorld K) (es : List (LoginEvent K)) : Prop :=
  ∀ action ∈ ["auth.login", "auth.login_failed"],
    rowsOf action (Runs.run (step env) w es).auth.db.auditLogs =
      rowsOf action w.auth.db.auditLogs ++ expectedRows action (decisions env w es)

/-- The condition on a step: a request that gets past the lock is for an
account, and presents its password. -/
def KnowsPassword (env : LoginEnv K) (w : LoginWorld K) : LoginEvent K → Prop
  | .login a =>
      w.locked env a = true ∨
        ∃ user ∈ w.account env a, env.verify user.passwordHash a.password = true
  | _ => True

variable {env : LoginEnv K} {w : LoginWorld K}

omit [FloorRing K] in
theorem knowsPassword_iff (a : LoginAttempt) :
    KnowsPassword env w (.login a) ↔ ∀ user, w.decision env a ≠ .rejected user := by
  simp only [KnowsPassword, decision]
  cases w.locked env a with
  | true => simp
  | false =>
      cases w.account env a with
      | none => simp
      | some user =>
          cases hverify : env.verify user.passwordHash a.password with
          | false => simp [hverify]
          | true => cases hactive : user.isActive <;> simp [hverify, hactive]

/-! ## What a run commits -/

/-- The audit log grows by the rows of the granted logins. -/
theorem auditLogs_run (w : LoginWorld K) (es : List (LoginEvent K)) :
    (Runs.run (step env) w es).auth.db.auditLogs =
      w.auth.db.auditLogs ++ expectedRows "auth.login" (decisions env w es) := by
  induction es generalizing w with
  | nil => simp [decisions, expectedRows]
  | cons e es ih =>
      rw [Runs.run_cons, ih]
      cases e with
      | advance t => rfl
      | server redis =>
          simp only [decisions, step]
          cases w.throttle <;> rfl
      | login a =>
          rw [step_login]
          cases hd : w.decision env a with
          | granted user =>
              simp [decisions, expectedRows, step_login, committed, written, hd, LoginDecision.row?]
          | locked => simp [decisions, expectedRows, step_login, committed, hd, LoginDecision.row?]
          | rejected user =>
              simp [decisions, expectedRows, step_login, committed, hd, LoginDecision.row?]
          | disabled user =>
              simp [decisions, expectedRows, step_login, committed, hd, LoginDecision.row?]

/-- Nobody was rejected exactly if every request knew the password. -/
theorem expectedRows_failed_eq_nil_iff (w : LoginWorld K) (es : List (LoginEvent K)) :
    expectedRows "auth.login_failed" (decisions env w es) = [] ↔
      Runs.Meets (step env) (KnowsPassword env) w es := by
  induction es generalizing w with
  | nil => simp [decisions, expectedRows, Runs.Meets]
  | cons e es ih =>
      cases e with
      | advance t => simpa [decisions, Runs.Meets, KnowsPassword] using ih _
      | server redis => simpa [decisions, Runs.Meets, KnowsPassword] using ih _
      | login a =>
          rw [Runs.Meets, knowsPassword_iff, ← ih]
          cases hd : w.decision env a with
          | granted user => simp [decisions, expectedRows, hd, LoginDecision.row?]
          | locked => simp [decisions, expectedRows, hd, LoginDecision.row?]
          | rejected user => simp [decisions, expectedRows, hd, LoginDecision.row?]
          | disabled user => simp [decisions, expectedRows, hd, LoginDecision.row?]

/-- The trail of a run is complete exactly if no request in it was
rejected. -/
theorem audited_iff (w : LoginWorld K) (es : List (LoginEvent K)) :
    Audited env w es ↔ Runs.Meets (step env) (KnowsPassword env) w es := by
  have hlogin : rowsOf "auth.login" (expectedRows "auth.login" (decisions env w es)) =
      expectedRows "auth.login" (decisions env w es) := by
    simp [rowsOf, expectedRows, List.filter_filter]
  have hfailed : rowsOf "auth.login_failed" (expectedRows "auth.login" (decisions env w es)) = [] := by
    rw [rowsOf, expectedRows, List.filter_filter, List.filter_eq_nil_iff]
    intro row _ h
    simp only [Bool.and_eq_true, decide_eq_true_eq] at h
    rw [h.1] at h
    exact absurd h.2 (by decide)
  have hgrow : ∀ action, rowsOf action (Runs.run (step env) w es).auth.db.auditLogs =
      rowsOf action w.auth.db.auditLogs ++
        rowsOf action (expectedRows "auth.login" (decisions env w es)) := by
    intro action
    rw [auditLogs_run]
    exact List.filter_append _ _
  rw [← expectedRows_failed_eq_nil_iff]
  constructor
  · intro h
    have hrows := h "auth.login_failed" (by simp)
    rw [hgrow, hfailed] at hrows
    exact (List.append_cancel_left hrows).symm
  · intro h action haction
    rw [hgrow]
    rcases List.mem_pair.mp haction with rfl | rfl
    · rw [hlogin]
    · rw [hfailed, h]

/-! ## A guess -/

/-- One request for an email that nobody has. -/
theorem guess_notAudited :
    ¬ Audited LoginEnv.sample (.sample .empty 5)
      [.login { email := "mallory@example.com", password := "guess" }] := by
  intro h
  exact absurd (h "auth.login_failed" (by simp)) (by decide +kernel)

end LoginWorld

end ThreatIntel
