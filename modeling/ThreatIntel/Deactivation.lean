import ThreatIntel.AuthRole
import ThreatIntel.Login

/-!
# Deactivation is total

There are four ways to use an account: to log in, to redeem a refresh
token, to send an access token, and to send an API key. Each of them
loads the account's row when it is used and refuses if the row is not
active, so what matters is that the flag stays down: nothing but an
activation that takes effect raises it again.
-/

namespace ThreatIntel

open Routine

/-- Everything that can happen to the accounts: the service's other
operations, and logins. -/
inductive AccountEvent (K : Type) where
  | auth (e : AuthEvent K)
  | login (e : LoginEvent K)

namespace LoginWorld

variable {K : Type} [Ring K] [LinearOrder K] [FloorRing K]

def accountStep (env : LoginEnv K) (w : LoginWorld K) : AccountEvent K → LoginWorld K
  | .auth e => { w with auth := w.auth.step env.toAuthEnv e }
  | .login e => w.step env e

/-- The account is there and is not active. -/
def Inactive (userId : String) (w : LoginWorld K) : Prop :=
  ∃ user, w.auth.db.users.get? userId = some user ∧ user.isActive = false

/-- The condition on a step: it does not activate the account. -/
def NotActivated (userId : String) (w : LoginWorld K) : AccountEvent K → Prop
  | .auth (.setUserActive actorId id true) =>
      id = userId → w.auth.db.activeChangeTakes actorId id true = false
  | _ => True

instance (userId : String) (w : LoginWorld K) (e : AccountEvent K) :
    Decidable (NotActivated userId w e) := by
  unfold NotActivated
  split <;> infer_instance

/-- **Every use of the account is refused**: a login with any password, a
refresh token or an access token with any claims, and any API key that is
nobody else's. -/
structure Refused (env : LoginEnv K) (userId : String) (w : LoginWorld K) : Prop where
  login : ∀ a user, w.account env a = some user → user.id = userId →
    ∃ e, (run (AuthService.authenticate env a) w).1 = .error e
  refresh : ∀ p jtis, p.sub = userId →
    ∃ e, (run (AuthService.refresh env.toAuthEnv (.signed p) jtis) w.auth).1 = .error e
  bearer : ∀ p xApiKey, p.sub = userId →
    ∃ e, (run (getCurrentPrincipal env.toAuthEnv (some (.signed p)) xApiKey) w.auth).1 = .error e
  apiKey : ∀ raw,
    (∀ k ∈ w.auth.db.apiKeys.rows, k.keyHash = hashApiKey env.toAuthEnv raw → k.userId = userId) →
    ∃ e, (run (getCurrentPrincipal env.toAuthEnv none (some raw)) w.auth).1 = .error e

/-! ## The flag stays down -/

variable {env : LoginEnv K} {userId : String} {w : LoginWorld K}

/-- A change of a row that keeps the flag. -/
theorem inactive_modify {users : Table User User.id} {user : User}
    (huser : users.get? userId = some user) (hflag : user.isActive = false) (id : String)
    (f : User → User) (hf : ∀ u, (f u).id = u.id)
    (hkeep : ∀ u, id = userId → u.isActive = false → (f u).isActive = false) :
    ∃ user', (users.modify id f hf).get? userId = some user' ∧ user'.isActive = false := by
  by_cases hid : userId = id
  · subst hid
    rw [Table.get?_modify_self, huser]
    exact ⟨_, rfl, hkeep user rfl hflag⟩
  · rw [Table.get?_modify_ne _ _ _ hid]
    exact ⟨user, huser, hflag⟩

theorem inactive_auth {e : AuthEvent K} (h : Inactive userId w)
    (hsafe : NotActivated userId w (.auth e)) : Inactive userId (accountStep env w (.auth e)) := by
  obtain ⟨user, huser, hflag⟩ := h
  by_cases hrole : ∃ a u r, e = .setUserRole a u r
  · obtain ⟨actorId, id, role, rfl⟩ := hrole
    rcases AuthWorld.db_setUserRole actorId id role w.auth with ⟨-, logs, hdb⟩ | ⟨-, hdb⟩
    · simp only [Inactive, accountStep, AuthWorld.step, hdb]
      exact inactive_modify huser hflag id _ _ fun _ _ h => h
    · simp only [Inactive, accountStep, AuthWorld.step, hdb]
      exact ⟨user, huser, hflag⟩
  · by_cases hactive : ∃ a u b, e = .setUserActive a u b
    · obtain ⟨actorId, id, isActive, rfl⟩ := hactive
      rcases AuthWorld.db_setUserActive actorId id isActive w.auth with
        ⟨htakes, logs, hdb⟩ | ⟨-, hdb⟩
      · simp only [Inactive, accountStep, AuthWorld.step, hdb]
        refine inactive_modify huser hflag id _ _ fun u hid _ => ?_
        cases isActive with
        | false => rfl
        | true =>
            rw [hsafe hid] at htakes
            cases htakes
      · simp only [Inactive, accountStep, AuthWorld.step, hdb]
        exact ⟨user, huser, hflag⟩
    · have hchange : DbChange env.toAuthEnv w.auth.db (w.auth.step env.toAuthEnv e).db :=
        AuthWorld.dbChange_step _ _ _ (fun a u r heq => hrole ⟨a, u, r, heq⟩)
          (fun a u b heq => hactive ⟨a, u, b, heq⟩)
      simp only [Inactive, accountStep]
      generalize (w.auth.step env.toAuthEnv e).db = db at hchange
      cases hchange with
      | log logs => exact ⟨user, huser, hflag⟩
      | newUser new logs hid =>
          refine ⟨user, ?_, hflag⟩
          have hne : userId ≠ new.id := by
            rintro rfl
            rw [Table.hasKey_of_get? huser] at hid
            cases hid
          rw [Table.get?_insert hid, if_neg (Ne.symm hne)]
          exact huser
      | newKey k owner raw logs hid hhash howner hrole hraw hkey => exact ⟨user, huser, hflag⟩
      | touchKey id f hf logs huser' hrole hhash hactive => exact ⟨user, huser, hflag⟩

theorem inactive_login {e : LoginEvent K} (h : Inactive userId w) :
    Inactive userId (accountStep env w (.login e)) := by
  obtain ⟨user, huser, hflag⟩ := h
  cases e with
  | advance t => exact ⟨user, huser, hflag⟩
  | server redis =>
      simp only [Inactive, accountStep, step]
      cases w.throttle <;> exact ⟨user, huser, hflag⟩
  | login a =>
      simp only [Inactive, accountStep, step_login, committed]
      cases hd : w.decision env a with
      | granted granted =>
          simp only [written, hd, rehashed]
          split
          · exact inactive_modify huser hflag granted.id _ _ fun _ _ h => h
          · exact ⟨user, huser, hflag⟩
      | locked => exact ⟨user, huser, hflag⟩
      | rejected user' => exact ⟨user, huser, hflag⟩
      | disabled user' => exact ⟨user, huser, hflag⟩

theorem inactive_step {e : AccountEvent K} (h : Inactive userId w)
    (hsafe : NotActivated userId w e) : Inactive userId (accountStep env w e) := by
  cases e with
  | auth e => exact inactive_auth h hsafe
  | login e => exact inactive_login h

/-! ## Nothing gets past it -/

theorem refused_login (h : Inactive userId w) (a : LoginAttempt) {user : User}
    (haccount : w.account env a = some user) (hid : user.id = userId) :
    ∃ e, (run (AuthService.authenticate env a) w).1 = .error e := by
  obtain ⟨user', huser', hflag⟩ := h
  have hget : w.auth.db.users.get? userId = some user :=
    (Table.get?_eq_some_iff _ _ _).mpr ⟨List.mem_of_find?_eq_some haccount, hid⟩
  obtain rfl : user = user' := Option.some.inj (hget.symm.trans huser')
  rw [AuthService.authenticate_spec, outcome]
  cases hd : w.decision env a with
  | locked => exact ⟨_, rfl⟩
  | rejected user' => exact ⟨_, rfl⟩
  | disabled user' => exact ⟨_, rfl⟩
  | granted user' =>
      simp only [decision, haccount, hflag] at hd
      split at hd
      · cases hd
      · split at hd <;> cases hd

theorem error_of_not_ok {α ω : Type} {r : Except Exn α × ω} (h : ∀ a w', r ≠ (.ok a, w')) :
    ∃ e, r.1 = .error e := by
  obtain ⟨e | a, w'⟩ := r
  · exact ⟨e, rfl⟩
  · exact absurd rfl (h a w')

omit [LinearOrder K] [FloorRing K] in
/-- No active row has the account's id. -/
theorem Inactive.not_active (h : Inactive userId w) {user : User}
    (huser : w.auth.db.users.get? userId = some user) : user.isActive ≠ true := by
  obtain ⟨user', huser', hflag⟩ := h
  rw [Option.some.inj (huser.symm.trans huser'), hflag]
  exact Bool.false_ne_true

omit [FloorRing K] in
theorem subject_of_decode {p : Payload} {now : K} {type : Option TokenType}
    {claims : TokenClaims K} (h : TokenService.decode now type (.signed p) = .ok claims) :
    claims.subject = p.sub := by
  obtain ⟨p', heq, -, -, -, -, rfl⟩ := TokenService.decode_eq_ok.mp h
  rw [Token.signed.inj heq]
  rfl

theorem Inactive.refused (h : Inactive userId w) : Refused env userId w where
  login a user haccount hid := refused_login h a haccount hid
  refresh p jtis hsub := by
    refine error_of_not_ok fun pair w' hrun => ?_
    obtain ⟨claims, user, hdec, huser, hactive⟩ := redeemed_refresh hrun
    rw [subject_of_decode hdec, hsub] at huser
    exact h.not_active huser hactive
  bearer p xApiKey hsub := by
    refine error_of_not_ok fun principal w' hrun => ?_
    obtain ⟨claims, user, hdec, huser, hactive, -⟩ := accepted_bearer hrun
    rw [subject_of_decode hdec, hsub] at huser
    exact h.not_active huser hactive
  apiKey raw howner := by
    refine error_of_not_ok fun principal w' hrun => ?_
    obtain ⟨raw', hraw, k, hk, hhash, -, user, huser, hactive, -⟩ := accepted_key hrun
    obtain rfl := Option.some.inj hraw
    rw [howner k hk hhash] at huser
    exact h.not_active huser hactive

/-- **Deactivation is total.** Once a deactivation has taken effect, and
until an activation does, every use of the account is refused. -/
theorem deactivation_total (env : LoginEnv K) {w : LoginWorld K} {actorId userId : String}
    (htakes : w.auth.db.activeChangeTakes actorId userId false = true)
    {es : List (AccountEvent K)}
    (hes : Runs.Meets (accountStep env) (NotActivated userId)
      (accountStep env w (.auth (.setUserActive actorId userId false))) es) :
    Refused env userId (Runs.run (accountStep env)
      (accountStep env w (.auth (.setUserActive actorId userId false))) es) := by
  have hstart : Inactive userId (accountStep env w (.auth (.setUserActive actorId userId false))) := by
    rcases AuthWorld.db_setUserActive actorId userId false w.auth with ⟨-, logs, hdb⟩ | ⟨hnot, -⟩
    · simp only [Inactive, accountStep, AuthWorld.step, hdb]
      cases huser : w.auth.db.users.get? userId with
      | none => simp [AuthDb.activeChangeTakes, huser] at htakes
      | some user =>
          rw [Table.get?_modify_self, huser]
          exact ⟨_, rfl, rfl⟩
    · rw [htakes] at hnot
      cases hnot
  have hinv : Inactive userId (Runs.run (accountStep env)
      (accountStep env w (.auth (.setUserActive actorId userId false))) es) :=
    Runs.run_invariant (fun _ _ hinactive hsafe => inactive_step hinactive hsafe) hstart hes
  exact hinv.refused

/-! ## A disabled analyst -/

/-- An analyst and an administrator. -/
def staff : Table User User.id := sampleUsers

/-- The analyst logs in in vain, gets another role, and creates a key. -/
def afterwards : List (AccountEvent ℤ) :=
  [.login (.login { email := "alice@example.com", password := "a" }),
    .auth (.setUserRole "u2" "u1" .viewer), .auth (.createApiKey "u1" "ci" "k1" "s")]

theorem deactivation_total_analyst :
    Refused LoginEnv.sample "u1" (Runs.run (accountStep LoginEnv.sample)
      (accountStep LoginEnv.sample (.sample staff 5) (.auth (.setUserActive "u2" "u1" false)))
      afterwards) :=
  deactivation_total LoginEnv.sample (by decide +kernel) (by decide +kernel)

end LoginWorld

end ThreatIntel
