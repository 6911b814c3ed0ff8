import Mathlib.Data.Rat.Floor
import ThreatIntel.AuthSpec

/-!
# Revocation outlives the token

A revoked token should be refused for as long as it would otherwise be
accepted. The revocation store forgets an entry after a whole number of
seconds, `max(1, int(exp - now))`: the remaining lifetime is rounded
down, so the entry lapses up to a second before the token does.

`outlives_iff` says exactly when it does not: the token has at most one
second left, or a whole number of seconds. The statement is about the
service, not the store alone: the token is revoked by a `logout` or a
`refresh`, and any other operations may follow.
-/

namespace ThreatIntel

open Routine

/-! ## Stores that answer alike -/

namespace TokenStore

variable {K : Type} [LinearOrder K]

/-- From `now` on, the two stores report the same identifiers. -/
def Agree (now : K) (st st' : TokenStore K) : Prop :=
  ∀ t j, now ≤ t → (st.Revoked t j ↔ st'.Revoked t j)

theorem Agree.refl (now : K) (st : TokenStore K) : Agree now st st := fun _ _ _ => Iff.rfl

variable [Ring K]

theorem agree_isRevoked (st : TokenStore K) (now : K) (jti : String) :
    Agree now (st.isRevoked now jti).2 st := fun _ j ht => st.revoked_isRevoked jti j ht

theorem Agree.revoke {now : K} {st st' : TokenStore K} (h : Agree now st st') (jti : String)
    (ttl : Int) : Agree now (st.revoke now jti ttl) (st'.revoke now jti ttl) := by
  intro t j ht
  by_cases hj : j = jti
  · subst hj
    rw [revoked_revoke_self, revoked_revoke_self]
  · rw [revoked_revoke_ne _ _ hj ht, revoked_revoke_ne _ _ hj ht]
    exact h t j ht

end TokenStore

section

variable {K : Type}

theorem AuthWorld.tokenStore_unitOfWork {α : Type} (x : AuthRoutine K α) (w : AuthWorld K) :
    (AuthWorld.unitOfWork x w).tokenStore = (run x w).2.tokenStore := by
  rcases hx : run x w with ⟨e | a, w'⟩
  · rw [AuthWorld.unitOfWork, atomically_error hx, AuthWorld.rollback]
  · rw [AuthWorld.unitOfWork, atomically_ok hx]

variable [Ring K] [LinearOrder K] [FloorRing K]

/-! ## What an operation revokes -/

/-- The access token a `logout` revokes. -/
def accessRevoked (w : AuthWorld K) (access : Option Token) : List (TokenClaims K) :=
  match access.map (TokenService.decode w.now (some .access)) with
  | some (.ok acc) => [acc]
  | _ => []

/-- The tokens an operation revokes, in order. A `refresh` that is
refused revokes nothing; a `logout` whose audit row cannot be written
stops before the access token. -/
def revocations (w : AuthWorld K) : AuthEvent K → List (TokenClaims K)
  | .refresh token _ =>
      match TokenService.decode w.now (some .refresh) token with
      | .error _ => []
      | .ok claims =>
          if (w.tokenStore.isRevoked w.storeNow claims.jti).1 then []
          else if (w.db.users.get? claims.subject).any User.isActive then [claims] else []
  | .logout token access =>
      match TokenService.decode w.now (some .refresh) token with
      | .error _ => accessRevoked w access
      | .ok claims =>
          claims :: if w.db.users.hasKey claims.subject then accessRevoked w access else []
  | _ => []

/-- The store after these revocations. -/
def revokeAll (w : AuthWorld K) (cs : List (TokenClaims K)) : TokenStore K :=
  cs.foldl (fun st c => st.revoke w.storeNow c.jti (remainingTtl c.expiresAt w.now)) w.tokenStore

theorem agree_refresh (env : AuthEnv K) (token : Token) (jtis : String × String)
    (w : AuthWorld K) :
    TokenStore.Agree w.storeNow (run (AuthService.refresh env token jtis) w).2.tokenStore
      (revokeAll w (revocations w (.refresh token jtis))) := by
  simp only [AuthService.refresh, AuthService.decode, AuthService.isRevoked, UserRepository.get,
    run_bind_assoc, run_bind_gets, revocations]
  cases TokenService.decode w.now (some .refresh) token with
  | error e => exact .refl _ _
  | ok claims =>
      have hquery := TokenStore.agree_isRevoked w.tokenStore w.storeNow claims.jti
      simp only [run_bind_pure, run_bind_modifyGet, run_bind_raiseIf, run_bind_gets]
      split
      · exact hquery
      · cases hu : w.db.users.get? claims.subject with
        | none => exact hquery
        | some user =>
            by_cases hact : user.isActive = true
            · simp only [Option.filter_some, Option.any_some, hact, if_true]
              exact hquery.revoke claims.jti _
            · simp only [Option.filter_some, Option.any_some, hact]
              exact hquery

theorem agree_endAccess (w w₀ : AuthWorld K) (access : Option Token)
    (hnow : w₀.now = w.now) (hoffset : w₀.storeOffset = w.storeOffset) :
    (run (AuthService.endAccess (access.map (TokenService.decode w.now (some .access)))) w₀).2.tokenStore =
      (accessRevoked w access).foldl
        (fun st c => st.revoke w.storeNow c.jti (remainingTtl c.expiresAt w.now)) w₀.tokenStore := by
  unfold accessRevoked
  rcases access.map (TokenService.decode w.now (some .access)) with _ | _ | acc
  · rfl
  · rfl
  · simp [AuthService.endAccess, AuthService.revoke, AuthWorld.storeNow, hnow, hoffset]

theorem agree_logout (token : Token) (access : Option Token) (w : AuthWorld K) :
    (run (AuthService.logout token access) w).2.tokenStore =
      revokeAll w (revocations w (.logout token access)) := by
  simp only [AuthService.logout, run_bind_gets, revocations]
  cases TokenService.decode w.now (some .refresh) token with
  | error e => exact agree_endAccess w w access rfl rfl
  | ok claims =>
      simp only [AuthService.endSession, AuthService.revoke, AuditRepository.record,
        run_bind_assoc, run_bind_update, run_bind_gets, run_bind_raiseIf, Option.all_some]
      cases w.db.users.hasKey claims.subject with
      | false => rfl
      | true => exact agree_endAccess w _ access rfl rfl

/-- The clocks of `w₀`. -/
def SameClocks (w₀ w : AuthWorld K) : Prop := w.now = w₀.now ∧ w.storeOffset = w₀.storeOffset

/-- Only `advance` moves the clocks. -/
theorem sameClocks_step (env : AuthEnv K) (w : AuthWorld K) (e : AuthEvent K)
    (he : ∀ t, e ≠ .advance t) : SameClocks w (AuthWorld.step env w e) := by
  have hd : IgnoresDb (SameClocks w) := fun _ _ h => h
  have hs : IgnoresStore (SameClocks w) := fun _ _ h => h
  have hw : SameClocks w w := ⟨rfl, rfl⟩
  cases e with
  | advance t => exact absurd rfl (he t)
  | register email password role id salt =>
      exact unitOfWork_keeps hd (AuthService.keeps_register hd _ _ _ _ _ _) hw
  | setUserRole a u r => exact unitOfWork_keeps hd (AuthService.keeps_setUserRole hd _ _ _) hw
  | setUserActive a u b => exact unitOfWork_keeps hd (AuthService.keeps_setUserActive hd _ _ _) hw
  | createApiKey userId name id secret =>
      exact unitOfWork_keeps hd (AuthService.keeps_createApiKey hd _ _ _ _ _) hw
  | revokeApiKey userId keyId =>
      exact unitOfWork_keeps hd (AuthService.keeps_revokeApiKey hd _ _) hw
  | refresh token jtis => exact unitOfWork_keeps hd (AuthService.keeps_refresh hs _ _ _) hw
  | logout token access => exact unitOfWork_keeps hd (AuthService.keeps_logout hs hd.logs _ _) hw
  | request credentials xApiKey =>
      cases credentials with
      | some token => exact unitOfWork_keeps hd (AuthService.keeps_bearer hs _ _ _) hw
      | none => exact unitOfWork_keeps hd (AuthService.keeps_keyed hd _ _) hw

/-- The step lemma: what the store reports from now on is what it held,
with the event's revocations added. -/
theorem agree_step (env : AuthEnv K) (w : AuthWorld K) (e : AuthEvent K) :
    TokenStore.Agree w.storeNow (AuthWorld.step env w e).tokenStore
      (revokeAll w (revocations w e)) := by
  have hd : IgnoresDb fun w' => w'.tokenStore = w.tokenStore := fun _ _ h => h
  have hsame : ∀ {st : TokenStore K}, st = w.tokenStore →
      TokenStore.Agree w.storeNow st w.tokenStore := fun h => h ▸ .refl _ _
  cases e with
  | advance t => exact .refl _ _
  | register email password role id salt =>
      exact hsame (unitOfWork_keeps hd (AuthService.keeps_register hd _ _ _ _ _ _) rfl)
  | setUserRole a u r =>
      exact hsame (unitOfWork_keeps hd (AuthService.keeps_setUserRole hd _ _ _) rfl)
  | setUserActive a u b =>
      exact hsame (unitOfWork_keeps hd (AuthService.keeps_setUserActive hd _ _ _) rfl)
  | createApiKey userId name id secret =>
      exact hsame (unitOfWork_keeps hd (AuthService.keeps_createApiKey hd _ _ _ _ _) rfl)
  | revokeApiKey userId keyId =>
      exact hsame (unitOfWork_keeps hd (AuthService.keeps_revokeApiKey hd _ _) rfl)
  | refresh token jtis =>
      rw [AuthWorld.step, AuthWorld.tokenStore_unitOfWork]
      exact agree_refresh env token jtis w
  | logout token access =>
      rw [AuthWorld.step, AuthWorld.tokenStore_unitOfWork, agree_logout]
      exact .refl _ _
  | request credentials xApiKey =>
      cases credentials with
      | some token =>
          have hagree : IgnoresDb fun w' => SameClocks w w' ∧
              TokenStore.Agree w.storeNow w'.tokenStore w.tokenStore := fun _ _ h => h
          refine (unitOfWork_keeps hagree ?_ ⟨⟨rfl, rfl⟩, .refl _ _⟩).2
          refine (AuthService.keeps_decode token .access).bind fun claims => ?_
          refine Keeps.bind (keeps_modifyGet ?_) fun revoked => ?_
          · rintro w' ⟨hc, h⟩
            have hnow : w'.storeNow = w.storeNow := by simp [AuthWorld.storeNow, hc.1, hc.2]
            refine ⟨hc, fun t j ht => ?_⟩
            rw [← h t j ht, hnow]
            exact TokenStore.agree_isRevoked w'.tokenStore w.storeNow claims.jti t j ht
          · refine (keeps_raiseIf _ _ _).bind fun _ => (keeps_gets _ _).bind fun user => ?_
            split
            · exact keeps_raise _ _
            · exact (keeps_raiseIf _ _ _).bind fun _ => keeps_pure _ _
      | none => exact hsame (unitOfWork_keeps hd (AuthService.keeps_keyed hd _ _) rfl)

/-! ## The entry of one identifier -/

theorem revoked_foldl_of_ne {w : AuthWorld K} {t : K} {jti : String} (ht : w.storeNow ≤ t)
    {cs : List (TokenClaims K)} (h : ∀ c ∈ cs, c.jti ≠ jti) (st : TokenStore K) :
    (cs.foldl (fun st c => st.revoke w.storeNow c.jti (remainingTtl c.expiresAt w.now)) st).Revoked
      t jti ↔ st.Revoked t jti := by
  induction cs generalizing st with
  | nil => rfl
  | cons c cs ih =>
      obtain ⟨hc, hcs⟩ := List.forall_mem_cons.mp h
      rw [List.foldl_cons, ih hcs]
      exact st.revoked_revoke_ne _ hc.symm ht

/-- The last revocation of an identifier decides when its entry lapses. -/
theorem revoked_revokeAll {w : AuthWorld K} {t : K} (ht : w.storeNow ≤ t)
    (pre post : List (TokenClaims K)) (c : TokenClaims K) (hlast : ∀ c' ∈ post, c'.jti ≠ c.jti) :
    (revokeAll w (pre ++ c :: post)).Revoked t c.jti ↔
      t < w.storeNow + (remainingTtl c.expiresAt w.now : Int) := by
  have hone : max (remainingTtl c.expiresAt w.now) 1 = remainingTtl c.expiresAt w.now :=
    max_eq_left (le_max_left _ _)
  rw [revokeAll, List.foldl_append, List.foldl_cons, revoked_foldl_of_ne ht hlast,
    TokenStore.revoked_revoke_self, hone]

/-- No event of the run revokes the identifier. -/
def Unrevoked (jti : String) (w : AuthWorld K) (e : AuthEvent K) : Prop :=
  ∀ c ∈ revocations w e, c.jti ≠ jti

theorem storeOffset_step (env : AuthEnv K) (w : AuthWorld K) (e : AuthEvent K) :
    (AuthWorld.step env w e).storeOffset = w.storeOffset := by
  by_cases he : ∃ t, e = .advance t
  · obtain ⟨t, rfl⟩ := he
    rfl
  · push Not at he
    exact (sameClocks_step env w e he).2

theorem storeOffset_run (env : AuthEnv K) (w : AuthWorld K) (es : List (AuthEvent K)) :
    (Runs.run (AuthWorld.step env) w es).storeOffset = w.storeOffset :=
  Runs.run_preserves (I := fun w' => w'.storeOffset = w.storeOffset)
    (fun w' e h => (storeOffset_step env w' e).trans h) rfl es

/-- The store's answer about a token whose last entry in the list of
what an operation revokes is `c`. -/
theorem revoked_step_iff {env : AuthEnv K} {w : AuthWorld K} {e : AuthEvent K}
    {c : TokenClaims K} {pre post : List (TokenClaims K)}
    (hrev : revocations w e = pre ++ c :: post) (hlast : ∀ c' ∈ post, c'.jti ≠ c.jti) {t : K}
    (ht : w.storeNow ≤ t) :
    (AuthWorld.step env w e).tokenStore.Revoked t c.jti ↔
      t < w.storeNow + (remainingTtl c.expiresAt w.now : Int) := by
  rw [agree_step env w e t c.jti ht, hrev]
  exact revoked_revokeAll ht pre post c hlast

variable [IsStrictOrderedRing K]

theorem storeNow_le_step (env : AuthEnv K) (w : AuthWorld K) (e : AuthEvent K) :
    w.storeNow ≤ (AuthWorld.step env w e).storeNow := by
  by_cases he : ∃ t, e = .advance t
  · obtain ⟨t, rfl⟩ := he
    simp [AuthWorld.step, AuthWorld.storeNow]
  · push Not at he
    obtain ⟨hnow, hoff⟩ := sameClocks_step env w e he
    simp [AuthWorld.storeNow, hnow, hoff]

theorem storeNow_le_run (env : AuthEnv K) (w : AuthWorld K) (es : List (AuthEvent K)) :
    w.storeNow ≤ (Runs.run (AuthWorld.step env) w es).storeNow :=
  Runs.run_preserves (I := fun w' => w.storeNow ≤ w'.storeNow)
    (fun w' e h => h.trans (storeNow_le_step env w' e)) le_rfl es

/-- The run lemma: as long as nobody revokes an identifier again, what
the store reports of it is what it held at the start. -/
theorem revoked_run (env : AuthEnv K) {jti : String} {t : K} :
    ∀ {es : List (AuthEvent K)} {w : AuthWorld K},
      Runs.Meets (AuthWorld.step env) (Unrevoked jti) w es →
      (Runs.run (AuthWorld.step env) w es).storeNow ≤ t →
      ((Runs.run (AuthWorld.step env) w es).tokenStore.Revoked t jti ↔ w.tokenStore.Revoked t jti)
  | [], _, _, _ => Iff.rfl
  | e :: es, w, hmeets, ht => by
      have hle : w.storeNow ≤ t :=
        (storeNow_le_step env w e).trans ((storeNow_le_run env _ es).trans ht)
      rw [Runs.run_cons, revoked_run env hmeets.2 ht, agree_step env w e t jti hle]
      exact revoked_foldl_of_ne hle hmeets.1 _

/-! ## Exactly when the entry outlives the token -/

/-- The token is refused: if it still decodes, the store reports it
revoked. -/
def Rejects (w : AuthWorld K) (p : Payload) : Prop :=
  ∀ expected c, TokenService.decode w.now expected (.signed p) = .ok c →
    (w.tokenStore.isRevoked w.storeNow c.jti).1 = true

/-- What is left of the token is at most a second or a whole number of
seconds. -/
def WholeSeconds (remaining : K) : Prop := remaining ≤ 1 ∨ Int.fract remaining = 0

theorem remainingTtl_of_lt {expiresAt now : K} (h : now < expiresAt) :
    remainingTtl expiresAt now = max 1 ⌊expiresAt - now⌋ := by
  simp [remainingTtl, truncate, (sub_pos.mpr h).le]

theorem le_remainingTtl_of_wholeSeconds {expiresAt now : K} (h : now < expiresAt)
    (hw : WholeSeconds (expiresAt - now)) :
    expiresAt ≤ now + (remainingTtl expiresAt now : Int) := by
  rw [remainingTtl_of_lt h, ← sub_le_iff_le_add', Int.cast_max, Int.cast_one]
  rcases hw with hone | hfract
  · exact hone.trans (le_max_left _ _)
  · have hfloor : ((⌊expiresAt - now⌋ : Int) : K) = expiresAt - now := by
      have := Int.floor_add_fract (expiresAt - now)
      rwa [hfract, add_zero] at this
    rw [hfloor]
    exact le_max_right _ _

/-- Otherwise the entry lapses strictly between now and the expiry. -/
theorem remainingTtl_lt_of_not_wholeSeconds {expiresAt now : K}
    (hw : ¬ WholeSeconds (expiresAt - now)) :
    now < now + (remainingTtl expiresAt now : Int) ∧
      now + (remainingTtl expiresAt now : Int) < expiresAt := by
  simp only [WholeSeconds, not_or, not_le] at hw
  obtain ⟨hone, hfract⟩ := hw
  have hlt : now < expiresAt := sub_pos.mp (zero_lt_one.trans hone)
  have hfloor : (1 : Int) ≤ ⌊expiresAt - now⌋ := Int.le_floor.mpr (by simpa using hone.le)
  rw [remainingTtl_of_lt hlt, max_eq_right hfloor]
  constructor
  · rw [lt_add_iff_pos_right, Int.cast_pos]
    omega
  · have hpos : 0 < Int.fract (expiresAt - now) :=
      lt_of_le_of_ne (Int.fract_nonneg _) (Ne.symm hfract)
    rw [Int.fract, sub_pos] at hpos
    exact lt_sub_iff_add_lt'.mp hpos

section Revocation

/-! An operation revokes a token that decodes: `c` is what it decodes to,
and its last entry in the list of what the operation revokes. -/

variable {env : AuthEnv K} {w : AuthWorld K} {e : AuthEvent K} {p : Payload} {c : TokenClaims K}
  {pre post : List (TokenClaims K)}

theorem rejects_of_wholeSeconds (hdec : TokenService.decode w.now (some p.type) (.signed p) = .ok c)
    (hrev : revocations w e = pre ++ c :: post) (hlast : ∀ c' ∈ post, c'.jti ≠ c.jti)
    (hw : WholeSeconds ((p.exp : K) - w.now)) {es : List (AuthEvent K)}
    (hmeets : Runs.Meets (AuthWorld.step env) (Unrevoked p.jti) (AuthWorld.step env w e) es) :
    Rejects (Runs.run (AuthWorld.step env) (AuthWorld.step env w e) es) p := by
  intro expected c' hc'
  obtain ⟨p', hp', -, -, hexp, -, rfl⟩ := TokenService.decode_eq_ok.mp hdec
  obtain rfl := Token.signed.inj hp'
  obtain ⟨p', hp', -, -, hlt, -, rfl⟩ := TokenService.decode_eq_ok.mp hc'
  obtain rfl := Token.signed.inj hp'
  have hle := (storeNow_le_step env w e).trans (storeNow_le_run env _ es)
  rw [TokenStore.isRevoked_iff]
  refine (revoked_run env hmeets le_rfl).mpr ((revoked_step_iff hrev hlast hle).mpr ?_)
  rw [AuthWorld.storeNow, AuthWorld.storeNow, storeOffset_run, storeOffset_step, add_right_comm]
  exact add_lt_add_left (hlt.trans_le (le_remainingTtl_of_wholeSeconds hexp hw)) _

/-- The moment the entry lapses is a counterexample otherwise. -/
theorem not_rejects_of_not_wholeSeconds (env : AuthEnv K)
    (hdec : TokenService.decode w.now (some p.type) (.signed p) = .ok c)
    (hrev : revocations w e = pre ++ c :: post) (hlast : ∀ c' ∈ post, c'.jti ≠ c.jti)
    (hw : ¬ WholeSeconds ((p.exp : K) - w.now)) :
    ∃ t, w.now < t ∧ (AuthWorld.step env (AuthWorld.step env w e) (.advance t)).now = t ∧
      ¬ Rejects (AuthWorld.step env (AuthWorld.step env w e) (.advance t)) p := by
  obtain ⟨p', hp', hiat, hnbf, hexp, -, rfl⟩ := TokenService.decode_eq_ok.mp hdec
  obtain rfl := Token.signed.inj hp'
  obtain ⟨hlt, hgap⟩ := remainingTtl_lt_of_not_wholeSeconds hw
  set t : K := w.now + (remainingTtl (p.exp : K) w.now : Int) with ht
  have hevent : ∀ t, e ≠ .advance t := by
    rintro t rfl
    simp [revocations] at hrev
  have hnow : (AuthWorld.step env (AuthWorld.step env w e) (.advance t)).now = t :=
    max_eq_right ((sameClocks_step env w e hevent).1.trans_le hlt.le)
  refine ⟨t, hlt, hnow, fun hrejects => ?_⟩
  have hdecodes : TokenService.decode t none (.signed p) = .ok (TokenService.claims p) :=
    TokenService.decode_eq_ok.mpr
      ⟨p, rfl, hiat.trans hlt.le, hnbf.trans hlt.le, hgap, by simp, rfl⟩
  have hyes := (TokenStore.isRevoked_iff _ _ _).mp
    (hrejects none (TokenService.claims p) (by rw [hnow]; exact hdecodes))
  have hstore : (AuthWorld.step env (AuthWorld.step env w e) (.advance t)).storeNow =
      t + w.storeOffset := by
    rw [AuthWorld.storeNow, hnow, storeOffset_step, storeOffset_step]
  have hle : w.storeNow ≤ t + w.storeOffset := add_le_add_left hlt.le _
  rw [hstore] at hyes
  have hbefore := (revoked_step_iff hrev hlast hle).mp hyes
  rw [AuthWorld.storeNow, ht, add_right_comm] at hbefore
  exact absurd hbefore (lt_irrefl _)

end Revocation

/-- **When revocation outlives the token.** An operation revokes a token
that decodes, and nobody revokes it again: then it is refused at every
later time exactly if it had a whole number of seconds left, or at most
one. -/
theorem outlives_iff (env : AuthEnv K) (w : AuthWorld K) (e : AuthEvent K) (p : Payload)
    (c : TokenClaims K) (pre post : List (TokenClaims K))
    (hdec : TokenService.decode w.now (some p.type) (.signed p) = .ok c)
    (hrev : revocations w e = pre ++ c :: post) (hlast : ∀ c' ∈ post, c'.jti ≠ c.jti) :
    (∀ es, Runs.Meets (AuthWorld.step env) (Unrevoked p.jti) (AuthWorld.step env w e) es →
        w.now < (Runs.run (AuthWorld.step env) (AuthWorld.step env w e) es).now →
        Rejects (Runs.run (AuthWorld.step env) (AuthWorld.step env w e) es) p) ↔
      WholeSeconds ((p.exp : K) - w.now) := by
  constructor
  · intro h
    by_contra hw
    obtain ⟨t, hlt, hnow, hnot⟩ := not_rejects_of_not_wholeSeconds env hdec hrev hlast hw
    have hmeets : Runs.Meets (AuthWorld.step env) (Unrevoked p.jti) (AuthWorld.step env w e)
        [.advance t] := ⟨fun c hc => by simp [revocations] at hc, trivial⟩
    exact hnot (h [.advance t] hmeets (hlt.trans_eq hnow.symm))
  · intro hw es hmeets _
    exact rejects_of_wholeSeconds hdec hrev hlast hw hmeets

end

/-! ## A logout with a second and a half left -/

/-- A refresh token that expires at 100. -/
def session : Payload :=
  { sub := "u1", role := "analyst", type := .refresh, jti := "j1", iat := 0, nbf := 0, exp := 100 }

def sessionEnv : AuthEnv ℚ :=
  { allowOpenRegistration := false
    registrationDefaultRole := "viewer"
    tokens := { accessTtl := 1800, refreshTtl := 1209600 }
    lower := String.toLower
    hash := fun salt password => salt ++ password
    sha256 := id }

def sessionWorld (now : ℚ) : AuthWorld ℚ :=
  let alice : User :=
    { id := "u1", email := "alice@example.com", passwordHash := "$argon2id$a", role := "analyst" }
  { db := { users := Table.empty.insert alice, apiKeys := .empty, auditLogs := [] }
    tokenStore := .inMemory ⟨.empty⟩
    now
    storeOffset := 0 }

theorem session_decodes {now : ℚ} (h₀ : 0 ≤ now) (h : now < 100) :
    TokenService.decode now (some .refresh) (.signed session) =
      .ok (TokenService.claims session) := by
  refine TokenService.decode_eq_ok.mpr ⟨session, rfl, ?_, ?_, ?_, by simp [session], rfl⟩
  · simpa [session] using h₀
  · simpa [session] using h₀
  · simpa [session] using h

theorem session_revoked {now : ℚ} (h₀ : 0 ≤ now) (h : now < 100) :
    revocations (sessionWorld now) (.logout (.signed session) none) =
      [] ++ [TokenService.claims session] := by
  have hdec := session_decodes h₀ h
  simp only [revocations, sessionWorld, hdec]
  rfl

/-- Two seconds before the expiry the revocation is in time. -/
theorem session_outlives :
    (∀ es, Runs.Meets (AuthWorld.step sessionEnv) (Unrevoked session.jti)
          (AuthWorld.step sessionEnv (sessionWorld 98) (.logout (.signed session) none)) es →
        98 < (Runs.run (AuthWorld.step sessionEnv)
          (AuthWorld.step sessionEnv (sessionWorld 98) (.logout (.signed session) none)) es).now →
        Rejects (Runs.run (AuthWorld.step sessionEnv)
          (AuthWorld.step sessionEnv (sessionWorld 98) (.logout (.signed session) none)) es)
          session) ↔
      WholeSeconds ((session.exp : ℚ) - 98) :=
  outlives_iff sessionEnv (sessionWorld 98) (.logout (.signed session) none) session
    (TokenService.claims session) [] []
    (session_decodes (by norm_num [sessionWorld]) (by norm_num [sessionWorld]))
    (session_revoked (by norm_num) (by norm_num)) (by simp)

/-- One and a half seconds before it, the entry lapses at 99.5, and the
token is accepted again for half a second. -/
theorem session_acceptedAgain :
    ¬ ∀ (env : AuthEnv ℚ) (w : AuthWorld ℚ) (e : AuthEvent ℚ) (p : Payload) (c : TokenClaims ℚ)
        (pre post : List (TokenClaims ℚ)),
      TokenService.decode w.now (some p.type) (.signed p) = .ok c →
      revocations w e = pre ++ c :: post → (∀ c' ∈ post, c'.jti ≠ c.jti) →
      ∀ es, Runs.Meets (AuthWorld.step env) (Unrevoked p.jti) (AuthWorld.step env w e) es →
        w.now < (Runs.run (AuthWorld.step env) (AuthWorld.step env w e) es).now →
        Rejects (Runs.run (AuthWorld.step env) (AuthWorld.step env w e) es) p := by
  intro h
  have h₀ : (0 : ℚ) ≤ 197 / 2 := by norm_num
  have hlt : (197 / 2 : ℚ) < 100 := by norm_num
  have hnot : ¬ WholeSeconds ((session.exp : ℚ) - (sessionWorld (197 / 2)).now) := by
    have hfloor : ⌊(3 / 2 : ℚ)⌋ = 1 := by norm_num
    have heq : (session.exp : ℚ) - (sessionWorld (197 / 2)).now = 3 / 2 := by
      norm_num [session, sessionWorld]
    rw [heq, WholeSeconds, Int.fract, hfloor]
    norm_num
  obtain ⟨t, hnow, ht, hrejects⟩ := not_rejects_of_not_wholeSeconds sessionEnv
    (session_decodes h₀ hlt) (session_revoked h₀ hlt) (by simp) hnot
  refine hrejects (h sessionEnv (sessionWorld (197 / 2)) _ session _ [] [] (session_decodes h₀ hlt)
    (session_revoked h₀ hlt) (by simp) [.advance t] ⟨?_, trivial⟩ (hnow.trans_eq ht.symm))
  exact fun c hc => by simp [revocations] at hc

end ThreatIntel
