import ThreatIntel.AuthSpec
import ThreatIntel.InFlight

/-!
# Refresh tokens are one-time use

`AuthService.refresh` reads the revocation store, awaits the user lookup,
and only then writes the store: between the check and the revocation of
one call, any other call may run. Here the calls are split into their
five steps, and every list of events is an interleaving of them with
each other and with logouts.

A call that has passed the check holds a *ticket* for its token until it
has failed or its pair is issued. The invariant is that a token has at
most one ticket or issued pair, counted together. Only the check hands
out tickets, so one condition on that step is enough (`NoReplay`): no
other call is between its check and its revocation of the same token,
and a token that was redeemed before is still in the store.
-/

namespace ThreatIntel

open Routine

/-- Where a call of `refresh` stands: the step it has completed. -/
inductive RefreshPhase (K : Type) where
  | decoded (claims : TokenClaims K)
  | checked (claims : TokenClaims K)
  | found (claims : TokenClaims K) (user : User)
  | revoked (claims : TokenClaims K) (user : User)
  | done (result : Except Exn TokenPair)
  deriving DecidableEq

/-- The revocation store, the clocks, the calls in the order they were
started, and the pairs issued so far, each under the identifier of the
token it was issued for. -/
structure RefreshCalls (K : Type) where
  tokenStore : TokenStore K
  now : K
  storeOffset : K
  calls : List (RefreshPhase K)
  issued : List (String × TokenPair)

inductive RefreshEvent (K : Type) where
  | advance (t : K)
  /-- A call starts: `decode`. -/
  | start (refreshToken : Token)
  /-- `is_revoked`. -/
  | check (call : Nat)
  /-- The user lookup, and what it finds at that moment. -/
  | lookup (call : Nat) (user : Option User)
  /-- `revoke`. -/
  | revoke (call : Nat)
  /-- `issue_pair`, with the ids of the new tokens. -/
  | issue (call : Nat) (jtis : String × String)
  /-- One revocation by a `logout`, of either kind of token. -/
  | logout (token : Token) (type : TokenType)

namespace RefreshPhase

variable {K : Type}

/-- The call is between its check and its revocation of `jti`. -/
def exposed (jti : String) : RefreshPhase K → Bool
  | checked claims => claims.jti = jti
  | found claims _ => claims.jti = jti
  | _ => false

/-- The call has revoked `jti` and not issued its pair yet. -/
def redeeming (jti : String) : RefreshPhase K → Bool
  | revoked claims _ => claims.jti = jti
  | _ => false

def holdsTicket (jti : String) (phase : RefreshPhase K) : Bool :=
  phase.exposed jti || phase.redeeming jti

section

variable (jti : String) (claims : TokenClaims K) (user : User)

@[simp] theorem holdsTicket_decoded : (decoded claims).holdsTicket jti = false := rfl

@[simp] theorem holdsTicket_done (r : Except Exn TokenPair) :
    (done r : RefreshPhase K).holdsTicket jti = false := rfl

@[simp] theorem holdsTicket_checked :
    (checked claims).holdsTicket jti = decide (claims.jti = jti) := Bool.or_false _

@[simp] theorem holdsTicket_found :
    (found claims user).holdsTicket jti = decide (claims.jti = jti) := Bool.or_false _

@[simp] theorem holdsTicket_revoked :
    (revoked claims user).holdsTicket jti = decide (claims.jti = jti) := rfl

end

end RefreshPhase

namespace RefreshCalls

section

variable {K : Type}

def storeNow [Add K] (s : RefreshCalls K) : K := s.now + s.storeOffset

/-- The pairs issued for `jti` and the calls that hold a ticket for it. -/
def tickets (s : RefreshCalls K) (jti : String) : Nat :=
  s.issued.countP (fun entry => entry.1 = jti) + s.calls.countP (RefreshPhase.holdsTicket jti)

/-- **One-time use.** A refresh token leads to at most one issued pair. -/
def OneTimeUse (s : RefreshCalls K) : Prop :=
  ∀ jti, s.issued.countP (fun entry => entry.1 = jti) ≤ 1

/-- A call moves on to `phase`. -/
def goto (s : RefreshCalls K) (call : Nat) (phase : RefreshPhase K) : RefreshCalls K :=
  { s with calls := s.calls.set call phase }

/-- The token has led to a pair, or is about to. -/
def redeemed (s : RefreshCalls K) (jti : String) : Bool :=
  s.issued.any (fun entry => entry.1 = jti) || s.calls.any (RefreshPhase.redeeming jti)

/-! ## Tickets -/

theorem tickets_eq_zero_iff (s : RefreshCalls K) (jti : String) :
    s.tickets jti = 0 ↔
      s.redeemed jti = false ∧ s.calls.any (RefreshPhase.exposed jti) = false := by
  simp only [tickets, redeemed, Nat.add_eq_zero_iff, List.countP_eq_zero, Bool.or_eq_false_iff,
    List.any_eq_false, RefreshPhase.holdsTicket, Bool.or_eq_true, not_or, decide_eq_true_eq]
  constructor
  · rintro ⟨hi, hc⟩
    exact ⟨⟨hi, fun p hp => (hc p hp).2⟩, fun p hp => (hc p hp).1⟩
  · rintro ⟨⟨hi, hr⟩, he⟩
    exact ⟨hi, fun p hp => ⟨he p hp, hr p hp⟩⟩

/-- A new call holds no ticket. -/
theorem tickets_append (s : RefreshCalls K) {phase : RefreshPhase K} {jti : String}
    (h : phase.holdsTicket jti = false) :
    tickets { s with calls := s.calls ++ [phase] } jti = s.tickets jti := by
  simp [tickets, h]

/-- A call that moves on changes the tickets by its own. -/
theorem tickets_goto {s : RefreshCalls K} {call : Nat} {old : RefreshPhase K}
    (h : s.calls[call]? = some old) (new : RefreshPhase K) (jti : String) :
    (s.goto call new).tickets jti + (if old.holdsTicket jti then 1 else 0) =
      s.tickets jti + (if new.holdsTicket jti then 1 else 0) := by
  have hmove := InFlight.countP_set h (RefreshPhase.holdsTicket jti) new
  simp only [goto, tickets]
  omega

theorem tickets_goto_le {s : RefreshCalls K} {call : Nat} {old new : RefreshPhase K}
    (h : s.calls[call]? = some old) (jti : String)
    (hticket : new.holdsTicket jti = true → old.holdsTicket jti = true) :
    (s.goto call new).tickets jti ≤ s.tickets jti := by
  have hmove := tickets_goto h new jti
  by_cases hnew : new.holdsTicket jti = true
  · rw [if_pos hnew, if_pos (hticket hnew)] at hmove
    omega
  · rw [if_neg hnew] at hmove
    omega

theorem OneTimeUse.of_tickets {s : RefreshCalls K} (h : ∀ jti, s.tickets jti ≤ 1) :
    OneTimeUse s := fun jti => (Nat.le_add_right _ _).trans (h jti)

/-! ## The steps -/

variable [Ring K] [LinearOrder K] [FloorRing K]

def step (env : AuthEnv K) (s : RefreshCalls K) : RefreshEvent K → RefreshCalls K
  | .advance t => { s with now := max s.now t }
  | .start refreshToken =>
      match TokenService.decode s.now (some .refresh) refreshToken with
      | .ok claims => { s with calls := s.calls ++ [.decoded claims] }
      | .error e => { s with calls := s.calls ++ [.done (.error (.app e))] }
  | .check call =>
      match s.calls[call]? with
      | some (.decoded claims) =>
          let (revoked, store) := s.tokenStore.isRevoked s.storeNow claims.jti
          let s' := { s with tokenStore := store }
          if revoked then
            s'.goto call (.done (.error
              (.app (.raise .authentication "This refresh token has been revoked."))))
          else s'.goto call (.checked claims)
      | _ => s
  | .lookup call user =>
      match s.calls[call]? with
      | some (.checked claims) =>
          match user.filter User.isActive with
          | some user => s.goto call (.found claims user)
          | none => s.goto call (.done (.error
              (.app (.raise .authentication "User no longer active."))))
      | _ => s
  | .revoke call =>
      match s.calls[call]? with
      | some (.found claims user) =>
          let s' := { s with
            tokenStore := s.tokenStore.revoke s.storeNow claims.jti
              (remainingTtl claims.expiresAt s.now) }
          s'.goto call (.revoked claims user)
      | _ => s
  | .issue call jtis =>
      match s.calls[call]? with
      | some (.revoked claims user) =>
          let pair := env.tokens.issuePair s.now jtis user.id user.role
          let s' := { s with issued := (claims.jti, pair) :: s.issued }
          s'.goto call (.done (.ok pair))
      | _ => s
  | .logout token type =>
      match TokenService.decode s.now (some type) token with
      | .ok claims =>
          { s with
            tokenStore := s.tokenStore.revoke s.storeNow claims.jti
              (remainingTtl claims.expiresAt s.now) }
      | .error _ => s

/-! ## The steps in a row are the service's `refresh` -/

/-- A call that nothing interrupts ends as `AuthService.refresh` does, and
leaves the same revocation store. -/
theorem solo_eq_refresh (env : AuthEnv K) (w : AuthWorld K) (token : Token)
    (jtis : String × String) (calls : List (RefreshPhase K)) (issued : List (String × TokenPair))
    (user : Option User)
    (huser : ∀ claims, TokenService.decode w.now (some .refresh) token = .ok claims →
      user = w.db.users.get? claims.subject) :
    let s : RefreshCalls K := ⟨w.tokenStore, w.now, w.storeOffset, calls, issued⟩
    let n := calls.length
    let s' := Runs.run (step env) s [.start token, .check n, .lookup n user, .revoke n, .issue n jtis]
    s'.calls[n]? = some (.done (run (AuthService.refresh env token jtis) w).1) ∧
      s'.tokenStore = (run (AuthService.refresh env token jtis) w).2.tokenStore := by
  simp only [AuthService.refresh, AuthService.decode, AuthService.isRevoked, UserRepository.get,
    run_bind_assoc, run_bind_gets, Runs.run_cons, Runs.run_nil]
  cases hdec : TokenService.decode w.now (some .refresh) token with
  | error e => simp [step, hdec]
  | ok claims =>
      obtain rfl := huser claims hdec
      have hclock : storeNow ⟨w.tokenStore, w.now, w.storeOffset, calls ++ [.decoded claims], issued⟩ =
          w.storeNow := rfl
      simp only [run_bind_pure, run_bind_modifyGet, run_bind_raiseIf, run_bind_gets]
      rcases hq : w.tokenStore.isRevoked w.storeNow claims.jti with ⟨_ | _, store⟩
      · rcases hu : (w.db.users.get? claims.subject).filter User.isActive with _ | user
        · simp [step, goto, hdec, hclock, hq, hu]
        · simp [step, goto, hdec, hclock, hq, hu, AuthService.revoke]
          rfl
      · simp [step, goto, hdec, hclock, hq]

/-! ## The condition -/

/-- The condition on a step: when a call checks a token, no other call is
between its check and its revocation of it, and if the token was
redeemed before, its revocation entry has not lapsed. -/
def NoReplay (s : RefreshCalls K) : RefreshEvent K → Prop
  | .check call =>
      match s.calls[call]? with
      | some (.decoded claims) =>
          s.calls.any (RefreshPhase.exposed claims.jti) = false ∧
            (s.redeemed claims.jti = true → s.tokenStore.Revoked s.storeNow claims.jti)
      | _ => True
  | _ => True

instance (s : RefreshCalls K) (e : RefreshEvent K) : Decidable (NoReplay s e) := by
  unfold NoReplay
  split
  · split <;> infer_instance
  · infer_instance

/-! ## One step -/

theorem tickets_step_le {env : AuthEnv K} {s : RefreshCalls K} (e : RefreshEvent K)
    (h : ∀ jti, s.tickets jti ≤ 1) (hsafe : NoReplay s e) (jti : String) :
    (step env s e).tickets jti ≤ 1 := by
  cases e with
  | advance t => exact h jti
  | start token =>
      simp only [step]
      split
      · exact (tickets_append s rfl).trans_le (h jti)
      · exact (tickets_append s rfl).trans_le (h jti)
  | check call =>
      simp only [step]
      split
      · next claims hc =>
          simp only [NoReplay, hc] at hsafe
          obtain ⟨hexposed, hredeemed⟩ := hsafe
          rcases hq : s.tokenStore.isRevoked s.storeNow claims.jti with ⟨_ | _, store⟩
          · -- the check passes: nobody holds a ticket for this token yet
            have hnot : ¬ s.tokenStore.Revoked s.storeNow claims.jti := by
              rw [← TokenStore.isRevoked_iff, hq]
              simp
            have hfree : s.tickets claims.jti = 0 := (tickets_eq_zero_iff s _).mpr
              ⟨by simpa using fun hr => hnot (hredeemed hr), hexposed⟩
            have hmove := tickets_goto hc (.checked claims) jti
            simp only [RefreshPhase.holdsTicket_decoded, RefreshPhase.holdsTicket_checked] at hmove
            have hle : (s.goto call (.checked claims)).tickets jti ≤ 1 := by
              have hj := h jti
              by_cases heq : claims.jti = jti
              · subst heq
                simp only [hfree, decide_true, Bool.false_eq_true, if_true, if_false] at hmove
                omega
              · simp only [heq, decide_false, Bool.false_eq_true, if_false] at hmove
                omega
            exact hle
          · exact (tickets_goto_le hc jti (by simp)).trans (h jti)
      · exact h jti
  | lookup call user =>
      simp only [step]
      split
      · next claims hc =>
          split
          · exact (tickets_goto_le hc jti (by simp)).trans (h jti)
          · exact (tickets_goto_le hc jti (by simp)).trans (h jti)
      · exact h jti
  | revoke call =>
      simp only [step]
      split
      · next claims user hc =>
          have hle : (s.goto call (.revoked claims user)).tickets jti ≤ s.tickets jti :=
            tickets_goto_le hc jti (by simp)
          exact hle.trans (h jti)
      · exact h jti
  | issue call jtis =>
      simp only [step]
      split
      · next claims user hc =>
          -- the ticket turns into the pair
          have hmove := tickets_goto hc
            (.done (.ok (env.tokens.issuePair s.now jtis user.id user.role))) jti
          have hj := h jti
          simp only [RefreshPhase.holdsTicket_done, RefreshPhase.holdsTicket_revoked, goto, tickets,
            List.countP_cons, Bool.false_eq_true, if_false, decide_eq_true_eq] at hmove hj ⊢
          omega
      · exact h jti
  | logout token type =>
      simp only [step]
      split
      · exact h jti
      · exact h jti

/-! ## Whole runs -/

def init (tokenStore : TokenStore K) (now storeOffset : K) : RefreshCalls K :=
  { tokenStore, now, storeOffset, calls := [], issued := [] }

/-- **When refresh tokens are one-time use.** In every run in which no
call checks a token while another is between its check and its
revocation of it, or after the entry of a redeemed token has lapsed, each
token leads to at most one pair. -/
theorem oneTimeUse_of_noReplay (env : AuthEnv K) (tokenStore : TokenStore K)
    (now storeOffset : K) (es : List (RefreshEvent K))
    (hsafe : Runs.Meets (step env) NoReplay (init tokenStore now storeOffset) es) :
    OneTimeUse (Runs.run (step env) (init tokenStore now storeOffset) es) :=
  .of_tickets (Runs.run_invariant (I := fun s => ∀ jti, s.tickets jti ≤ 1)
    (fun _ e h hs jti => tickets_step_le e h hs jti) (fun _ => Nat.zero_le 1) hsafe)

end

/-! ## Two uses of one token -/

def sampleEnv : AuthEnv Int :=
  { allowOpenRegistration := false
    registrationDefaultRole := "viewer"
    tokens := { accessTtl := 1800, refreshTtl := 1209600 }
    lower := String.toLower
    hash := fun salt password => salt ++ password
    sha256 := id }

def sampleToken : Token := .signed
  { sub := "u1", role := "analyst", type := .refresh, jti := "j1", iat := 0, nbf := 0, exp := 100 }

def alice : User :=
  { id := "u1", email := "alice@example.com", passwordHash := "$argon2id$a", role := "analyst" }

/-- One call after the other: the second is refused. -/
def inTurn : List (RefreshEvent Int) :=
  [.start sampleToken, .check 0, .lookup 0 (some alice), .revoke 0, .issue 0 ("j2", "j3"),
    .advance 10, .start sampleToken, .check 1, .lookup 1 (some alice), .revoke 1,
    .issue 1 ("j4", "j5")]

theorem inTurn_oneTimeUse :
    Runs.Meets (step sampleEnv) NoReplay (init (.inMemory ⟨.empty⟩) 0 0) inTurn ∧
      OneTimeUse (Runs.run (step sampleEnv) (init (.inMemory ⟨.empty⟩) 0 0) inTurn) :=
  ⟨by decide, oneTimeUse_of_noReplay sampleEnv (.inMemory ⟨.empty⟩) 0 0 inTurn (by decide)⟩

/-- Both calls check before either revokes. -/
def atOnce : List (RefreshEvent Int) :=
  [.start sampleToken, .start sampleToken, .check 0, .check 1, .lookup 0 (some alice),
    .lookup 1 (some alice), .revoke 0, .revoke 1, .issue 0 ("j2", "j3"), .issue 1 ("j4", "j5")]

theorem atOnce_issuesTwice :
    ¬ ∀ es : List (RefreshEvent Int),
      OneTimeUse (Runs.run (step sampleEnv) (init (.inMemory ⟨.empty⟩) 0 0) es) := by
  intro h
  exact absurd (h atOnce "j1") (by decide)

end RefreshCalls

end ThreatIntel
