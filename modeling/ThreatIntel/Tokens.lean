import Mathlib.Algebra.Order.Floor.Ring
import ThreatIntel.Dict
import ThreatIntel.Errors

/-!
# Tokens and their revocation

`app/security/tokens.py` and `app/security/token_store.py`.

A token string is modelled by what verifying it yields: the payload its
issuer signed, or nothing. Signing is not modelled beyond that, so a
payload can be presented whether or not the service ever issued it, and
what holds of every presented token holds of the issued ones.

Times are elements of an ordered ring with a floor. The wall clock of
`datetime.now` and the monotonic clock of the in-process store are two
readings of one time, so the store's functions take its own reading.

Both backends answer alike. `deadline` is what they have in common: the
instant, on the store's clock, at which the entry of an identifier
lapses. The lemmas about `Revoked` are the only thing the rest of the
development knows about them.
-/

namespace ThreatIntel

variable {K : Type} [Ring K] [LinearOrder K]

/-- `int(x)` of a number: rounding towards zero. -/
def truncate [FloorRing K] (x : K) : Int := if 0 ≤ x then ⌊x⌋ else ⌈x⌉

/-! ## The revocation store -/

/-- What the application uses of a Redis server: keys that expire. -/
structure Redis (K : Type) where
  deadlines : Dict String K

namespace Redis

/-- `SET key value EX seconds`. -/
def setEx (r : Redis K) (now : K) (key : String) (seconds : Int) : Redis K :=
  { deadlines := r.deadlines.set key (now + seconds) }

/-- `EXISTS key`. -/
def «exists» (r : Redis K) (now : K) (key : String) : Bool :=
  (r.deadlines.get? key).any fun d => now < d

end Redis

structure InMemoryTokenStore (K : Type) where
  revoked : Dict String K

namespace InMemoryTokenStore

/-- `_prune`. -/
def prune (s : InMemoryTokenStore K) (now : K) : InMemoryTokenStore K :=
  { revoked := s.revoked.filter fun _ exp => !decide (exp ≤ now) }

def revoke (s : InMemoryTokenStore K) (now : K) (jti : String) (ttlSeconds : Int) :
    InMemoryTokenStore K :=
  { revoked := (s.prune now).revoked.set jti (now + (max ttlSeconds 1 : Int)) }

/-- `is_revoked`: a lapsed entry is deleted on the way. -/
def isRevoked (s : InMemoryTokenStore K) (now : K) (jti : String) :
    Bool × InMemoryTokenStore K :=
  match s.revoked.get? jti with
  | none => (false, s)
  | some exp =>
      if exp ≤ now then (false, { revoked := s.revoked.erase jti }) else (true, s)

end InMemoryTokenStore

structure RedisTokenStore (K : Type) where
  redis : Redis K

namespace RedisTokenStore

/-- `_PREFIX + jti`. -/
def key (jti : String) : String := "revoked_jti:" ++ jti

def revoke (s : RedisTokenStore K) (now : K) (jti : String) (ttlSeconds : Int) :
    RedisTokenStore K :=
  { redis := s.redis.setEx now (key jti) (max ttlSeconds 1) }

def isRevoked (s : RedisTokenStore K) (now : K) (jti : String) : Bool × RedisTokenStore K :=
  (s.redis.exists now (key jti), s)

theorem key_injective : Function.Injective key := fun a b h => by
  simpa [key, String.ext_iff] using h

end RedisTokenStore

/-- The two backends of `TokenStore`. -/
inductive TokenStore (K : Type) where
  | inMemory (store : InMemoryTokenStore K)
  | redis (store : RedisTokenStore K)

namespace TokenStore

def revoke (now : K) (jti : String) (ttlSeconds : Int) : TokenStore K → TokenStore K
  | inMemory s => inMemory (s.revoke now jti ttlSeconds)
  | redis s => redis (s.revoke now jti ttlSeconds)

def isRevoked (now : K) (jti : String) : TokenStore K → Bool × TokenStore K
  | inMemory s => ((s.isRevoked now jti).1, inMemory (s.isRevoked now jti).2)
  | redis s => ((s.isRevoked now jti).1, redis (s.isRevoked now jti).2)

/-- When the entry of `jti` lapses. -/
def deadline (jti : String) : TokenStore K → Option K
  | inMemory s => s.revoked.get? jti
  | redis s => s.redis.deadlines.get? (RedisTokenStore.key jti)

/-- The entry of `jti` is in the store and has not lapsed at `now`. -/
def Revoked (st : TokenStore K) (now : K) (jti : String) : Prop :=
  ∃ d, st.deadline jti = some d ∧ now < d

instance (st : TokenStore K) (now : K) (jti : String) : Decidable (st.Revoked now jti) :=
  decidable_of_iff ((st.deadline jti).any fun d => now < d) <| by
    cases h : st.deadline jti <;> simp [Revoked, h]

/-! ## Both backends alike -/

theorem isRevoked_iff (st : TokenStore K) (now : K) (jti : String) :
    (st.isRevoked now jti).1 = true ↔ st.Revoked now jti := by
  cases st with
  | inMemory s =>
      simp only [isRevoked, InMemoryTokenStore.isRevoked, Revoked, deadline]
      cases h : s.revoked.get? jti with
      | none => simp
      | some d =>
          by_cases hd : d ≤ now
          · simp [hd]
          · simp [hd, not_le.mp hd]
  | redis s =>
      simp only [isRevoked, RedisTokenStore.isRevoked, Redis.exists, Revoked, deadline]
      cases h : s.redis.deadlines.get? (RedisTokenStore.key jti) <;> simp

@[simp] theorem deadline_revoke_self (st : TokenStore K) (now : K) (jti : String) (ttl : Int) :
    (st.revoke now jti ttl).deadline jti = some (now + (max ttl 1 : Int)) := by
  cases st <;> simp [revoke, deadline, InMemoryTokenStore.revoke, RedisTokenStore.revoke,
    Redis.setEx]

/-- The entry of another identifier is kept, or pruned because it had
lapsed. -/
theorem deadline_revoke_ne (st : TokenStore K) (now : K) {jti j : String} (ttl : Int)
    (h : j ≠ jti) :
    (st.revoke now jti ttl).deadline j = st.deadline j ∨
      (st.revoke now jti ttl).deadline j = (st.deadline j).filter fun d => !decide (d ≤ now) := by
  cases st with
  | inMemory s =>
      right
      simp only [revoke, deadline, InMemoryTokenStore.revoke, InMemoryTokenStore.prune]
      rw [Dict.get?_set_ne _ _ h, Dict.get?_filter]
  | redis s =>
      left
      have hkey : RedisTokenStore.key j ≠ RedisTokenStore.key jti :=
        fun heq => h (RedisTokenStore.key_injective heq)
      simp only [revoke, deadline, RedisTokenStore.revoke, Redis.setEx]
      exact Dict.get?_set_ne _ _ hkey

/-- A revocation says nothing, now or later, about another identifier. -/
theorem revoked_revoke_ne (st : TokenStore K) {now t : K} {jti j : String} (ttl : Int)
    (h : j ≠ jti) (ht : now ≤ t) :
    (st.revoke now jti ttl).Revoked t j ↔ st.Revoked t j := by
  rcases deadline_revoke_ne st now ttl h with heq | heq
  · simp only [Revoked, heq]
  · simp only [Revoked, heq, Option.filter_eq_some_iff]
    constructor
    · rintro ⟨d, ⟨hd, -⟩, hlt⟩
      exact ⟨d, hd, hlt⟩
    · rintro ⟨d, hd, hlt⟩
      exact ⟨d, ⟨hd, by simpa using ht.trans_lt hlt⟩, hlt⟩

theorem revoked_revoke_self (st : TokenStore K) (now t : K) (jti : String) (ttl : Int) :
    (st.revoke now jti ttl).Revoked t jti ↔ t < now + (max ttl 1 : Int) := by
  simp only [Revoked, deadline_revoke_self, Option.some.injEq, exists_eq_left']

/-- A query deletes only what has lapsed. -/
theorem revoked_isRevoked (st : TokenStore K) {now t : K} (jti j : String) (ht : now ≤ t) :
    (st.isRevoked now jti).2.Revoked t j ↔ st.Revoked t j := by
  cases st with
  | redis s => rfl
  | inMemory s =>
      simp only [isRevoked, InMemoryTokenStore.isRevoked, Revoked, deadline]
      cases hget : s.revoked.get? jti with
      | none => rfl
      | some d =>
          by_cases hd : d ≤ now
          · simp only [hd, if_true]
            by_cases hj : j = jti
            · subst hj
              simp [hget, not_lt.mpr (hd.trans ht)]
            · rw [Dict.get?_erase_ne _ hj]
          · simp only [hd, if_false]

end TokenStore

/-! ## Issuing and verifying -/

inductive TokenType where
  | access
  | refresh
  deriving DecidableEq, Repr

def TokenType.value : TokenType → String
  | access => "access"
  | refresh => "refresh"

/-- The signed claims of a token. -/
structure Payload where
  sub : String
  role : String
  type : TokenType
  jti : String
  iat : Int
  nbf : Int
  exp : Int
  deriving DecidableEq, Repr

/-- A token string: one whose signature verifies, or any other. -/
inductive Token where
  | signed (payload : Payload)
  | unverifiable
  deriving DecidableEq, Repr

structure TokenPair where
  accessToken : Token
  refreshToken : Token
  tokenType : String := "bearer"
  expiresIn : Int := 0
  deriving DecidableEq, Repr

structure TokenClaims (K : Type) where
  subject : String
  role : String
  tokenType : TokenType
  jti : String
  expiresAt : K
  deriving DecidableEq, Repr

structure TokenService (K : Type) where
  accessTtl : K
  refreshTtl : K

namespace TokenService

/-- `_encode`; `jti` is the fresh `uuid4().hex`. -/
def encode [FloorRing K] (now : K) (subject role : String) (tokenType : TokenType) (ttl : K)
    (jti : String) : Token × K :=
  let expiresAt := now + ttl
  (.signed
    { sub := subject
      role
      type := tokenType
      jti
      iat := truncate now
      nbf := truncate now
      exp := truncate expiresAt },
    expiresAt)

/-- `issue_pair`, with the identifiers of the two tokens. -/
def issuePair [FloorRing K] (ts : TokenService K) (now : K) (jtis : String × String)
    (subject role : String) : TokenPair :=
  let (access, accessExp) := encode now subject role .access ts.accessTtl jtis.1
  let (refresh, _) := encode now subject role .refresh ts.refreshTtl jtis.2
  { accessToken := access
    refreshToken := refresh
    expiresIn := truncate (accessExp - now) }

/-- The `TokenClaims` made from a verified payload. -/
def claims (p : Payload) : TokenClaims K :=
  { subject := p.sub
    role := if p.role = "" then "viewer" else p.role
    tokenType := p.type
    jti := p.jti
    expiresAt := p.exp }

/-- `decode`. The library checks `iat`, `nbf` and `exp` in this order and
without leeway; a missing required claim is an unverifiable token. -/
def decode (now : K) (expectedType : Option TokenType) :
    Token → Except AppError (TokenClaims K)
  | .unverifiable => .error (.raise .invalidToken "Token is invalid.")
  | .signed p =>
      if now < p.iat ∨ now < p.nbf then .error (.raise .invalidToken "Token is invalid.")
      else if (p.exp : K) ≤ now then .error (.raise .invalidToken "Token has expired.")
      else
        match expectedType with
        | none => .ok (claims p)
        | some t =>
            if p.type = t then .ok (claims p)
            else .error (.raise .invalidToken s!"Expected a {t.value} token.")

/-- A token that decodes, and what it decodes to. -/
theorem decode_eq_ok {now : K} {expected : Option TokenType} {token : Token}
    {c : TokenClaims K} :
    decode now expected token = .ok c ↔
      ∃ p, token = .signed p ∧ (p.iat : K) ≤ now ∧ (p.nbf : K) ≤ now ∧ now < p.exp ∧
        (∀ t ∈ expected, p.type = t) ∧ c = claims p := by
  cases token with
  | unverifiable => simp [decode]
  | signed p =>
      simp only [decode, Token.signed.injEq, exists_eq_left']
      split
      · next h =>
          refine iff_of_false (by simp) ?_
          rintro ⟨hiat, hnbf, -⟩
          rcases h with h | h
          · exact absurd h (not_lt.mpr hiat)
          · exact absurd h (not_lt.mpr hnbf)
      · next h =>
          obtain ⟨hiat, hnbf⟩ := not_or.mp h
          rw [not_lt] at hiat hnbf
          split
          · next hexp => exact iff_of_false (by simp) fun hr => absurd hr.2.2.1 (not_lt.mpr hexp)
          · next hexp =>
              have hlt : now < p.exp := not_le.mp hexp
              cases expected with
              | none => simp [hiat, hnbf, hlt, eq_comm]
              | some t =>
                  by_cases ht : p.type = t
                  · simp [ht, hiat, hnbf, hlt, eq_comm]
                  · simp [ht]

end TokenService

end ThreatIntel
