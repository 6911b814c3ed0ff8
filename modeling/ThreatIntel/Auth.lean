import ThreatIntel.Routine
import ThreatIntel.PyText
import ThreatIntel.Runs
import ThreatIntel.Table
import ThreatIntel.Tokens

/-!
# Accounts, tokens and API keys

`AuthService` of `app/services/auth_service.py`, the repositories under
it, and the request authentication of `app/api/deps.py`, as routines on a
world: the database, the revocation store and the clocks.

Every operation is served as a request of its own, inside the unit of
work of `get_session`: an exception rolls the database back. The
revocation store is not part of the database, and keeps what was written
to it.

What the operations draw at random (row ids, salts, key material, token
ids) comes with the event that runs them. The hash functions and the
case folding of the standard library are parameters.
-/

namespace ThreatIntel

inductive Role where
  | admin
  | analyst
  | viewer
  deriving DecidableEq, Repr

namespace Role

def value : Role → String
  | admin => "admin"
  | analyst => "analyst"
  | viewer => "viewer"

/-- `Role(value)`; `none` is the `ValueError`. -/
def ofValue? (value : String) : Option Role :=
  [admin, analyst, viewer].find? fun r => r.value = value

end Role

/-! ## The database -/

structure User where
  id : String
  email : String
  passwordHash : String
  role : String
  isActive : Bool := true
  deriving DecidableEq, Repr

structure ApiKey (K : Type) where
  id : String
  userId : String
  name : String
  keyHash : String
  keyPrefix : String
  role : String
  isActive : Bool := true
  lastUsedAt : Option K := none
  deriving DecidableEq, Repr

structure AuditLog where
  action : String
  userId : Option String
  ipAddress : Option String
  detail : List (String × Detail)
  deriving DecidableEq, Repr

structure AuthDb (K : Type) where
  users : Table User User.id
  apiKeys : Table (ApiKey K) ApiKey.id
  auditLogs : List AuditLog

/-- The database, the revocation store, the wall clock, and how far the
store's clock is ahead of it. -/
structure AuthWorld (K : Type) where
  db : AuthDb K
  tokenStore : TokenStore K
  now : K
  storeOffset : K

/-- Settings and library functions the service is built with. -/
structure AuthEnv (K : Type) where
  allowOpenRegistration : Bool
  registrationDefaultRole : String
  tokens : TokenService K
  /-- `str.lower` -/
  lower : String → String
  /-- The password hasher, with the salt it drew. -/
  hash : String → String → String
  /-- The SHA-256 hex digest of the UTF-8 encoding. -/
  sha256 : String → String

variable {K : Type} [Ring K] [LinearOrder K] [FloorRing K]

abbrev AuthRoutine (K : Type) := Routine Exn (AuthWorld K)

namespace AuthWorld

/-- The reading of the revocation store's clock. -/
def storeNow (w : AuthWorld K) : K := w.now + w.storeOffset

/-- `session.rollback()`. -/
def rollback (before after : AuthWorld K) : AuthWorld K := { after with db := before.db }

end AuthWorld

namespace UserRepository

def get (id : String) : AuthRoutine K (Option User) := .gets fun w => w.db.users.get? id

def emailExists (env : AuthEnv K) (email : String) : AuthRoutine K Bool :=
  .gets fun w => w.db.users.rows.any fun u => u.email = env.lower email

/-- `add`, with the table's two unique constraints. -/
def add (user : User) : AuthRoutine K Unit := do
  let taken ← .gets fun w =>
    w.db.users.hasKey user.id || w.db.users.rows.any fun u => u.email = user.email
  .raiseIf taken .integrity
  .update fun w => { w with db := { w.db with users := w.db.users.insert user } }

def countActiveWithRole (role : String) : AuthRoutine K Nat :=
  .gets fun w => w.db.users.rows.countP fun u => u.role = role && u.isActive

/-- Assignments to the attributes of a loaded row. -/
def modify (id : String) (f : User → User) (hf : ∀ u, (f u).id = u.id) : AuthRoutine K Unit :=
  .update fun w => { w with db := { w.db with users := w.db.users.modify id f hf } }

end UserRepository

namespace ApiKeyRepository

/-- `add`, with the primary key and the unique key hash. -/
def add (record : ApiKey K) : AuthRoutine K Unit := do
  let taken ← .gets fun w =>
    w.db.apiKeys.hasKey record.id || w.db.apiKeys.rows.any fun k => k.keyHash = record.keyHash
  .raiseIf taken .integrity
  .update fun w => { w with db := { w.db with apiKeys := w.db.apiKeys.insert record } }

def getByHash (keyHash : String) : AuthRoutine K (Option (ApiKey K)) :=
  .gets fun w => w.db.apiKeys.rows.find? fun k => k.keyHash = keyHash && k.isActive

def getForUser (keyId userId : String) : AuthRoutine K (Option (ApiKey K)) :=
  .gets fun w => w.db.apiKeys.rows.find? fun k => k.id = keyId && k.userId = userId

def modify (id : String) (f : ApiKey K → ApiKey K) (hf : ∀ k, (f k).id = k.id) :
    AuthRoutine K Unit :=
  .update fun w => { w with db := { w.db with apiKeys := w.db.apiKeys.modify id f hf } }

end ApiKeyRepository

/-- `AuditRepository.record`; `user_id` is a foreign key. -/
def AuditRepository.record (action : String) (userId : Option String)
    (ipAddress : Option String := none) (detail : List (String × Detail) := []) :
    AuthRoutine K Unit := do
  let known ← .gets fun w => userId.all fun id => w.db.users.hasKey id
  .raiseIf (!known) .integrity
  let entry : AuditLog := { action, userId, ipAddress, detail }
  .update fun w => { w with db := { w.db with auditLogs := w.db.auditLogs ++ [entry] } }

/-! ## API keys -/

/-- `hash_api_key`. -/
def hashApiKey (env : AuthEnv K) (raw : String) : String :=
  env.sha256 (String.ofList (PyStr.strip raw.toList))

structure GeneratedApiKey where
  raw : String
  keyPrefix : String
  keyHash : String
  deriving DecidableEq, Repr

/-- `generate_api_key`; `secret` is the fresh `token_urlsafe(32)`. -/
def generateApiKey (env : AuthEnv K) (secret : String) : GeneratedApiKey :=
  let raw := "tip_" ++ secret
  { raw
    keyPrefix := String.ofList (raw.toList.take 12)
    keyHash := hashApiKey env raw }

/-- `_remaining_ttl`. -/
def remainingTtl (expiresAt now : K) : Int := max 1 (truncate (expiresAt - now))

/-! ## The service -/

namespace AuthService

/-- `self._token_store.is_revoked`. -/
def isRevoked (jti : String) : AuthRoutine K Bool :=
  .modifyGet fun w =>
    let (revoked, store) := w.tokenStore.isRevoked w.storeNow jti
    (revoked, { w with tokenStore := store })

/-- `self._token_store.revoke(claims.jti, ttl_seconds=_remaining_ttl(claims.expires_at))`. -/
def revoke (claims : TokenClaims K) : AuthRoutine K Unit :=
  .update fun w =>
    { w with
      tokenStore := w.tokenStore.revoke w.storeNow claims.jti
        (remainingTtl claims.expiresAt w.now) }

/-- `self._tokens.decode`. -/
def decode (token : Token) (expectedType : TokenType) :
    AuthRoutine K (TokenClaims K) := do
  let now ← .gets AuthWorld.now
  match TokenService.decode now (some expectedType) token with
  | .ok claims => pure claims
  | .error e => .raise (.app e)

/-- `register`, with the new row's id and the password's salt. -/
def register (env : AuthEnv K) (email password : String) (role : Option Role)
    (id salt : String) : AuthRoutine K User := do
  .raiseIf (!env.allowOpenRegistration)
    (.app (.raise .permissionDenied "Open registration is disabled."))
  let email := env.lower email
  let exist ← UserRepository.emailExists env email
  .raiseIf exist (.app (.raise .conflict "A user with this email already exists."))
  let role := role.getD ((Role.ofValue? env.registrationDefaultRole).getD .viewer)
  let user : User := { id, email, passwordHash := env.hash salt password, role := role.value }
  UserRepository.add user
  AuditRepository.record "user.register" (some user.id)
  pure user

/-- `refresh`, with the ids of the tokens it issues. -/
def refresh (env : AuthEnv K) (refreshToken : Token) (jtis : String × String) :
    AuthRoutine K TokenPair := do
  let claims ← decode refreshToken .refresh
  let revoked ← isRevoked claims.jti
  .raiseIf revoked (.app (.raise .authentication "This refresh token has been revoked."))
  let user ← UserRepository.get claims.subject
  match user.filter User.isActive with
  | none => .raise (.app (.raise .authentication "User no longer active."))
  | some user =>
      revoke claims
      let now ← .gets AuthWorld.now
      pure (env.tokens.issuePair now jtis user.id user.role)

/-- The first half of `logout`: the refresh token, if it decodes. -/
def endSession : Except AppError (TokenClaims K) → AuthRoutine K Unit
  | .ok claims => do
      revoke claims
      AuditRepository.record "auth.logout" (some claims.subject)
  | .error _ => pure ()

/-- The second half: the access token, if one is given and decodes. -/
def endAccess : Option (Except AppError (TokenClaims K)) → AuthRoutine K Unit
  | some (.ok acc) => revoke acc
  | _ => pure ()

def logout (refreshToken : Token) (accessToken : Option Token) : AuthRoutine K Unit := do
  let now ← .gets AuthWorld.now
  endSession (TokenService.decode now (some .refresh) refreshToken)
  endAccess (accessToken.map (TokenService.decode now (some .access)))

def getUser (userId : String) : AuthRoutine K User := do
  let user ← UserRepository.get userId
  match user with
  | some user => pure user
  | none => .raise (.app (.raise .notFound "User not found."))

def setUserRole (actorId userId : String) (role : Role) : AuthRoutine K User := do
  let user ← getUser userId
  .raiseIf (user.id = actorId && role ≠ .admin)
    (.app (.raise .validation "You cannot remove your own admin role."))
  let admins ← UserRepository.countActiveWithRole Role.admin.value
  .raiseIf (user.role = Role.admin.value && role ≠ .admin && admins ≤ 1)
    (.app (.raise .validation "Refusing to demote the last active admin."))
  UserRepository.modify user.id (fun u => { u with role := role.value }) fun _ => rfl
  AuditRepository.record "user.role_change" (some actorId) none
    [("target", .str userId), ("role", .str role.value)]
  pure { user with role := role.value }

def setUserActive (actorId userId : String) (isActive : Bool) : AuthRoutine K User := do
  let user ← getUser userId
  .raiseIf (user.id = actorId && !isActive)
    (.app (.raise .validation "You cannot deactivate your own account."))
  let admins ← UserRepository.countActiveWithRole Role.admin.value
  .raiseIf (!isActive && user.role = Role.admin.value && admins ≤ 1)
    (.app (.raise .validation "Refusing to deactivate the last active admin."))
  UserRepository.modify user.id (fun u => { u with isActive := isActive }) fun _ => rfl
  AuditRepository.record (if isActive then "user.activate" else "user.deactivate") (some actorId)
    none [("target", .str userId)]
  pure { user with isActive := isActive }

/-- `create_api_key`, with the new row's id and the secret drawn. -/
def createApiKey (env : AuthEnv K) (userId name id secret : String) :
    AuthRoutine K (ApiKey K × GeneratedApiKey) := do
  let user ← getUser userId
  let generated := generateApiKey env secret
  let record : ApiKey K :=
    { id
      userId := user.id
      name
      keyHash := generated.keyHash
      keyPrefix := generated.keyPrefix
      role := user.role }
  ApiKeyRepository.add record
  AuditRepository.record "apikey.create" (some user.id) none [("name", .str name)]
  pure (record, generated)

def revokeApiKey (userId keyId : String) : AuthRoutine K Unit := do
  let record ← ApiKeyRepository.getForUser keyId userId
  match record with
  | none => .raise (.app (.raise .notFound "API key not found."))
  | some record =>
      ApiKeyRepository.modify record.id (fun k => { k with isActive := false }) fun _ => rfl
      AuditRepository.record "apikey.revoke" (some userId) none [("id", .str keyId)]

def resolveApiKey (env : AuthEnv K) (rawKey : String) : AuthRoutine K (ApiKey K) := do
  let record ← ApiKeyRepository.getByHash (hashApiKey env rawKey)
  match record.filter ApiKey.isActive with
  | none => .raise (.app (.raise .invalidApiKey))
  | some record =>
      let owner ← UserRepository.get record.userId
      match owner.filter User.isActive with
      | none => .raise (.app (.raise .invalidApiKey))
      | some _ =>
          let now ← .gets AuthWorld.now
          ApiKeyRepository.modify record.id (fun k => { k with lastUsedAt := some now })
            fun _ => rfl
          pure { record with lastUsedAt := some now }

end AuthService

/-! ## Requests -/

inductive PrincipalKind where
  | user
  | apiKey
  deriving DecidableEq, Repr

structure CurrentPrincipal where
  id : String
  role : String
  kind : PrincipalKind
  deriving DecidableEq, Repr

/-- `get_current_principal`, with the bearer credentials and the
`X-API-Key` header of the request. -/
def getCurrentPrincipal (env : AuthEnv K) (credentials : Option Token)
    (xApiKey : Option String) : AuthRoutine K CurrentPrincipal :=
  match credentials, xApiKey.filter (· ≠ "") with
  | some credentials, _ => do
      let claims ← AuthService.decode credentials .access
      let revoked ← AuthService.isRevoked claims.jti
      .raiseIf revoked (.app (.raise .authentication "Token has been revoked."))
      let user ← UserRepository.get claims.subject
      match user with
      | none => .raise (.app (.raise .authentication "This account no longer exists."))
      | some user => do
          .raiseIf (!user.isActive)
            (.app (.raise .authentication "This account is disabled."))
          pure { id := user.id, role := user.role, kind := .user }
  | none, some xApiKey => do
      let record ← AuthService.resolveApiKey env xApiKey
      pure { id := record.userId, role := record.role, kind := .apiKey }
  | none, none =>
      .raise (.app (.raise .authentication
        "Authentication required (bearer token or X-API-Key)."))

/-! ## Runs -/

inductive AuthEvent (K : Type) where
  | advance (t : K)
  | register (email password : String) (role : Option Role) (id salt : String)
  | setUserRole (actorId userId : String) (role : Role)
  | setUserActive (actorId userId : String) (isActive : Bool)
  | createApiKey (userId name id secret : String)
  | revokeApiKey (userId keyId : String)
  | refresh (refreshToken : Token) (jtis : String × String)
  | logout (refreshToken : Token) (accessToken : Option Token)
  | request (credentials : Option Token) (xApiKey : Option String)
  deriving DecidableEq

namespace AuthWorld

/-- `get_session` around an operation. -/
def unitOfWork {α : Type} (x : AuthRoutine K α) (w : AuthWorld K) : AuthWorld K :=
  (Routine.run (.atomically rollback x) w).2

def step (env : AuthEnv K) (w : AuthWorld K) : AuthEvent K → AuthWorld K
  | .advance t => { w with now := max w.now t }
  | .register email password role id salt =>
      unitOfWork (AuthService.register env email password role id salt) w
  | .setUserRole actorId userId role =>
      unitOfWork (AuthService.setUserRole actorId userId role) w
  | .setUserActive actorId userId isActive =>
      unitOfWork (AuthService.setUserActive actorId userId isActive) w
  | .createApiKey userId name id secret =>
      unitOfWork (AuthService.createApiKey env userId name id secret) w
  | .revokeApiKey userId keyId => unitOfWork (AuthService.revokeApiKey userId keyId) w
  | .refresh refreshToken jtis => unitOfWork (AuthService.refresh env refreshToken jtis) w
  | .logout refreshToken accessToken =>
      unitOfWork (AuthService.logout refreshToken accessToken) w
  | .request credentials xApiKey =>
      unitOfWork (getCurrentPrincipal env credentials xApiKey) w

end AuthWorld

end ThreatIntel
