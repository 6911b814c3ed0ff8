import ThreatIntel.AuthSpec
import ThreatIntel.Login

/-!
# The endpoints that touch accounts

`app/security/rbac.py`, the gate of `app/api/deps.py`, and the endpoints of
`app/api/v1/auth.py` and `app/api/v1/admin.py`. What the service does for a
given actor, an endpoint does for the principal its request authenticates,
and the endpoints of the administration only for one with `admin:manage`.
Authentication, gate and operation share a unit of work.

`ApiChange` says once what a request leaves of the accounts and the keys,
and whom it has been served for.
-/

namespace ThreatIntel

open Routine

/-! ## Permissions -/

inductive Permission where
  | iocRead
  | iocWrite
  | enrichRun
  | collectorRun
  | alertRead
  | alertManage
  | reportGenerate
  | adminManage
  deriving DecidableEq, Repr

def Permission.value : Permission → String
  | iocRead => "ioc:read"
  | iocWrite => "ioc:write"
  | enrichRun => "enrich:run"
  | collectorRun => "collector:run"
  | alertRead => "alert:read"
  | alertManage => "alert:manage"
  | reportGenerate => "report:generate"
  | adminManage => "admin:manage"

namespace Role

def viewerPermissions : List Permission := [.iocRead, .alertRead]

def analystPermissions : List Permission :=
  viewerPermissions ++ [.iocWrite, .enrichRun, .collectorRun, .reportGenerate, .alertManage]

def adminPermissions : List Permission := analystPermissions ++ [.adminManage]

/-- `ROLE_PERMISSIONS`. -/
def permissions : Role → List Permission
  | viewer => viewerPermissions
  | analyst => analystPermissions
  | admin => adminPermissions

end Role

def permissionsFor (role : String) : List Permission :=
  match Role.ofValue? role with
  | some role => role.permissions
  | none => []

def hasPermission (role : String) (permission : Permission) : Bool :=
  (permissionsFor role).contains permission

/-! ## What the service leaves -/

section

variable {K : Type}

/-- What an account is worth. -/
structure Standing where
  id : String
  role : String
  isActive : Bool
  deriving DecidableEq

def User.standing (user : User) : Standing := ⟨user.id, user.role, user.isActive⟩

def AuthDb.standings (db : AuthDb K) : List Standing := db.users.rows.map User.standing

/-- The key but for when it has been used. -/
def ApiKey.unused (k : ApiKey K) : ApiKey K := { k with lastUsedAt := none }

def AuthDb.unusedKeys (db : AuthDb K) : List (ApiKey K) := db.apiKeys.rows.map ApiKey.unused

theorem standings_modify (users : Table User User.id) (id : String) (f : User → User)
    (hf : ∀ u, (f u).id = u.id) (g : Standing → Standing)
    (hview : ∀ u, (f u).standing = g u.standing) :
    (users.modify id f hf).rows.map User.standing =
      (users.rows.map User.standing).map fun s => if s.id = id then g s else s :=
  Table.map_rows_modify Standing.id (fun _ => rfl) hview

theorem unusedKeys_modify (keys : Table (ApiKey K) ApiKey.id) (id : String)
    (f : ApiKey K → ApiKey K) (hf : ∀ k, (f k).id = k.id) (g : ApiKey K → ApiKey K)
    (hview : ∀ k, (f k).unused = g k.unused) :
    (keys.modify id f hf).rows.map ApiKey.unused =
      (keys.rows.map ApiKey.unused).map fun k => if k.id = id then g k else k :=
  Table.map_rows_modify ApiKey.id (fun _ => rfl) hview

/-- No account and no key is worth more or less than before. -/
structure SameAccess (db db' : AuthDb K) : Prop where
  standings : db'.standings = db.standings
  keys : db'.unusedKeys = db.unusedKeys

theorem SameAccess.refl (db : AuthDb K) : SameAccess db db := ⟨rfl, rfl⟩

/-- The role of an account that registers itself. -/
def registrationRole (env : AuthEnv K) : Role :=
  (Role.ofValue? env.registrationDefaultRole).getD .viewer

variable {env : AuthEnv K} {w w' : AuthWorld K}

theorem run_dropped_eq_ok {α : Type} {x : AuthRoutine K α} {u : Unit} :
    run (do let _ ← x; pure ()) w = (.ok u, w') ↔ ∃ a, run x w = (.ok a, w') := by
  rw [run_bind_eq_ok]
  constructor
  · rintro ⟨a, w₁, hx, hret⟩
    obtain rfl := (Prod.mk.inj hret).2
    exact ⟨a, hx⟩
  · rintro ⟨a, hx⟩
    exact ⟨a, w', hx, rfl⟩

/-! ### Operations that go through -/

theorem register_ok {email password id salt : String} {user : User}
    (h : run (AuthService.register env email password none id salt) w = (.ok user, w')) :
    env.allowOpenRegistration = true ∧ w'.db.apiKeys = w.db.apiKeys ∧
      w'.db.standings = w.db.standings ++ [⟨id, (registrationRole env).value, true⟩] := by
  simp only [AuthService.register, UserRepository.emailExists, UserRepository.add,
    AuditRepository.record, run_bind_assoc, run_bind_raiseIf, run_bind_gets, run_bind_update,
    run_pure] at h
  split at h
  · cases h
  · next hclosed =>
      split at h
      · cases h
      · split at h
        · cases h
        · next htaken =>
            split at h
            · cases h
            · obtain ⟨-, rfl⟩ := Prod.mk.inj h
              simp only [Bool.or_eq_true, not_or, Bool.not_eq_true] at htaken
              refine ⟨by simpa using hclosed, rfl, ?_⟩
              rw [AuthDb.standings, Table.rows_insert htaken.1, List.map_append]
              rfl

theorem createApiKey_ok {userId name id secret : String} {created : ApiKey K × GeneratedApiKey}
    (h : run (AuthService.createApiKey env userId name id secret) w = (.ok created, w')) :
    ∃ owner k, w.db.users.get? userId = some owner ∧ k.id = id ∧ k.userId = userId ∧
      k.role = owner.role ∧ k.isActive = true ∧ w'.db.users = w.db.users ∧
      w'.db.unusedKeys = w.db.unusedKeys ++ [k] := by
  cases hu : w.db.users.get? userId with
  | none =>
      have hget : run (AuthService.getUser userId) w =
          (.error (.app (.raise .notFound "User not found.")), w) := by
        rw [AuthService.run_getUser, hu]
      rw [AuthService.createApiKey, run_bind_error hget] at h
      cases h
  | some owner =>
      have hget : run (AuthService.getUser userId) w = (.ok owner, w) := by
        rw [AuthService.run_getUser, hu]
      rw [AuthService.createApiKey, run_bind_ok hget] at h
      simp only [ApiKeyRepository.add, AuditRepository.record, run_bind_assoc, run_bind_raiseIf,
        run_bind_gets, run_bind_update, run_pure] at h
      split at h
      · cases h
      · next htaken =>
          split at h
          · cases h
          · obtain ⟨-, rfl⟩ := Prod.mk.inj h
            simp only [Bool.or_eq_true, not_or, Bool.not_eq_true] at htaken
            let k : ApiKey K :=
              { id
                userId := owner.id
                name
                keyHash := (generateApiKey env secret).keyHash
                keyPrefix := (generateApiKey env secret).keyPrefix
                role := owner.role }
            have howner : owner.id = userId := Table.key_of_get? hu
            refine ⟨owner, k, rfl, rfl, howner, rfl, rfl, rfl, ?_⟩
            rw [AuthDb.unusedKeys, Table.rows_insert htaken.1, List.map_append]
            rfl

theorem revokeApiKey_ok {userId keyId : String} {u : Unit}
    (h : run (AuthService.revokeApiKey userId keyId) w = (.ok u, w')) :
    (∀ k ∈ w.db.unusedKeys, k.id = keyId → k.userId = userId) ∧ w'.db.users = w.db.users ∧
      w'.db.unusedKeys =
        w.db.unusedKeys.map fun k => if k.id = keyId then { k with isActive := false } else k := by
  simp only [AuthService.revokeApiKey, ApiKeyRepository.getForUser, ApiKeyRepository.modify,
    run_bind_gets] at h
  split at h
  · cases h
  · next record hrecord =>
      have hmem := List.mem_of_find?_eq_some hrecord
      have hfound := List.find?_some hrecord
      simp only [Bool.and_eq_true, decide_eq_true_eq] at hfound
      obtain ⟨rfl, rfl⟩ := hfound
      simp only [AuditRepository.record, run_bind_raiseIf, run_bind_gets, run_bind_update,
        run_update] at h
      split at h
      · cases h
      · obtain ⟨-, rfl⟩ := Prod.mk.inj h
        refine ⟨?_, rfl, ?_⟩
        · intro k hk hid
          obtain ⟨k₀, hk₀, rfl⟩ := List.mem_map.mp hk
          rw [List.inj_on_of_nodup_map w.db.apiKeys.nodupKeys hk₀ hmem hid]
          rfl
        · exact unusedKeys_modify w.db.apiKeys record.id (fun k => { k with isActive := false })
            (fun _ => rfl) (fun k => { k with isActive := false }) fun _ => rfl

theorem setUserRole_ok {actorId userId : String} {role : Role} {user : User}
    (h : run (AuthService.setUserRole actorId userId role) w = (.ok user, w')) :
    w'.db.apiKeys = w.db.apiKeys ∧ w'.db.standings =
      w.db.standings.map fun s => if s.id = userId then { s with role := role.value } else s := by
  rcases AuthService.run_setUserRole actorId userId role w with ⟨-, user', hok⟩ | ⟨-, e, w₁, herror⟩
  · obtain ⟨-, rfl⟩ := Prod.mk.inj (h.symm.trans hok)
    exact ⟨rfl, standings_modify w.db.users userId (fun u => { u with role := role.value })
      (fun _ => rfl) (fun s => { s with role := role.value }) fun _ => rfl⟩
  · cases h.symm.trans herror

theorem setUserActive_ok {actorId userId : String} {isActive : Bool} {user : User}
    (h : run (AuthService.setUserActive actorId userId isActive) w = (.ok user, w')) :
    w'.db.apiKeys = w.db.apiKeys ∧ w'.db.standings =
      w.db.standings.map fun s => if s.id = userId then { s with isActive } else s := by
  rcases AuthService.run_setUserActive actorId userId isActive w with
    ⟨-, user', hok⟩ | ⟨-, e, w₁, herror⟩
  · obtain ⟨-, rfl⟩ := Prod.mk.inj (h.symm.trans hok)
    exact ⟨rfl, standings_modify w.db.users userId (fun u => { u with isActive := isActive })
      (fun _ => rfl) (fun s => { s with isActive }) fun _ => rfl⟩
  · cases h.symm.trans herror

/-- What leaves both tables alone, but for the use of a key. -/
theorem sameAccess_of_eq {db : AuthDb K} (husers : db.users = w.db.users)
    (hkeys : db.unusedKeys = w.db.unusedKeys) : SameAccess w.db db :=
  ⟨by rw [AuthDb.standings, husers, AuthDb.standings], hkeys⟩

theorem sameAccess_of_keeps {α : Type} {x : AuthRoutine K α} {a : α}
    (hx : Keeps (AuthWorld.SameAccounts w.db) x) (h : run x w = (.ok a, w')) :
    SameAccess w.db w'.db := by
  have hsame : AuthWorld.SameAccounts w.db w' := by
    have hkept := hx w ⟨rfl, rfl⟩
    rwa [h] at hkept
  exact sameAccess_of_eq hsame.1 (by rw [AuthDb.unusedKeys, hsame.2, AuthDb.unusedKeys])

theorem getUser_ok {userId : String} {user : User}
    (h : run (AuthService.getUser userId) w = (.ok user, w')) : w' = w := by
  rw [AuthService.run_getUser] at h
  cases hu : w.db.users.get? userId with
  | none =>
      rw [hu] at h
      cases h
  | some found =>
      rw [hu] at h
      exact (Prod.mk.inj h).2.symm

end

/-! ## The gate -/

/-- What a request authenticates itself with. -/
structure Credentials where
  bearer : Option Token := none
  xApiKey : Option String := none
  deriving DecidableEq

variable {K : Type} [Ring K] [LinearOrder K] [FloorRing K]

/-- `CurrentPrincipalDep`. -/
def currentPrincipal (env : AuthEnv K) (c : Credentials) : AuthRoutine K CurrentPrincipal :=
  getCurrentPrincipal env c.bearer c.xApiKey

/-- `Depends(require(permission))`. -/
def require (env : AuthEnv K) (permission : Permission) (c : Credentials) :
    AuthRoutine K CurrentPrincipal := do
  let principal ← currentPrincipal env c
  .raiseIf (!hasPermission principal.role permission)
    (.app (.raise .permissionDenied
      ("Role '" ++ principal.role ++ "' lacks permission '" ++ permission.value ++ "'.")))
  pure principal

/-! ## Endpoints -/

namespace Api

def register (env : AuthEnv K) (email password id salt : String) : AuthRoutine K User :=
  AuthService.register env email password none id salt

def me (env : AuthEnv K) (c : Credentials) : AuthRoutine K User := do
  let principal ← currentPrincipal env c
  AuthService.getUser principal.id

def createApiKey (env : AuthEnv K) (c : Credentials) (name id secret : String) :
    AuthRoutine K (ApiKey K × GeneratedApiKey) := do
  let principal ← currentPrincipal env c
  AuthService.createApiKey env principal.id name id secret

/-- The rows are in the order they were created in. -/
def listApiKeys (env : AuthEnv K) (c : Credentials) : AuthRoutine K (List (ApiKey K)) := do
  let principal ← currentPrincipal env c
  .gets fun w => w.db.apiKeys.rows.filter fun k => k.userId = principal.id

def getApiKey (env : AuthEnv K) (c : Credentials) (keyId : String) : AuthRoutine K (ApiKey K) := do
  let principal ← currentPrincipal env c
  let record ← ApiKeyRepository.getForUser keyId principal.id
  match record with
  | some record => pure record
  | none => .raise (.app (.raise .notFound "API key not found."))

def revokeApiKey (env : AuthEnv K) (c : Credentials) (keyId : String) : AuthRoutine K Unit := do
  let principal ← currentPrincipal env c
  AuthService.revokeApiKey principal.id keyId

def listUsers (env : AuthEnv K) (c : Credentials) (limit offset : Nat) :
    AuthRoutine K (List User) := do
  let _ ← require env .adminManage c
  .gets fun w => (w.db.users.rows.drop offset).take limit

def getUser (env : AuthEnv K) (c : Credentials) (userId : String) : AuthRoutine K User := do
  let _ ← require env .adminManage c
  AuthService.getUser userId

def setUserRole (env : AuthEnv K) (c : Credentials) (userId : String) (role : Role) :
    AuthRoutine K User := do
  let principal ← require env .adminManage c
  AuthService.setUserRole principal.id userId role

def setUserActive (env : AuthEnv K) (c : Credentials) (userId : String) (isActive : Bool) :
    AuthRoutine K User := do
  let principal ← require env .adminManage c
  AuthService.setUserActive principal.id userId isActive

end Api

/-- A request, with what is drawn at random while it is served. Those to
the endpoints of other routers get no further than their gate here. -/
inductive ApiRequest where
  | register (email password id salt : String)
  | refresh (refreshToken : Token) (jtis : String × String)
  | logout (refreshToken : Token) (accessToken : Option Token)
  | me (c : Credentials)
  | createApiKey (c : Credentials) (name id secret : String)
  | listApiKeys (c : Credentials)
  | getApiKey (c : Credentials) (keyId : String)
  | revokeApiKey (c : Credentials) (keyId : String)
  | listUsers (c : Credentials) (limit offset : Nat)
  | getUser (c : Credentials) (userId : String)
  | setUserRole (c : Credentials) (userId : String) (role : Role)
  | setUserActive (c : Credentials) (userId : String) (isActive : Bool)
  | other (permission : Permission) (c : Credentials)
  deriving DecidableEq

/-- Serve a request; what the answer would show is dropped. -/
def ApiRequest.serve (env : AuthEnv K) : ApiRequest → AuthRoutine K Unit
  | register email password id salt => do
      let _ ← Api.register env email password id salt
      pure ()
  | refresh refreshToken jtis => do
      let _ ← AuthService.refresh env refreshToken jtis
      pure ()
  | logout refreshToken accessToken => AuthService.logout refreshToken accessToken
  | me c => do
      let _ ← Api.me env c
      pure ()
  | createApiKey c name id secret => do
      let _ ← Api.createApiKey env c name id secret
      pure ()
  | listApiKeys c => do
      let _ ← Api.listApiKeys env c
      pure ()
  | getApiKey c keyId => do
      let _ ← Api.getApiKey env c keyId
      pure ()
  | revokeApiKey c keyId => Api.revokeApiKey env c keyId
  | listUsers c limit offset => do
      let _ ← Api.listUsers env c limit offset
      pure ()
  | getUser c userId => do
      let _ ← Api.getUser env c userId
      pure ()
  | setUserRole c userId role => do
      let _ ← Api.setUserRole env c userId role
      pure ()
  | setUserActive c userId isActive => do
      let _ ← Api.setUserActive env c userId isActive
      pure ()
  | other permission c => do
      let _ ← require env permission c
      pure ()

/-- A request, or anything that logins and time do. -/
inductive ApiEvent (K : Type) where
  | login (e : LoginEvent K)
  | request (r : ApiRequest)

def apiStep (env : LoginEnv K) (w : LoginWorld K) : ApiEvent K → LoginWorld K
  | .login e => w.step env e
  | .request r => { w with auth := .unitOfWork (r.serve env.toAuthEnv) w.auth }

/-! ## What a request leaves -/

/-- The credentials are those of this principal. -/
def Authenticated (env : AuthEnv K) (w : AuthWorld K) (c : Credentials)
    (principal : CurrentPrincipal) : Prop :=
  ∃ w', run (currentPrincipal env c) w = (.ok principal, w')

/-- What a request leaves of the accounts and the keys. -/
inductive ApiChange (env : AuthEnv K) (w : AuthWorld K) : ApiRequest → AuthDb K → Prop where
  | quiet {r : ApiRequest} {db : AuthDb K} (h : SameAccess w.db db) : ApiChange env w r db
  | registered {email password id salt : String} {db : AuthDb K}
      (hopen : env.allowOpenRegistration = true)
      (hstandings : db.standings = w.db.standings ++ [⟨id, (registrationRole env).value, true⟩])
      (hkeys : db.unusedKeys = w.db.unusedKeys) :
      ApiChange env w (.register email password id salt) db
  | keyCreated {c : Credentials} {name id secret : String} {db : AuthDb K}
      {principal : CurrentPrincipal} {owner : User} {k : ApiKey K}
      (hauth : Authenticated env w c principal)
      (howner : w.db.users.get? principal.id = some owner)
      (hid : k.id = id) (huser : k.userId = principal.id) (hrole : k.role = owner.role)
      (hactive : k.isActive = true) (hstandings : db.standings = w.db.standings)
      (hkeys : db.unusedKeys = w.db.unusedKeys ++ [k]) :
      ApiChange env w (.createApiKey c name id secret) db
  | keyRevoked {c : Credentials} {keyId : String} {db : AuthDb K} {principal : CurrentPrincipal}
      (hauth : Authenticated env w c principal)
      (howner : ∀ k ∈ w.db.unusedKeys, k.id = keyId → k.userId = principal.id)
      (hstandings : db.standings = w.db.standings)
      (hkeys : db.unusedKeys =
        w.db.unusedKeys.map fun k => if k.id = keyId then { k with isActive := false } else k) :
      ApiChange env w (.revokeApiKey c keyId) db
  | roleSet {c : Credentials} {userId : String} {role : Role} {db : AuthDb K}
      {principal : CurrentPrincipal} (hauth : Authenticated env w c principal)
      (hadmin : hasPermission principal.role .adminManage = true)
      (hstandings : db.standings =
        w.db.standings.map fun s => if s.id = userId then { s with role := role.value } else s)
      (hkeys : db.unusedKeys = w.db.unusedKeys) :
      ApiChange env w (.setUserRole c userId role) db
  | activeSet {c : Credentials} {userId : String} {isActive : Bool} {db : AuthDb K}
      {principal : CurrentPrincipal} (hauth : Authenticated env w c principal)
      (hadmin : hasPermission principal.role .adminManage = true)
      (hstandings : db.standings =
        w.db.standings.map fun s => if s.id = userId then { s with isActive } else s)
      (hkeys : db.unusedKeys = w.db.unusedKeys) :
      ApiChange env w (.setUserActive c userId isActive) db

section

variable {env : AuthEnv K} {w w' : AuthWorld K} {c : Credentials} {principal : CurrentPrincipal}

omit [FloorRing K] in
/-- Authentication leaves the accounts alone, and of the keys it changes
only when one has been used. -/
theorem currentPrincipal_ok (h : run (currentPrincipal env c) w = (.ok principal, w')) :
    w'.db.users = w.db.users ∧ w'.db.unusedKeys = w.db.unusedKeys := by
  obtain ⟨bearer, xApiKey⟩ := c
  cases bearer with
  | some token =>
      have hkeeps := AuthService.keeps_bearer (I := fun v => v.db = w.db) (fun _ _ h => h) env token
        xApiKey w rfl
      have hdb : w'.db = w.db := by
        rw [currentPrincipal] at h
        rwa [h] at hkeeps
      exact ⟨by rw [hdb], by rw [hdb]⟩
  | none =>
      unfold currentPrincipal getCurrentPrincipal at h
      split at h
      · next heq => cases heq
      · next raw _ _ =>
          obtain ⟨key, w₁, hkey, hret⟩ := run_bind_eq_ok.mp h
          obtain ⟨-, rfl⟩ := Prod.mk.inj hret
          simp only [AuthService.resolveApiKey, ApiKeyRepository.getByHash, run_bind_gets] at hkey
          split at hkey
          · cases hkey
          · next record _ =>
            simp only [UserRepository.get, ApiKeyRepository.modify, run_bind_gets] at hkey
            split at hkey
            · cases hkey
            · simp only [run_bind_gets, run_bind_update, run_pure] at hkey
              obtain ⟨-, rfl⟩ := Prod.mk.inj hkey
              refine ⟨rfl, ?_⟩
              have hview := unusedKeys_modify w.db.apiKeys record.id
                (fun k => { k with lastUsedAt := some w.now }) (fun _ => rfl) id fun _ => rfl
              exact hview.trans (by simp [AuthDb.unusedKeys])
      · cases h

omit [FloorRing K] in
theorem require_ok {permission : Permission}
    (h : run (require env permission c) w = (.ok principal, w')) :
    run (currentPrincipal env c) w = (.ok principal, w') ∧
      hasPermission principal.role permission = true := by
  obtain ⟨found, w₁, hfound, hrest⟩ := run_bind_eq_ok.mp h
  rw [run_bind_raiseIf] at hrest
  split at hrest
  · cases hrest
  · next hgate =>
      obtain ⟨hres, rfl⟩ := Prod.mk.inj hrest
      obtain rfl := Except.ok.inj hres
      exact ⟨hfound, by simpa using hgate⟩

omit [FloorRing K] in
/-- A request that only reads once its principal is known. -/
theorem sameAccess_of_reads {α β : Type} {x : AuthRoutine K α} {f : α → AuthRoutine K β} {b : β}
    (h : run (x >>= f) w = (.ok b, w'))
    (hx : ∀ a w₁, run x w = (.ok a, w₁) →
      ∃ principal, run (currentPrincipal env c) w = (.ok principal, w₁))
    (hf : ∀ a w₁, run (f a) w₁ = (.ok b, w') → w' = w₁) : SameAccess w.db w'.db := by
  obtain ⟨a, w₁, hfirst, hrest⟩ := run_bind_eq_ok.mp h
  obtain rfl := hf a w₁ hrest
  obtain ⟨principal, hprincipal⟩ := hx a _ hfirst
  obtain ⟨husers, hkeys⟩ := currentPrincipal_ok hprincipal
  exact sameAccess_of_eq husers hkeys

end

/-- **What a request leaves**, whoever sends it and however it ends. -/
theorem apiChange_serve (env : AuthEnv K) (w : AuthWorld K) (r : ApiRequest) :
    ApiChange env w r (AuthWorld.unitOfWork (r.serve env) w).db := by
  refine AuthWorld.db_unitOfWork (.quiet (.refl _)) fun u w' h => ?_
  cases r with
  | register email password id salt =>
      obtain ⟨user, hrun⟩ := run_dropped_eq_ok.mp h
      obtain ⟨hopen, hkeys, hstandings⟩ := register_ok hrun
      exact .registered hopen hstandings (by rw [AuthDb.unusedKeys, hkeys, AuthDb.unusedKeys])
  | refresh refreshToken jtis =>
      obtain ⟨pair, hrun⟩ := run_dropped_eq_ok.mp h
      exact .quiet (sameAccess_of_keeps
        (AuthService.keeps_refresh (fun _ _ h => h) env refreshToken jtis) hrun)
  | logout refreshToken accessToken =>
      exact .quiet (sameAccess_of_keeps
        (AuthService.keeps_logout (fun _ _ h => h) (fun _ _ h => h) refreshToken accessToken) h)
  | me c =>
      obtain ⟨user, hrun⟩ := run_dropped_eq_ok.mp h
      exact .quiet (sameAccess_of_reads hrun (fun a _ ha => ⟨a, ha⟩) fun _ _ => getUser_ok)
  | createApiKey c name id secret =>
      obtain ⟨created, hrun⟩ := run_dropped_eq_ok.mp h
      obtain ⟨principal, w₁, hauth, hcreate⟩ := run_bind_eq_ok.mp hrun
      obtain ⟨husers, hkeys⟩ := currentPrincipal_ok hauth
      obtain ⟨owner, k, howner, hid, huser, hrole, hactive, husers', hkeys'⟩ :=
        createApiKey_ok hcreate
      refine .keyCreated ⟨w₁, hauth⟩ (husers ▸ howner) hid huser hrole hactive ?_ ?_
      · rw [AuthDb.standings, husers', husers, AuthDb.standings]
      · rw [hkeys', hkeys]
  | listApiKeys c =>
      obtain ⟨keys, hrun⟩ := run_dropped_eq_ok.mp h
      exact .quiet (sameAccess_of_reads hrun (fun a _ ha => ⟨a, ha⟩) fun _ _ hf =>
        (Prod.mk.inj hf).2.symm)
  | getApiKey c keyId =>
      obtain ⟨k, hrun⟩ := run_dropped_eq_ok.mp h
      refine .quiet (sameAccess_of_reads hrun (fun a _ ha => ⟨a, ha⟩) fun a w₁ hf => ?_)
      simp only [ApiKeyRepository.getForUser, run_bind_gets] at hf
      split at hf
      · exact (Prod.mk.inj hf).2.symm
      · cases hf
  | revokeApiKey c keyId =>
      obtain ⟨principal, w₁, hauth, hrevoke⟩ := run_bind_eq_ok.mp h
      obtain ⟨husers, hkeys⟩ := currentPrincipal_ok hauth
      obtain ⟨howner, husers', hkeys'⟩ := revokeApiKey_ok hrevoke
      refine .keyRevoked ⟨w₁, hauth⟩ (hkeys ▸ howner) ?_ (hkeys ▸ hkeys')
      rw [AuthDb.standings, husers', husers, AuthDb.standings]
  | listUsers c limit offset =>
      obtain ⟨users, hrun⟩ := run_dropped_eq_ok.mp h
      exact .quiet (sameAccess_of_reads hrun (fun a _ ha => ⟨a, (require_ok ha).1⟩) fun _ _ hf =>
        (Prod.mk.inj hf).2.symm)
  | getUser c userId =>
      obtain ⟨user, hrun⟩ := run_dropped_eq_ok.mp h
      exact .quiet (sameAccess_of_reads hrun (fun a _ ha => ⟨a, (require_ok ha).1⟩) fun _ _ =>
        getUser_ok)
  | setUserRole c userId role =>
      obtain ⟨user, hrun⟩ := run_dropped_eq_ok.mp h
      obtain ⟨principal, w₁, hgate, hset⟩ := run_bind_eq_ok.mp hrun
      obtain ⟨hauth, hadmin⟩ := require_ok hgate
      obtain ⟨husers, hkeys⟩ := currentPrincipal_ok hauth
      obtain ⟨hkeys', hstandings⟩ := setUserRole_ok hset
      refine .roleSet ⟨w₁, hauth⟩ hadmin ?_ ?_
      · rw [hstandings, AuthDb.standings, husers, AuthDb.standings]
      · rw [← hkeys, AuthDb.unusedKeys, hkeys', AuthDb.unusedKeys]
  | setUserActive c userId isActive =>
      obtain ⟨user, hrun⟩ := run_dropped_eq_ok.mp h
      obtain ⟨principal, w₁, hgate, hset⟩ := run_bind_eq_ok.mp hrun
      obtain ⟨hauth, hadmin⟩ := require_ok hgate
      obtain ⟨husers, hkeys⟩ := currentPrincipal_ok hauth
      obtain ⟨hkeys', hstandings⟩ := setUserActive_ok hset
      refine .activeSet ⟨w₁, hauth⟩ hadmin ?_ ?_
      · rw [hstandings, AuthDb.standings, husers, AuthDb.standings]
      · rw [← hkeys, AuthDb.unusedKeys, hkeys', AuthDb.unusedKeys]
  | other permission c =>
      obtain ⟨principal, hgate⟩ := run_dropped_eq_ok.mp h
      obtain ⟨husers, hkeys⟩ := currentPrincipal_ok (require_ok hgate).1
      exact .quiet (sameAccess_of_eq husers hkeys)

/-- A login at most stores a password hash anew. -/
theorem sameAccess_login (env : LoginEnv K) (w : LoginWorld K) (e : LoginEvent K) :
    SameAccess w.auth.db (w.step env e).auth.db := by
  cases e with
  | advance t => exact .refl _
  | server redis =>
      simp only [LoginWorld.step]
      cases w.throttle <;> exact .refl _
  | login a =>
      simp only [LoginWorld.step_login, LoginWorld.committed]
      cases hd : w.decision env a with
      | granted user =>
          refine ⟨?_, rfl⟩
          simp only [LoginWorld.written, hd, LoginWorld.rehashed, AuthDb.standings]
          split
          · have hview := standings_modify w.auth.db.users user.id
              (fun u => { u with passwordHash := env.hash a.salt a.password }) (fun _ => rfl) id
              fun _ => rfl
            exact hview.trans (by simp)
          · rfl
      | locked => exact .refl _
      | rejected user => exact .refl _
      | disabled user => exact .refl _

end ThreatIntel
