import ThreatIntel.Endpoints

/-!
# Where access comes from

Accounts and keys over whole runs of requests, logins and the clock. A role
that an account has now it has had from the start, or it has registered with
it, or somebody has given it to the account who was authenticated then, with a
role that may administrate; and so on for the active flag, for the keys and
for their revocation (`access_has_provenance`). That role is the one of the
account, for a token, and the one the key was created with, for a key.

A production deployment that starts hands out nothing but the read-only role
by itself, so where there is no administrator nobody becomes one, or anything
but a viewer, over the API (`no_self_service`).
-/

namespace ThreatIntel

open Routine

variable {K : Type}

/-! ## Provenance -/

/-- The account has the role. -/
def HasRole (id role : String) (db : AuthDb K) : Prop :=
  ∃ s ∈ db.standings, s.id = id ∧ s.role = role

def HasFlag (id : String) (isActive : Bool) (db : AuthDb K) : Prop :=
  ∃ s ∈ db.standings, s.id = id ∧ s.isActive = isActive

/-- The user has a key that carries the role. -/
def HasKey (id userId role : String) (db : AuthDb K) : Prop :=
  ∃ k ∈ db.unusedKeys, k.id = id ∧ k.userId = userId ∧ k.role = role

/-- The user's key is revoked. -/
def IsRevoked (id userId : String) (db : AuthDb K) : Prop :=
  ∃ k ∈ db.unusedKeys, k.id = id ∧ k.userId = userId ∧ k.isActive = false

section

variable [Ring K] [LinearOrder K]

/-- The request is one of a principal whose role may administrate. -/
def ByAdmin (env : AuthEnv K) (w : AuthWorld K) (c : Credentials) : Prop :=
  ∃ principal, Authenticated env w c principal ∧
    hasPermission principal.role .adminManage = true

/-- The account registers with this role, or an administrator gives it the
role. -/
def GivesRole (env : AuthEnv K) (id role : String) (w : AuthWorld K) (r : ApiRequest) :
    Prop :=
  (env.allowOpenRegistration = true ∧ role = (registrationRole env).value ∧
    ∃ email password salt, r = .register email password id salt) ∨
  ∃ c given, r = .setUserRole c id given ∧ given.value = role ∧ ByAdmin env w c

/-- The account registers, and is active, or an administrator sets the flag. -/
def SetsFlag (env : AuthEnv K) (id : String) (isActive : Bool) (w : AuthWorld K) (r : ApiRequest) :
    Prop :=
  (env.allowOpenRegistration = true ∧ isActive = true ∧
    ∃ email password salt, r = .register email password id salt) ∨
  ∃ c, r = .setUserActive c id isActive ∧ ByAdmin env w c

/-- The owner creates the key, and has the role that the key gets. -/
def CreatesKey (env : AuthEnv K) (id userId role : String) (w : AuthWorld K) (r : ApiRequest) :
    Prop :=
  ∃ c name secret principal owner, r = .createApiKey c name id secret ∧
    Authenticated env w c principal ∧ principal.id = userId ∧
    w.db.users.get? userId = some owner ∧ owner.role = role

/-- The owner revokes the key. -/
def RevokesKey (env : AuthEnv K) (id userId : String) (w : AuthWorld K) (r : ApiRequest) : Prop :=
  ∃ c principal, r = .revokeApiKey c id ∧ Authenticated env w c principal ∧ principal.id = userId

variable {env : AuthEnv K} {id userId role : String} {isActive : Bool} {v : AuthWorld K}
  {r : ApiRequest} {db : AuthDb K}

theorem givesRole_of_change (h : ApiChange env v r db) (hnow : HasRole id role db)
    (hnot : ¬ HasRole id role v.db) : GivesRole env id role v r := by
  obtain ⟨s, hs, rfl, rfl⟩ := hnow
  cases h with
  | quiet h => exact absurd ⟨s, h.standings ▸ hs, rfl, rfl⟩ hnot
  | registered hopen hstandings hkeys =>
      rw [hstandings, List.mem_append, List.mem_singleton] at hs
      rcases hs with hs | rfl
      · exact absurd ⟨s, hs, rfl, rfl⟩ hnot
      · exact .inl ⟨hopen, rfl, _, _, _, rfl⟩
  | keyCreated hauth howner hid huser hrole hactive hstandings hkeys =>
      exact absurd ⟨s, hstandings ▸ hs, rfl, rfl⟩ hnot
  | keyRevoked hauth howner hstandings hkeys => exact absurd ⟨s, hstandings ▸ hs, rfl, rfl⟩ hnot
  | @roleSet c target given _ principal hauth hadmin hstandings hkeys =>
      rw [hstandings] at hs
      rcases Table.mem_of_mem_map_ite hs with hs | ⟨s₀, -, rfl, rfl⟩
      · exact absurd ⟨s, hs, rfl, rfl⟩ hnot
      · exact .inr ⟨c, given, rfl, rfl, principal, hauth, hadmin⟩
  | @activeSet c target flag _ principal hauth hadmin hstandings hkeys =>
      rw [hstandings] at hs
      rcases Table.mem_of_mem_map_ite hs with hs | ⟨s₀, hs₀, -, rfl⟩
      · exact absurd ⟨s, hs, rfl, rfl⟩ hnot
      · exact absurd ⟨s₀, hs₀, rfl, rfl⟩ hnot

theorem setsFlag_of_change (h : ApiChange env v r db) (hnow : HasFlag id isActive db)
    (hnot : ¬ HasFlag id isActive v.db) : SetsFlag env id isActive v r := by
  obtain ⟨s, hs, rfl, rfl⟩ := hnow
  cases h with
  | quiet h => exact absurd ⟨s, h.standings ▸ hs, rfl, rfl⟩ hnot
  | registered hopen hstandings hkeys =>
      rw [hstandings, List.mem_append, List.mem_singleton] at hs
      rcases hs with hs | rfl
      · exact absurd ⟨s, hs, rfl, rfl⟩ hnot
      · exact .inl ⟨hopen, rfl, _, _, _, rfl⟩
  | keyCreated hauth howner hid huser hrole hactive hstandings hkeys =>
      exact absurd ⟨s, hstandings ▸ hs, rfl, rfl⟩ hnot
  | keyRevoked hauth howner hstandings hkeys => exact absurd ⟨s, hstandings ▸ hs, rfl, rfl⟩ hnot
  | @roleSet c target given _ principal hauth hadmin hstandings hkeys =>
      rw [hstandings] at hs
      rcases Table.mem_of_mem_map_ite hs with hs | ⟨s₀, hs₀, -, rfl⟩
      · exact absurd ⟨s, hs, rfl, rfl⟩ hnot
      · exact absurd ⟨s₀, hs₀, rfl, rfl⟩ hnot
  | @activeSet c target flag _ principal hauth hadmin hstandings hkeys =>
      rw [hstandings] at hs
      rcases Table.mem_of_mem_map_ite hs with hs | ⟨s₀, -, rfl, rfl⟩
      · exact absurd ⟨s, hs, rfl, rfl⟩ hnot
      · exact .inr ⟨c, rfl, principal, hauth, hadmin⟩

theorem createsKey_of_change (h : ApiChange env v r db) (hnow : HasKey id userId role db)
    (hnot : ¬ HasKey id userId role v.db) : CreatesKey env id userId role v r := by
  obtain ⟨k, hk, rfl, rfl, rfl⟩ := hnow
  cases h with
  | quiet h => exact absurd ⟨k, h.keys ▸ hk, rfl, rfl, rfl⟩ hnot
  | registered hopen hstandings hkeys => exact absurd ⟨k, hkeys ▸ hk, rfl, rfl, rfl⟩ hnot
  | keyCreated hauth howner hid huser hrole hactive hstandings hkeys =>
      rw [hkeys, List.mem_append, List.mem_singleton] at hk
      rcases hk with hk | rfl
      · exact absurd ⟨k, hk, rfl, rfl, rfl⟩ hnot
      · exact ⟨_, _, _, _, _, by rw [hid], hauth, huser.symm, huser ▸ howner, hrole.symm⟩
  | keyRevoked hauth howner hstandings hkeys =>
      rw [hkeys] at hk
      rcases Table.mem_of_mem_map_ite hk with hk | ⟨k₀, hk₀, -, rfl⟩
      · exact absurd ⟨k, hk, rfl, rfl, rfl⟩ hnot
      · exact absurd ⟨k₀, hk₀, rfl, rfl, rfl⟩ hnot
  | roleSet hauth hadmin hstandings hkeys => exact absurd ⟨k, hkeys ▸ hk, rfl, rfl, rfl⟩ hnot
  | activeSet hauth hadmin hstandings hkeys => exact absurd ⟨k, hkeys ▸ hk, rfl, rfl, rfl⟩ hnot

theorem revokesKey_of_change (h : ApiChange env v r db) (hnow : IsRevoked id userId db)
    (hnot : ¬ IsRevoked id userId v.db) : RevokesKey env id userId v r := by
  obtain ⟨k, hk, rfl, rfl, hoff⟩ := hnow
  cases h with
  | quiet h => exact absurd ⟨k, h.keys ▸ hk, rfl, rfl, hoff⟩ hnot
  | registered hopen hstandings hkeys => exact absurd ⟨k, hkeys ▸ hk, rfl, rfl, hoff⟩ hnot
  | keyCreated hauth howner hid huser hrole hactive hstandings hkeys =>
      rw [hkeys, List.mem_append, List.mem_singleton] at hk
      rcases hk with hk | rfl
      · exact absurd ⟨k, hk, rfl, rfl, hoff⟩ hnot
      · exact absurd (hoff.symm.trans hactive) Bool.false_ne_true
  | @keyRevoked c target _ principal hauth howner hstandings hkeys =>
      rw [hkeys] at hk
      rcases Table.mem_of_mem_map_ite hk with hk | ⟨k₀, hk₀, rfl, rfl⟩
      · exact absurd ⟨k, hk, rfl, rfl, hoff⟩ hnot
      · exact ⟨c, principal, rfl, hauth, (howner k₀ hk₀ rfl).symm⟩
  | roleSet hauth hadmin hstandings hkeys => exact absurd ⟨k, hkeys ▸ hk, rfl, rfl, hoff⟩ hnot
  | activeSet hauth hadmin hstandings hkeys => exact absurd ⟨k, hkeys ▸ hk, rfl, rfl, hoff⟩ hnot

variable [FloorRing K]

/-- At some point of the run a request has been served that was like this,
in the state of then. -/
def Happened (env : LoginEnv K) (w : LoginWorld K) (events : List (ApiEvent K))
    (P : AuthWorld K → ApiRequest → Prop) : Prop :=
  ∃ before r after, events = before ++ .request r :: after ∧
    P (Runs.run (apiStep env) w before).auth r

/-- What is true of the accounts and keys after a run, and is a matter of
their worth alone, was true before it or has been brought about by a request. -/
theorem happened_of_became {env : LoginEnv K} {w : LoginWorld K} {Q : AuthDb K → Prop}
    {P : AuthWorld K → ApiRequest → Prop}
    (hworth : ∀ db db', SameAccess db db' → Q db' → Q db)
    (hrequest : ∀ v r db, ApiChange env.toAuthEnv v r db → Q db → ¬ Q v.db → P v r)
    {events : List (ApiEvent K)} (h : Q (Runs.run (apiStep env) w events).auth.db) :
    Q w.auth.db ∨ Happened env w events P := by
  rcases Runs.became (Q := fun v : LoginWorld K => Q v.auth.db) h with
    hbefore | ⟨before, e, after, rfl, hnot, hthen⟩
  · exact .inl hbefore
  · cases e with
    | login e => exact absurd (hworth _ _ (sameAccess_login env _ e) hthen) hnot
    | request r =>
        exact .inr ⟨before, r, after, rfl, hrequest _ r _ (apiChange_serve _ _ r) hthen hnot⟩

/-- **Access has a provenance.** After any run, the role and the flag of
every account are those it has had from the start, or it has registered with
them, or a request that may administrate has set them; every key has been
there from the start, or its owner has created it and had the role that it
carries; and a revoked key has been revoked from the start or by its owner. -/
theorem access_has_provenance (env : LoginEnv K) (w : LoginWorld K) (events : List (ApiEvent K)) :
    let db := (Runs.run (apiStep env) w events).auth.db
    (∀ id role, HasRole id role db → HasRole id role w.auth.db ∨
      Happened env w events (GivesRole env.toAuthEnv id role)) ∧
    (∀ id isActive, HasFlag id isActive db → HasFlag id isActive w.auth.db ∨
      Happened env w events (SetsFlag env.toAuthEnv id isActive)) ∧
    (∀ id userId role, HasKey id userId role db → HasKey id userId role w.auth.db ∨
      Happened env w events (CreatesKey env.toAuthEnv id userId role)) ∧
    ∀ id userId, IsRevoked id userId db → IsRevoked id userId w.auth.db ∨
      Happened env w events (RevokesKey env.toAuthEnv id userId) := by
  refine ⟨fun id role => ?_, fun id isActive => ?_, fun id userId role => ?_, fun id userId => ?_⟩
  · refine happened_of_became (fun db db' h hrole => ?_) fun v r db => givesRole_of_change
    rwa [HasRole, ← h.standings]
  · refine happened_of_became (fun db db' h hflag => ?_) fun v r db => setsFlag_of_change
    rwa [HasFlag, ← h.standings]
  · refine happened_of_became (fun db db' h hkey => ?_) fun v r db => createsKey_of_change
    rwa [HasKey, ← h.keys]
  · refine happened_of_became (fun db db' h hoff => ?_) fun v r db => revokesKey_of_change
    rwa [IsRevoked, ← h.keys]

end

/-! ## A production deployment -/

inductive AppEnv where
  | development
  | staging
  | production
  deriving DecidableEq, Repr

/-- The settings that `validate_runtime` looks at. -/
structure RuntimeSettings where
  appEnv : AppEnv := .development
  appDebug : Bool := true
  masterEncryptionKey : String := ""
  jwtSecretKey : String := ""
  registrationDefaultRole : String := "analyst"
  allowOpenRegistration : Bool := true
  corsOrigins : List String := ["http://localhost:3000"]
  deriving DecidableEq, Repr

namespace RuntimeSettings

/-- What is wrong with a production deployment. -/
def missing (s : RuntimeSettings) : List String :=
  (if s.masterEncryptionKey = "" then ["MASTER_ENCRYPTION_KEY"] else []) ++
    (if s.jwtSecretKey.length < 32 then ["JWT_SECRET_KEY (>= 32 chars)"] else []) ++
    (if s.appDebug then ["APP_DEBUG must be false in production"] else []) ++
    (if s.corsOrigins.contains "*" then ["CORS_ORIGINS must not be '*' in production"] else []) ++
    if s.allowOpenRegistration ∧ s.registrationDefaultRole ≠ "viewer" then
      ["ALLOW_OPEN_REGISTRATION must be false, or REGISTRATION_DEFAULT_ROLE must be 'viewer', " ++
        "in production"]
    else []

/-- `validate_runtime`; the error is the text of the `RuntimeError`. -/
def validateRuntime (s : RuntimeSettings) : Except String Unit :=
  if s.appEnv ≠ .production then pure ()
  else if s.missing ≠ [] then
    throw ("Refusing to start in production with unsafe configuration: " ++
      ", ".intercalate s.missing)
  else pure ()

/-- A production deployment that has started. -/
structure InProduction (s : RuntimeSettings) (env : AuthEnv K) : Prop where
  production : s.appEnv = .production
  valid : s.validateRuntime = .ok ()
  openRegistration : env.allowOpenRegistration = s.allowOpenRegistration
  defaultRole : env.registrationDefaultRole = s.registrationDefaultRole

theorem InProduction.registrationRole {s : RuntimeSettings} {env : AuthEnv K}
    (h : s.InProduction env) (hopen : env.allowOpenRegistration = true) :
    registrationRole env = .viewer := by
  have hmissing : s.missing = [] := by
    have hvalid := h.valid
    rw [validateRuntime, if_neg (not_not.mpr h.production)] at hvalid
    by_contra hne
    rw [if_pos hne] at hvalid
    cases hvalid
  have hrole : s.registrationDefaultRole = "viewer" := by
    rw [missing, List.append_eq_nil_iff] at hmissing
    by_contra hne
    have hboth : s.allowOpenRegistration = true ∧ s.registrationDefaultRole ≠ "viewer" :=
      ⟨h.openRegistration.symm.trans hopen, hne⟩
    rw [if_pos hboth] at hmissing
    cases hmissing.2
  rw [ThreatIntel.registrationRole, h.defaultRole, hrole]
  rfl

end RuntimeSettings

/-! ## Nobody but viewers -/

/-- Every account and every key is a viewer's. -/
structure ReadOnly (db : AuthDb K) : Prop where
  accounts : ∀ s ∈ db.standings, s.role = Role.viewer.value
  keys : ∀ k ∈ db.unusedKeys, k.role = Role.viewer.value

theorem ReadOnly.same {db db' : AuthDb K} (h : ReadOnly db) (hsame : SameAccess db db') :
    ReadOnly db' :=
  ⟨hsame.standings ▸ h.accounts, hsame.keys ▸ h.keys⟩

theorem ReadOnly.user {db : AuthDb K} (h : ReadOnly db) {id : String} {user : User}
    (huser : db.users.get? id = some user) : user.role = Role.viewer.value :=
  h.accounts user.standing (List.mem_map_of_mem (Table.mem_of_get? huser))

variable [Ring K] [LinearOrder K] {env : AuthEnv K}

theorem ReadOnly.principal {v : AuthWorld K} (h : ReadOnly v.db) {c : Credentials}
    {principal : CurrentPrincipal} (hauth : Authenticated env v c principal) :
    principal.role = Role.viewer.value := by
  obtain ⟨w', hrun⟩ := hauth
  obtain ⟨bearer, xApiKey⟩ := c
  cases bearer with
  | some token =>
      obtain ⟨claims, user, -, huser, -, rfl⟩ := accepted_bearer hrun
      exact h.user huser
  | none =>
      obtain ⟨raw, -, k, hk, -, -, -, -, -, rfl⟩ := accepted_key hrun
      exact h.keys k.unused (List.mem_map_of_mem hk)

theorem ReadOnly.not_byAdmin {v : AuthWorld K} (h : ReadOnly v.db) {c : Credentials}
    {principal : CurrentPrincipal} (hauth : Authenticated env v c principal) :
    hasPermission principal.role .adminManage = false := by
  rw [h.principal hauth]
  rfl

/-- Without an administrator every request leaves it at viewers. -/
theorem ReadOnly.change {s : RuntimeSettings} (henv : s.InProduction env) {v : AuthWorld K}
    (h : ReadOnly v.db) {r : ApiRequest} {db : AuthDb K} (hchange : ApiChange env v r db) :
    ReadOnly db := by
  cases hchange with
  | quiet hsame => exact h.same hsame
  | registered hopen hstandings hkeys =>
      refine ⟨?_, hkeys ▸ h.keys⟩
      rw [hstandings, henv.registrationRole hopen]
      exact List.forall_mem_append.mpr ⟨h.accounts, List.forall_mem_singleton.mpr rfl⟩
  | keyCreated hauth howner hid huser hrole hactive hstandings hkeys =>
      refine ⟨hstandings ▸ h.accounts, ?_⟩
      rw [hkeys]
      exact List.forall_mem_append.mpr
        ⟨h.keys, List.forall_mem_singleton.mpr (hrole.trans (h.user howner))⟩
  | keyRevoked hauth howner hstandings hkeys =>
      refine ⟨hstandings ▸ h.accounts, ?_⟩
      rw [hkeys]
      intro k hk
      rcases Table.mem_of_mem_map_ite hk with hk | ⟨k₀, hk₀, -, rfl⟩
      · exact h.keys k hk
      · exact h.keys k₀ hk₀
  | roleSet hauth hadmin hstandings hkeys =>
      exact absurd (hadmin.symm.trans (h.not_byAdmin hauth)) Bool.false_ne_true.symm
  | activeSet hauth hadmin hstandings hkeys =>
      exact absurd (hadmin.symm.trans (h.not_byAdmin hauth)) Bool.false_ne_true.symm

theorem readOnly_step [FloorRing K] {s : RuntimeSettings} {env : LoginEnv K}
    (henv : s.InProduction env.toAuthEnv) (v : LoginWorld K) (e : ApiEvent K)
    (h : ReadOnly v.auth.db) : ReadOnly (apiStep env v e).auth.db := by
  cases e with
  | login e => exact h.same (sameAccess_login env v e)
  | request r => exact h.change henv (apiChange_serve _ _ r)

/-- **There is no self-service path to privilege.** A production deployment
without an administrator has, whatever is requested, nobody but viewers, and
whoever is authenticated, by whatever means, may read and no more. -/
theorem no_self_service [FloorRing K] {s : RuntimeSettings} {env : LoginEnv K}
    (henv : s.InProduction env.toAuthEnv) {w : LoginWorld K} (hw : ReadOnly w.auth.db)
    (events : List (ApiEvent K)) :
    let w' := Runs.run (apiStep env) w events
    ReadOnly w'.auth.db ∧
      ∀ c principal, Authenticated env.toAuthEnv w'.auth c principal →
        ∀ permission, hasPermission principal.role permission = true ↔
          permission = .iocRead ∨ permission = .alertRead := by
  have hrun : ReadOnly (Runs.run (apiStep env) w events).auth.db :=
    Runs.run_preserves (I := fun v : LoginWorld K => ReadOnly v.auth.db) (readOnly_step henv) hw
      events
  refine ⟨hrun, fun c principal hauth permission => ?_⟩
  rw [hrun.principal hauth]
  cases permission <;> decide

def RuntimeSettings.sample : RuntimeSettings where
  appEnv := .production
  appDebug := false
  masterEncryptionKey := "c2VjcmV0"
  jwtSecretKey := "0123456789abcdef0123456789abcdef"
  registrationDefaultRole := "viewer"

/-- A stranger registers, and asks to be made an administrator. -/
def selfPromotion : List (ApiEvent ℤ) :=
  let claims : Payload :=
    { sub := "u1", role := "admin", type := .access, jti := "j1", iat := 0, nbf := 0, exp := 1800 }
  [.request (.register "eve@example.com" "correct horse" "u1" "salt"),
    .request (.setUserRole { bearer := some (.signed claims) } "u1" .admin)]

theorem no_self_service_stranger :
    (Runs.run (apiStep { LoginEnv.sample with allowOpenRegistration := true })
        (.sample .empty 5) selfPromotion).auth.db.standings = [⟨"u1", "viewer", true⟩] ∧
      ReadOnly (Runs.run (apiStep { LoginEnv.sample with allowOpenRegistration := true })
        (.sample .empty 5) selfPromotion).auth.db := by
  have henv : RuntimeSettings.sample.InProduction
      { LoginEnv.sample.toAuthEnv with allowOpenRegistration := true } :=
    ⟨rfl, rfl, rfl, rfl⟩
  have hempty : ReadOnly (LoginWorld.sample .empty 5).auth.db :=
    ⟨List.forall_mem_nil _, List.forall_mem_nil _⟩
  exact ⟨by decide, (no_self_service henv hempty selfPromotion).1⟩

end ThreatIntel
