import ThreatIntel.Auth

/-!
# What the operations do to the database

Each operation of the service is said once what it does to the users and
the API keys; the proofs about runs cite these lemmas and never unfold
an operation.

The two administrative operations get an equation, guard included
(`db_setUserRole`, `db_setUserActive`): whether one of them takes effect
is what their callers need to know. The others get a case analysis
(`DbChange`): a row is added, an attribute of a key is assigned, or
nothing happens. What an operation does not touch is said by the frame
lemmas.
-/

namespace ThreatIntel

open Routine

section

variable {K : Type}

namespace AuthWorld

/-- What is true of the database before an operation and of the one it
leaves when it succeeds is true of what its unit of work leaves. -/
theorem db_unitOfWork {α : Type} {x : AuthRoutine K α} {w : AuthWorld K}
    {P : AuthDb K → Prop} (hsame : P w.db) (hok : ∀ a w', run x w = (.ok a, w') → P w'.db) :
    P (unitOfWork x w).db := by
  rcases hx : run x w with ⟨e | a, w'⟩
  · rw [unitOfWork, atomically_error hx]
    exact hsame
  · rw [unitOfWork, atomically_ok hx]
    exact hok a w' hx

end AuthWorld

/-! ## Frames

An invariant that does not look at the revocation store, at the audit
rows or at the database is kept by every routine that writes nothing
else. -/

section Frames

variable {I : AuthWorld K → Prop}

def IgnoresStore (I : AuthWorld K → Prop) : Prop :=
  ∀ w st, I w → I { w with tokenStore := st }

def IgnoresDb (I : AuthWorld K → Prop) : Prop := ∀ w db, I w → I { w with db := db }

def IgnoresLogs (I : AuthWorld K → Prop) : Prop :=
  ∀ w logs, I w → I { w with db := { w.db with auditLogs := logs } }

/-- A unit of work keeps such an invariant too, rolled back or not. -/
theorem unitOfWork_keeps {α : Type} {x : AuthRoutine K α} (hd : IgnoresDb I) (hx : Keeps I x)
    {w : AuthWorld K} (h : I w) : I (AuthWorld.unitOfWork x w) :=
  (hx.atomically fun _ w' _ hw' => hd w' _ hw') w h

theorem IgnoresDb.logs (h : IgnoresDb I) : IgnoresLogs I := fun w _ hw => h w _ hw

namespace AuthService

theorem keeps_record (hl : IgnoresLogs I) (action : String) (userId : Option String)
    (ip : Option String) (detail : List (String × Detail)) :
    Keeps I (AuditRepository.record action userId ip detail) :=
  (keeps_gets _ _).bind fun _ => (keeps_raiseIf _ _ _).bind fun _ =>
    keeps_update fun w hw => hl w _ hw

theorem keeps_getUser (userId : String) : Keeps I (getUser userId) := by
  refine (keeps_gets _ _).bind fun user => ?_
  split
  · exact keeps_pure _ _
  · exact keeps_raise _ _

theorem keeps_register (hd : IgnoresDb I) (env : AuthEnv K) (email password : String)
    (role : Option Role) (id salt : String) :
    Keeps I (register env email password role id salt) := by
  refine (keeps_raiseIf _ _ _).bind fun _ => (keeps_gets _ _).bind fun _ =>
    (keeps_raiseIf _ _ _).bind fun _ => Keeps.bind ?_ fun _ =>
    (keeps_record hd.logs _ _ _ _).bind fun _ => keeps_pure _ _
  exact (keeps_gets _ _).bind fun _ => (keeps_raiseIf _ _ _).bind fun _ =>
    keeps_update fun w hw => hd w _ hw

theorem keeps_setUserRole (hd : IgnoresDb I) (actorId userId : String) (role : Role) :
    Keeps I (setUserRole actorId userId role) :=
  (keeps_getUser userId).bind fun _ => (keeps_raiseIf _ _ _).bind fun _ =>
    (keeps_gets _ _).bind fun _ => (keeps_raiseIf _ _ _).bind fun _ =>
    (keeps_update fun w hw => hd w _ hw).bind fun _ =>
    (keeps_record hd.logs _ _ _ _).bind fun _ => keeps_pure _ _

theorem keeps_setUserActive (hd : IgnoresDb I) (actorId userId : String) (isActive : Bool) :
    Keeps I (setUserActive actorId userId isActive) :=
  (keeps_getUser userId).bind fun _ => (keeps_raiseIf _ _ _).bind fun _ =>
    (keeps_gets _ _).bind fun _ => (keeps_raiseIf _ _ _).bind fun _ =>
    (keeps_update fun w hw => hd w _ hw).bind fun _ =>
    (keeps_record hd.logs _ _ _ _).bind fun _ => keeps_pure _ _

theorem keeps_createApiKey (hd : IgnoresDb I) (env : AuthEnv K) (userId name id secret : String) :
    Keeps I (createApiKey env userId name id secret) := by
  refine (keeps_getUser userId).bind fun _ => Keeps.bind ?_ fun _ =>
    (keeps_record hd.logs _ _ _ _).bind fun _ => keeps_pure _ _
  exact (keeps_gets _ _).bind fun _ => (keeps_raiseIf _ _ _).bind fun _ =>
    keeps_update fun w hw => hd w _ hw

theorem keeps_revokeApiKey (hd : IgnoresDb I) (userId keyId : String) :
    Keeps I (revokeApiKey userId keyId) := by
  refine (keeps_gets _ _).bind fun record => ?_
  split
  · exact keeps_raise _ _
  · exact (keeps_update fun w hw => hd w _ hw).bind fun _ => keeps_record hd.logs _ _ _ _

theorem keeps_resolveApiKey (hd : IgnoresDb I) (env : AuthEnv K) (rawKey : String) :
    Keeps I (resolveApiKey env rawKey) := by
  refine (keeps_gets _ _).bind fun record => ?_
  split
  · exact keeps_raise _ _
  · refine (keeps_gets _ _).bind fun owner => ?_
    split
    · exact keeps_raise _ _
    · exact (keeps_gets _ _).bind fun _ => (keeps_update fun w hw => hd w _ hw).bind fun _ =>
        keeps_pure _ _

variable [Ring K] [LinearOrder K]

theorem keeps_decode (token : Token) (type : TokenType) : Keeps I (decode token type) := by
  refine (keeps_gets _ _).bind fun now => ?_
  split
  · exact keeps_pure _ _
  · exact keeps_raise _ _

theorem keeps_isRevoked (hs : IgnoresStore I) (jti : String) : Keeps I (isRevoked jti) :=
  keeps_modifyGet fun w hw => hs w _ hw

theorem keeps_bearer (hs : IgnoresStore I) (env : AuthEnv K) (token : Token)
    (xApiKey : Option String) : Keeps I (getCurrentPrincipal env (some token) xApiKey) := by
  refine (keeps_decode token .access).bind fun claims => ?_
  refine (keeps_isRevoked hs claims.jti).bind fun revoked => ?_
  refine (keeps_raiseIf _ _ _).bind fun _ => (keeps_gets _ _).bind fun user => ?_
  split
  · exact keeps_raise _ _
  · exact (keeps_raiseIf _ _ _).bind fun _ => keeps_pure _ _

theorem keeps_keyed (hd : IgnoresDb I) (env : AuthEnv K) (xApiKey : Option String) :
    Keeps I (getCurrentPrincipal env none xApiKey) := by
  unfold getCurrentPrincipal
  split
  · next heq => cases heq
  · exact (keeps_resolveApiKey hd env _).bind fun _ => keeps_pure _ _
  · exact keeps_raise _ _

variable [FloorRing K]

theorem keeps_revoke (hs : IgnoresStore I) (claims : TokenClaims K) : Keeps I (revoke claims) :=
  keeps_update fun w hw => hs w _ hw

theorem keeps_refresh (hs : IgnoresStore I) (env : AuthEnv K) (token : Token)
    (jtis : String × String) : Keeps I (refresh env token jtis) := by
  refine (keeps_decode token .refresh).bind fun claims => ?_
  refine (keeps_isRevoked hs claims.jti).bind fun revoked => ?_
  refine (keeps_raiseIf _ _ _).bind fun _ => (keeps_gets _ _).bind fun user => ?_
  split
  · exact keeps_raise _ _
  · exact (keeps_revoke hs claims).bind fun _ => (keeps_gets _ _).bind fun _ => keeps_pure _ _

theorem keeps_logout (hs : IgnoresStore I) (hl : IgnoresLogs I) (token : Token)
    (access : Option Token) : Keeps I (logout token access) := by
  refine (keeps_gets _ _).bind fun now => Keeps.bind ?_ fun _ => ?_
  · cases TokenService.decode now (some .refresh) token with
    | ok claims => exact (keeps_revoke hs claims).bind fun _ => keeps_record hl _ _ _ _
    | error e => exact keeps_pure _ _
  · rcases access.map (TokenService.decode now (some .access)) with _ | _ | acc
    · exact keeps_pure _ _
    · exact keeps_pure _ _
    · exact keeps_revoke hs acc

end AuthService

end Frames

/-! ## The administrative operations -/

namespace AuthDb

/-- `count_active_with_role(Role.admin.value)`. -/
def activeAdmins (db : AuthDb K) : Nat :=
  db.users.rows.countP fun u => u.role = Role.admin.value && u.isActive

/-- Whether a role change passes its checks: the target exists, the actor
does not demote themselves, the last active admin is not demoted, and
the audit row can name the actor. -/
def roleChangeTakes (db : AuthDb K) (actorId userId : String) (role : Role) : Bool :=
  (db.users.get? userId).any (fun user =>
    !(user.id = actorId && role ≠ .admin) &&
      !(user.role = Role.admin.value && role ≠ .admin && db.activeAdmins ≤ 1)) &&
    db.users.hasKey actorId

/-- The same for a change of the active flag. -/
def activeChangeTakes (db : AuthDb K) (actorId userId : String) (isActive : Bool) : Bool :=
  (db.users.get? userId).any (fun user =>
    !(user.id = actorId && !isActive) &&
      !(!isActive && user.role = Role.admin.value && db.activeAdmins ≤ 1)) &&
    db.users.hasKey actorId

end AuthDb

namespace AuthService

theorem run_getUser (userId : String) (w : AuthWorld K) :
    run (getUser userId) w =
      match w.db.users.get? userId with
      | some user => (.ok user, w)
      | none => (.error (.app (.raise .notFound "User not found.")), w) := by
  simp only [getUser, UserRepository.get, run_bind_gets]
  cases w.db.users.get? userId <;> rfl

theorem run_countAdmins_bind {α : Type} (f : Nat → AuthRoutine K α) (w : AuthWorld K) :
    run (UserRepository.countActiveWithRole Role.admin.value >>= f) w =
      run (f w.db.activeAdmins) w := rfl

/-- `set_user_role` succeeds exactly if its checks pass, and then assigns
the role and writes one audit row. -/
theorem run_setUserRole (actorId userId : String) (role : Role) (w : AuthWorld K) :
    (w.db.roleChangeTakes actorId userId role = true ∧ ∃ user,
      run (setUserRole actorId userId role) w = (.ok user, { w with db := { w.db with
        users := w.db.users.modify userId (fun u => { u with role := role.value }) fun _ => rfl
        auditLogs := w.db.auditLogs ++ [⟨"user.role_change", some actorId, none,
          [("target", .str userId), ("role", .str role.value)]⟩] } })) ∨
    (w.db.roleChangeTakes actorId userId role = false ∧
      ∃ e w', run (setUserRole actorId userId role) w = (.error e, w')) := by
  cases hu : w.db.users.get? userId with
  | none =>
      have hget : run (getUser userId) w =
          (.error (.app (.raise .notFound "User not found.")), w) := by rw [run_getUser, hu]
      exact Or.inr ⟨by simp [AuthDb.roleChangeTakes, hu], _, _, run_bind_error hget _⟩
  | some user =>
      have hget : run (getUser userId) w = (.ok user, w) := by rw [run_getUser, hu]
      obtain rfl : user.id = userId := Table.key_of_get? hu
      rw [setUserRole, run_bind_ok hget]
      simp only [run_countAdmins_bind, UserRepository.modify, AuditRepository.record,
        run_bind_assoc, run_bind_raiseIf, run_bind_gets, run_bind_update, run_pure,
        AuthDb.roleChangeTakes, hu, Option.any_some, Option.all_some, Table.hasKey_modify]
      generalize (decide (user.id = actorId) && decide (role ≠ Role.admin)) = self
      generalize (decide (user.role = Role.admin.value) && decide (role ≠ Role.admin) &&
        decide (w.db.activeAdmins ≤ 1)) = last
      cases self with
      | true => exact Or.inr ⟨rfl, _, _, rfl⟩
      | false =>
          cases last with
          | true => exact Or.inr ⟨rfl, _, _, rfl⟩
          | false =>
              cases w.db.users.hasKey actorId with
              | false => exact Or.inr ⟨rfl, _, _, rfl⟩
              | true => exact Or.inl ⟨rfl, _, rfl⟩

/-- `set_user_active` likewise. -/
theorem run_setUserActive (actorId userId : String) (isActive : Bool) (w : AuthWorld K) :
    (w.db.activeChangeTakes actorId userId isActive = true ∧ ∃ user,
      run (setUserActive actorId userId isActive) w = (.ok user, { w with db := { w.db with
        users := w.db.users.modify userId (fun u => { u with isActive := isActive }) fun _ => rfl
        auditLogs := w.db.auditLogs ++ [⟨if isActive then "user.activate" else "user.deactivate",
          some actorId, none, [("target", .str userId)]⟩] } })) ∨
    (w.db.activeChangeTakes actorId userId isActive = false ∧
      ∃ e w', run (setUserActive actorId userId isActive) w = (.error e, w')) := by
  cases hu : w.db.users.get? userId with
  | none =>
      have hget : run (getUser userId) w =
          (.error (.app (.raise .notFound "User not found.")), w) := by rw [run_getUser, hu]
      exact Or.inr ⟨by simp [AuthDb.activeChangeTakes, hu], _, _, run_bind_error hget _⟩
  | some user =>
      have hget : run (getUser userId) w = (.ok user, w) := by rw [run_getUser, hu]
      obtain rfl : user.id = userId := Table.key_of_get? hu
      rw [setUserActive, run_bind_ok hget]
      simp only [run_countAdmins_bind, UserRepository.modify, AuditRepository.record,
        run_bind_assoc, run_bind_raiseIf, run_bind_gets, run_bind_update, run_pure,
        AuthDb.activeChangeTakes, hu, Option.any_some, Option.all_some, Table.hasKey_modify]
      generalize (decide (user.id = actorId) && !isActive) = self
      generalize (!isActive && decide (user.role = Role.admin.value) &&
        decide (w.db.activeAdmins ≤ 1)) = last
      cases self with
      | true => exact Or.inr ⟨rfl, _, _, rfl⟩
      | false =>
          cases last with
          | true => exact Or.inr ⟨rfl, _, _, rfl⟩
          | false =>
              cases w.db.users.hasKey actorId with
              | false => exact Or.inr ⟨rfl, _, _, rfl⟩
              | true => exact Or.inl ⟨rfl, _, rfl⟩

end AuthService

namespace AuthWorld

theorem db_setUserRole (actorId userId : String) (role : Role) (w : AuthWorld K) :
    (w.db.roleChangeTakes actorId userId role = true ∧ ∃ logs,
      (unitOfWork (AuthService.setUserRole actorId userId role) w).db = { w.db with
        users := w.db.users.modify userId (fun u => { u with role := role.value }) fun _ => rfl
        auditLogs := logs }) ∨
    (w.db.roleChangeTakes actorId userId role = false ∧
      (unitOfWork (AuthService.setUserRole actorId userId role) w).db = w.db) := by
  rcases AuthService.run_setUserRole actorId userId role w with ⟨ht, user, hok⟩ | ⟨hf, e, w', herr⟩
  · exact Or.inl ⟨ht, _, by rw [unitOfWork, atomically_ok hok]⟩
  · exact Or.inr ⟨hf, by rw [unitOfWork, atomically_error herr, rollback]⟩

theorem db_setUserActive (actorId userId : String) (isActive : Bool) (w : AuthWorld K) :
    (w.db.activeChangeTakes actorId userId isActive = true ∧ ∃ logs,
      (unitOfWork (AuthService.setUserActive actorId userId isActive) w).db = { w.db with
        users := w.db.users.modify userId (fun u => { u with isActive := isActive }) fun _ => rfl
        auditLogs := logs }) ∨
    (w.db.activeChangeTakes actorId userId isActive = false ∧
      (unitOfWork (AuthService.setUserActive actorId userId isActive) w).db = w.db) := by
  rcases AuthService.run_setUserActive actorId userId isActive w with
    ⟨ht, user, hok⟩ | ⟨hf, e, w', herr⟩
  · exact Or.inl ⟨ht, _, by rw [unitOfWork, atomically_ok hok]⟩
  · exact Or.inr ⟨hf, by rw [unitOfWork, atomically_error herr, rollback]⟩

end AuthWorld

/-! ## The other operations -/

/-- What an operation other than the two above can do to the database:
write audit rows, and besides that add an account, add a key with the
owner's role, or touch a key without waking it up. -/
inductive DbChange (env : AuthEnv K) (db : AuthDb K) : AuthDb K → Prop where
  | log (logs : List AuditLog) : DbChange env db { db with auditLogs := logs }
  | newUser (user : User) (logs : List AuditLog) (hid : db.users.hasKey user.id = false) :
      DbChange env db { db with users := db.users.insert user, auditLogs := logs }
  | newKey (k : ApiKey K) (owner : User) (raw : String) (logs : List AuditLog)
      (hid : db.apiKeys.hasKey k.id = false)
      (hhash : ∀ k' ∈ db.apiKeys.rows, k'.keyHash ≠ k.keyHash)
      (howner : db.users.get? k.userId = some owner) (hrole : k.role = owner.role)
      (hraw : raw ≠ "") (hkey : hashApiKey env raw = k.keyHash) :
      DbChange env db { db with apiKeys := db.apiKeys.insert k, auditLogs := logs }
  | touchKey (id : String) (f : ApiKey K → ApiKey K) (hf : ∀ k, (f k).id = k.id)
      (logs : List AuditLog) (huser : ∀ k, (f k).userId = k.userId)
      (hrole : ∀ k, (f k).role = k.role) (hhash : ∀ k, (f k).keyHash = k.keyHash)
      (hactive : ∀ k, (f k).isActive = true → k.isActive = true) :
      DbChange env db { db with apiKeys := db.apiKeys.modify id f hf, auditLogs := logs }

namespace AuthWorld

theorem dbChange_refl (env : AuthEnv K) (db : AuthDb K) : DbChange env db db :=
  .log db.auditLogs

theorem dbChange_register (env : AuthEnv K) (email password : String) (role : Option Role)
    (id salt : String) (w : AuthWorld K) :
    DbChange env w.db (unitOfWork (AuthService.register env email password role id salt) w).db := by
  refine db_unitOfWork (dbChange_refl env w.db) fun user w' h => ?_
  simp only [AuthService.register, UserRepository.emailExists, UserRepository.add,
    AuditRepository.record, run_bind_assoc, run_bind_raiseIf, run_bind_gets, run_bind_update,
    run_pure] at h
  split at h
  · cases h
  · split at h
    · cases h
    · split at h
      · cases h
      · next htaken =>
          split at h
          · cases h
          · obtain ⟨-, rfl⟩ := Prod.mk.inj h
            refine .newUser _ _ ?_
            simp only [Bool.or_eq_true, not_or, Bool.not_eq_true] at htaken
            exact htaken.1

theorem dbChange_createApiKey (env : AuthEnv K) (userId name id secret : String)
    (w : AuthWorld K) :
    DbChange env w.db (unitOfWork (AuthService.createApiKey env userId name id secret) w).db := by
  refine db_unitOfWork (dbChange_refl env w.db) fun key w' h => ?_
  cases hu : w.db.users.get? userId with
  | none =>
      have hget : run (AuthService.getUser userId) w =
          (.error (.app (.raise .notFound "User not found.")), w) := by
        rw [AuthService.run_getUser, hu]
      rw [AuthService.createApiKey, run_bind_error hget] at h
      cases h
  | some user =>
      have hget : run (AuthService.getUser userId) w = (.ok user, w) := by
        rw [AuthService.run_getUser, hu]
      obtain rfl : user.id = userId := Table.key_of_get? hu
      rw [AuthService.createApiKey, run_bind_ok hget] at h
      simp only [ApiKeyRepository.add, AuditRepository.record, run_bind_assoc, run_bind_raiseIf,
        run_bind_gets, run_bind_update, run_pure] at h
      split at h
      · cases h
      · next htaken =>
          split at h
          · cases h
          · obtain ⟨-, rfl⟩ := Prod.mk.inj h
            simp only [Bool.or_eq_true, not_or, Bool.not_eq_true, List.any_eq_false,
              decide_eq_true_eq] at htaken
            exact .newKey _ user ("tip_" ++ secret) _ htaken.1 htaken.2 hu rfl (by simp) rfl

theorem dbChange_revokeApiKey (env : AuthEnv K) (userId keyId : String) (w : AuthWorld K) :
    DbChange env w.db (unitOfWork (AuthService.revokeApiKey userId keyId) w).db := by
  refine db_unitOfWork (dbChange_refl env w.db) fun _ w' h => ?_
  simp only [AuthService.revokeApiKey, ApiKeyRepository.getForUser, ApiKeyRepository.modify,
    run_bind_gets] at h
  split at h
  · cases h
  · simp only [AuditRepository.record, run_bind_raiseIf, run_bind_gets, run_bind_update,
      run_update] at h
    split at h
    · cases h
    · obtain ⟨-, rfl⟩ := Prod.mk.inj h
      exact .touchKey _ _ _ _ (fun _ => rfl) (fun _ => rfl) (fun _ => rfl) (by simp)

/-- The accounts are those of `db`: all that signing out, refreshing and
presenting a bearer token leave behind. -/
def SameAccounts (db : AuthDb K) (w : AuthWorld K) : Prop :=
  w.db.users = db.users ∧ w.db.apiKeys = db.apiKeys

theorem dbChange_of_keeps {α : Type} (env : AuthEnv K) {x : AuthRoutine K α} {w : AuthWorld K}
    (hx : Keeps (SameAccounts w.db) x) : DbChange env w.db (unitOfWork x w).db := by
  refine db_unitOfWork (dbChange_refl env w.db) fun a w' h => ?_
  have hsame : SameAccounts w.db w' := by
    have := hx w ⟨rfl, rfl⟩
    rwa [h] at this
  obtain ⟨husers, hkeys⟩ := hsame
  have hdb : w'.db = { w.db with auditLogs := w'.db.auditLogs } :=
    congrArg₂ (fun us ks => { users := us, apiKeys := ks, auditLogs := w'.db.auditLogs : AuthDb K })
      husers hkeys
  rw [hdb]
  exact .log _

variable [Ring K] [LinearOrder K]

theorem dbChange_request (env : AuthEnv K) (credentials : Option Token) (xApiKey : Option String)
    (w : AuthWorld K) :
    DbChange env w.db (unitOfWork (getCurrentPrincipal env credentials xApiKey) w).db := by
  cases credentials with
  | some token => exact dbChange_of_keeps env (AuthService.keeps_bearer (fun _ _ h => h) env token xApiKey)
  | none =>
      refine db_unitOfWork (dbChange_refl env w.db) fun principal w' h => ?_
      unfold getCurrentPrincipal at h
      split at h
      · next heq => cases heq
      · next raw =>
          obtain ⟨key, w₁, hkey, hret⟩ := run_bind_eq_ok.mp h
          obtain ⟨-, rfl⟩ := Prod.mk.inj hret
          simp only [AuthService.resolveApiKey, ApiKeyRepository.getByHash, run_bind_gets] at hkey
          split at hkey
          · cases hkey
          · simp only [UserRepository.get, ApiKeyRepository.modify, run_bind_gets] at hkey
            split at hkey
            · cases hkey
            · simp only [run_bind_gets, run_bind_update, run_pure] at hkey
              obtain ⟨-, rfl⟩ := Prod.mk.inj hkey
              exact .touchKey _ _ _ _ (fun _ => rfl) (fun _ => rfl) (fun _ => rfl) fun _ h => h
      · cases h

variable [FloorRing K]

/-- Every event but the two administrative ones. -/
theorem dbChange_step (env : AuthEnv K) (w : AuthWorld K) (e : AuthEvent K)
    (hrole : ∀ a u r, e ≠ .setUserRole a u r) (hactive : ∀ a u b, e ≠ .setUserActive a u b) :
    DbChange env w.db (step env w e).db := by
  cases e with
  | advance t => exact dbChange_refl env w.db
  | register email password role id salt =>
      exact dbChange_register env email password role id salt w
  | setUserRole a u r => exact absurd rfl (hrole a u r)
  | setUserActive a u b => exact absurd rfl (hactive a u b)
  | createApiKey userId name id secret => exact dbChange_createApiKey env userId name id secret w
  | revokeApiKey userId keyId => exact dbChange_revokeApiKey env userId keyId w
  | refresh token jtis => exact dbChange_of_keeps env (AuthService.keeps_refresh (fun _ _ h => h) env token jtis)
  | logout token access =>
      exact dbChange_of_keeps env
        (AuthService.keeps_logout (fun _ _ h => h) (fun _ _ h => h) token access)
  | request credentials xApiKey => exact dbChange_request env credentials xApiKey w

end AuthWorld

/-! ## Accepted credentials -/

section Accepted

variable {K : Type} [Ring K] [LinearOrder K] {env : AuthEnv K} {w w' : AuthWorld K}

/-- A token that is decoded, and what is read off it. -/
theorem AuthService.decode_ok {token : Token} {type : TokenType} {claims : TokenClaims K}
    (h : run (AuthService.decode token type) w = (.ok claims, w')) :
    TokenService.decode w.now (some type) token = .ok claims ∧ w' = w := by
  simp only [AuthService.decode, run_bind_gets] at h
  split at h
  · next c hc =>
      obtain ⟨hres, rfl⟩ := Prod.mk.inj h
      exact ⟨by rw [hc, Except.ok.inj hres], rfl⟩
  · cases h

/-- An accepted bearer token is one of an active account. -/
theorem accepted_bearer {token : Token} {xApiKey : Option String} {principal : CurrentPrincipal}
    (h : run (getCurrentPrincipal env (some token) xApiKey) w = (.ok principal, w')) :
    ∃ claims user, TokenService.decode w.now (some .access) token = .ok claims ∧
      w.db.users.get? claims.subject = some user ∧ user.isActive = true ∧
        principal = { id := user.id, role := user.role, kind := .user } := by
  obtain ⟨claims, w₁, hdec, hrest⟩ := run_bind_eq_ok.mp h
  obtain ⟨hclaims, rfl⟩ := AuthService.decode_ok hdec
  simp only [AuthService.isRevoked, UserRepository.get, run_bind_modifyGet, run_bind_raiseIf,
    run_bind_gets] at hrest
  split at hrest
  · cases hrest
  · split at hrest
    · cases hrest
    · next user huser =>
        rw [run_bind_raiseIf] at hrest
        split at hrest
        · cases hrest
        · next hactive =>
            obtain ⟨hp, -⟩ := Prod.mk.inj hrest
            exact ⟨claims, user, hclaims, huser, by simpa using hactive, (Except.ok.inj hp).symm⟩

/-- An accepted API key is an active one of an active account, and yields
the role in the key's row. -/
theorem accepted_key {xApiKey : Option String} {principal : CurrentPrincipal}
    (h : run (getCurrentPrincipal env none xApiKey) w = (.ok principal, w')) :
    ∃ raw, xApiKey = some raw ∧
      ∃ k ∈ w.db.apiKeys.rows, k.keyHash = hashApiKey env raw ∧ k.isActive = true ∧
        ∃ user, w.db.users.get? k.userId = some user ∧ user.isActive = true ∧
          principal = { id := k.userId, role := k.role, kind := .apiKey } := by
  unfold getCurrentPrincipal at h
  split at h
  · next heq => cases heq
  · next raw _ hraw =>
      obtain ⟨key, w₁, hkey, hret⟩ := run_bind_eq_ok.mp h
      obtain ⟨hp, -⟩ := Prod.mk.inj hret
      obtain rfl := Except.ok.inj hp
      simp only [AuthService.resolveApiKey, ApiKeyRepository.getByHash, run_bind_gets] at hkey
      split at hkey
      · cases hkey
      · next record hrec =>
          obtain ⟨hfind, hact⟩ := Option.filter_eq_some_iff.mp hrec
          have hhash := List.find?_some hfind
          simp only [Bool.and_eq_true, decide_eq_true_eq] at hhash
          simp only [UserRepository.get, ApiKeyRepository.modify, run_bind_gets] at hkey
          split at hkey
          · cases hkey
          · next owner howner =>
              obtain ⟨hget, hoa⟩ := Option.filter_eq_some_iff.mp howner
              simp only [run_bind_gets, run_bind_update, run_pure] at hkey
              obtain ⟨hk, -⟩ := Prod.mk.inj hkey
              obtain rfl := Except.ok.inj hk
              exact ⟨raw, (Option.filter_eq_some_iff.mp hraw).1, record,
                List.mem_of_find?_eq_some hfind, hhash.1, hact, owner, hget, hoa, rfl⟩
  · cases h

/-- A refresh token that is redeemed is one of an active account. -/
theorem redeemed_refresh [FloorRing K] {token : Token} {jtis : String × String} {pair : TokenPair}
    (h : run (AuthService.refresh env token jtis) w = (.ok pair, w')) :
    ∃ claims user, TokenService.decode w.now (some .refresh) token = .ok claims ∧
      w.db.users.get? claims.subject = some user ∧ user.isActive = true := by
  obtain ⟨claims, w₁, hdec, hrest⟩ := run_bind_eq_ok.mp h
  obtain ⟨hclaims, rfl⟩ := AuthService.decode_ok hdec
  simp only [AuthService.isRevoked, UserRepository.get, run_bind_modifyGet, run_bind_raiseIf,
    run_bind_gets] at hrest
  split at hrest
  · cases hrest
  · split at hrest
    · cases hrest
    · next user huser =>
        obtain ⟨hget, hactive⟩ := Option.filter_eq_some_iff.mp huser
        exact ⟨claims, user, hclaims, hget, hactive⟩

end Accepted

end

end ThreatIntel
