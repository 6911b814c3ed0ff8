import ThreatIntel.AuthSpec

/-!
# Role currency

A principal's role should be the one in the owner's row of the users
table, whatever credential the request came with. The bearer path reads
the row. The API-key path returns the role stored in the key's own row,
a copy made when the key was created; nothing updates it.

So the copies are current as long as nobody changes the original behind
their back. `RoleSafe` is the exact condition: a role change leaves every
active key of an active account with the new role, and a re-activation
brings back only keys that agree with the account. `roleCurrent_iff`
says so for whole runs.
-/

namespace ThreatIntel

open Routine

section

variable {K : Type}

/-! ## The condition -/

/-- The account's active keys all carry `role`. -/
def KeysCarry (db : AuthDb K) (userId role : String) : Prop :=
  ∀ k ∈ db.apiKeys.rows, k.isActive = true → k.userId = userId → k.role = role

/-- The condition on a step. -/
def RoleSafe (w : AuthWorld K) : AuthEvent K → Prop
  | .setUserRole actorId userId role =>
      w.db.roleChangeTakes actorId userId role = true →
        ∀ user, w.db.users.get? userId = some user → user.isActive = true →
          KeysCarry w.db userId role.value
  | .setUserActive actorId userId true =>
      w.db.activeChangeTakes actorId userId true = true →
        ∀ user, w.db.users.get? userId = some user → KeysCarry w.db userId user.role
  | _ => True

/-- The copies agree with the originals: an active key of an active
account carries the account's role. -/
def KeysCurrent (db : AuthDb K) : Prop :=
  ∀ k ∈ db.apiKeys.rows, k.isActive = true → ∀ user, db.users.get? k.userId = some user →
    user.isActive = true → k.role = user.role

/-- What the operations maintain whatever happens to roles: a key has an
owner, is found by its hash, and has a raw key that hashes to it. -/
structure KeysSound (env : AuthEnv K) (db : AuthDb K) : Prop where
  owner : ∀ k ∈ db.apiKeys.rows, db.users.hasKey k.userId = true
  unique : ∀ k ∈ db.apiKeys.rows, ∀ k' ∈ db.apiKeys.rows, k.keyHash = k'.keyHash → k = k'
  raw : ∀ k ∈ db.apiKeys.rows, ∃ raw, raw ≠ "" ∧ hashApiKey env raw = k.keyHash

/-! ## What the steps preserve -/

theorem KeysSound.change {env : AuthEnv K} {db db' : AuthDb K} (h : KeysSound env db)
    (hc : DbChange env db db') : KeysSound env db' := by
  cases hc with
  | log logs => exact ⟨h.owner, h.unique, h.raw⟩
  | newUser user logs hid =>
      exact ⟨fun k hk => Table.hasKey_insert_of_hasKey (h.owner k hk), h.unique, h.raw⟩
  | newKey k owner raw logs hid hhash howner hrole hraw hkey =>
      have hrows := Table.rows_insert hid
      refine ⟨?_, ?_, ?_⟩
      · intro k' hk'
        simp only [hrows, List.mem_append, List.mem_singleton] at hk'
        rcases hk' with hk' | rfl
        · exact h.owner k' hk'
        · exact Table.hasKey_of_get? howner
      · intro k₁ h₁ k₂ h₂ heq
        simp only [hrows, List.mem_append, List.mem_singleton] at h₁ h₂
        rcases h₁ with h₁ | rfl <;> rcases h₂ with h₂ | rfl
        · exact h.unique k₁ h₁ k₂ h₂ heq
        · exact absurd heq (hhash k₁ h₁)
        · exact absurd heq.symm (hhash k₂ h₂)
        · rfl
      · intro k' hk'
        simp only [hrows, List.mem_append, List.mem_singleton] at hk'
        rcases hk' with hk' | rfl
        · exact h.raw k' hk'
        · exact ⟨raw, hraw, hkey⟩
  | touchKey id f hf logs huser hrole hhash hactive =>
      have hsame : ∀ k₀ : ApiKey K, (if k₀.id = id then f k₀ else k₀).keyHash = k₀.keyHash := by
        intro k₀
        split
        · exact hhash k₀
        · rfl
      refine ⟨?_, ?_, ?_⟩
      · intro k hk
        obtain ⟨k₀, hk₀, rfl⟩ := (Table.mem_rows_modify _ _ _ hf k).mp hk
        have howner := h.owner k₀ hk₀
        split
        · rwa [huser]
        · exact howner
      · intro k₁ h₁ k₂ h₂ heq
        obtain ⟨k₁, hk₁, rfl⟩ := (Table.mem_rows_modify _ _ _ hf k₁).mp h₁
        obtain ⟨k₂, hk₂, rfl⟩ := (Table.mem_rows_modify _ _ _ hf k₂).mp h₂
        rw [hsame, hsame] at heq
        rw [h.unique k₁ hk₁ k₂ hk₂ heq]
      · intro k hk
        obtain ⟨k₀, hk₀, rfl⟩ := (Table.mem_rows_modify _ _ _ hf k).mp hk
        rw [hsame]
        exact h.raw k₀ hk₀

theorem KeysCurrent.change {env : AuthEnv K} {db db' : AuthDb K} (hs : KeysSound env db)
    (h : KeysCurrent db) (hc : DbChange env db db') : KeysCurrent db' := by
  cases hc with
  | log logs => exact h
  | newUser user logs hid =>
      intro k hk hact owner howner
      rw [Table.get?_insert hid] at howner
      split at howner
      · next heq =>
          -- a key of the new account would have been there before its owner
          have hthere := hs.owner k hk
          rw [← heq, hid] at hthere
          cases hthere
      · exact h k hk hact owner howner
  | newKey k owner raw logs hid hhash howner hrole hraw hkey =>
      intro k' hk' hact user huser _
      simp only [Table.rows_insert hid, List.mem_append, List.mem_singleton] at hk'
      rcases hk' with hk' | rfl
      · exact h k' hk' hact user huser ‹_›
      · have heq : owner = user := Option.some.inj (howner.symm.trans huser)
        rw [hrole, heq]
  | touchKey id f hf logs huser hrole hhash hactive =>
      intro k hk hact user hu hua
      obtain ⟨k₀, hk₀, rfl⟩ := (Table.mem_rows_modify _ _ _ hf k).mp hk
      split at hact
      · next heq =>
          rw [if_pos heq] at hu ⊢
          rw [hrole]
          exact h k₀ hk₀ (hactive k₀ hact) user (by rwa [huser] at hu) hua
      · next hne =>
          rw [if_neg hne] at hu ⊢
          exact h k₀ hk₀ hact user hu hua

/-! The administrative operations change one user row, of a known id. -/

theorem KeysSound.modifyUser {env : AuthEnv K} {db : AuthDb K} (h : KeysSound env db)
    (userId : String) (f : User → User) (hf : ∀ u, (f u).id = u.id) (logs : List AuditLog) :
    KeysSound env { db with users := db.users.modify userId f hf, auditLogs := logs } :=
  ⟨fun k hk => by simpa using h.owner k hk, h.unique, h.raw⟩

/-- Only the keys of the changed account have to be looked at again. -/
theorem keysCurrent_modifyUser_iff {db : AuthDb K} (h : KeysCurrent db) (userId : String)
    (f : User → User) (hf : ∀ u, (f u).id = u.id) (logs : List AuditLog) :
    KeysCurrent { db with users := db.users.modify userId f hf, auditLogs := logs } ↔
      ∀ user, db.users.get? userId = some user → (f user).isActive = true →
        KeysCarry db userId (f user).role := by
  constructor
  · rintro hc user hu hact k hk hka rfl
    refine hc k hk hka (f user) ?_ hact
    rw [Table.get?_modify_self, hu, Option.map_some]
  · intro hc k hk hka user hu hact
    by_cases heq : k.userId = userId
    · rw [heq, Table.get?_modify_self, Option.map_eq_some_iff] at hu
      obtain ⟨user₀, hu₀, rfl⟩ := hu
      exact hc user₀ hu₀ hact k hk hka heq
    · rw [Table.get?_modify_ne _ _ _ heq] at hu
      exact h k hk hka user hu hact

/-! ## Requests read the copies -/

variable [Ring K] [LinearOrder K]

/-- **Role currency.** Whatever credential is accepted, the principal's
role is the one in the owner's row. -/
def RoleCurrent (env : AuthEnv K) (w : AuthWorld K) : Prop :=
  ∀ credentials xApiKey principal w',
    run (getCurrentPrincipal env credentials xApiKey) w = (.ok principal, w') →
    ∃ user, w.db.users.get? principal.id = some user ∧ principal.role = user.role

/-- Conversely, every active key of an active account is accepted. -/
theorem accepted_of_key {env : AuthEnv K} {w : AuthWorld K} (hs : KeysSound env w.db)
    {k : ApiKey K} (hk : k ∈ w.db.apiKeys.rows) (hact : k.isActive = true) {user : User}
    (hu : w.db.users.get? k.userId = some user) (hua : user.isActive = true) :
    ∃ raw w', run (getCurrentPrincipal env none (some raw)) w =
      (.ok { id := k.userId, role := k.role, kind := .apiKey }, w') := by
  obtain ⟨raw, hraw, hhash⟩ := hs.raw k hk
  have hfind : (w.db.apiKeys.rows.find? fun k' => k'.keyHash = hashApiKey env raw && k'.isActive) =
      some k := by
    cases hf : w.db.apiKeys.rows.find? fun k' => k'.keyHash = hashApiKey env raw && k'.isActive with
    | none =>
        have hnot := List.find?_eq_none.mp hf k hk
        simp [hhash, hact] at hnot
    | some k' =>
        have hmem := List.mem_of_find?_eq_some hf
        have hsat := List.find?_some hf
        simp only [Bool.and_eq_true, decide_eq_true_eq] at hsat
        rw [hs.unique k' hmem k hk (hsat.1.trans hhash)]
  have hresolve : ∃ w', run (AuthService.resolveApiKey env raw) w =
      (.ok { k with lastUsedAt := some w.now }, w') := by
    have howner : (w.db.users.get? k.userId).filter User.isActive = some user :=
      Option.filter_eq_some_iff.mpr ⟨hu, hua⟩
    simp only [AuthService.resolveApiKey, ApiKeyRepository.getByHash, run_bind_gets, hfind,
      Option.filter_some, hact, if_true, UserRepository.get, howner]
    exact ⟨_, rfl⟩
  obtain ⟨w', hrun⟩ := hresolve
  refine ⟨raw, w', ?_⟩
  simp only [getCurrentPrincipal, Option.filter_some, hraw, ne_eq, not_false_eq_true, decide_true,
    if_true]
  rw [run_bind_ok hrun]
  rfl

/-- The state is current exactly if its keys are. -/
theorem roleCurrent_iff_keysCurrent {env : AuthEnv K} {w : AuthWorld K}
    (hs : KeysSound env w.db) : RoleCurrent env w ↔ KeysCurrent w.db := by
  constructor
  · intro h k hk hact user hu hua
    obtain ⟨raw, w', hrun⟩ := accepted_of_key hs hk hact hu hua
    obtain ⟨user', hu', hrole⟩ := h none (some raw) _ w' hrun
    exact hrole.trans (congrArg User.role (Option.some.inj (hu'.symm.trans hu)))
  · intro h credentials xApiKey principal w' hrun
    cases credentials with
    | some token =>
        obtain ⟨claims, user, -, hu, -, rfl⟩ := accepted_bearer hrun
        exact ⟨user, by rwa [Table.key_of_get? hu], rfl⟩
    | none =>
        obtain ⟨raw, -, k, hk, -, hact, user, hu, hua, rfl⟩ := accepted_key hrun
        exact ⟨user, hu, h k hk hact user hu hua⟩

/-! ## Whole runs -/

variable [FloorRing K]

theorem keysSound_step (env : AuthEnv K) (w : AuthWorld K) (e : AuthEvent K)
    (h : KeysSound env w.db) : KeysSound env (AuthWorld.step env w e).db := by
  by_cases hrole : ∃ a u r, e = .setUserRole a u r
  · obtain ⟨a, u, r, rfl⟩ := hrole
    rcases AuthWorld.db_setUserRole a u r w with ⟨-, logs, hdb⟩ | ⟨-, hdb⟩
    · rw [AuthWorld.step, hdb]
      exact h.modifyUser u _ _ logs
    · rwa [AuthWorld.step, hdb]
  · by_cases hactive : ∃ a u b, e = .setUserActive a u b
    · obtain ⟨a, u, b, rfl⟩ := hactive
      rcases AuthWorld.db_setUserActive a u b w with ⟨-, logs, hdb⟩ | ⟨-, hdb⟩
      · rw [AuthWorld.step, hdb]
        exact h.modifyUser u _ _ logs
      · rwa [AuthWorld.step, hdb]
    · push Not at hrole hactive
      exact h.change (AuthWorld.dbChange_step env w e hrole hactive)

/-- The step lemma: from current keys, a step leads to current keys
exactly if it meets the condition. -/
theorem keysCurrent_step_iff (env : AuthEnv K) (w : AuthWorld K) (e : AuthEvent K)
    (hs : KeysSound env w.db) (h : KeysCurrent w.db) :
    KeysCurrent (AuthWorld.step env w e).db ↔ RoleSafe w e := by
  by_cases hrole : ∃ a u r, e = .setUserRole a u r
  · obtain ⟨a, u, r, rfl⟩ := hrole
    rcases AuthWorld.db_setUserRole a u r w with ⟨ht, logs, hdb⟩ | ⟨hf, hdb⟩
    · rw [AuthWorld.step, hdb, keysCurrent_modifyUser_iff h]
      exact ⟨fun hc _ => hc, fun hc => hc ht⟩
    · rw [AuthWorld.step, hdb]
      exact iff_of_true h fun ht => absurd (hf.symm.trans ht) (by simp)
  · by_cases hactive : ∃ a u b, e = .setUserActive a u b
    · obtain ⟨a, u, b, rfl⟩ := hactive
      rcases AuthWorld.db_setUserActive a u b w with ⟨ht, logs, hdb⟩ | ⟨hf, hdb⟩
      · rw [AuthWorld.step, hdb, keysCurrent_modifyUser_iff h]
        cases b with
        | true => exact ⟨fun hc _ user hu => hc user hu rfl, fun hc user hu _ => hc ht user hu⟩
        | false => exact iff_of_true (fun _ _ hact => absurd hact (by simp)) trivial
      · rw [AuthWorld.step, hdb]
        refine iff_of_true h ?_
        cases b with
        | true => exact fun ht => absurd (hf.symm.trans ht) (by simp)
        | false => trivial
    · push Not at hrole hactive
      refine iff_of_true (h.change hs (AuthWorld.dbChange_step env w e hrole hactive)) ?_
      unfold RoleSafe
      split
      · exact absurd rfl (hrole _ _ _)
      · exact absurd rfl (hactive _ _ _)
      · trivial

/-- A deployment: any accounts, no API keys yet. -/
def AuthWorld.deploy (users : Table User User.id) (auditLogs : List AuditLog)
    (tokenStore : TokenStore K) (now storeOffset : K) : AuthWorld K :=
  { db := { users, apiKeys := .empty, auditLogs }, tokenStore, now, storeOffset }

/-- **When roles are current.** Every state of a run answers every
request with the role of the account's row exactly if every role change
and every re-activation of the run finds the account's active keys
agreeing with the role it leaves the account with. -/
theorem roleCurrent_iff (env : AuthEnv K) (users : Table User User.id)
    (auditLogs : List AuditLog) (tokenStore : TokenStore K) (now storeOffset : K)
    (es : List (AuthEvent K)) :
    Runs.Always (AuthWorld.step env) (RoleCurrent env)
        (.deploy users auditLogs tokenStore now storeOffset) es ↔
      Runs.Meets (AuthWorld.step env) RoleSafe
        (.deploy users auditLogs tokenStore now storeOffset) es := by
  have hnone : ∀ k, k ∉ (Table.empty : Table (ApiKey K) ApiKey.id).rows :=
    fun _ => List.not_mem_nil
  have hsound : KeysSound env (AuthWorld.deploy users auditLogs tokenStore now storeOffset).db :=
    ⟨fun k hk => absurd hk (hnone k), fun k hk => absurd hk (hnone k),
      fun k hk => absurd hk (hnone k)⟩
  have hcurrent : KeysCurrent (AuthWorld.deploy users auditLogs tokenStore now storeOffset).db :=
    fun k hk => absurd hk (hnone k)
  refine Runs.always_iff_meets (I := fun w => KeysSound env w.db)
    (fun w e => keysSound_step env w e) ?_ hsound ((roleCurrent_iff_keysCurrent hsound).mpr hcurrent)
  intro w e hs hq
  rw [roleCurrent_iff_keysCurrent (keysSound_step env w e hs)]
  exact keysCurrent_step_iff env w e hs ((roleCurrent_iff_keysCurrent hs).mp hq)

end

/-! ## A demotion that does not take effect -/

/-- An analyst and an administrator. -/
def sampleUsers : Table User User.id :=
  ⟨[{ id := "u1", email := "alice@example.com", passwordHash := "$argon2id$a", role := "analyst" },
    { id := "u2", email := "root@example.com", passwordHash := "$argon2id$b", role := "admin" }],
    by decide⟩

def sampleSecret : String := "4lZ8c0Vw2mXJqT1nYb7kP3sHdR6fUe9gAxC5oIiLtQM"

def sampleEnv : AuthEnv Int :=
  { allowOpenRegistration := true
    registrationDefaultRole := "analyst"
    tokens := { accessTtl := 1800, refreshTtl := 1209600 }
    lower := String.toLower
    hash := fun salt password => salt ++ password
    sha256 := fun s =>
      if s = "tip_" ++ sampleSecret then
        "5b147a4edb1d10745b2099fc0588810154d346ddaec642f7f34bd216694cc5dc"
      else "" }

/-- The analyst creates a key, then is demoted to viewer. -/
def demotion : List (AuthEvent Int) :=
  [.createApiKey "u1" "ci" "k1" sampleSecret, .setUserRole "u2" "u1" .viewer]

/-- The key still carries the role of before the demotion. -/
theorem demotion_notCurrent :
    ¬ ∀ es : List (AuthEvent Int), Runs.Always (AuthWorld.step sampleEnv) (RoleCurrent sampleEnv)
      (.deploy sampleUsers [] (.inMemory ⟨.empty⟩) 0 0) es := by
  intro h
  have hlast := (h demotion).last
  obtain ⟨user, huser, hrole⟩ := hlast none (some ("tip_" ++ sampleSecret))
    { id := "u1", role := "analyst", kind := .apiKey } _ (by rfl)
  have hviewer : some user = some
      { id := "u1", email := "alice@example.com", passwordHash := "$argon2id$a",
        role := "viewer" } := huser.symm.trans (by rfl)
  rw [Option.some.inj hviewer] at hrole
  exact absurd hrole (by decide)

end ThreatIntel
