import Mathlib.Data.List.Count
import ThreatIntel.AuthSpec

/-!
# The deployment is never stranded

`set_user_role` and `set_user_active` refuse to take the last active
administrator away. The refusal rests on a count read before the row is
written, and each request is a transaction of its own: under READ
COMMITTED the count may be out of date by the time the row is committed.

A request is split into its statements: it reads the target row, counts
the active administrators if it is about to remove one, writes the row
and commits. An `UPDATE` takes the row lock, so nobody else writes the
row before the end of the transaction, and what it changes is one
column; other transactions see it at the commit.

The invariant gives every request that removes an administrator and has
passed its checks another active administrator to rely on. That
administrator can only be lost to another removing request with another
target, which is what `OneRemoval` keeps away.
-/

namespace ThreatIntel

open Routine

/-- The two administrative operations, with their arguments. -/
inductive AdminOp where
  | setUserRole (actorId userId : String) (role : Role)
  | setUserActive (actorId userId : String) (isActive : Bool)
  deriving DecidableEq, Repr

namespace AdminOp

def actorId : AdminOp → String
  | setUserRole actorId _ _ => actorId
  | setUserActive actorId _ _ => actorId

def target : AdminOp → String
  | setUserRole _ userId _ => userId
  | setUserActive _ userId _ => userId

/-- The request takes a role or access away: `role is not Role.admin`,
`not is_active`. -/
def removes : AdminOp → Bool
  | setUserRole _ _ role => role ≠ .admin
  | setUserActive _ _ isActive => !isActive

/-- The assignment to the loaded row. -/
def assign : AdminOp → User → User
  | setUserRole _ _ role, u => { u with role := role.value }
  | setUserActive _ _ isActive, u => { u with isActive := isActive }

theorem id_assign (op : AdminOp) (u : User) : (op.assign u).id = u.id := by
  cases op <;> rfl

/-- The check on the actor. -/
def onSelf (op : AdminOp) (u : User) : Bool := u.id = op.actorId && op.removes

/-- Whether the active administrators are counted. -/
def counts (op : AdminOp) (u : User) : Bool := u.role = Role.admin.value && op.removes

def selfError : AdminOp → AppError
  | setUserRole .. => .raise .validation "You cannot remove your own admin role."
  | setUserActive .. => .raise .validation "You cannot deactivate your own account."

def lastError : AdminOp → AppError
  | setUserRole .. => .raise .validation "Refusing to demote the last active admin."
  | setUserActive .. => .raise .validation "Refusing to deactivate the last active admin."

end AdminOp

/-- The statement a request has completed. -/
inductive AdminPhase where
  | started
  | loaded (user : User)
  | checked (user : User)
  | written (user : User)
  | committed
  | rolledBack (error : Option AppError)
  deriving DecidableEq, Repr

structure AdminRequest where
  op : AdminOp
  phase : AdminPhase
  deriving DecidableEq, Repr

namespace AdminRequest

/-- The request has read its row and not ended yet. -/
def critical (r : AdminRequest) : Bool :=
  match r.phase with
  | .loaded _ | .checked _ | .written _ => true
  | _ => false

/-- The request holds the lock of its row: the unit of work emits an
`UPDATE` only if the assignment changed what was loaded. -/
def locks (r : AdminRequest) (userId : String) : Bool :=
  match r.phase with
  | .written u => r.op.target = userId && r.op.assign u ≠ u
  | _ => false

end AdminRequest

/-- The committed users and the requests in the order they came. -/
structure AdminState where
  users : Table User User.id
  requests : List AdminRequest

inductive AdminEvent where
  | start (op : AdminOp)
  | load (request : Nat)
  | check (request : Nat)
  | write (request : Nat)
  | commit (request : Nat)
  /-- The request fails for a reason of its own (a lost connection, a
  constraint) at any point. -/
  | fail (request : Nat)
  deriving DecidableEq, Repr

def User.isAdmin (u : User) : Bool := u.role = Role.admin.value && u.isActive

namespace AdminState

/-- `count_active_with_role(Role.admin.value)` on the committed rows. -/
def activeAdmins (s : AdminState) : Nat := s.users.rows.countP User.isAdmin

/-- **Never stranded.** Some committed user is both active and admin. -/
def Administered (s : AdminState) : Prop := ∃ u ∈ s.users.rows, u.isAdmin = true

def goto (s : AdminState) (request : Nat) (op : AdminOp) (phase : AdminPhase) : AdminState :=
  { s with requests := s.requests.set request { op, phase } }

def step (s : AdminState) : AdminEvent → AdminState
  | .start op => { s with requests := s.requests ++ [{ op, phase := .started }] }
  | .load i =>
      match s.requests[i]? with
      | some { op, phase := .started } =>
          match s.users.get? op.target with
          | none => s.goto i op (.rolledBack (some (.raise .notFound "User not found.")))
          | some user =>
              if op.onSelf user then s.goto i op (.rolledBack (some op.selfError))
              else s.goto i op (.loaded user)
      | _ => s
  | .check i =>
      match s.requests[i]? with
      | some { op, phase := .loaded user } =>
          if op.counts user && s.activeAdmins ≤ 1 then
            s.goto i op (.rolledBack (some op.lastError))
          else s.goto i op (.checked user)
      | _ => s
  | .write i =>
      match s.requests[i]? with
      | some { op, phase := .checked user } =>
          -- an `UPDATE` of a locked row waits
          if s.requests.any fun r => r.locks op.target then s
          else s.goto i op (.written user)
      | _ => s
  | .commit i =>
      match s.requests[i]? with
      | some { op, phase := .written user } =>
          let users :=
            if op.assign user ≠ user then s.users.modify op.target op.assign op.id_assign
            else s.users
          { s with users }.goto i op .committed
      | _ => s
  | .fail i =>
      match s.requests[i]? with
      | some r => if r.critical || r.phase = .started then s.goto i r.op (.rolledBack none) else s
      | _ => s

/-- The condition on a step: when a request that takes access away reads
its row, no other such request with another target is under way. -/
def OneRemoval (s : AdminState) : AdminEvent → Prop
  | .load i =>
      match s.requests[i]? with
      | some { op, phase := .started } => op.removes = true → ∀ r ∈ s.requests,
          r.critical = true → r.op.removes = true → r.op.target = op.target
      | _ => True
  | _ => True

instance (s : AdminState) (e : AdminEvent) : Decidable (OneRemoval s e) := by
  unfold OneRemoval
  split
  · split <;> infer_instance
  · infer_instance

/-! ## The statements in a row are the service's operations -/

section Service

variable {K : Type}

/-- The service's own operation. -/
def service : AdminOp → AuthRoutine K User
  | .setUserRole actorId userId role => AuthService.setUserRole actorId userId role
  | .setUserActive actorId userId isActive => AuthService.setUserActive actorId userId isActive

/-- The checks of the service, as the request makes them. -/
def takes (db : AuthDb K) : AdminOp → Bool
  | .setUserRole actorId userId role => db.roleChangeTakes actorId userId role
  | .setUserActive actorId userId isActive => db.activeChangeTakes actorId userId isActive

theorem takes_eq {db : AuthDb K} {op : AdminOp} {user : User}
    (hactor : db.users.hasKey op.actorId = true) (hu : db.users.get? op.target = some user) :
    takes db op = !(op.onSelf user || op.counts user && decide (db.activeAdmins ≤ 1)) := by
  cases op with
  | setUserRole actorId userId role =>
      simp only [AdminOp.actorId, AdminOp.target] at hactor hu
      simp [takes, AuthDb.roleChangeTakes, hu, hactor, AdminOp.onSelf, AdminOp.counts,
        AdminOp.removes, AdminOp.actorId]
      rfl
  | setUserActive actorId userId isActive =>
      simp only [AdminOp.actorId, AdminOp.target] at hactor hu
      simp [takes, AuthDb.activeChangeTakes, hu, hactor, AdminOp.onSelf, AdminOp.counts,
        AdminOp.removes, AdminOp.actorId, Bool.and_comm]
      rfl

theorem users_service (op : AdminOp) (w : AuthWorld K) :
    (AuthWorld.unitOfWork (service op) w).db.users =
      if takes w.db op then w.db.users.modify op.target op.assign op.id_assign
      else w.db.users := by
  cases op with
  | setUserRole actorId userId role =>
      rcases AuthWorld.db_setUserRole actorId userId role w with ⟨ht, logs, hdb⟩ | ⟨hf, hdb⟩
      · rw [service, hdb, takes, if_pos ht]
        rfl
      · rw [service, hdb, takes, if_neg (by simp [hf])]
  | setUserActive actorId userId isActive =>
      rcases AuthWorld.db_setUserActive actorId userId isActive w with
        ⟨ht, logs, hdb⟩ | ⟨hf, hdb⟩
      · rw [service, hdb, takes, if_pos ht]
        rfl
      · rw [service, hdb, takes, if_neg (by simp [hf])]

/-- A request that nothing interrupts commits the users that the service
commits. -/
theorem solo_eq_service (op : AdminOp) (w : AuthWorld K)
    (hactor : w.db.users.hasKey op.actorId = true) :
    (Runs.run step ⟨w.db.users, []⟩ [.start op, .load 0, .check 0, .write 0, .commit 0]).users =
      (AuthWorld.unitOfWork (service op) w).db.users := by
  rw [users_service]
  cases hu : w.db.users.get? op.target with
  | none =>
      have hf : takes w.db op = false := by
        cases op with
        | setUserRole actorId userId role =>
            simp only [AdminOp.target] at hu
            simp [takes, AuthDb.roleChangeTakes, hu]
        | setUserActive actorId userId isActive =>
            simp only [AdminOp.target] at hu
            simp [takes, AuthDb.activeChangeTakes, hu]
      simp [step, goto, hu, hf]
  | some user =>
      have hcount : activeAdmins ⟨w.db.users, [⟨op, .loaded user⟩]⟩ = w.db.activeAdmins := rfl
      rw [takes_eq hactor hu]
      cases hself : op.onSelf user with
      | true => simp [step, goto, hu, hself]
      | false =>
          cases hlast : op.counts user && decide (w.db.activeAdmins ≤ 1) with
          | true => simp [step, goto, hu, hself, hcount, hlast]
          | false =>
              have hlocks : AdminRequest.locks ⟨op, .checked user⟩ op.target = false := rfl
              by_cases hsame : op.assign user = user
              · have hmod := Table.modify_eq_self op.id_assign hu hsame
                simp [step, goto, hu, hself, hcount, hlast, hlocks, hsame, hmod]
              · simp [step, goto, hu, hself, hcount, hlast, hlocks, hsame]

end Service

/-! ## The invariant -/

/-- Nothing but the write and the commit stands between the request and
the removal: its checks are behind it, or (for a row that was no
administrator when loaded) will not be made. -/
def passed (r : AdminRequest) : Bool :=
  match r.phase with
  | .loaded u => !r.op.counts u
  | .checked _ | .written _ => true
  | _ => false

/-- Another active administrator than `userId`. -/
def HasOther (users : Table User User.id) (userId : String) : Prop :=
  ∃ u ∈ users.rows, u.isAdmin = true ∧ u.id ≠ userId

structure Inv (s : AdminState) : Prop where
  administered : s.Administered
  sameTarget : ∀ r ∈ s.requests, ∀ r' ∈ s.requests, r.critical = true → r'.critical = true →
    r.op.removes = true → r'.op.removes = true → r.op.target = r'.op.target
  other : ∀ r ∈ s.requests, passed r = true → r.op.removes = true →
    HasOther s.users r.op.target

/-- A request that moves on, with the committed rows as they were. -/
theorem Inv.goto {s : AdminState} (h : Inv s) (i : Nat) {op : AdminOp} (new : AdminPhase)
    (htarget : (⟨op, new⟩ : AdminRequest).critical = true → op.removes = true →
      ∀ r ∈ s.requests, r.critical = true → r.op.removes = true → r.op.target = op.target)
    (hother : passed ⟨op, new⟩ = true → op.removes = true → HasOther s.users op.target) :
    Inv (s.goto i op new) := by
  refine ⟨h.administered, ?_, ?_⟩
  · intro r hr r' hr' hc hc' hrem hrem'
    rcases List.mem_or_eq_of_mem_set hr with hr | rfl <;>
      rcases List.mem_or_eq_of_mem_set hr' with hr' | rfl
    · exact h.sameTarget r hr r' hr' hc hc' hrem hrem'
    · exact htarget hc' hrem' r hr hc hrem
    · exact (htarget hc hrem r' hr' hc' hrem').symm
    · rfl
  · intro r hr hp hrem
    rcases List.mem_or_eq_of_mem_set hr with hr | rfl
    · exact h.other r hr hp hrem
    · exact hother hp hrem

/-- A request that is not, or no longer, about to remove an administrator. -/
theorem Inv.goto_idle {s : AdminState} (h : Inv s) (i : Nat) {op : AdminOp} {new : AdminPhase}
    (hcritical : (⟨op, new⟩ : AdminRequest).critical = false) (hpassed : passed ⟨op, new⟩ = false) :
    Inv (s.goto i op new) :=
  h.goto i new (fun hc => absurd hc (Bool.eq_false_iff.mp hcritical))
    fun hp => absurd hp (Bool.eq_false_iff.mp hpassed)

/-- A request that was critical already keeps its target. -/
theorem Inv.target_of_critical {s : AdminState} (h : Inv s) {r : AdminRequest}
    (hr : r ∈ s.requests) (hc : r.critical = true) (hrem : r.op.removes = true) :
    ∀ r' ∈ s.requests, r'.critical = true → r'.op.removes = true → r'.op.target = r.op.target :=
  fun r' hr' hc' hrem' => h.sameTarget r' hr' r hr hc' hc hrem' hrem

/-! ## Administrators -/

/-- At most one row has a given id, so of two administrators one is not
the target. -/
theorem hasOther_of_count {users : Table User User.id} (userId : String)
    (h : ¬ users.rows.countP User.isAdmin ≤ 1) : HasOther users userId := by
  by_contra hno
  have hall : ∀ u ∈ users.rows, u.isAdmin = true → decide (u.id = userId) = true := by
    intro u hu hadmin
    by_contra hne
    exact hno ⟨u, hu, hadmin, by simpa using hne⟩
  have hcount : users.rows.countP (fun u => decide (u.id = userId)) ≤ 1 := by
    have hnodup := List.nodup_iff_count_le_one.mp users.nodupKeys userId
    rwa [List.count, List.countP_map] at hnodup
  exact h ((List.countP_mono_left hall).trans hcount)

/-- An administrator stays one, under its id, when a row other than its
own is written, or when what is written takes nothing away. -/
theorem isAdmin_assign {op : AdminOp} {u : User} (hu : u.isAdmin = true)
    (hop : op.removes = false) : (op.assign u).isAdmin = true := by
  simp only [User.isAdmin, Bool.and_eq_true, decide_eq_true_eq] at hu ⊢
  cases op with
  | setUserRole a t role =>
      have hrole : role = .admin := by simpa [AdminOp.removes] using hop
      exact ⟨by simp [AdminOp.assign, hrole], hu.2⟩
  | setUserActive a t isActive =>
      have hactive : isActive = true := by simpa [AdminOp.removes] using hop
      exact ⟨hu.1, by simp [AdminOp.assign, hactive]⟩

theorem exists_admin_modify {users : Table User User.id} {op : AdminOp} {u : User}
    (hu : u ∈ users.rows) (hadmin : u.isAdmin = true)
    (hop : op.removes = true → u.id ≠ op.target) :
    ∃ u' ∈ (users.modify op.target op.assign op.id_assign).rows,
      u'.isAdmin = true ∧ u'.id = u.id := by
  by_cases ht : u.id = op.target
  · have hkeep : op.removes = false := by
      by_contra hr
      exact hop (by simpa using hr) ht
    refine ⟨op.assign u, ?_, isAdmin_assign hadmin hkeep, op.id_assign u⟩
    exact (Table.mem_rows_modify _ _ _ _ _).mpr ⟨u, hu, by rw [if_pos ht]⟩
  · exact ⟨u, (Table.mem_rows_modify _ _ _ _ _).mpr ⟨u, hu, by rw [if_neg ht]⟩, hadmin, rfl⟩

/-! ## One step -/

/-- A request that has read its row. It relies on the present
administrators if the row was none of them. -/
theorem inv_load {s : AdminState} (h : Inv s) (i : Nat) (hsafe : OneRemoval s (.load i)) :
    Inv (s.step (.load i)) := by
  simp only [step]
  split
  · next op heq =>
      simp only [OneRemoval, heq] at hsafe
      cases hu : s.users.get? op.target with
      | none => exact h.goto_idle i rfl rfl
      | some user =>
          dsimp only
          split
          · exact h.goto_idle i rfl rfl
          · refine h.goto i _ (fun _ hrem => hsafe hrem) fun hp hrem => ?_
            obtain ⟨z, hz, hadmin⟩ := h.administered
            refine ⟨z, hz, hadmin, fun hid => ?_⟩
            -- ids are unique: the administrator would be the loaded row
            have hsame : z = user :=
              Option.some.inj (((s.users.get?_eq_some_iff _ _).mpr ⟨hz, hid⟩).symm.trans hu)
            subst hsame
            simp only [User.isAdmin, Bool.and_eq_true, decide_eq_true_eq] at hadmin
            simp [passed, AdminOp.counts, hadmin.1, hrem] at hp
  · exact h

theorem inv_check {s : AdminState} (h : Inv s) (i : Nat) : Inv (s.step (.check i)) := by
  simp only [step]
  split
  · next op user heq =>
      have hmem := List.mem_of_getElem? heq
      split
      · exact h.goto_idle i rfl rfl
      · next hcount =>
          refine h.goto i _ (fun _ hrem => h.target_of_critical hmem rfl hrem) fun _ hrem => ?_
          by_cases hc : op.counts user = true
          · refine hasOther_of_count op.target fun hle => hcount ?_
            rw [hc, Bool.true_and]
            exact decide_eq_true hle
          · exact h.other _ hmem (by simpa [passed] using hc) hrem
  · exact h

theorem inv_write {s : AdminState} (h : Inv s) (i : Nat) : Inv (s.step (.write i)) := by
  simp only [step]
  split
  · next op user heq =>
      have hmem := List.mem_of_getElem? heq
      split
      · exact h
      · exact h.goto i _ (fun _ hrem => h.target_of_critical hmem rfl hrem)
          fun _ hrem => h.other _ hmem rfl hrem
  · exact h

/-- The commit. What it removes is not what the others rely on: they rely
on somebody who is not their target, and removals share the target. -/
theorem inv_commit {s : AdminState} (h : Inv s) (i : Nat) : Inv (s.step (.commit i)) := by
  simp only [step]
  split
  · next op user heq =>
      have hmem := List.mem_of_getElem? heq
      have hwritten : Inv { s with users := s.users.modify op.target op.assign op.id_assign } := by
        refine ⟨?_, h.sameTarget, ?_⟩
        · by_cases hrem : op.removes = true
          · obtain ⟨z, hz, hadmin, hne⟩ := h.other _ hmem rfl hrem
            obtain ⟨z', hz', hadmin', -⟩ := exists_admin_modify hz hadmin fun _ => hne
            exact ⟨z', hz', hadmin'⟩
          · obtain ⟨z, hz, hadmin⟩ := h.administered
            obtain ⟨z', hz', hadmin', -⟩ := exists_admin_modify hz hadmin fun hr => absurd hr hrem
            exact ⟨z', hz', hadmin'⟩
        · intro r hr hp hrem'
          obtain ⟨z, hz, hadmin, hne⟩ := h.other r hr hp hrem'
          have hcrit : r.critical = true := by
            revert hp
            unfold passed AdminRequest.critical
            split <;> simp
          have hother : op.removes = true → z.id ≠ op.target := fun hrem =>
            h.target_of_critical hmem rfl hrem r hr hcrit hrem' ▸ hne
          obtain ⟨z', hz', hadmin', hid⟩ := exists_admin_modify hz hadmin hother
          exact ⟨z', hz', hadmin', hid ▸ hne⟩
      split
      · exact hwritten.goto_idle i rfl rfl
      · exact h.goto_idle i rfl rfl
  · exact h

theorem inv_step {s : AdminState} (e : AdminEvent) (h : Inv s) (hsafe : OneRemoval s e) :
    Inv (s.step e) := by
  cases e with
  | start op =>
      have hidle : ∀ r ∈ s.requests ++ [⟨op, .started⟩], r.critical = true → r ∈ s.requests := by
        intro r hr hc
        rcases List.mem_append.mp hr with hr | hr
        · exact hr
        · rw [List.mem_singleton.mp hr] at hc
          cases hc
      refine ⟨h.administered, ?_, ?_⟩
      · intro r hr r' hr' hc hc'
        exact h.sameTarget r (hidle r hr hc) r' (hidle r' hr' hc') hc hc'
      · intro r hr hp
        rcases List.mem_append.mp hr with hr | hr
        · exact h.other r hr hp
        · rw [List.mem_singleton.mp hr] at hp
          cases hp
  | load i => exact inv_load h i hsafe
  | check i => exact inv_check h i
  | write i => exact inv_write h i
  | commit i => exact inv_commit h i
  | fail i =>
      simp only [step]
      split
      · split
        · exact h.goto_idle i rfl rfl
        · exact h
      · exact h

/-! ## Whole runs -/

/-- **When the deployment is never stranded.** From any users with an
active administrator, in every run in which two removals with different
targets never overlap, every committed state has one. -/
theorem administered_of_oneRemoval (users : Table User User.id)
    (hadmin : Administered ⟨users, []⟩) (es : List AdminEvent)
    (hsafe : Runs.Meets step OneRemoval ⟨users, []⟩ es) :
    Administered (Runs.run step ⟨users, []⟩ es) := by
  have hinit : Inv ⟨users, []⟩ :=
    ⟨hadmin, fun _ hr => absurd hr List.not_mem_nil, fun _ hr => absurd hr List.not_mem_nil⟩
  exact (Runs.run_invariant (fun _ e h hs => inv_step e h hs) hinit hsafe).administered

/-! ## Two administrators -/

def twoAdmins : Table User User.id :=
  ⟨[{ id := "a", email := "a@example.com", passwordHash := "$argon2id$a", role := "admin" },
    { id := "b", email := "b@example.com", passwordHash := "$argon2id$b", role := "admin" }],
    by decide⟩

/-- One demotes the other, who then tries to return the favour. -/
def inTurn : List AdminEvent :=
  [.start (.setUserRole "a" "b" .viewer), .load 0, .check 0, .write 0, .commit 0,
    .start (.setUserActive "b" "a" false), .load 1, .check 1, .write 1, .commit 1]

theorem inTurn_administered :
    Administered ⟨twoAdmins, []⟩ ∧ Runs.Meets step OneRemoval ⟨twoAdmins, []⟩ inTurn ∧
      Administered (Runs.run step ⟨twoAdmins, []⟩ inTurn) := by
  have hadmin : Administered ⟨twoAdmins, []⟩ := ⟨_, List.mem_cons_self, by decide⟩
  have hsafe : Runs.Meets step OneRemoval ⟨twoAdmins, []⟩ inTurn := by decide
  exact ⟨hadmin, hsafe, administered_of_oneRemoval twoAdmins hadmin inTurn hsafe⟩

/-- They demote each other at the same time: both count two. -/
def atOnce : List AdminEvent :=
  [.start (.setUserRole "a" "b" .viewer), .start (.setUserRole "b" "a" .viewer), .load 0, .load 1,
    .check 0, .check 1, .write 0, .write 1, .commit 0, .commit 1]

theorem atOnce_strands :
    ¬ ∀ (users : Table User User.id), Administered ⟨users, []⟩ →
      ∀ es, Administered (Runs.run step ⟨users, []⟩ es) := by
  intro h
  obtain ⟨u, hu, hadmin⟩ := h twoAdmins ⟨_, List.mem_cons_self, by decide⟩ atOnce
  have hnone : ∀ u ∈ (Runs.run step ⟨twoAdmins, []⟩ atOnce).users.rows, u.isAdmin = false := by
    decide
  rw [hnone u hu] at hadmin
  cases hadmin

end AdminState

end ThreatIntel
