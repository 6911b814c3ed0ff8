import ThreatIntel.UpsertSpec
import ThreatIntel.Runs

/-!
# Batches of upserts

A batch is a run of its rows, each in a savepoint, and what it reports
counts the rows that went through. A request that ends in an exception,
or whose commit does, leaves the database as it found it.
-/

namespace ThreatIntel

/-- A row of a batch: an upsert and the conditions it meets. -/
abbrev Row := UpsertCall × Conditions

namespace IOCService

variable {S : IOCService} {call : UpsertCall} {c : Conditions} {w w' : IntelWorld}

/-! ## One row -/

/-- The outcome of a row, and what it leaves behind. -/
def outcome (S : IOCService) (w : IntelWorld) (row : Row) : Except Exn Ioc :=
  ((S.savepoint row.1 row.2).run w).1

def afterRow (S : IOCService) (w : IntelWorld) (row : Row) : IntelWorld :=
  ((S.savepoint row.1 row.2).run w).2

/-- The failure of a row is caught. -/
theorem run_tryRow (row : Row) (w : IntelWorld) :
    (S.tryRow row.1 row.2).run w = (.ok (S.outcome w row), S.afterRow w row) := by
  unfold tryRow outcome afterRow
  rcases hrun : (S.savepoint row.1 row.2).run w with ⟨e | ioc, w'⟩
  · exact Routine.tryExcept_caught (Routine.run_bind_error hrun _) rfl
  · exact Routine.tryExcept_ok (Routine.run_bind_ok hrun _)

/-- A row that goes through has been upserted. -/
theorem savepoint_ok {ioc : Ioc} (hupsert : (S.upsert call c).run w = (.ok ioc, w'))
    (hrelease : ¬ c.FailsIn [.release]) :
    S.outcome w (call, c) = .ok ioc ∧ S.afterRow w (call, c) = w' := by
  have hrun : (S.savepoint call c).run w = (.ok ioc, w') := by
    rw [savepoint]
    refine Routine.atomically_ok ?_
    rw [Routine.run_bind_ok hupsert, Routine.run_bind_ok (Conditions.run_pass hrelease w')]
    rfl
  exact ⟨congrArg Prod.fst hrun, congrArg Prod.snd hrun⟩

/-- A row that fails leaves the database as it was. -/
theorem savepoint_upsert_error {e : Exn} (hupsert : (S.upsert call c).run w = (.error e, w')) :
    S.outcome w (call, c) = .error e ∧ S.afterRow w (call, c) = IntelWorld.rollback w w' := by
  have hrun : (S.savepoint call c).run w = (.error e, IntelWorld.rollback w w') := by
    rw [savepoint]
    exact Routine.atomically_error (Routine.run_bind_error hupsert _)
  exact ⟨congrArg Prod.fst hrun, congrArg Prod.snd hrun⟩

theorem savepoint_release_error {ioc : Ioc} (hupsert : (S.upsert call c).run w = (.ok ioc, w'))
    (hrelease : c.FailsIn [.release]) :
    ∃ e, S.outcome w (call, c) = .error e ∧ S.afterRow w (call, c) = IntelWorld.rollback w w' := by
  obtain ⟨e, he⟩ := Conditions.run_pass_failsIn hrelease w'
  have hrun : (S.savepoint call c).run w = (.error e, IntelWorld.rollback w w') := by
    rw [savepoint]
    refine Routine.atomically_error ?_
    rw [Routine.run_bind_ok hupsert]
    exact Routine.run_bind_error he _
  exact ⟨e, congrArg Prod.fst hrun, congrArg Prod.snd hrun⟩

/-- A row goes through, and leaves what its upsert leaves; or it fails, and
leaves the database as it was. -/
theorem afterRow_cases (S : IOCService) (w : IntelWorld) (call : UpsertCall) (c : Conditions) :
    (∃ ioc, S.outcome w (call, c) = .ok ioc ∧ ¬ c.FailsIn [.release] ∧
      (S.upsert call c).run w = (.ok ioc, S.afterRow w (call, c))) ∨
    (∃ e, S.outcome w (call, c) = .error e ∧ (S.afterRow w (call, c)).db = w.db) := by
  rcases hrun : (S.upsert call c).run w with ⟨e | ioc, w'⟩
  · obtain ⟨hout, hafter⟩ := savepoint_upsert_error hrun
    exact .inr ⟨e, hout, by rw [hafter, IntelWorld.rollback]⟩
  · by_cases hrelease : c.FailsIn [.release]
    · obtain ⟨e, hout, hafter⟩ := savepoint_release_error hrun hrelease
      exact .inr ⟨e, hout, by rw [hafter, IntelWorld.rollback]⟩
    · obtain ⟨hout, hafter⟩ := savepoint_ok hrun hrelease
      exact .inl ⟨ioc, hout, hrelease, by rw [hafter]⟩

theorem db_afterRow_of_error {row : Row} {e : Exn} (h : S.outcome w row = .error e) :
    (S.afterRow w row).db = w.db := by
  obtain ⟨call, c⟩ := row
  rcases afterRow_cases S w call c with ⟨ioc, hout, -⟩ | ⟨-, -, hdb⟩
  · rw [hout] at h
    cases h
  · exact hdb

theorem outcome_of_completes {s : AlertService} (halerts : S.alerts = some s)
    (hcomp : S.Completes w.db call c) (hrelease : ¬ c.FailsIn [.release]) :
    ∃ ioc, S.outcome w (call, c) = .ok ioc := by
  obtain ⟨-, -, ioc, -, -, w', hrun, -⟩ := upsert_completes halerts hcomp
  exact ⟨ioc, (savepoint_ok hrun hrelease).1⟩

/-- No identifier is given back. -/
theorem issued_le_afterRow (S : IOCService) (w : IntelWorld) (call : UpsertCall) (c : Conditions) :
    w.issued ≤ (S.afterRow w (call, c)).issued := by
  have hissued := issued_le_upsert (S := S) call c w
  rcases hrun : (S.upsert call c).run w with ⟨e | ioc, w'⟩
  · rw [(savepoint_upsert_error hrun).2]
    rwa [hrun] at hissued
  · rw [hrun] at hissued
    by_cases hrelease : c.FailsIn [.release]
    · obtain ⟨e, -, hafter⟩ := savepoint_release_error hrun hrelease
      rwa [hafter]
    · rwa [(savepoint_ok hrun hrelease).2]

/-! ## A batch -/

/-- The outcomes of the rows of a batch. -/
def outcomes (S : IOCService) : IntelWorld → List Row → List (Except Exn Ioc)
  | _, [] => []
  | w, row :: rows => S.outcome w row :: S.outcomes (S.afterRow w row) rows

def succeeded : List (Except Exn Ioc) → Nat := List.countP fun o => o.toOption.isSome

def failed : List (Except Exn Ioc) → Nat := List.countP fun o => o.toOption.isNone

@[simp] theorem succeeded_ok (ioc : Ioc) (os : List (Except Exn Ioc)) :
    succeeded (.ok ioc :: os) = succeeded os + 1 := by
  simp [succeeded, Except.toOption]

@[simp] theorem succeeded_error (e : Exn) (os : List (Except Exn Ioc)) :
    succeeded (.error e :: os) = succeeded os := by
  simp [succeeded, Except.toOption]

@[simp] theorem failed_ok (ioc : Ioc) (os : List (Except Exn Ioc)) :
    failed (.ok ioc :: os) = failed os := by
  simp [failed, Except.toOption]

@[simp] theorem failed_error (e : Exn) (os : List (Except Exn Ioc)) :
    failed (.error e :: os) = failed os + 1 := by
  simp [failed, Except.toOption]

theorem succeeded_add_failed (os : List (Except Exn Ioc)) : succeeded os + failed os = os.length := by
  induction os with
  | nil => rfl
  | cons o os ih => cases o <;> simp <;> omega

theorem length_outcomes (w : IntelWorld) (rows : List Row) :
    (S.outcomes w rows).length = rows.length := by
  induction rows generalizing w with
  | nil => rfl
  | cons row rows ih => simp [outcomes, ih]

def collectedRows (indicators : List (CollectedIndicator × Conditions)) (doEnrich : Bool) :
    List Row :=
  indicators.map fun ic => (ic.1.call doEnrich, ic.2)

theorem run_ingestLoop (doEnrich : Bool) (indicators : List (CollectedIndicator × Conditions))
    (summary : IngestSummary) (w : IntelWorld) :
    (S.ingestLoop doEnrich indicators summary).run w =
      (.ok { ingested := summary.ingested + succeeded (S.outcomes w (collectedRows indicators doEnrich))
             skipped := summary.skipped + failed (S.outcomes w (collectedRows indicators doEnrich)) },
        Runs.run S.afterRow w (collectedRows indicators doEnrich)) := by
  induction indicators generalizing summary w with
  | nil => rfl
  | cons ic indicators ih =>
      obtain ⟨ind, c⟩ := ic
      rw [ingestLoop, Routine.run_bind_ok (run_tryRow (ind.call doEnrich, c) w)]
      simp only [collectedRows, List.map_cons, outcomes, Runs.run_cons] at ih ⊢
      cases ho : S.outcome w (ind.call doEnrich, c) with
      | ok ioc =>
          simp only [ih, succeeded_ok, failed_ok]
          rw [Nat.add_right_comm, Nat.add_assoc]
      | error e =>
          simp only [ih, succeeded_error, failed_error]
          rw [Nat.add_right_comm, Nat.add_assoc]

/-- **What a collector's batch reports.** -/
theorem run_ingestFromCollector (indicators : List (CollectedIndicator × Conditions))
    (doEnrich : Bool) (w : IntelWorld) :
    (S.ingestFromCollector indicators doEnrich).run w =
      (.ok { ingested := succeeded (S.outcomes w (collectedRows indicators doEnrich))
             skipped := failed (S.outcomes w (collectedRows indicators doEnrich)) },
        Runs.run S.afterRow w (collectedRows indicators doEnrich)) := by
  rw [ingestFromCollector, run_ingestLoop]
  simp

def bulkRows (req : BulkRequest) (values : List (PyStr × Conditions)) : List Row :=
  values.map fun vc => (req.call vc.1, vc.2)

theorem run_bulkLoop (req : BulkRequest) (values : List (PyStr × Conditions)) (imported : Nat)
    (items : List BulkItem) (w : IntelWorld) :
    ∃ items', (S.bulkLoop req values imported items).run w =
      (.ok (imported + succeeded (S.outcomes w (bulkRows req values)), items'),
        Runs.run S.afterRow w (bulkRows req values)) := by
  induction values generalizing imported items w with
  | nil => exact ⟨items, rfl⟩
  | cons vc values ih =>
      obtain ⟨value, c⟩ := vc
      rw [bulkLoop, Routine.run_bind_ok (run_tryRow (req.call value, c) w)]
      simp only [bulkRows, List.map_cons, outcomes, Runs.run_cons] at ih ⊢
      cases ho : S.outcome w (req.call value, c) with
      | ok ioc =>
          obtain ⟨items', hrun⟩ := ih (imported + 1)
            (items ++ [.imported ioc.defangedValue ioc.type ioc.threatScore])
            (S.afterRow w (req.call value, c))
          refine ⟨items', hrun.trans ?_⟩
          rw [succeeded_ok, Nat.add_right_comm, Nat.add_assoc]
      | error e =>
          obtain ⟨items', hrun⟩ := ih imported (items ++ [.failed value e])
            (S.afterRow w (req.call value, c))
          refine ⟨items', hrun.trans ?_⟩
          rw [succeeded_error]

/-- The rows of a document; none if it cannot be read. -/
def documentRows (S : IOCService) (req : BulkRequest) (conditions : Nat → Conditions) : List Row :=
  match Extract.extractIndicators S.interpreter req.content req.fmt req.limit with
  | .ok values => bulkRows req (withConditions conditions values)
  | .error _ => []

/-- **What a bulk import reports.** -/
theorem run_bulkImport {req : BulkRequest} {values : List PyStr}
    (h : Extract.extractIndicators S.interpreter req.content req.fmt req.limit = .ok values)
    (conditions : Nat → Conditions) (w : IntelWorld) :
    ∃ summary, (S.bulkImport req conditions).run w =
        (.ok summary, Runs.run S.afterRow w (S.documentRows req conditions)) ∧
      summary.extracted = values.length ∧
      summary.imported = succeeded (S.outcomes w (S.documentRows req conditions)) ∧
      summary.failed = failed (S.outcomes w (S.documentRows req conditions)) := by
  have hvalues : (Routine.ofExcept (Extract.extractIndicators S.interpreter req.content req.fmt
      req.limit) : IntelRoutine (List PyStr)).run w = (.ok values, w) := by simp [h]
  obtain ⟨items, hloop⟩ := run_bulkLoop (S := S) req (withConditions conditions values) 0 [] w
  have hrows : S.documentRows req conditions = bulkRows req (withConditions conditions values) := by
    rw [documentRows, h]
  rw [bulkImport, Routine.run_bind_ok hvalues, Routine.run_bind_ok hloop, hrows]
  refine ⟨_, rfl, rfl, Nat.zero_add _, ?_⟩
  have hsum := succeeded_add_failed (S.outcomes w (bulkRows req (withConditions conditions values)))
  rw [length_outcomes, bulkRows, List.length_map, withConditions, List.length_map,
    List.length_zipIdx] at hsum
  simp only [Nat.zero_add]
  rw [bulkRows, withConditions]
  omega

theorem run_bulkImport_error {req : BulkRequest} {e : Exn}
    (h : Extract.extractIndicators S.interpreter req.content req.fmt req.limit = .error e)
    (conditions : Nat → Conditions) (w : IntelWorld) :
    (S.bulkImport req conditions).run w = (.error e, w) := by
  rw [bulkImport]
  exact Routine.run_bind_error (by simp [h]) _

/-! ## Requests -/

/-- What a unit of work that began in `w` makes of `w'`. -/
def settle (commit : Option Exn) (w w' : IntelWorld) : IntelWorld :=
  match commit with
  | none => w'
  | some _ => IntelWorld.rollback w w'

theorem unitOfWork_commit {α : Type} {x : IntelRoutine α} {a : α} (h : x.run w = (.ok a, w')) :
    (unitOfWork none x).run w = (.ok a, w') := by
  have hrun : (x >>= fun a => (pure a : IntelRoutine α)).run w = (.ok a, w') := by
    rw [Routine.run_bind_ok h, Routine.run_pure]
  exact Routine.atomically_ok hrun

theorem unitOfWork_abort {α : Type} {x : IntelRoutine α} {a : α} (h : x.run w = (.ok a, w'))
    (e : Exn) : (unitOfWork (some e) x).run w = (.error e, IntelWorld.rollback w w') := by
  have hrun : (x >>= fun _ => (Routine.raise e : IntelRoutine α)).run w = (.error e, w') := by
    rw [Routine.run_bind_ok h, Routine.run_raise]
  exact Routine.atomically_error hrun

theorem unitOfWork_ok {α : Type} {x : IntelRoutine α} {a : α} (h : x.run w = (.ok a, w'))
    (commit : Option Exn) : ((unitOfWork commit x).run w).2 = settle commit w w' := by
  cases commit with
  | none => exact congrArg Prod.snd (unitOfWork_commit h)
  | some e => exact congrArg Prod.snd (unitOfWork_abort h e)

theorem unitOfWork_error {α : Type} {x : IntelRoutine α} {e : Exn} (h : x.run w = (.error e, w'))
    (commit : Option Exn) : (unitOfWork commit x).run w = (.error e, IntelWorld.rollback w w') :=
  Routine.atomically_error (Routine.run_bind_error h _)

theorem unitOfWork_congr {α : Type} {x y : IntelRoutine α} (h : x.run w = y.run w)
    (commit : Option Exn) : ((unitOfWork commit x).run w).2 = ((unitOfWork commit y).run w).2 := by
  rcases hx : x.run w with ⟨e | a, w'⟩
  · rw [unitOfWork_error hx, unitOfWork_error (h.symm.trans hx)]
  · rw [unitOfWork_ok hx, unitOfWork_ok (h.symm.trans hx)]

theorem step_collect (w : IntelWorld) (indicators : List (CollectedIndicator × Conditions))
    (doEnrich : Bool) (commit : Option Exn) :
    S.step w (.collect indicators doEnrich commit) =
      settle commit w (Runs.run S.afterRow w (collectedRows indicators doEnrich)) :=
  unitOfWork_ok (run_ingestFromCollector indicators doEnrich w) commit

theorem step_bulk (w : IntelWorld) (req : BulkRequest) (conditions : Nat → Conditions)
    (commit : Option Exn) :
    S.step w (.bulk req conditions commit) =
      settle commit w (Runs.run S.afterRow w (S.documentRows req conditions)) := by
  cases h : Extract.extractIndicators S.interpreter req.content req.fmt req.limit with
  | ok values =>
      obtain ⟨summary, hrun, -⟩ := run_bulkImport h conditions w
      exact unitOfWork_ok hrun commit
  | error e =>
      have hrun := unitOfWork_error (run_bulkImport_error h conditions w) commit
      have hrows : S.documentRows req conditions = [] := by rw [documentRows, h]
      rw [step, hrun, hrows]
      cases commit <;> rfl

/-- The upsert that a request to re-enrich a row makes, if it makes one. -/
def requestedRerun (db : IntelDb) (iocId : String) (userId : Option String) : Option UpsertCall :=
  (db.iocs.rows.find? fun r => r.id = iocId).bind fun ioc => rerunCall ioc userId

/-- What a single upsert leaves behind. -/
def afterUpsert (S : IOCService) (commit : Option Exn) (w : IntelWorld) (row : Row) : IntelWorld :=
  ((unitOfWork commit (S.upsert row.1 row.2)).run w).2

theorem step_upsert (w : IntelWorld) (call : UpsertCall) (c : Conditions) (commit : Option Exn) :
    S.step w (.upsert call c commit) = S.afterUpsert commit w (call, c) := by
  rw [step, afterUpsert]

theorem afterUpsert_ok {ioc : Ioc} (h : (S.upsert call c).run w = (.ok ioc, w'))
    (commit : Option Exn) : S.afterUpsert commit w (call, c) = settle commit w w' :=
  unitOfWork_ok h commit

theorem afterUpsert_error {e : Exn} (h : (S.upsert call c).run w = (.error e, w'))
    (commit : Option Exn) : S.afterUpsert commit w (call, c) = IntelWorld.rollback w w' :=
  congrArg Prod.snd (unitOfWork_error h commit)

theorem step_rerun (w : IntelWorld) (iocId : String) (userId : Option String) (c : Conditions)
    (commit : Option Exn) :
    S.step w (.rerun iocId userId c commit) =
      match requestedRerun w.db iocId userId with
      | some call => S.afterUpsert commit w (call, c)
      | none => w := by
  rw [step, requestedRerun]
  cases hfind : w.db.iocs.rows.find? fun r => r.id = iocId with
  | none =>
      have hrun : (S.enrichIoc iocId userId c).run w =
          (.error (.app (.raise .notFound "IOC not found.")), w) := by
        rw [enrichIoc, Routine.run_bind_gets, hfind]
        rfl
      exact congrArg Prod.snd (unitOfWork_error hrun commit)
  | some ioc =>
      have hrun : (S.enrichIoc iocId userId c).run w = (S.rerunEnrichment ioc userId c).run w := by
        rw [enrichIoc, Routine.run_bind_gets, hfind]
      rw [Option.bind_some]
      rw [rerunEnrichment] at hrun
      cases hcall : rerunCall ioc userId with
      | none =>
          rw [hcall] at hrun
          exact congrArg Prod.snd (unitOfWork_error hrun commit)
      | some call =>
          rw [hcall] at hrun
          exact unitOfWork_congr hrun commit

/-! ## Invariants of the service -/

/-- The upserts that a request makes. -/
def rowsOf (S : IOCService) (w : IntelWorld) : Request → List Row
  | .upsert call c _ => [(call, c)]
  | .rerun iocId userId c _ => (requestedRerun w.db iocId userId).toList.map fun call => (call, c)
  | .collect indicators doEnrich _ => collectedRows indicators doEnrich
  | .bulk req conditions _ => S.documentRows req conditions

/-- What survives a failure, which may have drawn identifiers, and every
upsert of such a row that goes through. -/
structure Preserves (S : IOCService) (P : Row → Prop) (I : IntelWorld → Prop) : Prop where
  failed : ∀ {w w'}, I w → w'.db = w.db → w.issued ≤ w'.issued → I w'
  upserted : ∀ {w w' call c ioc}, P (call, c) → I w →
    (S.upsert call c).run w = (.ok ioc, w') → I w'

namespace Preserves

variable {P : Row → Prop} {I : IntelWorld → Prop} (hI : S.Preserves P I)
include hI

theorem afterRow {row : Row} (hrow : P row) (hw : I w) : I (S.afterRow w row) := by
  rcases afterRow_cases S w row.1 row.2 with ⟨ioc, -, -, hrun⟩ | ⟨e, -, hdb⟩
  · exact hI.upserted hrow hw hrun
  · exact hI.failed hw hdb (issued_le_afterRow S w row.1 row.2)

theorem rows {rows : List Row} (hrows : ∀ row ∈ rows, P row) (hw : I w) :
    I (Runs.run S.afterRow w rows) ∧ w.issued ≤ (Runs.run S.afterRow w rows).issued := by
  induction rows generalizing w with
  | nil => exact ⟨hw, le_rfl⟩
  | cons row rows ih =>
      obtain ⟨hrow, hrows⟩ := List.forall_mem_cons.mp hrows
      have hrest := ih (w := S.afterRow w row) hrows (hI.afterRow hrow hw)
      rw [Runs.run_cons]
      exact ⟨hrest.1, (issued_le_afterRow S w row.1 row.2).trans hrest.2⟩

/-- A commit that fails is a failure. -/
theorem settle (hw : I w) (hw' : I w') (hissued : w.issued ≤ w'.issued) (commit : Option Exn) :
    I (settle commit w w') := by
  cases commit with
  | none => exact hw'
  | some e => exact hI.failed hw rfl hissued

theorem afterUpsert {row : Row} (hrow : P row) (hw : I w) (commit : Option Exn) :
    I (S.afterUpsert commit w row) := by
  obtain ⟨call, c⟩ := row
  have hissued := issued_le_upsert (S := S) call c w
  rcases hrun : (S.upsert call c).run w with ⟨e | ioc, w'⟩
  · rw [afterUpsert_error hrun]
    rw [hrun] at hissued
    exact hI.failed hw rfl hissued
  · rw [afterUpsert_ok hrun]
    rw [hrun] at hissued
    exact hI.settle hw (hI.upserted hrow hw hrun) hissued commit

theorem step {request : Request} (hrows : ∀ row ∈ S.rowsOf w request, P row) (hw : I w) :
    I (S.step w request) := by
  cases request with
  | upsert call c commit =>
      rw [step_upsert]
      exact hI.afterUpsert (hrows _ (List.mem_singleton_self _)) hw commit
  | rerun iocId userId c commit =>
      rw [step_rerun]
      cases hcall : requestedRerun w.db iocId userId with
      | none => exact hw
      | some call =>
          refine hI.afterUpsert (hrows _ ?_) hw commit
          rw [rowsOf, hcall]
          exact List.mem_singleton_self _
  | collect indicators doEnrich commit =>
      rw [step_collect]
      obtain ⟨hw', hissued⟩ := hI.rows hrows hw
      exact hI.settle hw hw' hissued commit
  | bulk req conditions commit =>
      rw [step_bulk]
      obtain ⟨hw', hissued⟩ := hI.rows hrows hw
      exact hI.settle hw hw' hissued commit

/-- It holds in every state that is reached by such requests. -/
theorem run {requests : List Request}
    (hrows : Runs.Meets S.step (fun w request => ∀ row ∈ S.rowsOf w request, P row) w requests)
    (hw : I w) : I (Runs.run S.step w requests) :=
  Runs.run_invariant (fun _ _ hw hrows => hI.step hrows hw) hw hrows

end Preserves

/-- What survives a failure and every upsert that goes through. -/
structure Invariant (S : IOCService) (I : IntelWorld → Prop) : Prop where
  failed : ∀ {w w'}, I w → w'.db = w.db → w.issued ≤ w'.issued → I w'
  upserted : ∀ {w w' call c ioc}, I w → (S.upsert call c).run w = (.ok ioc, w') → I w'

namespace Invariant

variable {I : IntelWorld → Prop} (hI : S.Invariant I)
include hI

theorem preserves : S.Preserves (fun _ => True) I := ⟨hI.failed, fun _ => hI.upserted⟩

theorem step (hw : I w) (request : Request) : I (S.step w request) :=
  hI.preserves.step (fun _ _ => trivial) hw

/-- It holds in every state that is reached. -/
theorem run (hw : I w) (requests : List Request) : I (Runs.run S.step w requests) :=
  Runs.run_preserves (I := I) (fun _ request h => hI.step h request) hw requests

end Invariant

end IOCService

end ThreatIntel
