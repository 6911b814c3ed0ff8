import ThreatIntel.IngestBatch

/-!
# The two ways to run a collector

`_run_collector` of `app/workers/tasks.py` and `run_collector` of
`app/api/v1/collectors.py` ingest what a collector has returned, each in a
unit of work of its own, and each builds the service itself: the worker
without alerts. The rows are stored alike, so the two differ only where a
row comes to the rules and one of them fires.
-/

namespace ThreatIntel

/-! ## Records -/

/-- The row without its identifier and its times. -/
def Ioc.anonymous (ioc : Ioc) : Ioc := { ioc with id := "", firstSeen := none, lastSeen := none }

def Alert.anonymous (a : Alert) : Alert := { a with id := "", iocId := "" }

/-- The indicator that an identifier refers to. -/
def IntelDb.keyOf (db : IntelDb) (iocId : String) : Option (String × PyStr) :=
  (db.iocs.rows.find? fun r => r.id = iocId).map Ioc.key

/-- The same rows up to generated identifiers and times: where a row refers
to an indicator, to the same indicator. The rows of a table have no order. -/
structure SameRecords (db db' : IntelDb) : Prop where
  iocs : (db.iocs.rows.map Ioc.anonymous).Perm (db'.iocs.rows.map Ioc.anonymous)
  enrichments :
    (db.enrichments.rows.map fun r => (db.keyOf r.iocId, r.provider, r.data)).Perm
      (db'.enrichments.rows.map fun r => (db'.keyOf r.iocId, r.provider, r.data))
  edges : db.edges.rows.Perm db'.edges.rows
  alertRules : db.alertRules.rows.Perm db'.alertRules.rows
  alerts :
    (db.alerts.map fun a => (db.keyOf a.iocId, a.anonymous)).Perm
      (db'.alerts.map fun a => (db'.keyOf a.iocId, a.anonymous))
  auditLogs : db.auditLogs.Perm db'.auditLogs

theorem SameRecords.refl (db : IntelDb) : SameRecords db db := ⟨.rfl, .rfl, .rfl, .rfl, .rfl, .rfl⟩

theorem SameRecords.length_alerts {db db' : IntelDb} (h : SameRecords db db') :
    db.alerts.length = db'.alerts.length := by
  simpa using h.alerts.length_eq

namespace IOCService

variable {S : IOCService} {s : AlertService} {env : IntelEnv} {call : UpsertCall} {c : Conditions}
  {w : IntelWorld}

/-! ## The entry points -/

/-- The service that `_run_collector` builds. -/
def workerIocService (env : IntelEnv) : IOCService := { env with alerts := none }

/-- `_run_collector`, on what the collector has returned. -/
def taskRunCollector (env : IntelEnv) (indicators : List (CollectedIndicator × Conditions))
    (commit : Option Exn) : IntelRoutine IngestSummary :=
  unitOfWork commit ((workerIocService env).ingestFromCollector indicators true)

/-- `run_collector`, on what the collector has returned. -/
def apiRunCollector (env : IntelEnv) (alerts : AlertService)
    (indicators : List (CollectedIndicator × Conditions)) (doEnrich : Bool) (commit : Option Exn) :
    IntelRoutine IngestSummary :=
  unitOfWork commit ((getIocService env alerts).ingestFromCollector indicators doEnrich)

/-! ## The condition -/

/-- If the row comes to the rules, they are read and none of them fires. -/
def RowQuiet (S : IOCService) (w : IntelWorld) (row : Row) : Prop :=
  ∀ fired ∈ S.firingRules w.db row.1 row.2, ¬ row.2.FailsIn [.rules] ∧ fired = []

instance (S : IOCService) (w : IntelWorld) (row : Row) : Decidable (S.RowQuiet w row) :=
  inferInstanceAs (Decidable (∀ fired ∈ S.firingRules w.db row.1 row.2, _ ∧ _))

/-- What is committed has fired no rule. -/
def BatchQuiet (S : IOCService) (w : IntelWorld)
    (indicators : List (CollectedIndicator × Conditions)) (commit : Option Exn) : Prop :=
  commit = none → Runs.Meets S.afterRow S.RowQuiet w (collectedRows indicators true)

/-- The conditions are met alike on both ways: an upsert fails before it
comes to the rules, if it fails. -/
structure Shared (c : Conditions) : Prop where
  rules : ¬ c.FailsIn [.rules]
  alert : c.failingAlert = none
  release : ¬ c.FailsIn [.release]

/-! ## Where no rule fires -/

theorem evaluateRules_quiet {ioc : Ioc} {rules : List AlertRule} {n : Nat}
    (h : AlertService.firing rules ioc.threatScore.val = []) :
    AlertService.evaluateRules s env c ioc n rules = pure [] := by
  induction rules with
  | nil => rfl
  | cons rule rules ih =>
      obtain ⟨hmatch, hrest⟩ := List.forall_mem_cons.mp (List.filter_eq_nil_iff.mp h)
      rw [AlertService.evaluateRules_skip rules (by simpa using hmatch)]
      exact ih (List.filter_eq_nil_iff.mpr hrest)

/-- What is stored does not depend on who evaluates the rules. -/
theorem persist_worker (env : IntelEnv) (alerts : AlertService) (call : UpsertCall) (c : Conditions) :
    (workerIocService env).persist call c = (getIocService env alerts).persist call c := by
  simp only [workerIocService, getIocService, persist, assess, store, annotate, autoCorrelate]

theorem upsert_quiet (h : (getIocService env s).RowQuiet w (call, c)) :
    ((workerIocService env).upsert call c).run w = ((getIocService env s).upsert call c).run w := by
  rw [run_upsert_quiet rfl, persist_worker env s]
  rcases hpersist : ((getIocService env s).persist call c).run w with ⟨e | ioc, w₁⟩
  · rw [upsert_persist_error hpersist]
  · obtain ⟨parsed, hp, hfired⟩ := persist_ok_score hpersist
    obtain ⟨hrules, hnone⟩ := h _ hfired
    have hevaluate : (s.evaluateIoc env c ioc).run w₁ = (.ok [], w₁) := by
      rw [AlertService.evaluateIoc, Routine.run_bind_ok (Conditions.run_pass hrules w₁)]
      rw [Routine.run_bind_gets, hp.activeRules, evaluateRules_quiet hnone]
      rfl
    rw [upsert, Routine.run_bind_ok hpersist]
    simp only [getIocService]
    rw [Routine.run_bind_ok hevaluate, Routine.run_pure]

theorem savepoint_quiet (h : (getIocService env s).RowQuiet w (call, c)) :
    ((workerIocService env).savepoint call c).run w =
      ((getIocService env s).savepoint call c).run w := by
  rw [savepoint, savepoint]
  exact Routine.run_atomically_congr (Routine.run_bind_congr (upsert_quiet h) _)

/-- **Where no rule fires, the two agree.** -/
theorem rows_quiet {rows : List Row}
    (h : Runs.Meets (getIocService env s).afterRow (getIocService env s).RowQuiet w rows) :
    (workerIocService env).outcomes w rows = (getIocService env s).outcomes w rows ∧
      Runs.run (workerIocService env).afterRow w rows =
        Runs.run (getIocService env s).afterRow w rows := by
  induction rows generalizing w with
  | nil => simp [outcomes]
  | cons row rows ih =>
      obtain ⟨call, c⟩ := row
      rw [Runs.Meets] at h
      have hsame := savepoint_quiet h.1
      have hafter : (workerIocService env).afterRow w (call, c) =
          (getIocService env s).afterRow w (call, c) := by rw [afterRow, afterRow, hsame]
      have houtcome : (workerIocService env).outcome w (call, c) =
          (getIocService env s).outcome w (call, c) := by rw [outcome, outcome, hsame]
      obtain ⟨houtcomes, hrun⟩ := ih h.2
      rw [outcomes, outcomes, Runs.run_cons, Runs.run_cons, houtcome, hafter, houtcomes, hrun]
      exact ⟨rfl, rfl⟩

/-! ## Where one fires -/

/-- The row adds no alert. -/
def RowSilent (S : IOCService) (w : IntelWorld) (row : Row) : Prop :=
  ¬ row.2.FailsIn [.release] → S.Completes w.db row.1 row.2 →
    S.firingRules w.db row.1 row.2 = some []

theorem length_alerts_afterRow (halerts : S.alerts = some s) (w : IntelWorld) (call : UpsertCall)
    (c : Conditions) :
    w.db.alerts.length ≤ (S.afterRow w (call, c)).db.alerts.length ∧
      ((S.afterRow w (call, c)).db.alerts.length = w.db.alerts.length ↔ S.RowSilent w (call, c)) := by
  rcases afterRow_cases S w call c with ⟨ioc, -, hrelease, hrun⟩ | ⟨e, hout, hdb⟩
  · obtain ⟨fired, parsed, w₁, created, hfired, -, hp, hraised⟩ := raised_of_upsert_ok halerts hrun
    have hlen : (S.afterRow w (call, c)).db.alerts.length = w.db.alerts.length + fired.length := by
      have hadds := congrArg List.length hraised.alerts
      rw [List.length_append, List.length_map, List.length_map, List.length_map] at hadds
      rw [hadds, hp.alerts, hraised.length_eq]
    have hsilent : S.RowSilent w (call, c) ↔ fired = [] := by
      rw [RowSilent, hfired]
      simp [hrelease, completes_of_upsert_ok halerts hrun]
    rw [hlen, hsilent, ← List.length_eq_zero_iff]
    exact ⟨Nat.le_add_right _ _, Nat.add_eq_left⟩
  · rw [hdb]
    refine ⟨le_rfl, fun _ hrelease hcomp => ?_, fun _ => rfl⟩
    obtain ⟨ioc, hok⟩ := outcome_of_completes halerts hcomp hrelease
    rw [hok] at hout
    cases hout

theorem length_alerts_rows (halerts : S.alerts = some s) (w : IntelWorld) (rows : List Row) :
    (Runs.run S.afterRow w rows).db.alerts.length = w.db.alerts.length ↔
      Runs.Meets S.afterRow S.RowSilent w rows := by
  have hgrows : ∀ (w' : IntelWorld) (row : Row), w.db.alerts.length ≤ w'.db.alerts.length →
      w.db.alerts.length ≤ (S.afterRow w' row).db.alerts.length := by
    rintro w' ⟨call, c⟩ h
    exact h.trans (length_alerts_afterRow halerts w' call c).1
  have hstep : ∀ (w' : IntelWorld) (row : Row), w.db.alerts.length ≤ w'.db.alerts.length →
      w'.db.alerts.length = w.db.alerts.length →
      ((S.afterRow w' row).db.alerts.length = w.db.alerts.length ↔ S.RowSilent w' row) := by
    rintro w' ⟨call, c⟩ - heq
    rw [← heq]
    exact (length_alerts_afterRow halerts w' call c).2
  have hbroken : ∀ (w' : IntelWorld) (row : Row), w.db.alerts.length ≤ w'.db.alerts.length →
      ¬ w'.db.alerts.length = w.db.alerts.length →
      ¬ (S.afterRow w' row).db.alerts.length = w.db.alerts.length := by
    rintro w' ⟨call, c⟩ hle hne
    have hmore := (length_alerts_afterRow halerts w' call c).1
    omega
  exact Runs.run_iff_meets (Q := fun w' : IntelWorld => w'.db.alerts.length = w.db.alerts.length)
    hgrows hstep hbroken le_rfl rfl

/-- The worker raises no alert. -/
theorem alerts_rows_worker (env : IntelEnv) (w : IntelWorld) (rows : List Row) :
    (Runs.run (workerIocService env).afterRow w rows).db.alerts = w.db.alerts := by
  have hstep : ∀ (w' : IntelWorld) (row : Row), w'.db.alerts = w.db.alerts →
      ((workerIocService env).afterRow w' row).db.alerts = w.db.alerts := by
    intro w' row h
    obtain ⟨call, c⟩ := row
    rcases afterRow_cases (workerIocService env) w' call c with ⟨ioc, -, -, hrun⟩ | ⟨e, -, hdb⟩
    · rw [run_upsert_quiet rfl] at hrun
      obtain ⟨parsed, hp, -⟩ := persist_ok_score hrun
      exact hp.alerts.trans h
    · rw [hdb]
      exact h
  exact Runs.run_preserves (I := fun w' : IntelWorld => w'.db.alerts = w.db.alerts) hstep rfl rows

theorem rowSilent_iff_rowQuiet {row : Row} (h : Shared row.2) (w : IntelWorld) :
    S.RowSilent w row ↔ S.RowQuiet w row := by
  have hcomp : S.Completes w.db row.1 row.2 ↔ ∃ fired, S.firingRules w.db row.1 row.2 = some fired := by
    simp [Completes, h.rules, h.alert]
  rw [RowSilent, RowQuiet, hcomp]
  cases S.firingRules w.db row.1 row.2 <;> simp [h.rules, h.release]

/-! ## Both ways -/

theorem run_unitOfWork {α : Type} {x : IntelRoutine α} {a : α} {w' : IntelWorld}
    (h : x.run w = (.ok a, w')) (commit : Option Exn) :
    (unitOfWork commit x).run w =
      (match commit with
        | none => .ok a
        | some e => .error e, settle commit w w') := by
  cases commit with
  | none => exact unitOfWork_commit h
  | some e => exact unitOfWork_abort h e

variable {indicators : List (CollectedIndicator × Conditions)} {commit : Option Exn}

theorem agree_of_quiet (h : (getIocService env s).BatchQuiet w indicators commit) :
    ((taskRunCollector env indicators commit).run w).1 =
        ((apiRunCollector env s indicators true commit).run w).1 ∧
      ((taskRunCollector env indicators commit).run w).2.db =
        ((apiRunCollector env s indicators true commit).run w).2.db := by
  rw [taskRunCollector, apiRunCollector, run_unitOfWork (run_ingestFromCollector _ _ _),
    run_unitOfWork (run_ingestFromCollector _ _ _)]
  cases commit with
  | none =>
      obtain ⟨houtcomes, hrun⟩ := rows_quiet (h rfl)
      rw [houtcomes, hrun]
      exact ⟨rfl, rfl⟩
  | some e => simp [settle, IntelWorld.rollback]

theorem quiet_of_agree (hshared : ∀ ic ∈ indicators, Shared ic.2)
    (h : SameRecords ((taskRunCollector env indicators commit).run w).2.db
      ((apiRunCollector env s indicators true commit).run w).2.db) :
    (getIocService env s).BatchQuiet w indicators commit := by
  rintro rfl
  have hlen := h.length_alerts
  rw [taskRunCollector, apiRunCollector, run_unitOfWork (run_ingestFromCollector _ _ _),
    run_unitOfWork (run_ingestFromCollector _ _ _)] at hlen
  simp only [settle] at hlen
  rw [alerts_rows_worker] at hlen
  have hsilent := (length_alerts_rows (S := getIocService env s) rfl w _).mp hlen.symm
  refine (Runs.meets_congr (fun row hrow w' => ?_) w).mp hsilent
  obtain ⟨ic, hic, rfl⟩ := List.mem_map.mp hrow
  exact rowSilent_iff_rowQuiet (hshared ic hic) w'

/-- **The two ways agree where no rule fires.** Then they report the same
and leave the same database. Up to identifiers and times they do so only
then, unless an upsert fails where the worker has nothing more to do. -/
theorem runCollector_agree (env : IntelEnv) (alerts : AlertService) (w : IntelWorld)
    (indicators : List (CollectedIndicator × Conditions)) (commit : Option Exn) :
    ((getIocService env alerts).BatchQuiet w indicators commit →
      ((taskRunCollector env indicators commit).run w).1 =
          ((apiRunCollector env alerts indicators true commit).run w).1 ∧
        ((taskRunCollector env indicators commit).run w).2.db =
          ((apiRunCollector env alerts indicators true commit).run w).2.db) ∧
    ((∀ ic ∈ indicators, Shared ic.2) →
      (SameRecords ((taskRunCollector env indicators commit).run w).2.db
          ((apiRunCollector env alerts indicators true commit).run w).2.db ↔
        (getIocService env alerts).BatchQuiet w indicators commit)) := by
  refine ⟨agree_of_quiet, fun hshared => ⟨quiet_of_agree hshared, fun hquiet => ?_⟩⟩
  rw [(agree_of_quiet hquiet).2]
  exact .refl _

/-- A database with a rule for scores that no collected indicator reaches. -/
def highScores : IntelWorld where
  db := .withRules
    ⟨[{ AlertRule.sample "r1" with metric := "threat_score", threshold := 50 }], by decide⟩

/-- A domain, and a value that is turned down. -/
def sampleBatch : List (CollectedIndicator × Conditions) :=
  [({ value := "evil.example".toList, source := "manual".toList }, { now := 0 }),
    ({ value := "evil".toList, source := "manual".toList }, { now := 1 })]

theorem runCollector_agree_highScores :
    (((taskRunCollector .sample sampleBatch none).run highScores).1 =
          ((apiRunCollector .sample { enableLiveCollectors := false } sampleBatch true none).run
            highScores).1 ∧
        ((taskRunCollector .sample sampleBatch none).run highScores).2.db =
          ((apiRunCollector .sample { enableLiveCollectors := false } sampleBatch true none).run
            highScores).2.db) ∧
      SameRecords ((taskRunCollector .sample sampleBatch none).run highScores).2.db
        ((apiRunCollector .sample { enableLiveCollectors := false } sampleBatch true none).run
          highScores).2.db := by
  have hagree := runCollector_agree .sample { enableLiveCollectors := false } highScores sampleBatch none
  have hquiet : (getIocService .sample { enableLiveCollectors := false }).BatchQuiet highScores
      sampleBatch none := fun _ => ⟨by decide +kernel, by decide +kernel, trivial⟩
  have hshared : ∀ ic ∈ sampleBatch, Shared ic.2 :=
    List.forall_mem_cons.mpr ⟨⟨by decide, rfl, by decide⟩,
      List.forall_mem_singleton.mpr ⟨by decide, rfl, by decide⟩⟩
  exact ⟨hagree.1 hquiet, (hagree.2 hshared).mpr hquiet⟩

/-- A rule for new indicators is evaluated by the endpoint only. -/
theorem workerSkipsRules :
    ¬ SameRecords
      ((taskRunCollector .sample
        [({ value := "evil.example".toList, source := "manual".toList }, { now := 0 })] none).run
        { db := .withRules ⟨[.sample "r1"], by decide⟩ }).2.db
      ((apiRunCollector .sample { enableLiveCollectors := false }
        [({ value := "evil.example".toList, source := "manual".toList }, { now := 0 })] true none).run
        { db := .withRules ⟨[.sample "r1"], by decide⟩ }).2.db := by
  intro h
  exact absurd h.length_alerts (by decide +kernel)

end IOCService

end ThreatIntel
