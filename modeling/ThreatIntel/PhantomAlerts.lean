import ThreatIntel.IngestBatch

/-!
# Phantom alerts

An alert is published while the transaction that writes it is open. If
the transaction, or the savepoint of the row, is rolled back afterwards,
the event stays: it speaks of an alert that is not in the database. So the
published events are exactly the alerts of the database if, and only if,
no upsert fails after its first alert and no transaction that has raised
one is rolled back.
-/

namespace ThreatIntel

namespace IOCService

variable {S : IOCService} {s : AlertService} {call : UpsertCall} {c : Conditions}
  {w w₁ w₂ : IntelWorld} {kept kept' lost lost' : List String}

/-! ## The condition -/

/-- The upsert does not fail between its first alert and its end. -/
def KeepsAlerts (S : IOCService) (db : IntelDb) (row : Row) : Prop :=
  ∀ fired ∈ S.firingRules db row.1 row.2, ∀ k ∈ row.2.failingAlert, k = 0 ∨ fired.length ≤ k

/-- Nor, if it raises an alert, when its savepoint is released. -/
def RowKeepsAlerts (S : IOCService) (w : IntelWorld) (row : Row) : Prop :=
  S.KeepsAlerts w.db row ∧
    ∀ fired ∈ S.firingRules w.db row.1 row.2, fired ≠ [] → ¬ row.2.FailsIn [.release]

/-- The upsert raises no alert: no rule fires, or it fails before the first
alert is out. -/
def RaisesNone (S : IOCService) (db : IntelDb) (row : Row) : Prop :=
  ∀ fired ∈ S.firingRules db row.1 row.2,
    fired ≠ [] → row.2.FailsIn [.rules] ∨ row.2.failingAlert = some 0

/-- The condition for a single upsert. -/
def UpsertKeepsAlerts (S : IOCService) (commit : Option Exn) (db : IntelDb) (row : Row) : Prop :=
  match commit with
  | none => S.KeepsAlerts db row
  | some _ => S.RaisesNone db row

/-- The condition for a batch, row by row. -/
def BatchKeepsAlerts (S : IOCService) (commit : Option Exn) (w : IntelWorld) (rows : List Row) :
    Prop :=
  match commit with
  | none => Runs.Meets S.afterRow S.RowKeepsAlerts w rows
  | some _ => Runs.Meets S.afterRow (fun w row => S.RaisesNone w.db row) w rows

/-- **The condition on a request.** No upsert of it fails after its first
alert, and none raises an alert if its commit fails. -/
def RequestKeepsAlerts (S : IOCService) (w : IntelWorld) : Request → Prop
  | .upsert call c commit => S.UpsertKeepsAlerts commit w.db (call, c)
  | .rerun iocId userId c commit =>
      ∀ call ∈ requestedRerun w.db iocId userId, S.UpsertKeepsAlerts commit w.db (call, c)
  | .collect indicators doEnrich commit =>
      S.BatchKeepsAlerts commit w (collectedRows indicators doEnrich)
  | .bulk req conditions commit => S.BatchKeepsAlerts commit w (S.documentRows req conditions)

/-! ## What is kept and what is lost -/

/-- From `w` to `w'`, alerts have been added to the table, and these and
others have been published. -/
structure Adds (w w' : IntelWorld) (kept lost : List String) : Prop where
  alerts : w'.db.alerts.map (·.id) = w.db.alerts.map (·.id) ++ kept
  published : List.Perm (w'.published.map (·.id)) (w.published.map (·.id) ++ (kept ++ lost))

theorem Adds.refl (w : IntelWorld) : Adds w w [] [] := ⟨by simp, by simp⟩

theorem Adds.trans (h : Adds w w₁ kept lost) (h' : Adds w₁ w₂ kept' lost') :
    Adds w w₂ (kept ++ kept') (lost ++ lost') where
  alerts := by rw [h'.alerts, h.alerts, List.append_assoc]
  published := by
    refine h'.published.trans ((h.published.append_right _).trans ?_)
    simp only [List.append_assoc]
    exact .append_left _ (.append_left _ (List.perm_append_comm_assoc _ _ _))

/-- A rollback loses what was kept. -/
theorem Adds.rollback (h : Adds w w₁ kept lost) : Adds w (IntelWorld.rollback w w₁) [] (kept ++ lost) where
  alerts := by simp [IntelWorld.rollback]
  published := h.published

/-- An upsert that completes keeps an alert for each rule that fires. -/
theorem adds_completes (halerts : S.alerts = some s) (h : S.Completes w.db call c) :
    ∃ ioc w' fired kept, (S.upsert call c).run w = (.ok ioc, w') ∧
      S.firingRules w.db call c = some fired ∧ kept.length = fired.length ∧ Adds w w' kept [] := by
  obtain ⟨fired, parsed, ioc, w₁, created, w₂, hrun, hfired, -, hp, hraised⟩ :=
    upsert_completes halerts h
  refine ⟨ioc, w₂, fired, created.map (·.id), hrun, hfired, by simp [hraised.length_eq], ?_, ?_⟩
  · have hids := congrArg (List.map Prod.fst) hraised.alerts
    simpa [Alert.origin, Function.comp_def, hp.alerts] using hids
  · rw [hraised.published, hp.published, List.append_nil]

/-- One that fails loses what it has published. -/
theorem adds_fails (halerts : S.alerts = some s) (h : ¬ S.Completes w.db call c) :
    ∃ e w' lost, (S.upsert call c).run w = (.error e, w') ∧
      lost.length = S.sentBefore w.db call c ∧ Adds w (IntelWorld.rollback w w') [] lost := by
  obtain ⟨e, w', sent, hrun, hsent, hlen⟩ := upsert_fails halerts h
  exact ⟨e, w', sent, hrun, hlen, ⟨by simp [IntelWorld.rollback], by rw [IntelWorld.rollback]; simp [hsent]⟩⟩

/-- The fault is at one place only. -/
theorem failingAlert_eq_none {sites : List Site} (h : c.FailsIn sites)
    (hsites : ∀ n, .alert n ∉ sites ∧ .deliver n ∉ sites) : c.failingAlert = none := by
  obtain ⟨⟨site, exn⟩, hfault, hsite⟩ := h
  rw [Conditions.failingAlert, Option.mem_def.mp hfault]
  cases site <;> first | rfl | exact absurd hsite (hsites _).1 | exact absurd hsite (hsites _).2

theorem not_failsIn_of_failingAlert {k : Nat} {site : Site} (h : c.failingAlert = some k)
    (hsite : ∀ n, .alert n ≠ site ∧ .deliver n ≠ site) : ¬ c.FailsIn [site] := by
  intro hfails
  have hnone : c.failingAlert = none :=
    failingAlert_eq_none hfails fun n => by simpa using hsite n
  rw [hnone] at h
  cases h

/-- How an upsert that comes to the rules does not complete. -/
theorem not_completes_cases {fired : List AlertRule} (hfired : S.firingRules w.db call c = some fired)
    (h : ¬ S.Completes w.db call c) :
    c.FailsIn [.rules] ∨ ∃ k, c.failingAlert = some k ∧ k < fired.length := by
  by_contra hnone
  obtain ⟨hrules, halert⟩ := not_or.mp hnone
  exact h ⟨fired, hfired, hrules, fun k hk => not_lt.mp fun hlt => halert ⟨k, hk, hlt⟩⟩

/-- An upsert that completes raises no alert only if no rule fires. -/
theorem raisesNone_iff_of_completes {fired : List AlertRule}
    (hfired : S.firingRules w.db call c = some fired) (h : S.Completes w.db call c) :
    S.RaisesNone w.db (call, c) ↔ fired = [] := by
  obtain ⟨fired', hfired', hrules, halert⟩ := h
  obtain rfl := Option.some.inj (hfired.symm.trans hfired')
  constructor
  · intro hnone
    by_contra hne
    rcases hnone fired hfired hne with hfails | hzero
    · exact hrules hfails
    · exact hne (List.length_eq_zero_iff.mp (Nat.le_zero.mp (halert 0 hzero)))
  · rintro rfl fired hfired'' hne
    exact absurd (Option.some.inj (hfired.symm.trans hfired'')).symm hne

theorem keepsAlerts_of_completes (h : S.Completes w.db call c) : S.KeepsAlerts w.db (call, c) := by
  obtain ⟨fired, hfired, -, halert⟩ := h
  intro fired' hfired' k hk
  obtain rfl := Option.some.inj (hfired.symm.trans hfired')
  exact .inr (halert k hk)

/-- One that does not has published nothing exactly under the conditions
above. -/
theorem sentBefore_eq_zero_iff (h : ¬ S.Completes w.db call c) :
    (S.sentBefore w.db call c = 0 ↔ S.KeepsAlerts w.db (call, c)) ∧
      (S.sentBefore w.db call c = 0 ↔ S.RaisesNone w.db (call, c)) := by
  rw [sentBefore]
  cases hfired : S.firingRules w.db call c with
  | none => simp [KeepsAlerts, RaisesNone, hfired]
  | some fired =>
      rcases not_completes_cases hfired h with hrules | ⟨k, hk, hlt⟩
      · have hnone := Conditions.failingAlert_of_failsIn_rules hrules
        simp [KeepsAlerts, RaisesNone, hfired, hnone, hrules]
      · have hne : fired ≠ [] := List.ne_nil_of_length_pos (by omega)
        have hrules : ¬ c.FailsIn [.rules] := not_failsIn_of_failingAlert hk fun n => by simp
        have hle : ¬ fired.length ≤ k := by omega
        simp [KeepsAlerts, RaisesNone, hfired, hk, hne, hrules, hle]

theorem length_eq_zero_iff_of_eq {l : List String} {n : Nat} (h : l.length = n) : l = [] ↔ n = 0 := by
  rw [← h, List.length_eq_zero_iff]

/-! ## Single upserts -/

/-- A single upsert loses no alert exactly under its condition. -/
theorem adds_afterUpsert (halerts : S.alerts = some s) (commit : Option Exn) (w : IntelWorld)
    (row : Row) :
    ∃ kept lost, Adds w (S.afterUpsert commit w row) kept lost ∧
      (lost = [] ↔ S.UpsertKeepsAlerts commit w.db row) := by
  obtain ⟨call, c⟩ := row
  by_cases h : S.Completes w.db call c
  · obtain ⟨ioc, w', fired, kept, hrun, hfired, hlen, hadds⟩ := adds_completes halerts h
    rw [afterUpsert_ok hrun]
    cases commit with
    | none => exact ⟨kept, [], hadds, by simp [UpsertKeepsAlerts, keepsAlerts_of_completes h]⟩
    | some e =>
        refine ⟨[], kept ++ [], hadds.rollback, ?_⟩
        rw [UpsertKeepsAlerts, raisesNone_iff_of_completes hfired h, List.append_nil,
          length_eq_zero_iff_of_eq hlen, List.length_eq_zero_iff]
  · obtain ⟨e, w', lost, hrun, hlen, hadds⟩ := adds_fails halerts h
    rw [afterUpsert_error hrun]
    refine ⟨[], lost, hadds, ?_⟩
    rw [length_eq_zero_iff_of_eq hlen]
    cases commit with
    | none => exact (sentBefore_eq_zero_iff h).1
    | some e => exact (sentBefore_eq_zero_iff h).2

/-! ## Batches -/

/-- One row of a batch: what it loses by itself, and what is lost if the
batch is. -/
theorem adds_afterRow (halerts : S.alerts = some s) (w : IntelWorld) (row : Row) :
    ∃ kept lost, Adds w (S.afterRow w row) kept lost ∧ (lost = [] ↔ S.RowKeepsAlerts w row) ∧
      (kept ++ lost = [] ↔ S.RaisesNone w.db row) := by
  obtain ⟨call, c⟩ := row
  by_cases h : S.Completes w.db call c
  · obtain ⟨ioc, w', fired, kept, hrun, hfired, hlen, hadds⟩ := adds_completes halerts h
    have hkept : kept = [] ↔ fired = [] := by
      rw [length_eq_zero_iff_of_eq hlen, List.length_eq_zero_iff]
    by_cases hrelease : c.FailsIn [.release]
    · obtain ⟨e, -, hafter⟩ := savepoint_release_error hrun hrelease
      rw [hafter]
      refine ⟨[], kept ++ [], hadds.rollback, ?_, ?_⟩
      · simp [RowKeepsAlerts, keepsAlerts_of_completes h, hfired, hrelease, hkept]
      · rw [raisesNone_iff_of_completes hfired h]
        simpa using hkept
    · rw [(savepoint_ok hrun hrelease).2]
      refine ⟨kept, [], hadds, ?_, ?_⟩
      · simp [RowKeepsAlerts, keepsAlerts_of_completes h, hrelease]
      · rw [raisesNone_iff_of_completes hfired h, List.append_nil]
        exact hkept
  · obtain ⟨e, w', lost, hrun, hlen, hadds⟩ := adds_fails halerts h
    rw [(savepoint_upsert_error hrun).2]
    obtain ⟨hkeeps, hnone⟩ := sentBefore_eq_zero_iff h
    refine ⟨[], lost, hadds, ?_, ?_⟩
    · rw [length_eq_zero_iff_of_eq hlen, hkeeps, RowKeepsAlerts]
      refine ⟨fun hk => ⟨hk, fun fired hfired hne hrelease => ?_⟩, And.left⟩
      -- a fault at the release is at none of the places before
      rcases not_completes_cases hfired h with hrules | ⟨k, hk', -⟩
      · cases Conditions.site_eq_of_failsIn hrules hrelease
      · exact not_failsIn_of_failingAlert hk' (fun n => by simp) hrelease
    · rw [List.nil_append, length_eq_zero_iff_of_eq hlen, hnone]

theorem adds_rows (halerts : S.alerts = some s) (w : IntelWorld) (rows : List Row) :
    ∃ kept lost, Adds w (Runs.run S.afterRow w rows) kept lost ∧
      (lost = [] ↔ Runs.Meets S.afterRow S.RowKeepsAlerts w rows) ∧
      (kept ++ lost = [] ↔ Runs.Meets S.afterRow (fun w row => S.RaisesNone w.db row) w rows) := by
  induction rows generalizing w with
  | nil => exact ⟨[], [], .refl w, by simp [Runs.Meets], by simp [Runs.Meets]⟩
  | cons row rows ih =>
      rw [Runs.run_cons]
      obtain ⟨kept, lost, hadds, hkeeps, hnone⟩ := adds_afterRow halerts w row
      obtain ⟨kept', lost', hadds', hkeeps', hnone'⟩ := ih (S.afterRow w row)
      refine ⟨kept ++ kept', lost ++ lost', hadds.trans hadds', ?_, ?_⟩
      · rw [List.append_eq_nil_iff, hkeeps, hkeeps', Runs.Meets]
      · rw [Runs.Meets, ← hnone, ← hnone']
        simp only [List.append_eq_nil_iff]
        tauto

theorem adds_settle (halerts : S.alerts = some s) (commit : Option Exn) (w : IntelWorld)
    (rows : List Row) :
    ∃ kept lost, Adds w (settle commit w (Runs.run S.afterRow w rows)) kept lost ∧
      (lost = [] ↔ S.BatchKeepsAlerts commit w rows) := by
  obtain ⟨kept, lost, hadds, hkeeps, hnone⟩ := adds_rows halerts w rows
  cases commit with
  | none => exact ⟨kept, lost, hadds, hkeeps⟩
  | some e => exact ⟨[], kept ++ lost, hadds.rollback, hnone⟩

/-! ## Runs -/

/-- A request loses no alert exactly under its condition. -/
theorem adds_step (halerts : S.alerts = some s) (w : IntelWorld) (request : Request) :
    ∃ kept lost, Adds w (S.step w request) kept lost ∧
      (lost = [] ↔ S.RequestKeepsAlerts w request) := by
  cases request with
  | upsert call c commit =>
      rw [step_upsert]
      exact adds_afterUpsert halerts commit w (call, c)
  | rerun iocId userId c commit =>
      rw [step_rerun, RequestKeepsAlerts]
      cases requestedRerun w.db iocId userId with
      | none => exact ⟨[], [], .refl w, by simp⟩
      | some call => simpa using adds_afterUpsert halerts commit w (call, c)
  | collect indicators doEnrich commit =>
      rw [step_collect]
      exact adds_settle halerts commit w _
  | bulk req conditions commit =>
      rw [step_bulk]
      exact adds_settle halerts commit w _

theorem adds_run (halerts : S.alerts = some s) (w : IntelWorld) (requests : List Request) :
    ∃ kept lost, Adds w (Runs.run S.step w requests) kept lost ∧
      (lost = [] ↔ Runs.Meets S.step S.RequestKeepsAlerts w requests) := by
  induction requests generalizing w with
  | nil => exact ⟨[], [], .refl w, by simp [Runs.Meets]⟩
  | cons request requests ih =>
      rw [Runs.run_cons]
      obtain ⟨kept, lost, hadds, hkeeps⟩ := adds_step halerts w request
      obtain ⟨kept', lost', hadds', hkeeps'⟩ := ih (S.step w request)
      refine ⟨kept ++ kept', lost ++ lost', hadds.trans hadds', ?_⟩
      rw [List.append_eq_nil_iff, hkeeps, hkeeps', Runs.Meets]

/-- The alerts of the database and the published ones are the same, each
as often. -/
def NoPhantoms (w : IntelWorld) : Prop :=
  List.Perm (w.published.map (·.id)) (w.db.alerts.map (·.id))

/-- **No phantom alerts.** After any sequence of requests, the published
events are exactly the alerts of the database if and only if every request
has met the condition. -/
theorem noPhantoms_iff (env : IntelEnv) (alerts : AlertService) (rules : Table AlertRule AlertRule.id)
    (requests : List Request) :
    NoPhantoms (Runs.run (getIocService env alerts).step { db := .withRules rules } requests) ↔
      Runs.Meets (getIocService env alerts).step (getIocService env alerts).RequestKeepsAlerts
        { db := .withRules rules } requests := by
  obtain ⟨kept, lost, hadds, hkeeps⟩ := adds_run (S := getIocService env alerts) (s := alerts) rfl
    { db := .withRules rules } requests
  have hpublished := hadds.published
  have halerts := hadds.alerts
  simp only [IntelDb.withRules, List.map_nil, List.nil_append] at hpublished halerts
  rw [← hkeeps, NoPhantoms, IntelDb.withRules, halerts]
  constructor
  · intro h
    have hlen := (hpublished.symm.trans h).length_eq
    rw [List.length_append] at hlen
    exact List.length_eq_zero_iff.mp (by omega)
  · rintro rfl
    simpa using hpublished

/-- A row of a batch fires two rules, and the second is gone when its alert
is written. -/
def secondRuleGone : Request :=
  .collect
    [({ value := "evil.example".toList, source := "manual".toList },
      { now := 0, fault := some ⟨.alert 1, .integrity⟩ })]
    false none

/-- The first alert has been published, and is rolled back with the row. -/
theorem secondRuleGone_phantom :
    ¬ NoPhantoms (Runs.run (getIocService .sample { enableLiveCollectors := false }).step
      { db := .withRules ⟨[.sample "r1", .sample "r2"], by decide⟩ } [secondRuleGone]) := by
  intro h
  exact absurd h.length_eq (by decide +kernel)

end IOCService

end ThreatIntel
