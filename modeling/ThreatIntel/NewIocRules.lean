import ThreatIntel.IngestBatch

/-!
# Rules for new indicators

A rule with the metric `new_ioc` fires at every evaluation, and an upsert
is evaluated whether it creates its row or finds it there. So what the
rule counts is sightings: in every state it has raised as many alerts for
an indicator as the indicator has sightings, which is one for each
indicator exactly if nothing is ever sighted again.
-/

namespace ThreatIntel

namespace IOCService

variable {S : IOCService} {s : AlertService} {call : UpsertCall} {c : Conditions} {ioc : Ioc}
  {parsed : ParsedIndicator} {w w' : IntelWorld}

/-- The rule and the indicator an alert is about. -/
def subjects (db : IntelDb) : List (String × String) := db.alerts.map fun a => (a.ruleId, a.iocId)

/-- How many alerts a rule has raised for an indicator. -/
def alertsOf (db : IntelDb) (ruleId iocId : String) : Nat := (subjects db).count (ruleId, iocId)

/-- The active rules for new indicators. -/
def newIocRules (db : IntelDb) : List AlertRule :=
  (AlertService.activeRules db).filter fun rule => rule.metric = "new_ioc"

/-- Every such rule has fired once for every stored indicator. -/
def FiresOnce (w : IntelWorld) : Prop :=
  ∀ rule ∈ newIocRules w.db, ∀ ioc ∈ w.db.iocs.rows, alertsOf w.db rule.id ioc.id = 1

/-! ## The condition -/

/-- If the upsert completes, its indicator was not stored. -/
def Unseen (S : IOCService) (db : IntelDb) (row : Row) : Prop :=
  S.Completes db row.1 row.2 → ∀ parsed,
    Indicators.classifyIndicator S.interpreter.unicode row.1.rawValue = .ok parsed →
      knownIoc db parsed = none

/-- A row of a batch has to be released as well. -/
def RowUnseen (S : IOCService) (w : IntelWorld) (row : Row) : Prop :=
  ¬ row.2.FailsIn [.release] → S.Unseen w.db row

/-- **The condition on a request.** Nothing it commits is sighted again. -/
def RequestUnseen (S : IOCService) (w : IntelWorld) : Request → Prop
  | .upsert call c commit => commit = none → S.Unseen w.db (call, c)
  | .rerun iocId userId c commit =>
      commit = none → ∀ call ∈ requestedRerun w.db iocId userId, S.Unseen w.db (call, c)
  | .collect indicators doEnrich commit =>
      commit = none → Runs.Meets S.afterRow S.RowUnseen w (collectedRows indicators doEnrich)
  | .bulk req conditions commit =>
      commit = none → Runs.Meets S.afterRow S.RowUnseen w (S.documentRows req conditions)

/-! ## What an upsert does to the alerts -/

/-- What a completed upsert has done, as far as the rules are concerned. -/
structure Upserted (S : IOCService) (call : UpsertCall) (c : Conditions) (w : IntelWorld)
    (parsed : ParsedIndicator) (ioc : Ioc) (w' : IntelWorld) : Prop where
  classified : Indicators.classifyIndicator S.interpreter.unicode call.rawValue = .ok parsed
  stored : ∃ score w₁, Stored S call c parsed score w (knownIoc w.db parsed) ioc w₁ ∧
    w'.db.iocs = w₁.db.iocs ∧ w₁.issued ≤ w'.issued
  alertRules : w'.db.alertRules = w.db.alertRules
  subjects : subjects w'.db = subjects w.db ++
    (AlertService.firing (AlertService.activeRules w.db) ioc.threatScore.val).map
      fun rule => (rule.id, ioc.id)

theorem upserted (halerts : S.alerts = some s) (h : (S.upsert call c).run w = (.ok ioc, w')) :
    ∃ parsed, Upserted S call c w parsed ioc w' := by
  obtain ⟨fired, parsed, w₁, created, -, rfl, hp, hraised⟩ := raised_of_upsert_ok halerts h
  obtain ⟨w₃, hstored, hiocs, hissued⟩ := hp.stored
  refine ⟨parsed, hp.classified, ⟨_, w₃, hstored, ?_, ?_⟩, ?_, ?_⟩
  · rw [hraised.db, hiocs]
  · rw [← hissued]
    exact hraised.issued
  · rw [hraised.db, hp.alertRules]
  · have hsubjects := congrArg (List.map Prod.snd) hraised.alerts
    simp only [List.map_map, List.map_append, hp.alerts] at hsubjects
    rw [← hraised.origins]
    exact hsubjects

/-- Either the upsert of a row has completed, or the database is as it was. -/
theorem upserted_or_db_eq (halerts : S.alerts = some s) (w : IntelWorld) (call : UpsertCall)
    (c : Conditions) :
    (S.Completes w.db call c ∧ ¬ c.FailsIn [.release] ∧
      ∃ parsed ioc, Upserted S call c w parsed ioc (S.afterRow w (call, c))) ∨
    (¬ (S.Completes w.db call c ∧ ¬ c.FailsIn [.release]) ∧
      (S.afterRow w (call, c)).db = w.db ∧ w.issued ≤ (S.afterRow w (call, c)).issued) := by
  rcases afterRow_cases S w call c with ⟨ioc, -, hrelease, hrun⟩ | ⟨e, hout, hdb⟩
  · obtain ⟨parsed, hup⟩ := upserted halerts hrun
    exact .inl ⟨completes_of_upsert_ok halerts hrun, hrelease, parsed, ioc, hup⟩
  · refine .inr ⟨fun hboth => ?_, hdb, issued_le_afterRow S w call c⟩
    obtain ⟨ioc, hok⟩ := outcome_of_completes halerts hboth.1 hboth.2
    rw [hok] at hout
    cases hout

theorem afterUpsert_cases (halerts : S.alerts = some s) (commit : Option Exn) (w : IntelWorld)
    (call : UpsertCall) (c : Conditions) :
    (S.Completes w.db call c ∧ commit = none ∧
      ∃ parsed ioc, Upserted S call c w parsed ioc (S.afterUpsert commit w (call, c))) ∨
    (¬ (S.Completes w.db call c ∧ commit = none) ∧
      (S.afterUpsert commit w (call, c)).db = w.db ∧
      w.issued ≤ (S.afterUpsert commit w (call, c)).issued) := by
  have hissued := issued_le_upsert (S := S) call c w
  by_cases h : S.Completes w.db call c
  · obtain ⟨-, -, ioc, -, -, w', hrun, -⟩ := upsert_completes halerts h
    rw [afterUpsert_ok hrun]
    rw [hrun] at hissued
    cases commit with
    | none =>
        obtain ⟨parsed, hup⟩ := upserted halerts hrun
        exact .inl ⟨h, rfl, parsed, ioc, hup⟩
    | some e => exact .inr ⟨fun hboth => (by cases hboth.2), rfl, hissued⟩
  · obtain ⟨e, w', sent, hrun, -⟩ := upsert_fails halerts h
    rw [afterUpsert_error hrun]
    rw [hrun] at hissued
    exact .inr ⟨fun hboth => h hboth.1, rfl, hissued⟩

/-! ## Alerts count sightings -/

/-- Identifiers have been drawn, and no two indicators share one; each rule
for new indicators has raised an alert for each sighting. -/
structure Counted (S : IOCService) (w : IntelWorld) : Prop where
  ids : (w.db.iocs.rows.map (·.id)).Nodup
  drawn : ∀ ioc ∈ w.db.iocs.rows, ∃ n < w.issued, ioc.id = S.uuid4 n
  drawnAlerts : ∀ subject ∈ subjects w.db, ∃ n < w.issued, subject.2 = S.uuid4 n
  positive : ∀ ioc ∈ w.db.iocs.rows, 1 ≤ ioc.sightings.val
  counted : ∀ rule ∈ newIocRules w.db, ∀ ioc ∈ w.db.iocs.rows,
    (alertsOf w.db rule.id ioc.id : Int) = ioc.sightings.val

theorem counted_withRules (rules : Table AlertRule AlertRule.id) :
    S.Counted { db := .withRules rules } := by
  constructor <;> simp [IntelDb.withRules, Table.empty, subjects]

theorem Counted.identified (hc : S.Counted w) : S.Identified w := ⟨hc.ids, hc.drawn⟩

/-- A failure keeps it. -/
theorem Counted.of_db_eq (h : S.Counted w) (hdb : w'.db = w.db) (hissued : w.issued ≤ w'.issued) :
    S.Counted w' where
  ids := hdb ▸ h.ids
  drawn := (h.identified.congr (by rw [hdb]) hissued).drawn
  drawnAlerts := by
    rw [hdb]
    intro subject hsubject
    obtain ⟨n, hn, hid⟩ := h.drawnAlerts subject hsubject
    exact ⟨n, hn.trans_le hissued, hid⟩
  positive := hdb ▸ h.positive
  counted := hdb ▸ h.counted

theorem alertsOf_upserted (h : Upserted S call c w parsed ioc w') (ruleId iocId : String) :
    alertsOf w'.db ruleId iocId = alertsOf w.db ruleId iocId +
      ((AlertService.firing (AlertService.activeRules w.db) ioc.threatScore.val).map
        fun rule => (rule.id, ioc.id)).count (ruleId, iocId) := by
  rw [alertsOf, h.subjects, List.count_append, alertsOf]

theorem alertsOf_upserted_ne (h : Upserted S call c w parsed ioc w') {ruleId iocId : String}
    (hne : iocId ≠ ioc.id) : alertsOf w'.db ruleId iocId = alertsOf w.db ruleId iocId := by
  rw [alertsOf_upserted h, Nat.add_eq_left, List.count_eq_zero]
  intro hmem
  obtain ⟨rule, -, heq⟩ := List.mem_map.mp hmem
  exact hne (congrArg Prod.snd heq).symm

/-- A rule for new indicators fires whatever the score is, and only once. -/
theorem alertsOf_upserted_self (h : Upserted S call c w parsed ioc w') {rule : AlertRule}
    (hrule : rule ∈ newIocRules w.db) :
    alertsOf w'.db rule.id ioc.id = alertsOf w.db rule.id ioc.id + 1 := by
  rw [alertsOf_upserted h, Nat.add_right_inj]
  obtain ⟨hactive, hmetric⟩ := List.mem_filter.mp hrule
  have hfires : rule ∈ AlertService.firing (AlertService.activeRules w.db) ioc.threatScore.val := by
    refine List.mem_filter.mpr ⟨hactive, ?_⟩
    rw [AlertService.ruleMatches, if_pos (by simpa using hmetric)]
  have hids : (AlertService.firing (AlertService.activeRules w.db) ioc.threatScore.val).Sublist
      w.db.alertRules.rows := List.filter_sublist.trans List.filter_sublist
  have hnodup := (hids.map AlertRule.id).nodup w.db.alertRules.nodupKeys
  refine List.count_eq_one_of_mem ?_ (List.mem_map_of_mem hfires)
  refine List.Nodup.of_map Prod.fst ?_
  rwa [List.map_map]

theorem newIocRules_upserted (h : Upserted S call c w parsed ioc w') :
    newIocRules w'.db = newIocRules w.db := by
  rw [newIocRules, AlertService.activeRules, h.alertRules]
  rfl

theorem drawnAlerts_upserted (hc : S.Counted w) (h : Upserted S call c w parsed ioc w')
    (hissued : w.issued ≤ w'.issued) (hioc : ∃ n < w'.issued, ioc.id = S.uuid4 n) :
    ∀ subject ∈ subjects w'.db, ∃ n < w'.issued, subject.2 = S.uuid4 n := by
  intro subject hsubject
  rw [h.subjects, List.mem_append] at hsubject
  rcases hsubject with hold | hnew
  · obtain ⟨n, hn, hid⟩ := hc.drawnAlerts subject hold
    exact ⟨n, hn.trans_le hissued, hid⟩
  · obtain ⟨rule, -, rfl⟩ := List.mem_map.mp hnew
    exact hioc

/-- A row that is created has one sighting and one alert of each rule. -/
theorem Counted.created (hc : S.Counted w) (h : Upserted S call c w parsed ioc w')
    (hid : ioc.id = S.uuid4 w.issued) (hone : ioc.sightings.val = 1)
    (hrows : w'.db.iocs.rows = w.db.iocs.rows ++ [ioc]) (hissued : w.issued + 1 ≤ w'.issued) :
    S.Counted w' := by
  obtain ⟨hi, hcases⟩ := hc.identified.created hid hrows hissued
  have hdrawn : ∃ n < w'.issued, ioc.id = S.uuid4 n := ⟨w.issued, hissued, hid⟩
  refine ⟨hi.ids, hi.drawn, drawnAlerts_upserted hc h (by omega) hdrawn, ?_, ?_⟩
  · intro r hr
    rcases hcases r hr with rfl | ⟨hold, -⟩
    · exact hone.ge
    · exact hc.positive r hold
  · intro rule hrule r hr
    rw [newIocRules_upserted h] at hrule
    rcases hcases r hr with rfl | ⟨hold, hne⟩
    · -- the identifier has not been drawn before
      have hnone : alertsOf w.db rule.id r.id = 0 := by
        rw [alertsOf, List.count_eq_zero]
        intro hmem
        obtain ⟨n, hn, hsubject⟩ := hc.drawnAlerts _ hmem
        have hn' := S.uuid4_injective (hsubject.symm.trans hid)
        omega
      rw [alertsOf_upserted_self h hrule, hnone, hone]
      rfl
    · rw [alertsOf_upserted_ne h hne]
      exact hc.counted rule hrule r hold

/-- A row that is brought up to date has one more of both. -/
theorem Counted.updated (hc : S.Counted w) (h : Upserted S call c w parsed ioc w') {row : Ioc}
    (hrow : row ∈ w.db.iocs.rows) (hid : ioc.id = row.id)
    (hmore : ioc.sightings.val = row.sightings.val + 1)
    (hrows : w'.db.iocs.rows = w.db.iocs.rows.map fun r => if r.key = row.key then ioc else r)
    (hissued : w.issued ≤ w'.issued) : S.Counted w' := by
  obtain ⟨hi, hcases⟩ := hc.identified.updated hrow hid hrows hissued
  obtain ⟨n, hn, hrowid⟩ := hc.drawn row hrow
  have hdrawn : ∃ n < w'.issued, ioc.id = S.uuid4 n := ⟨n, by omega, hid.trans hrowid⟩
  refine ⟨hi.ids, hi.drawn, drawnAlerts_upserted hc h hissued hdrawn, ?_, ?_⟩
  · intro r hr
    rcases hcases r hr with rfl | ⟨hold, -⟩
    · have := hc.positive row hrow
      omega
    · exact hc.positive r hold
  · intro rule hrule r hr
    rw [newIocRules_upserted h] at hrule
    rcases hcases r hr with rfl | ⟨hold, hne⟩
    · rw [alertsOf_upserted_self h hrule, hid, hmore, Nat.cast_add, hc.counted rule hrule row hrow]
      rfl
    · rw [alertsOf_upserted_ne h hne]
      exact hc.counted rule hrule r hold

/-- The two ways a completed upsert changes the table. -/
theorem upserted_rows (h : Upserted S call c w parsed ioc w') :
    (knownIoc w.db parsed = none ∧ ioc.id = S.uuid4 w.issued ∧ ioc.sightings.val = 1 ∧
      w'.db.iocs.rows = w.db.iocs.rows ++ [ioc] ∧ w.issued + 1 ≤ w'.issued) ∨
    ∃ row ∈ w.db.iocs.rows, knownIoc w.db parsed = some row ∧ ioc.id = row.id ∧
      ioc.sightings.val = row.sightings.val + 1 ∧
      (w'.db.iocs.rows = w.db.iocs.rows.map fun r => if r.key = row.key then ioc else r) ∧
      w.issued ≤ w'.issued := by
  obtain ⟨score, w₁, hstored, hiocs, hissued⟩ := h.stored
  rw [hiocs]
  rcases hstored.rows with ⟨hnone, hid, hone, hrows, hdrawn⟩ |
    ⟨row, hrow, hknown, hid, hmore, hrows, hdrawn⟩
  · exact .inl ⟨hnone, hid, hone, hrows, hdrawn ▸ hissued⟩
  · exact .inr ⟨row, hrow, hknown, hid, hmore, hrows, hdrawn ▸ hissued⟩

theorem Counted.upserted (hc : S.Counted w) (h : Upserted S call c w parsed ioc w') :
    S.Counted w' := by
  rcases upserted_rows h with ⟨-, hid, hone, hrows, hissued⟩ | ⟨row, hrow, -, hid, hmore, hrows, hissued⟩
  · exact hc.created h hid hone hrows hissued
  · exact hc.updated h hrow hid hmore hrows hissued

/-! ## Once is enough -/

/-- No indicator has been sighted twice. -/
def Once (w : IntelWorld) : Prop := ∀ ioc ∈ w.db.iocs.rows, ioc.sightings.val ≤ 1

theorem firesOnce_iff_once (hc : S.Counted w) (hrules : newIocRules w.db ≠ []) :
    FiresOnce w ↔ Once w := by
  constructor
  · intro h ioc hioc
    obtain ⟨rule, hrule⟩ := List.exists_mem_of_ne_nil _ hrules
    rw [← hc.counted rule hrule ioc hioc, h rule hrule ioc hioc]
    rfl
  · intro h rule hrule ioc hioc
    have hcount := hc.counted rule hrule ioc hioc
    have hle := h ioc hioc
    have hpos := hc.positive ioc hioc
    omega

/-- After a completed upsert nothing has been sighted twice exactly if the
indicator was not stored. -/
theorem once_upserted (hc : S.Counted w) (h : Upserted S call c w parsed ioc w') (hw : Once w) :
    Once w' ↔ knownIoc w.db parsed = none := by
  rcases upserted_rows h with ⟨hnone, -, hone, hrows, -⟩ | ⟨row, hrow, hsome, -, hmore, hrows, -⟩
  · refine ⟨fun _ => hnone, fun _ r hr => ?_⟩
    rw [hrows, List.mem_append, List.mem_singleton] at hr
    rcases hr with hold | rfl
    · exact hw r hold
    · exact hone.le
  · refine ⟨fun honce => ?_, fun hnone => ?_⟩
    · have hmem : ioc ∈ w'.db.iocs.rows := by
        rw [hrows]
        exact List.mem_map.mpr ⟨row, hrow, by simp⟩
      have hle := honce ioc hmem
      have hpos := hc.positive row hrow
      omega
    · rw [hnone] at hsome
      cases hsome

/-- What has been sighted twice stays so. -/
theorem not_once_upserted (h : Upserted S call c w parsed ioc w') (hw : ¬ Once w) : ¬ Once w' := by
  intro honce
  refine hw fun r hr => ?_
  rcases upserted_rows h with ⟨-, -, -, hrows, -⟩ | ⟨row, hrow, -, -, hmore, hrows, -⟩
  · exact honce r (by rw [hrows]; exact List.mem_append_left _ hr)
  · by_cases heq : r.key = row.key
    · have hsame := List.inj_on_of_nodup_map w.db.iocs.nodupKeys hr hrow heq
      have hmem : ioc ∈ w'.db.iocs.rows := by
        rw [hrows]
        exact List.mem_map.mpr ⟨r, hr, by simp [heq]⟩
      have hle := honce ioc hmem
      rw [hsame]
      omega
    · refine honce r ?_
      rw [hrows]
      exact List.mem_map.mpr ⟨r, hr, by simp [heq]⟩

theorem issued_le_upserted (h : Upserted S call c w parsed ioc w') : w.issued ≤ w'.issued := by
  rcases upserted_rows h with ⟨-, -, -, -, hissued⟩ | ⟨row, -, -, -, -, -, hissued⟩
  · omega
  · exact hissued

/-- What every step keeps. -/
structure Watched (S : IOCService) (rules : List AlertRule) (w : IntelWorld) : Prop where
  counted : S.Counted w
  rules : newIocRules w.db = rules

variable {rules : List AlertRule}

theorem Watched.of_db_eq (h : S.Watched rules w) (hdb : w'.db = w.db) (hissued : w.issued ≤ w'.issued) :
    S.Watched rules w' :=
  ⟨h.counted.of_db_eq hdb hissued, hdb ▸ h.rules⟩

theorem Watched.upserted (hw : S.Watched rules w) (h : Upserted S call c w parsed ioc w') :
    S.Watched rules w' :=
  ⟨hw.counted.upserted h, (newIocRules_upserted h).trans hw.rules⟩

/-! ## Rows and requests -/

theorem watched_afterRow (halerts : S.alerts = some s) (h : S.Watched rules w) (row : Row) :
    S.Watched rules (S.afterRow w row) := by
  rcases upserted_or_db_eq halerts w row.1 row.2 with ⟨-, -, parsed, ioc, hup⟩ | ⟨-, hdb, hissued⟩
  · exact h.upserted hup
  · exact h.of_db_eq hdb hissued

theorem once_afterRow (halerts : S.alerts = some s) (h : S.Watched rules w) (hw : Once w)
    (row : Row) : Once (S.afterRow w row) ↔ S.RowUnseen w row := by
  rcases upserted_or_db_eq halerts w row.1 row.2 with ⟨hcomp, hrelease, parsed, ioc, hup⟩ | ⟨hnot, hdb, -⟩
  · rw [once_upserted h.counted hup hw]
    refine ⟨fun hnone _ _ parsed' hparsed => ?_, fun hunseen => hunseen hrelease hcomp _ hup.classified⟩
    obtain rfl := Except.ok.inj (hup.classified.symm.trans hparsed)
    exact hnone
  · refine ⟨fun _ hrelease hcomp => absurd ⟨hcomp, hrelease⟩ hnot, fun _ => ?_⟩
    rw [Once, hdb]
    exact hw

theorem not_once_afterRow (halerts : S.alerts = some s) (hw : ¬ Once w) (row : Row) :
    ¬ Once (S.afterRow w row) := by
  rcases upserted_or_db_eq halerts w row.1 row.2 with ⟨-, -, parsed, ioc, hup⟩ | ⟨-, hdb, -⟩
  · exact not_once_upserted hup hw
  · rw [Once, hdb]
    exact hw

theorem issued_le_rows (halerts : S.alerts = some s) (w : IntelWorld) (rows : List Row) :
    w.issued ≤ (Runs.run S.afterRow w rows).issued := by
  refine Runs.run_preserves (I := fun w' : IntelWorld => w.issued ≤ w'.issued) (fun w' row h => ?_)
    le_rfl rows
  rcases upserted_or_db_eq halerts w' row.1 row.2 with ⟨-, -, parsed, ioc, hup⟩ | ⟨-, -, hissued⟩
  · exact h.trans (issued_le_upserted hup)
  · exact h.trans hissued

theorem watched_settle (halerts : S.alerts = some s) (h : S.Watched rules w) (commit : Option Exn)
    (rows : List Row) : S.Watched rules (settle commit w (Runs.run S.afterRow w rows)) := by
  cases commit with
  | none =>
      have hstep : ∀ w row, S.Watched rules w → S.Watched rules (S.afterRow w row) :=
        fun w row h => watched_afterRow halerts h row
      exact Runs.run_preserves hstep h rows
  | some e => exact h.of_db_eq rfl (issued_le_rows halerts w rows)

theorem once_settle (halerts : S.alerts = some s) (h : S.Watched rules w) (hw : Once w)
    (commit : Option Exn) (rows : List Row) :
    Once (settle commit w (Runs.run S.afterRow w rows)) ↔
      (commit = none → Runs.Meets S.afterRow S.RowUnseen w rows) := by
  cases commit with
  | none =>
      simp only [settle, forall_const]
      exact Runs.run_iff_meets (I := S.Watched rules) (fun w row h => watched_afterRow halerts h row)
        (fun w row h hw => once_afterRow halerts h hw row)
        (fun w row _ hw => not_once_afterRow halerts hw row) h hw
  | some e => simpa [settle, IntelWorld.rollback, Once] using hw

theorem watched_afterUpsert (halerts : S.alerts = some s) (h : S.Watched rules w)
    (commit : Option Exn) (row : Row) : S.Watched rules (S.afterUpsert commit w row) := by
  rcases afterUpsert_cases halerts commit w row.1 row.2 with
    ⟨-, -, parsed, ioc, hup⟩ | ⟨-, hdb, hissued⟩
  · exact h.upserted hup
  · exact h.of_db_eq hdb hissued

theorem once_afterUpsert (halerts : S.alerts = some s) (h : S.Watched rules w) (hw : Once w)
    (commit : Option Exn) (row : Row) :
    Once (S.afterUpsert commit w row) ↔ (commit = none → S.Unseen w.db row) := by
  rcases afterUpsert_cases halerts commit w row.1 row.2 with
    ⟨hcomp, hcommit, parsed, ioc, hup⟩ | ⟨hnot, hdb, -⟩
  · rw [once_upserted h.counted hup hw]
    refine ⟨fun hnone _ _ parsed' hparsed => ?_, fun hunseen => hunseen hcommit hcomp _ hup.classified⟩
    obtain rfl := Except.ok.inj (hup.classified.symm.trans hparsed)
    exact hnone
  · refine ⟨fun _ hcommit hcomp => absurd ⟨hcomp, hcommit⟩ hnot, fun _ => ?_⟩
    rw [Once, hdb]
    exact hw

theorem watched_step (halerts : S.alerts = some s) (h : S.Watched rules w) (request : Request) :
    S.Watched rules (S.step w request) := by
  cases request with
  | upsert call c commit =>
      rw [step_upsert]
      exact watched_afterUpsert halerts h commit (call, c)
  | rerun iocId userId c commit =>
      rw [step_rerun]
      cases requestedRerun w.db iocId userId with
      | none => exact h
      | some call => exact watched_afterUpsert halerts h commit (call, c)
  | collect indicators doEnrich commit =>
      rw [step_collect]
      exact watched_settle halerts h commit _
  | bulk req conditions commit =>
      rw [step_bulk]
      exact watched_settle halerts h commit _

theorem once_step (halerts : S.alerts = some s) (h : S.Watched rules w) (hw : Once w)
    (request : Request) : Once (S.step w request) ↔ S.RequestUnseen w request := by
  cases request with
  | upsert call c commit =>
      rw [step_upsert, RequestUnseen]
      exact once_afterUpsert halerts h hw commit (call, c)
  | rerun iocId userId c commit =>
      rw [step_rerun, RequestUnseen]
      cases requestedRerun w.db iocId userId with
      | none => simpa using hw
      | some call => simpa using once_afterUpsert halerts h hw commit (call, c)
  | collect indicators doEnrich commit =>
      rw [step_collect, RequestUnseen]
      exact once_settle halerts h hw commit _
  | bulk req conditions commit =>
      rw [step_bulk, RequestUnseen]
      exact once_settle halerts h hw commit _

/-- **A rule for new indicators fires once, if nothing is sighted again.**
Whatever the rules are, each of them for new indicators has raised exactly
one alert for each stored indicator, in every state of the run, if and only
if there is none or no request commits a second sighting. -/
theorem firesOnce_iff (env : IntelEnv) (alerts : AlertService)
    (rules : Table AlertRule AlertRule.id) (requests : List Request) :
    Runs.Always (getIocService env alerts).step FiresOnce { db := .withRules rules } requests ↔
      newIocRules (.withRules rules) = [] ∨
        Runs.Meets (getIocService env alerts).step (getIocService env alerts).RequestUnseen
          { db := .withRules rules } requests := by
  have hwatched : (getIocService env alerts).Watched (newIocRules (.withRules rules))
      { db := .withRules rules } := ⟨counted_withRules rules, rfl⟩
  have hinv : ∀ w request, (getIocService env alerts).Watched (newIocRules (.withRules rules)) w →
      (getIocService env alerts).Watched (newIocRules (.withRules rules))
        ((getIocService env alerts).step w request) :=
    fun w request h => watched_step rfl h request
  by_cases hrules : newIocRules (.withRules rules) = []
  · simp only [hrules, true_or, iff_true]
    refine Runs.always_of_invariant hinv (fun w h rule hrule => ?_) hwatched requests
    rw [h.rules, hrules] at hrule
    cases hrule
  · have honce : ∀ w, (getIocService env alerts).Watched (newIocRules (.withRules rules)) w →
        (FiresOnce w ↔ Once w) := fun w h => firesOnce_iff_once h.counted (h.rules ▸ hrules)
    have hstep : ∀ w request,
        (getIocService env alerts).Watched (newIocRules (.withRules rules)) w → FiresOnce w →
        (FiresOnce ((getIocService env alerts).step w request) ↔
          (getIocService env alerts).RequestUnseen w request) := by
      intro w request h hw
      rw [honce _ (hinv w request h)]
      exact once_step rfl h ((honce w h).mp hw) request
    have hnone : FiresOnce { db := .withRules rules } := by
      simp [FiresOnce, IntelDb.withRules, Table.empty]
    rw [or_iff_right hrules]
    exact Runs.always_iff_meets hinv hstep hwatched hnone

/-- The indicator has been entered by hand, in two spellings. -/
def sightedTwice : List Request :=
  [.upsert { rawValue := "evil.example".toList, source := "manual".toList, doEnrich := false }
    { now := 0 } none,
   .upsert { rawValue := "evil[.]example".toList, source := "manual".toList, doEnrich := false }
    { now := 1 } none]

/-- Its second sighting fires the rule again. -/
theorem sightedTwice_firesTwice :
    ¬ Runs.Always (getIocService .sample { enableLiveCollectors := false }).step FiresOnce
      { db := .withRules ⟨[.sample "r1"], by decide⟩ } sightedTwice := by
  intro h
  exact absurd h.last (by unfold FiresOnce; decide +kernel)

end IOCService

end ThreatIntel
