import ThreatIntel.IngestBatch

/-!
# The table of indicators as a summary of what was sighted

The specification of an ingest: the history is the list of the upserts
that went through and were committed, and each row of the table sums up
the part of the history that is about its indicator. `Summarises` says
what a row has to do with its part, and the run theorem that the table
stays a summary whatever is requested and whatever fails.
-/

namespace ThreatIntel

/-- An upsert that went through: the indicator, the arguments, the time. -/
structure Sighting where
  key : String × PyStr
  call : UpsertCall
  time : Int
  deriving DecidableEq, Repr

/-- The first description that is not empty. -/
def firstDescription (history : List Sighting) : Option PyStr :=
  history.findSome? fun s => s.call.description.filter (· ≠ [])

/-- A row sums up the sightings of its indicator. -/
structure Summarises (ioc : Ioc) (history : List Sighting) : Prop where
  sightings : ioc.sightings.val = history.length
  tagsSorted : ioc.tags.Pairwise (· < ·)
  tags : ∀ t, t ∈ ioc.tags ↔ ∃ s ∈ history, t ∈ s.call.tags
  references : ∀ r, r ∈ ioc.references ↔ ∃ s ∈ history, r ∈ s.call.references
  description : ∀ text ∈ firstDescription history, ioc.description = some text
  noDescription : firstDescription history = none → orDefault ioc.description [] = []
  first : ∃ s ∈ history.head?, ioc.firstSeen = some s.time ∧ ioc.source = s.call.source ∧
    ioc.confidence = s.call.confidence.value ∧ ioc.severity = s.call.severity.value
  last : ∃ s ∈ history.getLast?, ioc.lastSeen = some s.time

/-- The part of the history about one indicator. -/
def historyOf (key : String × PyStr) (history : List Sighting) : List Sighting :=
  history.filter fun s => s.key = key

/-- The table has one row for each indicator in the history, which sums up
its part of it. -/
structure Mirrors (iocs : Table Ioc Ioc.key) (history : List Sighting) : Prop where
  unique : (iocs.rows.map Ioc.key).Nodup
  keys : ∀ key, (∃ ioc ∈ iocs.rows, ioc.key = key) ↔ ∃ s ∈ history, s.key = key
  rows : ∀ ioc ∈ iocs.rows, Summarises ioc (historyOf ioc.key history)

/-! ## One sighting more -/

/-- A description that is not empty. -/
def nonEmpty (text : Option PyStr) : Option PyStr := text.filter (· ≠ [])

theorem nonEmpty_eq_none_iff (text : Option PyStr) : nonEmpty text = none ↔ orDefault text [] = [] := by
  cases text with
  | none => simp [orDefault, nonEmpty]
  | some s => by_cases h : s = [] <;> simp [orDefault, nonEmpty, h]

theorem eq_of_nonEmpty {text : Option PyStr} {s : PyStr} (h : nonEmpty text = some s) :
    text = some s := (Option.filter_eq_some_iff.mp h).1

theorem ne_nil_of_firstDescription {history : List Sighting} {s : PyStr}
    (h : firstDescription history = some s) : s ≠ [] := by
  obtain ⟨sighting, -, hs⟩ := List.exists_of_findSome?_eq_some h
  simpa using (Option.filter_eq_some_iff.mp hs).2

@[simp] theorem firstDescription_nil : firstDescription [] = none := rfl

theorem firstDescription_concat (history : List Sighting) (s : Sighting) :
    firstDescription (history ++ [s]) = (firstDescription history).or (nonEmpty s.call.description) := by
  rw [firstDescription, List.findSome?_append, firstDescription]
  congr 1
  rw [List.findSome?_cons, nonEmpty]
  cases Option.filter (fun x => decide (x ≠ [])) s.call.description <;> rfl

theorem historyOf_concat_self {key : String × PyStr} {history : List Sighting} {s : Sighting}
    (h : s.key = key) : historyOf key (history ++ [s]) = historyOf key history ++ [s] := by
  simp [historyOf, h]

theorem historyOf_concat_ne {key : String × PyStr} {history : List Sighting} {s : Sighting}
    (h : s.key ≠ key) : historyOf key (history ++ [s]) = historyOf key history := by
  simp [historyOf, h]

/-- A new row sums up its only sighting. -/
theorem summarises_newIoc {parsed : ParsedIndicator} {call : UpsertCall} {now : Int}
    {threatScore sightings : IntColumn} {level : ThreatLevel} {id : String}
    (h : sightings.val = 1) (key : String × PyStr) :
    Summarises (newIoc parsed call now threatScore level sightings id) [⟨key, call, now⟩] where
  sightings := by simpa [newIoc] using h
  tagsSorted := sorted_sortedSet _
  tags := by simp [newIoc, mem_sortedSet]
  references := by simp [newIoc]
  description := by
    intro text htext
    have hfirst := firstDescription_concat [] ⟨key, call, now⟩
    exact eq_of_nonEmpty (hfirst.symm.trans htext)
  noDescription := by
    intro hnone
    have hfirst := firstDescription_concat [] ⟨key, call, now⟩
    exact (nonEmpty_eq_none_iff _).mp (hfirst.symm.trans hnone)
  first := ⟨_, rfl, rfl, rfl, rfl, rfl⟩
  last := ⟨_, rfl, rfl⟩

theorem description_resight (call : UpsertCall) (now : Int) (threatScore : IntColumn)
    (level : ThreatLevel) (sightings : IntColumn) (ioc : Ioc) :
    (ioc.resight call now threatScore level sightings).description =
      if orDefault call.description [] ≠ [] ∧ orDefault ioc.description [] = [] then
        call.description
      else ioc.description := rfl

/-- A row that is brought up to date sums up one sighting more. -/
theorem Summarises.resight {ioc : Ioc} {history : List Sighting} (h : Summarises ioc history)
    {call : UpsertCall} {now : Int} {threatScore sightings : IntColumn} {level : ThreatLevel}
    (hsightings : sightings.val = ioc.sightings.val + 1) (key : String × PyStr) :
    Summarises (ioc.resight call now threatScore level sightings) (history ++ [⟨key, call, now⟩]) where
  sightings := by simp [Ioc.resight, hsightings, h.sightings]
  tagsSorted := sorted_sortedSet _
  tags := by
    intro t
    simp [Ioc.resight, mem_sortedSet, h.tags, or_and_right, exists_or]
  references := by
    intro r
    simp only [Ioc.resight]
    split
    · simp [mem_sortedSet, h.references, or_and_right, exists_or]
    · next hnone =>
        have hempty : call.references = [] := not_not.mp hnone
        simp [h.references, hempty, or_and_right, exists_or]
  description := by
    intro text htext
    rw [firstDescription_concat] at htext
    cases hfirst : firstDescription history with
    | some old =>
        -- what was there stays
        rw [hfirst] at htext
        obtain rfl : old = text := by simpa using htext
        have hold := h.description old hfirst
        have hne : orDefault ioc.description [] ≠ [] := by
          rw [hold, orDefault, if_neg (ne_nil_of_firstDescription hfirst)]
          exact ne_nil_of_firstDescription hfirst
        rw [description_resight, if_neg fun hboth => hne hboth.2]
        exact hold
    | none =>
        rw [hfirst, Option.none_or] at htext
        have hgiven : orDefault call.description [] ≠ [] := by
          intro hempty
          rw [(nonEmpty_eq_none_iff _).mpr hempty] at htext
          cases htext
        rw [description_resight, if_pos ⟨hgiven, h.noDescription hfirst⟩]
        exact eq_of_nonEmpty htext
  noDescription := by
    intro hnone
    rw [firstDescription_concat, Option.or_eq_none_iff] at hnone
    have hempty := (nonEmpty_eq_none_iff _).mp hnone.2
    simp [Ioc.resight, hempty, h.noDescription hnone.1]
  first := by
    obtain ⟨s, hs, hfirst⟩ := h.first
    exact ⟨s, by rw [List.head?_append, Option.mem_def.mp hs]; rfl, hfirst⟩
  last := ⟨_, by rw [List.getLast?_concat]; rfl, rfl⟩

/-! ## The table -/

theorem historyOf_eq_nil {key : String × PyStr} {history : List Sighting}
    (h : ¬ ∃ s ∈ history, s.key = key) : historyOf key history = [] := by
  rw [historyOf, List.filter_eq_nil_iff]
  intro s hs hkey
  exact h ⟨s, hs, by simpa using hkey⟩

theorem Mirrors.empty : Mirrors .empty [] where
  unique := List.nodup_nil
  keys := by simp [Table.empty]
  rows := by simp [Table.empty]

theorem key_newIoc (parsed : ParsedIndicator) (call : UpsertCall) (now : Int)
    (threatScore : IntColumn) (level : ThreatLevel) (sightings : IntColumn) (id : String) :
    (newIoc parsed call now threatScore level sightings id).key = (parsed.type.value, parsed.value) :=
  rfl

/-- The table after a first sighting. -/
theorem Mirrors.insert {iocs : Table Ioc Ioc.key} {history : List Sighting} (h : Mirrors iocs history)
    {ioc : Ioc} {s : Sighting} (hkey : ioc.key = s.key) (hnew : iocs.hasKey ioc.key = false)
    (hioc : Summarises ioc [s]) : Mirrors (iocs.insert ioc) (history ++ [s]) where
  unique := (iocs.insert ioc).nodupKeys
  keys := by
    intro key
    simp only [Table.rows_insert hnew, List.mem_append, List.mem_singleton, or_and_right, exists_or,
      exists_eq_left, h.keys key, hkey]
  rows := by
    intro row hrow
    have hfresh := (iocs.hasKey_eq_false_iff _).mp hnew
    rw [Table.rows_insert hnew, List.mem_append, List.mem_singleton] at hrow
    rcases hrow with hold | rfl
    · rw [historyOf_concat_ne fun heq => hfresh row hold (heq.symm.trans hkey.symm)]
      exact h.rows row hold
    · have hnone : historyOf row.key history = [] :=
        historyOf_eq_nil fun hs => by
          obtain ⟨r, hr, hrkey⟩ := (h.keys row.key).mpr hs
          exact hfresh r hr hrkey
      rw [historyOf_concat_self hkey.symm, hnone]
      exact hioc

/-- The table after another sighting. -/
theorem Mirrors.modify {iocs : Table Ioc Ioc.key} {history : List Sighting} (h : Mirrors iocs history)
    {row : Ioc} {s : Sighting} (hrow : row ∈ iocs.rows) (hkey : row.key = s.key) {f : Ioc → Ioc}
    (hf : ∀ r, (f r).key = r.key) (hsum : Summarises (f row) (historyOf row.key history ++ [s])) :
    Mirrors (iocs.modify row.key f hf) (history ++ [s]) where
  unique := (iocs.modify row.key f hf).nodupKeys
  keys := by
    intro key
    have hsame : (∃ ioc ∈ (iocs.modify row.key f hf).rows, ioc.key = key) ↔
        ∃ ioc ∈ iocs.rows, ioc.key = key := by
      rw [← Table.hasKey_iff, ← Table.hasKey_iff, Table.hasKey_modify]
    rw [hsame, h.keys]
    simp only [List.mem_append, List.mem_singleton, or_and_right, exists_or, exists_eq_left]
    refine ⟨.inl, fun hs => hs.elim id fun heq => ?_⟩
    rw [← h.keys, ← heq, ← hkey]
    exact ⟨row, hrow, rfl⟩
  rows := by
    intro r hr
    obtain ⟨r₀, hr₀, rfl⟩ := (iocs.mem_rows_modify _ _ _ _).mp hr
    split
    · next heq =>
        obtain rfl : r₀ = row := List.inj_on_of_nodup_map iocs.nodupKeys hr₀ hrow heq
        rw [hf, historyOf_concat_self hkey.symm]
        exact hsum
    · next hne =>
        rw [historyOf_concat_ne fun heq => hne (heq.symm.trans hkey.symm)]
        exact h.rows r₀ hr₀

namespace IOCService

variable {S : IOCService} {call : UpsertCall} {c : Conditions} {ioc : Ioc} {w w' : IntelWorld}
  {past : List Sighting}

/-! ## The history of a run -/

/-- The sighting an upsert makes if it goes through. -/
def sighting? (S : IOCService) (row : Row) : Option Sighting :=
  match Indicators.classifyIndicator S.interpreter.unicode row.1.rawValue with
  | .ok parsed => some ⟨(parsed.type.value, parsed.value), row.1, row.2.now⟩
  | .error _ => none

/-- The sighting of an upsert with the given outcome. -/
def sightingOf (S : IOCService) (row : Row) : Except Exn Ioc → List Sighting
  | .ok _ => (S.sighting? row).toList
  | .error _ => []

/-- A single upsert, in its own unit of work. -/
def upsertHistory (S : IOCService) (commit : Option Exn) (w : IntelWorld) (row : Row) :
    List Sighting :=
  S.sightingOf row ((unitOfWork commit (S.upsert row.1 row.2)).run w).1

/-- The rows of a batch that go through. -/
def rowsHistory (S : IOCService) : IntelWorld → List Row → List Sighting
  | _, [] => []
  | w, row :: rows => S.sightingOf row (S.outcome w row) ++ S.rowsHistory (S.afterRow w row) rows

/-- They count if the batch is committed. -/
def batchHistory (S : IOCService) (commit : Option Exn) (w : IntelWorld) (rows : List Row) :
    List Sighting :=
  match commit with
  | none => S.rowsHistory w rows
  | some _ => []

def requestHistory (S : IOCService) (w : IntelWorld) : Request → List Sighting
  | .upsert call c commit => S.upsertHistory commit w (call, c)
  | .rerun iocId userId c commit =>
      match requestedRerun w.db iocId userId with
      | some call => S.upsertHistory commit w (call, c)
      | none => []
  | .collect indicators doEnrich commit =>
      S.batchHistory commit w (collectedRows indicators doEnrich)
  | .bulk req conditions commit => S.batchHistory commit w (S.documentRows req conditions)

/-- The upserts of a run that went through and were committed. -/
def history (S : IOCService) : IntelWorld → List Request → List Sighting
  | _, [] => []
  | w, request :: requests => S.requestHistory w request ++ S.history (S.step w request) requests

/-! ## One upsert -/

/-- Storing an indicator keeps the table a summary. -/
theorem mirrors_stored {parsed : ParsedIndicator} {score : ScoreResult} {known : Option Ioc}
    (h : Mirrors w.db.iocs past) (hknown : knownIoc w.db parsed = known)
    (hstored : Stored S call c parsed score w known ioc w') :
    Mirrors w'.db.iocs (past ++ [⟨(parsed.type.value, parsed.value), call, c.now⟩]) := by
  cases hstored with
  | created hsightings hscore hioc hnew =>
      exact h.insert (by rw [hioc, key_newIoc]) hnew (hioc ▸ summarises_newIoc hsightings _)
  | @updated sightings threatScore row hsightings hscore =>
      have hrow : row ∈ w.db.iocs.rows := Table.mem_of_get? hknown
      have hkey : row.key = (parsed.type.value, parsed.value) := Table.key_of_get? hknown
      have hsum : Summarises (row.resight call c.now threatScore score.level sightings)
          (historyOf row.key past ++ [⟨(parsed.type.value, parsed.value), call, c.now⟩]) :=
        (h.rows row hrow).resight hsightings _
      exact h.modify (f := Ioc.resight call c.now threatScore score.level sightings) hrow hkey
        (fun _ => rfl) hsum

/-- An upsert that goes through adds its sighting. -/
theorem mirrors_upsert (h : Mirrors w.db.iocs past)
    (hrun : (S.upsert call c).run w = (.ok ioc, w')) :
    Mirrors w'.db.iocs (past ++ S.sightingOf (call, c) (.ok ioc)) := by
  obtain ⟨parsed, w₁, hp, hiocs⟩ := upsert_ok hrun
  obtain ⟨w₂, hstored, hiocs', -⟩ := hp.stored
  have hsighting : S.sightingOf (call, c) (.ok ioc) =
      [⟨(parsed.type.value, parsed.value), call, c.now⟩] := by
    simp [sightingOf, sighting?, hp.classified]
  rw [hiocs, hiocs', hsighting]
  exact mirrors_stored h rfl hstored

/-- A request that fails leaves the database as it was. -/
theorem db_unitOfWork_of_error {α : Type} {x : IntelRoutine α} {commit : Option Exn} {e : Exn}
    (h : ((unitOfWork commit x).run w).1 = .error e) :
    ((unitOfWork commit x).run w).2.db = w.db := by
  rcases hrun : x.run w with ⟨e' | a, w'⟩
  · rw [unitOfWork_error hrun]
    rfl
  · cases commit with
    | none =>
        rw [unitOfWork_commit hrun] at h
        cases h
    | some e' =>
        rw [unitOfWork_abort hrun]
        rfl

theorem mirrors_afterRow (h : Mirrors w.db.iocs past) (row : Row) :
    Mirrors (S.afterRow w row).db.iocs (past ++ S.sightingOf row (S.outcome w row)) := by
  obtain ⟨call, c⟩ := row
  rcases afterRow_cases S w call c with ⟨ioc, hout, -, hrun⟩ | ⟨e, hout, hdb⟩
  · rw [hout]
    exact mirrors_upsert h hrun
  · rw [hout, hdb]
    simpa [sightingOf] using h

theorem mirrors_rows (h : Mirrors w.db.iocs past) (rows : List Row) :
    Mirrors (Runs.run S.afterRow w rows).db.iocs (past ++ S.rowsHistory w rows) := by
  induction rows generalizing w past with
  | nil => simpa [rowsHistory] using h
  | cons row rows ih =>
      rw [Runs.run_cons, rowsHistory, ← List.append_assoc]
      exact ih (mirrors_afterRow h row)

theorem mirrors_settle (h : Mirrors w.db.iocs past) (commit : Option Exn) (rows : List Row) :
    Mirrors (settle commit w (Runs.run S.afterRow w rows)).db.iocs
      (past ++ S.batchHistory commit w rows) := by
  cases commit with
  | none => exact mirrors_rows h rows
  | some _ => simpa [settle, batchHistory, IntelWorld.rollback] using h

theorem mirrors_afterUpsert (h : Mirrors w.db.iocs past) (commit : Option Exn) (row : Row) :
    Mirrors (S.afterUpsert commit w row).db.iocs (past ++ S.upsertHistory commit w row) := by
  obtain ⟨call, c⟩ := row
  rw [afterUpsert, upsertHistory]
  rcases hrun : (S.upsert call c).run w with ⟨e | ioc, w'⟩
  · rw [unitOfWork_error hrun]
    simpa [sightingOf, IntelWorld.rollback] using h
  · cases commit with
    | none =>
        rw [unitOfWork_commit hrun]
        exact mirrors_upsert h hrun
    | some e =>
        rw [unitOfWork_abort hrun]
        simpa [sightingOf, IntelWorld.rollback] using h

/-! ## Runs -/

theorem mirrors_step (h : Mirrors w.db.iocs past) (request : Request) :
    Mirrors (S.step w request).db.iocs (past ++ S.requestHistory w request) := by
  cases request with
  | upsert call c commit =>
      rw [step_upsert, requestHistory]
      exact mirrors_afterUpsert h commit (call, c)
  | rerun iocId userId c commit =>
      rw [step_rerun, requestHistory]
      cases requestedRerun w.db iocId userId with
      | none => simpa using h
      | some call => simpa using mirrors_afterUpsert h commit (call, c)
  | collect indicators doEnrich commit =>
      rw [step_collect, requestHistory]
      exact mirrors_settle h commit _
  | bulk req conditions commit =>
      rw [step_bulk, requestHistory]
      exact mirrors_settle h commit _

theorem mirrors_run (h : Mirrors w.db.iocs past) (requests : List Request) :
    Mirrors (Runs.run S.step w requests).db.iocs (past ++ S.history w requests) := by
  induction requests generalizing w past with
  | nil => simpa [history] using h
  | cons request requests ih =>
      rw [Runs.run_cons, history, ← List.append_assoc]
      exact ih (mirrors_step h request)

/-! ## What goes through -/

/-- No fault is on the way of an upsert: the value is classified, the edges
can be drawn, the row fits and, in a service with alerts, the rules are
evaluated. -/
def GoesThrough (S : IOCService) (db : IntelDb) (call : UpsertCall) (c : Conditions) : Prop :=
  match S.alerts with
  | some _ => S.Completes db call c
  | none => ∃ fired, S.firingRules db call c = some fired

theorem upsert_succeeds_iff : (S.upsert call c).Succeeds w ↔ S.GoesThrough w.db call c := by
  rw [GoesThrough]
  cases halerts : S.alerts with
  | none =>
      rw [Routine.Succeeds, run_upsert_quiet halerts]
      exact persist_succeeds_iff_firingRules
  | some s =>
      constructor
      · rintro ⟨ioc, w', hrun⟩
        exact completes_of_upsert_ok halerts hrun
      · intro hcompletes
        obtain ⟨-, -, ioc, -, -, w', hrun, -⟩ := upsert_completes halerts hcompletes
        exact ⟨ioc, w', hrun⟩

/-- A row of a batch needs its savepoint released as well. -/
theorem outcome_ok_iff : (∃ ioc, S.outcome w (call, c) = .ok ioc) ↔
    S.GoesThrough w.db call c ∧ ¬ c.FailsIn [.release] := by
  rw [← upsert_succeeds_iff]
  constructor
  · rintro ⟨ioc, hout⟩
    rcases afterRow_cases S w call c with ⟨ioc', -, hrelease, hrun⟩ | ⟨e, herror, -⟩
    · exact ⟨⟨ioc', _, hrun⟩, hrelease⟩
    · rw [hout] at herror
      cases herror
  · rintro ⟨⟨ioc, w', hrun⟩, hrelease⟩
    exact ⟨ioc, (savepoint_ok hrun hrelease).1⟩

/-- And an upsert of its own needs the commit. -/
theorem unitOfWork_ok_iff {commit : Option Exn} :
    (∃ ioc, ((unitOfWork commit (S.upsert call c)).run w).1 = .ok ioc) ↔
      S.GoesThrough w.db call c ∧ commit = none := by
  rw [← upsert_succeeds_iff]
  rcases hrun : (S.upsert call c).run w with ⟨e | ioc, w'⟩
  · rw [unitOfWork_error hrun]
    simp [Routine.Succeeds, hrun]
  · cases commit with
    | none =>
        rw [unitOfWork_commit hrun]
        simp [Routine.Succeeds, hrun]
    | some e =>
        rw [unitOfWork_abort hrun]
        simp

/-- What the specification says about one state: what goes through is what
meets no fault, whatever fails leaves the database as it is, and a batch
reports how many of its rows went through and how many did not. -/
structure Accounts (S : IOCService) (w : IntelWorld) : Prop where
  upsertOk : ∀ call c commit, (∃ ioc, ((unitOfWork commit (S.upsert call c)).run w).1 = .ok ioc) ↔
    S.GoesThrough w.db call c ∧ commit = none
  rowOk : ∀ call c, (∃ ioc, S.outcome w (call, c) = .ok ioc) ↔
    S.GoesThrough w.db call c ∧ ¬ c.FailsIn [.release]
  upsert : ∀ call c commit e, ((unitOfWork commit (S.upsert call c)).run w).1 = .error e →
    (S.step w (.upsert call c commit)).db = w.db
  row : ∀ row e, S.outcome w row = .error e → (S.afterRow w row).db = w.db
  collect : ∀ indicators doEnrich, ((S.ingestFromCollector indicators doEnrich).run w).1 =
    .ok { ingested := succeeded (S.outcomes w (collectedRows indicators doEnrich))
          skipped := failed (S.outcomes w (collectedRows indicators doEnrich)) }
  bulk : ∀ req conditions values,
    Extract.extractIndicators S.interpreter req.content req.fmt req.limit = .ok values →
      ∃ summary, ((S.bulkImport req conditions).run w).1 = .ok summary ∧
        summary.extracted = values.length ∧
        summary.imported = succeeded (S.outcomes w (S.documentRows req conditions)) ∧
        summary.failed = failed (S.outcomes w (S.documentRows req conditions))

/-- **Serial ingest is its specification.** From an empty store, whatever is
requested and whatever fails, the table has exactly one row for each
indicator that has been upserted, which sums up its sightings; exactly what
meets no fault goes through, what fails leaves no trace, and the reports
count right. -/
theorem ingest_spec (S : IOCService) (rules : Table AlertRule AlertRule.id) (requests : List Request) :
    Mirrors (Runs.run S.step { db := .withRules rules } requests).db.iocs
        (S.history { db := .withRules rules } requests) ∧
      ∀ w, S.Accounts w := by
  have hrun : Mirrors (Runs.run S.step { db := .withRules rules } requests).db.iocs
      ([] ++ S.history { db := .withRules rules } requests) := mirrors_run .empty requests
  refine ⟨hrun, fun w => ?_⟩
  constructor
  · exact fun _ _ _ => unitOfWork_ok_iff
  · exact fun _ _ => outcome_ok_iff
  · intro call c commit e h
    rw [step]
    exact db_unitOfWork_of_error h
  · intro row e h
    exact db_afterRow_of_error h
  · intro indicators doEnrich
    rw [run_ingestFromCollector]
  · intro req conditions values h
    obtain ⟨summary, hrun, hcounts⟩ := run_bulkImport h conditions w
    exact ⟨summary, congrArg Prod.fst hrun, hcounts⟩

end IOCService

end ThreatIntel
