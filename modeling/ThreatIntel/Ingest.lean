import ThreatIntel.IntelDb

/-!
# Ingest

`app/services/ioc_service.py` and the evaluation of
`app/services/alert_service.py`: an indicator is classified, enriched,
scored, stored and correlated, and the alert rules are evaluated against
it. A batch does so row by row, each in a savepoint, and goes on after a
row that failed.
-/

namespace ThreatIntel

/-! ## Alerts -/

/-- The service that evaluates the rules, with the setting it reads. -/
structure AlertService where
  enableLiveCollectors : Bool
  deriving DecidableEq, Repr

namespace AlertService

/-- `_active_rules`. -/
def activeRules (db : IntelDb) : List AlertRule := db.alertRules.rows.filter (·.isActive)

/-- `_matches`, which looks at nothing of the indicator but its score. -/
def ruleMatches (rule : AlertRule) (threatScore : Int) : Bool :=
  if rule.metric = "new_ioc" then true
  else if rule.metric ≠ "threat_score" then false
  else if rule.operator = "gte" then rule.threshold ≤ threatScore
  else if rule.operator = "lte" then threatScore ≤ rule.threshold
  else threatScore = rule.threshold

/-- The row `evaluate_ioc` writes. -/
def alertFor (rule : AlertRule) (ioc : Ioc) (id : String) : Alert where
  id
  ruleId := rule.id
  iocId := ioc.id
  severity := ioc.severity
  title := rule.name ++ ": ".toList ++ ioc.defangedValue
  message :=
    "IOC ".toList ++ ioc.defangedValue ++ " (".toList ++ ioc.type.toList ++ ") scored ".toList ++
      (toString ioc.threatScore.val).toList ++ " [".toList ++ ioc.threatLevel.toList ++
      "] from source ".toList ++ ioc.source ++ ".".toList

/-- The event `_publish` sends. -/
def eventFor (alert : Alert) (ioc : Ioc) : AlertEvent where
  id := alert.id
  title := alert.title
  message := alert.message
  severity := alert.severity
  ioc := ioc.defangedValue
  iocType := ioc.type
  threatScore := ioc.threatScore
  threatLevel := ioc.threatLevel

/-- What `_deliver` leaves in `alert.delivered`; `posted` says whether the
webhook took the post. -/
def deliver (s : AlertService) (rule : AlertRule) (posted : Bool) : Bool :=
  if rule.channel = "log" then true
  else if rule.channel ∈ ["webhook", "slack", "discord"] then
    if orDefault rule.url [] = [] ∨ s.enableLiveCollectors = false then false else posted
  else false

/-- `self._session.add(alert)`. -/
def add (alert : Alert) : IntelRoutine Unit :=
  .update fun w => { w with db := { w.db with alerts := w.db.alerts ++ [alert] } }

/-- `alert.delivered = ..`. -/
def setDelivered (id : String) (delivered : Bool) : IntelRoutine Unit :=
  .update fun w =>
    { w with db := { w.db with
        alerts := w.db.alerts.map fun a => if a.id = id then { a with delivered } else a } }

/-- `self._events.publish`: nothing takes it back. -/
def publish (event : AlertEvent) : IntelRoutine Unit :=
  .update fun w => { w with published := w.published ++ [event] }

/-- The loop of `evaluate_ioc`, from the n-th alert on. -/
def evaluateRules (s : AlertService) (env : IntelEnv) (c : Conditions) (ioc : Ioc) :
    Nat → List AlertRule → IntelRoutine (List Alert)
  | _, [] => pure []
  | n, rule :: rules =>
      if ruleMatches rule ioc.threatScore.val = false then evaluateRules s env c ioc n rules
      else do
        let id ← uuid4 env
        let alert := alertFor rule ioc id
        c.pass (.alert n)
        add alert
        c.pass (.deliver n)
        setDelivered id (s.deliver rule (c.posted n))
        publish (eventFor alert ioc)
        let created ← evaluateRules s env c ioc (n + 1) rules
        pure ({ alert with delivered := s.deliver rule (c.posted n) } :: created)

def evaluateIoc (s : AlertService) (env : IntelEnv) (c : Conditions) (ioc : Ioc) :
    IntelRoutine (List Alert) := do
  c.pass .rules
  let rules ← .gets fun w => activeRules w.db
  evaluateRules s env c ioc 0 rules

end AlertService

/-! ## Upserts -/

/-- The arguments of an upsert. -/
structure UpsertCall where
  rawValue : PyStr
  source : PyStr := "manual".toList
  confidence : Confidence := .medium
  severity : Severity := .medium
  tags : List PyStr := []
  references : List PyStr := []
  description : Option PyStr := none
  doEnrich : Bool := true
  userId : Option String := none
  deriving DecidableEq, Repr

/-- `_REPUTABLE`. -/
def reputable : List String :=
  ["abuseipdb", "urlhaus", "malwarebazaar", "otx", "cisa_kev", "virustotal"]

/-- The row of a new indicator. -/
def newIoc (parsed : ParsedIndicator) (call : UpsertCall) (now : Int) (threatScore : IntColumn)
    (level : ThreatLevel) (sightings : IntColumn) (id : String) : Ioc where
  id
  type := parsed.type.value
  value := parsed.value
  defangedValue := defang parsed.value
  source := call.source
  confidence := call.confidence.value
  severity := call.severity.value
  threatScore
  threatLevel := level.value
  sightings
  tags := sortedSet call.tags
  references := call.references
  description := call.description
  firstSeen := some now
  lastSeen := some now

/-- The assignments to the row of a known indicator. -/
def Ioc.resight (call : UpsertCall) (now : Int) (threatScore : IntColumn) (level : ThreatLevel)
    (sightings : IntColumn) (ioc : Ioc) : Ioc :=
  { ioc with
    threatScore
    threatLevel := level.value
    sightings
    lastSeen := some now
    tags := sortedSet (ioc.tags ++ call.tags)
    description :=
      if orDefault call.description [] ≠ [] ∧ orDefault ioc.description [] = [] then
        call.description
      else ioc.description
    references :=
      if call.references ≠ [] then sortedSet (ioc.references ++ call.references)
      else ioc.references }

@[simp] theorem Ioc.key_resight (call : UpsertCall) (now : Int) (threatScore : IntColumn)
    (level : ThreatLevel) (sightings : IntColumn) (ioc : Ioc) :
    (ioc.resight call now threatScore level sightings).key = ioc.key := rfl

/-- The service; an `alerts` of `none` evaluates no rules. -/
structure IOCService extends IntelEnv where
  alerts : Option AlertService

namespace IOCService

def sightingsOf (known : Option Ioc) : Int :=
  match known with
  | some ioc => ioc.sightings.val + 1
  | none => 1

/-- Days since the indicator was first seen. -/
def ageDays (known : Option Ioc) (now : Int) : ℚ :=
  match known.bind (·.firstSeen) with
  | some firstSeen => max 0 ((now - firstSeen : Int) / 86400000000)
  | none => 0

/-- `await self._engine.enrich(..) if do_enrich else {}`. -/
def enrich (call : UpsertCall) (c : Conditions) : IntelRoutine Enrichment :=
  if call.doEnrich then do
    c.pass .enrich
    pure c.enrichment
  else pure {}

/-- `compute_threat_score(signals)`. -/
def assess (S : IOCService) (call : UpsertCall) (enrichment : Enrichment) (now : Int)
    (known : Option Ioc) : ScoreResult :=
  S.score enrichment call.source call.confidence.toFloat
    (reputable.contains (String.ofList call.source)) (sightingsOf known) (ageDays known now)

/-- The row is created or brought up to date. -/
def store (S : IOCService) (call : UpsertCall) (c : Conditions) (parsed : ParsedIndicator)
    (known : Option Ioc) (score : ScoreResult) : IntelRoutine Ioc := do
  let sightings ← toColumn (sightingsOf known)
  let threatScore ← toColumn score.score
  c.pass .store
  match known with
  | none => do
      let id ← uuid4 S.toIntelEnv
      let ioc := newIoc parsed call c.now threatScore score.level sightings id
      IOCRepository.add ioc
      pure ioc
  | some ioc => do
      IOCRepository.modify ioc.key (Ioc.resight call c.now threatScore score.level sightings)
        fun _ => rfl
      pure (ioc.resight call c.now threatScore score.level sightings)

/-- The edges from the n-th on. -/
def upsertEdges (c : Conditions) : Nat → List CorrelationEdge → IntelRoutine Unit
  | _, [] => pure ()
  | n, e :: es => do
      c.pass (.edge n)
      CorrelationRepository.upsertEdge e
      upsertEdges c (n + 1) es

/-- `_auto_correlate`. -/
def autoCorrelate (S : IOCService) (c : Conditions) (parsed : ParsedIndicator)
    (enrichment : Enrichment) (source : PyStr) : IntelRoutine Unit := do
  let edges ← .ofExcept
    (relationships S.interpreter.unicode S.lower parsed enrichment source)
  upsertEdges c 0 edges

/-- The engine record, the relationships and the audit row. -/
def annotate (S : IOCService) (call : UpsertCall) (c : Conditions) (parsed : ParsedIndicator)
    (known : Option Ioc) (enrichment : Enrichment) (score : ScoreResult) (ioc : Ioc) :
    IntelRoutine Unit := do
  c.pass .engineRecord
  EnrichmentRepository.upsert ioc.id "engine" { enrichment, score }
  S.autoCorrelate c parsed enrichment call.source
  c.pass .audit
  AuditRepository.recordIngest (if known.isNone then "ioc.create" else "ioc.update") call.userId
    [("type", .str parsed.type.value), ("score", .int score.score),
      ("source", .str (String.ofList call.source))]

/-- The upsert up to the evaluation of the rules. -/
def persist (S : IOCService) (call : UpsertCall) (c : Conditions) : IntelRoutine Ioc := do
  let parsed ← .ofExcept (Indicators.classifyIndicator S.interpreter.unicode call.rawValue)
  let enrichment ← enrich call c
  c.pass .fetch
  let known ← IOCRepository.getByTypeValue (parsed.type.value, parsed.value)
  let score := S.assess call enrichment c.now known
  let ioc ← S.store call c parsed known score
  S.annotate call c parsed known enrichment score ioc
  pure ioc

def upsert (S : IOCService) (call : UpsertCall) (c : Conditions) : IntelRoutine Ioc := do
  let ioc ← S.persist call c
  match S.alerts with
  | some alerts => do
      let _ ← alerts.evaluateIoc S.toIntelEnv c ioc
      pure ioc
  | none => pure ioc

/-- The upsert of a re-enrichment; `none` where reading the two
enumerations back from the row raises `ValueError`. -/
def rerunCall (ioc : Ioc) (userId : Option String) : Option UpsertCall := do
  let confidence ← Confidence.ofValue? ioc.confidence
  let severity ← Severity.ofValue? ioc.severity
  return { rawValue := ioc.value, source := ioc.source, confidence, severity, userId }

/-- `rerun_enrichment`. -/
def rerunEnrichment (S : IOCService) (ioc : Ioc) (userId : Option String) (c : Conditions) :
    IntelRoutine Ioc :=
  match rerunCall ioc userId with
  | some call => S.upsert call c
  | none => .raise (.python .valueError)

/-! ## Batches -/

/-- `async with session.begin_nested(): await self.upsert(..)`. -/
def savepoint (S : IOCService) (call : UpsertCall) (c : Conditions) : IntelRoutine Ioc :=
  .atomically IntelWorld.rollback do
    let ioc ← S.upsert call c
    c.pass .release
    pure ioc

/-- One row of a batch, whose failure is caught. -/
def tryRow (S : IOCService) (call : UpsertCall) (c : Conditions) : IntelRoutine (Except Exn Ioc) :=
  .tryExcept (do
      let ioc ← S.savepoint call c
      pure (.ok ioc))
    fun e => some (pure (.error e))

end IOCService

structure CollectedIndicator where
  value : PyStr
  source : PyStr
  confidence : Confidence := .medium
  severity : Severity := .medium
  tags : List PyStr := []
  references : List PyStr := []
  description : Option PyStr := none
  deriving DecidableEq, Repr

def CollectedIndicator.call (ind : CollectedIndicator) (doEnrich : Bool) : UpsertCall where
  rawValue := ind.value
  source := ind.source
  confidence := ind.confidence
  severity := ind.severity
  tags := ind.tags
  references := ind.references
  description := ind.description
  doEnrich

structure IngestSummary where
  ingested : Nat
  skipped : Nat
  deriving DecidableEq, Repr

/-- The arguments of a bulk import. -/
structure BulkRequest where
  content : PyStr
  fmt : String := "auto"
  source : PyStr := "import".toList
  confidence : Confidence := .low
  severity : Severity := .medium
  tags : List PyStr := []
  doEnrich : Bool := false
  limit : Nat := 1000
  userId : Option String := none
  deriving DecidableEq, Repr

def BulkRequest.call (req : BulkRequest) (value : PyStr) : UpsertCall where
  rawValue := value
  source := req.source
  confidence := req.confidence
  severity := req.severity
  tags := req.tags
  doEnrich := req.doEnrich
  userId := req.userId

/-- An entry of the report; a failed one carries the exception whose text
the source writes. -/
inductive BulkItem where
  | imported (value : PyStr) (type : String) (threatScore : IntColumn)
  | failed (value : PyStr) (error : Exn)

structure BulkSummary where
  extracted : Nat
  imported : Nat
  failed : Nat
  items : List BulkItem

namespace IOCService

/-- The loop of `ingest_from_collector`. -/
def ingestLoop (S : IOCService) (doEnrich : Bool) :
    List (CollectedIndicator × Conditions) → IngestSummary → IntelRoutine IngestSummary
  | [], summary => pure summary
  | (ind, c) :: rest, summary => do
      let outcome ← S.tryRow (ind.call doEnrich) c
      match outcome with
      | .ok _ => S.ingestLoop doEnrich rest { summary with ingested := summary.ingested + 1 }
      | .error _ => S.ingestLoop doEnrich rest { summary with skipped := summary.skipped + 1 }

def ingestFromCollector (S : IOCService) (indicators : List (CollectedIndicator × Conditions))
    (doEnrich : Bool) : IntelRoutine IngestSummary :=
  S.ingestLoop doEnrich indicators { ingested := 0, skipped := 0 }

/-- The loop of `bulk_import`, with the number of values imported and the
report so far. -/
def bulkLoop (S : IOCService) (req : BulkRequest) :
    List (PyStr × Conditions) → Nat → List BulkItem → IntelRoutine (Nat × List BulkItem)
  | [], imported, items => pure (imported, items)
  | (value, c) :: rest, imported, items => do
      let outcome ← S.tryRow (req.call value) c
      match outcome with
      | .ok ioc =>
          S.bulkLoop req rest (imported + 1)
            (items ++ [.imported ioc.defangedValue ioc.type ioc.threatScore])
      | .error e => S.bulkLoop req rest imported (items ++ [.failed value e])

/-- The values of a document, each with the conditions its upsert meets. -/
def withConditions (conditions : Nat → Conditions) (values : List PyStr) :
    List (PyStr × Conditions) :=
  values.zipIdx.map fun vi => (vi.1, conditions vi.2)

def bulkImport (S : IOCService) (req : BulkRequest) (conditions : Nat → Conditions) :
    IntelRoutine BulkSummary := do
  let values ← .ofExcept (Extract.extractIndicators S.interpreter req.content req.fmt req.limit)
  let (imported, items) ← S.bulkLoop req (withConditions conditions values) 0 []
  pure { extracted := values.length, imported, failed := values.length - imported, items }

/-! ## Requests -/

/-- A request to the service, each in its own unit of work, with the error
its commit ends in, if it does. -/
inductive Request where
  | upsert (call : UpsertCall) (c : Conditions) (commit : Option Exn)
  | rerun (iocId : String) (userId : Option String) (c : Conditions) (commit : Option Exn)
  | collect (indicators : List (CollectedIndicator × Conditions)) (doEnrich : Bool)
      (commit : Option Exn)
  | bulk (req : BulkRequest) (conditions : Nat → Conditions) (commit : Option Exn)

/-- The unit of work of `get_session`. -/
def unitOfWork {α : Type} (commit : Option Exn) (x : IntelRoutine α) : IntelRoutine α :=
  .atomically IntelWorld.rollback do
    let a ← x
    match commit with
    | some e => .raise e
    | none => pure a

/-- The handler of a re-enrichment: the row, and then the service. -/
def enrichIoc (S : IOCService) (iocId : String) (userId : Option String) (c : Conditions) :
    IntelRoutine Ioc := do
  let ioc ← .gets fun w => w.db.iocs.rows.find? fun r => r.id = iocId
  match ioc with
  | some ioc => S.rerunEnrichment ioc userId c
  | none => .raise (.app (.raise .notFound "IOC not found."))

/-- `get_ioc_service`. -/
def getIocService (env : IntelEnv) (alerts : AlertService) : IOCService :=
  { env with alerts := some alerts }

/-- What a request leaves behind. -/
def step (S : IOCService) (w : IntelWorld) : Request → IntelWorld
  | .upsert call c commit => ((unitOfWork commit (S.upsert call c)).run w).2
  | .rerun iocId userId c commit => ((unitOfWork commit (S.enrichIoc iocId userId c)).run w).2
  | .collect indicators doEnrich commit =>
      ((unitOfWork commit (S.ingestFromCollector indicators doEnrich)).run w).2
  | .bulk req conditions commit => ((unitOfWork commit (S.bulkImport req conditions)).run w).2

end IOCService

end ThreatIntel
