import Mathlib.Logic.Function.Defs
import ThreatIntel.Auth
import ThreatIntel.Enrichment
import ThreatIntel.Extract

/-!
# The intelligence database

The tables an ingest reads and writes, behind their repositories. Beside
the database the state holds what no rollback takes back: the events that
have been published, and how many identifiers have been drawn.

A call goes to the database and to the enrichers many times, and each
time it may fail. Where this happens to one upsert is part of its
`Conditions`; every place is a `Site`. Nothing written before the failure
outlives it, so it does not matter whether a statement fails before or
after it has taken effect.
-/

namespace ThreatIntel

/-! ## Tables -/

/-- The unique key of `iocs`. -/
def Ioc.key (ioc : Ioc) : String × PyStr := (ioc.type, ioc.value)

/-- The payload that makes a score explainable. -/
structure EnginePayload where
  enrichment : Enrichment
  score : ScoreResult
  deriving DecidableEq, Repr

structure EnrichmentRecord where
  iocId : String
  provider : String
  data : EnginePayload
  deriving DecidableEq, Repr

def EnrichmentRecord.key (r : EnrichmentRecord) : String × String := (r.iocId, r.provider)

/-- `url` is the entry of `channel_config` that is read. -/
structure AlertRule where
  id : String
  name : PyStr
  metric : String
  operator : String
  threshold : Int
  channel : String
  url : Option PyStr
  isActive : Bool
  deriving DecidableEq, Repr

structure Alert where
  id : String
  ruleId : String
  iocId : String
  severity : String
  title : PyStr
  message : PyStr
  delivered : Bool := false
  deriving DecidableEq, Repr

/-- The data of an `alert` event. -/
structure AlertEvent where
  id : String
  title : PyStr
  message : PyStr
  severity : String
  ioc : PyStr
  iocType : String
  threatScore : IntColumn
  threatLevel : String
  deriving DecidableEq

structure IntelDb where
  iocs : Table Ioc Ioc.key
  enrichments : Table EnrichmentRecord EnrichmentRecord.key
  edges : Table CorrelationEdge CorrelationEdge.triple
  alertRules : Table AlertRule AlertRule.id
  alerts : List Alert
  auditLogs : List AuditLog

/-- A database in which there are only rules. -/
def IntelDb.withRules (alertRules : Table AlertRule AlertRule.id) : IntelDb where
  iocs := .empty
  enrichments := .empty
  edges := .empty
  alertRules
  alerts := []
  auditLogs := []

structure IntelWorld where
  db : IntelDb
  published : List AlertEvent := []
  issued : Nat := 0

/-- `session.rollback()`. -/
def IntelWorld.rollback (before after : IntelWorld) : IntelWorld := { after with db := before.db }

/-- What the service is built with. `score` stands for
`compute_threat_score(engine.signals_from(..))`, on the enrichment, the
source, the confidence, whether the source is reputable, the sightings,
and the age in days. `uuid4` never answers twice alike. -/
structure IntelEnv where
  interpreter : Interpreter
  /-- `str.lower` -/
  lower : PyStr → PyStr
  score : Enrichment → PyStr → ℚ → Bool → Int → ℚ → ScoreResult
  uuid4 : Nat → String
  uuid4_injective : Function.Injective uuid4

/-- An environment for texts in ASCII and lower case, with the score of a
first sighting that is neither enriched nor from a reputable source, at
medium confidence. -/
def IntelEnv.sample : IntelEnv where
  interpreter := .ascii
  lower := id
  score _ _ _ _ _ _ :=
    { score := 25
      level := .low
      contributions :=
        [("source_reputation", 11 / 2), ("detection_ratio", 0), ("blacklist_presence", 0),
          ("confidence", 36 / 5), ("recency", 10), ("frequency", 91 / 50), ("geo_risk", 0),
          ("port_risk", 0), ("historical_activity", 3 / 50)] }
  uuid4 n := String.ofList (List.replicate n 'f')
  uuid4_injective m n h := by
    have hlen := congrArg List.length (String.ofList_injective h)
    simpa using hlen

/-- A rule that is active and fires for every indicator. -/
def AlertRule.sample (id : String) : AlertRule where
  id
  name := "any".toList
  metric := "new_ioc"
  operator := "gte"
  threshold := 0
  channel := "log"
  url := none
  isActive := true

abbrev IntelRoutine := Routine Exn IntelWorld

/-! ## Conditions -/

/-- Where an upsert can fail: at a step of its own, at the edge, the alert
or the delivery with the given number, or when its savepoint is released. -/
inductive Site where
  | enrich
  | fetch
  | store
  | engineRecord
  | edge (n : Nat)
  | audit
  | rules
  | alert (n : Nat)
  | deliver (n : Nat)
  | release
  deriving DecidableEq, Repr

structure Fault where
  site : Site
  exn : Exn
  deriving DecidableEq, Repr

/-- What one upsert meets: the answer of the enrichers, the time, whether
the n-th webhook takes its post, and where the upsert fails, if it does. -/
structure Conditions where
  enrichment : Enrichment := {}
  now : Int
  posted : Nat → Bool := fun _ => true
  fault : Option Fault := none

/-- Go past a site. -/
def Conditions.pass (c : Conditions) (site : Site) : IntelRoutine Unit :=
  match c.fault with
  | some fault => .raiseIf (fault.site = site) fault.exn
  | none => pure ()

/-- The fault, if any, is at one of these sites. -/
def Conditions.FailsIn (c : Conditions) (sites : List Site) : Prop :=
  ∃ fault ∈ c.fault, fault.site ∈ sites

instance (c : Conditions) (sites : List Site) : Decidable (c.FailsIn sites) :=
  inferInstanceAs (Decidable (∃ fault ∈ c.fault, fault.site ∈ sites))

/-! ## Repositories -/

/-- `uuid4().hex`. -/
def uuid4 (env : IntelEnv) : IntelRoutine String :=
  .modifyGet fun w => (env.uuid4 w.issued, { w with issued := w.issued + 1 })

/-- The number as a column stores it. -/
def toColumn (n : Int) : IntelRoutine IntColumn :=
  if h : -2 ^ 63 ≤ n ∧ n < 2 ^ 63 then pure ⟨n, h⟩ else .raise (.python .overflowError)

namespace IOCRepository

def getByTypeValue (key : String × PyStr) : IntelRoutine (Option Ioc) :=
  .gets fun w => w.db.iocs.get? key

def add (ioc : Ioc) : IntelRoutine Unit := do
  let taken ← .gets fun w => w.db.iocs.hasKey ioc.key
  .raiseIf taken .integrity
  .update fun w => { w with db := { w.db with iocs := w.db.iocs.insert ioc } }

/-- Assignments to the attributes of a loaded row. -/
def modify (key : String × PyStr) (f : Ioc → Ioc) (hf : ∀ r, (f r).key = r.key) :
    IntelRoutine Unit :=
  .update fun w => { w with db := { w.db with iocs := w.db.iocs.modify key f hf } }

end IOCRepository

/-- `EnrichmentRepository.upsert`. -/
def EnrichmentRepository.upsert (iocId provider : String) (data : EnginePayload) :
    IntelRoutine Unit := do
  let existing ← .gets fun w => w.db.enrichments.get? (iocId, provider)
  match existing with
  | none =>
      .update fun w =>
        { w with db := { w.db with
            enrichments := w.db.enrichments.insert { iocId, provider, data } } }
  | some _ =>
      .update fun w =>
        { w with db := { w.db with
            enrichments := w.db.enrichments.modify (iocId, provider) (fun r => { r with data })
              fun _ => rfl } }

theorem CorrelationEdge.triple_overwrite (e r : CorrelationEdge) :
    triple { r with confidence := e.confidence } = r.triple := rfl

/-- `CorrelationRepository.upsert_edge`: an edge that is there keeps its
source. -/
def CorrelationRepository.upsertEdge (e : CorrelationEdge) : IntelRoutine Unit := do
  let edge ← .gets fun w => w.db.edges.get? e.triple
  match edge with
  | none => .update fun w => { w with db := { w.db with edges := w.db.edges.insert e } }
  | some _ =>
      .update fun w =>
        { w with db := { w.db with
            edges := w.db.edges.modify e.triple (fun r => { r with confidence := e.confidence })
              e.triple_overwrite } }

/-- `AuditRepository.record` for an ingest. -/
def AuditRepository.recordIngest (action : String) (userId : Option String)
    (detail : List (String × Detail)) : IntelRoutine Unit :=
  .update fun w =>
    { w with db := { w.db with
        auditLogs := w.db.auditLogs ++ [{ action, userId, ipAddress := none, detail }] } }

end ThreatIntel
