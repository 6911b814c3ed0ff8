import Mathlib.Data.Rat.Defs
import ThreatIntel.Ioc

/-!
# Enrichment

What an ingest takes from the enrichers and the scoring engine, and the
relationships it derives from an indicator. The score itself is computed
elsewhere; here it comes with the service that stores it.
-/

namespace ThreatIntel

/-! ## Enumerations -/

inductive Severity where
  | info
  | low
  | medium
  | high
  | critical
  deriving DecidableEq, Repr

def Severity.value : Severity → String
  | info => "info"
  | low => "low"
  | medium => "medium"
  | high => "high"
  | critical => "critical"

inductive Confidence where
  | unknown
  | low
  | medium
  | high
  | confirmed
  deriving DecidableEq, Repr

namespace Confidence

def value : Confidence → String
  | unknown => "unknown"
  | low => "low"
  | medium => "medium"
  | high => "high"
  | confirmed => "confirmed"

/-- `Confidence(value)`; `none` is the `ValueError`. -/
def ofValue? (value : String) : Option Confidence :=
  [unknown, low, medium, high, confirmed].find? fun c => c.value = value

/-- `_CONFIDENCE_FLOAT`. -/
def toFloat : Confidence → ℚ
  | unknown => 2 / 10
  | low => 4 / 10
  | medium => 6 / 10
  | high => 8 / 10
  | confirmed => 1

end Confidence

/-- `Severity(value)`. -/
def Severity.ofValue? (value : String) : Option Severity :=
  [info, low, medium, high, critical].find? fun s => s.value = value

inductive ThreatLevel where
  | clean
  | low
  | medium
  | high
  | critical
  deriving DecidableEq, Repr

def ThreatLevel.value : ThreatLevel → String
  | clean => "clean"
  | low => "low"
  | medium => "medium"
  | high => "high"
  | critical => "critical"

/-! ## The payload of the enrichers -/

structure GeoIp where
  country : String
  asn : Nat
  org : String
  source : String
  deriving DecidableEq, Repr

structure Dns where
  resolved : List PyStr
  source : String
  blocked : Bool := false
  error : Bool := false
  deriving DecidableEq, Repr

structure Reputation where
  detected : Nat
  total : Nat
  ratio : ℚ
  source : String
  deriving DecidableEq, Repr

/-- The merged payload: a facet that no enricher has added is missing. -/
structure Enrichment where
  geoip : Option GeoIp := none
  dns : Option Dns := none
  reputation : Option Reputation := none
  deriving DecidableEq, Repr

/-- `(enrichment.get("dns") or {}).get("resolved") or []`. -/
def Enrichment.resolved (enrichment : Enrichment) : List PyStr :=
  match enrichment.dns with
  | some dns => dns.resolved
  | none => []

structure ScoreResult where
  score : Int
  level : ThreatLevel
  contributions : List (String × ℚ)
  deriving DecidableEq, Repr

/-! ## Relationships -/

structure CorrelationEdge where
  sourceRef : PyStr
  targetRef : PyStr
  relationship : String
  confidence : ℚ
  source : PyStr
  deriving DecidableEq, Repr

def CorrelationEdge.triple (e : CorrelationEdge) : PyStr × PyStr × String :=
  (e.sourceRef, e.targetRef, e.relationship)

def makeRef (iocType : String) (value : PyStr) : PyStr := iocType.toList ++ ':' :: value

/-- `SplitResult.hostname`; `lower` is `str.lower`. -/
def SplitResult.hostname (lower : PyStr → PyStr) (parts : SplitResult) : Option PyStr :=
  let hostinfo := afterLast '@' parts.netloc
  let hostname :=
    if hostinfo.contains '[' then (cutAt ']' (cutAt '[' hostinfo).2).1 else (cutAt ':' hostinfo).1
  -- a zone keeps its case
  if hostname = [] then none
  else some (lower (hostname.takeWhile (· ≠ '%')) ++ hostname.dropWhile (· ≠ '%'))

/-- `extract_host`. -/
def extractHost (U : Unicode) (lower : PyStr → PyStr) (value : PyStr) :
    IOCType → Except Exn (Option PyStr)
  | .ipv4 | .ipv6 | .domain | .hostname => pure (some value)
  | .url => do
      let parts ← urlsplit U value
      return parts.hostname lower
  | _ => pure none

/-- `_ref_type_for_host`. -/
def refTypeForHost (host : PyStr) : IOCType :=
  match ipAddress? host with
  | none => .domain
  | some .v6 => .ipv6
  | some .v4 => .ipv4

/-- The edge from a URL to its host, if it has one. -/
def hostEdge (selfRef source : PyStr) : Option PyStr → List CorrelationEdge
  | none => []
  | some host =>
      if host = [] then []
      else
        [{ sourceRef := selfRef
           targetRef := makeRef (refTypeForHost host).value host
           relationship := "communicates-with"
           confidence := 9 / 10
           source }]

/-- The edges that `_auto_correlate` upserts, in order. -/
def relationships (U : Unicode) (lower : PyStr → PyStr) (parsed : ParsedIndicator)
    (enrichment : Enrichment) (source : PyStr) : Except Exn (List CorrelationEdge) := do
  let selfRef := makeRef parsed.type.value parsed.value
  let host ← if parsed.type = .url then extractHost U lower parsed.value .url else pure none
  return hostEdge selfRef source host ++ enrichment.resolved.map fun ip =>
    { sourceRef := selfRef
      targetRef := makeRef (refTypeForHost ip).value ip
      relationship := "resolves-to"
      confidence := 8 / 10
      source := "dns".toList }

end ThreatIntel
