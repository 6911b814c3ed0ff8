import ThreatIntel.Enrichment
import ThreatIntel.Extract
import ThreatIntel.ProviderClient

/-!
# The collectors

`app/collectors`: the registry of sources, the factory, what each
collector makes of its provider's answer, and the bundled samples. A
collector that is not live, or whose source fails in any way, yields
samples.

An answer is JSON of whatever shape the provider sends, and the code reads
it as Python does: a member of something that is no object raises, a slice
of a text is a text. What it hands on is therefore still JSON.
-/

namespace ThreatIntel

/-! ## Reading an answer -/

namespace Json

/-- `value.get(key, default)`. -/
def getOr (value : Json) (key : String) (default : Json) : Except CollectExn Json :=
  match value with
  | .obj members => pure ((get? members key).getD default)
  | _ => throw .attributeError

/-- `value[key]`. -/
def item (value : Json) (key : String) : Except CollectExn Json :=
  match value with
  | .obj members =>
      match get? members key with
      | some member => pure member
      | none => throw .keyError
  | _ => throw .typeError

/-- `value[:limit]`, as what a loop goes over. -/
def slice (value : Json) (limit : Nat) : Except CollectExn (List Json) :=
  match value with
  | .arr items => pure (items.take limit)
  | .str s => pure ((s.take limit).map fun c => .str [c])
  | _ => throw .typeError

/-- `list(value.values())`. -/
def valuesOf (value : Json) : Except CollectExn (List Json) :=
  match value with
  | .obj members =>
      let d : Dict PyStr Json := members.foldl (fun d member => d.set member.1 member.2) .empty
      pure (d.items.map Prod.snd)
  | _ => throw .attributeError

/-- `for item in value`. -/
def each (value : Json) : Except CollectExn (List Json) :=
  match Extract.iterate value with
  | .ok items => pure items
  | .error _ => throw .typeError

end Json

/-- An entry of a feed. -/
structure FeedEntry where
  title : Option PyStr
  link : Option PyStr
  summary : Option PyStr
  deriving DecidableEq, Repr

/-- What the collectors run in: the providers, the interpreter, `int` of a
float literal and of a text, and `feedparser.parse(text).entries`. -/
structure CollectorEnv extends Internet where
  interpreter : Interpreter
  intOfFloat : PyStr → Except CollectExn Int
  intOfStr : PyStr → Except CollectExn Int
  parseFeed : PyStr → Except CollectExn (List FeedEntry)

namespace CollectorEnv

variable (E : CollectorEnv)

/-- `int(value)`. -/
def toInt : Json → Except CollectExn Int
  | .int n => pure n
  | .bool b => pure (if b then 1 else 0)
  | .float literal => E.intOfFloat literal
  | .str s => E.intOfStr s
  | _ => throw .typeError

/-- `tuple(value or ())`. -/
def tupleOf (value : Json) : Except CollectExn (List Json) :=
  if Extract.truthy E.interpreter value then value.each else pure []

end CollectorEnv

/-- A `CollectedIndicator` as a live collector fills it in. -/
structure Collected where
  value : Json
  source : String
  confidence : Confidence := .medium
  severity : Severity := .medium
  tags : List Json := []
  references : List Json := []
  description : Json := .null

/-- The loop over the rows of an answer: a row yields an indicator or is
passed over, and after an indicator the loop may return. Beside the
indicators it says whether it has. -/
def gather {α : Type} (indicator : α → Except CollectExn (Option Collected))
    (full : List Collected → Bool) (out : List Collected) :
    List α → Except CollectExn (List Collected × Bool)
  | [] => pure (out, false)
  | row :: rows => do
      match ← indicator row with
      | none => gather indicator full out rows
      | some c =>
          if full (out ++ [c]) then pure (out ++ [c], true)
          else gather indicator full (out ++ [c]) rows

/-- The loop over the first of the rows under one name of the answer. -/
def normaliseRows (field : String) (indicator : Json → Except CollectExn (Option Collected))
    (limit : Nat) (data : Json) : Except CollectExn (List Collected) := do
  let rows ← (← data.getOr field (.arr [])).slice limit
  return (← gather indicator (fun _ => false) [] rows).1

/-- The shape of a `_collect_live` that asks one provider once: `normalise`
is what it makes of the answer. -/
def collectJson (E : CollectorEnv) (provider : String) (r : HttpRequest)
    (normalise : Json → Except CollectExn (List Collected)) : CollectRoutine (List Collected) := do
  let client ← ProviderHttpClient.new provider
  let data ← client.getJson E.toInternet r
  .ofExcept (normalise data)

/-! ## The sources -/

inductive Source where
  | abuseipdb
  | urlhaus
  | malwarebazaar
  | otx
  | cisaKev
  | rss
  deriving DecidableEq, Repr

namespace Source

def name : Source → String
  | abuseipdb => "abuseipdb"
  | urlhaus => "urlhaus"
  | malwarebazaar => "malwarebazaar"
  | otx => "otx"
  | cisaKev => "cisa_kev"
  | rss => "rss"

/-- `COLLECTOR_CLASSES`. -/
def collectorClasses : List Source := [abuseipdb, urlhaus, malwarebazaar, otx, cisaKev, rss]

def requiresKey : Source → Bool
  | abuseipdb => true
  | otx => true
  | _ => false

end Source

namespace AbuseIPDBCollector

def indicator (E : CollectorEnv) (row : Json) : Except CollectExn (Option Collected) := do
  let score ← E.toInt (← row.getOr "abuseConfidenceScore" (.int 0))
  let value ← row.item "ipAddress"
  return some
    { value
      source := "abuseipdb"
      confidence := if 90 ≤ score then .high else .medium
      severity := if 90 ≤ score then .high else .medium
      tags := [.str "blacklist".toList] }

def normalise (E : CollectorEnv) (limit : Nat) (data : Json) : Except CollectExn (List Collected) :=
  normaliseRows "data" (indicator E) limit data

def collectLive (E : CollectorEnv) (apiKey : PyStr) (limit : Nat) : CollectRoutine (List Collected) :=
  collectJson E "abuseipdb"
    { url := "https://api.abuseipdb.com/api/v2/blacklist"
      headers := [("Key", apiKey), ("Accept", "application/json".toList)]
      params := [("confidenceMinimum", .int 75), ("limit", .int limit)] }
    (normalise E limit)

end AbuseIPDBCollector

namespace URLHausCollector

/-- The first of the entries under one id counts. -/
def indicator (E : CollectorEnv) (entries : Json) : Except CollectExn (Option Collected) := do
  let entry := match entries with
    | .arr (entry :: _) => entry
    | _ => .obj []
  let url ← entry.getOr "url" .null
  if Extract.truthy E.interpreter url = false then return none
  let tags ← E.tupleOf (← entry.getOr "tags" .null)
  return some
    { value := url
      source := "urlhaus"
      confidence := .high
      severity := .critical
      tags
      references := [.str "https://urlhaus.abuse.ch/".toList]
      description := ← entry.getOr "threat" .null }

def normalise (E : CollectorEnv) (limit : Nat) (data : Json) : Except CollectExn (List Collected) := do
  let rows := (← data.valuesOf).take limit
  return (← gather (indicator E) (fun out => limit ≤ out.length) [] rows).1

def collectLive (E : CollectorEnv) (limit : Nat) : CollectRoutine (List Collected) :=
  collectJson E "urlhaus" { url := "https://urlhaus.abuse.ch/downloads/json_recent/" }
    (normalise E limit)

end URLHausCollector

namespace MalwareBazaarCollector

def indicator (E : CollectorEnv) (row : Json) : Except CollectExn (Option Collected) := do
  let sha256 ← row.getOr "sha256_hash" .null
  if Extract.truthy E.interpreter sha256 = false then return none
  let tags ← E.tupleOf (← row.getOr "tags" .null)
  return some
    { value := sha256
      source := "malwarebazaar"
      confidence := .confirmed
      severity := .critical
      tags
      description := ← row.getOr "signature" .null }

def normalise (E : CollectorEnv) (limit : Nat) (data : Json) : Except CollectExn (List Collected) :=
  normaliseRows "data" (indicator E) limit data

def collectLive (E : CollectorEnv) (limit : Nat) : CollectRoutine (List Collected) :=
  collectJson E "malwarebazaar"
    { url := "https://mb-api.abuse.ch/api/v1/"
      params := [("query", .str "get_recent"), ("selector", .str "time")] }
    (normalise E limit)

end MalwareBazaarCollector

namespace OTXCollector

def indicator (E : CollectorEnv) (pulse ind : Json) : Except CollectExn (Option Collected) := do
  let value ← ind.getOr "indicator" .null
  if Extract.truthy E.interpreter value = false then return none
  let tags ← E.tupleOf (← pulse.getOr "tags" .null)
  return some
    { value
      source := "otx"
      confidence := .medium
      severity := .high
      tags
      description := ← pulse.getOr "name" .null }

/-- The loop over the pulses; the loop over the indicators of one may return
from both. -/
def pulses (E : CollectorEnv) (limit : Nat) (out : List Collected) :
    List Json → Except CollectExn (List Collected)
  | [] => pure out
  | pulse :: rest => do
      let inds ← (← pulse.getOr "indicators" (.arr [])).each
      let (out, returned) ← gather (indicator E pulse) (fun out => limit ≤ out.length) out inds
      if returned then pure out else pulses E limit out rest

def normalise (E : CollectorEnv) (limit : Nat) (data : Json) : Except CollectExn (List Collected) := do
  pulses E limit [] (← (← data.getOr "results" (.arr [])).each)

def collectLive (E : CollectorEnv) (apiKey : PyStr) (limit : Nat) : CollectRoutine (List Collected) :=
  collectJson E "otx"
    { url := "https://otx.alienvault.com/api/v1/pulses/subscribed"
      headers := [("X-OTX-API-KEY", apiKey)]
      params := [("limit", .int limit)] }
    (normalise E limit)

end OTXCollector

namespace CisaKevCollector

def indicator (E : CollectorEnv) (row : Json) : Except CollectExn (Option Collected) := do
  let cve ← row.getOr "cveID" .null
  if Extract.truthy E.interpreter cve = false then return none
  return some
    { value := cve
      source := "cisa_kev"
      confidence := .confirmed
      severity := .critical
      tags := [.str "kev".toList]
      references :=
        [.str "https://www.cisa.gov/known-exploited-vulnerabilities-catalog".toList]
      description := ← row.getOr "vulnerabilityName" .null }

def normalise (E : CollectorEnv) (limit : Nat) (data : Json) : Except CollectExn (List Collected) :=
  normaliseRows "vulnerabilities" (indicator E) limit data

def collectLive (E : CollectorEnv) (limit : Nat) : CollectRoutine (List Collected) :=
  collectJson E "cisa_kev"
    { url :=
        "https://www.cisa.gov/sites/default/files/feeds/known_exploited_vulnerabilities.json" }
    (normalise E limit)

end CisaKevCollector

namespace RSSCollector

/-- `FEEDS`. -/
def feeds : List String := ["https://www.cisa.gov/cybersecurity-advisories/all.xml"]

def indicator (entry : FeedEntry) : Collected :=
  { value := .str (entry.title.getD "advisory".toList)
    source := "rss"
    confidence := .medium
    severity := .medium
    tags := [.str "advisory".toList]
    references := [.str (entry.link.getD [])]
    description := (entry.summary.map Json.str).getD .null }

/-- The loop over the feeds, which need neither a breaker nor a retry. -/
def collectFeeds (E : CollectorEnv) (limit : Nat) (out : List Collected) :
    List String → CollectRoutine (List Collected)
  | [] => pure out
  | feedUrl :: rest => do
      let resp ← E.toInternet.get { url := feedUrl }
      let entries ← .ofExcept (E.parseFeed resp.text)
      let (out, returned) ← .ofExcept
        (gather (fun entry => pure (some (indicator entry))) (fun out => limit ≤ out.length) out
          (entries.take limit))
      if returned then pure out else collectFeeds E limit out rest

def collectLive (E : CollectorEnv) (limit : Nat) : CollectRoutine (List Collected) :=
  collectFeeds E limit [] feeds

end RSSCollector

/-- `_collect_live` of the class for a source. -/
def Source.collectLive (E : CollectorEnv) (apiKey : PyStr) (limit : Nat) :
    Source → CollectRoutine (List Collected)
  | .abuseipdb => AbuseIPDBCollector.collectLive E apiKey limit
  | .urlhaus => URLHausCollector.collectLive E limit
  | .malwarebazaar => MalwareBazaarCollector.collectLive E limit
  | .otx => OTXCollector.collectLive E apiKey limit
  | .cisaKev => CisaKevCollector.collectLive E limit
  | .rss => RSSCollector.collectLive E limit

end ThreatIntel
