import ThreatIntel.Ioc
import ThreatIntel.Json

/-!
# STIX export

`app/sharing/stix.py` and `ReportService.to_stix`. Each indicator becomes
an object with a pattern in which its value stands as an escaped string
literal; CVEs and techniques become objects of their own kinds, which name
the value in an external reference.
-/

namespace ThreatIntel

namespace Stix

/-- What the export takes from the libraries: ids, the clock, and how a
moment is written. -/
structure Exporter where
  /-- `uuid.uuid5(STIX_NAMESPACE, name)`. -/
  uuid5 : PyStr → PyStr
  /-- `uuid.uuid4()`. -/
  uuid4 : PyStr
  /-- `datetime.now(UTC)`. -/
  now : Int
  /-- UTC with milliseconds, and `Z` behind it. -/
  isoMillis : Int → PyStr

def specVersion : PyStr := "2.1".toList

/-- `_HASH_ALGORITHM`. -/
def hashAlgorithm : IOCType → Option String
  | .md5 => some "MD5"
  | .sha1 => some "SHA-1"
  | .sha256 => some "SHA-256"
  | _ => none

/-- `_CONFIDENCE`. -/
def confidenceScale : List (String × Int) :=
  [("unknown", 15), ("low", 30), ("medium", 50), ("high", 75), ("confirmed", 95)]

/-- `_INDICATOR_TYPE`. -/
def indicatorType : List (String × String) :=
  [("clean", "benign"), ("low", "anomalous-activity"), ("medium", "anomalous-activity"),
    ("high", "malicious-activity"), ("critical", "malicious-activity")]

/-- `_timestamp`. -/
def timestamp (E : Exporter) (value : Option Int) : PyStr := E.isoMillis (value.getD E.now)

/-- `_escape`: backslashes first, then apostrophes. -/
def escape (value : PyStr) : PyStr :=
  PyStr.replace [PyStr.apostrophe] ['\\', PyStr.apostrophe] (PyStr.replace ['\\'] ['\\', '\\'] value)

/-- `_deterministic_id`. -/
def deterministicId (E : Exporter) (sdoType name : PyStr) : PyStr :=
  sdoType ++ "--".toList ++ E.uuid5 (sdoType ++ ':' :: name)

/-- `[<left> = '<literal>']`. -/
def comparison (left literal : PyStr) : PyStr :=
  '[' :: left ++ [' ', '=', ' ', PyStr.apostrophe] ++ literal ++ [PyStr.apostrophe, ']']

/-- The types named after the STIX objects that hold them. -/
def isObservable : IOCType → Bool
  | .ipv4 => true
  | .ipv6 => true
  | .domain => true
  | .url => true
  | .email => true
  | _ => false

def stixPattern (type : IOCType) (value : PyStr) : Option PyStr :=
  let escaped := escape value
  if isObservable type then some (comparison (type.value.toList ++ ":value".toList) escaped)
  else if type = .hostname then some (comparison "domain-name:value".toList escaped)
  else
    match hashAlgorithm type with
    | some algorithm =>
        some (comparison ("file:hashes.".toList ++ PyStr.apostrophe :: algorithm.toList ++
          [PyStr.apostrophe]) escaped)
    | none => none

/-! ## Objects -/

/-- The members of an object; a `None` is a null. -/
abbrev Members := List (PyStr × Json)

def identityId (E : Exporter) (name : PyStr) : PyStr := deterministicId E "identity".toList name

/-- `_identity`. -/
def identity (E : Exporter) (name : PyStr) : Members :=
  [("type".toList, .str "identity".toList), ("spec_version".toList, .str specVersion),
    ("id".toList, .str (identityId E name)), ("created".toList, .str (timestamp E none)),
    ("modified".toList, .str (timestamp E none)), ("name".toList, .str name),
    ("identity_class".toList, .str "system".toList)]

/-- `_external_references`. -/
def externalReferences (ioc : Ioc) : List Json :=
  let links := ioc.references.filter fun url =>
    "http://".toList.isPrefixOf url || "https://".toList.isPrefixOf url
  .obj [("source_name".toList, .str ioc.source)] ::
    links.map fun url => .obj [("source_name".toList, .str ioc.source), ("url".toList, .str url)]

/-- The members that every object begins with. -/
def header (E : Exporter) (type name createdByRef : PyStr) (ioc : Ioc) : Members :=
  [("type".toList, .str type), ("spec_version".toList, .str specVersion),
    ("id".toList, .str (deterministicId E type name)),
    ("created_by_ref".toList, .str createdByRef),
    ("created".toList, .str (timestamp E ioc.firstSeen)),
    ("modified".toList, .str (timestamp E ioc.lastSeen))]

def vulnerability (E : Exporter) (createdByRef : PyStr) (ioc : Ioc) : Members :=
  header E "vulnerability".toList ioc.value createdByRef ioc ++
    [("name".toList, .str ioc.value),
      ("description".toList,
        .str (orDefault ioc.description ("Vulnerability ".toList ++ ioc.value))),
      ("external_references".toList, .arr [.obj [("source_name".toList, .str "cve".toList),
        ("external_id".toList, .str ioc.value)]])]

def attackPattern (E : Exporter) (createdByRef : PyStr) (ioc : Ioc) : Members :=
  let base := ioc.value.takeWhile (· ≠ '.')
  let path := PyStr.replace ['.'] ['/'] ioc.value
  header E "attack-pattern".toList ioc.value createdByRef ioc ++
    [("name".toList, .str (orDefault ioc.description ("ATT&CK technique ".toList ++ ioc.value))),
      ("external_references".toList, .arr [.obj [("source_name".toList, .str "mitre-attack".toList),
        ("external_id".toList, .str ioc.value),
        ("url".toList,
          .str ("https://attack.mitre.org/techniques/".toList ++ path ++ "/".toList))]]),
      ("x_mitre_parent_technique".toList, if base ≠ ioc.value then .str base else .null)]

def indicator (E : Exporter) (createdByRef pattern : PyStr) (ioc : Ioc) : Members :=
  let observed := ioc.type.toList ++ " observed by ".toList ++ ioc.source ++
    "; threat score ".toList ++ Json.intText ioc.threatScore ++ "/100.".toList
  header E "indicator".toList pattern createdByRef ioc ++
    [("name".toList, .str ioc.defangedValue),
      ("description".toList, .str (orDefault ioc.description observed)),
      ("indicator_types".toList,
        .arr [.str ((indicatorType.lookup ioc.threatLevel).getD "unknown").toList]),
      ("pattern".toList, .str pattern), ("pattern_type".toList, .str "stix".toList),
      ("valid_from".toList, .str (timestamp E ioc.firstSeen)),
      ("confidence".toList, .int ((confidenceScale.lookup ioc.confidence).getD 50)),
      ("labels".toList, .arr ((sortedSet (ioc.tags ++ [ioc.severity.toList])).map Json.str)),
      ("external_references".toList, .arr (externalReferences ioc)),
      ("x_threat_score".toList, .int ioc.threatScore),
      ("x_threat_level".toList, .str ioc.threatLevel.toList),
      ("x_sightings".toList, .int ioc.sightings)]

/-- `_sdo_for`. -/
def sdoFor (E : Exporter) (createdByRef : PyStr) (ioc : Ioc) : Option Members :=
  match IOCType.ofValue? ioc.type with
  | none => none
  | some .cve => some (vulnerability E createdByRef ioc)
  | some .mitreTechnique => some (attackPattern E createdByRef ioc)
  | some type => (stixPattern type ioc.value).map fun pattern => indicator E createdByRef pattern ioc

def isNull : Json → Bool
  | .null => true
  | _ => false

/-- `{k: v for k, v in sdo.items() if v is not None}`. -/
def dropNone (members : Members) : Members := members.filter fun kv => !isNull kv.2

def producer : PyStr := "Threat Intel Platform".toList

/-- `to_stix_bundle`, with the defaults. -/
def toStixBundle (E : Exporter) (iocs : List Ioc) : Json :=
  let sdos := iocs.filterMap fun ioc => (sdoFor E (identityId E producer) ioc).map dropNone
  .obj [("type".toList, .str "bundle".toList), ("id".toList, .str ("bundle--".toList ++ E.uuid4)),
    ("objects".toList, .arr (.obj (identity E producer) :: sdos.map Json.obj))]

/-- `ReportService.to_stix`. -/
def toStix (E : Exporter) (iocs : List Ioc) : PyStr := (toStixBundle E iocs).dumps

end Stix

end ThreatIntel
