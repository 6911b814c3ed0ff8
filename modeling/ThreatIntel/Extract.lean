import ThreatIntel.Csv
import ThreatIntel.Indicators
import ThreatIntel.Json

/-!
# Extraction

`app/ioc/extract.py`: candidates are harvested from free text by a
sequence of patterns, from the cells of a table, or from the objects of a
STIX bundle, and every candidate goes through `classify_indicator`. The
loops catch `UnknownIndicatorError` and nothing else.
-/

namespace ThreatIntel

/-- What the code takes from the interpreter it runs on and that is not
spelled out here: the Unicode database, the heuristics of `csv.Sniffer`,
the recursion limit of the JSON reader, and how values that are not
strings are turned into text. -/
structure Interpreter where
  unicode : Unicode
  /-- `None` stands for `csv.Error`. -/
  sniff : PyStr → Option Csv.Dialect
  maxDepth : Nat
  hundred_le : 100 ≤ maxDepth
  /-- `str(value)` of a JSON value that is not a string. -/
  strOf : Json → PyStr
  /-- Whether a float literal denotes zero. -/
  isZero : PyStr → Bool

/-- An interpreter for texts in ASCII, without a sniffer. -/
def Interpreter.ascii : Interpreter where
  unicode := .ascii
  sniff _ := none
  maxDepth := 1000
  hundred_le := by decide
  strOf _ := []
  isZero _ := false

namespace Extract

/-- `MAX_INDICATORS`. -/
def maxIndicators : Nat := 1000

/-- `MAX_CONTENT_CHARS`. -/
def maxContentChars : Nat := 128 * 1024

/-! ## Patterns -/

inductive Pattern where
  | url
  | email
  | hash
  | cve
  | technique
  | ipv6
  | ipv4
  | domain
  deriving DecidableEq, Repr

/-- `\b`. -/
def wordBoundary (U : Unicode) : Regex Char :=
  .assert fun before after => before.head?.any (PyStr.isWord U) != after.head?.any (PyStr.isWord U)

/-- The characters other than white space at which a URL ends. -/
def urlDelimiters : List Char := ['<', '>', '"', PyStr.apostrophe, ']', ')', '\x7d', ',']

/-- `[^\s<>"'\]\)\},]`. -/
def urlChar : Regex Char := .cls fun c => !PyStr.isSpace c && !urlDelimiters.contains c

section Patterns

open Regex Indicators

/-- `\b[a-f0-9]{n}\b`. -/
def hashRunRe (U : Unicode) (n : Nat) : Regex Char :=
  seqs [wordBoundary U, times n hexDigit, wordBoundary U]

/-- A label of a domain name: no hyphen at either end. -/
def labelRe : Regex Char :=
  seq (alnumOr []) (opt (seq (between 0 61 (alnumOr ['-'])) (alnumOr [])))

def Pattern.re (U : Unicode) : Pattern → Regex Char
  | url =>
      seqs [wordBoundary U,
        alt (seq (litsIgnoreCase "http".toList) (opt (litsIgnoreCase "s".toList)))
          (litsIgnoreCase "ftp".toList),
        lits "://".toList, plus urlChar]
  | email =>
      seqs [wordBoundary U, plus (alnumOr "._%+-".toList), lit '@', plus (alnumOr ".-".toList), lit '.',
        rep 2 none letter, wordBoundary U]
  | hash => alt (hashRunRe U 64) (alt (hashRunRe U 40) (hashRunRe U 32))
  | cve =>
      seqs [wordBoundary U, litsIgnoreCase "cve-".toList, times 4 digit, lit '-', between 4 7 digit,
        wordBoundary U]
  | technique =>
      seqs [wordBoundary U, lit 'T', times 4 digit, opt (seq (lit '.') (times 3 digit)),
        wordBoundary U]
  | ipv6 =>
      seqs [wordBoundary U, between 2 7 (seq (between 1 4 hexDigit) (lit ':')),
        between 1 4 hexDigit, wordBoundary U]
  | ipv4 =>
      seqs [wordBoundary U, times 3 (seq (between 1 3 digit) (lit '.')), between 1 3 digit,
        wordBoundary U]
  | domain =>
      seqs [wordBoundary U, plus (seq labelRe (lit '.')), between 2 24 letter, wordBoundary U]

end Patterns

/-- `_PATTERNS`. -/
def patterns : List Pattern := [.url, .email, .hash, .cve, .technique, .ipv6, .ipv4, .domain]

/-- `_FILE_SUFFIXES`. -/
def fileSuffixes : List String :=
  ["exe", "dll", "sys", "so", "dylib", "bin", "msi", "jar", "class", "scr", "lnk",
    "js", "ts", "py", "rb", "pl", "ps1", "sh", "bat", "cmd", "vbs", "php", "asp", "aspx", "jsp",
    "doc", "docx", "xls", "xlsx", "ppt", "pptx", "pdf", "rtf", "txt", "md",
    "csv", "json", "xml", "yaml", "yml", "html", "htm", "log", "dat", "ini", "cfg", "conf", "tmp",
    "zip", "rar", "gz", "tar", "7z", "iso", "cab", "png", "jpg", "jpeg", "gif", "svg", "ico",
    "mp4", "avi"]

/-- `_plausible_domain`. -/
def plausibleDomain (candidate : PyStr) : Bool :=
  !(fileSuffixes.any fun suffix => suffix.toList = (afterLast '.' candidate).lower)

/-- The characters stripped from the right of a match. -/
def trailing : PyStr := [
  '.', ',', ';', ':', ')', ']', '\x7d', '"', PyStr.apostrophe]

/-- What a pattern leaves of the text for the patterns after it. -/
def blanked : List (Regex.Piece Char) → PyStr
  | [] => []
  | .kept c :: pieces => c :: blanked pieces
  | .found _ :: pieces => ' ' :: blanked pieces

/-- `_candidates`: every stretch of the text is claimed by one pattern. -/
def candidates (U : Unicode) : List Pattern → PyStr → List PyStr
  | [], _ => []
  | pattern :: patterns, remaining =>
      let pieces := (pattern.re U).pieces remaining
      let values := (pieces.filterMap Regex.Piece.text?).map (PyStr.rstripChars trailing)
      let claimed := if pattern = .domain then values.filter plausibleDomain else values
      claimed ++ candidates U patterns (blanked pieces)

/-! ## The loops -/

/-- `except UnknownIndicatorError`. -/
def isUnknownIndicator : Exn → Bool
  | .app error => error.cls = .unknownIndicator
  | _ => false

/-- The loop of `extract_from_text`. -/
def collectText (U : Unicode) (limit : Nat) :
    List PyStr → List (String × PyStr) → List PyStr → Except Exn (List PyStr)
  | [], _, found => pure found
  | candidate :: rest, seen, found =>
      match Indicators.classifyIndicator U candidate with
      | .error e => if isUnknownIndicator e then collectText U limit rest seen found else throw e
      | .ok parsed =>
          let key := (parsed.type.value, parsed.value)
          if key ∈ seen then collectText U limit rest seen found
          else if limit ≤ (found ++ [parsed.value]).length then pure (found ++ [parsed.value])
          else collectText U limit rest (key :: seen) (found ++ [parsed.value])

def extractFromText (I : Interpreter) (text : PyStr) (limit : Nat) : Except Exn (List PyStr) :=
  collectText I.unicode limit (candidates I.unicode patterns (Indicators.refang text)) [] []

/-- The loop of `extract_from_stix`: the limit is looked at after a repeated
value as well. -/
def collectStix (U : Unicode) (limit : Nat) :
    List PyStr → List (String × PyStr) → List PyStr → Except Exn (List PyStr)
  | [], _, found => pure found
  | candidate :: rest, seen, found =>
      match Indicators.classifyIndicator U candidate with
      | .error e => if isUnknownIndicator e then collectStix U limit rest seen found else throw e
      | .ok parsed =>
          let key := (parsed.type.value, parsed.value)
          let seen' := if key ∈ seen then seen else key :: seen
          let found' := if key ∈ seen then found else found ++ [parsed.value]
          if limit ≤ found'.length then pure found' else collectStix U limit rest seen' found'

/-! ## Tables -/

/-- The header names of an indicator column. -/
def columnNames : List String := ["value", "ioc", "indicator", "observable"]

/-- The cells that are offered to the text extractor. -/
def cellsOf (rows : List (List PyStr)) : List PyStr :=
  match rows with
  | [] => []
  | header :: rest =>
      let isColumn := fun cell : PyStr =>
        columnNames.any fun name => name.toList = (cell.strip).lower
      match header.findIdx? isColumn with
      | some index => rest.filterMap (·[index]?)
      | none => rows.flatten

def dialectOf (I : Interpreter) (text : PyStr) : Csv.Dialect :=
  (I.sniff (text.take 4096)).getD Csv.excel

def extractFromCsv (I : Interpreter) (text : PyStr) (limit : Nat) : Except Exn (List PyStr) := do
  let rows ← Csv.reader (dialectOf I text) text
  if rows = [] then return []
  else extractFromText I (PyStr.join '\n' (cellsOf rows)) limit

/-! ## STIX bundles -/

/-- `bool(value)`. -/
def truthy (I : Interpreter) : Json → Bool
  | .null => false
  | .bool b => b
  | .int n => n ≠ 0
  | .float literal => !I.isZero literal
  | .str s => s ≠ []
  | .arr items => !items.isEmpty
  | .obj members => !members.isEmpty

/-- `for item in value`: a list, the names of an object, the characters of
a string; the others are not iterable. -/
def iterate : Json → Except Exn (List Json)
  | .arr items => pure items
  | .obj members => pure ((members.map Prod.fst).eraseDups.map Json.str)
  | .str s => pure (s.map fun c => .str [c])
  | _ => throw (.python .typeError)

/-- `value in {"vulnerability", "attack-pattern"}`: lists and objects cannot
be looked up in a set. -/
def isReferenceType : Option Json → Except Exn Bool
  | some (.str s) => pure (s = "vulnerability".toList || s = "attack-pattern".toList)
  | some (.arr _) => throw (.python .typeError)
  | some (.obj _) => throw (.python .typeError)
  | _ => pure false

/-- `str(value)`. -/
def textOf (I : Interpreter) : Json → PyStr
  | .str s => s
  | value => I.strOf value

/-- The external ids among the references. -/
def externalIds (I : Interpreter) (refs : List Json) : List PyStr :=
  refs.filterMap fun ref =>
    match ref with
    | .obj members =>
        match Json.get? members "external_id" with
        | some id => if truthy I id then some (textOf I id) else none
        | none => none
    | _ => none

/-- `=\s*'((?:[^'\\]|\\.)*)'`, in three parts. -/
def patternPre : Regex Char :=
  .seqs [.lit '=', .star (.cls PyStr.isSpace), .lit PyStr.apostrophe]

def patternBody : Regex Char :=
  .star (.alt (.cls fun c => c ≠ PyStr.apostrophe && c ≠ '\\')
    (.seq (.lit '\\') (.cls (· ≠ '\n'))))

def patternPost : Regex Char := .lit PyStr.apostrophe

/-- `m.group(1).replace("\\'", "'")`. -/
def unescape (s : PyStr) : PyStr := PyStr.replace ['\\', PyStr.apostrophe] [PyStr.apostrophe] s

/-- What one object of the bundle contributes. -/
def valuesOf (I : Interpreter) (obj : Json) : Except Exn (List PyStr) :=
  match obj with
  | .obj members => do
      if ← isReferenceType (Json.get? members "type") then
        match Json.get? members "external_references" with
        | some refs =>
            if truthy I refs then
              let refs ← iterate refs
              return externalIds I refs
            else return []
        | none => return []
      else
        match Json.get? members "pattern" with
        | some (.str pattern) =>
            return (Regex.groups patternPre patternBody patternPost pattern).map unescape
        | _ => return []
  | _ => return []

def valuesOfAll (I : Interpreter) : List Json → Except Exn (List PyStr)
  | [] => pure []
  | obj :: objects => do
      let values ← valuesOf I obj
      let rest ← valuesOfAll I objects
      return values ++ rest

def validationError (message : PyStr) : Exn := .app (.raise .validation (String.ofList message))

/-- The exception that leaves `json.loads`, and what becomes of it: only a
`JSONDecodeError` is caught. Running out of fuel does not happen
(`Json.loads_ne_outOfFuel`). -/
def loadsExn : Json.LoadsError → Exn
  | .decode msg => validationError ("Not a valid STIX/JSON document: ".toList ++ msg.toList)
  | .tooManyDigits => .python .valueError
  | .tooDeep => .python .recursionError
  | .outOfFuel => .python .recursionError

/-- The values in the bundle, up to the loop. -/
def stixValues (I : Interpreter) (text : PyStr) : Except Exn (List PyStr) :=
  match Json.loads I.maxDepth text with
  | .error e => throw (loadsExn e)
  | .ok (.obj members) => do
      let objects ← iterate ((Json.get? members "objects").getD (.arr []))
      valuesOfAll I objects
  | .ok _ => throw (validationError "STIX input must be a JSON object.".toList)

def extractFromStix (I : Interpreter) (text : PyStr) (limit : Nat) : Except Exn (List PyStr) := do
  let values ← stixValues I text
  collectStix I.unicode limit values [] []

/-! ## Dispatch -/

/-- What `auto` takes a document for. -/
def sniffFormat (content : PyStr) : String :=
  if content.lstrip.head? = some '\x7b' ∧ PyStr.includes "\"objects\"".toList content then "stix"
  else if ',' ∈ content.takeWhile (· ≠ '\n') ∧ '\n' ∈ content.strip then "csv"
  else "text"

def resolveFormat (content : PyStr) (fmt : String) : String :=
  if fmt = "auto" then sniffFormat content else fmt

def tooLarge (content : PyStr) : Exn :=
  validationError (("Document is too large to scan (" ++ toString content.length ++ " chars); " ++
    "the limit is " ++ toString maxContentChars ++ ". Split it and import in parts.").toList)

def extractIndicators (I : Interpreter) (content : PyStr) (fmt : String) (limit : Nat) :
    Except Exn (List PyStr) :=
  if maxContentChars < content.length then throw (tooLarge content)
  else
    let fmt := resolveFormat content fmt
    if fmt = "stix" then extractFromStix I content limit
    else if fmt = "csv" then extractFromCsv I content limit
    else if fmt = "text" then extractFromText I content limit
    else throw (validationError ("Unsupported import format: " ++ fmt).toList)

end Extract

end ThreatIntel
