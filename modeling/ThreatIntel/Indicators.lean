import ThreatIntel.Net

/-!
# Indicators

`app/ioc/indicators.py`: refanging and classification. A raw value is
refanged by a fixed sequence of rewrites and matched against one format
after the other; what is returned is the type and the normalised value.
-/

namespace ThreatIntel

/-- `app/ioc/types.py`. -/
inductive IOCType where
  | ipv4
  | ipv6
  | domain
  | url
  | md5
  | sha1
  | sha256
  | email
  | hostname
  | cve
  | mitreTechnique
  | yara
  | sigma
  deriving DecidableEq, Repr

def IOCType.value : IOCType → String
  | ipv4 => "ipv4-addr"
  | ipv6 => "ipv6-addr"
  | domain => "domain-name"
  | url => "url"
  | md5 => "md5"
  | sha1 => "sha1"
  | sha256 => "sha256"
  | email => "email-addr"
  | hostname => "hostname"
  | cve => "cve"
  | mitreTechnique => "attack-pattern"
  | yara => "yara"
  | sigma => "sigma"

structure ParsedIndicator where
  type : IOCType
  value : PyStr
  deriving DecidableEq, Repr

namespace Indicators

/-! ## Refanging -/

/-- The rewrites, in the order in which they are made. -/
def refangReplacements : List (PyStr × PyStr) :=
  [("hxxps".toList, "https".toList), ("hxxp".toList, "http".toList), ("fxp".toList, "ftp".toList),
    ("[.]".toList, ".".toList), ("(.)".toList, ".".toList), ("\x7b.\x7d".toList, ".".toList),
    ("[dot]".toList, ".".toList), ("(dot)".toList, ".".toList), (" dot ".toList, ".".toList),
    ("[:]".toList, ":".toList), ("[://]".toList, "://".toList),
    ("[at]".toList, "@".toList), ("(at)".toList, "@".toList), ("[@]".toList, "@".toList),
    ("\\.".toList, ".".toList)]

/-- `token.isalpha() or token.startswith(("h", "f"))`; the tokens are ASCII. -/
def isSchemeToken (token : PyStr) : Bool :=
  token.all Char.isAlpha && token ≠ [] || token.head? = some 'h' || token.head? = some 'f'

/-- One rewrite: scheme tokens in any case, punctuation as it stands. -/
def rewrite (text : PyStr) (tr : PyStr × PyStr) : PyStr :=
  if isSchemeToken tr.1 then PyStr.subIgnoreCase tr.1 tr.2 text else PyStr.replace tr.1 tr.2 text

def refang (value : PyStr) : PyStr := (refangReplacements.foldl rewrite value.strip).strip

/-! ## Formats -/

open Regex in
/-- `^`. -/
def bol : Regex Char := assert fun before _ => before.isEmpty

/-- `$`: at the end, or before the newline that ends the text. -/
def eol : Regex Char := .assert fun _ after => after.isEmpty || after = ['\n']

def digit : Regex Char := .cls PyStr.isDecimal

/-- Literal text under `re.IGNORECASE`. -/
def litsIgnoreCase (w : PyStr) : Regex Char := .seqs (w.map fun p => .cls (PyStr.sameFold p))

/-- `[a-f0-9]`. -/
def hexDigit : Regex Char :=
  .cls (PyStr.ignoreCase fun c => 'a' ≤ c && c ≤ 'f' || PyStr.isAsciiDigit c)

/-- `^[a-f0-9]{n}$`. -/
def hashRe (n : Nat) : Regex Char := .seqs [bol, .times n hexDigit, eol]

def md5Re : Regex Char := hashRe 32

def sha1Re : Regex Char := hashRe 40

def sha256Re : Regex Char := hashRe 64

/-- `^CVE-\d{4}-\d{4,7}$`. -/
def cveRe : Regex Char :=
  .seqs [bol, litsIgnoreCase "cve-".toList, .times 4 digit, .lit '-', .between 4 7 digit, eol]

/-- `^T\d{4}(\.\d{3})?$`. -/
def techniqueRe : Regex Char :=
  .seqs [bol, .lit 'T', .times 4 digit, .opt (.seq (.lit '.') (.times 3 digit)), eol]

/-- A letter, a digit or one of the given characters, in any case. -/
def alnumOr (extra : List Char) : Regex Char :=
  .cls (PyStr.ignoreCase fun c => PyStr.isAsciiLower c || PyStr.isAsciiDigit c || extra.contains c)

/-- `[a-z]`. -/
def letter : Regex Char := .cls (PyStr.ignoreCase PyStr.isAsciiLower)

/-- `^[a-z0-9._%+\-]+@[a-z0-9.\-]+\.[a-z]{2,}$`. -/
def emailRe : Regex Char :=
  .seqs [bol, .plus (alnumOr "._%+-".toList), .lit '@', .plus (alnumOr ".-".toList), .lit '.',
    .rep 2 none letter, eol]

/-- `^(?=.{1,253}$)(?!-)([a-z0-9\-]{1,63}\.)+[a-z]{2,63}$`. -/
def domainRe : Regex Char :=
  .seqs [bol, .look true (.seq (.between 1 253 (.cls (· ≠ '\n'))) eol), .look false (.lit '-'),
    .plus (.seq (.between 1 63 (alnumOr ['-'])) (.lit '.')), .between 2 63 letter, eol]

/-- `_hash_type`. -/
def hashType (value : PyStr) : Option IOCType :=
  if md5Re.isMatch value then some .md5
  else if sha1Re.isMatch value then some .sha1
  else if sha256Re.isMatch value then some .sha256
  else none

/-- `_ip_type`. -/
def ipType (value : PyStr) : Option IOCType :=
  match ipAddress? value with
  | some .v6 => some .ipv6
  | some .v4 => some .ipv4
  | none => none

/-- The value without a port. -/
def bareHost (value : PyStr) : PyStr :=
  if value.count ':' = 1 ∧ '.' ∈ value then value.takeWhile (· ≠ ':') else value

def unrecognised (U : Unicode) (raw : PyStr) : Exn :=
  .app (.raise .unknownIndicator ("Unrecognised indicator: " ++ String.ofList (raw.repr U))
    [("value", .str (String.ofList raw))])

/-- The formats after the URL: email address, IP address, domain. -/
def classifyHost (U : Unicode) (raw value : PyStr) : Except Exn ParsedIndicator :=
  if emailRe.isMatch value then pure ⟨.email, value.lower⟩
  else
    match ipType (bareHost value) with
    | some iptype => pure ⟨iptype, bareHost value⟩
    | none =>
        if domainRe.isMatch value then pure ⟨.domain, value.lower⟩
        else throw (unrecognised U raw)

/-- Everything after the empty value has been turned down. `urlsplit` may
raise, and nothing here catches it. -/
def classifyValue (U : Unicode) (raw value : PyStr) : Except Exn ParsedIndicator :=
  match hashType value with
  | some htype => pure ⟨htype, value.lower⟩
  | none =>
      if cveRe.isMatch value then pure ⟨.cve, value.upper⟩
      else if techniqueRe.isMatch value then pure ⟨.mitreTechnique, value.upper⟩
      else if PyStr.includes "://".toList value then do
        let parts ← urlsplit U value
        if parts.scheme ≠ [] ∧ parts.netloc ≠ [] then pure ⟨.url, value⟩
        else classifyHost U raw value
      else classifyHost U raw value

def classifyIndicator (U : Unicode) (raw : PyStr) : Except Exn ParsedIndicator :=
  let value := (refang raw).strip
  if value = [] then throw (.app (.raise .unknownIndicator "Empty indicator."))
  else classifyValue U raw value

end Indicators

end ThreatIntel
