import ThreatIntel.Address
import ThreatIntel.Enrichment
import ThreatIntel.Routine

/-!
# The guard against requests to private networks

`app/core/ssrf.py`: which addresses are public, which hosts an operator
allows, and the two uses of a resolver that keep to both. What the resolver
has been asked, and has answered, is kept in a log.
-/

namespace ThreatIntel

/-! ## Networks -/

namespace IpNetwork

def bits : IpVersion → Nat
  | .v4 => 32
  | .v6 => 128

/-- The network of an address and the length of its mask. -/
def ofLength (version : IpVersion) (networkAddress length : Nat) : IpNetwork where
  version
  networkAddress
  netmask := 2 ^ bits version - 2 ^ (bits version - length)

def ipv4 (octets : List Nat) (length : Nat) : IpNetwork := ofLength .v4 (fromBase 256 octets) length

/-- The groups that are left out at the end are zero. -/
def ipv6 (groups : List Nat) (length : Nat) : IpNetwork :=
  ofLength .v6 (fromBase 0x10000 (groups ++ List.replicate (8 - groups.length) 0)) length

end IpNetwork

namespace IpAddress

open IpNetwork (ipv4 ipv6)

/-- `_private_networks`. -/
def privateNetworks : List IpNetwork :=
  [ipv4 [0, 0, 0, 0] 8, ipv4 [10, 0, 0, 0] 8, ipv4 [127, 0, 0, 0] 8, ipv4 [169, 254, 0, 0] 16,
    ipv4 [172, 16, 0, 0] 12, ipv4 [192, 0, 0, 0] 24, ipv4 [192, 0, 0, 170] 31,
    ipv4 [192, 0, 2, 0] 24, ipv4 [192, 168, 0, 0] 16, ipv4 [198, 18, 0, 0] 15,
    ipv4 [198, 51, 100, 0] 24, ipv4 [203, 0, 113, 0] 24, ipv4 [240, 0, 0, 0] 4,
    ipv4 [255, 255, 255, 255] 32,
    ipv6 [0, 0, 0, 0, 0, 0, 0, 1] 128, ipv6 [] 128, ipv6 [0, 0, 0, 0, 0, 0xffff] 96,
    ipv6 [0x64, 0xff9b, 1] 48, ipv6 [0x100] 64, ipv6 [0x2001] 23, ipv6 [0x2001, 0xdb8] 32,
    ipv6 [0x2002] 16, ipv6 [0x3fff] 20, ipv6 [0xfc00] 7, ipv6 [0xfe80] 10]

/-- `_private_networks_exceptions`. -/
def privateExceptions : List IpNetwork :=
  [ipv4 [192, 0, 0, 9] 32, ipv4 [192, 0, 0, 10] 32,
    ipv6 [0x2001, 1, 0, 0, 0, 0, 0, 1] 128, ipv6 [0x2001, 1, 0, 0, 0, 0, 0, 2] 128,
    ipv6 [0x2001, 3] 32, ipv6 [0x2001, 4, 0x112] 48, ipv6 [0x2001, 0x20] 28, ipv6 [0x2001, 0x30] 28]

/-- `_reserved_networks`. -/
def reservedNetworks : List IpNetwork :=
  [ipv4 [240, 0, 0, 0] 4,
    ipv6 [] 8, ipv6 [0x100] 8, ipv6 [0x200] 7, ipv6 [0x400] 6, ipv6 [0x800] 5, ipv6 [0x1000] 4,
    ipv6 [0x4000] 3, ipv6 [0x6000] 3, ipv6 [0x8000] 3, ipv6 [0xa000] 3, ipv6 [0xc000] 3,
    ipv6 [0xe000] 4, ipv6 [0xf000] 5, ipv6 [0xf800] 6, ipv6 [0xfe00] 9]

/-- `_public_network`, which is shared and so neither private nor global. -/
def sharedNetworks : List IpNetwork := [ipv4 [100, 64, 0, 0] 10]

def loopbackNetworks : List IpNetwork :=
  [ipv4 [127, 0, 0, 0] 8, ipv6 [0, 0, 0, 0, 0, 0, 0, 1] 128]

def linkLocalNetworks : List IpNetwork := [ipv4 [169, 254, 0, 0] 16, ipv6 [0xfe80] 10]

def multicastNetworks : List IpNetwork := [ipv4 [224, 0, 0, 0] 4, ipv6 [0xff00] 8]

/-- `ipv4_mapped`. -/
def ipv4Mapped (address : IpAddress) : Option IpAddress :=
  if address.version = .v6 ∧ address.int / 2 ^ 32 = 0xffff then
    some { version := .v4, int := address.int % 2 ^ 32 }
  else none

/-- Membership of the address, or of the IPv4 address that it maps. -/
def inNetworks (networks : List IpNetwork) (address : IpAddress) : Bool :=
  networks.any (·.contains (address.ipv4Mapped.getD address))

def isPrivate (address : IpAddress) : Bool :=
  address.inNetworks privateNetworks && !address.inNetworks privateExceptions

def isGlobal (address : IpAddress) : Bool :=
  !address.inNetworks sharedNetworks && !address.isPrivate

def isLoopback (address : IpAddress) : Bool := address.inNetworks loopbackNetworks

def isLinkLocal (address : IpAddress) : Bool := address.inNetworks linkLocalNetworks

def isMulticast (address : IpAddress) : Bool := address.inNetworks multicastNetworks

def isReserved (address : IpAddress) : Bool := address.inNetworks reservedNetworks

def isUnspecified (address : IpAddress) : Bool := (address.ipv4Mapped.getD address).int = 0

end IpAddress

/-- `ip_is_public`. -/
def ipIsPublic (ip : PyStr) : Bool :=
  match ipAddressOf? ip with
  | none => false
  | some addr =>
      if addr.isGlobal = false then false
      else
        !(addr.isPrivate || addr.isLoopback || addr.isLinkLocal || addr.isMulticast ||
          addr.isReserved || addr.isUnspecified)

/-- Carrier-grade NAT is private to no flag, and multicast is global. -/
example : ["100.64.0.1", "224.0.0.251", "::ffff:10.0.0.1", "fe80::1%eth0"].map
    (fun ip => ipIsPublic ip.toList) = [false, false, false, false] := by decide +kernel

/-! ## The resolver -/

/-- What `getaddrinfo` comes to. -/
inductive Lookup where
  | addresses (ips : List PyStr)
  | gaierror
  /-- any other exception, such as that of a name that cannot be encoded -/
  | failed (e : Exn)
  deriving DecidableEq, Repr

/-- The addresses among an answer. -/
def Lookup.ips : Lookup → List PyStr
  | .addresses ips => ips
  | _ => []

structure Resolution where
  host : PyStr
  port : Nat
  answer : Lookup
  deriving DecidableEq, Repr

/-- What the guard finds outside: the Unicode database, `str.lower`, and
what the resolver answers, by the number of questions before. -/
structure Network where
  unicode : Unicode
  lower : PyStr → PyStr
  getaddrinfo : Nat → PyStr → Nat → Lookup

/-- What comes of the next question. -/
def Network.resolution (net : Network) (log : List Resolution) (host : PyStr) (port : Nat) :
    Resolution where
  host
  port
  answer := net.getaddrinfo log.length host port

abbrev NetRoutine := Routine Exn (List Resolution)

/-! ## The guard -/

structure SafeTarget where
  url : PyStr
  host : PyStr
  port : Nat
  resolvedIps : List PyStr
  deriving DecidableEq, Repr

/-- `SplitResult.port`. -/
def SplitResult.port (parts : SplitResult) : Except Exn (Option Nat) :=
  let hostinfo := afterLast '@' parts.netloc
  let text :=
    if hostinfo.contains '[' then (cutAt ':' (cutAt ']' (cutAt '[' hostinfo).2).2).2
    else (cutAt ':' hostinfo).2
  if text = [] then pure none
  else if text.all PyStr.isAsciiDigit && Nat.ofDigitChars 10 text 0 ≤ 65535 then
    pure (some (Nat.ofDigitChars 10 text 0))
  else throw (.python .valueError)

/-- `SSRFGuard`; the list stands for a set. -/
structure SSRFGuard where
  allowed : List PyStr
  deriving DecidableEq, Repr

namespace SSRFGuard

/-- `SSRFGuard.__init__`. -/
def new (lower : PyStr → PyStr) (allowedHosts : List PyStr) : SSRFGuard where
  allowed := (allowedHosts.filter (· ≠ [])).map fun h => (lower h).dropWhile (· = '.')

def hostAllowed (guard : SSRFGuard) (lower : PyStr → PyStr) (host : PyStr) : Bool :=
  if guard.allowed = [] then true
  else guard.allowed.any fun a => lower host = a || ('.' :: a).isSuffixOf (lower host)

def ssrfError (message : String) (details : List (String × Detail) := []) : Exn :=
  .app (.raise .ssrf message details)

def textDetail (name : String) (text : PyStr) : String × Detail := (name, .str (String.ofList text))

/-- `_resolve`. -/
def resolve (net : Network) (host : PyStr) (port : Nat) : NetRoutine (List PyStr) := do
  let resolution ← .modifyGet fun log =>
    (net.resolution log host port, log ++ [net.resolution log host port])
  match resolution.answer with
  | .addresses ips => pure ips
  | .gaierror =>
      .raise (ssrfError ("Could not resolve host: " ++ String.ofList host) [textDetail "host" host])
  | .failed e => .raise e

/-- The checks of `validate` before the resolver is asked, with the host
and the port to ask for. -/
def checkUrl (guard : SSRFGuard) (net : Network) (url : PyStr) : Except Exn (PyStr × Nat) := do
  let parts ← urlsplit net.unicode url
  if net.lower parts.scheme ∉ ["http".toList, "https".toList] then
    throw (ssrfError "Only http(s) URLs may be fetched." [textDetail "scheme" parts.scheme])
  match parts.hostname net.lower with
  | none | some [] => throw (ssrfError "URL has no host.")
  | some host =>
      if guard.hostAllowed net.lower host = false then
        throw (ssrfError "Destination host is not in the allow-list." [textDetail "host" host])
      if (ipAddressOf? host).isSome ∧ ipIsPublic host = false then
        throw (ssrfError "Destination IP is not a public address." [textDetail "host" host])
      let port ← parts.port
      let default := if parts.scheme = "https".toList then 443 else 80
      return (host, if port.getD 0 = 0 then default else port.getD 0)

/-- `validate`. -/
def validate (guard : SSRFGuard) (net : Network) (url : PyStr) : NetRoutine SafeTarget := do
  let (host, port) ← .ofExcept (guard.checkUrl net url)
  let resolved ← resolve net host port
  match resolved.find? fun ip => ipIsPublic ip = false with
  | some ip =>
      .raise (ssrfError "Destination resolves to a non-public address."
        [textDetail "host" host, textDetail "ip" ip])
  | none => pure { url, host, port, resolvedIps := resolved }

/-- `resolve_public`. -/
def resolvePublic (guard : SSRFGuard) (net : Network) (host : PyStr) : NetRoutine (List PyStr) := do
  if guard.hostAllowed net.lower host = false then
    .raise (ssrfError "Host is not in the allow-list." [textDetail "host" host])
  else do
    let resolved ← resolve net host 80
    pure (resolved.filter fun ip => ipIsPublic ip)

/-! ## What the guard lets through -/

variable {guard : SSRFGuard} {net : Network} {host url : PyStr} {port : Nat} {ips : List PyStr}
  {target : SafeTarget} {log log' : List Resolution}

/-- The set of allowed hosts: it is empty, or the host is one of them or a
name below it. -/
theorem hostAllowed_new_iff (lower : PyStr → PyStr) (allowedHosts : List PyStr) (host : PyStr) :
    (new lower allowedHosts).hostAllowed lower host = true ↔
      (∀ h ∈ allowedHosts, h = []) ∨ ∃ h ∈ allowedHosts, h ≠ [] ∧
        (lower host = (lower h).dropWhile (· = '.') ∨
          '.' :: (lower h).dropWhile (· = '.') <:+ lower host) := by
  have hempty : (new lower allowedHosts).allowed = [] ↔ ∀ h ∈ allowedHosts, h = [] := by
    simp [new, List.filter_eq_nil_iff]
  rw [hostAllowed]
  split
  · next hnone => exact iff_of_true rfl (.inl (hempty.mp hnone))
  · next hsome =>
      rw [or_iff_right (mt hempty.mpr hsome)]
      simp [new]

/-- However it ends, there is one question more in the log. -/
theorem log_resolve (net : Network) (host : PyStr) (port : Nat) (log : List Resolution) :
    ((resolve net host port).run log).2 = log ++ [net.resolution log host port] := by
  rw [resolve, Routine.run_bind_modifyGet]
  cases (net.resolution log host port).answer <;> rfl

theorem resolve_ok (h : (resolve net host port).run log = (.ok ips, log')) :
    (net.resolution log host port).answer = .addresses ips ∧
      log' = log ++ [net.resolution log host port] := by
  have hlog := log_resolve net host port log
  rw [h] at hlog
  rw [resolve, Routine.run_bind_modifyGet] at h
  cases hanswer : (net.resolution log host port).answer with
  | addresses found =>
      rw [hanswer] at h
      cases h
      exact ⟨rfl, hlog⟩
  | gaierror =>
      rw [hanswer] at h
      cases h
  | failed e =>
      rw [hanswer] at h
      cases h

/-- What the checks of a URL have found. -/
structure UrlAllowed (guard : SSRFGuard) (net : Network) (url host : PyStr) : Prop where
  split : ∃ parts, urlsplit net.unicode url = .ok parts ∧
    net.lower parts.scheme ∈ ["http".toList, "https".toList] ∧ parts.hostname net.lower = some host
  allowed : guard.hostAllowed net.lower host = true
  literal : (ipAddressOf? host).isSome = true → ipIsPublic host = true

theorem checkUrl_ok (h : guard.checkUrl net url = .ok (host, port)) :
    UrlAllowed guard net url host := by
  unfold checkUrl at h
  cases hsplit : urlsplit net.unicode url with
  | error e => simp [hsplit, bind, Except.bind] at h
  | ok parts =>
      simp only [hsplit, bind, Except.bind] at h
      split at h
      · cases h
      · next hscheme =>
          split at h
          · cases h
          · cases h
          · next host' hne hhost =>
              split at h
              · cases h
              · next hallowed =>
                  split at h
                  · cases h
                  · next hliteral =>
                      cases hport : parts.port with
                      | error e => simp [hport] at h
                      | ok port' =>
                          rw [hport] at h
                          cases h
                          exact ⟨⟨parts, hsplit, not_not.mp hscheme, hhost⟩,
                            Bool.eq_true_of_not_eq_false hallowed, fun hsome =>
                              Bool.eq_true_of_not_eq_false fun hpublic => hliteral ⟨hsome, hpublic⟩⟩

/-- **What `validate` returns** has passed all the checks, and so has every
address the resolver has answered. -/
theorem validate_ok (h : (guard.validate net url).run log = (.ok target, log')) :
    target.url = url ∧ UrlAllowed guard net url target.host ∧
      log' = log ++ [net.resolution log target.host target.port] ∧
      (net.resolution log target.host target.port).answer = .addresses target.resolvedIps ∧
      ∀ ip ∈ target.resolvedIps, ipIsPublic ip = true := by
  obtain ⟨⟨host, port⟩, log₁, hcheck, h₁⟩ := Routine.run_bind_eq_ok.mp h
  obtain ⟨hurl, rfl⟩ : guard.checkUrl net url = .ok (host, port) ∧ log = log₁ := by
    simpa using hcheck
  obtain ⟨resolved, log₂, hresolve, h₂⟩ := Routine.run_bind_eq_ok.mp h₁
  obtain ⟨hanswer, rfl⟩ := resolve_ok hresolve
  cases hfind : resolved.find? (fun ip => ipIsPublic ip = false) with
  | some ip =>
      rw [hfind] at h₂
      cases h₂
  | none =>
      rw [hfind] at h₂
      cases h₂
      refine ⟨rfl, checkUrl_ok hurl, rfl, hanswer, fun ip hip => ?_⟩
      simpa using List.find?_eq_none.mp hfind ip hip

/-- What `resolve_public` asks, and what it hands back. -/
theorem log_resolvePublic (guard : SSRFGuard) (net : Network) (host : PyStr) (log : List Resolution) :
    ((guard.resolvePublic net host).run log).2 =
      if guard.hostAllowed net.lower host = false then log
      else log ++ [net.resolution log host 80] := by
  rw [resolvePublic]
  split
  · rfl
  · have hlog := log_resolve net host 80 log
    rcases hresolve : (resolve net host 80).run log with ⟨e | ips, log₁⟩
    · rw [Routine.run_bind_error hresolve]
      rwa [hresolve] at hlog
    · rw [Routine.run_bind_ok hresolve]
      rwa [hresolve] at hlog

theorem resolvePublic_ok (h : (guard.resolvePublic net host).run log = (.ok ips, log')) :
    ∃ resolved, (net.resolution log host 80).answer = .addresses resolved ∧
      ips = resolved.filter fun ip => ipIsPublic ip := by
  rw [resolvePublic] at h
  split at h
  · cases h
  · obtain ⟨resolved, log₁, hresolve, h₁⟩ := Routine.run_bind_eq_ok.mp h
    cases h₁
    exact ⟨resolved, (resolve_ok hresolve).1, rfl⟩

end SSRFGuard

end ThreatIntel
