import ThreatIntel.Errors
import ThreatIntel.PyText

/-!
# Addresses and URLs

`ipaddress.ip_address` and `urllib.parse.urlsplit`. Of an address only
the version is kept. `urlsplit` raises for an authority whose brackets
do not match or do not hold an IPv6 address, and for one that
normalisation would turn into something else.
-/

namespace ThreatIntel

/-! ## ipaddress -/

inductive IpVersion where
  | v4
  | v6
  deriving DecidableEq, Repr

/-- `IPv4Address._parse_octet`. -/
def isOctet (s : PyStr) : Bool :=
  s ≠ [] && s.all PyStr.isAsciiDigit && s.length ≤ 3 &&
    (s = ['0'] || s.head? ≠ some '0') && Nat.ofDigitChars 10 s 0 ≤ 255

def isIpv4 (s : PyStr) : Bool :=
  let octets := s.splitOn '.'
  octets.length = 4 && octets.all isOctet

def isHexDigit (c : Char) : Bool := PyStr.isAsciiDigit c || 'a' ≤ c && c ≤ 'f' || 'A' ≤ c && c ≤ 'F'

/-- `IPv6Address._parse_hextet`. -/
def isHextet (s : PyStr) : Bool := s ≠ [] && s.all isHexDigit && s.length ≤ 4

/-- The parts between the colons, with a trailing IPv4 address replaced by
the two groups it stands for. Which groups these are does not matter to
whether the address is valid. -/
def ipv6Parts? (s : PyStr) : Option (List PyStr) :=
  let parts := s.splitOn ':'
  match parts.getLast? with
  | some last =>
      if '.' ∈ last then
        if isIpv4 last then some (parts.dropLast ++ [['0'], ['0']]) else none
      else some parts
  | none => some parts

/-- `IPv6Address._ip_int_from_string`. -/
def isIpv6Address (s : PyStr) : Bool :=
  if (s.splitOn ':').length < 3 then false
  else
    match ipv6Parts? s with
    | none => false
    | some parts =>
        let n := parts.length
        let part := fun i => parts.getD i []
        if 9 < n then false
        else
          match (List.range' 1 (n - 2)).filter fun i => part i = [] with
          | [] => n = 8 && parts.all isHextet
          | [skip] =>
              let hi := if part 0 = [] then skip - 1 else skip
              let lo := if part (n - 1) = [] then n - skip - 2 else n - skip - 1
              (part 0 ≠ [] || hi = 0) && (part (n - 1) ≠ [] || lo = 0) && hi + lo < 8 &&
                (parts.take hi).all isHextet && (parts.drop (n - lo)).all isHextet
          | _ => false

/-- `IPv6Address.__init__` on a string: an address and possibly a scope. -/
def isIpv6 (s : PyStr) : Bool :=
  let address := s.takeWhile (· ≠ '%')
  let scope := (s.dropWhile (· ≠ '%')).drop 1
  !s.contains '/' && (!s.contains '%' || scope ≠ [] && !scope.contains '%') && isIpv6Address address

/-- `ipaddress.ip_address(value)`; `none` where it raises `ValueError`. -/
def ipAddress? (s : PyStr) : Option IpVersion :=
  if isIpv4 s then some .v4 else if isIpv6 s then some .v6 else none

/-! ## urllib.parse -/

structure SplitResult where
  scheme : PyStr
  netloc : PyStr
  path : PyStr
  query : PyStr
  fragment : PyStr
  deriving DecidableEq, Repr

/-- A text cut at the first `sep`: what stands before it and what stands
behind it. -/
def cutAt (sep : Char) (s : PyStr) : PyStr × PyStr :=
  (s.takeWhile (· ≠ sep), (s.dropWhile (· ≠ sep)).drop 1)

/-- `s.rpartition(sep)[2]`. -/
def afterLast (sep : Char) (s : PyStr) : PyStr := (s.reverse.takeWhile (· ≠ sep)).reverse

def isC0OrSpace (c : Char) : Bool := c.toNat ≤ 0x20

def isUnsafeByte (c : Char) : Bool := c = '\t' || c = '\r' || c = '\n'

def isSchemeChar (c : Char) : Bool := c.isAlphanum || c = '+' || c = '-' || c = '.'

/-- The scheme in lower case, if there is one, and the rest of the URL. -/
def splitScheme (url : PyStr) : PyStr × PyStr :=
  match url.takeWhile (· ≠ ':'), url.dropWhile (· ≠ ':') with
  | c :: head, _ :: rest =>
      if c.isAlpha && (c :: head).all isSchemeChar then (PyStr.lower (c :: head), rest)
      else ([], url)
  | _, _ => ([], url)

/-- `\Av[a-fA-F0-9]+\..+\Z`. -/
def ipvFutureRe : Regex Char :=
  .seqs [.lit 'v', .plus (.cls isHexDigit), .lit '.', .plus (.cls (· ≠ '\n')),
    .assert fun _ after => after.isEmpty]

/-- `_check_bracketed_host`. -/
def checkBracketedHost (hostname : PyStr) : Except Exn Unit :=
  if hostname.head? = some 'v' then
    if ipvFutureRe.isMatch hostname then pure () else throw (.python .valueError)
  else if ipAddress? hostname = some .v6 then pure ()
  else throw (.python .valueError)

/-- `_check_bracketed_netloc`. -/
def checkBracketedNetloc (netloc : PyStr) : Except Exn Unit :=
  let hostnameAndPort := afterLast '@' netloc
  if hostnameAndPort.contains '[' then
    let (before, bracketed) := cutAt '[' hostnameAndPort
    let (hostname, port) := cutAt ']' bracketed
    if before ≠ [] then throw (.python .valueError)
    else if port ≠ [] ∧ port.head? ≠ some ':' then throw (.python .valueError)
    else checkBracketedHost hostname
  else checkBracketedHost (cutAt ':' hostnameAndPort).1

/-- `_checknetloc`: characters that NFKC turns into delimiters. -/
def checkNetloc (U : Unicode) (netloc : PyStr) : Except Exn Unit :=
  let n := netloc.filter fun c => !("@:#?".toList.contains c)
  if netloc.all (·.toNat < 128) then pure ()
  else if U.nfkc n = n then pure ()
  else if (U.nfkc n).any fun c => "/?#@:".toList.contains c then throw (.python .valueError)
  else pure ()

/-- The authority of what follows the scheme, and the rest. -/
def splitNetloc (url : PyStr) : Except Exn (PyStr × PyStr) :=
  match url with
  | '/' :: '/' :: url => do
      let netloc := url.takeWhile fun c => !("/?#".toList.contains c)
      if netloc.contains '[' != netloc.contains ']' then throw (.python .valueError)
      if netloc.contains '[' && netloc.contains ']' then checkBracketedNetloc netloc
      return (netloc, url.drop netloc.length)
  | _ => return ([], url)

/-- The text that `urlsplit` takes apart. -/
def cleanUrl (url : PyStr) : PyStr := (url.dropWhile isC0OrSpace).filter (!isUnsafeByte ·)

def urlsplit (U : Unicode) (url : PyStr) : Except Exn SplitResult := do
  let (scheme, url) := splitScheme (cleanUrl url)
  let (netloc, url) ← splitNetloc url
  let (url, fragment) := cutAt '#' url
  let (path, query) := cutAt '?' url
  checkNetloc U netloc
  return { scheme, netloc, path, query, fragment }

/-! ## What urlsplit raises -/

theorem checkBracketedHost_error {hostname : PyStr} {e : Exn}
    (h : checkBracketedHost hostname = .error e) : e = .python .valueError := by
  unfold checkBracketedHost at h
  split at h
  · split at h
    · cases h
    · cases h
      rfl
  · split at h
    · cases h
    · cases h
      rfl

theorem checkBracketedNetloc_error {netloc : PyStr} {e : Exn}
    (h : checkBracketedNetloc netloc = .error e) : e = .python .valueError := by
  simp only [checkBracketedNetloc] at h
  split at h
  · split at h
    · cases h
      rfl
    · split at h
      · cases h
        rfl
      · exact checkBracketedHost_error h
  · exact checkBracketedHost_error h

theorem splitNetloc_error {url : PyStr} {e : Exn} (h : splitNetloc url = .error e) :
    e = .python .valueError := by
  unfold splitNetloc at h
  split at h
  · next url =>
      dsimp only at h
      split at h
      · cases h
        rfl
      · split at h
        · cases hb : checkBracketedNetloc (url.takeWhile fun c => !("/?#".toList.contains c)) with
          | error e' =>
              rw [hb] at h
              cases h
              exact checkBracketedNetloc_error hb
          | ok u =>
              rw [hb] at h
              cases h
        · cases h
  · cases h

theorem checkNetloc_error {U : Unicode} {netloc : PyStr} {e : Exn}
    (h : checkNetloc U netloc = .error e) : e = .python .valueError := by
  simp only [checkNetloc] at h
  split at h
  · cases h
  · split at h
    · cases h
    · split at h
      · cases h
        rfl
      · cases h

/-- `urlsplit` raises nothing but `ValueError`. -/
theorem urlsplit_error {U : Unicode} {url : PyStr} {e : Exn} (h : urlsplit U url = .error e) :
    e = .python .valueError := by
  simp only [urlsplit] at h
  cases hnet : splitNetloc (splitScheme (cleanUrl url)).2 with
  | error e' =>
      rw [hnet] at h
      cases h
      exact splitNetloc_error hnet
  | ok n =>
      rw [hnet] at h
      cases hcheck : checkNetloc U n.1 with
      | error e' =>
          simp only [bind, Except.bind, hcheck] at h
          cases h
          exact checkNetloc_error hcheck
      | ok u =>
          simp only [bind, Except.bind, hcheck] at h
          cases h

/-! ## What an address is made of -/

theorem isAsciiDigit_of_isOctet {s : PyStr} (h : isOctet s = true) :
    ∀ c ∈ s, PyStr.isAsciiDigit c = true := by
  simp only [isOctet, Bool.and_eq_true, List.all_eq_true] at h
  exact h.1.1.1.2

theorem length_splitOn (sep : Char) (s : PyStr) :
    (s.splitOn sep).length = s.count sep + 1 := by
  induction s with
  | nil => rfl
  | cons c s ih =>
      rw [List.splitOn_cons_eq_if_modifyHead, List.count_cons]
      split <;> simp [ih]

theorem mem_of_mem_splitOn {sep c : Char} {s : PyStr} (h : c ∈ s) (hc : c ≠ sep) :
    ∃ w ∈ s.splitOn sep, c ∈ w := by
  induction s with
  | nil => exact absurd h List.not_mem_nil
  | cons x s ih =>
      obtain ⟨w, ws, hws⟩ := List.exists_cons_of_ne_nil (List.splitOn_ne_nil sep s)
      rw [List.splitOn_cons_eq_if_modifyHead, hws]
      rw [hws] at ih
      rcases List.mem_cons.mp h with rfl | h
      · simp [hc]
      · obtain ⟨v, hv, hcv⟩ := ih h
        split
        · exact ⟨v, List.mem_cons_of_mem _ hv, hcv⟩
        · rcases List.mem_cons.mp hv with rfl | hv
          · exact ⟨x :: v, List.mem_cons_self, List.mem_cons_of_mem _ hcv⟩
          · exact ⟨v, List.mem_cons_of_mem _ hv, hcv⟩

/-- An IPv4 address is digits and dots. -/
theorem digit_or_dot_of_isIpv4 {s : PyStr} (h : isIpv4 s = true) :
    ∀ c ∈ s, PyStr.isAsciiDigit c = true ∨ c = '.' := by
  simp only [isIpv4, Bool.and_eq_true, List.all_eq_true] at h
  intro c hc
  refine or_iff_not_imp_right.mpr fun hne => ?_
  obtain ⟨w, hw, hcw⟩ := mem_of_mem_splitOn hc hne
  exact isAsciiDigit_of_isOctet (h.2 w hw) c hcw

theorem dot_mem_of_isIpv4 {s : PyStr} (h : isIpv4 s = true) : '.' ∈ s := by
  simp only [isIpv4, Bool.and_eq_true, decide_eq_true_eq, length_splitOn] at h
  exact List.count_pos_iff.mp (by omega)

/-- An IPv6 address has two colons at least, before its scope. -/
theorem two_le_count_address {s : PyStr} (h : isIpv6 s = true) :
    2 ≤ (s.takeWhile (· ≠ '%')).count ':' := by
  simp only [isIpv6, Bool.and_eq_true] at h
  have haddr := h.2
  have hthree : ¬ ((s.takeWhile (· ≠ '%')).splitOn ':').length < 3 := by
    intro hlt
    rw [isIpv6Address, if_pos hlt] at haddr
    exact Bool.false_ne_true haddr
  rw [length_splitOn] at hthree
  omega

theorem two_le_count_of_isIpv6 {s : PyStr} (h : isIpv6 s = true) : 2 ≤ s.count ':' :=
  (two_le_count_address h).trans ((List.takeWhile_sublist _).count_le ':')

theorem colon_mem_of_isIpv6 {s : PyStr} (h : isIpv6 s = true) : ':' ∈ s :=
  List.count_pos_iff.mp (Nat.lt_of_lt_of_le Nat.two_pos (two_le_count_of_isIpv6 h))

theorem not_isAlpha_of_isAsciiDigit {c : Char} (h : PyStr.isAsciiDigit c = true) :
    c.isAlpha = false := by
  change (decide ('A' ≤ c ∧ c ≤ 'Z') || (decide ('a' ≤ c) && decide (c ≤ 'z'))) = false
  grind [PyStr.isAsciiDigit, Char.le_def]

/-! ## What a URL with a scheme looks like -/

theorem mem_takeWhile_of_filter {p q : Char → Bool} {s : PyStr} {c : Char}
    (hpq : ∀ x, p x = false → q x = true) (h : c ∈ (s.filter q).takeWhile p) :
    c ∈ s.takeWhile p := by
  induction s with
  | nil => exact h
  | cons x s ih =>
      by_cases hq : q x = true
      · rw [List.filter_cons_of_pos hq, List.takeWhile_cons] at h
        split at h
        · next hp =>
            rw [List.takeWhile_cons, if_pos hp]
            rcases List.mem_cons.mp h with rfl | h
            · exact List.mem_cons_self
            · exact List.mem_cons_of_mem _ (ih h)
        · exact absurd h List.not_mem_nil
      · rw [List.filter_cons_of_neg hq] at h
        have hp : p x = true := by
          by_contra hp
          exact hq (hpq x (Bool.eq_false_iff.mpr hp))
        rw [List.takeWhile_cons, if_pos hp]
        exact List.mem_cons_of_mem _ (ih h)

theorem mem_takeWhile_of_dropWhile {p q : Char → Bool} {s : PyStr} {c : Char}
    (hpq : ∀ x, q x = true → p x = true) (h : c ∈ (s.dropWhile q).takeWhile p) :
    c ∈ s.takeWhile p := by
  induction s with
  | nil => exact h
  | cons x s ih =>
      rw [List.dropWhile_cons] at h
      split at h
      · next hq =>
          rw [List.takeWhile_cons, if_pos (hpq x hq)]
          exact List.mem_cons_of_mem _ (ih h)
      · exact h

theorem exists_isAlpha_of_scheme {U : Unicode} {url : PyStr} {parts : SplitResult}
    (h : urlsplit U url = .ok parts) (hscheme : parts.scheme ≠ []) :
    ':' ∈ url ∧ ∃ c ∈ url.takeWhile (· ≠ ':'), c.isAlpha = true := by
  have hs : parts.scheme = (splitScheme (cleanUrl url)).1 := by
    simp only [urlsplit] at h
    cases hnet : splitNetloc (splitScheme (cleanUrl url)).2 with
    | error e => simp [hnet, bind, Except.bind] at h
    | ok n =>
        cases hcheck : checkNetloc U n.1 with
        | error e => simp [hnet, hcheck, bind, Except.bind] at h
        | ok u =>
            simp [hnet, hcheck, bind, Except.bind, pure, Except.pure] at h
            rw [← h]
  rw [hs, splitScheme] at hscheme
  split at hscheme
  · next c head x rest htake hdrop =>
      split at hscheme
      · next hcond =>
          have hx : x ∈ cleanUrl url ∧ x = ':' := by
            refine ⟨(List.dropWhile_suffix _).subset (hdrop ▸ List.mem_cons_self), ?_⟩
            have hstop := List.head?_dropWhile_not (· ≠ ':') (cleanUrl url)
            rw [hdrop] at hstop
            simpa using hstop
          obtain ⟨hmem, rfl⟩ := hx
          have hc : c ∈ (cleanUrl url).takeWhile (· ≠ ':') := htake ▸ List.mem_cons_self
          refine ⟨(List.dropWhile_suffix _).subset (List.mem_of_mem_filter hmem), c, ?_, ?_⟩
          · refine mem_takeWhile_of_dropWhile ?_ (mem_takeWhile_of_filter ?_ hc)
            · intro y hy
              rcases eq_or_ne y ':' with rfl | hne
              · simp [isC0OrSpace] at hy
              · simpa using hne
            · intro y hy
              obtain rfl : y = ':' := by simpa using hy
              decide
          · simp only [Bool.and_eq_true] at hcond
            exact hcond.1
      · exact absurd rfl hscheme
  · exact absurd rfl hscheme

end ThreatIntel
