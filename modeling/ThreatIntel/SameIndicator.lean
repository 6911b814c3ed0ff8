import ThreatIntel.Address
import ThreatIntel.IndicatorFormats

/-!
# One indicator, one value

The store keeps one row for a type and a value, so two spellings of an
indicator are one row if they are classified alike. What a raw string
denotes is read off its refanged form: `SameIndicator` relates two
refanged texts that differ in the case of a part in which case does not
matter, or that spell the same address. Hashes, CVE ids, domains, email
addresses and IPv4 addresses have one value for all of their spellings.
URLs and IPv6 addresses are stored as they are spelled
(`same_indicator_iff`).
-/

namespace ThreatIntel

namespace Indicators

/-- Character by character the same in lower case. -/
def SameCase (v w : PyStr) : Prop := v.map PyStr.lowerOne = w.map PyStr.lowerOne

instance (v w : PyStr) : Decidable (SameCase v w) := inferInstanceAs (Decidable (_ = _))

/-- The formats in which case does not matter at all. -/
inductive CaseFormat (text : PyStr) : Prop where
  | hash {t : IOCType} (h : hashType text = some t)
  | cve (h : cveRe.isMatch text = true)
  | email (h : emailRe.isMatch text = true)
  | domain (h : domainRe.isMatch text = true)

/-- What makes a value a URL. -/
def IsUrl (U : Unicode) (text : PyStr) : Prop :=
  PyStr.includes "://".toList text = true ∧
    ∃ parts, urlsplit U text = .ok parts ∧ parts.scheme ≠ [] ∧ parts.netloc ≠ []

/-- Two refanged texts that denote one indicator. The host of a URL stands
behind the user information and before a port, path, query or fragment. -/
inductive SameIndicator (U : Unicode) : PyStr → PyStr → Prop where
  | case {v w : PyStr} (hformat : CaseFormat v) (h : SameCase v w) : SameIndicator U v w
  | url {scheme scheme' user host host' rest : PyStr}
      (hurl : IsUrl U (scheme ++ "://".toList ++ user ++ host ++ rest))
      (hscheme : SameCase scheme scheme') (hhost : SameCase host host')
      (hcolon : ':' ∉ scheme) (huser : user = [] ∨ user.getLast? = some '@')
      (hauthority : ∀ c ∈ ['/', '?', '#'], c ∉ user ++ host) (hat : '@' ∉ host)
      (hrest : ∀ c, rest.head? = some c → c ∈ [':', '/', '?', '#']) :
      SameIndicator U (scheme ++ "://".toList ++ user ++ host ++ rest)
        (scheme' ++ "://".toList ++ user ++ host' ++ rest)
  | address {v w : PyStr} {address : IpAddress} (hv : ipAddressOf? (bareHost v) = some address)
      (hw : ipAddressOf? (bareHost w) = some address) : SameIndicator U v w

/-- The spelling is kept: the text is a URL or an IPv6 address. -/
def SpellingKept (U : Unicode) (text : PyStr) : Prop :=
  IsUrl U text ∨ isIpv6 (bareHost text) = true

/-! ## Case -/

section Case

variable {U : Unicode} {v w : PyStr}

/-- Lower case can be taken character by character first. -/
theorem lower_map_lowerOne (s : PyStr) : PyStr.lower (s.map PyStr.lowerOne) = PyStr.lower s := by
  rw [PyStr.lower, PyStr.lower, List.flatMap_map]
  refine List.flatMap_congr fun c _ => ?_
  rw [PyStr.lowerOne_lowerOne]
  simp only [PyStr.lowerOne_eq_dotted]

theorem SameCase.lower (h : SameCase v w) : v.lower = w.lower := by
  rw [← lower_map_lowerOne v, h, lower_map_lowerOne]

theorem SameCase.isMatch (h : SameCase v w) {r : Regex Char} (hr : r.Blind PyStr.lowerOne) :
    r.isMatch v = r.isMatch w := by
  rw [← Regex.isMatch_map hr v, h, Regex.isMatch_map hr]

theorem SameCase.hashType (h : SameCase v w) : Indicators.hashType v = Indicators.hashType w := by
  rw [← hashType_map foldsTo_lowerOne v, h, hashType_map foldsTo_lowerOne]

/-- Upper case can be taken after lower case, except of the Kelvin sign. -/
theorem upperOne_lowerOne {c : Char} (hc : c ≠ '\u212a') :
    PyStr.upperOne (PyStr.lowerOne c) = PyStr.upperOne c := by
  have htable : ∀ kv ∈ PyStr.asciiCase, PyStr.upperOne kv.2 = PyStr.upperOne kv.1 := by decide
  rcases PyStr.mapThrough_cases PyStr.lowerTable c with hself | hin
  · rw [PyStr.lowerOne, hself]
  · rcases List.mem_cons.mp hin with hkelvin | hin
    · exact absurd (Prod.mk.inj hkelvin).1 hc
    · exact htable _ hin

theorem SameCase.upper (h : SameCase v w) (hv : '\u212a' ∉ v) (hw : '\u212a' ∉ w) :
    v.upper = w.upper := by
  have hkeep : ∀ s : PyStr, '\u212a' ∉ s → PyStr.upper (s.map PyStr.lowerOne) = s.upper := by
    intro s hs
    rw [PyStr.upper, PyStr.upper, List.map_map]
    exact List.map_congr_left fun c hc => upperOne_lowerOne fun hkelvin => hs (hkelvin ▸ hc)
  rw [← hkeep v hv, h, hkeep w hw]

theorem Recognised.unique {p q : ParsedIndicator} (hp : Recognised U v p) (hq : Recognised U v q) :
    p = q := by
  have h : classifyValue U v v = .ok p := classifyValue_of_recognised hp
  exact Except.ok.inj (h.symm.trans (classifyValue_of_recognised hq))

/-- A text in one of these formats and another in another case are
recognised as the same. -/
theorem recognised_of_sameCase (hv : v.strip = v) (hw : w.strip = w) (hformat : CaseFormat v)
    (h : SameCase v w) : ∃ p, Recognised U v p ∧ Recognised U w p := by
  cases hformat with
  | @hash t hhash =>
      refine ⟨⟨t, v.lower⟩, .hash hhash, ?_⟩
      rw [h.lower]
      exact .hash (h.hashType ▸ hhash)
  | cve hcve =>
      cases hhash : Indicators.hashType v with
      | some t =>
          refine ⟨⟨t, v.lower⟩, .hash hhash, ?_⟩
          rw [h.lower]
          exact .hash (h.hashType ▸ hhash)
      | none =>
          have hcve' : cveRe.isMatch w = true := h.isMatch (blind_cveRe foldsTo_lowerOne) ▸ hcve
          refine ⟨⟨.cve, v.upper⟩, .cve hhash hcve, ?_⟩
          rw [h.upper (notMem_of_isMatch atEnd_cveRe hv hcve (by decide))
            (notMem_of_isMatch atEnd_cveRe hw hcve' (by decide))]
          exact .cve (h.hashType ▸ hhash) hcve'
  | email hemail =>
      refine ⟨⟨.email, v.lower⟩, recognised_of_emailRe hv hemail, ?_⟩
      rw [h.lower]
      exact recognised_of_emailRe hw (h.isMatch (blind_emailRe foldsTo_lowerOne) ▸ hemail)
  | domain hdomain =>
      refine ⟨⟨.domain, v.lower⟩, recognised_of_domainRe hv hdomain, ?_⟩
      rw [h.lower]
      exact recognised_of_domainRe hw (h.isMatch (blind_domainRe foldsTo_lowerOne) ▸ hdomain)

theorem colon_notMem_of_caseFormat (hv : v.strip = v) (hformat : CaseFormat v) : ':' ∉ v := by
  cases hformat with
  | hash h =>
      obtain ⟨n, hn⟩ := isMatch_of_hashType h
      exact (plainFormat_hashRe n).colon_notMem hv hn
  | cve h => exact plainFormat_cveRe.colon_notMem hv h
  | email h => exact plainFormat_emailRe.colon_notMem hv h
  | domain h => exact plainFormat_domainRe.colon_notMem hv h

theorem not_spellingKept_of_notMem (h : ':' ∉ v) : ¬ SpellingKept U v := by
  rintro (⟨hsep, parts, hsplit, hparts⟩ | h6)
  · obtain ⟨parts', hsplit', hnot⟩ := noUrl_of_notMem (U := U) h hsep
    obtain rfl : parts = parts' := Except.ok.inj (hsplit.symm.trans hsplit')
    exact hnot hparts
  · rw [bareHost_of_notMem h] at h6
    exact h (colon_mem_of_isIpv6 h6)

end Case

/-! ## URLs -/

section Url

variable {U : Unicode} {v : PyStr}

theorem IsUrl.colon_mem (h : IsUrl U v) : ':' ∈ v := by
  obtain ⟨-, parts, hsplit, hscheme, -⟩ := h
  exact (exists_isAlpha_of_scheme hsplit hscheme).1

theorem IsUrl.recognised (hv : v.strip = v) (h : IsUrl U v) : Recognised U v ⟨.url, v⟩ := by
  obtain ⟨hsep, parts, hsplit, hparts⟩ := h
  have hcolon := IsUrl.colon_mem ⟨hsep, parts, hsplit, hparts⟩
  refine .url ⟨hashType_eq_none hv hcolon (by decide), Bool.eq_false_iff.mpr fun hcve => ?_,
    Bool.eq_false_iff.mpr fun htech => ?_⟩ hsep hsplit hparts
  · exact plainFormat_cveRe.colon_notMem hv hcve hcolon
  · exact plainFormat_techniqueRe.colon_notMem hv htech hcolon

end Url

/-! ## Addresses -/

section Addresses

variable {U : Unicode} {v w : PyStr}

theorem slash_notMem_of_isIpv6 (h : isIpv6 v = true) : '/' ∉ v := by
  simp only [isIpv6, Bool.and_eq_true, Bool.not_eq_true', List.contains_eq_mem,
    decide_eq_false_iff_not] at h
  exact h.1.1

/-- A text in a plain format other than that of a domain is no address. -/
theorem ipType_of_plainFormat (hv : v.strip = v) {r : Regex Char} (hr : PlainFormat r)
    (hm : r.isMatch v = true) {c : Char} (hc : c ∈ v) (hchar : c ∉ ipv4Chars) :
    ipType (bareHost v) = none := by
  have hcolon := hr.colon_notMem hv hm
  rw [bareHost_of_notMem hcolon, ipType_eq_none_iff]
  exact ⟨Bool.eq_false_iff.mpr fun h4 => hchar (mem_ipv4Chars h4 c hc),
    Bool.eq_false_iff.mpr fun h6 => hcolon (colon_mem_of_isIpv6 h6)⟩

/-- What has the host of an address is recognised as that address. -/
theorem Recognised.eq_of_ipType (hv : v.strip = v) {p : ParsedIndicator} (h : Recognised U v p)
    {t : IOCType} (hip : ipType (bareHost v) = some t) : p = ⟨t, bareHost v⟩ := by
  have hnone : ipType (bareHost v) ≠ none := by simp [hip]
  cases h with
  | hash h =>
      obtain ⟨n, hn⟩ := isMatch_of_hashType h
      have hcolon := (plainFormat_hashRe n).colon_notMem hv hn
      have hdot : '.' ∉ v := notMem_of_isMatch (atEnd_hashRe n) hv hn (reads_hashRe n (by decide))
      refine absurd ?_ hnone
      rw [bareHost_of_notMem hcolon, ipType_eq_none_iff]
      exact ⟨Bool.eq_false_iff.mpr fun h4 => hdot (dot_mem_of_isIpv4 h4),
        Bool.eq_false_iff.mpr fun h6 => hcolon (colon_mem_of_isIpv6 h6)⟩
  | cve hhash h =>
      have hforces : cveRe.Forces (· = '-') :=
        .inr (.inr (.inr (.inl fun x hx => by simpa using hx)))
      obtain ⟨c, hc, rfl⟩ := Regex.exists_of_isMatch hforces h
      exact absurd (ipType_of_plainFormat hv plainFormat_cveRe h hc (by decide)) hnone
  | technique hhash hcve h =>
      exact absurd (ipType_of_plainFormat hv plainFormat_techniqueRe h (mem_of_techniqueRe h)
        (by decide)) hnone
  | url hid hsep hsplit h =>
      refine absurd ?_ hnone
      rw [ipType_eq_none_iff]
      refine ⟨not_isIpv4_of_url hsplit h.1, Bool.eq_false_iff.mpr fun h6 => ?_⟩
      obtain ⟨c, hc, hsame⟩ := Rewrite.exists_of_occurs hsep (by decide : '/' ∈ "://".toList)
      obtain rfl : '/' = c := by simpa [PyStr.sameChar] using hsame
      exact slash_notMem_of_isIpv6 h6 ((bareHost_of_isIpv6 h6).symm ▸ hc)
  | email hid hurl h =>
      exact absurd (ipType_of_plainFormat hv plainFormat_emailRe h (mem_of_emailRe h)
        (by decide)) hnone
  | ip hid hurl hemail h =>
      rw [hip] at h
      obtain rfl := Option.some.inj h
      rfl
  | domain hid hurl hemail hnone' h => exact absurd hnone' hnone

theorem ipType_of_ipAddressOf? {text : PyStr} {address : IpAddress}
    (h : ipAddressOf? text = some address) :
    (address.version = .v4 ∧ isIpv4 text = true ∧ address.int = ipv4Int text ∧
      ipType text = some .ipv4) ∨
    (address.version = .v6 ∧ isIpv6 text = true ∧ ipType text = some .ipv6) := by
  unfold ipAddressOf? at h
  by_cases h4 : isIpv4 text = true
  · have hversion : ipAddress? text = some .v4 := by simp [ipAddress?, h4]
    rw [hversion, Option.map_some, Option.some.injEq] at h
    subst h
    exact .inl ⟨rfl, h4, rfl, ipType_of_isIpv4 h4⟩
  · by_cases h6 : isIpv6 text = true
    · have hversion : ipAddress? text = some .v6 := by simp [ipAddress?, h4, h6]
      rw [hversion, Option.map_some, Option.some.injEq] at h
      subst h
      exact .inr ⟨rfl, h6, by simp [ipType, hversion]⟩
    · simp [ipAddress?, h4, h6] at h

end Addresses

/-! ## The value tells the type -/

/-- The type that has values like this one. -/
def typeOfValue (value : PyStr) : IOCType :=
  if ':' ∈ value then if '/' ∈ value then .url else .ipv6
  else if '@' ∈ value then .email
  else if isIpv4 value then .ipv4
  else if 'T' ∈ value then .mitreTechnique
  else if '.' ∈ value then .domain
  else if '-' ∈ value then .cve
  else (hashType value).getD .md5

/-- A character that lower case neither changes nor brings in. -/
theorem mem_lower_iff {c : Char} (htable : ∀ kv ∈ PyStr.lowerTable, kv.1 ≠ c ∧ kv.2 ≠ c)
    (hother : c ∉ ['İ', 'i', '\u0307']) {s : PyStr} : c ∈ s.lower ↔ c ∈ s := by
  have hone : ∀ d, PyStr.lowerOne d = c ↔ d = c := fun d =>
    PyStr.mapThrough_rel (R := fun d e => e = c ↔ d = c) (fun _ => Iff.rfl)
      (fun kv hkv => iff_of_false (htable kv hkv).2 (htable kv hkv).1) d
  simp only [List.mem_cons, List.not_mem_nil, or_false, not_or] at hother
  rw [PyStr.lower, List.mem_flatMap]
  constructor
  · rintro ⟨d, hd, hc⟩
    split at hc
    · simp [hother] at hc
    · obtain rfl := (hone d).mp (List.mem_singleton.mp hc).symm
      exact hd
  · intro hc
    refine ⟨c, hc, ?_⟩
    rw [if_neg hother.1, (hone c).mpr rfl]
    exact List.mem_singleton_self c

theorem mem_upper_iff {c : Char} (htable : ∀ kv ∈ PyStr.upperTable, kv.1 ≠ c ∧ kv.2 ≠ c)
    {s : PyStr} : c ∈ s.upper ↔ c ∈ s := by
  have hone : ∀ d, PyStr.upperOne d = c ↔ d = c := fun d =>
    PyStr.mapThrough_rel (R := fun d e => e = c ↔ d = c) (fun _ => Iff.rfl)
      (fun kv hkv => iff_of_false (htable kv hkv).2 (htable kv hkv).1) d
  simp [PyStr.upper, List.mem_map, hone]

theorem not_isIpv4_of_mem {s : PyStr} {c : Char} (hc : c ∈ s) (hchar : c ∉ ipv4Chars) :
    isIpv4 s = false :=
  Bool.eq_false_iff.mpr fun h4 => hchar (mem_ipv4Chars h4 c hc)

/-- A letter stays a letter in lower case, which an IPv4 address has not. -/
theorem not_isIpv4_lower {s : PyStr} {c : Char} (hc : c ∈ s)
    (hletter : PyStr.ignoreCase PyStr.isAsciiLower c = true) : isIpv4 s.lower = false := by
  have htable : ipv4Chars.all (!PyStr.ignoreCase PyStr.isAsciiLower ·) = true := by decide
  obtain ⟨d, hd, hletter'⟩ : ∃ d ∈ s.lower, PyStr.ignoreCase PyStr.isAsciiLower d = true := by
    by_cases hdotted : c = 'İ'
    · refine ⟨'i', List.mem_flatMap.mpr ⟨c, hc, ?_⟩, by decide⟩
      rw [if_pos hdotted]
      exact List.mem_cons_self
    · refine ⟨PyStr.lowerOne c, List.mem_flatMap.mpr ⟨c, hc, ?_⟩, ?_⟩
      · rw [if_neg hdotted]
        exact List.mem_singleton_self _
      · rw [foldsTo_lowerOne.ignoreCase]
        exact hletter
  refine not_isIpv4_of_mem hd fun hmem => ?_
  simpa [hletter'] using List.all_eq_true.mp htable d hmem

theorem Recognised.typeOfValue {U : Unicode} {v : PyStr} {p : ParsedIndicator}
    (hv : v.strip = v) (h : Recognised U v p) : typeOfValue p.value = p.type := by
  cases h with
  | @hash t h =>
      obtain ⟨n, hn⟩ := isMatch_of_hashType h
      have hnot : ∀ {c : Char}, hexDigit.reads c = false → c ∉ v := fun hc =>
        notMem_of_isMatch (atEnd_hashRe n) hv hn (reads_hashRe n hc)
      have hcolon : ':' ∉ v.lower := mt (mem_lower_iff (by decide) (by decide)).mp (hnot (by decide))
      have hat : '@' ∉ v.lower := mt (mem_lower_iff (by decide) (by decide)).mp (hnot (by decide))
      have hdot : '.' ∉ v.lower := mt (mem_lower_iff (by decide) (by decide)).mp (hnot (by decide))
      have hdash : '-' ∉ v.lower := mt (mem_lower_iff (by decide) (by decide)).mp (hnot (by decide))
      have h4 : isIpv4 v.lower = false :=
        Bool.eq_false_iff.mpr fun h4 => hdot (dot_mem_of_isIpv4 h4)
      have hhash : hashType v.lower = some t := by
        rw [PyStr.lower_eq_map (hnot (by decide)), hashType_map foldsTo_lowerOne, h]
      simp [Indicators.typeOfValue, hcolon, hat, hdot, hdash, h4, hhash, capT_notMem_lower]
  | cve hhash h =>
      have hnot : ∀ {c : Char}, cveRe.reads c = false → c ∉ v := fun hc =>
        notMem_of_isMatch atEnd_cveRe hv h hc
      have hforces : cveRe.Forces (· = '-') :=
        .inr (.inr (.inr (.inl fun x hx => by simpa using hx)))
      obtain ⟨c, hc, rfl⟩ := Regex.exists_of_isMatch hforces h
      have hcolon : ':' ∉ v.upper := mt (mem_upper_iff (by decide)).mp (hnot (by decide))
      have hat : '@' ∉ v.upper := mt (mem_upper_iff (by decide)).mp (hnot (by decide))
      have hdot : '.' ∉ v.upper := mt (mem_upper_iff (by decide)).mp (hnot (by decide))
      have hdash : '-' ∈ v.upper := (mem_upper_iff (by decide)).mpr hc
      have hT : 'T' ∉ v.upper := by
        intro hmem
        obtain ⟨d, hd, hT⟩ := List.mem_map.mp hmem
        have hfold : PyStr.foldCase d = 't' := by
          rw [← PyStr.foldCase_upperOne d, hT]
          rfl
        have hread := reads_of_isMatch atEnd_cveRe hv h d hd
        have htable : ∀ kv ∈ PyStr.caseTable, kv.2 = 't' → cveRe.reads kv.1 = false := by decide
        rcases PyStr.mapThrough_cases PyStr.caseTable d with hself | hin
        · obtain rfl : d = 't' := hself.symm.trans hfold
          exact absurd hread (by decide)
        · exact Bool.false_ne_true ((htable _ hin hfold).symm.trans hread)
      simp [Indicators.typeOfValue, hcolon, hat, hdot, hdash, hT, not_isIpv4_of_mem hdash (by decide)]
  | technique hhash hcve h =>
      have hupper := upper_of_techniqueRe hv h
      have hT := mem_of_techniqueRe h
      have hcolon : ':' ∉ v := notMem_of_isMatch atEnd_techniqueRe hv h (by decide)
      have hat : '@' ∉ v := notMem_of_isMatch atEnd_techniqueRe hv h (by decide)
      simp [Indicators.typeOfValue, hupper, hcolon, hat, hT, not_isIpv4_of_mem hT (by decide)]
  | url hid hsep hsplit h =>
      have hcolon := (exists_isAlpha_of_scheme hsplit h.1).1
      obtain ⟨c, hc, hsame⟩ := Rewrite.exists_of_occurs hsep (by decide : '/' ∈ "://".toList)
      obtain rfl : '/' = c := by simpa [PyStr.sameChar] using hsame
      simp [Indicators.typeOfValue, hcolon, hc]
  | email hid hurl h =>
      have hcolon : ':' ∉ v.lower := mt (mem_lower_iff (by decide) (by decide)).mp
        (plainFormat_emailRe.colon_notMem hv h)
      have hat : '@' ∈ v.lower := (mem_lower_iff (by decide) (by decide)).mpr (mem_of_emailRe h)
      simp [Indicators.typeOfValue, hcolon, hat]
  | ip hid hurl hemail h =>
      rcases ipType_cases h with ⟨rfl, h4⟩ | ⟨rfl, h6⟩
      · have hcolon := colon_notMem_of_isIpv4 h4
        have hat : '@' ∉ bareHost v := fun hmem => absurd (mem_ipv4Chars h4 _ hmem) (by decide)
        simp [Indicators.typeOfValue, hcolon, hat, h4]
      · have hcolon := colon_mem_of_isIpv6 h6
        simp [Indicators.typeOfValue, hcolon, slash_notMem_of_isIpv6 h6]
  | domain hid hurl hemail hip h =>
      have hcolon : ':' ∉ v.lower := mt (mem_lower_iff (by decide) (by decide)).mp
        (plainFormat_domainRe.colon_notMem hv h)
      have hat : '@' ∉ v.lower := mt (mem_lower_iff (by decide) (by decide)).mp
        (notMem_of_isMatch atEnd_domainRe hv h (by decide))
      have hdot : '.' ∈ v.lower := (mem_lower_iff (by decide) (by decide)).mpr (dot_mem_of_domainRe h)
      obtain ⟨c, hlast, hletter⟩ := letter_of_domainRe h (newline_not_last hv)
      have h4 := not_isIpv4_lower (List.mem_of_getLast? hlast) hletter
      simp [Indicators.typeOfValue, hcolon, hat, hdot, h4, capT_notMem_lower]

/-- Recognised values are different in different types. -/
theorem Recognised.eq_of_value {U : Unicode} {v w : PyStr} {p q : ParsedIndicator}
    (hv : v.strip = v) (hw : w.strip = w) (hp : Recognised U v p) (hq : Recognised U w q)
    (h : p.value = q.value) : p = q := by
  have htype : p.type = q.type := by rw [← hp.typeOfValue hv, ← hq.typeOfValue hw, h]
  obtain ⟨t, value⟩ := p
  obtain ⟨t', value'⟩ := q
  simp only at htype h
  rw [htype, h]

/-- **One indicator, one value**: two accepted spellings of an indicator are
classified alike exactly if they are spelled alike once refanged, or the
spelling is not kept. -/
theorem same_indicator_iff {U : Unicode} {a b : PyStr} {p q : ParsedIndicator}
    (ha : classifyIndicator U a = .ok p) (hb : classifyIndicator U b = .ok q)
    (h : SameIndicator U (refang a) (refang b)) :
    p = q ↔ (SpellingKept U (refang a) → refang a = refang b) := by
  have hp := (classifyIndicator_eq_ok_iff.mp ha).2
  have hq := (classifyIndicator_eq_ok_iff.mp hb).2
  have hv : (refang a).strip = refang a := strip_refang a
  have hw : (refang b).strip = refang b := strip_refang b
  generalize refang a = v at *
  generalize refang b = w at *
  cases h with
  | case hformat hcase =>
      obtain ⟨r, hr, hr'⟩ := recognised_of_sameCase (U := U) hv hw hformat hcase
      have heq : p = q := (hp.unique hr).trans (hr'.unique hq)
      have hnot := not_spellingKept_of_notMem (U := U) (colon_notMem_of_caseFormat hv hformat)
      exact ⟨fun _ hkept => absurd hkept hnot, fun _ => heq⟩
  | url hurl hscheme hhost hcolon huser hauthority hat hrest =>
      obtain rfl := hp.unique (hurl.recognised hv)
      constructor
      · rintro rfl -
        exact hq.value_of_url rfl
      · intro hsame
        have heq := hsame (.inl hurl)
        rw [← heq] at hq
        exact (hurl.recognised hv).unique hq
  | @address _ _ address hva hwa =>
      rcases ipType_of_ipAddressOf? hva with ⟨hversion, h4, hint, htype⟩ | ⟨hversion, h6, htype⟩
      · rcases ipType_of_ipAddressOf? hwa with ⟨-, h4', hint', htype'⟩ | ⟨hversion', -⟩
        · have hhost := eq_of_ipv4Int h4 h4' (hint.symm.trans hint')
          have heq : p = q := by
            rw [hp.eq_of_ipType hv htype, hq.eq_of_ipType hw htype', hhost]
          refine ⟨fun _ hkept => ?_, fun _ => heq⟩
          rcases hkept with ⟨-, parts, hsplit, hscheme, -⟩ | h6
          · exact absurd h4 (Bool.eq_false_iff.mp (not_isIpv4_of_url hsplit hscheme))
          · exact absurd (colon_mem_of_isIpv6 h6) (colon_notMem_of_isIpv4 h4)
        · rw [hversion] at hversion'
          cases hversion'
      · rcases ipType_of_ipAddressOf? hwa with ⟨hversion', -⟩ | ⟨-, h6', htype'⟩
        · rw [hversion] at hversion'
          cases hversion'
        · rw [hp.eq_of_ipType hv htype, hq.eq_of_ipType hw htype', bareHost_of_isIpv6 h6,
            bareHost_of_isIpv6 h6']
          refine ⟨fun heq _ => (ParsedIndicator.mk.inj heq).2, fun hsame => ?_⟩
          rw [hsame (.inr h6)]

/-- A domain in capitals is the row of the domain. -/
theorem same_indicator_domain :
    classifyIndicator .ascii "EVIL[.]Example.com".toList =
      classifyIndicator .ascii "evil.example.com".toList := by
  have ha : classifyIndicator .ascii "EVIL[.]Example.com".toList =
      .ok ⟨.domain, "evil.example.com".toList⟩ := by decide
  have hb : classifyIndicator .ascii "evil.example.com".toList =
      .ok ⟨.domain, "evil.example.com".toList⟩ := by decide
  have hsame : SameIndicator .ascii (refang "EVIL[.]Example.com".toList)
      (refang "evil.example.com".toList) := .case (.domain (by decide)) (by decide)
  have hnot : ¬ SpellingKept .ascii (refang "EVIL[.]Example.com".toList) :=
    not_spellingKept_of_notMem (by decide)
  rw [ha, hb, (same_indicator_iff ha hb hsame).mpr fun hkept => absurd hkept hnot]

/-- Two spellings of an IPv6 address are two rows. -/
theorem ipv6_spellings_differ :
    ¬ ∀ a b p q, classifyIndicator .ascii a = .ok p → classifyIndicator .ascii b = .ok q →
      SameIndicator .ascii (refang a) (refang b) → p = q := by
  intro h
  have ha : classifyIndicator .ascii "2001:DB8::1".toList = .ok ⟨.ipv6, "2001:DB8::1".toList⟩ := by
    decide +kernel
  have hb : classifyIndicator .ascii "2001:db8:0::1".toList =
      .ok ⟨.ipv6, "2001:db8:0::1".toList⟩ := by
    decide +kernel
  have haddress : ∀ text ∈ ["2001:DB8::1".toList, "2001:db8:0::1".toList],
      ipAddressOf? (bareHost (refang text)) =
        some ⟨.v6, 0x20010db8000000000000000000000001, none⟩ := by
    decide +kernel
  have heq := h _ _ _ _ ha hb (.address (haddress _ (by simp)) (haddress _ (by simp)))
  exact absurd heq (by decide)

end Indicators

end ThreatIntel
