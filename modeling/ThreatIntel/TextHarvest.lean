import ThreatIntel.Defang
import ThreatIntel.FirstAppearance
import ThreatIntel.ValueMatches

/-!
# Values found in a text

A document lists the defanged forms of indicators, one on each line, and
the extraction is to return them all. It does so exactly if the search
patterns take each value whole: an IPv6 address has to have all of its
groups, and an email address to begin with a word character and to come
back from its defanged form (`extract_finds_iff`). No other value can be
found anywhere in a document.
-/

namespace ThreatIntel

open Indicators PyStr Regex

namespace Extract

variable {U : Unicode} {p : ParsedIndicator}

/-! ## Values in their own form -/

/-- The types whose values are looked for in this way. -/
def searchedTypes : List IOCType :=
  [.ipv4, .ipv6, .md5, .sha1, .sha256, .cve, .mitreTechnique, .email]

/-- A value of one of these types that is classified as itself. -/
def Canonical (U : Unicode) (p : ParsedIndicator) : Prop :=
  p.type ∈ searchedTypes ∧ classifyIndicator U p.value = .ok p

/-- Refanging leaves the value as it is. -/
theorem Canonical.refang (h : Canonical U p) : refang p.value = p.value := by
  obtain ⟨t, v⟩ := p
  obtain ⟨htype, hclassify⟩ := h
  have hrec := (classifyIndicator_eq_ok_iff.mp hclassify).2
  have hv := refanged_refang v
  simp only at htype hrec hv ⊢
  generalize hvalue : Indicators.refang v = value at hrec hv
  cases hrec with
  | hash hhash =>
      obtain ⟨n, hn⟩ := isMatch_of_hashType hhash
      obtain ⟨hplain, hdotted⟩ := plain_of_hashRe hv hn
      exact hvalue.symm.trans (hv.refang_lower hplain hdotted)
  | cve hhash hm =>
      exact hvalue.symm.trans (hv.refang_map foldsTo_upperOne (plainFormat_cveRe.plain hv.strip hm))
  | technique hhash hcve hm => exact (upper_of_techniqueRe hv.strip hm).symm
  | url => simp [searchedTypes] at htype
  | email hid hurl hm =>
      have hdotted : 'İ' ∉ value :=
        dotted_notMem_of_again plainFormat_emailRe (hvalue.symm ▸ hm) (by rw [hvalue])
      exact hvalue.symm.trans (hv.refang_lower (plainFormat_emailRe.plain hv.strip hm) hdotted)
  | ip hid hurl hemail hip =>
      rcases ipType_cases hip with ⟨-, h4⟩ | ⟨-, h6⟩
      · exact hvalue.symm.trans (recognised_of_isIpv4 (U := U) h4).1
      · exact hvalue.symm.trans (refang_of_ipv6_again h6 (by rw [hvalue]))
  | domain => simp [searchedTypes] at htype

theorem Canonical.recognised (h : Canonical U p) : Recognised U p.value p := by
  have hrec := (classifyIndicator_eq_ok_iff.mp h.2).2
  rwa [h.refang] at hrec

theorem Canonical.strip (h : Canonical U p) : p.value.strip = p.value := by
  rw [← h.refang, strip_refang]

/-- The formats of such values. -/
theorem Canonical.format (h : Canonical U p) :
    (∃ t, hashType p.value = some t) ∨ cveRe.isMatch p.value = true ∨
      techniqueRe.isMatch p.value = true ∨ isIpv4 p.value = true ∨
      (p.type = .ipv6 ∧ isIpv6 p.value = true) ∨
      (p.type = .email ∧ emailRe.isMatch p.value = true ∧ p.value.lower = p.value) := by
  have hrec := h.recognised
  obtain ⟨t, v⟩ := p
  obtain ⟨htype, -⟩ := h
  simp only at htype hrec ⊢
  obtain ⟨value, hvalue, hrec⟩ : ∃ value, value = v ∧ Recognised U value ⟨t, v⟩ := ⟨v, rfl, hrec⟩
  cases hrec with
  | hash hhash => exact .inl ⟨t, hvalue ▸ hhash⟩
  | cve hhash hm => exact .inr (.inl (hvalue ▸ hm))
  | technique hhash hcve hm => exact .inr (.inr (.inl (hvalue ▸ hm)))
  | url => simp [searchedTypes] at htype
  | email hid hurl hm =>
      rw [← hvalue]
      exact .inr (.inr (.inr (.inr (.inr ⟨rfl, hm, hvalue.symm⟩))))
  | ip hid hurl hemail hip =>
      rcases ipType_cases hip with ⟨-, h4⟩ | ⟨ht, h6⟩
      · exact .inr (.inr (.inr (.inl h4)))
      · exact .inr (.inr (.inr (.inr (.inl ⟨ht, h6⟩))))
  | domain => simp [searchedTypes] at htype

/-! ## What can be found -/

/-- The characters an email address may begin with and no word does. -/
def emailMarks : List Char := ['.', '%', '+', '-']

/-- A search pattern takes the value whole, as its defanged form is
refanged. -/
def Searchable (p : ParsedIndicator) : Prop :=
  (p.type = .ipv6 → WrittenOut p.value) ∧
    (p.type = .email → (∀ c ∈ p.value.head?, c ∉ emailMarks) ∧ Restorable p.value)

instance (U : Unicode) (p : ParsedIndicator) : Decidable (Canonical U p) :=
  inferInstanceAs (Decidable (_ ∧ _))

instance (p : ParsedIndicator) : Decidable (Searchable p) :=
  decidable_of_iff ((p.type = .ipv6 → WrittenOut p.value) ∧
      (p.type = .email →
        p.value.head?.all (!emailMarks.contains ·) = true ∧ Restorable p.value)) <| by
    cases hhead : p.value.head? <;> simp [Searchable, hhead]

theorem isWord_of_emailMarks {c : Char} (h : c ∈ emailMarks) : isWord U c = false := by
  simp only [emailMarks, List.mem_cons, List.not_mem_nil, or_false] at h
  rcases h with rfl | rfl | rfl | rfl <;> simp [isWord]

/-- Every other character of a name is a word character. -/
theorem isWord_of_name (hU : U.Words) {c : Char} (h : (alnumOr "._%+-".toList).reads c = true)
    (hc : c ∉ emailMarks) : isWord U c = true := by
  have htable : ∀ kv ∈ caseTable, kv.2 ∉ "._%+-".toList := by decide
  have hcases : isAsciiLower (foldCase c) = true ∨ isAsciiDigit (foldCase c) = true ∨
      foldCase c ∈ "._%+-".toList := by
    simpa [alnumOr, reads, ignoreCase, or_assoc] using h
  rcases hcases with hletter | hdigit | hmark
  · exact hU.letter c hletter
  · exact hU.decimal c (isDecimal_of_ignoreCase hdigit)
  · have hself : foldCase c = c := (mapThrough_cases caseTable c).resolve_right fun hin =>
      htable _ hin hmark
    rw [hself] at hmark
    have hcode : c = '_' := by
      simp [emailMarks] at hmark hc
      tauto
    simp [hcode, isWord]

theorem head_word (hU : U.Words) {v name host tld : PyStr} (h : EmailParts v name host tld)
    (hhead : ∀ c ∈ v.head?, c ∉ emailMarks) : v.head?.any (isWord U) = true := by
  obtain ⟨rfl, hname, -, -⟩ := h
  obtain ⟨c, name, rfl⟩ := List.exists_cons_of_ne_nil (List.ne_nil_of_length_pos hname.1)
  exact isWord_of_name hU (hname.2.2 c List.mem_cons_self) (hhead c rfl)

/-- Such a value is the one candidate in itself. -/
theorem Searchable.candidates_eq (hU : U.Words) (hs : Searchable p) (h : Canonical U p) :
    candidates U patterns p.value = [p.value] := by
  rcases h.format with ⟨t, hhash⟩ | hcve | htech | h4 | ⟨htype, h6⟩ | ⟨htype, hemail, -⟩
  · exact candidates_hash hU h.strip hhash
  · exact candidates_cve hU h.strip hcve
  · exact candidates_technique hU h.strip htech
  · exact candidates_ipv4 hU h4
  · exact candidates_ipv6 hU h6 (hs.1 htype)
  · obtain ⟨name, host, tld, hparts⟩ := parts_of_emailRe h.strip hemail
    exact candidates_email hU hparts (head_word hU hparts (hs.2 htype).1)

theorem restorable_of_notMem {v : PyStr} (h : 't' ∉ v) : Restorable v := by
  have hnone : ∀ {pat : PyStr}, 't' ∈ pat → includes pat v = false := fun hpat => by
    refine Bool.eq_false_iff.mpr fun hocc => h ?_
    obtain ⟨c, hc, hsame⟩ := Rewrite.exists_of_occurs hocc hpat
    obtain rfl : 't' = c := by simpa [sameChar] using hsame
    exact hc
  exact ⟨hnone (by decide), hnone (by decide)⟩

/-- Such a value comes back from its defanged form. -/
theorem Searchable.restorable (hs : Searchable p) (h : Canonical U p) : Restorable p.value := by
  rcases h.format with ⟨t, hhash⟩ | hcve | htech | h4 | ⟨htype, h6⟩ | ⟨htype, -⟩
  · obtain ⟨n, hn⟩ := isMatch_of_hashType hhash
    exact restorable_of_notMem
      (notMem_of_isMatch (atEnd_hashRe n) h.strip hn (reads_hashRe n (by decide)))
  · exact restorable_of_notMem (notMem_of_isMatch atEnd_cveRe h.strip hcve (by decide))
  · exact restorable_of_notMem (notMem_of_isMatch atEnd_techniqueRe h.strip htech (by decide))
  · exact restorable_of_notMem fun hmem => absurd (mem_ipv4Chars h4 _ hmem) (by decide)
  · refine restorable_of_notMem fun hmem => ?_
    rcases ipv6_chars h6 (hs.1 htype) _ hmem with hcolon | hhex
    · exact absurd hcolon (by decide)
    · exact absurd hhex (by decide)
  · exact (hs.2 htype).2

/-! ## Lines -/

/-- The characters of a value that may stand in a line. -/
def LineChars (v : PyStr) : Prop := v ≠ [] ∧ ∀ c ∈ v, isSpace c = false

theorem Canonical.lineChars (h : Canonical U p) (hout : p.type = .ipv6 → WrittenOut p.value) :
    LineChars p.value := by
  have hv : Refanged p.value := by
    have hrefang := refanged_refang p.value
    rwa [h.refang] at hrefang
  refine ⟨h.recognised.ne_nil, ?_⟩
  rcases h.format with ⟨t, hhash⟩ | hcve | htech | h4 | ⟨htype, h6⟩ | ⟨htype, hemail, -⟩
  · obtain ⟨n, hn⟩ := isMatch_of_hashType hhash
    exact fun c hc => not_isSpace_of_plain ((plain_of_hashRe hv hn).1 c hc)
  · exact fun c hc => not_isSpace_of_plain (plainFormat_cveRe.plain h.strip hcve c hc)
  · exact fun c hc => not_isSpace_of_plain (plainFormat_techniqueRe.plain h.strip htech c hc)
  · have htable : ipv4Chars.all (!isSpace ·) = true := by decide
    exact fun c hc => by simpa using List.all_eq_true.mp htable c (mem_ipv4Chars h4 c hc)
  · intro c hc
    refine Bool.eq_false_iff.mpr fun hspace => ?_
    rcases ipv6_chars h6 (hout htype) c hc with rfl | hhex
    · exact absurd hspace (by decide)
    · exact Bool.false_ne_true ((eq_false_of_isSpace (p := hexDigit.reads) (by decide) hspace).symm.trans hhex)
  · exact fun c hc => not_isSpace_of_plain (plainFormat_emailRe.plain h.strip hemail c hc)

theorem not_isSpace_of_defanged {a : Part} {c : Char} (h : c ∈ a.defanged) :
    c ∈ a.text ∨ isSpace c = false := by
  have hliteral : ∀ w ∈ ["hxxp".toList, "[.]".toList, "[://]".toList, "[at]".toList],
      w.all (!isSpace ·) = true := by
    decide
  have hword : ∀ {w : PyStr}, w ∈ ["hxxp".toList, "[.]".toList, "[://]".toList, "[at]".toList] →
      c ∈ w → isSpace c = false := fun hw hc => by
    simpa using List.all_eq_true.mp (hliteral _ hw) c hc
  cases a with
  | char d => exact .inl h
  | https d =>
      rcases List.mem_append.mp h with hc | hc
      · exact .inr (hword (by simp) hc)
      · exact .inl (List.mem_append_right _ hc)
  | http => exact .inr (hword (w := "hxxp".toList) (by simp) h)
  | dot => exact .inr (hword (w := "[.]".toList) (by simp) h)
  | sep => exact .inr (hword (w := "[://]".toList) (by simp) h)
  | atSign => exact .inr (hword (w := "[at]".toList) (by simp) h)

/-- Defanging brings no white space, and leaves no line empty. -/
theorem LineChars.defang {v : PyStr} (h : LineChars v) : LineChars (defang v) := by
  obtain ⟨l, rfl, hl⟩ := exists_parts v
  obtain ⟨hne, hspace⟩ := h
  rw [LineChars, defang_parts hl]
  constructor
  · intro hnil
    have hparts := List.flatMap_eq_nil_iff.mp hnil
    exact hne (List.flatMap_eq_nil_iff.mpr fun a ha => absurd (hparts a ha) (trim_defanged a).1)
  · intro c hc
    obtain ⟨a, ha, hmem⟩ := List.mem_flatMap.mp hc
    exact (not_isSpace_of_defanged hmem).elim
      (fun htext => hspace c (List.mem_flatMap.mpr ⟨a, ha, htext⟩)) id

/-! ## What a candidate is classified as -/

section Candidate

variable {doc c : PyStr} {m : Pattern × PyStr}

theorem found_of_mem {q : Pattern} {text : PyStr}
    (hm : m ∈ (((q.re U).pieces text).filterMap Piece.text?).map (q, ·)) :
    m.1 = q ∧ .found m.2 ∈ (q.re U).pieces text := by
  obtain ⟨w, hw, rfl⟩ := List.mem_map.mp hm
  obtain ⟨piece, hpiece, htext⟩ := List.mem_filterMap.mp hw
  cases piece with
  | kept d => cases htext
  | found v =>
      obtain rfl : v = w := by simpa [Piece.text?] using htext
      exact ⟨rfl, hpiece⟩

theorem found_of_matched {ps : List Pattern} {text : PyStr} (hm : m ∈ matched U ps text) :
    m.1 ∈ ps ∧ ∃ remaining, .found m.2 ∈ (m.1.re U).pieces remaining := by
  induction ps generalizing text with
  | nil => exact absurd hm List.not_mem_nil
  | cons q ps ih =>
      rcases List.mem_append.mp hm with hm | hm
      · obtain ⟨rfl, hfound⟩ := found_of_mem hm
        exact ⟨List.mem_cons_self, text, hfound⟩
      · obtain ⟨hmem, hfound⟩ := ih hm
        exact ⟨List.mem_cons_of_mem q hmem, hfound⟩

theorem infix_of_matched {text : PyStr} (hm : m ∈ matched U patterns text) : m.2 <:+: text := by
  obtain ⟨⟨spans, hspans, -, -⟩, -, -⟩ := candidates_from_disjoint_spans U text
  have hmem : m.2 ∈ spans.map (Span.text text) := hspans ▸ List.mem_map_of_mem hm
  obtain ⟨span, -, hspan⟩ := List.mem_map.mp hmem
  rw [← hspan]
  exact ((List.take_prefix _ _).isInfix).trans (List.drop_suffix _ _).isInfix

/-- A candidate that is not a URL has been refanged with the document. -/
theorem refang_candidate (hm : m ∈ matched U patterns (refang doc)) (hc : candidateOf m = some c)
    (hp : m.1 ≠ .url) : refang c = c := by
  obtain ⟨-, remaining, hfound⟩ := found_of_matched hm
  have hstart := prefix_of_candidateOf hc
  have havoids : (m.1.re U).avoids notPlain = true := by
    revert hp
    cases m.1 <;> first | exact fun _ => rfl | exact fun h => absurd rfl h
  have hplain : ∀ x ∈ c, plain x = true := by
    intro x hx
    have hread := (found_mem_pieces hfound).2 x (hstart.subset hx)
    have hnot : x ∉ notPlain := fun hmem =>
      Bool.false_ne_true ((reads_of_avoids havoids hmem).symm.trans hread)
    simp [plain, hnot]
  have hrefanged : Refanged c := by
    refine ⟨strip_eq_self fun x hx => not_isSpace_of_plain (hplain x hx), fun tr htr hscheme => ?_⟩
    refine Bool.eq_false_iff.mpr fun hocc => ?_
    have hinside : c <:+: refang doc := hstart.isInfix.trans (infix_of_matched hm)
    have hnone := (refanged_refang doc).scheme tr htr hscheme
    exact Bool.false_ne_true (hnone.symm.trans (Rewrite.occurs_of_isInfix hinside hocc))
  exact hrefanged.refang_iff.mpr (hrefanged.not_leftover hplain)

/-- Refanging keeps the slashes. -/
theorem slash_mem_refang {text : PyStr} (h : '/' ∈ text) : '/' ∈ refang text := by
  have htable : ∀ tr ∈ refangReplacements, tr.1 ≠ [] ∧
      (tr.1.all (!tokenSim tr.1 · '/') = true ∨ '/' ∈ tr.2) := by
    decide
  have hfold : ∀ trs : List (PyStr × PyStr), trs ⊆ refangReplacements → ∀ s : PyStr, '/' ∈ s →
      '/' ∈ trs.foldl rewrite s := by
    intro trs
    induction trs with
    | nil => exact fun _ s hs => hs
    | cons tr trs ih =>
        intro htrs s hs
        obtain ⟨hne, hkeeps⟩ := htable tr (htrs List.mem_cons_self)
        refine ih (fun t ht => htrs (List.mem_cons_of_mem tr ht)) _ ?_
        rw [rewrite_eq]
        exact Rewrite.mem_replace_of_mem hne hs (hkeeps.imp_left fun hall => by simpa using hall)
  exact PyStr.mem_strip (hfold _ (List.Subset.refl _) _ (PyStr.mem_strip h (by decide))) (by decide)

/-- A URL keeps its slashes. -/
theorem slash_mem_candidate (hm : m ∈ matched U patterns (refang doc))
    (hc : candidateOf m = some c) (hp : m.1 = .url) : '/' ∈ refang c := by
  obtain ⟨-, remaining, hfound⟩ := found_of_matched hm
  obtain ⟨pattern, w⟩ := m
  obtain rfl : pattern = .url := hp
  obtain ⟨x, hx, rfl⟩ := exists_of_found (r := Pattern.url.re U) (p := (· = '/'))
    (.inr (.inr (.inl (.inr (.inl forces_lit))))) hfound
  obtain rfl : rstripChars trailing w = c := by simpa [candidateOf] using hc
  refine slash_mem_refang ?_
  rw [← List.rdropWhile_append_rtakeWhile (p := trailing.contains) (l := w)] at hx
  refine (List.mem_append.mp hx).resolve_right fun htrailing => ?_
  exact absurd (List.mem_rtakeWhile_imp htrailing) (by decide)

theorem reads_colon {pattern : Pattern} (h : (pattern.re U).reads ':' = true) :
    pattern = .url ∨ pattern = .ipv6 := by
  cases pattern with
  | url => exact .inl rfl
  | ipv6 => exact .inr rfl
  | _ => exact absurd (show false = true from h) Bool.false_ne_true

theorem reads_at {pattern : Pattern} (h : (pattern.re U).reads '@' = true) :
    pattern = .url ∨ pattern = .email := by
  cases pattern with
  | url => exact .inl rfl
  | email => exact .inr rfl
  | _ => exact absurd (show false = true from h) Bool.false_ne_true

/-- What is read as an address by the pattern has all of its groups. -/
theorem writtenOut_of_found (hU : U.Words) {w text : PyStr}
    (hw : .found w ∈ (Pattern.ipv6.re U).pieces text) :
    WrittenOut w ∧ rstripChars trailing w = w := by
  have hcolon : Finds (oneOf fun x => decide (x = ':')) (lit ':').ends := finds_cls _
  have hgroup := finds_run 1 (some 4) hexDigit.reads
  have hb : Within 1 (wordBoundary U).ends := within_assert _
  have hwithin := hb.seq (((finds_rep (finds_seq hgroup hcolon) 2 (some 7) nofun).within).seq
    (hgroup.within.seq hb))
  have hL := Within.mem_of_found (r := Pattern.ipv6.re U) hwithin hw
  rw [one_mul, mul_one] at hL
  obtain ⟨u, ⟨n, -, -, hu⟩, last, hlast, rfl⟩ := Language.mem_mul.mp hL
  obtain ⟨groups, -, hgroups, rfl⟩ := mem_groups_pow hu
  have hall : ∀ g ∈ groups ++ [last], g ∈ runOf 1 (some 4) hexDigit.reads := by
    intro g hg
    rcases List.mem_append.mp hg with hg | hg
    · exact hgroups g hg
    · exact List.mem_singleton.mp hg ▸ hlast
  have hsplit : ((groups.map (· ++ [':'])).flatten ++ last).splitOn ':' = groups ++ [last] := by
    rw [← intercalate_concat]
    refine List.splitOn_intercalate ':' (fun g hg hmem => ?_) (by simp)
    exact absurd ((hall g hg).2.2 _ hmem) (by decide)
  have hreads := (found_mem_pieces hw).2
  refine ⟨⟨?_, fun hmem => ?_, fun hmem => ?_⟩, ?_⟩
  · rw [hsplit]
    exact fun hnil => absurd (hall _ hnil).1 (by decide)
  · exact Bool.false_ne_true (hreads _ hmem)
  · exact Bool.false_ne_true (hreads _ hmem)
  · obtain ⟨d, hd, hword⟩ := exists_last (U := U) (by decide) hlast fun d hd => hU.alnum (alnum_of_hex hd)
    refine rstrip_of_last (U := U) ⟨d, ?_, hword⟩
    rw [List.getLast?_append, hd]
    rfl

/-- **An IPv6 address that is found** has all of its groups. -/
theorem writtenOut_of_candidate (hU : U.Words) (hm : m ∈ matched U patterns (refang doc))
    (hc : candidateOf m = some c) (hclassify : classifyIndicator U c = .ok p)
    (htype : p.type = .ipv6) : WrittenOut p.value := by
  obtain ⟨hvalue, h6⟩ := (classifyIndicator_eq_ok_iff.mp hclassify).2.value_of_ipv6 htype
  rw [hvalue] at h6
  have hbare := bareHost_of_isIpv6 h6
  rw [hbare] at hvalue h6
  have hurl : m.1 ≠ .url := fun hurl =>
    slash_notMem_of_isIpv6 h6 (slash_mem_candidate hm hc hurl)
  have hrefang := refang_candidate hm hc hurl
  rw [hrefang] at hvalue h6
  obtain ⟨-, remaining, hfound⟩ := found_of_matched hm
  have hcolon := (found_mem_pieces hfound).2 ':' ((prefix_of_candidateOf hc).subset
    (colon_mem_of_isIpv6 h6))
  obtain ⟨pattern, w⟩ := m
  obtain rfl : pattern = .ipv6 := (reads_colon hcolon).resolve_left hurl
  obtain ⟨hout, hself⟩ := writtenOut_of_found hU hfound
  have hwhole : some w = some c := by simpa [candidateOf, hself] using hc
  rw [hvalue, ← Option.some.inj hwhole]
  exact hout

/-- An email address is found by the pattern for them. -/
theorem email_of_candidate (hm : m ∈ matched U patterns (refang doc)) (hc : candidateOf m = some c)
    (hclassify : classifyIndicator U c = .ok p) (htype : p.type = .email) :
    m.1 = .email ∧ p.value = c.lower ∧ '@' ∈ c := by
  obtain ⟨hvalue, hemail⟩ := (classifyIndicator_eq_ok_iff.mp hclassify).2.value_of_email htype
  have hurl : m.1 ≠ .url := fun hurl =>
    notMem_of_isMatch atEnd_emailRe (strip_refang c) hemail (by decide)
      (slash_mem_candidate hm hc hurl)
  rw [refang_candidate hm hc hurl] at hvalue hemail
  obtain ⟨-, remaining, hfound⟩ := found_of_matched hm
  have hat := mem_of_emailRe hemail
  have hread := (found_mem_pieces hfound).2 '@' ((prefix_of_candidateOf hc).subset hat)
  exact ⟨(reads_at hread).resolve_left hurl, hvalue, hat⟩

end Candidate

/-! ## A document of defanged values -/

section Document

variable {ps : List ParsedIndicator} {c : PyStr} {m : Pattern × PyStr}

/-- The document: the defanged forms, one on each line. -/
def defangedLines (ps : List ParsedIndicator) : PyStr :=
  join '\n' (ps.map fun p => defang p.value)

theorem solid_defanged (hps : ∀ p ∈ ps, Canonical U p)
    (hout : ∀ p ∈ ps, p.type = .ipv6 → WrittenOut p.value) :
    Solid (ps.map fun p => defang p.value) := by
  intro l hl
  obtain ⟨p, hp, rfl⟩ := List.mem_map.mp hl
  exact ((hps p hp).lineChars (hout p hp)).defang

/-- The scan goes line by line. -/
theorem matched_line (hU : U.Words) (hps : ∀ p ∈ ps, Canonical U p)
    (hout : ∀ p ∈ ps, p.type = .ipv6 → WrittenOut p.value) :
    m ∈ matched U patterns (refang (defangedLines ps)) ↔
      ∃ p ∈ ps, m ∈ matched U patterns (refang (defang p.value)) := by
  rw [defangedLines, mem_matched_lines hU patterns (solid_defanged hps hout)]
  simp

theorem candidates_line (hU : U.Words) (hps : ∀ p ∈ ps, Canonical U p)
    (hout : ∀ p ∈ ps, p.type = .ipv6 → WrittenOut p.value) :
    c ∈ candidates U patterns (refang (defangedLines ps)) ↔
      ∃ p ∈ ps, c ∈ candidates U patterns (refang (defang p.value)) := by
  simp only [candidates_eq, List.mem_filterMap, matched_line hU hps hout]
  constructor
  · rintro ⟨m, ⟨p, hp, hm⟩, hc⟩
    exact ⟨p, hp, m, hm, hc⟩
  · rintro ⟨p, hp, m, hm, hc⟩
    exact ⟨m, ⟨p, hp, hm⟩, hc⟩

theorem mem_refang_defang {v : PyStr} {x : Char} (hv : refang v = v)
    (hx : x ∈ refang (defang v)) : x ∈ v ∨ x = 's' := by
  obtain ⟨l, rfl, hl⟩ := exists_parts v
  rw [refang_defang_parts hl hv] at hx
  obtain ⟨a, ha, hmem⟩ := List.mem_flatMap.mp hx
  cases a with
  | https d =>
      rcases List.mem_append.mp (show x ∈ "http".toList ++ ['s'] from hmem) with hmem | hmem
      · exact .inl (List.mem_flatMap.mpr ⟨_, ha, List.mem_append_left _ hmem⟩)
      · exact .inr (List.mem_singleton.mp hmem)
  | _ => exact .inl (List.mem_flatMap.mpr ⟨_, ha, hmem⟩)

theorem Canonical.email_of_at (h : Canonical U p) (hout : p.type = .ipv6 → WrittenOut p.value)
    (hat : '@' ∈ p.value) :
    p.type = .email ∧ emailRe.isMatch p.value = true ∧ p.value.lower = p.value := by
  rcases h.format with ⟨t, hhash⟩ | hcve | htech | h4 | ⟨htype, h6⟩ | hemail
  · obtain ⟨n, hn⟩ := isMatch_of_hashType hhash
    exact absurd hat (notMem_of_isMatch (atEnd_hashRe n) h.strip hn (reads_hashRe n (by decide)))
  · exact absurd hat (notMem_of_isMatch atEnd_cveRe h.strip hcve (by decide))
  · exact absurd hat (notMem_of_isMatch atEnd_techniqueRe h.strip htech (by decide))
  · exact absurd (mem_ipv4Chars h4 _ hat) (by decide)
  · rcases ipv6_chars h6 (hout htype) _ hat with hcolon | hhex
    · exact absurd hcolon (by decide)
    · exact absurd hhex (by decide)
  · exact hemail

/-- **An email address that is found** is found in the line of one, and as
it stands there. -/
theorem email_line (hU : U.Words) (hps : ∀ p ∈ ps, Canonical U p)
    (hout : ∀ p ∈ ps, p.type = .ipv6 → WrittenOut p.value)
    (hm : m ∈ matched U patterns (refang (defangedLines ps))) (hc : candidateOf m = some c)
    (hclassify : classifyIndicator U c = .ok p) (htype : p.type = .email) :
    ∃ q ∈ ps, q.type = .email ∧ m ∈ matched U patterns (refang (defang q.value)) ∧
      m.1 = .email ∧ p.value = c := by
  obtain ⟨hpattern, hvalue, hat⟩ := email_of_candidate hm hc hclassify htype
  obtain ⟨q, hq, hline⟩ := (matched_line hU hps hout).mp hm
  have hself := (hps q hq).refang
  have hchars : ∀ x ∈ c, x ∈ q.value ∨ x = 's' := fun x hx => mem_refang_defang hself
    ((infix_of_matched hline).subset ((prefix_of_candidateOf hc).subset hx))
  have hatline : '@' ∈ q.value := (hchars _ hat).resolve_right (by decide)
  obtain ⟨hqtype, -, hlower⟩ := (hps q hq).email_of_at (hout q hq) hatline
  refine ⟨q, hq, hqtype, hline, hpattern, hvalue.trans (lower_eq_self fun x hx => ?_)⟩
  rcases hchars x hx with hmem | rfl
  · exact lowerOne_of_lower hlower hmem
  · decide

theorem restorable_of_found (hU : U.Words) (hps : ∀ p ∈ ps, Canonical U p)
    (hout : ∀ p ∈ ps, p.type = .ipv6 → WrittenOut p.value)
    (hm : m ∈ matched U patterns (refang (defangedLines ps))) (hc : candidateOf m = some c)
    (hclassify : classifyIndicator U c = .ok p) (htype : p.type = .email) :
    Restorable p.value := by
  obtain ⟨q, hq, -, hline, -, hvalue⟩ := email_line hU hps hout hm hc hclassify htype
  refine (restorable_refang_defang (hps q hq).refang).of_isInfix ?_
  rw [hvalue]
  exact (prefix_of_candidateOf hc).isInfix.trans (infix_of_matched hline)

/-- Where every address comes back from its defanged form, one that is
found begins with a word character. -/
theorem head_of_found (hU : U.Words) (hps : ∀ p ∈ ps, Canonical U p)
    (hout : ∀ p ∈ ps, p.type = .ipv6 → WrittenOut p.value)
    (hback : ∀ p ∈ ps, p.type = .email → Restorable p.value)
    (hm : m ∈ matched U patterns (refang (defangedLines ps))) (hc : candidateOf m = some c)
    (hclassify : classifyIndicator U c = .ok p) (htype : p.type = .email) :
    ∀ x ∈ p.value.head?, x ∉ emailMarks := by
  obtain ⟨q, hq, hqtype, hline, hpattern, hvalue⟩ :=
    email_line hU hps hout hm hc hclassify htype
  rw [(refang_defang_iff (hps q hq).refang).mpr (hback q hq hqtype)] at hline
  obtain ⟨-, hemail⟩ := (hps q hq).recognised.value_of_email hqtype
  obtain ⟨name, host, tld, hparts⟩ := parts_of_emailRe (hps q hq).strip hemail
  have hfound : .found m.2 ∈ (Pattern.email.re U).pieces q.value := by
    have hquiet : ∀ r ∈ [Pattern.url], Quiet U q.value r := by
      simp [quiet_url hparts.slash_notMem]
    rw [show patterns = [.url] ++ .email :: patterns.drop 2 from rfl, matched_quiet hquiet] at hline
    rcases List.mem_append.mp hline with hline | hline
    · exact (found_of_mem hline).2
    · obtain ⟨hmem, -⟩ := found_of_matched hline
      rw [hpattern] at hmem
      exact absurd hmem (by decide)
  rw [hparts.eq] at hfound
  have hword := head_of_found_email hU hparts.name.2.2 hparts.host hparts.tld rfl hfound
  intro x hx hmark
  obtain ⟨rest, hrest⟩ := prefix_of_candidateOf hc
  rw [hvalue] at hx
  obtain ⟨t, rfl⟩ : ∃ t, c = x :: t := by
    cases c with
    | nil => cases hx
    | cons y t =>
        obtain rfl : y = x := by simpa using hx
        exact ⟨t, rfl⟩
  rw [← hrest] at hword
  exact Bool.false_ne_true ((isWord_of_emailMarks hmark).symm.trans hword)

/-! ## The extraction -/

/-- What is returned is a candidate. -/
theorem candidate_of_found {I : Interpreter} {text : PyStr} {limit : Nat} {found : List PyStr}
    (h : extractFromText I text limit = .ok found) {v : PyStr} (hv : v ∈ found) :
    ∃ m ∈ matched I.unicode patterns (refang text), ∃ c, candidateOf m = some c ∧
      ∃ p, classifyIndicator I.unicode c = .ok p ∧ p.value = v := by
  rw [extractFromText_eq h] at hv
  obtain ⟨p, hp, rfl⟩ := List.mem_map.mp hv
  have hmem := List.mem_of_mem_take hp
  rw [Earliest.discovered, Harvest.mem_distinct, ← hits_candidates] at hmem
  obtain ⟨c, hc, hclassify⟩ := List.mem_filterMap.mp hmem.1
  rw [candidates_eq] at hc
  obtain ⟨m, hm, hcandidate⟩ := List.mem_filterMap.mp hc
  refine ⟨m, hm, c, hcandidate, p, ?_, rfl⟩
  cases hjudged : classifyIndicator I.unicode c with
  | error e => simp [hjudged, Except.toOption] at hclassify
  | ok q =>
      obtain rfl : q = p := by simpa [hjudged, Except.toOption] using hclassify
      rfl

/-- Where the candidates are values of their own, all of them are returned,
if there are no more of them than the limit. -/
theorem extract_of_candidates {I : Interpreter} {text : PyStr} {limit : Nat}
    (hps : ∀ p ∈ ps, classifyIndicator I.unicode p.value = .ok p)
    (hcandidates : ∀ c, c ∈ candidates I.unicode patterns (refang text) ↔ ∃ p ∈ ps, p.value = c)
    (hlimit : ps.length ≤ limit) :
    ∃ found, extractFromText I text limit = .ok found ∧
      ∀ v, v ∈ found ↔ ∃ p ∈ ps, p.value = v := by
  have hclear : Harvest.Clear (classifyIndicator I.unicode) isUnknownIndicator (max limit 1) []
      (candidates I.unicode patterns (refang text)) := by
    rintro pre a post hsplit ⟨e, he, -⟩
    have hmem : a ∈ candidates I.unicode patterns (refang text) := by simp [hsplit]
    obtain ⟨p, hp, rfl⟩ := (hcandidates a).mp hmem
    exact nomatch (hps p hp).symm.trans he
  have hhits : ∀ q, q ∈ Harvest.hits (classifyIndicator I.unicode)
      (candidates I.unicode patterns (refang text)) ↔ q ∈ ps := by
    intro q
    rw [Harvest.hits, List.mem_filterMap]
    constructor
    · rintro ⟨c, hc, hq⟩
      obtain ⟨p, hp, rfl⟩ := (hcandidates c).mp hc
      rw [hps p hp] at hq
      obtain rfl : p = q := by simpa [Except.toOption] using hq
      exact hp
    · intro hq
      exact ⟨q.value, (hcandidates _).mpr ⟨q, hq, rfl⟩, by rw [hps q hq]; rfl⟩
  have hfew : (Harvest.distinct [] (Harvest.hits (classifyIndicator I.unicode)
      (candidates I.unicode patterns (refang text)))).length ≤ max limit 1 := by
    have hsub := (Earliest.nodup_distinct [] _).subperm fun q hq =>
      (hhits q).mp (Harvest.mem_distinct.mp hq).1
    have := hsub.length_le
    omega
  refine ⟨(Harvest.distinct [] (Harvest.hits (classifyIndicator I.unicode)
    (candidates I.unicode patterns (refang text)))).map ParsedIndicator.value, ?_, ?_⟩
  · rw [extractFromText, collectText_eq, harvested, Harvest.harvest_of_clear (by omega) hclear,
      List.take_of_length_le hfew]
    rfl
  · intro v
    simp [Harvest.mem_distinct, hhits]

end Document

/-- **Which values a document yields.** Of indicators whose values are
classified as themselves, no more than the limit, the extraction returns
exactly the values, from their defanged forms on a line each, if and only
if each can be searched for. -/
theorem extract_finds_iff {I : Interpreter} (hU : I.unicode.Words) (ps : List ParsedIndicator)
    (limit : Nat) (hps : ∀ p ∈ ps, Canonical I.unicode p) (hlimit : ps.length ≤ limit) :
    (∃ found, extractFromText I (join '\n' (ps.map fun p => defang p.value)) limit = .ok found ∧
      ∀ v, v ∈ found ↔ ∃ p ∈ ps, p.value = v) ↔
    ∀ p ∈ ps, Searchable p := by
  constructor
  · rintro ⟨found, hrun, hfound⟩
    have hget : ∀ p ∈ ps, ∃ m ∈ matched I.unicode patterns (refang (defangedLines ps)), ∃ c,
        candidateOf m = some c ∧ classifyIndicator I.unicode c = .ok p := by
      intro p hp
      obtain ⟨m, hm, c, hc, q, hclassify, hvalue⟩ :=
        candidate_of_found hrun ((hfound p.value).mpr ⟨p, hp, rfl⟩)
      have hrec := (classifyIndicator_eq_ok_iff.mp hclassify).2
      obtain rfl : q = p := hrec.eq_of_value (strip_refang c) (hps p hp).strip
        (hps p hp).recognised hvalue
      exact ⟨m, hm, c, hc, hclassify⟩
    have hout : ∀ p ∈ ps, p.type = .ipv6 → WrittenOut p.value := by
      intro p hp htype
      obtain ⟨m, hm, c, hc, hclassify⟩ := hget p hp
      exact writtenOut_of_candidate hU hm hc hclassify htype
    have hback : ∀ p ∈ ps, p.type = .email → Restorable p.value := by
      intro p hp htype
      obtain ⟨m, hm, c, hc, hclassify⟩ := hget p hp
      exact restorable_of_found hU hps hout hm hc hclassify htype
    intro p hp
    refine ⟨hout p hp, fun htype => ⟨?_, hback p hp htype⟩⟩
    obtain ⟨m, hm, c, hc, hclassify⟩ := hget p hp
    exact head_of_found hU hps hout hback hm hc hclassify htype
  · intro hsearch
    refine extract_of_candidates (fun p hp => (hps p hp).2) (fun c => ?_) hlimit
    have hline : ∀ p ∈ ps, candidates I.unicode patterns (refang (defang p.value)) = [p.value] := by
      intro p hp
      rw [(refang_defang_iff (hps p hp).refang).mpr ((hsearch p hp).restorable (hps p hp))]
      exact (hsearch p hp).candidates_eq hU (hps p hp)
    have hmem := @candidates_line I.unicode ps c hU hps fun p hp => (hsearch p hp).1
    rw [defangedLines] at hmem
    rw [hmem]
    refine exists_congr fun p => and_congr_right fun hp => ?_
    rw [hline p hp, List.mem_singleton, eq_comm]

/-! ## Instances -/

/-- An address, a hash and an email address. -/
def sampleValues : List ParsedIndicator :=
  [⟨.ipv6, "2001:db8:0:0:0:0:0:1".toList⟩, ⟨.md5, "d41d8cd98f00b204e9800998ecf8427e".toList⟩,
    ⟨.email, "eve@evil.org".toList⟩]

theorem extract_finds_sample :
    ∃ found, extractFromText .basic
        (join '\n' (sampleValues.map fun p => defang p.value)) 1000 = .ok found ∧
      ∀ v, v ∈ found ↔ ∃ p ∈ sampleValues, p.value = v :=
  (extract_finds_iff (I := .basic) words_basic sampleValues 1000 (by decide +kernel)
    (by decide)).mpr (by decide +kernel)

/-- The address is found without the character before its first word. -/
theorem email_mark_lost :
    ¬ ∀ (I : Interpreter) (ps : List ParsedIndicator) (limit : Nat), I.unicode.Words →
      (∀ p ∈ ps, Canonical I.unicode p) → ps.length ≤ limit →
      ∃ found, extractFromText I (join '\n' (ps.map fun p => defang p.value)) limit = .ok found ∧
        ∀ v, v ∈ found ↔ ∃ p ∈ ps, p.value = v := by
  intro h
  obtain ⟨found, hrun, hfound⟩ := h .basic [⟨.email, "+a@b.com".toList⟩] 1000 words_basic
    (by decide +kernel) (by decide)
  have hlost : extractFromText .basic (join '\n' ([⟨.email, "+a@b.com".toList⟩].map
      fun p : ParsedIndicator => defang p.value)) 1000 = .ok ["a@b.com".toList] := by
    decide +kernel
  obtain rfl := Except.ok.inj (hlost.symm.trans hrun)
  have hmem := (hfound "+a@b.com".toList).mpr ⟨_, List.mem_singleton_self _, rfl⟩
  exact absurd hmem (by decide)

end Extract

end ThreatIntel
