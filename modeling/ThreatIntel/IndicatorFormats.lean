import ThreatIntel.IndicatorFixpoint
import ThreatIntel.RegexLanguage

/-!
# Domains and email addresses as they stand

A value in the format of a domain or an email address has no defang
punctuation in it, so there is nothing for refanging to do, except that
the scheme tokens are replaced wherever they stand. `format_kept_iff`
says that this, and a final newline, is all that keeps such a value from
being classified as itself in lower case.
-/

namespace ThreatIntel

namespace Indicators

open Regex

/-! ## How a domain and a technique end -/

theorem findsTo_eol : FindsTo (fun c => AtEnd c.after) 1 eol.ends := by
  intro c c'
  rw [eol, findsTo_assert _ c c']
  simp [AtEnd]

/-- `[a-z]` and `\d` have no character in common. -/
theorem not_isDecimal_of_letter {c : Char} (h : PyStr.ignoreCase PyStr.isAsciiLower c = true) :
    PyStr.isDecimal c = false := by
  have htable : ∀ kv ∈ PyStr.caseTable, PyStr.isDecimal kv.1 = false := by decide
  rcases PyStr.mapThrough_cases PyStr.caseTable c with hself | hin
  · have hlower : PyStr.isAsciiLower c = true := by
      rwa [PyStr.ignoreCase, PyStr.foldCase, hself] at h
    have hrange : 97 ≤ c.toNat ∧ c.toNat < 97 + 26 := by
      grind [PyStr.isAsciiLower, Char.le_def, Char.toNat, UInt32.le_iff_toNat_le]
    have hcodes : ∀ k < 26, PyStr.zeros.any (fun z => z ≤ 97 + k && 97 + k < z + 10) = false := by
      decide
    have hcode := hcodes (c.toNat - 97) (by omega)
    rwa [Nat.add_sub_cancel' hrange.1] at hcode
  · exact htable _ hin

theorem endsIn_domainRe : EndsIn (fun c => AtEnd c.after)
    (runOf 2 (some 63) (PyStr.ignoreCase PyStr.isAsciiLower) * 1) domainRe :=
  (((((finds_run 2 (some 63) _).then findsTo_eol).endsIn.seq _).seq _).seq _).seq _

theorem endsIn_techniqueRe : EndsIn (fun c => AtEnd c.after)
    (runOf 4 (some 4) PyStr.isDecimal *
      (repeated 0 (some 1) (oneOf (fun c => c = '.') * runOf 3 (some 3) PyStr.isDecimal) * 1))
    techniqueRe :=
  ((((finds_run 4 (some 4) _).then ((finds_rep (finds_seq (finds_cls _) (finds_run 3 (some 3) _)) 0
    (some 1) (by simp)).then findsTo_eol)).endsIn).seq _).seq _

/-- The last character of a run. -/
theorem getLast?_of_run {p : Char → Bool} {lo : Nat} {hi : Option Nat} {w : PyStr}
    (h : w ∈ runOf lo hi p) (hlo : 0 < lo) : ∃ c, w.getLast? = some c ∧ p c = true := by
  have hne : w ≠ [] := by
    rintro rfl
    exact absurd h.1 (by simpa using Nat.ne_of_gt hlo)
  exact ⟨w.getLast hne, List.getLast?_eq_some_getLast hne, h.2.2 _ (List.getLast_mem hne)⟩

theorem letter_of_domainRe {text : PyStr} (h : domainRe.isMatch text = true)
    (hlast : text.getLast? ≠ some '\n') :
    ∃ c, text.getLast? = some c ∧ PyStr.ignoreCase PyStr.isAsciiLower c = true := by
  obtain ⟨v, w, hw, c, rfl, hend⟩ := endsIn_domainRe.split_of_isMatch h
  rw [mul_one] at hw
  rcases hend with hend | hend
  · obtain ⟨d, hd, hletter⟩ := getLast?_of_run hw (by decide)
    exact ⟨d, by simp [hend, hd], hletter⟩
  · simp [hend] at hlast

theorem decimal_of_techniqueRe {text : PyStr} (h : techniqueRe.isMatch text = true)
    (hlast : text.getLast? ≠ some '\n') :
    ∃ c, text.getLast? = some c ∧ PyStr.isDecimal c = true := by
  obtain ⟨v, w, hw, c, rfl, hend⟩ := endsIn_techniqueRe.split_of_isMatch h
  rw [mul_one] at hw
  obtain ⟨year, hyear, sub, ⟨n, -, hn, hsub⟩, rfl⟩ := Language.mem_mul.mp hw
  obtain ⟨d, hd, hdigit⟩ := getLast?_of_run hyear (by decide)
  rcases hend with hend | hend
  · have hcases : n = 0 ∨ n = 1 := by
      have := hn 1 rfl
      omega
    rcases hcases with rfl | rfl
    · rw [pow_zero, Language.mem_one] at hsub
      exact ⟨d, by simp [hend, hsub, hd], hdigit⟩
    · rw [pow_one] at hsub
      obtain ⟨dot, -, digits, hdigits, rfl⟩ := Language.mem_mul.mp hsub
      obtain ⟨e, he, hdigit'⟩ := getLast?_of_run hdigits (by decide)
      exact ⟨e, by simp [hend, he], hdigit'⟩
  · simp [hend] at hlast

/-! ## Values that refanging leaves alone -/

/-- No scheme token stands anywhere in the text, in any case (`hxxps` begins
with `hxxp`), and there is no newline at its end. -/
def Undisturbed (text : PyStr) : Prop :=
  tokenOccurs "hxxp".toList text = false ∧ tokenOccurs "fxp".toList text = false ∧
    text.getLast? ≠ some '\n'

instance (text : PyStr) : Decidable (Undisturbed text) :=
  inferInstanceAs (Decidable (_ ∧ _ ∧ _))

section Formats

variable {U : Unicode} {text : PyStr}

theorem Undisturbed.scheme (h : Undisturbed text) :
    ∀ tr ∈ refangReplacements, isSchemeToken tr.1 = true → tokenOccurs tr.1 text = false := by
  have htable : ∀ tr ∈ refangReplacements, isSchemeToken tr.1 = true →
      tr.1 = "hxxp".toList ++ "s".toList ∨ tr.1 = "hxxp".toList ∨ tr.1 = "fxp".toList := by
    decide
  intro tr htr hscheme
  rcases htable tr htr hscheme with htoken | htoken | htoken
  · rw [htoken]
    refine Bool.eq_false_iff.mpr fun hocc => ?_
    have hprefix : tokenOccurs "hxxp".toList text = true := Rewrite.occurs_of_prefix hocc
    exact Bool.false_ne_true (h.1.symm.trans hprefix)
  · rw [htoken]
    exact h.1
  · rw [htoken]
    exact h.2.1

theorem Undisturbed.refanged (h : Undisturbed text) {r : Regex Char} (hr : PlainFormat r)
    (hm : r.isMatch text = true) : Refanged text := by
  refine ⟨?_, h.scheme⟩
  obtain ⟨w, rest, rfl, hreads, hend | hend⟩ := split_of_isMatch hr.atEnd hm
  · rw [hend, List.append_nil]
    refine PyStr.strip_eq_self fun c hc => not_isSpace_of_plain ?_
    have hnot : c ∉ notPlain := fun hmem =>
      Bool.false_ne_true ((Regex.reads_of_avoids hr.avoids hmem).symm.trans (hreads c hc))
    simp [plain, hnot]
  · exact absurd h.2.2 (by simp [hend])

/-- A text without scheme tokens in such a format is its own refanged form. -/
theorem Undisturbed.refang_eq (h : Undisturbed text) {r : Regex Char} (hr : PlainFormat r)
    (hm : r.isMatch text = true) : refang text = text := by
  have href := h.refanged hr hm
  exact href.refang_iff.mpr (href.not_leftover (hr.plain href.strip hm))

/-- A text that refanging changes in nothing but case had no scheme token in
it, and no newline at its end. -/
theorem undisturbed_of_lower (hdotted : 'İ' ∉ text) (h : text.lower = (refang text).lower) :
    Undisturbed text := by
  have hdotted' : 'İ' ∉ refang text := fun hmem => hdotted (mem_of_mem_refang (by decide) hmem)
  rw [PyStr.lower_eq_map hdotted, PyStr.lower_eq_map hdotted'] at h
  have hgone : ∀ tr ∈ refangReplacements, isSchemeToken tr.1 = true →
      tokenSim tr.1 = PyStr.sameFold → tokenOccurs tr.1 text = false := by
    intro tr htr hscheme hsim
    have hbefore := not_schemeToken_refang htr hscheme text
    rw [tokenOccurs, hsim] at hbefore ⊢
    rw [← Rewrite.occurs_map foldsTo_lowerOne.sameFold, h,
      Rewrite.occurs_map foldsTo_lowerOne.sameFold, hbefore]
  refine ⟨hgone ("hxxp".toList, "http".toList) (by decide) (by decide) rfl,
    hgone ("fxp".toList, "ftp".toList) (by decide) (by decide) rfl, fun hlast => ?_⟩
  have hmapped : ((refang text).map PyStr.lowerOne).getLast? = some '\n' := by
    rw [← h, List.getLast?_map, hlast]
    rfl
  rw [List.getLast?_map, Option.map_eq_some_iff] at hmapped
  obtain ⟨c, hc, hnl⟩ := hmapped
  have hspace : PyStr.isSpace c = false := by
    rw [← strip_refang] at hc
    exact PyStr.not_isSpace_of_getLast?_strip hc
  have htest : PyStr.lowerOne c = '\n' ↔ c = '\n' :=
    PyStr.mapThrough_rel (R := fun c d => d = '\n' ↔ c = '\n') (fun _ => Iff.rfl) (by decide) c
  rw [htest.mp hnl] at hspace
  exact absurd hspace (by decide)

/-! ## Recognition of the formats -/

theorem newline_not_last (hstrip : text.strip = text) : text.getLast? ≠ some '\n' := fun h =>
  absurd ((PyStr.strip_eq_self_iff.mp hstrip).2 _ h) (by decide)

theorem dot_mem_of_domainRe (h : domainRe.isMatch text = true) : '.' ∈ text := by
  have hforces : domainRe.Forces (· = '.') :=
    .inr (.inr (.inr (.inl ⟨by decide, .inr fun x hx => by simpa using hx⟩)))
  obtain ⟨c, hc, rfl⟩ := Regex.exists_of_isMatch hforces h
  exact hc

/-- A text in the format of a domain is recognised as one: the formats that
are tried before do not match it. -/
theorem recognised_of_domainRe (hstrip : text.strip = text) (hm : domainRe.isMatch text = true) :
    Recognised U text ⟨.domain, text.lower⟩ := by
  have hnot : ∀ {c : Char}, domainRe.reads c = false → c ∉ text := fun hc =>
    notMem_of_isMatch atEnd_domainRe hstrip hm hc
  have hdot := dot_mem_of_domainRe hm
  obtain ⟨c, hlast, hletter⟩ := letter_of_domainRe hm (newline_not_last hstrip)
  have hid : NoId text := by
    refine ⟨hashType_eq_none hstrip hdot (by decide), Bool.eq_false_iff.mpr fun hcve => ?_,
      Bool.eq_false_iff.mpr fun htech => ?_⟩
    · exact notMem_of_isMatch atEnd_cveRe hstrip hcve (by decide) hdot
    · obtain ⟨d, hd, hdigit⟩ := decimal_of_techniqueRe htech (newline_not_last hstrip)
      obtain rfl : c = d := Option.some.inj (hlast.symm.trans hd)
      exact Bool.false_ne_true ((not_isDecimal_of_letter hletter).symm.trans hdigit)
  have hemail : emailRe.isMatch text = false :=
    Bool.eq_false_iff.mpr fun hemail => hnot (by decide) (mem_of_emailRe hemail)
  have hcolon : ':' ∉ text := hnot (by decide)
  have hip : ipType (bareHost text) = none := by
    rw [bareHost_of_notMem hcolon, ipType_eq_none_iff]
    refine ⟨Bool.eq_false_iff.mpr fun h4 => ?_, Bool.eq_false_iff.mpr fun h6 => ?_⟩
    · have hchar := mem_ipv4Chars h4 c (List.mem_of_getLast? hlast)
      have htable : ipv4Chars.all (!PyStr.ignoreCase PyStr.isAsciiLower ·) = true := by decide
      simpa [hletter] using List.all_eq_true.mp htable c hchar
    · exact hcolon (colon_mem_of_isIpv6 h6)
  exact .domain hid (noUrl_of_notMem hcolon) hemail hip hm

theorem recognised_of_emailRe (hstrip : text.strip = text) (hm : emailRe.isMatch text = true) :
    Recognised U text ⟨.email, text.lower⟩ := by
  have hat := mem_of_emailRe hm
  have hcolon : ':' ∉ text := plainFormat_emailRe.colon_notMem hstrip hm
  refine .email ⟨hashType_eq_none hstrip hat (by decide), Bool.eq_false_iff.mpr fun hcve => ?_,
    Bool.eq_false_iff.mpr fun htech => ?_⟩ (noUrl_of_notMem hcolon) hm
  · exact notMem_of_isMatch atEnd_cveRe hstrip hcve (by decide) hat
  · exact notMem_of_isMatch atEnd_techniqueRe hstrip htech (by decide) hat

end Formats

/-- **A domain or an email address is classified as itself in lower case**
exactly if there is no scheme token anywhere in it, and no newline behind it. -/
theorem format_kept_iff {U : Unicode} {text : PyStr} (hascii : ∀ c ∈ text, c.toNat < 128) :
    (domainRe.isMatch text = true →
      (classifyIndicator U text = .ok ⟨.domain, text.lower⟩ ↔ Undisturbed text)) ∧
    (emailRe.isMatch text = true →
      (classifyIndicator U text = .ok ⟨.email, text.lower⟩ ↔ Undisturbed text)) := by
  have hdotted : 'İ' ∉ text := fun hmem => absurd (hascii _ hmem) (by decide)
  refine ⟨fun hm => ⟨fun h => ?_, fun h => ?_⟩, fun hm => ⟨fun h => ?_, fun h => ?_⟩⟩
  · have hrec := (classifyIndicator_eq_ok_iff.mp h).2
    exact undisturbed_of_lower hdotted (hrec.value_of_domain rfl).1
  · have hrec := recognised_of_domainRe (U := U) (h.refanged plainFormat_domainRe hm).strip hm
    rw [classifyIndicator_eq_ok_iff, h.refang_eq plainFormat_domainRe hm]
    exact ⟨hrec.ne_nil, hrec⟩
  · have hrec := (classifyIndicator_eq_ok_iff.mp h).2
    exact undisturbed_of_lower hdotted (hrec.value_of_email rfl).1
  · have hrec := recognised_of_emailRe (U := U) (h.refanged plainFormat_emailRe hm).strip hm
    rw [classifyIndicator_eq_ok_iff, h.refang_eq plainFormat_emailRe hm]
    exact ⟨hrec.ne_nil, hrec⟩

/-- A domain and an address without such letters in them. -/
theorem format_kept_samples :
    classifyIndicator .ascii "Example.com".toList = .ok ⟨.domain, "example.com".toList⟩ ∧
      classifyIndicator .ascii "Eve@Example.com".toList = .ok ⟨.email, "eve@example.com".toList⟩ :=
  ⟨((@format_kept_iff .ascii "Example.com".toList (by simp)).1
      (by decide)).mpr (by decide),
    ((@format_kept_iff .ascii "Eve@Example.com".toList (by simp)).2
      (by decide)).mpr (by decide)⟩

/-- The letters `fxp` in the middle of a name are taken for a scheme, and
another domain is stored. -/
theorem scheme_inside_domain :
    ¬ ∀ text : PyStr, (∀ c ∈ text, c.toNat < 128) → domainRe.isMatch text = true →
      classifyIndicator .ascii text = .ok ⟨.domain, text.lower⟩ := by
  intro h
  have hkept := h "ofxpress.com".toList (by simp) (by decide)
  have hother : classifyIndicator .ascii "ofxpress.com".toList =
      .ok ⟨.domain, "oftpress.com".toList⟩ := by decide
  rw [hother] at hkept
  exact absurd hkept (by decide)

end Indicators

end ThreatIntel
