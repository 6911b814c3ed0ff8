import ThreatIntel.IndicatorSpec

/-!
# Canonical form and classification

`classify_indicator` is meant to return a value that it would return
again ("normalised, refanged canonical form"). Two things stand in the
way: a rewrite can leave a defang token behind that a second pass would
consume, in the values that are not otherwise restricted to an alphabet
(URLs, and IPv6 addresses with a scope); and the dotted capital i, which
the patterns accept as an `i`, becomes two characters in lower case, the
second of which they do not accept. `fixpoint_iff` says that there is
nothing else.
-/

namespace ThreatIntel

namespace Indicators

/-! ## Values that are classified again as themselves -/

/-- The refanged text has no defang token left, except behind the port
that is cut off an IPv4 address, and a dotted capital i only in a format
that is not put in lower case. -/
def Settled (value : PyStr) : Prop :=
  (leftover value = false ∨ ipType (bareHost value) = some .ipv4) ∧ ('İ' ∈ value → ':' ∈ value)

instance (value : PyStr) : Decidable (Settled value) := inferInstanceAs (Decidable (_ ∧ _))

section Refanged

variable {U : Unicode} {value : PyStr}

theorem Refanged.not_leftover (hv : Refanged value) (hplain : ∀ c ∈ value, plain c = true) :
    leftover value = false := by
  have h := not_leftover_map (f := id) (fun _ => rfl) hplain hv.scheme
  rwa [List.map_id] at h

theorem noUrl_of_notMem (h : ':' ∉ value) : NoUrl U value := by
  intro hsep
  obtain ⟨c, hc, hsame⟩ := Rewrite.exists_of_occurs hsep (p := ':') (by decide)
  obtain rfl : ':' = c := by simpa [PyStr.sameChar] using hsame
  exact absurd hc h

theorem capT_notMem_lower (value : PyStr) : 'T' ∉ value.lower :=
  PyStr.notMem_lower (by decide) (by decide) (by decide) value

theorem noId_lower (hid : NoId value) (hdotted : 'İ' ∉ value) : NoId value.lower := by
  refine ⟨?_, ?_, Bool.eq_false_iff.mpr fun h => capT_notMem_lower value (mem_of_techniqueRe h)⟩
  · rw [PyStr.lower_eq_map hdotted, hashType_map foldsTo_lowerOne, hid.hash]
  · rw [PyStr.lower_eq_map hdotted, Regex.isMatch_map (blind_cveRe foldsTo_lowerOne), hid.cve]

theorem Refanged.refang_lower (hv : Refanged value) (hplain : ∀ c ∈ value, plain c = true)
    (hdotted : 'İ' ∉ value) : refang value.lower = value.lower := by
  rw [PyStr.lower_eq_map hdotted]
  exact hv.refang_map foldsTo_lowerOne hplain

theorem Refanged.strip_lower (hv : Refanged value) (hplain : ∀ c ∈ value, plain c = true)
    (hdotted : 'İ' ∉ value) : value.lower.strip = value.lower := by
  rw [← hv.refang_lower hplain hdotted, strip_refang]

/-! ### The hash formats -/

theorem plain_of_hashRe (hv : Refanged value) {n : Nat} (h : (hashRe n).isMatch value = true) :
    (∀ c ∈ value, plain c = true) ∧ 'İ' ∉ value :=
  ⟨(plainFormat_hashRe n).plain hv.strip h,
    notMem_of_isMatch (atEnd_hashRe n) hv.strip h (reads_hashRe n (by decide))⟩

/-! ### A settled value is a fixpoint -/

theorem recognised_hash (hv : Refanged value) {t : IOCType} (h : hashType value = some t) :
    Recognised U (refang value.lower) ⟨t, value.lower⟩ := by
  obtain ⟨n, hn⟩ := isMatch_of_hashType h
  obtain ⟨hplain, hdotted⟩ := plain_of_hashRe hv hn
  rw [hv.refang_lower hplain hdotted]
  have hmatch : hashType value.lower = some t := by
    rw [PyStr.lower_eq_map hdotted, hashType_map foldsTo_lowerOne, h]
  have hlower := Recognised.hash (U := U) hmatch
  rwa [PyStr.lower_lower hdotted] at hlower

theorem recognised_cve (hv : Refanged value) (hhash : hashType value = none)
    (h : cveRe.isMatch value = true) : Recognised U (refang value.upper) ⟨.cve, value.upper⟩ := by
  have hplain := plainFormat_cveRe.plain hv.strip h
  rw [PyStr.upper, hv.refang_map foldsTo_upperOne hplain]
  have hnone : hashType value.upper = none := by
    rw [PyStr.upper, hashType_map foldsTo_upperOne, hhash]
  have hmatch : cveRe.isMatch value.upper = true := by
    rw [PyStr.upper, Regex.isMatch_map (blind_cveRe foldsTo_upperOne), h]
  have hupper := Recognised.cve (U := U) hnone hmatch
  rwa [PyStr.upper_upper] at hupper

/-- A technique id is in upper case already. -/
theorem upper_of_techniqueRe (hstrip : value.strip = value) (h : techniqueRe.isMatch value = true) :
    value.upper = value := by
  have htable : ∀ kv ∈ PyStr.upperTable, techniqueRe.reads kv.1 = false := by decide
  refine (List.map_congr_left fun c hc => ?_).trans (List.map_id _)
  rcases PyStr.mapThrough_cases PyStr.upperTable c with hself | hin
  · exact hself
  · exact absurd hc (notMem_of_isMatch atEnd_techniqueRe hstrip h (htable _ hin))

theorem recognised_technique (hv : Refanged value) (hhash : hashType value = none)
    (hcve : cveRe.isMatch value = false) (h : techniqueRe.isMatch value = true) :
    Recognised U (refang value.upper) ⟨.mitreTechnique, value.upper⟩ := by
  have hplain := plainFormat_techniqueRe.plain hv.strip h
  have hself : refang value = value := hv.refang_iff.mpr (hv.not_leftover hplain)
  have htech := Recognised.technique (U := U) hhash hcve h
  rw [upper_of_techniqueRe hv.strip h] at htech ⊢
  rwa [hself]

theorem recognised_email (hv : Refanged value) (hid : NoId value)
    (h : emailRe.isMatch value = true) (hset : Settled value) :
    Recognised U (refang value.lower) ⟨.email, value.lower⟩ := by
  have hplain := plainFormat_emailRe.plain hv.strip h
  have hdotted : 'İ' ∉ value := fun hmem =>
    plainFormat_emailRe.colon_notMem hv.strip h (hset.2 hmem)
  have hmatch : emailRe.isMatch value.lower = true := by
    rw [PyStr.lower_eq_map hdotted, Regex.isMatch_map (blind_emailRe foldsTo_lowerOne), h]
  have hcolon : ':' ∉ value.lower :=
    plainFormat_emailRe.colon_notMem (hv.strip_lower hplain hdotted) hmatch
  have hlower := Recognised.email (U := U) (noId_lower hid hdotted) (noUrl_of_notMem hcolon) hmatch
  rw [PyStr.lower_lower hdotted] at hlower
  rwa [hv.refang_lower hplain hdotted]

/-- Lower-casing makes no IPv4 address of a text that is none. -/
theorem isIpv4_lower (hdotted : 'İ' ∉ value) (h : isIpv4 value = false) :
    isIpv4 value.lower = false := by
  rw [PyStr.lower_eq_map hdotted]
  refine Bool.eq_false_iff.mpr fun h4 => ?_
  have hself : value.map PyStr.lowerOne = value := by
    refine (List.map_congr_left fun c hc => ?_).trans (List.map_id _)
    have hdigit := digit_or_dot_of_isIpv4 h4 (PyStr.lowerOne c) (List.mem_map_of_mem hc)
    have htable : ∀ kv ∈ PyStr.lowerTable, PyStr.isAsciiDigit kv.2 = false ∧ kv.2 ≠ '.' := by
      decide
    rcases PyStr.mapThrough_cases PyStr.lowerTable c with hself | hin
    · exact hself
    · rcases hdigit with hdigit | hdot
      · exact absurd hdigit (Bool.eq_false_iff.mp (htable _ hin).1)
      · exact absurd hdot (htable _ hin).2
  rw [hself, h] at h4
  exact Bool.false_ne_true h4

theorem recognised_domain (hv : Refanged value) (hid : NoId value)
    (hemail : emailRe.isMatch value = false) (hip : ipType (bareHost value) = none)
    (h : domainRe.isMatch value = true) (hset : Settled value) :
    Recognised U (refang value.lower) ⟨.domain, value.lower⟩ := by
  have hplain := plainFormat_domainRe.plain hv.strip h
  have hbefore : ':' ∉ value := plainFormat_domainRe.colon_notMem hv.strip h
  have hdotted : 'İ' ∉ value := fun hmem => hbefore (hset.2 hmem)
  have hmatch : domainRe.isMatch value.lower = true := by
    rw [PyStr.lower_eq_map hdotted, Regex.isMatch_map (blind_domainRe foldsTo_lowerOne), h]
  have hcolon : ':' ∉ value.lower :=
    plainFormat_domainRe.colon_notMem (hv.strip_lower hplain hdotted) hmatch
  have hnone : ipType (bareHost value.lower) = none := by
    rw [bareHost_of_notMem hbefore, ipType_eq_none_iff] at hip
    rw [bareHost_of_notMem hcolon, ipType_eq_none_iff]
    exact ⟨isIpv4_lower hdotted hip.1,
      Bool.eq_false_iff.mpr fun h6 => hcolon (colon_mem_of_isIpv6 h6)⟩
  have hlower := Recognised.domain (U := U) (noId_lower hid hdotted) (noUrl_of_notMem hcolon)
    (by rw [PyStr.lower_eq_map hdotted, Regex.isMatch_map (blind_emailRe foldsTo_lowerOne), hemail])
    hnone hmatch
  rw [PyStr.lower_lower hdotted] at hlower
  rwa [hv.refang_lower hplain hdotted]

/-- The characters of an IPv4 address. -/
def ipv4Chars : List Char := "0123456789.".toList

theorem mem_ipv4Chars (h : isIpv4 value = true) : ∀ c ∈ value, c ∈ ipv4Chars := by
  have hdigits : ∀ n < 10, Char.ofNat (48 + n) ∈ ipv4Chars := by decide
  intro c hc
  rcases digit_or_dot_of_isIpv4 h c hc with hdigit | rfl
  · have hrange : 48 ≤ c.toNat ∧ c.toNat < 58 := by
      grind [PyStr.isAsciiDigit, Char.le_def, Char.toNat, UInt32.le_iff_toNat_le]
    have hmem := hdigits (c.toNat - 48) (by omega)
    rwa [Nat.add_sub_cancel' hrange.1, c.ofNat_toNat] at hmem
  · decide

/-- An IPv4 address is recognised as itself. -/
theorem recognised_of_isIpv4 (h : isIpv4 value = true) :
    refang value = value ∧ Recognised U value ⟨.ipv4, value⟩ := by
  have hchars := mem_ipv4Chars h
  have hnot : ∀ {c : Char}, c ∉ ipv4Chars → c ∉ value := fun hc hmem => hc (hchars _ hmem)
  have hstrip : value.strip = value := by
    have htable : ipv4Chars.all (!PyStr.isSpace ·) = true := by decide
    exact PyStr.strip_eq_self fun c hc => by simpa using List.all_eq_true.mp htable c (hchars c hc)
  have hleft : leftover value = false := by
    have htable : ∀ tr ∈ refangReplacements,
        tr.1.any (fun p => ipv4Chars.all (!tokenSim tr.1 p ·)) = true := by decide
    refine leftover_eq_false_iff.mpr fun tr htr => Bool.eq_false_iff.mpr fun hocc => ?_
    obtain ⟨p, hp, hsim⟩ := List.any_eq_true.mp (htable tr htr)
    obtain ⟨c, hc, hsame⟩ := Rewrite.exists_of_occurs hocc hp
    simpa [hsame] using List.all_eq_true.mp hsim c (hchars c hc)
  have hdot := dot_mem_of_isIpv4 h
  have hid : NoId value := by
    refine ⟨hashType_eq_none hstrip hdot (by decide), Bool.eq_false_iff.mpr fun hm => ?_,
      Bool.eq_false_iff.mpr fun hm => ?_⟩
    · exact notMem_of_isMatch atEnd_cveRe hstrip hm (by decide) hdot
    · exact hnot (by decide) (mem_of_techniqueRe hm)
  have hcolon : ':' ∉ value := hnot (by decide)
  have hemail : emailRe.isMatch value = false :=
    Bool.eq_false_iff.mpr fun hm => hnot (by decide) (mem_of_emailRe hm)
  have hip := Recognised.ip (U := U) hid (noUrl_of_notMem hcolon) hemail (t := .ipv4)
    (by rw [bareHost_of_notMem hcolon, ipType_of_isIpv4 h])
  rw [bareHost_of_notMem hcolon] at hip
  exact ⟨refang_eq_self hstrip hleft, hip⟩

theorem Refanged.refang_of_settled (hv : Refanged value) (hset : Settled value)
    (h4 : isIpv4 (bareHost value) = false) : refang value = value := by
  refine hv.refang_iff.mpr (hset.1.resolve_right fun hip => ?_)
  rcases ipType_cases hip with ⟨-, h⟩ | ⟨h, -⟩
  · exact Bool.false_ne_true (h4.symm.trans h)
  · cases h

theorem recognised_again (hv : Refanged value) {p : ParsedIndicator} (h : Recognised U value p)
    (hset : Settled value) : Recognised U (refang p.value) p := by
  cases h with
  | hash h => exact recognised_hash hv h
  | cve hhash h => exact recognised_cve hv hhash h
  | technique hhash hcve h => exact recognised_technique hv hhash hcve h
  | url hid hsep hsplit h =>
      rw [hv.refang_of_settled hset (not_isIpv4_of_url hsplit h.1)]
      exact .url hid hsep hsplit h
  | email hid hurl h => exact recognised_email hv hid h hset
  | domain hid hurl hemail hip h => exact recognised_domain hv hid hemail hip h hset
  | ip hid hurl hemail h =>
      rcases ipType_cases h with ⟨rfl, h4⟩ | ⟨rfl, h6⟩
      · obtain ⟨hrefang, hrec⟩ := recognised_of_isIpv4 (U := U) h4
        rwa [hrefang]
      · have h4 : isIpv4 (bareHost value) = false :=
          Bool.eq_false_iff.mpr fun h4 => by simpa using (ipType_of_isIpv4 h4).symm.trans h
        have hip := Recognised.ip (U := U) hid hurl hemail h
        rw [bareHost_of_isIpv6 h6] at hip ⊢
        rwa [hv.refang_of_settled hset h4]

/-! ### A fixpoint is settled -/

/-- A value in a format over plain characters, without the dotted capital
i, is settled. -/
theorem Refanged.settled (hv : Refanged value) (hplain : ∀ c ∈ value, plain c = true)
    (hdotted : 'İ' ∉ value) : Settled value :=
  ⟨.inl (hv.not_leftover hplain), fun hmem => absurd hmem hdotted⟩

theorem Refanged.settled_of_isMatch (hv : Refanged value) {r : Regex Char} (hr : PlainFormat r)
    (h : r.isMatch value = true) (hdotted : 'İ' ∉ value) : Settled value :=
  hv.settled (hr.plain hv.strip h) hdotted

/-- A format that does not read the combining dot does not accept what
lower-casing makes of a dotted capital i. -/
theorem dotted_notMem_of_again {r : Regex Char} (hr : PlainFormat r) (h : r.isMatch (refang value.lower) = true)
    (hvalue : value.lower = (refang value.lower).lower) : 'İ' ∉ value := by
  intro hmem
  have hdot : '\u0307' ∈ (refang value.lower).lower := hvalue ▸ PyStr.dot_mem_lower.mpr (.inl hmem)
  rcases PyStr.dot_mem_lower.mp hdot with hdotted | hdot
  · exact PyStr.dotted_notMem_lower value (mem_of_mem_refang (by decide) hdotted)
  · exact hr.dot_notMem (strip_refang _) h hdot

/-- An IPv6 address that is recognised as itself has been refanged to
itself: a host cut off at its port has no colon, an IPv6 address has two. -/
theorem refang_of_ipv6_again (h6 : isIpv6 value = true) (h : value = bareHost (refang value)) :
    refang value = value := by
  rcases bareHost_cases (refang value) with hself | ⟨-, hcut⟩
  · exact (h.trans hself).symm
  · have hcolon := colon_mem_of_isIpv6 h6
    rw [h, hcut] at hcolon
    exact absurd hcolon (colon_notMem_takeWhile _)

theorem settled_of_again (hv : Refanged value) {p : ParsedIndicator} (h : Recognised U value p)
    (hagain : Recognised U (refang p.value) p) : Settled value := by
  cases h with
  | hash h =>
      obtain ⟨n, hn⟩ := isMatch_of_hashType h
      obtain ⟨hplain, hdotted⟩ := plain_of_hashRe hv hn
      exact hv.settled hplain hdotted
  | cve hhash h =>
      exact hv.settled_of_isMatch plainFormat_cveRe h
        (notMem_of_isMatch atEnd_cveRe hv.strip h (by decide))
  | technique hhash hcve h =>
      exact hv.settled_of_isMatch plainFormat_techniqueRe h
        (notMem_of_isMatch atEnd_techniqueRe hv.strip h (by decide))
  | url hid hsep hsplit h =>
      have hself : value = refang value := hagain.value_of_url rfl
      exact ⟨.inl (hv.refang_iff.mp hself.symm), fun _ => (exists_isAlpha_of_scheme hsplit h.1).1⟩
  | email hid hurl h =>
      obtain ⟨hvalue, hmatch⟩ := hagain.value_of_email rfl
      exact hv.settled_of_isMatch plainFormat_emailRe h
        (dotted_notMem_of_again plainFormat_emailRe hmatch hvalue)
  | domain hid hurl hemail hip h =>
      obtain ⟨hvalue, hmatch⟩ := hagain.value_of_domain rfl
      exact hv.settled_of_isMatch plainFormat_domainRe h
        (dotted_notMem_of_again plainFormat_domainRe hmatch hvalue)
  | ip hid hurl hemail h =>
      rcases ipType_cases h with ⟨rfl, h4⟩ | ⟨rfl, h6⟩
      · refine ⟨.inr h, fun hmem => ?_⟩
        rcases bareHost_cases value with hself | ⟨hcolon, -⟩
        · rw [hself] at h4
          exact absurd (mem_ipv4Chars h4 _ hmem) (by decide)
        · exact hcolon
      · have hvalue := (hagain.value_of_ipv6 rfl).1
        have hbare := bareHost_of_isIpv6 h6
        rw [hbare] at h6 hvalue
        exact ⟨.inl (hv.refang_iff.mp (refang_of_ipv6_again h6 hvalue)),
          fun _ => colon_mem_of_isIpv6 h6⟩

end Refanged

/-- **When the canonical form is a fixpoint.** Classifying the value that
was returned gives the same type and value exactly if the refanged text
is settled. -/
theorem fixpoint_iff {U : Unicode} {raw : PyStr} {p : ParsedIndicator}
    (h : classifyIndicator U raw = .ok p) :
    classifyIndicator U p.value = .ok p ↔ Settled (refang raw) := by
  have hrec := (classifyIndicator_eq_ok_iff.mp h).2
  rw [classifyIndicator_eq_ok_iff]
  refine ⟨fun hagain => settled_of_again (refanged_refang raw) hrec hagain.2, fun hset => ?_⟩
  have hagain := recognised_again (refanged_refang raw) hrec hset
  exact ⟨hagain.ne_nil, hagain⟩

/-! ## Instances -/

/-- An email address in capitals is settled: it comes back in lower case,
and the second time unchanged. -/
theorem email_fixpoint :
    ∃ p, classifyIndicator .ascii "EVE[at]A.COM".toList = .ok p ∧
      classifyIndicator .ascii p.value = .ok p := by
  have hfirst : classifyIndicator .ascii "EVE[at]A.COM".toList =
      .ok ⟨.email, "eve@a.com".toList⟩ := by decide
  have hset : Settled (refang "EVE[at]A.COM".toList) := by decide
  exact ⟨_, hfirst, (fixpoint_iff hfirst).mpr hset⟩

/-- One pass makes `[.]` of `[\.]`, and a second one a dot: the URL that is
returned is classified as another one. -/
theorem secondPass_differs :
    ¬ ∀ raw p, classifyIndicator .ascii raw = .ok p → classifyIndicator .ascii p.value = .ok p := by
  intro h
  have hfirst : classifyIndicator .ascii "http://a.com/[\\.]".toList =
      .ok ⟨.url, "http://a.com/[.]".toList⟩ := by decide
  have hsecond : classifyIndicator .ascii "http://a.com/[.]".toList =
      .ok ⟨.url, "http://a.com/.".toList⟩ := by decide
  have hagain := h _ _ hfirst
  dsimp only at hagain
  rw [hsecond] at hagain
  exact absurd hagain (by decide)

end Indicators

end ThreatIntel
