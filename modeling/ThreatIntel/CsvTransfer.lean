import ThreatIntel.Exports
import ThreatIntel.TextHarvest

/-!
# From one platform to another

The CSV report of one deployment is a document that another can import. It
reads the defanged values from their column, a line for each, and gets back
the indicators that were exported (`csv_export_imports`): none of these
values is taken for a formula, so none has lost its first character to the
guard of the report.
-/

namespace ThreatIntel

open Indicators PyStr Regex

namespace ReportService

/-! ## No value is a formula -/

/-- Defanging puts nothing in front of a value but a bracket. -/
theorem head?_defang (v : PyStr) : ∀ c ∈ (defang v).head?, c = '[' ∨ c ∈ v.head? := by
  obtain ⟨l, rfl, hl⟩ := exists_parts v
  rw [defang_parts hl]
  cases l with
  | nil => simp
  | cons a l =>
      rw [List.flatMap_cons, List.flatMap_cons]
      cases a <;> simp [Part.defanged, Part.text]

theorem notMem_of_head? {p : Char → Bool} {v : PyStr} (htable : formulaPrefixes.all (!p ·) = true)
    (hv : ∀ c ∈ v, p c = true) : ∀ c ∈ v.head?, c ∉ formulaPrefixes := by
  intro c hc hmem
  have hno := List.all_eq_true.mp htable c hmem
  rw [hv c (List.mem_of_head? hc)] at hno
  exact absurd hno (by decide)

variable {U : Unicode} {p : ParsedIndicator}

theorem head_of_searchable (h : Extract.Canonical U p) (hs : Extract.Searchable p) :
    ∀ c ∈ p.value.head?, c ∉ formulaPrefixes := by
  rcases h.format with ⟨t, hhash⟩ | hcve | htech | h4 | ⟨htype, h6⟩ | ⟨htype, hemail, -⟩
  · obtain ⟨n, hn⟩ := isMatch_of_hashType hhash
    have hreads : ∀ c, (hashRe n).reads c = true → hexDigit.reads c = true := by
      intro c hc
      by_contra hno
      exact absurd (hc.symm.trans (reads_hashRe n (Bool.eq_false_iff.mpr hno))) (by decide)
    exact notMem_of_head? (p := hexDigit.reads) (by decide) fun c hc =>
      hreads c (reads_of_isMatch (atEnd_hashRe n) h.strip hn c hc)
  · obtain ⟨head, year, number, hvalue, hhead, -⟩ := Extract.parts_of_cveRe h.strip hcve
    obtain ⟨x, head, hc, -, rfl⟩ := List.forall₂_cons_left_iff.mp hhead
    have hx : sameFold 'c' x = true := hc
    rw [hvalue]
    have htable : formulaPrefixes.all (!sameFold 'c' ·) = true := by decide
    rintro _ ⟨⟩ hmem
    have hno := List.all_eq_true.mp htable x hmem
    rw [hx] at hno
    exact absurd hno (by decide)
  · exact notMem_of_head? (by decide) (reads_of_isMatch atEnd_techniqueRe h.strip htech)
  · have hmem : ∀ c ∈ p.value, ipv4Chars.contains c = true := fun c hc =>
      List.contains_iff_mem.mpr (mem_ipv4Chars h4 c hc)
    exact notMem_of_head? (p := ipv4Chars.contains) (by decide) hmem
  · refine notMem_of_head? (p := fun c => c = ':' || hexDigit.reads c) (by decide) fun c hc => ?_
    rcases Extract.ipv6_chars h6 (hs.1 htype) c hc with rfl | hhex
    · rfl
    · simp [hhex]
  · obtain ⟨name, host, tld, hparts⟩ := Extract.parts_of_emailRe h.strip hemail
    have hmark := (hs.2 htype).1
    obtain ⟨hvalue, hname, -, -⟩ := hparts
    obtain ⟨x, name, rfl⟩ := List.exists_cons_of_ne_nil (List.ne_nil_of_length_pos hname.1)
    rw [hvalue] at hmark ⊢
    have hx := hname.2.2 x List.mem_cons_self
    have htable : formulaPrefixes.all (fun c =>
        Extract.emailMarks.contains c || !(alnumOr "._%+-".toList).reads c) = true := by decide
    rintro _ ⟨⟩ hmem
    have hno := List.all_eq_true.mp htable x hmem
    rw [hx] at hno
    simp only [Bool.not_true, Bool.or_false] at hno
    exact hmark x rfl (List.contains_iff_mem.mp hno)

/-- What a stored indicator has of what its value was classified as. -/
structure Stored (U : Unicode) (ioc : Ioc) (p : ParsedIndicator) : Prop where
  type : ioc.type = p.type.value
  value : ioc.value = p.value
  defanged : ioc.defangedValue = defang p.value
  canonical : Extract.Canonical U p
  searchable : Extract.Searchable p

theorem Stored.isFormula {ioc : Ioc} (h : Stored U ioc p) : isFormula ioc.defangedValue = false := by
  have hhead := head?_defang p.value
  rw [h.defanged, ReportService.isFormula]
  cases hc : (defang p.value).head? with
  | none => rfl
  | some c =>
      refine Bool.eq_false_iff.mpr fun hprefix => ?_
      have hmem : c ∈ formulaPrefixes := List.contains_iff_mem.mp hprefix
      rcases hhead c hc with rfl | hv
      · exact absurd hmem (by decide)
      · exact head_of_searchable h.canonical h.searchable c hv hmem

/-! ## The document -/

theorem mem_strip_between {a b : PyStr} {x y : Char} (hx : x ∈ a) (hxs : isSpace x = false)
    (hy : y ∈ b) (hys : isSpace y = false) (c : Char) : c ∈ strip (a ++ c :: b) := by
  have hkeep : ∀ {s : PyStr} {z : Char}, z ∈ s → isSpace z = false → ∀ t,
      (s ++ t).dropWhile isSpace = s.dropWhile isSpace ++ t := by
    intro s z hz hspace t
    have hne : (s.dropWhile isSpace).isEmpty = false := by
      rw [List.isEmpty_eq_false_iff, Ne, List.dropWhile_eq_nil_iff]
      exact fun hall => Bool.false_ne_true (hspace.symm.trans (hall z hz))
    rw [List.dropWhile_append, hne]
    rfl
  rw [strip, hkeep hx hxs, List.rdropWhile, List.reverse_append, List.reverse_cons, List.append_assoc,
    hkeep (List.mem_reverse.mpr hy) hys]
  simp

variable {isoformat : Int → PyStr} {iocs : List Ioc}

def header : PyStr := "type,value,threat_score,threat_level,severity,source,tags\r".toList

theorem toCsv_eq : toCsv isoformat iocs =
    header ++ '\n' :: Csv.writerows Csv.excel (iocs.map (csvRow isoformat)) := by
  have hheader : Csv.writerow Csv.excel (columns.map String.toList) = header ++ ['\n'] := by decide
  rw [toCsv, Csv.writerows, List.flatMap_cons, hheader, List.append_assoc]
  rfl

theorem delimiter_mem_writerows (h : iocs ≠ []) :
    ',' ∈ Csv.writerows Csv.excel (iocs.map (csvRow isoformat)) := by
  obtain ⟨ioc, iocs, rfl⟩ := List.exists_cons_of_ne_nil h
  rw [List.map_cons, Csv.writerows, List.flatMap_cons, csvRow, columns, List.map_cons, List.map_cons,
    Csv.writerow, Csv.writeRest]
  simp [Csv.excel]

theorem resolveFormat_toCsv {fmt : String} (h : fmt = "csv" ∨ fmt = "auto" ∧ iocs ≠ []) :
    Extract.resolveFormat (toCsv isoformat iocs) fmt = "csv" := by
  rcases h with rfl | ⟨rfl, hne⟩
  · rfl
  · have hstart : (toCsv isoformat iocs).lstrip.head? = some 't' := by
      simp only [toCsv_eq]
      rfl
    have hwhole : header.all (· ≠ '\n') = true := by decide
    have hcomma : ',' ∈ (toCsv isoformat iocs).takeWhile (· ≠ '\n') := by
      rw [toCsv_eq, List.takeWhile_append_of_pos (List.all_eq_true.mp hwhole)]
      exact List.mem_append_left _ (by decide)
    have hline : '\n' ∈ (toCsv isoformat iocs).strip := by
      have hspace : isSpace ',' = false := by decide
      rw [toCsv_eq]
      exact mem_strip_between (List.contains_iff_mem.mp (by decide)) hspace
        (delimiter_mem_writerows hne) hspace _
    rw [Extract.resolveFormat, if_pos rfl, Extract.sniffFormat, if_neg fun hstix => absurd (hstart.symm.trans hstix.1) (by decide),
      if_pos ⟨hcomma, hline⟩]

theorem cellsOf_rows (h : ∀ ioc ∈ iocs, isFormula ioc.defangedValue = false) :
    Extract.cellsOf (columns.map String.toList :: iocs.map (csvRow isoformat)) =
      iocs.map Ioc.defangedValue := by
  have hcolumn : (columns.map String.toList).findIdx? (fun cell : PyStr =>
      Extract.columnNames.any fun name => name.toList = (cell.strip).lower) = some 1 := by decide
  simp only [Extract.cellsOf, hcolumn, List.filterMap_map]
  rw [← List.filterMap_eq_map]
  refine List.filterMap_congr fun ioc hioc => ?_
  have hcell : (csvRow isoformat ioc)[1]? = some (csvSafe (.text ioc.defangedValue)).cell := rfl
  rw [Function.comp_apply, hcell, csvSafe, if_neg (Bool.eq_false_iff.mp (h ioc hioc))]
  rfl

/-! ## Export and import -/

/-- **What one platform exports another imports.** The CSV report of
indicators whose values a text search takes whole, within the size an import
may have, is imported as exactly these values, whether the format is named or
guessed. -/
theorem csv_export_imports {I : Interpreter} (hU : I.unicode.Words) {fmt : String}
    (hfmt : fmt = "csv" ∨ fmt = "auto" ∧ iocs ≠ []) {limit : Nat} (hlimit : iocs.length ≤ limit)
    (hiocs : ∀ ioc ∈ iocs, ∃ p, Stored I.unicode ioc p)
    (hsize : (toCsv isoformat iocs).length ≤ Extract.maxContentChars)
    (hd : CsvDialect (Extract.dialectOf I (toCsv isoformat iocs)))
    (hquotes : ∀ ioc ∈ iocs, ∀ cell ∈ csvRow isoformat ioc,
      (Extract.dialectOf I (toCsv isoformat iocs)).doublequote = true ∨ '"' ∉ cell) :
    ∃ found, Extract.extractIndicators I (toCsv isoformat iocs) fmt limit = .ok found ∧
      ∀ v, v ∈ found ↔ ∃ ioc ∈ iocs, ioc.value = v := by
  have : Nonempty ParsedIndicator := ⟨⟨.ipv4, []⟩⟩
  choose! parsed hparsed using hiocs
  have hreader := reader_toCsv hd fun ioc hioc cell hcell => ⟨?_, hquotes ioc hioc cell hcell⟩
  swap
  · have hlen := Csv.length_le_writerows (w := Csv.excel)
      (List.mem_cons_of_mem (columns.map String.toList) (List.mem_map_of_mem hioc)) hcell
    exact (hlen.trans hsize).trans (by decide)
  have hcells : join '\n' (iocs.map Ioc.defangedValue) =
      Extract.defangedLines (iocs.map parsed) := by
    rw [Extract.defangedLines, List.map_map]
    exact congrArg _ (List.map_congr_left fun ioc hioc => (hparsed ioc hioc).defanged)
  have hps : ∀ p ∈ iocs.map parsed, Extract.Canonical I.unicode p ∧ Extract.Searchable p :=
    List.forall_mem_map.mpr fun ioc hioc => ⟨(hparsed ioc hioc).canonical, (hparsed ioc hioc).searchable⟩
  have hcandidates : ∀ c, c ∈ Extract.candidates I.unicode Extract.patterns
      (refang (Extract.defangedLines (iocs.map parsed))) ↔ ∃ p ∈ iocs.map parsed, p.value = c := by
    intro c
    rw [Extract.candidates_line hU (fun p hp => (hps p hp).1) fun p hp => (hps p hp).2.1]
    refine exists_congr fun p => and_congr_right fun hp => ?_
    obtain ⟨hcanonical, hsearch⟩ := hps p hp
    rw [(refang_defang_iff hcanonical.refang).mpr (hsearch.restorable hcanonical),
      hsearch.candidates_eq hU hcanonical, List.mem_singleton, eq_comm]
  have hfew : (iocs.map parsed).length ≤ limit := by rwa [List.length_map]
  obtain ⟨found, hrun, hfound⟩ :=
    Extract.extract_of_candidates (fun p hp => (hps p hp).1.2) hcandidates hfew
  refine ⟨found, ?_, fun v => ?_⟩
  · rw [Extract.extractIndicators, if_neg (by omega)]
    have hcolumn : Extract.cellsOf (columns.map String.toList :: iocs.map (csvRow isoformat)) = _ :=
      cellsOf_rows fun ioc hioc => (hparsed ioc hioc).isFormula
    simp only [resolveFormat_toCsv hfmt, Extract.extractFromCsv, hreader, bind, Except.bind, hcolumn,
      hcells, hrun]
    rfl
  · rw [hfound]
    constructor
    · rintro ⟨p, hp, rfl⟩
      obtain ⟨ioc, hioc, rfl⟩ := List.mem_map.mp hp
      exact ⟨ioc, hioc, (hparsed ioc hioc).value⟩
    · rintro ⟨ioc, hioc, rfl⟩
      exact ⟨_, List.mem_map_of_mem hioc, (hparsed ioc hioc).value.symm⟩

/-- An email address whose record holds a quote and a tag that is a formula. -/
def mailIoc : Ioc :=
  { Stix.sampleIoc .email "eve@evil.org".toList with
    defangedValue := "eve[at]evil[.]org".toList, tags := ["=cmd()".toList], source := "\"x\"".toList }

theorem stored_mailIoc : Stored Unicode.basic mailIoc ⟨.email, "eve@evil.org".toList⟩ where
  type := rfl
  value := rfl
  defanged := by decide
  canonical := by decide +kernel
  searchable := by decide +kernel

theorem csv_export_imports_mail :
    ∃ found, Extract.extractIndicators .basic (toCsv (fun _ => []) [mailIoc]) "auto" 1 = .ok found ∧
      ∀ v, v ∈ found ↔ ∃ ioc ∈ [mailIoc], ioc.value = v :=
  csv_export_imports (I := .basic) Extract.words_basic (.inr ⟨rfl, List.cons_ne_nil _ _⟩) (Nat.le_refl 1)
    (List.forall_mem_singleton.mpr ⟨_, stored_mailIoc⟩) (by decide +kernel) csvDialect_excel
    (fun _ _ _ _ => .inl rfl)

end ReportService

end ThreatIntel
