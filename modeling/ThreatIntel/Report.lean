import ThreatIntel.Defang
import ThreatIntel.Enrichment
import ThreatIntel.JsonRoundTrip
import ThreatIntel.PipeTable
import ThreatIntel.WhiteSpace

/-!
# The Markdown report

`ReportService.to_markdown`: a heading of six lines and a table with a row
for each indicator. The pipes of a value are escaped. Its line breaks are
not, and a URL or the scope of an IPv6 address may have them.
-/

namespace ThreatIntel

namespace ReportService

open Indicators PyStr

/-! ## The report -/

/-- The row of an indicator. -/
def markdownRow (ioc : Ioc) : PyStr :=
  let value := Escaping.escapePipes ioc.defangedValue
  "| ".toList ++ ioc.type.toList ++ " | `".toList ++ value ++ "` | ".toList ++
    Json.intText ioc.threatScore.val ++ " | ".toList ++ ioc.threatLevel.toList ++ " | ".toList ++
      ioc.source ++ " |".toList

/-- What stands above the rows. -/
def heading (count : Nat) (title : PyStr) : List PyStr :=
  ["# ".toList ++ title, [], "Total indicators: **".toList ++ Json.intText count ++ "**".toList, [],
    "| Type | Indicator | Score | Level | Source |".toList,
    "| --- | --- | --- | --- | --- |".toList]

/-- `to_markdown`. -/
def toMarkdown (iocs : List Ioc) (title : PyStr) : PyStr :=
  join '\n' (heading iocs.length title ++ iocs.map markdownRow) ++ ['\n']

/-- A record as it is stored: the value is that of a classified indicator,
the level is one of the levels, and the source has neither white space nor
pipes, which no pattern of word characters, dots and hyphens lets in. -/
structure Reportable (U : Unicode) (ioc : Ioc) : Prop where
  classified : ∃ raw parsed, classifyIndicator U raw = .ok parsed ∧ ioc.type = parsed.type.value ∧
    ioc.value = parsed.value ∧ ioc.defangedValue = defang parsed.value
  level : ∃ level : ThreatLevel, ioc.threatLevel = level.value
  sourceLength : 1 ≤ ioc.source.length ∧ ioc.source.length ≤ 64
  source : ∀ c ∈ ioc.source, isSpace c = false ∧ c ≠ '|'

/-- The report has a row of five cells in a line of its own for each of `n`
indicators. -/
def RowsKept (B : LineBreaks) (e : Escaping) (n : Nat) (report : PyStr) : Prop :=
  (B.lines report).length = 6 + n ∧ ∀ line ∈ (B.lines report).drop 6, e.IsRow 5 line

/-! ## The value -/

theorem plain_lower {s : PyStr} (h : ∀ c ∈ s, plain c = true) : ∀ c ∈ s.lower, plain c = true := by
  intro c hc
  obtain ⟨d, hd, hmem⟩ := List.mem_flatMap.mp hc
  split at hmem
  · have hboth : ['i', '\u0307'].all plain = true := by decide
    exact List.all_eq_true.mp hboth c hmem
  · obtain rfl := List.mem_singleton.mp hmem
    rw [foldsTo_lowerOne.plain d]
    exact h d hd

/-- Only URLs and IPv6 addresses have characters at will. -/
theorem plain_value {U : Unicode} {value : PyStr} {p : ParsedIndicator} (hv : Refanged value)
    (h : Recognised U value p) (htype : ¬ (p.type = .url ∨ p.type = .ipv6)) :
    ∀ c ∈ p.value, plain c = true := by
  cases h with
  | hash h =>
      obtain ⟨n, hn⟩ := isMatch_of_hashType h
      exact plain_lower ((plainFormat_hashRe n).plain hv.strip hn)
  | cve hhash h =>
      intro c hc
      obtain ⟨d, hd, rfl⟩ := List.mem_map.mp hc
      rw [foldsTo_upperOne.plain d]
      exact plainFormat_cveRe.plain hv.strip h d hd
  | technique hhash hcve h =>
      rw [upper_of_techniqueRe hv.strip h]
      exact plainFormat_techniqueRe.plain hv.strip h
  | url hid hsep hsplit h => exact absurd (.inl rfl) htype
  | email hid hurl h => exact plain_lower (plainFormat_emailRe.plain hv.strip h)
  | @ip hid hurl hemail t h =>
      rcases ipType_cases h with ⟨rfl, h4⟩ | ⟨rfl, h6⟩
      · have htable : ipv4Chars.all plain = true := by decide
        exact fun c hc => List.all_eq_true.mp htable c (mem_ipv4Chars h4 c hc)
      · exact absurd (.inr rfl) htype
  | domain hid hurl hemail hip h => exact plain_lower (plainFormat_domainRe.plain hv.strip h)

/-! ## Defanging -/

section Defang

variable {B : LineBreaks} {e : Escaping}

/-- Defanging a part puts in no white space and takes none out. -/
theorem mem_defanged {c : Char} (hc : isSpace c = true) (a : Part) :
    c ∈ a.defanged ↔ c ∈ a.text := by
  have hnot : ∀ s : PyStr, s.all (!isSpace ·) = true → c ∉ s := fun s hs hmem => by
    simpa [hc] using List.all_eq_true.mp hs c hmem
  cases a with
  | char d => exact Iff.rfl
  | https d =>
      have hold := hnot "http".toList (by decide)
      have hnew := hnot "hxxp".toList (by decide)
      simp only [Part.defanged, Part.text, List.mem_append, hold, hnew]
  | http => exact iff_of_false (hnot _ (by decide)) (hnot _ (by decide))
  | dot => exact iff_of_false (hnot _ (by decide)) (hnot _ (by decide))
  | sep => exact iff_of_false (hnot _ (by decide)) (hnot _ (by decide))
  | atSign => exact iff_of_false (hnot _ (by decide)) (hnot _ (by decide))

theorem oneLine_defang (v : PyStr) : B.OneLine (defang v) ↔ B.OneLine v := by
  obtain ⟨l, rfl, hl⟩ := exists_parts v
  have hmem : ∀ c, isSpace c = true →
      (c ∈ l.flatMap Part.defanged ↔ c ∈ l.flatMap Part.text) := by
    intro c hc
    simp only [List.mem_flatMap, mem_defanged hc]
  rw [defang_parts hl]
  constructor
  · intro h c hc
    by_contra hbreak
    have hbreak' : B.isBreak c = true := by simpa using hbreak
    exact hbreak (h c ((hmem c (B.space c hbreak')).mpr hc))
  · intro h c hc
    by_contra hbreak
    have hbreak' : B.isBreak c = true := by simpa using hbreak
    exact hbreak (h c ((hmem c (B.space c hbreak')).mp hc))

/-- No part but a character has a pipe or a backslash. -/
theorem defanged_part (kind escaped : Bool) (a : Part) :
    e.pipes kind escaped a.defanged = e.pipes kind escaped a.text ∧
      e.leaves escaped a.defanged = e.leaves escaped a.text := by
  cases a with
  | char c => exact ⟨rfl, rfl⟩
  | _ => simp [Part.defanged, Part.text, Escaping.pipes, Escaping.leaves, Escaping.after]

theorem pipes_defang (kind escaped : Bool) (v : PyStr) :
    e.pipes kind escaped (defang v) = e.pipes kind escaped v := by
  obtain ⟨l, rfl, hl⟩ := exists_parts v
  rw [defang_parts hl]
  clear hl
  induction l generalizing escaped with
  | nil => rw [List.flatMap_nil, List.flatMap_nil]
  | cons a l ih =>
      obtain ⟨hpipes, hleaves⟩ := defanged_part (e := e) kind escaped a
      simp only [List.flatMap_cons, Escaping.pipes_append, hpipes, hleaves, ih]

end Defang

/-! ## What is not the value -/

/-- A character at which no line ends. -/
def flat (c : Char) : Bool := !isSpace c || c = ' '

/-- A character at which neither a line nor a cell ends. -/
def dull (c : Char) : Bool := c ≠ '|' && flat c

section Dull

variable {U : Unicode} {B : LineBreaks} {e : Escaping} {s : PyStr}

theorem oneLine_of_flat (h : s.all flat = true) : B.OneLine s := by
  intro c hc
  have hflat : isSpace c = false ∨ c = ' ' := by
    simpa [flat] using List.all_eq_true.mp h c hc
  rcases hflat with hspace | rfl
  · exact LineBreaks.isBreak_of_not_isSpace hspace
  · exact B.blank

theorem oneLine_of_dull (h : s.all dull = true) : B.OneLine s := by
  refine oneLine_of_flat (List.all_eq_true.mpr fun c hc => ?_)
  have hdull := List.all_eq_true.mp h c hc
  rw [dull, Bool.and_eq_true] at hdull
  exact hdull.2

theorem pipes_of_dull (h : s.all dull = true) (kind escaped : Bool) : e.pipes kind escaped s = 0 := by
  have hpipe : dull '|' = false := rfl
  refine Escaping.pipes_of_notMem_pipe (fun hmem => ?_) kind escaped
  exact Bool.false_ne_true (hpipe.symm.trans (List.all_eq_true.mp h _ hmem))

theorem dull_intText (n : Int) : (Json.intText n).all dull = true := by
  have htable : ∀ i < 10, dull (Char.ofNat (48 + i)) = true := by decide
  have hdigits : ∀ m : Nat, (Nat.toDigits 10 m).all dull = true := by
    intro m
    refine List.all_eq_true.mpr fun c hc => ?_
    have hdigit := Json.isDigit_of_mem hc
    have hrange : 48 ≤ c.toNat ∧ c.toNat < 58 := by
      grind [Char.isDigit, Char.le_def, Char.toNat, UInt32.le_iff_toNat_le]
    have hone := htable (c.toNat - 48) (by omega)
    rwa [show 48 + (c.toNat - 48) = c.toNat by omega, c.ofNat_toNat] at hone
  unfold Json.intText
  split
  · rw [List.all_cons, hdigits]
    decide
  · exact hdigits _

theorem dull_type (t : IOCType) : t.value.toList.all dull = true := by cases t <;> decide

theorem dull_level (level : ThreatLevel) : level.value.toList.all dull = true := by
  cases level <;> decide

theorem dull_source {ioc : Ioc} (h : Reportable U ioc) : ioc.source.all dull = true := by
  refine List.all_eq_true.mpr fun c hc => ?_
  obtain ⟨hspace, hpipe⟩ := h.source c hc
  simp [dull, flat, hspace, hpipe]

end Dull

/-! ## Rows -/

section Rows

variable {U : Unicode} {B : LineBreaks} {e : Escaping} {ioc : Ioc}

/-- The cells that the row is to have. -/
def contents (ioc : Ioc) : List PyStr :=
  [ioc.type.toList, "`".toList ++ Escaping.escapePipes ioc.defangedValue ++ "`".toList,
    Json.intText ioc.threatScore.val, ioc.threatLevel.toList, ioc.source]

theorem rowText_eq (type value score level source : PyStr) :
    "| ".toList ++ type ++ " | `".toList ++ value ++ "` | ".toList ++ score ++ " | ".toList ++
        level ++ " | ".toList ++ source ++ " |".toList =
      Escaping.rowOf ([type, "`".toList ++ value ++ "`".toList, score, level, source].map
        Escaping.padded) := by
  have hopen : "| ".toList = ['|', ' '] := rfl
  have hvalue : " | `".toList = [' ', '|', ' '] ++ "`".toList := rfl
  have hscore : "` | ".toList = "`".toList ++ [' ', '|', ' '] := rfl
  have hnext : " | ".toList = [' ', '|', ' '] := rfl
  have hclose : " |".toList = [' ', '|'] := rfl
  simp only [Escaping.rowOf, Escaping.padded, hopen, hvalue, hscore, hnext, hclose, List.map_cons,
    List.map_nil, List.flatMap_cons, List.flatMap_nil, List.append_assoc, List.cons_append,
    List.nil_append, List.append_nil]

theorem markdownRow_eq (ioc : Ioc) :
    markdownRow ioc = Escaping.rowOf ((contents ioc).map Escaping.padded) :=
  rowText_eq _ _ _ _ _

/-- What the value of a row may not have: a line break, and to a reader who
takes backslashes in pairs a pipe behind a backslash of its own. -/
structure InCell (B : LineBreaks) (e : Escaping) (value : PyStr) : Prop where
  line : B.OneLine value
  pipes : e = .paired → e.pipes true false value = 0

theorem inCell_of_plain {value : PyStr} (h : ∀ c ∈ value, plain c = true) : InCell B e value := by
  have hbackslash : plain '\\' = false := by decide +kernel
  refine ⟨fun c hc => LineBreaks.isBreak_of_not_isSpace (not_isSpace_of_plain (h c hc)), fun _ => ?_⟩
  exact Escaping.pipes_of_notMem_backslash fun hmem =>
    Bool.false_ne_true (hbackslash.symm.trans (h _ hmem))

def quoted (value : PyStr) : PyStr := "`".toList ++ Escaping.escapePipes value ++ "`".toList

theorem oneLine_quoted (value : PyStr) : B.OneLine (quoted (defang value)) ↔ B.OneLine value := by
  have hquote : B.OneLine "`".toList := oneLine_of_dull (by decide)
  rw [quoted, LineBreaks.oneLine_append, LineBreaks.oneLine_append, and_iff_left hquote,
    and_iff_right hquote, Escaping.oneLine_escapePipes, oneLine_defang]

theorem pipes_quoted (value : PyStr) :
    e.pipes false false (quoted (defang value)) =
      if e = .adjacent then 0 else e.pipes true false value := by
  have hquote : ∀ escaped, e.pipes false escaped "`".toList = 0 := pipes_of_dull (by decide) false
  have hopen : e.leaves false "`".toList = false := rfl
  rw [quoted, Escaping.pipes_append, Escaping.pipes_append, hopen, hquote, hquote, Nat.zero_add,
    Nat.add_zero, Escaping.pipes_escapePipes, pipes_defang]

/-- What holds of dull texts holds of all the contents, if it holds of the
value's. -/
theorem forall_contents_iff (h : Reportable U ioc) {P : PyStr → Prop}
    (hdull : ∀ s, s.all dull = true → P s) :
    (∀ content ∈ contents ioc, P content) ↔ P (quoted (defang ioc.value)) := by
  have hsource := dull_source h
  obtain ⟨⟨raw, parsed, -, htype, hvalue, hdefanged⟩, ⟨level, hlevel⟩, -, -⟩ := h
  have hcontents : contents ioc = [parsed.type.value.toList, quoted (defang ioc.value),
      Json.intText ioc.threatScore.val, level.value.toList, ioc.source] := by
    rw [contents, htype, hlevel, hdefanged, hvalue, quoted]
  simp only [hcontents, List.forall_mem_cons, hdull _ (dull_type _), hdull _ (dull_intText _),
    hdull _ (dull_level _), hdull _ hsource, true_and]
  exact and_iff_left (List.forall_mem_nil _)

theorem oneLine_markdownRow (h : Reportable U ioc) :
    B.OneLine (markdownRow ioc) ↔ B.OneLine ioc.value := by
  rw [markdownRow_eq, Escaping.oneLine_padded_row,
    forall_contents_iff h fun s hs => oneLine_of_dull hs, oneLine_quoted]

theorem isRow_markdownRow (h : Reportable U ioc) :
    e.IsRow 5 (markdownRow ioc) ↔ (e = .paired → e.pipes true false ioc.value = 0) := by
  rw [markdownRow_eq, show 5 = (contents ioc).length from rfl, Escaping.isRow_padded_iff,
    forall_contents_iff h fun s hs => pipes_of_dull hs false false, pipes_quoted]
  cases e <;> simp

/-! ## The report keeps its rows -/

theorem oneLine_heading (count : Nat) {title : PyStr} (htitle : B.OneLine title) :
    ∀ line ∈ heading count title, B.OneLine line := by
  have hcount : B.OneLine (Json.intText count) := oneLine_of_dull (dull_intText _)
  have htext : ∀ s : PyStr, s.all flat = true → B.OneLine s := fun _ => oneLine_of_flat
  simp only [heading, List.forall_mem_cons, LineBreaks.oneLine_append]
  exact ⟨⟨htext _ (by decide), htitle⟩, htext _ rfl,
    ⟨⟨htext _ (by decide), hcount⟩, htext _ (by decide)⟩, htext _ rfl, htext _ (by decide),
    htext _ (by decide), List.forall_mem_nil _⟩

/-- The rows are kept if and only if the values stay in their cells. -/
theorem rowsKept_iff_inCell {title : PyStr} (htitle : B.OneLine title) {iocs : List Ioc}
    (h : ∀ ioc ∈ iocs, Reportable U ioc) :
    RowsKept B e iocs.length (toMarkdown iocs title) ↔ ∀ ioc ∈ iocs, InCell B e ioc.value := by
  have hlines : toMarkdown iocs title =
      LineBreaks.unlines (heading iocs.length title ++ iocs.map markdownRow) :=
    LineBreaks.join_append_newline (List.append_ne_nil_of_left_ne_nil (List.cons_ne_nil _ _) _)
  have hlength : (heading iocs.length title ++ iocs.map markdownRow).length = 6 + iocs.length := by
    rw [List.length_append, List.length_map]
    rfl
  rw [RowsKept, hlines, ← hlength, LineBreaks.length_lines_unlines_iff]
  constructor
  · rintro ⟨hone, hrows⟩ ioc hioc
    rw [LineBreaks.lines_unlines hone] at hrows
    have hmem := List.mem_map_of_mem (f := markdownRow) hioc
    exact ⟨(oneLine_markdownRow (h ioc hioc)).mp (hone _ (List.mem_append_right _ hmem)),
      (isRow_markdownRow (h ioc hioc)).mp (hrows _ hmem)⟩
  · intro hcell
    have hone : ∀ line ∈ heading iocs.length title ++ iocs.map markdownRow, B.OneLine line := by
      refine List.forall_mem_append.mpr ⟨oneLine_heading _ htitle, List.forall_mem_map.mpr ?_⟩
      exact fun ioc hioc => (oneLine_markdownRow (h ioc hioc)).mpr (hcell ioc hioc).line
    refine ⟨hone, ?_⟩
    rw [LineBreaks.lines_unlines hone]
    refine List.forall_mem_map.mpr fun ioc hioc => ?_
    exact (isRow_markdownRow (h ioc hioc)).mpr (hcell ioc hioc).pipes

/-- Whether a value can be out of its cell shows in the type. -/
theorem inCell_of_type (h : Reportable U ioc)
    (htype : ¬ (ioc.type = IOCType.url.value ∨ ioc.type = IOCType.ipv6.value)) :
    InCell B e ioc.value := by
  obtain ⟨raw, parsed, hparsed, hcolumn, hvalue, -⟩ := h.classified
  obtain ⟨-, hrecognised⟩ := classifyIndicator_eq_ok_iff.mp hparsed
  have hother : ¬ (parsed.type = .url ∨ parsed.type = .ipv6) := by
    rintro (heq | heq)
    · exact htype (.inl (hcolumn.trans (congrArg _ heq)))
    · exact htype (.inr (hcolumn.trans (congrArg _ heq)))
  rw [hvalue]
  exact inCell_of_plain (plain_value (refanged_refang raw) hrecognised hother)

end Rows

/-- **The report keeps one row per indicator** exactly when no URL and no
IPv6 address among the values has a line break, nor, to a reader who takes
backslashes in pairs, a pipe behind a backslash of its own. -/
theorem rows_kept_iff {U : Unicode} (B : LineBreaks) (e : Escaping) {title : PyStr}
    (htitle : B.OneLine title) {iocs : List Ioc} (h : ∀ ioc ∈ iocs, Reportable U ioc) :
    RowsKept B e iocs.length (toMarkdown iocs title) ↔
      ∀ ioc ∈ iocs, ioc.type = IOCType.url.value ∨ ioc.type = IOCType.ipv6.value →
        InCell B e ioc.value := by
  rw [rowsKept_iff_inCell htitle h]
  constructor
  · exact fun hcell ioc hioc _ => hcell ioc hioc
  · intro hcell ioc hioc
    by_cases htype : ioc.type = IOCType.url.value ∨ ioc.type = IOCType.ipv6.value
    · exact hcell ioc hioc htype
    · exact inCell_of_type (h ioc hioc) htype

/-- The line endings of Markdown. -/
def markdownBreaks : LineBreaks where
  isBreak c := c = '\n' || c = '\r'
  newline := rfl
  blank := rfl
  space c h := by
    have hcases : c = '\n' ∨ c = '\r' := by simpa using h
    rcases hcases with rfl | rfl <;> rfl

/-- A record with the value of a URL. -/
def urlRecord (value : PyStr) : Ioc where
  id := "1"
  type := "url"
  value
  defangedValue := defang value
  source := "manual".toList
  confidence := "medium"
  severity := "medium"
  threatScore := ⟨40, by decide⟩
  threatLevel := "medium"
  sightings := ⟨1, IntColumn.one_fits⟩
  tags := []
  references := []
  description := none
  firstSeen := none
  lastSeen := none

theorem reportable_urlRecord {value : PyStr}
    (h : classifyIndicator .basic value = .ok ⟨.url, value⟩) :
    Reportable .basic (urlRecord value) where
  classified := ⟨value, ⟨.url, value⟩, h, rfl, rfl, rfl⟩
  level := ⟨.medium, rfl⟩
  sourceLength := ⟨by simp [urlRecord], by simp [urlRecord]⟩
  source c hc := by
    have hname : "manual".toList.all (fun c => !isSpace c && c ≠ '|') = true := by decide
    simpa using List.all_eq_true.mp hname c hc

theorem rows_kept_iff_sample :
    RowsKept markdownBreaks .adjacent 1
        (toMarkdown [urlRecord "http://evil.example/a|b\\|c".toList] "Report".toList) ∧
      ¬ RowsKept markdownBreaks .paired 1
        (toMarkdown [urlRecord "http://evil.example/a|b\\|c".toList] "Report".toList) := by
  have htitle : markdownBreaks.OneLine "Report".toList := oneLine_of_flat (by decide)
  have hrecord : ∀ ioc ∈ [urlRecord "http://evil.example/a|b\\|c".toList], Reportable .basic ioc :=
    List.forall_mem_singleton.mpr (reportable_urlRecord (by decide +kernel))
  refine ⟨(rows_kept_iff markdownBreaks .adjacent htitle hrecord).mpr ?_,
    fun hkept => ?_⟩
  · exact List.forall_mem_singleton.mpr fun _ => ⟨oneLine_of_flat (by decide), nofun⟩
  · have hcell := (rows_kept_iff markdownBreaks .paired htitle hrecord).mp hkept
    have hpipes := (hcell _ List.mem_cons_self (.inl rfl)).pipes rfl
    exact absurd hpipes (by decide)

/-- `urlsplit` overlooks a newline in a URL, and the value keeps it. -/
theorem newline_splits_row :
    ¬ ∀ (U : Unicode) (B : LineBreaks) (e : Escaping) (title : PyStr) (iocs : List Ioc),
      U.Words → B.OneLine title → (∀ ioc ∈ iocs, Reportable U ioc) →
        RowsKept B e iocs.length (toMarkdown iocs title) := by
  intro h
  have hrecord : ∀ ioc ∈ [urlRecord "http://evil.example/a\nb".toList], Reportable .basic ioc :=
    List.forall_mem_singleton.mpr (reportable_urlRecord (by decide +kernel))
  have hkept := h .basic markdownBreaks .adjacent "Report".toList _ Extract.words_basic
    (oneLine_of_flat (by decide)) hrecord
  have hlines : (markdownBreaks.lines
      (toMarkdown [urlRecord "http://evil.example/a\nb".toList] "Report".toList)).length = 8 := by
    decide +kernel
  exact absurd (hlines.symm.trans hkept.1) (by decide)

end ReportService

end ThreatIntel
