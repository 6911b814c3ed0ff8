import Mathlib.Data.List.Forall2
import ThreatIntel.CsvWriter
import ThreatIntel.StixRoundTrip

/-!
# The JSON and the CSV report

`ReportService.to_json` and `to_csv`: the same record of each indicator,
once as an object and once as a line. In the CSV a text that a spreadsheet
would take for a formula has an apostrophe in front. Both are read back as
they were written (`exports_agree`), and no cell of the CSV is a formula.
-/

namespace ThreatIntel

namespace ReportService

/-! ## The record of an indicator -/

/-- What `_row` has under a name. -/
inductive Entry where
  | text (s : PyStr)
  | number (n : Int)
  | missing
  deriving DecidableEq

/-- `str(value)` as `csv.writer` writes it, and `""` for `None`. -/
def Entry.cell : Entry → PyStr
  | text s => s
  | number n => Json.intText n
  | missing => []

def Entry.json : Entry → Json
  | text s => .str s
  | number n => .int n
  | missing => .null

/-- `value.isoformat() if value else None`. -/
def moment (isoformat : Int → PyStr) (value : Option Int) : Entry :=
  (value.map fun t => Entry.text (isoformat t)).getD .missing

/-- `_row`. -/
def row (isoformat : Int → PyStr) (ioc : Ioc) : List (String × Entry) :=
  [("type", .text ioc.type.toList), ("value", .text ioc.defangedValue),
    ("threat_score", .number ioc.threatScore), ("threat_level", .text ioc.threatLevel.toList),
    ("severity", .text ioc.severity.toList), ("source", .text ioc.source),
    ("tags", .text (PyStr.join ',' ioc.tags)), ("first_seen", moment isoformat ioc.firstSeen),
    ("last_seen", moment isoformat ioc.lastSeen)]

/-- `r[name]`. -/
def entry (isoformat : Int → PyStr) (ioc : Ioc) (name : String) : Entry :=
  ((row isoformat ioc).lookup name).getD .missing

/-! ## JSON -/

def object (isoformat : Int → PyStr) (ioc : Ioc) : List (PyStr × Json) :=
  (row isoformat ioc).map fun kv => (kv.1.toList, kv.2.json)

/-- `to_json`. -/
def toJson (isoformat : Int → PyStr) (iocs : List Ioc) : PyStr :=
  (Json.arr (iocs.map fun ioc => .obj (object isoformat ioc))).dumps

/-! ## CSV -/

/-- `_FORMULA_PREFIXES`. -/
def formulaPrefixes : List Char := ['=', '+', '-', '@', '\t', '\r']

/-- `value.startswith(_FORMULA_PREFIXES)`. -/
def isFormula (s : PyStr) : Bool := s.head?.any formulaPrefixes.contains

/-- `_csv_safe`. -/
def csvSafe : Entry → Entry
  | .text s => if isFormula s then .text (PyStr.apostrophe :: s) else .text s
  | other => other

/-- `columns`. -/
def columns : List String :=
  ["type", "value", "threat_score", "threat_level", "severity", "source", "tags"]

def csvRow (isoformat : Int → PyStr) (ioc : Ioc) : List PyStr :=
  columns.map fun name => (csvSafe (entry isoformat ioc name)).cell

/-- `to_csv`. -/
def toCsv (isoformat : Int → PyStr) (iocs : List Ioc) : PyStr :=
  Csv.writerows Csv.excel (columns.map String.toList :: iocs.map (csvRow isoformat))

/-! ## Reading the reports -/

section

variable {isoformat : Int → PyStr} {iocs : List Ioc}

theorem fits_moment (depth : Nat) (value : Option Int) :
    Json.Fits depth (moment isoformat value).json := by
  cases value <;> cases depth <;> trivial

theorem fits_row (depth : Nat) (ioc : Ioc) :
    ∀ kv ∈ row isoformat ioc, Json.Fits depth kv.2.json := by
  have htext : ∀ s, Json.Fits depth (Entry.text s).json := by
    intro s
    cases depth <;> trivial
  have hscore : Json.Fits depth (Entry.number ioc.threatScore).json := by
    cases depth <;> exact Stix.digits_intColumn ioc.threatScore
  simp only [row, List.forall_mem_cons]
  exact ⟨htext _, htext _, hscore, htext _, htext _, htext _, htext _, fits_moment _ _,
    fits_moment _ _, List.forall_mem_nil _⟩

theorem loads_toJson {maxDepth : Nat} (hdepth : 2 ≤ maxDepth) :
    Json.loads maxDepth (toJson isoformat iocs) =
      .ok (.arr (iocs.map fun ioc => .obj (object isoformat ioc))) := by
  obtain ⟨depth, rfl⟩ : ∃ depth, maxDepth = depth + 2 := ⟨maxDepth - 2, by omega⟩
  refine Json.loads_dumps ?_
  simp only [Json.Fits, object, List.forall_mem_map]
  exact fun ioc _ => fits_row depth ioc

/-- What the dialect has to share with the writer's. -/
abbrev CsvDialect (d : Csv.Dialect) : Prop := Csv.Agrees Csv.excel d

theorem csvDialect_excel : CsvDialect Csv.excel where
  delimiter := rfl
  quotechar := rfl
  plainSpace := rfl
  distinct := by decide
  delimiterLine := by decide
  quotecharLine := by decide

theorem reader_toCsv {d : Csv.Dialect} (hd : CsvDialect d)
    (hcells : ∀ ioc ∈ iocs, ∀ cell ∈ csvRow isoformat ioc, Csv.Readable Csv.excel d cell) :
    Csv.reader d (toCsv isoformat iocs) =
      .ok (columns.map String.toList :: iocs.map (csvRow isoformat)) := by
  have hheader : (columns.map String.toList).all (fun cell =>
      cell.length ≤ Csv.fieldLimit && !cell.contains Csv.excel.quotechar) = true := by decide
  refine Csv.reader_writerows hd
    (List.forall_mem_cons.mpr ⟨fun cell hcell => ?_, List.forall_mem_map.mpr hcells⟩)
  have hcell := List.all_eq_true.mp hheader cell hcell
  simp only [Bool.and_eq_true, decide_eq_true_eq, Bool.not_eq_true', List.contains_eq_mem,
    decide_eq_false_iff_not] at hcell
  exact ⟨hcell.1, .inr hcell.2⟩

/-! ## What a cell shows -/

/-- A cell and the member of the object it stands for. -/
inductive Shows : Json → PyStr → Prop where
  | plain {s : PyStr} (h : isFormula s = false) : Shows (.str s) s
  | guarded {s : PyStr} (h : isFormula s = true) : Shows (.str s) (PyStr.apostrophe :: s)
  | number (n : Int) : Shows (.int n) (Json.intText n)

theorem shows_text (s : PyStr) : Shows (Entry.text s).json (csvSafe (.text s)).cell := by
  by_cases h : isFormula s = true
  · rw [csvSafe, if_pos h]
    exact .guarded h
  · rw [csvSafe, if_neg h]
    exact .plain (Bool.not_eq_true _ ▸ h)

theorem isFormula_safe (s : PyStr) : isFormula (csvSafe (.text s)).cell = false := by
  by_cases h : isFormula s = true
  · rw [csvSafe, if_pos h]
    rfl
  · rw [csvSafe, if_neg h]
    exact Bool.not_eq_true _ ▸ h

theorem isFormula_intText {n : Int} (h : 0 ≤ n) : isFormula (Json.intText n) = false := by
  obtain ⟨d, ds, hdigits, hdigit⟩ := Json.exists_digit_cons n.natAbs
  have htable : formulaPrefixes.all (fun c => !c.isDigit) = true := by decide
  have hhead : formulaPrefixes.contains d = false := by
    refine Bool.eq_false_iff.mpr fun hmem => ?_
    have hplain := List.all_eq_true.mp htable d (List.contains_iff_mem.mp hmem)
    simp [hdigit] at hplain
  rw [Json.intText, if_neg (by omega), hdigits]
  exact hhead

/-- The columns of the CSV report are among the members, and are texts but
for the score. -/
theorem entry_of_column (isoformat : Int → PyStr) (ioc : Ioc) {name : String} (h : name ∈ columns) :
    Json.get? (object isoformat ioc) name = some (entry isoformat ioc name).json ∧
      ((∃ s, entry isoformat ioc name = .text s) ∨
        entry isoformat ioc name = .number ioc.threatScore) := by
  simp only [columns, List.mem_cons, List.not_mem_nil, or_false] at h
  rcases h with rfl | rfl | rfl | rfl | rfl | rfl | rfl
  all_goals refine ⟨by simp [Json.get?, object, entry, row, List.lookup_cons], ?_⟩
  all_goals simp [entry, row, List.lookup_cons]

theorem shows_csvRow (isoformat : Int → PyStr) (ioc : Ioc) :
    List.Forall₂ (fun name cell => ∃ v, Json.get? (object isoformat ioc) name = some v ∧ Shows v cell)
      columns (csvRow isoformat ioc) := by
  rw [csvRow, List.forall₂_map_right_iff]
  refine List.forall₂_same.mpr fun name hname => ?_
  obtain ⟨hget, ⟨s, hs⟩ | hnumber⟩ := entry_of_column isoformat ioc hname
  · rw [hs] at hget ⊢
    exact ⟨_, hget, shows_text s⟩
  · rw [hnumber] at hget ⊢
    exact ⟨_, hget, .number _⟩

/-- **The two reports agree.** The JSON report is read back as the records
it was made of. The CSV report is read back as a line for each of them, in
which every column shows the member of the same name: its text, behind an
apostrophe if it would be a formula, or its number. -/
theorem exports_agree {maxDepth : Nat} (hdepth : 2 ≤ maxDepth) {d : Csv.Dialect} (hd : CsvDialect d)
    (hcells : ∀ ioc ∈ iocs, ∀ cell ∈ csvRow isoformat ioc, Csv.Readable Csv.excel d cell) :
    Json.loads maxDepth (toJson isoformat iocs) =
        .ok (.arr (iocs.map fun ioc => .obj (object isoformat ioc))) ∧
      ∃ rows, Csv.reader d (toCsv isoformat iocs) = .ok (columns.map String.toList :: rows) ∧
        List.Forall₂ (fun ioc cells => List.Forall₂
          (fun name cell => ∃ v, Json.get? (object isoformat ioc) name = some v ∧ Shows v cell)
          columns cells) iocs rows := by
  refine ⟨loads_toJson hdepth, _, reader_toCsv hd hcells, ?_⟩
  rw [List.forall₂_map_right_iff]
  exact List.forall₂_same.mpr fun ioc _ => shows_csvRow isoformat ioc

/-- A record with a tag that is a formula, and with a quote in its source. -/
def taggedIoc : Ioc :=
  { Stix.sampleIoc .domain "evil.com".toList with
    tags := ["=cmd()".toList], source := "a \"b\", c".toList }

theorem readable_taggedIoc (isoformat : Int → PyStr) :
    ∀ ioc ∈ [taggedIoc], ∀ cell ∈ csvRow isoformat ioc, Csv.Readable Csv.excel Csv.excel cell := by
  have hlengths : (csvRow isoformat taggedIoc).all (·.length ≤ 20) = true := rfl
  refine List.forall_mem_singleton.mpr fun cell hcell => ⟨?_, .inl rfl⟩
  have hlen := of_decide_eq_true (List.all_eq_true.mp hlengths cell hcell)
  exact hlen.trans (by decide)

theorem exports_agree_tagged :
    Json.loads 2 (toJson (fun _ => []) [taggedIoc]) =
        .ok (.arr [.obj (object (fun _ => []) taggedIoc)]) ∧
      ∃ rows, Csv.reader Csv.excel (toCsv (fun _ => []) [taggedIoc]) =
          .ok (columns.map String.toList :: rows) ∧
        List.Forall₂ (fun ioc cells => List.Forall₂
          (fun name cell => ∃ v, Json.get? (object (fun _ => []) ioc) name = some v ∧ Shows v cell)
          columns cells) [taggedIoc] rows :=
  exports_agree (Nat.le_refl 2) csvDialect_excel (readable_taggedIoc _)

/-- **No cell is a formula**, whoever reads the CSV report and whatever the
texts of the records begin with. -/
theorem csv_harmless {d : Csv.Dialect} (hd : CsvDialect d)
    (hcells : ∀ ioc ∈ iocs, ∀ cell ∈ csvRow isoformat ioc, Csv.Readable Csv.excel d cell)
    (hscore : ∀ ioc ∈ iocs, 0 ≤ ioc.threatScore.val) :
    ∃ rows, Csv.reader d (toCsv isoformat iocs) = .ok rows ∧
      ∀ cells ∈ rows, ∀ cell ∈ cells, isFormula cell = false := by
  refine ⟨_, reader_toCsv hd hcells, List.forall_mem_cons.mpr ⟨?_, List.forall_mem_map.mpr ?_⟩⟩
  · have hheader : (columns.map String.toList).all (fun cell => !isFormula cell) = true := by decide
    exact fun cell hcell => by simpa using List.all_eq_true.mp hheader cell hcell
  · intro ioc hioc
    refine List.forall_mem_map.mpr fun name hname => ?_
    obtain ⟨-, ⟨s, hs⟩ | hnumber⟩ := entry_of_column isoformat ioc hname
    · rw [hs]
      exact isFormula_safe s
    · rw [hnumber]
      exact isFormula_intText (hscore ioc hioc)

theorem csv_harmless_tagged :
    ∃ rows, Csv.reader Csv.excel (toCsv (fun _ => []) [taggedIoc]) = .ok rows ∧
      ∀ cells ∈ rows, ∀ cell ∈ cells, isFormula cell = false :=
  csv_harmless csvDialect_excel (readable_taggedIoc _)
    (List.forall_mem_singleton.mpr (by decide))

end

end ReportService

end ThreatIntel
