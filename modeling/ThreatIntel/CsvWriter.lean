import ThreatIntel.Csv

/-!
# CSV writing

`csv.writer` as the reports use it: minimal quoting, quotes doubled, lines
ended by CR LF. What it writes is read back by `csv.reader` (`Csv.reader`),
field by field: the two state machines meet at the end of every field,
where nothing of the field is left but its text.
-/

namespace ThreatIntel

namespace Csv

/-! ## The writer -/

def Dialect.isSpecial (d : Dialect) (c : Char) : Bool :=
  c = d.delimiter || c = d.quotechar || isNewline c

def doubled (d : Dialect) (field : PyStr) : PyStr :=
  field.flatMap fun c => if c = d.quotechar then [c, c] else [c]

def quoted (d : Dialect) (field : PyStr) : PyStr := d.quotechar :: (doubled d field ++ [d.quotechar])

/-- A field is quoted if a character of it calls for that, and if it is
empty and the only one of its row. -/
def writeField (d : Dialect) (only : Bool) (field : PyStr) : PyStr :=
  if field.any d.isSpecial || (only && field.isEmpty) then quoted d field else field

/-- The fields behind the first. -/
def writeRest (d : Dialect) : List PyStr → PyStr
  | [] => ['\r', '\n']
  | field :: fields => d.delimiter :: (writeField d false field ++ writeRest d fields)

/-- `writerow`. -/
def writerow (d : Dialect) : List PyStr → PyStr
  | [] => ['\r', '\n']
  | field :: fields => writeField d fields.isEmpty field ++ writeRest d fields

def writerows (d : Dialect) (rows : List (List PyStr)) : PyStr := rows.flatMap (writerow d)

/-! ## Events of the parts of a text -/

/-- The events of a text that goes on. -/
def marks (s : PyStr) : List (Option Char) :=
  s.flatMap fun c => if c = '\n' then [some c, none] else [some c]

@[simp] theorem marks_nil : marks [] = [] := rfl

theorem marks_cons (c : Char) (s : PyStr) :
    marks (c :: s) = (if c = '\n' then [some c, none] else [some c]) ++ marks s := rfl

theorem marks_append (s t : PyStr) : marks (s ++ t) = marks s ++ marks t := List.flatMap_append

/-- A text that ends with a newline has no other events than its parts. -/
theorem events_eq_marks {s : PyStr} (h : ∀ c ∈ s.getLast?, c = '\n') : events s = marks s := by
  induction s with
  | nil => rfl
  | cons c s ih =>
      rw [events, marks_cons]
      cases s with
      | nil =>
          obtain rfl := h c rfl
          rfl
      | cons x s =>
          rw [List.getLast?_cons_cons] at h
          rw [ih h]
          by_cases hc : c = '\n' <;> simp [hc]

/-! ## One event -/

section Reading

variable {d : Dialect}

theorem readRows_some {r r' : Reader} {c : Char} (h : step d r (some c) = .ok r')
    (es : List (Option Char)) : readRows d r (some c :: es) = readRows d r' es := by
  rw [readRows, h]
  rfl

/-- A line that ends inside quotes. -/
theorem readRows_none {r r' : Reader} (h : step d r none = .ok r') (hstate : r'.state ≠ .startRecord)
    (es : List (Option Char)) : readRows d r (none :: es) = readRows d r' es := by
  rw [readRows, h]
  simp only [bind, Except.bind, if_neg hstate]

/-- The end of a row. -/
theorem readRows_crlf {r : Reader} {fields : List PyStr}
    (h : step d r (some '\r') = .ok ⟨.eatCrnl, [], fields⟩) {es : List (Option Char)}
    {rows : List (List PyStr)} (hrest : readRows d .fresh es = .ok rows) :
    readRows d r (marks ['\r', '\n'] ++ es) = .ok (fields :: rows) := by
  have hcr : readRows d r (marks ['\r', '\n'] ++ es) =
      readRows d ⟨.eatCrnl, [], fields⟩ (some '\n' :: none :: es) := readRows_some h _
  have hlf : step d ⟨.eatCrnl, [], fields⟩ (some '\n') = .ok ⟨.eatCrnl, [], fields⟩ := rfl
  rw [hcr, readRows_some hlf, readRows]
  simp only [step, bind, Except.bind, pure, Except.pure, if_true, hrest]

theorem addChar_ok {r : Reader} (h : r.field.length < fieldLimit) (c : Char) (s : State) :
    r.addChar c s = .ok ⟨s, r.field ++ [c], r.fields⟩ := by
  rw [Reader.addChar, if_neg (by omega)]
  rfl

/-! ## One field

The reader needs the delimiter and the quote of the writer. It may take a
doubled quote for the end of the field and a character, if there is none to
double. -/

/-- What the reader is told: what separates fields and what quotes them. -/
structure Agrees (w d : Dialect) : Prop where
  delimiter : d.delimiter = w.delimiter
  quotechar : d.quotechar = w.quotechar
  plainSpace : d.skipinitialspace = false
  distinct : w.delimiter ≠ w.quotechar
  delimiterLine : isNewline w.delimiter = false
  quotecharLine : isNewline w.quotechar = false

/-- A field that the reader takes for what it is. -/
structure Readable (w d : Dialect) (field : PyStr) : Prop where
  length : field.length ≤ fieldLimit
  quotes : d.doublequote = true ∨ w.quotechar ∉ field

variable {w : Dialect} {fields : List PyStr} {es : List (Option Char)}

/-- The text between the quotes. -/
theorem readRows_doubled (ha : Agrees w d) (seen : PyStr) {s : PyStr} (hlen : seen.length + s.length ≤ fieldLimit)
    (hquotes : d.doublequote = true ∨ w.quotechar ∉ s) :
    readRows d ⟨.inQuotedField, seen, fields⟩ (marks (doubled w s) ++ es) =
      readRows d ⟨.inQuotedField, seen ++ s, fields⟩ es := by
  induction s generalizing seen with
  | nil => simp [doubled]
  | cons c s ih =>
      have hroom : seen.length < fieldLimit := by
        rw [List.length_cons] at hlen
        omega
      have hnext := ih (seen ++ [c])
        (by rw [List.length_append, List.length_singleton]; rw [List.length_cons] at hlen; omega)
        (hquotes.imp_right fun h hmem => h (List.mem_cons_of_mem c hmem))
      rw [List.append_assoc, List.singleton_append] at hnext
      by_cases hc : c = w.quotechar
      · -- the quote is doubled, and the reader takes two for one
        have hdouble : d.doublequote = true := by
          refine hquotes.resolve_right fun h => h ?_
          rw [hc]
          exact List.mem_cons_self
        have hline : c ≠ '\n' := by
          rintro rfl
          exact Bool.false_ne_true (ha.quotecharLine.symm.trans (hc ▸ rfl))
        have hsplit : marks (doubled w (c :: s)) ++ es =
            some c :: some c :: (marks (doubled w s) ++ es) := by
          simp [doubled, marks, hc, hc ▸ hline]
        have hquote : c = d.quotechar := hc.trans ha.quotechar.symm
        have hfirst : step d ⟨.inQuotedField, seen, fields⟩ (some c) =
            .ok ⟨.quoteInQuotedField, seen, fields⟩ := by
          simp only [step, if_pos hquote, hdouble, if_true]
          rfl
        have hsecond : step d ⟨.quoteInQuotedField, seen, fields⟩ (some c) =
            .ok ⟨.inQuotedField, seen ++ [c], fields⟩ := by
          simp only [step, if_pos hquote]
          exact addChar_ok hroom c _
        rw [hsplit, readRows_some hfirst, readRows_some hsecond, hnext]
      · have hquote : ¬ c = d.quotechar := fun h => hc (h.trans ha.quotechar)
        have hstep : step d ⟨.inQuotedField, seen, fields⟩ (some c) =
            .ok ⟨.inQuotedField, seen ++ [c], fields⟩ := by
          simp only [step, if_neg hquote]
          exact addChar_ok hroom c _
        have hsplit : marks (doubled w (c :: s)) ++ es =
            (if c = '\n' then [some c, none] else [some c]) ++ (marks (doubled w s) ++ es) := by
          simp [doubled, marks, hc]
        rw [hsplit]
        split
        · have hend : step d ⟨.inQuotedField, seen ++ [c], fields⟩ none =
              .ok ⟨.inQuotedField, seen ++ [c], fields⟩ := rfl
          have hinside : State.inQuotedField ≠ State.startRecord := by decide
          rw [List.cons_append, List.singleton_append, readRows_some hstep,
            readRows_none hend hinside, hnext]
        · rw [List.singleton_append, readRows_some hstep, hnext]

/-- A reader that has nothing left to read of a field: the next field and
the end of the line are both seen. -/
structure FieldRead (w d : Dialect) (r : Reader) (fields : List PyStr) : Prop where
  next : step d r (some w.delimiter) = .ok ⟨.startField, [], fields⟩
  last : step d r (some '\r') = .ok ⟨.eatCrnl, [], fields⟩

theorem fieldRead_inField (ha : Agrees w d) (field : PyStr) (fields : List PyStr) :
    FieldRead w d ⟨.inField, field, fields⟩ (fields ++ [field]) where
  next := by
    simp only [step, ha.delimiterLine, ha.delimiter]
    rfl
  last := rfl

/-- Behind the closing quote. -/
theorem fieldRead_closed (ha : Agrees w d) (field : PyStr) (fields : List PyStr) :
    FieldRead w d ⟨if d.doublequote then .quoteInQuotedField else .inField, field, fields⟩
      (fields ++ [field]) := by
  split
  · have hquote : ¬ w.delimiter = d.quotechar := fun h => ha.distinct (h.trans ha.quotechar)
    have hcr : ¬ '\r' = d.quotechar := fun h =>
      Bool.false_ne_true (ha.quotecharLine.symm.trans (by rw [← ha.quotechar, ← h]; rfl))
    have hcr' : ¬ '\r' = d.delimiter := fun h =>
      Bool.false_ne_true (ha.delimiterLine.symm.trans (by rw [← ha.delimiter, ← h]; rfl))
    constructor
    · simp only [step, if_neg hquote, ha.delimiter, if_true]
      rfl
    · simp only [step, if_neg hcr, if_neg hcr']
      rfl
  · exact fieldRead_inField ha field fields

/-- The states in which a field begins. -/
def State.begins : State → Prop
  | .startRecord | .startField => True
  | _ => False

theorem step_begin {state : State} (hstate : state.begins) {c : Char} (hc : isNewline c = false)
    (fields : List PyStr) :
    step d ⟨state, [], fields⟩ (some c) = stepField d ⟨state, [], fields⟩ (some c) := by
  cases state with
  | startRecord => simp only [step, hc, Bool.false_eq_true, if_false]
  | startField => rfl
  | _ => exact hstate.elim

theorem readRows_quoted (ha : Agrees w d) {state : State} (hstate : state.begins) {field : PyStr}
    (hfield : Readable w d field) :
    readRows d ⟨state, [], fields⟩ (marks (quoted w field) ++ es) =
      readRows d ⟨if d.doublequote then .quoteInQuotedField else .inField, field, fields⟩ es := by
  have hline : w.quotechar ≠ '\n' := by
    intro h
    exact Bool.false_ne_true (ha.quotecharLine.symm.trans (h ▸ rfl))
  have hmark : ∀ s, marks (w.quotechar :: s) = some w.quotechar :: marks s := by
    intro s
    rw [marks_cons, if_neg hline, List.singleton_append]
  have hopen : step d ⟨state, [], fields⟩ (some w.quotechar) = .ok ⟨.inQuotedField, [], fields⟩ := by
    rw [step_begin hstate ha.quotecharLine]
    simp only [stepField, ha.quotecharLine, ha.quotechar, Bool.false_eq_true, if_false, if_true]
    rfl
  have hclose : step d ⟨.inQuotedField, field, fields⟩ (some w.quotechar) =
      .ok ⟨if d.doublequote then .quoteInQuotedField else .inField, field, fields⟩ := by
    simp only [step, ha.quotechar, if_true]
    rfl
  rw [quoted, hmark, marks_append, hmark, marks_nil, List.cons_append, readRows_some hopen,
    List.append_assoc, readRows_doubled ha [] (by simpa using hfield.length) hfield.quotes,
    List.nil_append, List.singleton_append, readRows_some hclose]

theorem ne_of_plain (ha : Agrees w d) {c : Char} (hc : w.isSpecial c = false) :
    c ≠ d.delimiter ∧ c ≠ d.quotechar ∧ isNewline c = false := by
  simp only [Dialect.isSpecial, Bool.or_eq_false_iff, decide_eq_false_iff_not] at hc
  rw [ha.delimiter, ha.quotechar]
  exact ⟨hc.1.1, hc.1.2, hc.2⟩

/-- A character that needs no quotes belongs to the field. -/
theorem step_plain (ha : Agrees w d) {c : Char} (hc : w.isSpecial c = false) {seen : PyStr}
    (hroom : seen.length < fieldLimit) :
    step d ⟨.inField, seen, fields⟩ (some c) = .ok ⟨.inField, seen ++ [c], fields⟩ := by
  obtain ⟨hdelimiter, -, hline⟩ := ne_of_plain ha hc
  simp only [step, hline, if_neg hdelimiter, Bool.false_eq_true, if_false]
  exact addChar_ok hroom c _

/-- It may also be the first of it. -/
theorem step_first (ha : Agrees w d) {c : Char} (hc : w.isSpecial c = false) {state : State}
    (hstate : state.begins) :
    step d ⟨state, [], fields⟩ (some c) = .ok ⟨.inField, [c], fields⟩ := by
  obtain ⟨hdelimiter, hquote, hline⟩ := ne_of_plain ha hc
  rw [step_begin hstate hline]
  simp only [stepField, hline, if_neg hquote, if_neg hdelimiter, ha.plainSpace,
    Bool.false_eq_true, and_false, if_false]
  have hroom : ([] : PyStr).length < fieldLimit := by decide
  exact addChar_ok (r := ⟨state, [], fields⟩) hroom c _

theorem readRows_plain (ha : Agrees w d) (seen : PyStr) {s : PyStr}
    (hplain : s.any w.isSpecial = false) (hlen : seen.length + s.length ≤ fieldLimit) :
    readRows d ⟨.inField, seen, fields⟩ (marks s ++ es) =
      readRows d ⟨.inField, seen ++ s, fields⟩ es := by
  induction s generalizing seen with
  | nil => simp
  | cons c s ih =>
      rw [List.any_cons, Bool.or_eq_false_iff] at hplain
      rw [List.length_cons] at hlen
      have hline : c ≠ '\n' := by
        rintro rfl
        exact Bool.false_ne_true (hplain.1.symm.trans (by simp [Dialect.isSpecial, isNewline]))
      have hnext := ih (seen ++ [c]) hplain.2
        (by rw [List.length_append, List.length_singleton]; omega)
      rw [List.append_assoc, List.singleton_append] at hnext
      rw [marks_cons, if_neg hline, List.append_assoc, List.singleton_append,
        readRows_some (step_plain ha hplain.1 (by omega)), hnext]

/-- **One field.** Nothing is left to read of it, unless it is the first of
several and empty: then only the delimiter tells that it is there. -/
theorem read_field (ha : Agrees w d) (fields : List PyStr) {state : State} (hstate : state.begins)
    (only : Bool) {field : PyStr} (hfield : Readable w d field) :
    ∃ r, (∀ es, readRows d ⟨state, [], fields⟩ (marks (writeField w only field) ++ es) =
        readRows d r es) ∧
      step d r (some w.delimiter) = .ok ⟨.startField, [], fields ++ [field]⟩ ∧
      (only = true ∨ state = .startField →
        step d r (some '\r') = .ok ⟨.eatCrnl, [], fields ++ [field]⟩) := by
  by_cases hquoted : (field.any w.isSpecial || (only && field.isEmpty)) = true
  · have hread := fieldRead_closed ha field fields
    refine ⟨_, fun es => ?_, hread.next, fun _ => hread.last⟩
    rw [writeField, if_pos hquoted, readRows_quoted ha hstate hfield]
  · have hwrite : writeField w only field = field := if_neg hquoted
    rw [Bool.not_eq_true, Bool.or_eq_false_iff] at hquoted
    rw [hwrite]
    cases field with
    | nil =>
        have honly : only = false := by simpa using hquoted.2
        refine ⟨⟨state, [], fields⟩, fun es => rfl, ?_, fun h => ?_⟩
        · have hquote : ¬ w.delimiter = d.quotechar := fun h => ha.distinct (h.trans ha.quotechar)
          rw [step_begin hstate ha.delimiterLine]
          simp only [stepField, ha.delimiterLine, if_neg hquote, ha.plainSpace, ha.delimiter,
            Bool.false_eq_true, and_false, if_false, if_true]
          rfl
        · rcases h with h | rfl
          · exact absurd (honly.symm.trans h) Bool.false_ne_true
          · rfl
    | cons c s =>
        have hplain := hquoted.1
        have hlen := hfield.length
        rw [List.any_cons, Bool.or_eq_false_iff] at hplain
        rw [List.length_cons] at hlen
        have hline : c ≠ '\n' := by
          rintro rfl
          exact Bool.false_ne_true (hplain.1.symm.trans (by simp [Dialect.isSpecial, isNewline]))
        have hread := fieldRead_inField ha (c :: s) fields
        refine ⟨_, fun es => ?_, hread.next, fun _ => hread.last⟩
        rw [marks_cons, if_neg hline, List.append_assoc, List.singleton_append,
          readRows_some (step_first ha hplain.1 hstate), readRows_plain ha [c] hplain.2 (by rw [List.length_singleton]; omega), List.singleton_append]

/-! ## Rows -/

/-- The fields behind the first, and the end of the row. -/
theorem read_rest (ha : Agrees w d) {r : Reader} {rest : List PyStr}
    (hnext : step d r (some w.delimiter) = .ok ⟨.startField, [], fields⟩)
    (hlast : rest = [] → step d r (some '\r') = .ok ⟨.eatCrnl, [], fields⟩)
    (hrest : ∀ field ∈ rest, Readable w d field) {rows : List (List PyStr)}
    (hrows : readRows d .fresh es = .ok rows) :
    readRows d r (marks (writeRest w rest) ++ es) = .ok ((fields ++ rest) :: rows) := by
  induction rest generalizing r fields with
  | nil =>
      rw [List.append_nil]
      exact readRows_crlf (hlast rfl) hrows
  | cons field rest ih =>
      obtain ⟨hfield, hrest⟩ := List.forall_mem_cons.mp hrest
      obtain ⟨r', hread, hnext', hlast'⟩ :=
        read_field ha fields (show State.startField.begins from trivial) false hfield
      have hline : w.delimiter ≠ '\n' := by
        intro h
        exact Bool.false_ne_true (ha.delimiterLine.symm.trans (h ▸ rfl))
      rw [writeRest, marks_cons, if_neg hline, marks_append, List.append_assoc, List.append_assoc,
        List.singleton_append, readRows_some hnext, hread,
        ih hnext' (fun _ => hlast' (.inr rfl)) hrest, List.append_assoc, List.singleton_append]

theorem read_row (ha : Agrees w d) {row : List PyStr} (hrow : ∀ field ∈ row, Readable w d field)
    {rows : List (List PyStr)} (hrows : readRows d .fresh es = .ok rows) :
    readRows d .fresh (marks (writerow w row) ++ es) = .ok (row :: rows) := by
  cases row with
  | nil =>
      have hblank : step d .fresh (some '\r') = .ok ⟨.eatCrnl, [], []⟩ := rfl
      exact readRows_crlf hblank hrows
  | cons field rest =>
      obtain ⟨hfield, hrest⟩ := List.forall_mem_cons.mp hrow
      obtain ⟨r, hread, hnext, hlast⟩ :=
        read_field ha [] (show State.startRecord.begins from trivial) rest.isEmpty hfield
      have hlast' : rest = [] → step d r (some '\r') = .ok ⟨.eatCrnl, [], [] ++ [field]⟩ := by
        rintro rfl
        exact hlast (.inl rfl)
      have hall := read_rest ha hnext hlast' hrest hrows
      rw [writerow, marks_append, List.append_assoc, Reader.fresh, hread, hall]
      rfl

theorem getLast?_writerow (w : Dialect) (row : List PyStr) : (writerow w row).getLast? = some '\n' := by
  have hrest : ∀ fields : List PyStr, ∃ s, writeRest w fields = s ++ ['\n'] := by
    intro fields
    induction fields with
    | nil => exact ⟨['\r'], rfl⟩
    | cons field fields ih =>
        obtain ⟨s, hs⟩ := ih
        exact ⟨w.delimiter :: (writeField w false field ++ s), by simp [writeRest, hs]⟩
  cases row with
  | nil => rfl
  | cons field rest =>
      obtain ⟨s, hs⟩ := hrest rest
      rw [writerow, hs, ← List.append_assoc, List.getLast?_concat]

theorem length_le_writeField (w : Dialect) (only : Bool) (field : PyStr) :
    field.length ≤ (writeField w only field).length := by
  have hdoubled : field.length ≤ (doubled w field).length := by
    induction field with
    | nil => exact Nat.zero_le _
    | cons c s ih =>
        rw [doubled, List.flatMap_cons, List.length_append, List.length_cons]
        rw [doubled] at ih
        split <;> simp only [List.length_cons, List.length_nil] <;> omega
  rw [writeField]
  split
  · rw [quoted, List.length_cons, List.length_append]
    omega
  · exact Nat.le_refl _

theorem length_le_writerow {w : Dialect} {row : List PyStr} {field : PyStr} (h : field ∈ row) :
    field.length ≤ (writerow w row).length := by
  have hrest : ∀ fields : List PyStr, field ∈ fields → field.length ≤ (writeRest w fields).length := by
    intro fields hmem
    induction fields with
    | nil => cases hmem
    | cons first rest ih =>
        rw [writeRest, List.length_cons, List.length_append]
        rcases List.mem_cons.mp hmem with rfl | hmem
        · have := length_le_writeField w false field
          omega
        · have := ih hmem
          omega
  cases row with
  | nil => cases h
  | cons first rest =>
      rw [writerow, List.length_append]
      rcases List.mem_cons.mp h with rfl | h
      · have := length_le_writeField w rest.isEmpty field
        omega
      · have := hrest rest h
        omega

/-- A field is no longer than the whole text. -/
theorem length_le_writerows {w : Dialect} {rows : List (List PyStr)} {row : List PyStr}
    (hrow : row ∈ rows) {field : PyStr} (h : field ∈ row) :
    field.length ≤ (writerows w rows).length := by
  obtain ⟨front, back, rfl⟩ := List.append_of_mem hrow
  have := length_le_writerow (w := w) h
  rw [writerows, List.flatMap_append, List.flatMap_cons, List.length_append, List.length_append]
  omega

/-- **What the writer writes is read back**, row by row and field by field. -/
theorem reader_writerows (ha : Agrees w d) {rows : List (List PyStr)}
    (hrows : ∀ row ∈ rows, ∀ field ∈ row, Readable w d field) :
    reader d (writerows w rows) = .ok rows := by
  have hmarks : events (writerows w rows) = marks (writerows w rows) := by
    refine events_eq_marks fun c hc => ?_
    rcases List.eq_nil_or_concat rows with rfl | ⟨front, row, rfl⟩
    · cases hc
    · rw [List.concat_eq_append, writerows, List.flatMap_append, List.flatMap_singleton,
        List.getLast?_append, getLast?_writerow] at hc
      exact (Option.some.inj hc).symm
  rw [reader, hmarks]
  clear hmarks
  induction rows with
  | nil => rfl
  | cons row rows ih =>
      obtain ⟨hrow, hrows⟩ := List.forall_mem_cons.mp hrows
      rw [writerows, List.flatMap_cons, marks_append]
      exact read_row ha hrow (ih hrows)

end Reading

end Csv

end ThreatIntel
