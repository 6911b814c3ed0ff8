import ThreatIntel.Errors
import ThreatIntel.PyText

/-!
# CSV

`csv.reader` over a text, as the state machine of the standard library
runs it: character by character, with an event at the end of each line.
Not strict, quoting minimal, no escape character: these are what the
application's dialects have. A carriage return that does not end the line
and a field beyond the size limit raise `csv.Error`.
-/

namespace ThreatIntel

namespace Csv

structure Dialect where
  delimiter : Char
  quotechar : Char
  doublequote : Bool
  skipinitialspace : Bool
  deriving DecidableEq, Repr

def excel : Dialect :=
  { delimiter := ',', quotechar := '"', doublequote := true, skipinitialspace := false }

inductive State where
  | startRecord
  | startField
  | inField
  | inQuotedField
  | quoteInQuotedField
  | eatCrnl
  deriving DecidableEq, Repr

structure Reader where
  state : State
  field : PyStr
  fields : List PyStr
  deriving DecidableEq, Repr

def Reader.fresh : Reader := ⟨.startRecord, [], []⟩

def fieldLimit : Nat := 131072

def Reader.saveField (r : Reader) (state : State) : Reader := ⟨state, [], r.fields ++ [r.field]⟩

def Reader.addChar (r : Reader) (c : Char) (state : State) : Except Exn Reader :=
  if fieldLimit ≤ r.field.length then throw (.python .csvError)
  else pure ⟨state, r.field ++ [c], r.fields⟩

def isNewline (c : Char) : Bool := c = '\n' || c = '\r'

/-- The end of a field by the end of the line: `none` is the end itself. -/
def Reader.endRecord (r : Reader) (c : Option Char) : Reader :=
  r.saveField (if c.isNone then .startRecord else .eatCrnl)

def stepField (d : Dialect) (r : Reader) (c : Option Char) : Except Exn Reader :=
  match c with
  | none => pure (r.endRecord none)
  | some c =>
      if isNewline c then pure (r.endRecord (some c))
      else if c = d.quotechar then pure { r with state := .inQuotedField }
      else if c = ' ' ∧ d.skipinitialspace then pure { r with state := .startField }
      else if c = d.delimiter then pure (r.saveField .startField)
      else r.addChar c .inField

/-- `parse_process_char`. -/
def step (d : Dialect) (r : Reader) (c : Option Char) : Except Exn Reader :=
  match r.state, c with
  | .startRecord, none => pure r
  | .startRecord, some x =>
      if isNewline x then pure { r with state := .eatCrnl } else stepField d r (some x)
  | .startField, c => stepField d r c
  | .inField, none => pure (r.endRecord none)
  | .inField, some x =>
      if isNewline x then pure (r.endRecord (some x))
      else if x = d.delimiter then pure (r.saveField .startField)
      else r.addChar x .inField
  | .inQuotedField, none => pure r
  | .inQuotedField, some x =>
      if x = d.quotechar then
        pure { r with state := if d.doublequote then .quoteInQuotedField else .inField }
      else r.addChar x .inQuotedField
  | .quoteInQuotedField, none => pure (r.endRecord none)
  | .quoteInQuotedField, some x =>
      if x = d.quotechar then r.addChar x .inQuotedField
      else if x = d.delimiter then pure (r.saveField .startField)
      else if isNewline x then pure (r.endRecord (some x))
      else r.addChar x .inField
  | .eatCrnl, none => pure { r with state := .startRecord }
  | .eatCrnl, some x => if isNewline x then pure r else throw (.python .csvError)

/-- The characters, and an event at the end of every line. -/
def events : PyStr → List (Option Char)
  | [] => []
  | c :: s => some c :: (if c = '\n' ∨ s = [] then none :: events s else events s)

/-- The rows. A text that ends inside quotes ends the row. -/
def readRows (d : Dialect) : Reader → List (Option Char) → Except Exn (List (List PyStr))
  | r, [] =>
      if r.field ≠ [] ∨ r.state = .inQuotedField then pure [r.fields ++ [r.field]] else pure []
  | r, some c :: es => do
      let r ← step d r (some c)
      readRows d r es
  | r, none :: es => do
      let r ← step d r none
      if r.state = .startRecord then
        let rows ← readRows d .fresh es
        return r.fields :: rows
      else readRows d r es

/-- `list(csv.reader(io.StringIO(text), dialect))`. -/
def reader (d : Dialect) (text : PyStr) : Except Exn (List (List PyStr)) :=
  readRows d .fresh (events text)

/-! ## What the reader raises -/

theorem addChar_error {r : Reader} {c : Char} {s : State} {e : Exn}
    (h : r.addChar c s = .error e) : e = .python .csvError := by
  unfold Reader.addChar at h
  split at h
  · cases h
    rfl
  · cases h

theorem stepField_error {d : Dialect} {r : Reader} {c : Option Char} {e : Exn}
    (h : stepField d r c = .error e) : e = .python .csvError := by
  cases c with
  | none => cases h
  | some c =>
      simp only [stepField] at h
      repeat' split at h
      all_goals first | exact addChar_error h | cases h

theorem step_error {d : Dialect} {r : Reader} {c : Option Char} {e : Exn}
    (h : step d r c = .error e) : e = .python .csvError := by
  obtain ⟨state, field, fields⟩ := r
  cases c with
  | none => cases state <;> cases h
  | some c =>
      cases state <;> simp only [step] at h <;> repeat' split at h
      all_goals first | exact addChar_error h | exact stepField_error h | (cases h; rfl) | cases h

theorem readRows_error {d : Dialect} {es : List (Option Char)} {r : Reader} {e : Exn}
    (h : readRows d r es = .error e) : e = .python .csvError := by
  induction es generalizing r with
  | nil =>
      unfold readRows at h
      split at h <;> cases h
  | cons c es ih =>
      cases c with
      | some c =>
          simp only [readRows] at h
          cases hstep : step d r (some c) with
          | error e' =>
              rw [hstep] at h
              cases h
              exact step_error hstep
          | ok r' =>
              rw [hstep] at h
              exact ih h
      | none =>
          simp only [readRows] at h
          cases hstep : step d r none with
          | error e' =>
              rw [hstep] at h
              cases h
              exact step_error hstep
          | ok r' =>
              simp only [hstep, bind, Except.bind] at h
              split at h
              · cases hrest : readRows d .fresh es with
                | error e' =>
                    rw [hrest] at h
                    cases h
                    exact ih hrest
                | ok rows =>
                    rw [hrest] at h
                    cases h
              · exact ih h

/-! ## Texts without carriage returns -/

section NoCr

variable {d : Dialect}

/-- Fewer characters than the limit in the field, and the line is not at
its end. -/
structure Ready (r : Reader) (n : Nat) : Prop where
  room : r.field.length + n ≤ fieldLimit
  state : r.state ≠ .eatCrnl

theorem addChar_ready {r : Reader} {n : Nat} (h : Ready r (n + 1)) (c : Char) {s : State}
    (hs : s ≠ .eatCrnl) : ∃ r', r.addChar c s = .ok r' ∧ Ready r' n := by
  have hroom := h.room
  refine ⟨⟨s, r.field ++ [c], r.fields⟩, ?_, ?_, hs⟩
  · rw [Reader.addChar, if_neg (by omega)]
    rfl
  · simp only [List.length_append, List.length_singleton]
    omega

theorem saveField_ready {r : Reader} {n : Nat} (h : Ready r (n + 1)) {s : State}
    (hs : s ≠ .eatCrnl) : Ready (r.saveField s) n := by
  have hroom := h.room
  exact ⟨show 0 + n ≤ fieldLimit by omega, hs⟩

theorem setState_ready {r : Reader} {n : Nat} (h : Ready r (n + 1)) {s : State}
    (hs : s ≠ .eatCrnl) : Ready { r with state := s } n := by
  have hroom := h.room
  exact ⟨show r.field.length + n ≤ fieldLimit by omega, hs⟩

/-- A character other than a newline is read, and the line goes on. -/
theorem step_ready {r : Reader} {n : Nat} (h : Ready r (n + 1)) {c : Char}
    (hc : isNewline c = false) : ∃ r', step d r (some c) = .ok r' ∧ Ready r' n := by
  have hfield : ∃ r', stepField d r (some c) = .ok r' ∧ Ready r' n := by
    simp only [stepField, hc]
    repeat' split
    all_goals first
      | exact addChar_ready h c (by decide)
      | exact ⟨_, rfl, saveField_ready h (by decide)⟩
      | exact ⟨_, rfl, setState_ready h (by decide)⟩
      | contradiction
  obtain ⟨state, field, fields⟩ := r
  cases state with
  | eatCrnl => exact absurd rfl h.state
  | startRecord | startField => simpa [step, hc] using hfield
  | inQuotedField =>
      simp only [step]
      split
      · exact ⟨_, rfl, setState_ready h (by split <;> decide)⟩
      · exact addChar_ready h c (by decide)
  | inField | quoteInQuotedField =>
      simp only [step, hc]
      repeat' split
      all_goals first
        | exact addChar_ready h c (by decide)
        | exact ⟨_, rfl, saveField_ready h (by decide)⟩
        | exact ⟨_, rfl, setState_ready h (by decide)⟩
        | contradiction

/-- The end of a line, with or without the newline. -/
theorem step_end {r : Reader} {n : Nat} (h : r.field.length + n ≤ fieldLimit) :
    ∃ r', step d r none = .ok r' ∧ Ready r' n := by
  have hn : 0 + n ≤ fieldLimit := by omega
  obtain ⟨state, field, fields⟩ := r
  cases state with
  | startRecord | inQuotedField => exact ⟨_, rfl, h, by simp⟩
  | startField | inField | quoteInQuotedField =>
      exact ⟨_, rfl, hn, by simp [Reader.endRecord, Reader.saveField]⟩
  | eatCrnl => exact ⟨_, rfl, h, by simp⟩

/-- A newline is read, and ends the line unless it is quoted. -/
theorem step_newline {r : Reader} {n : Nat} (h : Ready r (n + 1)) :
    ∃ r', step d r (some '\n') = .ok r' ∧ r'.field.length + n ≤ fieldLimit := by
  have hroom := h.room
  have hn : 0 + n ≤ fieldLimit := by omega
  obtain ⟨state, field, fields⟩ := r
  have hkeep : field.length + n ≤ fieldLimit := by
    dsimp only at hroom
    omega
  cases state with
  | eatCrnl => exact absurd rfl h.state
  | startRecord => exact ⟨_, rfl, hkeep⟩
  | startField | inField => exact ⟨_, rfl, hn⟩
  | inQuotedField =>
      simp only [step]
      split
      · exact ⟨_, rfl, hkeep⟩
      · obtain ⟨r', hr', hready⟩ := addChar_ready h '\n' (s := .inQuotedField) (by decide)
        exact ⟨r', hr', hready.room⟩
  | quoteInQuotedField =>
      simp only [step]
      repeat' split
      · obtain ⟨r', hr', hready⟩ := addChar_ready h '\n' (s := .inQuotedField) (by decide)
        exact ⟨r', hr', hready.room⟩
      · exact ⟨_, rfl, hn⟩
      · exact ⟨_, rfl, hn⟩
      · contradiction

theorem isNewline_eq_false {c : Char} (hcr : c ≠ '\r') (hnl : c ≠ '\n') : isNewline c = false := by
  simp [isNewline, hcr, hnl]

/-- Behind the end of a line the reader starts again or goes on. -/
theorem readRows_end {r : Reader} {es : List (Option Char)} {n : Nat}
    (h : r.field.length + n ≤ fieldLimit)
    (hrest : ∀ r', Ready r' n → ∃ rows, readRows d r' es = .ok rows) :
    ∃ rows, readRows d r (none :: es) = .ok rows := by
  obtain ⟨r', hr', hready⟩ := step_end (d := d) h
  simp only [readRows, hr', bind, Except.bind]
  split
  · have hroom := hready.room
    obtain ⟨rows, hrows⟩ := hrest .fresh ⟨show 0 + n ≤ fieldLimit by omega, by decide⟩
    exact ⟨r'.fields :: rows, by rw [hrows]; rfl⟩
  · exact hrest r' hready

theorem readRows_ready {s : PyStr} (hcr : '\r' ∉ s) {r : Reader} (h : Ready r s.length) :
    ∃ rows, readRows d r (events s) = .ok rows := by
  induction s generalizing r with
  | nil =>
      unfold events readRows
      split
      · exact ⟨_, rfl⟩
      · exact ⟨_, rfl⟩
  | cons c s ih =>
      have hrest : ∀ r', Ready r' s.length → ∃ rows, readRows d r' (events s) = .ok rows :=
        fun r' => ih fun hmem => hcr (List.mem_cons_of_mem _ hmem)
      by_cases hnl : c = '\n'
      · subst hnl
        obtain ⟨r', hr', hroom⟩ := step_newline (d := d) h
        simp only [events, readRows, hr', bind, Except.bind, true_or, if_true]
        exact readRows_end hroom hrest
      · have hc : c ≠ '\r' := fun heq => hcr (heq ▸ List.mem_cons_self)
        obtain ⟨r', hr', hready⟩ := step_ready (d := d) h (isNewline_eq_false hc hnl)
        simp only [events, readRows, hr', bind, Except.bind, hnl, false_or]
        split
        · exact readRows_end hready.room hrest
        · exact hrest r' hready

/-- **A text without carriage returns is read**, if it is not longer than a
field may be. -/
theorem reader_of_notMem_cr {s : PyStr} (hlen : s.length ≤ fieldLimit) (hcr : '\r' ∉ s) :
    ∃ rows, reader d s = .ok rows :=
  readRows_ready hcr ⟨show 0 + s.length ≤ fieldLimit by omega, by decide⟩

end NoCr

end Csv

end ThreatIntel
