import Mathlib.Algebra.Order.BigOperators.Group.List
import Mathlib.Algebra.Order.Ring.Nat
import ThreatIntel.PyText

/-!
# Lines and cells

A text falls into lines, and a row of a Markdown table into cells, at the
pipes that no backslash escapes. Readers differ in what ends a line, and in
whether a backslash that is escaped itself escapes the pipe behind it. Both
are left open (`LineBreaks`, `Escaping`).
-/

namespace ThreatIntel

/-! ## Lines -/

/-- The characters that end a line. A carriage return and a newline are one
break to some readers; here they are two. -/
structure LineBreaks where
  isBreak : Char → Bool
  newline : isBreak '\n' = true
  blank : isBreak ' ' = false
  space : ∀ c, isBreak c = true → PyStr.isSpace c = true

namespace LineBreaks

variable (B : LineBreaks)

def OneLine (s : PyStr) : Prop := ∀ c ∈ s, B.isBreak c = false

/-- The lines of a text. Behind the last break there is none. -/
def lines : PyStr → List PyStr
  | [] => []
  | c :: s =>
      if B.isBreak c then [] :: lines s
      else
        match lines s with
        | [] => [[c]]
        | line :: rest => (c :: line) :: rest

/-- The text that has the lines. -/
def unlines (ls : List PyStr) : PyStr := ls.flatMap (· ++ ['\n'])

variable {B}

theorem isBreak_of_not_isSpace {c : Char} (h : PyStr.isSpace c = false) : B.isBreak c = false :=
  Bool.eq_false_iff.mpr fun hbreak => Bool.false_ne_true (h.symm.trans (B.space c hbreak))

theorem oneLine_append {s t : PyStr} : B.OneLine (s ++ t) ↔ B.OneLine s ∧ B.OneLine t :=
  List.forall_mem_append

theorem oneLine_cons {c : Char} {s : PyStr} :
    B.OneLine (c :: s) ↔ B.isBreak c = false ∧ B.OneLine s := List.forall_mem_cons

theorem lines_append_newline {s : PyStr} (hs : B.OneLine s) (t : PyStr) :
    B.lines (s ++ '\n' :: t) = s :: B.lines t := by
  induction s with
  | nil => simp [lines, B.newline]
  | cons c s ih =>
      obtain ⟨hc, hrest⟩ := List.forall_mem_cons.mp hs
      simp [lines, hc, ih hrest]

theorem lines_unlines {ls : List PyStr} (h : ∀ l ∈ ls, B.OneLine l) : B.lines (unlines ls) = ls := by
  induction ls with
  | nil => rfl
  | cons l ls ih =>
      obtain ⟨hl, hrest⟩ := List.forall_mem_cons.mp h
      have hcons : unlines (l :: ls) = l ++ '\n' :: unlines ls := by simp [unlines]
      rw [hcons, lines_append_newline hl, ih hrest]

/-- Each break ends a line. -/
theorem countP_le_length_lines (s : PyStr) : s.countP B.isBreak ≤ (B.lines s).length := by
  induction s with
  | nil => exact le_rfl
  | cons c s ih =>
      rw [lines]
      by_cases hc : B.isBreak c = true
      · rw [List.countP_cons_of_pos hc, if_pos hc, List.length_cons]
        exact Nat.succ_le_succ ih
      · rw [List.countP_cons_of_neg hc, if_neg hc]
        cases hlines : B.lines s with
        | nil => exact ih.trans (by simp [hlines])
        | cons line rest => exact ih.trans (by simp [hlines])

theorem countP_unlines (ls : List PyStr) :
    (unlines ls).countP B.isBreak = ls.length + (ls.map (·.countP B.isBreak)).sum := by
  induction ls with
  | nil => rfl
  | cons l ls ih =>
      have hcons : unlines (l :: ls) = l ++ '\n' :: unlines ls := by simp [unlines]
      rw [hcons, List.countP_append, List.countP_cons_of_pos B.newline, ih, List.map_cons,
        List.sum_cons, List.length_cons]
      omega

theorem join_append_newline {ls : List PyStr} (hne : ls ≠ []) :
    PyStr.join '\n' ls ++ ['\n'] = unlines ls := by
  induction ls with
  | nil => exact absurd rfl hne
  | cons l ls ih =>
      cases ls with
      | nil => simp [PyStr.join, unlines]
      | cons l' ls =>
          have hrest := ih (List.cons_ne_nil _ _)
          simp only [PyStr.join, List.intercalate_cons_cons, List.append_assoc] at hrest ⊢
          rw [hrest]
          simp [unlines]

/-- As many lines as were written, if and only if none has a break. -/
theorem length_lines_unlines_iff {ls : List PyStr} :
    (B.lines (unlines ls)).length = ls.length ↔ ∀ l ∈ ls, B.OneLine l := by
  constructor
  · intro hlength l hl c hc
    have hcount := countP_le_length_lines (B := B) (unlines ls)
    rw [countP_unlines, hlength] at hcount
    have hone : l.countP B.isBreak ≤ (ls.map (·.countP B.isBreak)).sum :=
      List.single_le_sum (fun _ _ => Nat.zero_le _) _ (List.mem_map_of_mem hl)
    have hzero : l.countP B.isBreak = 0 := by omega
    simpa using List.countP_eq_zero.mp hzero c hc
  · intro h
    rw [lines_unlines h]

end LineBreaks

/-! ## Cells -/

/-- What a backslash before a backslash and a pipe does: in a table of
GitHub's any backslash escapes the pipe that follows it, in other Markdown
the first one escapes the second. -/
inductive Escaping where
  | adjacent
  | paired
  deriving DecidableEq, Repr

namespace Escaping

/-- Whether the next character is escaped. -/
def after (e : Escaping) (escaped : Bool) (c : Char) : Bool :=
  c = '\\' && (e = .adjacent || !escaped)

def leaves (e : Escaping) (escaped : Bool) (s : PyStr) : Bool := s.foldl e.after escaped

/-- The number of pipes that are escaped, or of those that are not. -/
def pipes (e : Escaping) (kind : Bool) : Bool → PyStr → Nat
  | _, [] => 0
  | escaped, c :: s =>
      (if c = '|' ∧ escaped = kind then 1 else 0) + pipes e kind (e.after escaped c) s

/-- A line cut at the pipes that are not escaped. -/
def split (e : Escaping) : Bool → PyStr → List PyStr
  | _, [] => [[]]
  | escaped, c :: s =>
      if c = '|' ∧ escaped = false then [] :: split e (e.after escaped c) s
      else
        match split e (e.after escaped c) s with
        | [] => [[c]]
        | cell :: rest => (c :: cell) :: rest

/-- Cells between pipes, the first and the last at the ends of the line. -/
def IsRow (e : Escaping) (n : Nat) (line : PyStr) : Prop :=
  ∃ cells : List PyStr, cells.length = n ∧ e.split false line = [] :: (cells ++ [[]])

/-- The line that is written for the cells. -/
def rowOf (cells : List PyStr) : PyStr := '|' :: cells.flatMap (· ++ ['|'])

/-- A cell with its content between blanks. -/
def padded (content : PyStr) : PyStr := ' ' :: (content ++ [' '])

variable {B : LineBreaks} {e : Escaping}

@[simp] theorem after_pipe (escaped : Bool) : e.after escaped '|' = false := rfl

theorem after_of_ne {c : Char} (hc : c ≠ '\\') (escaped : Bool) : e.after escaped c = false := by
  simp [after, hc]

theorem pipes_append (kind escaped : Bool) (s t : PyStr) :
    e.pipes kind escaped (s ++ t) = e.pipes kind escaped s + e.pipes kind (e.leaves escaped s) t := by
  induction s generalizing escaped with
  | nil => simp [pipes, leaves]
  | cons c s ih =>
      simp only [List.cons_append, pipes, ih, leaves, List.foldl_cons]
      omega

/-- Without pipes, or without anything to escape them. -/
theorem pipes_of_notMem_pipe {s : PyStr} (h : '|' ∉ s) (kind escaped : Bool) :
    e.pipes kind escaped s = 0 := by
  induction s generalizing escaped with
  | nil => rfl
  | cons c s ih =>
      obtain ⟨hc, hrest⟩ := not_or.mp (fun hmem => h (List.mem_cons.mpr hmem))
      rw [pipes, ih hrest, if_neg fun hpipe => hc hpipe.1.symm]

theorem pipes_of_notMem_backslash {s : PyStr} (h : '\\' ∉ s) : e.pipes true false s = 0 := by
  induction s with
  | nil => rfl
  | cons c s ih =>
      obtain ⟨hc, hrest⟩ := not_or.mp (fun hmem => h (List.mem_cons.mpr hmem))
      rw [pipes, after_of_ne (Ne.symm hc), ih hrest, if_neg fun hpipe => by cases hpipe.2]

theorem leaves_append (escaped : Bool) (s t : PyStr) :
    e.leaves escaped (s ++ t) = e.leaves (e.leaves escaped s) t := List.foldl_append

theorem length_split (escaped : Bool) (s : PyStr) :
    (e.split escaped s).length = e.pipes false escaped s + 1 := by
  induction s generalizing escaped with
  | nil => rfl
  | cons c s ih =>
      have hrest := ih (e.after escaped c)
      rw [split, pipes]
      split
      · rw [List.length_cons, hrest]
        omega
      · cases hs : e.split (e.after escaped c) s with
        | nil => simp [hs] at hrest
        | cons cell rest =>
            rw [hs] at hrest
            rw [List.length_cons, ← List.length_cons (a := cell), hrest]
            omega

/-- Text without bare pipes, up to a pipe that is bare. -/
theorem split_append_pipe {escaped : Bool} {s : PyStr} (hpipes : e.pipes false escaped s = 0)
    (hleaves : e.leaves escaped s = false) (t : PyStr) :
    e.split escaped (s ++ '|' :: t) = s :: e.split false t := by
  induction s generalizing escaped with
  | nil =>
      obtain rfl : escaped = false := hleaves
      simp [split]
  | cons c s ih =>
      rw [pipes, Nat.add_eq_zero_iff] at hpipes
      have hbare : ¬ (c = '|' ∧ escaped = false) := fun h => by simp [h] at hpipes
      rw [List.cons_append, split, if_neg hbare, ih hpipes.2 hleaves]

/-- By induction on the cells: each ends at the pipe behind it. -/
theorem split_cells {cells : List PyStr} (hleaves : ∀ cell ∈ cells, e.leaves false cell = false)
    (hpipes : ∀ cell ∈ cells, e.pipes false false cell = 0) :
    e.split false (cells.flatMap (· ++ ['|'])) = cells ++ [[]] := by
  induction cells with
  | nil => rfl
  | cons cell cells ih =>
      obtain ⟨hleave, hleaves⟩ := List.forall_mem_cons.mp hleaves
      obtain ⟨hpipe, hpipes⟩ := List.forall_mem_cons.mp hpipes
      rw [List.flatMap_cons, List.append_assoc, List.singleton_append,
        split_append_pipe hpipe hleave, ih hleaves hpipes, List.cons_append]

theorem pipes_cells {cells : List PyStr} (hleaves : ∀ cell ∈ cells, e.leaves false cell = false) :
    e.pipes false false (cells.flatMap (· ++ ['|'])) =
      cells.length + (cells.map (e.pipes false false)).sum := by
  induction cells with
  | nil => rfl
  | cons cell cells ih =>
      obtain ⟨hleave, hleaves⟩ := List.forall_mem_cons.mp hleaves
      have hpipe : e.pipes false false ('|' :: cells.flatMap (· ++ ['|'])) =
          1 + e.pipes false false (cells.flatMap (· ++ ['|'])) := by simp [pipes]
      rw [List.flatMap_cons, List.append_assoc, List.singleton_append, pipes_append, hleave, hpipe,
        ih hleaves, List.length_cons, List.map_cons, List.sum_cons]
      omega

/-- A row has the cells it was written with, if and only if no cell has a
pipe that is not escaped. -/
theorem isRow_rowOf_iff {cells : List PyStr} (hleaves : ∀ cell ∈ cells, e.leaves false cell = false) :
    e.IsRow cells.length (rowOf cells) ↔ ∀ cell ∈ cells, e.pipes false false cell = 0 := by
  have hsplit : e.split false (rowOf cells) = [] :: e.split false (cells.flatMap (· ++ ['|'])) :=
    split_append_pipe (s := []) rfl rfl _
  constructor
  · rintro ⟨read, hlength, hread⟩ cell hcell
    have hcount := congrArg List.length (hsplit.symm.trans hread)
    simp only [List.length_cons, List.length_append, length_split, pipes_cells hleaves, hlength,
      List.length_nil] at hcount
    have hone : e.pipes false false cell ≤ (cells.map (e.pipes false false)).sum :=
      List.single_le_sum (fun _ _ => Nat.zero_le _) _ (List.mem_map_of_mem hcell)
    omega
  · intro hpipes
    exact ⟨cells, rfl, by rw [hsplit, split_cells hleaves hpipes]⟩

theorem leaves_padded (content : PyStr) : e.leaves false (padded content) = false := by
  rw [padded, ← List.cons_append, leaves_append]
  rfl

theorem pipes_padded (kind : Bool) (content : PyStr) :
    e.pipes kind false (padded content) = e.pipes kind false content := by
  have hclose : ∀ escaped, e.pipes kind escaped [' '] = 0 := pipes_of_notMem_pipe (by simp) kind
  have hopen : e.pipes kind false (padded content) = e.pipes kind false (content ++ [' ']) := by
    simp [padded, pipes, after]
  rw [hopen, pipes_append, hclose, Nat.add_zero]

theorem isBreak_pipe : B.isBreak '|' = false := LineBreaks.isBreak_of_not_isSpace (by decide)

theorem oneLine_padded_row {contents : List PyStr} :
    B.OneLine (rowOf (contents.map padded)) ↔ ∀ content ∈ contents, B.OneLine content := by
  rw [rowOf, LineBreaks.oneLine_cons, and_iff_right isBreak_pipe]
  induction contents with
  | nil => simp [LineBreaks.OneLine]
  | cons content contents ih =>
      have hblank : B.OneLine [' '] := List.forall_mem_singleton.mpr B.blank
      have hpipe : B.OneLine ['|'] := List.forall_mem_singleton.mpr isBreak_pipe
      have hone : B.OneLine (padded content) ↔ B.OneLine content := by
        rw [padded, LineBreaks.oneLine_cons, and_iff_right B.blank, LineBreaks.oneLine_append,
          and_iff_left hblank]
      rw [List.map_cons, List.flatMap_cons, LineBreaks.oneLine_append, LineBreaks.oneLine_append, ih,
        hone, and_iff_left hpipe, List.forall_mem_cons]

/-- A row with padded cells has them, if and only if no content has a pipe
that is not escaped. -/
theorem isRow_padded_iff {contents : List PyStr} :
    e.IsRow contents.length (rowOf (contents.map padded)) ↔
      ∀ content ∈ contents, e.pipes false false content = 0 := by
  have hleaves : ∀ cell ∈ contents.map padded, e.leaves false cell = false :=
    List.forall_mem_map.mpr fun content _ => leaves_padded content
  rw [← List.length_map (f := padded), isRow_rowOf_iff hleaves, List.forall_mem_map]
  simp only [pipes_padded]

/-! ## Escaped pipes -/

/-- `s.replace("|", "\\|")`. -/
def escapePipes (s : PyStr) : PyStr := PyStr.replace "|".toList "\\|".toList s

theorem escapePipes_cons (c : Char) (s : PyStr) :
    escapePipes (c :: s) = (if c = '|' then ['\\', '|'] else [c]) ++ escapePipes s := by
  simp only [escapePipes, PyStr.replace]
  rw [show "|".toList = ['|'] from rfl, Rewrite.replace_singleton, Rewrite.replace_singleton,
    List.flatMap_cons]
  simp only [PyStr.sameChar, decide_eq_true_eq, eq_comm (a := '|')]
  rfl

theorem oneLine_escapePipes (s : PyStr) : B.OneLine (escapePipes s) ↔ B.OneLine s := by
  induction s with
  | nil => exact Iff.rfl
  | cons c s ih =>
      rw [escapePipes_cons, LineBreaks.oneLine_append, ih, LineBreaks.oneLine_cons]
      refine and_congr_left' ?_
      by_cases hc : c = '|'
      · have hescape : B.isBreak '\\' = false := LineBreaks.isBreak_of_not_isSpace (by decide)
        simp [hc, LineBreaks.OneLine, hescape, isBreak_pipe]
      · simp [hc, LineBreaks.OneLine]

/-- The backslash put before a pipe always counts, or just where the pipe
was not escaped already. -/
theorem pipes_escapePipes (escaped : Bool) (s : PyStr) :
    e.pipes false escaped (escapePipes s) =
      if e = .adjacent then 0 else e.pipes true escaped s := by
  induction s generalizing escaped with
  | nil => cases e <;> rfl
  | cons c s ih =>
      rw [escapePipes_cons, pipes_append, ih, pipes]
      by_cases hc : c = '|'
      · subst hc
        cases e <;> cases escaped <;> simp [pipes, leaves, after]
      · have hone : e.pipes false escaped [c] = 0 := by simp [pipes, hc]
        have hnone : ¬ (c = '|' ∧ escaped = true) := fun h => hc h.1
        rw [if_neg hc, hone, if_neg hnone, Nat.zero_add, Nat.zero_add]
        rfl

end Escaping

end ThreatIntel
