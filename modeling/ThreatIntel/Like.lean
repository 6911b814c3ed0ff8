import Mathlib.Data.List.Infix
import Mathlib.Data.List.Nodup

/-!
# LIKE

The patterns of SQL's `LIKE .. ESCAPE ..`, over any alphabet: one letter
stands for any text, one for any letter, and one takes the meaning from the
letter behind it. Matching is a relation (`Matches`): the letter for any
text leaves open how much it takes. `isMatch` decides it.

What has been escaped is a pattern of letters that match themselves, so
between two wildcards it matches the texts it occurs in. The same goes for
a comparison that ignores case, where both sides are folded first.
-/

namespace ThreatIntel

/-- The letters with a meaning. -/
structure Wildcards (α : Type*) where
  many : α
  one : α
  escape : α
  nodup : [escape, many, one].Nodup

namespace Wildcards

variable {α : Type*}

/-! ## Patterns -/

inductive Element (α : Type*) where
  | many
  | one
  | literal (a : α)
  deriving DecidableEq, Repr

inductive Matches : List (Element α) → List α → Prop
  | nil : Matches [] []
  | many {pattern : List (Element α)} {text : List α} (taken : List α) :
      Matches pattern text → Matches (.many :: pattern) (taken ++ text)
  | one {pattern : List (Element α)} {text : List α} (a : α) :
      Matches pattern text → Matches (.one :: pattern) (a :: text)
  | literal {pattern : List (Element α)} {text : List α} (a : α) :
      Matches pattern text → Matches (.literal a :: pattern) (a :: text)

/-! ## Letters that match themselves -/

theorem matches_literals {q : List α} {rest : List (Element α)} {text : List α} :
    Matches (q.map .literal ++ rest) text ↔ ∃ behind, text = q ++ behind ∧ Matches rest behind := by
  constructor
  · intro h
    induction q generalizing text with
    | nil => exact ⟨text, rfl, h⟩
    | cons a q ih =>
        cases h with
        | literal _ h =>
            obtain ⟨behind, rfl, hrest⟩ := ih h
            exact ⟨behind, rfl, hrest⟩
  · rintro ⟨behind, rfl, hrest⟩
    induction q with
    | nil => exact hrest
    | cons a q ih => exact .literal a ih

/-- Between two wildcards they match what they occur in. -/
theorem matches_between {q text : List α} :
    Matches (.many :: (q.map .literal ++ [.many])) text ↔ q <:+: text := by
  constructor
  · intro h
    cases h with
    | many taken h =>
        obtain ⟨behind, rfl, -⟩ := matches_literals.mp h
        exact ⟨taken, behind, List.append_assoc taken q behind⟩
  · rintro ⟨before, behind, rfl⟩
    rw [List.append_assoc]
    have hrest : Matches [.many] (behind ++ []) := .many behind .nil
    rw [List.append_nil] at hrest
    exact .many before (matches_literals.mpr ⟨behind, rfl, hrest⟩)

/-! ## Matching -/

section

variable [DecidableEq α]

def isMatch : List (Element α) → List α → Bool
  | [], text => text.isEmpty
  | .many :: pattern, text => text.tails.any (isMatch pattern)
  | .one :: pattern, _ :: text => isMatch pattern text
  | .one :: _, [] => false
  | .literal a :: pattern, b :: text => a = b && isMatch pattern text
  | .literal _ :: _, [] => false

/-- By induction on the pattern, and back by induction on the match. -/
theorem isMatch_iff (pattern : List (Element α)) (text : List α) :
    isMatch pattern text = true ↔ Matches pattern text := by
  constructor
  · intro h
    induction pattern generalizing text with
    | nil =>
        obtain rfl : text = [] := by simpa [isMatch] using h
        exact .nil
    | cons element pattern ih =>
        cases element with
        | many =>
            obtain ⟨rest, hrest, hmatch⟩ := List.any_eq_true.mp h
            obtain ⟨taken, rfl⟩ := (List.mem_tails _ _).mp hrest
            exact .many taken (ih rest hmatch)
        | one =>
            cases text with
            | nil => cases h
            | cons a text => exact .one a (ih text h)
        | literal a =>
            cases text with
            | nil => cases h
            | cons b text =>
                obtain ⟨rfl, hmatch⟩ : a = b ∧ isMatch pattern text = true := by
                  simpa [isMatch] using h
                exact .literal a (ih text hmatch)
  · intro h
    induction h with
    | nil => rfl
    | many taken _ ih =>
        exact List.any_eq_true.mpr ⟨_, (List.mem_tails _ _).mpr (List.suffix_append taken _), ih⟩
    | one a _ ih => exact ih
    | literal a _ ih => simpa [isMatch] using ih

/-! ## Reading a pattern -/

variable (w : Wildcards α)

def isSpecial (a : α) : Bool := a = w.escape || a = w.many || a = w.one

/-- The elements of a pattern; `none` is the error for a pattern that ends
with the escape letter. -/
def parse : List α → Option (List (Element α))
  | [] => some []
  | [a] =>
      if a = w.escape then none
      else if a = w.many then some [.many]
      else if a = w.one then some [.one]
      else some [.literal a]
  | a :: b :: rest =>
      if a = w.escape then (parse rest).map (.literal b :: ·)
      else if a = w.many then (parse (b :: rest)).map (.many :: ·)
      else if a = w.one then (parse (b :: rest)).map (.one :: ·)
      else (parse (b :: rest)).map (.literal a :: ·)

/-- `text LIKE pattern ESCAPE escape`. -/
def like (pattern text : List α) : Option Bool := (w.parse pattern).map (isMatch · text)

/-! ## Escaping -/

/-- A letter with a meaning, and the escape letter before it. -/
def escapeOne (a : α) : List α := if w.isSpecial a then [w.escape, a] else [a]

def escapeAll (q : List α) : List α := q.flatMap w.escapeOne

theorem not_isSpecial {a : α} (h : w.isSpecial a = false) :
    a ≠ w.escape ∧ a ≠ w.many ∧ a ≠ w.one := by
  simpa [isSpecial, and_assoc] using h

theorem parse_escape (b : α) (rest : List α) :
    w.parse (w.escape :: b :: rest) = (w.parse rest).map (.literal b :: ·) := by
  rw [parse, if_pos rfl]

theorem parse_plain {a : α} (h : w.isSpecial a = false) (rest : List α) :
    w.parse (a :: rest) = (w.parse rest).map (.literal a :: ·) := by
  obtain ⟨hescape, hmany, hone⟩ := w.not_isSpecial h
  cases rest <;> simp [parse, hescape, hmany, hone]

theorem parse_many (rest : List α) :
    w.parse (w.many :: rest) = (w.parse rest).map (.many :: ·) := by
  have hescape : w.many ≠ w.escape := by
    have := w.nodup
    grind
  cases rest <;> simp [parse, hescape]

/-- **What has been escaped is read as letters.** -/
theorem parse_escapeAll (q rest : List α) :
    w.parse (w.escapeAll q ++ rest) = (w.parse rest).map (q.map .literal ++ ·) := by
  induction q with
  | nil => simp [escapeAll]
  | cons a q ih =>
      rw [escapeAll, List.flatMap_cons, List.append_assoc, ← escapeAll, escapeOne]
      cases hspecial : w.isSpecial a with
      | true =>
          rw [if_pos rfl, List.cons_append, List.singleton_append, parse_escape, ih, Option.map_map]
          rfl
      | false =>
          rw [if_neg Bool.false_ne_true, List.singleton_append, parse_plain w hspecial, ih,
            Option.map_map]
          rfl

/-- The pattern for the texts that contain `q`. -/
def containing (q : List α) : List α := w.many :: (w.escapeAll q ++ [w.many])

theorem parse_containing (q : List α) :
    w.parse (w.containing q) = some (.many :: (q.map .literal ++ [.many])) := by
  have hlast : w.parse [w.many] = some [.many] := parse_many w []
  rw [containing, parse_many, parse_escapeAll, hlast]
  rfl

/-- **An escaped text between wildcards** matches the texts it occurs in. -/
theorem like_containing (q text : List α) : w.like (w.containing q) text = some true ↔ q <:+: text := by
  rw [like, parse_containing, Option.map_some, Option.some_inj, isMatch_iff, matches_between]

/-! ## Ignoring case -/

/-- A case folding, letter by letter, which does not touch the letters with
a meaning and yields none. -/
structure Folding where
  fold : α → List α
  fixes : ∀ a, w.isSpecial a = true → fold a = [a]
  avoids : ∀ a, w.isSpecial a = false → ∀ b ∈ fold a, w.isSpecial b = false

variable {w}

def Folding.text (F : w.Folding) (s : List α) : List α := s.flatMap F.fold

/-- `text ILIKE pattern ESCAPE escape`. -/
def Folding.ilike (F : w.Folding) (pattern text : List α) : Option Bool :=
  w.like (F.text pattern) (F.text text)

theorem escapeAll_append (p q : List α) :
    w.escapeAll (p ++ q) = w.escapeAll p ++ w.escapeAll q := List.flatMap_append

theorem escapeAll_of_plain {q : List α} (h : ∀ b ∈ q, w.isSpecial b = false) :
    w.escapeAll q = q := by
  induction q with
  | nil => rfl
  | cons b q ih =>
      obtain ⟨hb, hq⟩ := List.forall_mem_cons.mp h
      rw [escapeAll, List.flatMap_cons, ← escapeAll, ih hq, escapeOne, hb]
      rfl

/-- Folding and escaping commute. -/
theorem Folding.text_escapeAll (F : w.Folding) (q : List α) :
    F.text (w.escapeAll q) = w.escapeAll (F.text q) := by
  induction q with
  | nil => rfl
  | cons a q ih =>
      have hcons : F.text (w.escapeAll (a :: q)) = F.text (w.escapeOne a) ++ F.text (w.escapeAll q) :=
        List.flatMap_append
      have hfold : F.text (a :: q) = F.fold a ++ F.text q := rfl
      have hone : F.text (w.escapeOne a) = w.escapeAll (F.fold a) := by
        have hescape : F.fold w.escape = [w.escape] := F.fixes _ (by simp [isSpecial])
        cases hspecial : w.isSpecial a with
        | true => simp [Folding.text, escapeOne, escapeAll, hspecial, F.fixes a hspecial, hescape]
        | false =>
            rw [escapeAll_of_plain (F.avoids a hspecial), escapeOne, hspecial]
            exact List.append_nil _
      rw [hcons, ih, hfold, escapeAll_append, hone]

/-- **The same when case is ignored**, of the folded texts. -/
theorem Folding.ilike_containing (F : w.Folding) (q text : List α) :
    F.ilike (w.containing q) text = some true ↔ F.text q <:+: F.text text := by
  have hmany : F.fold w.many = [w.many] := F.fixes _ (by simp [isSpecial])
  have hpattern : F.text (w.containing q) = w.containing (F.text q) := by
    have hsplit : F.text (w.containing q) =
        F.fold w.many ++ (F.text (w.escapeAll q) ++ F.text [w.many]) := by
      simp [Folding.text, containing]
    rw [hsplit, F.text_escapeAll, hmany]
    simp [Folding.text, containing, hmany]
  rw [ilike, hpattern, like_containing]

end

end Wildcards

end ThreatIntel
