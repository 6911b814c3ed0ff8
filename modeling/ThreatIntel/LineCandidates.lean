import Mathlib.Algebra.BigOperators.Group.Multiset.Basic
import ThreatIntel.WhiteSpace

/-!
# Lines and candidates

No pattern reads a newline, and `\b` takes it for the end of the text. So
each of the passes over a document is the pass over its lines, and what it
leaves for the next one falls into the same lines. In which order the
candidates come out is another matter: pattern by pattern, not line by
line. What holds of them is an equation of multisets.
-/

namespace ThreatIntel

namespace Extract

open PyStr Regex

section Newline

variable {U : Unicode}

/-- A newline is white space whatever the Unicode database says. -/
theorem local_newline (pattern : Pattern) : (pattern.re U).Local (· = '\n') := by
  refine local_of_guarded (guarded_re ?_ pattern) ?_
  · rintro s rfl
    rfl
  · rintro s rfl
    cases pattern <;> rfl

theorem pieces_newline (pattern : Pattern) (a b : PyStr) :
    (pattern.re U).pieces (a ++ '\n' :: b) =
      (pattern.re U).pieces a ++ .kept '\n' :: (pattern.re U).pieces b :=
  pieces_append_separator (local_newline pattern) rfl a b

/-- What a pattern yields of the pieces it has cut a text into. -/
def claimed (pattern : Pattern) (pieces : List (Piece Char)) : List PyStr :=
  let values := (pieces.filterMap Piece.text?).map (rstripChars trailing)
  if pattern = .domain then values.filter plausibleDomain else values

theorem candidates_cons (pattern : Pattern) (patterns : List Pattern) (remaining : PyStr) :
    candidates U (pattern :: patterns) remaining =
      claimed pattern ((pattern.re U).pieces remaining) ++
        candidates U patterns (blanked ((pattern.re U).pieces remaining)) := rfl

theorem claimed_append (pattern : Pattern) (ps qs : List (Piece Char)) :
    claimed pattern (ps ++ qs) = claimed pattern ps ++ claimed pattern qs := by
  unfold claimed
  split <;> simp

theorem claimed_kept (pattern : Pattern) (c : Char) (ps : List (Piece Char)) :
    claimed pattern (.kept c :: ps) = claimed pattern ps := rfl

/-- **Candidates are a matter of lines.** By induction on the passes, for
all texts: each pass is the pass over the two parts, and the texts it
leaves are again two parts with a newline in between. -/
theorem candidates_append_newline (U : Unicode) (patterns : List Pattern) (a b : PyStr) :
    (candidates U patterns (a ++ '\n' :: b) : Multiset PyStr) =
      candidates U patterns a + candidates U patterns b := by
  induction patterns generalizing a b with
  | nil => rfl
  | cons pattern patterns ih =>
      have hrest : blanked ((pattern.re U).pieces a ++ .kept '\n' :: (pattern.re U).pieces b) =
          blanked ((pattern.re U).pieces a) ++ '\n' :: blanked ((pattern.re U).pieces b) := by
        rw [blanked_append]
        rfl
      simp only [candidates_cons, pieces_newline, claimed_append, claimed_kept, hrest,
        ← Multiset.coe_add, ih]
      exact add_add_add_comm _ _ _ _

end Newline

/-- **Harvesting is line-local**: of a text and a text on the lines behind
it, the eight passes yield what they yield of each. -/
theorem harvest_line_local (U : Unicode) (a b : PyStr) :
    (candidates U patterns (a ++ ['\n'] ++ b) : Multiset PyStr) =
      candidates U patterns a + candidates U patterns b := by
  rw [List.append_assoc, List.singleton_append]
  exact candidates_append_newline U patterns a b

end Extract

end ThreatIntel
