import Mathlib.Data.List.Chain
import Mathlib.Data.List.Nodup
import Mathlib.Data.List.Perm.Subperm
import ThreatIntel.Extract
import ThreatIntel.RegexScan

/-!
# The spans of the candidates

Each pattern scans what the patterns before it have left of the text, with
a blank in the place of everything they claimed. To follow a match back to
the document, the characters are marked with their places in it; a blank
has none.

Two things hold of every text on the way: marked characters that stand next
to each other stand next to each other in the document, and no place occurs
twice, not even among the matches made so far. No pattern reads a blank, so
a match is a stretch of the document.
-/

namespace ThreatIntel

namespace Extract

open Regex (Piece)

/-! ## Matches -/

/-- Every match of the patterns, with the pattern it is a match of. -/
def matched (U : Unicode) : List Pattern → PyStr → List (Pattern × PyStr)
  | [], _ => []
  | pattern :: patterns, remaining =>
      let pieces := (pattern.re U).pieces remaining
      (pieces.filterMap Piece.text?).map (pattern, ·) ++ matched U patterns (blanked pieces)

/-- The candidate a match offers, if it offers one. -/
def candidateOf : Pattern × PyStr → Option PyStr
  | (pattern, found) =>
      let value := PyStr.rstripChars trailing found
      if pattern = .domain ∧ plausibleDomain value = false then none else some value

theorem candidates_eq (U : Unicode) (patterns : List Pattern) (text : PyStr) :
    candidates U patterns text = (matched U patterns text).filterMap candidateOf := by
  induction patterns generalizing text with
  | nil => rfl
  | cons pattern patterns ih =>
      rw [candidates, matched, List.filterMap_append, ← ih]
      congr 1
      rw [List.filterMap_map]
      generalize ((pattern.re U).pieces text).filterMap Piece.text? = found
      by_cases hdomain : pattern = .domain
      · subst hdomain
        rw [if_pos rfl, ← List.filterMap_eq_filter, List.filterMap_map]
        refine List.filterMap_congr fun value _ => ?_
        cases hplausible : plausibleDomain (PyStr.rstripChars trailing value) <;>
          simp [candidateOf, hplausible]
      · rw [if_neg hdomain, ← List.filterMap_eq_map]
        refine List.filterMap_congr fun value _ => ?_
        simp [candidateOf, hdomain]

/-- A candidate is the match without its tail. -/
theorem prefix_of_candidateOf {m : Pattern × PyStr} {value : PyStr}
    (h : candidateOf m = some value) : value <+: m.2 := by
  simp only [candidateOf] at h
  split at h
  · cases h
  · cases h
    exact List.rdropWhile_prefix _ _

/-! ## Marked characters -/

/-- A character and its place in the document, or a blank. -/
abbrev Mark := Option (Nat × Char)

def Mark.char : Mark → Char
  | none => ' '
  | some (_, c) => c

/-- The document, every character marked with its place. -/
def marks (text : PyStr) : List Mark := text.zipIdx.map fun ci => some (ci.2, ci.1)

/-- The places that occur in a marked text. -/
def places (marked : List Mark) : List Nat := marked.filterMap (Option.map Prod.fst)

/-- What a scan leaves for the next one, as `blanked`. -/
def blankedMarks : List (Piece Mark) → List Mark
  | [] => []
  | .kept m :: pieces => m :: blankedMarks pieces
  | .found _ :: pieces => none :: blankedMarks pieces

/-- The matches of the patterns on a marked text. -/
def matchedMarks (U : Unicode) : List Pattern → List Mark → List (List Mark)
  | [], _ => []
  | pattern :: patterns, marked =>
      let pieces := ((pattern.re U).comap Mark.char).pieces marked
      pieces.filterMap Piece.text? ++ matchedMarks U patterns (blankedMarks pieces)

theorem map_char_marks (text : PyStr) : (marks text).map Mark.char = text := by
  rw [marks, List.map_map]
  exact List.zipIdx_map_fst 0 text

theorem blanked_map (pieces : List (Piece Mark)) :
    blanked (pieces.map (Piece.map Mark.char)) = (blankedMarks pieces).map Mark.char := by
  induction pieces with
  | nil => rfl
  | cons piece pieces ih => cases piece <;> simp [blanked, blankedMarks, Piece.map, Mark.char, ih]

theorem text?_map (pieces : List (Piece Mark)) :
    (pieces.map (Piece.map Mark.char)).filterMap Piece.text? =
      (pieces.filterMap Piece.text?).map (List.map Mark.char) := by
  induction pieces with
  | nil => rfl
  | cons piece pieces ih => cases piece <;> simp [List.filterMap_cons, Piece.map, Piece.text?, ih]

/-- The marks do not change what is found. -/
theorem matched_eq (U : Unicode) (patterns : List Pattern) (marked : List Mark) :
    (matched U patterns (marked.map Mark.char)).map Prod.snd =
      (matchedMarks U patterns marked).map (List.map Mark.char) := by
  induction patterns generalizing marked with
  | nil => rfl
  | cons pattern patterns ih =>
      simp only [matched, matchedMarks, Regex.pieces_comap, List.map_append, List.map_map,
        blanked_map, ih, text?_map]
      rfl

/-! ## What stands next to each other -/

/-- The second place is behind the first; a blank may stand anywhere. -/
def Adjoin : Mark → Mark → Prop
  | some (i, _), some (j, _) => j = i + 1
  | _, _ => True

/-- A marked text that was read off the document, up to blanks. -/
structure Faithful (text : PyStr) (marked : List Mark) : Prop where
  chars : ∀ i c, some (i, c) ∈ marked → text[i]? = some c
  adjoin : marked.IsChain Adjoin

theorem places_marks (text : PyStr) : places (marks text) = List.range text.length := by
  have hplaces : places (marks text) = text.zipIdx.map Prod.snd := by
    rw [places, marks, List.filterMap_map, ← List.filterMap_eq_map]
    rfl
  rw [hplaces, List.zipIdx_map_snd, List.range_eq_range']

theorem faithful_marks (text : PyStr) : Faithful text (marks text) where
  chars := by
    intro i c h
    obtain ⟨⟨d, j⟩, hmem, heq⟩ := List.mem_map.mp h
    obtain ⟨rfl, rfl⟩ : j = i ∧ d = c := by simpa using heq
    exact List.mem_zipIdx_iff_getElem?.mp hmem
  adjoin := by
    rw [List.isChain_iff_getElem]
    intro i h
    simp [marks, Adjoin]

/-- Blanking does not bring places together. -/
theorem adjoin_blankedMarks {pieces : List (Piece Mark)}
    (h : (pieces.flatMap Piece.span).IsChain Adjoin) : (blankedMarks pieces).IsChain Adjoin := by
  induction pieces with
  | nil => exact List.isChain_nil
  | cons piece pieces ih =>
      rw [List.flatMap_cons] at h
      have hrest := ih (h.right_of_append)
      cases piece with
      | found w =>
          rw [blankedMarks, List.isChain_cons]
          exact ⟨fun _ _ => trivial, hrest⟩
      | kept m =>
          rw [blankedMarks, List.isChain_cons]
          refine ⟨fun n hn => ?_, hrest⟩
          cases pieces with
          | nil => simp [blankedMarks] at hn
          | cons piece pieces =>
              cases piece with
              | found w =>
                  obtain rfl : none = n := by simpa [blankedMarks] using hn
                  cases m <;> trivial
              | kept m' =>
                  obtain rfl : m' = n := by simpa [blankedMarks] using hn
                  simp only [Piece.span, List.flatMap_cons, List.singleton_append,
                    List.isChain_cons_cons] at h
                  exact h.1

theorem mem_blankedMarks {pieces : List (Piece Mark)} {x : Nat × Char}
    (h : some x ∈ blankedMarks pieces) : some x ∈ pieces.flatMap Piece.span := by
  induction pieces with
  | nil => exact absurd h List.not_mem_nil
  | cons piece pieces ih =>
      rw [List.flatMap_cons]
      cases piece with
      | found w =>
          have h : some x ∈ blankedMarks pieces := by simpa [blankedMarks] using h
          exact List.mem_append_right _ (ih h)
      | kept m =>
          rcases List.mem_cons.mp h with rfl | h
          · exact List.mem_append_left _ (List.mem_singleton_self _)
          · exact List.mem_append_right _ (ih h)

theorem Faithful.blankedMarks {text : PyStr} {pieces : List (Piece Mark)}
    (h : Faithful text (pieces.flatMap Piece.span)) : Faithful text (blankedMarks pieces) where
  chars i c hmem := h.chars i c (mem_blankedMarks hmem)
  adjoin := adjoin_blankedMarks h.adjoin

theorem Faithful.restrict {text : PyStr} {marked w : List Mark} (h : Faithful text marked)
    (hw : w <:+: marked) : Faithful text w where
  chars i c hmem := h.chars i c (hw.subset hmem)
  adjoin := List.IsChain.infix h.adjoin hw

/-! ## Places are used once -/

/-- A scan distributes the places of its text over what it finds and what
it leaves. -/
theorem places_perm (pieces : List (Piece Mark)) :
    ((pieces.filterMap Piece.text?).flatMap places ++ places (blankedMarks pieces)).Perm
      (places (pieces.flatMap Piece.span)) := by
  induction pieces with
  | nil => exact .refl _
  | cons piece pieces ih =>
      have happend : ∀ v w : List Mark, places (v ++ w) = places v ++ places w := fun v w =>
        List.filterMap_append
      rw [List.flatMap_cons, happend]
      cases piece with
      | found w =>
          simpa [List.filterMap_cons, Piece.text?, Piece.span, blankedMarks, places] using ih.append_left (places w)
      | kept m =>
          have hcons : places (blankedMarks (.kept m :: pieces)) =
              places [m] ++ places (blankedMarks pieces) := happend [m] (blankedMarks pieces)
          have hperm := (List.perm_append_comm_assoc ((pieces.filterMap Piece.text?).flatMap places)
            (places [m]) (places (blankedMarks pieces))).trans (ih.append_left (places [m]))
          simpa [List.filterMap_cons, Piece.text?, Piece.span, hcons] using hperm

/-- The matches of all patterns take places of the text, each once. -/
theorem places_matchedMarks (U : Unicode) (patterns : List Pattern) (marked : List Mark) :
    List.Subperm ((matchedMarks U patterns marked).flatMap places) (places marked) := by
  induction patterns generalizing marked with
  | nil => exact List.nil_subperm
  | cons pattern patterns ih =>
      have hspan := Regex.span_pieces ((pattern.re U).comap Mark.char) marked
      have hperm := places_perm (((pattern.re U).comap Mark.char).pieces marked)
      rw [hspan] at hperm
      rw [matchedMarks, List.flatMap_append]
      exact (List.subperm_append_left _ |>.mpr (ih _)).trans hperm.subperm

/-! ## A match is a stretch of the document -/

theorem reads_blank (U : Unicode) (pattern : Pattern) : (pattern.re U).reads ' ' = false := by
  cases pattern <;> rfl

/-- What a pattern finds in a marked text: no blanks, and everything next to
each other. -/
theorem matchedMarks_spec {U : Unicode} {text : PyStr} {patterns : List Pattern}
    {marked : List Mark} (h : Faithful text marked) {w : List Mark}
    (hw : w ∈ matchedMarks U patterns marked) : w ≠ [] ∧ none ∉ w ∧ Faithful text w := by
  induction patterns generalizing marked with
  | nil => exact absurd hw List.not_mem_nil
  | cons pattern patterns ih =>
      rw [← Regex.span_pieces ((pattern.re U).comap Mark.char) marked] at h
      rcases List.mem_append.mp hw with hw | hw
      · obtain ⟨piece, hpiece, htext⟩ := List.mem_filterMap.mp hw
        cases piece with
        | kept m => cases htext
        | found v =>
            obtain rfl : v = w := by simpa [Piece.text?] using htext
            obtain ⟨hne, hreads⟩ := Regex.found_mem_pieces hpiece
            refine ⟨hne, fun hnone => ?_, h.restrict ?_⟩
            · have hread := hreads none hnone
              rw [Regex.reads_comap, Mark.char, reads_blank] at hread
              exact Bool.false_ne_true hread
            · exact List.infix_of_mem_flatten (List.mem_map.mpr ⟨.found v, hpiece, rfl⟩)
      · exact ih h.blankedMarks hw

/-- Marks without blanks that adjoin are a stretch of the document. -/
theorem stretch_of_faithful {text : PyStr} {w : List Mark} (hne : w ≠ []) (hsome : none ∉ w)
    (h : Faithful text w) :
    ∃ start, start + w.length ≤ text.length ∧
      w.map Mark.char = (text.drop start).take w.length ∧
      places w = List.range' start w.length := by
  induction w with
  | nil => exact absurd rfl hne
  | cons m w ih =>
      obtain ⟨⟨i, c⟩, rfl⟩ : ∃ x, m = some x :=
        Option.ne_none_iff_exists'.mp fun hm => hsome (hm ▸ List.mem_cons_self)
      have hc : text[i]? = some c := h.chars i c List.mem_cons_self
      obtain ⟨hi, hget⟩ := List.getElem?_eq_some_iff.mp hc
      cases w with
      | nil =>
          refine ⟨i, hi, ?_, rfl⟩
          rw [List.drop_eq_getElem_cons hi, hget]
          rfl
      | cons n w =>
          have hrest : none ∉ n :: w := fun hmem => hsome (List.mem_cons_of_mem _ hmem)
          obtain ⟨start, hlen, hchars, hplaces⟩ :=
            ih (List.cons_ne_nil _ _) hrest (h.restrict (List.suffix_cons _ _).isInfix)
          -- the next character is the next one of the document
          obtain ⟨⟨j, d⟩, rfl⟩ : ∃ x, n = some x :=
            Option.ne_none_iff_exists'.mp fun hn => hrest (hn ▸ List.mem_cons_self)
          have hnext : j = i + 1 := (List.isChain_cons_cons.mp h.adjoin).1
          have hstart : j = start := by
            rw [List.length_cons, List.range'_succ] at hplaces
            exact (List.cons.inj hplaces).1
          subst hstart
          subst hnext
          refine ⟨i, by simp only [List.length_cons] at hlen ⊢; omega, ?_, ?_⟩
          · rw [List.map_cons, hchars, List.drop_eq_getElem_cons hi, hget]
            rfl
          · have hcons : places (some (i, c) :: some (i + 1, d) :: w) =
                i :: places (some (i + 1, d) :: w) := rfl
            rw [hcons, hplaces, @List.length_cons _ _ (some (i + 1, d) :: w), List.range'_succ]

/-! ## Disjoint spans -/

/-- A span of the document: where it starts and where it stops. -/
abbrev Span := Nat × Nat

/-- The text of a span. -/
def Span.text (document : PyStr) (span : Span) : PyStr :=
  (document.drop span.1).take (span.2 - span.1)

/-- One of the two stops before the other starts. -/
def Apart (a b : Span) : Prop := a.2 ≤ b.1 ∨ b.2 ≤ a.1

/-- The span of a match. -/
def spanOf (w : List Mark) : Span :=
  ((places w).headD 0, (places w).headD 0 + w.length)

theorem apart_of_disjoint {a n b k : Nat} (hn : 0 < n) (hk : 0 < k)
    (h : List.Disjoint (List.range' a n) (List.range' b k)) : Apart (a, a + n) (b, b + k) := by
  by_contra hmeet
  simp only [Apart, not_or, not_le] at hmeet
  have hleft : max a b ∈ List.range' a n := by
    simp only [List.mem_range'_1]
    omega
  have hright : max a b ∈ List.range' b k := by
    simp only [List.mem_range'_1]
    omega
  exact h hleft hright

/-- The span of what a pattern finds. -/
theorem spanOf_spec {text : PyStr} {w : List Mark} (hne : w ≠ []) (hsome : none ∉ w)
    (h : Faithful text w) :
    (spanOf w).1 < (spanOf w).2 ∧ (spanOf w).2 ≤ text.length ∧
      w.map Mark.char = Span.text text (spanOf w) ∧
      places w = List.range' (spanOf w).1 w.length := by
  obtain ⟨start, hlen, hchars, hplaces⟩ := stretch_of_faithful hne hsome h
  have hpos : 0 < w.length := List.length_pos_of_ne_nil hne
  have hstart : (places w).headD 0 = start := by
    obtain ⟨n, hn⟩ : ∃ n, w.length = n + 1 := Nat.exists_eq_add_one.mpr hpos
    rw [hplaces, hn, List.range'_succ]
    rfl
  simp only [spanOf, Span.text, hstart, Nat.add_sub_cancel_left]
  exact ⟨by omega, hlen, hchars, hplaces⟩

/-- No place of the document is in two matches. -/
theorem nodup_places_matchedMarks (U : Unicode) (patterns : List Pattern) (text : PyStr) :
    ((matchedMarks U patterns (marks text)).flatMap places).Nodup := by
  obtain ⟨l, hperm, hsub⟩ := places_matchedMarks U patterns (marks text)
  rw [places_marks] at hsub
  exact hperm.nodup_iff.mp (hsub.nodup List.nodup_range)

/-- Every match of the eight patterns is the text of a span of its own, the
spans are pairwise disjoint, and a candidate is a match without its tail. -/
theorem candidates_from_disjoint_spans (U : Unicode) (text : PyStr) :
    (∃ spans : List Span,
      (matched U patterns text).map Prod.snd = spans.map (Span.text text) ∧
      (∀ span ∈ spans, span.1 < span.2 ∧ span.2 ≤ text.length) ∧
      spans.Pairwise Apart) ∧
    candidates U patterns text = (matched U patterns text).filterMap candidateOf ∧
    ∀ m ∈ matched U patterns text, ∀ value ∈ candidateOf m, value <+: m.2 := by
  refine ⟨?_, candidates_eq U patterns text, fun m _ value h => prefix_of_candidateOf h⟩
  have hspec : ∀ w ∈ matchedMarks U patterns (marks text), w ≠ [] ∧ none ∉ w ∧ Faithful text w :=
    fun w hw => matchedMarks_spec (faithful_marks text) hw
  have hspan : ∀ w ∈ matchedMarks U patterns (marks text), _ := fun w hw =>
    spanOf_spec (hspec w hw).1 (hspec w hw).2.1 (hspec w hw).2.2
  refine ⟨(matchedMarks U patterns (marks text)).map spanOf, ?_, ?_, ?_⟩
  · have hmatched := matched_eq U patterns (marks text)
    rw [map_char_marks] at hmatched
    rw [hmatched, List.map_map]
    exact List.map_congr_left fun w hw => (hspan w hw).2.2.1
  · intro span hmem
    obtain ⟨w, hw, rfl⟩ := List.mem_map.mp hmem
    exact ⟨(hspan w hw).1, (hspan w hw).2.1⟩
  · have hnodup := nodup_places_matchedMarks U patterns text
    rw [List.pairwise_map]
    refine (List.nodup_flatMap.mp hnodup).2.imp_of_mem fun {v w} hv hw hdisjoint => ?_
    have hdisjoint : List.Disjoint (places v) (places w) := hdisjoint
    rw [(hspan v hv).2.2.2, (hspan w hw).2.2.2] at hdisjoint
    exact apart_of_disjoint (List.length_pos_of_ne_nil (hspec v hv).1)
      (List.length_pos_of_ne_nil (hspec w hw).1) hdisjoint

end Extract

end ThreatIntel
