import Mathlib.Data.List.Basic
import ThreatIntel.RegexScan

/-!
# Scanning between separators

A separator is a character that no class of the expression reads and that
its assertions do not see past (`Local`): `\b` at a separator is `\b` at
the end of the text. Such an expression cannot tell the stretch between two
separators from a text of its own (`ends_within`), so the scan of a text
with separators in it is the scan of its stretches (`pieces_append_separator`).
-/

namespace ThreatIntel

namespace Regex

variable {α : Type*} {sep : α → Prop}

/-- Nothing, or a text that begins with a separator. -/
def Fenced (sep : α → Prop) (l : List α) : Prop := ∀ x, l.head? = some x → sep x

theorem fenced_nil : Fenced sep [] := by
  simp [Fenced]

theorem fenced_cons {s : α} (hs : sep s) (l : List α) : Fenced sep (s :: l) := by
  intro x hx
  obtain rfl : s = x := by simpa using hx
  exact hs

/-- No class reads a separator, and no assertion sees past one. A repetition
without an upper bound reads something each time. -/
def Local (sep : α → Prop) : Regex α → Prop
  | cls p => ∀ s, sep s → p s = false
  | seq r t => r.Local sep ∧ t.Local sep
  | alt r t => r.Local sep ∧ t.Local sep
  | rep _ hi r => r.Local sep ∧ (hi = none → r.Forces fun _ => True)
  | assert p => ∀ before after B A, Fenced sep B → Fenced sep A →
      p (before ++ B) (after ++ A) = p before after
  | look _ r => r.Local sep

theorem Local.reads {r : Regex α} (h : r.Local sep) {s : α} (hs : sep s) : r.reads s = false := by
  induction r with
  | cls p => exact h s hs
  | seq r t ihr iht => simp [Regex.reads, ihr h.1, iht h.2]
  | alt r t ihr iht => simp [Regex.reads, ihr h.1, iht h.2]
  | rep lo hi r ih => exact ih h.1
  | assert p => rfl
  | look positive r ih => rfl

/-- As `Local`, with nothing said about the classes. -/
def Guarded (sep : α → Prop) : Regex α → Prop
  | cls _ => True
  | seq r t => r.Guarded sep ∧ t.Guarded sep
  | alt r t => r.Guarded sep ∧ t.Guarded sep
  | rep _ hi r => r.Guarded sep ∧ (hi = none → r.Forces fun _ => True)
  | assert p => (assert p).Local sep
  | look positive r => (look positive r).Local sep

theorem local_of_guarded {r : Regex α} (h : r.Guarded sep)
    (hreads : ∀ s, sep s → r.reads s = false) : r.Local sep := by
  induction r with
  | cls p => exact hreads
  | seq r t ihr iht =>
      refine ⟨ihr h.1 fun s hs => ?_, iht h.2 fun s hs => ?_⟩
      · exact (Bool.or_eq_false_iff.mp (hreads s hs)).1
      · exact (Bool.or_eq_false_iff.mp (hreads s hs)).2
  | alt r t ihr iht =>
      refine ⟨ihr h.1 fun s hs => ?_, iht h.2 fun s hs => ?_⟩
      · exact (Bool.or_eq_false_iff.mp (hreads s hs)).1
      · exact (Bool.or_eq_false_iff.mp (hreads s hs)).2
  | rep lo hi r ih => exact ⟨ih h.1 hreads, h.2⟩
  | assert p => exact h
  | look positive r ih => exact h

/-! ## Fuel -/

/-- A repetition whose body reads something never needs more rounds than
there are characters. -/
theorem upTo_eq_of_length {step : Cursor α → List (Cursor α)}
    (hstep : ∀ c, ∀ c' ∈ step c, c'.after.length < c.after.length) {n m : Nat} {c : Cursor α}
    (hn : c.after.length ≤ n) (hm : c.after.length ≤ m) : upTo step n c = upTo step m c := by
  have hstuck : c.after.length = 0 → step c = [] := fun hzero =>
    List.eq_nil_iff_forall_not_mem.mpr fun c' hc' => by
      have := hstep c c' hc'
      omega
  induction n generalizing m c with
  | zero => rw [upTo_stuck (hstuck (by omega)), upTo_stuck (hstuck (by omega))]
  | succ n ih =>
      cases m with
      | zero => rw [upTo_stuck (hstuck (by omega)), upTo_stuck (hstuck (by omega))]
      | succ m =>
          rw [upTo, upTo]
          congr 1
          refine List.flatMap_congr fun c' hc' => ?_
          have hlt := hstep c c' hc'
          refine ih (by omega) (by omega) fun hzero => ?_
          exact List.eq_nil_iff_forall_not_mem.mpr fun c'' hc'' => by
            have := hstep c' c'' hc''
            omega

theorem length_lt_of_forces {r : Regex α} (h : r.Forces fun _ => True) (c : Cursor α) :
    ∀ c' ∈ r.ends c, c'.after.length < c.after.length := by
  intro c' hc'
  obtain ⟨w, ⟨hafter, -⟩, x, hx, -⟩ := exists_of_forces h hc'
  have hpos : 0 < w.length := List.length_pos_of_mem hx
  rw [hafter, List.length_append]
  omega

/-! ## A stretch between separators -/

/-- The place in a longer text, with `B` before the stretch and `A` behind
it. -/
def Cursor.within (B A : List α) (c : Cursor α) : Cursor α := ⟨c.before ++ B, c.after ++ A⟩

section Within

variable {B A : List α} {step : Cursor α → List (Cursor α)}

theorem exactly_within (h : ∀ c, step (c.within B A) = (step c).map (Cursor.within B A)) (n : Nat)
    (c : Cursor α) : exactly step n (c.within B A) = (exactly step n c).map (Cursor.within B A) := by
  induction n generalizing c with
  | zero => rfl
  | succ n ih => simp only [exactly, h, List.flatMap_map, List.map_flatMap, ih]

theorem upTo_within (h : ∀ c, step (c.within B A) = (step c).map (Cursor.within B A)) (n : Nat)
    (c : Cursor α) : upTo step n (c.within B A) = (upTo step n c).map (Cursor.within B A) := by
  induction n generalizing c with
  | zero => rfl
  | succ n ih =>
      simp only [upTo, h, List.flatMap_map, List.map_append, List.map_flatMap, ih, List.map_cons,
        List.map_nil]

/-- **A local expression does not see out of the stretch.** -/
theorem ends_within {r : Regex α} (hr : r.Local sep) (hB : Fenced sep B) (hA : Fenced sep A)
    (c : Cursor α) : r.ends (c.within B A) = (r.ends c).map (Cursor.within B A) := by
  induction r generalizing c with
  | cls p =>
      obtain ⟨before, after⟩ := c
      cases after with
      | cons x rest => by_cases hp : p x = true <;> simp [ends, Cursor.within, hp]
      | nil =>
          cases A with
          | nil => rfl
          | cons s A => simp [ends, Cursor.within, hr s (hA s rfl)]
  | seq r t ihr iht =>
      simp only [ends, ihr hr.1, List.flatMap_map, List.map_flatMap, iht hr.2]
  | alt r t ihr iht => simp only [ends, ihr hr.1, iht hr.2, List.map_append]
  | rep lo hi r ih =>
      simp only [ends, exactly_within (ih hr.1), List.flatMap_map, List.map_flatMap]
      refine List.flatMap_congr fun c' _ => ?_
      cases hi with
      | some m => exact upTo_within (ih hr.1) _ c'
      | none =>
          have hlen : c'.after.length ≤ (c'.within B A).after.length := by
            simp [Cursor.within]
          rw [Option.elim_none, Option.elim_none, upTo_within (ih hr.1),
            upTo_eq_of_length (length_lt_of_forces (hr.2 rfl)) hlen (Nat.le_refl _)]
  | assert p =>
      have hp : p (c.before ++ B) (c.after ++ A) = p c.before c.after :=
        hr c.before c.after B A hB hA
      by_cases hc : p c.before c.after = true <;> simp [ends, Cursor.within, hp, hc]
  | look positive r ih =>
      simp only [ends, ih hr, List.isEmpty_map]
      split <;> rfl

theorem match?_within {r : Regex α} (hr : r.Local sep) (hB : Fenced sep B) (hA : Fenced sep A)
    (before after : List α) :
    r.match? (before ++ B) (after ++ A) = r.match? before after := by
  have hends := ends_within hr hB hA ⟨before, after⟩
  simp only [Cursor.within] at hends
  rw [match?, match?, hends, List.head?_map, Option.map_map]
  cases hhead : (r.ends ⟨before, after⟩).head? with
  | none => rfl
  | some c =>
      obtain ⟨w, ⟨hafter, -⟩, -⟩ := reads_ends r _ c (List.mem_of_head? hhead)
      have hlen : after.length + A.length - (c.after.length + A.length) =
          after.length - c.after.length := by omega
      simp only [Option.map_some, Function.comp_apply, Cursor.within, List.length_append, hlen]
      rw [List.take_append_of_le_length (by omega)]

/-- The scan of a stretch and then of what is behind it. -/
theorem piecesFrom_within {r : Regex α} (hr : r.Local sep) (hB : Fenced sep B)
    (hA : Fenced sep A) {k : Nat} (before after : List α) (hk : k ≤ after.length) :
    r.piecesFrom k (before ++ B) (after ++ A) =
      r.piecesFrom k before after ++ r.piecesFrom 0 (after.reverse ++ (before ++ B)) A := by
  induction after generalizing k before with
  | nil =>
      obtain rfl : k = 0 := by simpa using hk
      rfl
  | cons c after ih =>
      have hbehind : (c :: after).reverse ++ (before ++ B) =
          after.reverse ++ ((c :: before) ++ B) := by simp
      rw [hbehind]
      cases k with
      | succ k => exact ih (c :: before) (by simpa using hk)
      | zero =>
          have hmatch := match?_within hr hB hA before (c :: after)
          rw [List.cons_append] at hmatch ⊢
          rw [piecesFrom, piecesFrom, hmatch]
          cases hm : r.match? before (c :: after) with
          | none =>
              simp only
              rw [List.cons_append, ← ih (c :: before) (Nat.zero_le _)]
              rfl
          | some w =>
              cases w with
              | nil =>
                  simp only
                  rw [List.cons_append, ← ih (c :: before) (Nat.zero_le _)]
                  rfl
              | cons m w =>
                  obtain ⟨⟨rest, hrest⟩, -⟩ := prefix_of_match? hm
                  have hlen := congrArg List.length hrest
                  simp only [List.length_append, List.length_cons] at hlen
                  simp only
                  rw [List.cons_append, ← ih (c :: before) (by omega)]
                  rfl

/-- A separator is in no match. -/
theorem piecesFrom_separator {r : Regex α} (hr : r.Local sep) {s : α} (hs : sep s)
    (before after : List α) :
    r.piecesFrom 0 before (s :: after) = .kept s :: r.piecesFrom 0 (s :: before) after := by
  rw [piecesFrom]
  split
  · next m w hm =>
      obtain ⟨⟨rest, hrest⟩, hreads⟩ := prefix_of_match? hm
      obtain rfl : s = m := (List.cons.inj hrest).1
      have hread := hreads s List.mem_cons_self
      rw [hr.reads hs] at hread
      cases hread
  · rfl

end Within

/-- Behind a separator a scan begins anew. -/
theorem piecesFrom_fenced {r : Regex α} (hr : r.Local sep) {B : List α} (hB : Fenced sep B)
    (after : List α) : r.piecesFrom 0 B after = r.pieces after := by
  have h := piecesFrom_within hr hB fenced_nil [] after (Nat.zero_le _)
  simpa [piecesFrom, pieces] using h

/-- **A scan goes stretch by stretch.** -/
theorem pieces_append_separator {r : Regex α} (hr : r.Local sep) {s : α} (hs : sep s)
    (v w : List α) : r.pieces (v ++ s :: w) = r.pieces v ++ .kept s :: r.pieces w := by
  have h := piecesFrom_within hr fenced_nil (fenced_cons hs w) [] v (Nat.zero_le _)
  rw [piecesFrom_separator hr hs, piecesFrom_fenced hr (fenced_cons hs _)] at h
  simpa [pieces] using h

/-- What is found between separators is found in one of the stretches. -/
theorem found_of_intercalate {r : Regex α} {s : α} (hr : r.Local (· = s)) {gs : List (List α)}
    {w : List α} (hw : .found w ∈ r.pieces ([s].intercalate gs)) : ∃ g ∈ gs, .found w ∈ r.pieces g := by
  induction gs with
  | nil => simp [List.intercalate, pieces, piecesFrom] at hw
  | cons g gs ih =>
      cases gs with
      | nil => exact ⟨g, List.mem_cons_self, by simpa [List.intercalate] using hw⟩
      | cons h gs =>
          rw [List.intercalate_cons_cons, List.append_assoc, List.singleton_append,
            pieces_append_separator hr rfl, List.mem_append] at hw
          rcases hw with hw | hw
          · exact ⟨g, List.mem_cons_self, hw⟩
          · obtain ⟨k, hk, hfound⟩ := ih ((List.mem_cons.mp hw).resolve_left (by simp))
            exact ⟨k, List.mem_cons_of_mem g hk, hfound⟩

end Regex

end ThreatIntel
