import ThreatIntel.Regex

/-!
# Scanning with an expression

The pieces of a scan put together are the text, and what is found is a
stretch of it over the alphabet of the expression. An expression can also
be run on a text whose characters carry more than the expression looks at
(`comap`): it finds the same, so whatever is attached to the characters
can be followed through a scan.
-/

namespace ThreatIntel

namespace Regex

variable {α β : Type*}

/-! ## The pieces of a text -/

/-- The stretch of the text that a piece stands for. -/
def Piece.span : Piece α → List α
  | kept c => [c]
  | found w => w

/-- What is found comes next in the text, and is over the alphabet. -/
theorem prefix_of_match? {r : Regex α} {before after w : List α}
    (h : r.match? before after = some w) :
    (∃ rest, after = w ++ rest) ∧ ∀ x ∈ w, r.reads x = true := by
  rw [match?, Option.map_eq_some_iff] at h
  obtain ⟨c, hc, rfl⟩ := h
  obtain ⟨w, hpast, hreads⟩ := reads_ends r _ c (List.mem_of_head? hc)
  have hafter : after = w ++ c.after := hpast.1
  have htake : after.take (after.length - c.after.length) = w := by
    simp [hafter]
  rw [htake]
  exact ⟨⟨_, hafter⟩, hreads⟩

theorem span_piecesFrom (r : Regex α) (k : Nat) (before after : List α) :
    (r.piecesFrom k before after).flatMap Piece.span = after.drop k := by
  induction after generalizing k before with
  | nil => cases k <;> simp [piecesFrom]
  | cons c after ih =>
      cases k with
      | succ k => simpa [piecesFrom] using ih k (c :: before)
      | zero =>
          rw [piecesFrom]
          split
          · next m w hmatch =>
              obtain ⟨⟨rest, hrest⟩, -⟩ := prefix_of_match? hmatch
              obtain ⟨rfl, rfl⟩ : c = m ∧ after = w ++ rest := by simpa using hrest
              rw [List.flatMap_cons, ih]
              simp [Piece.span]
          · rw [List.flatMap_cons, ih]
            rfl

/-- The pieces put together are the text. -/
theorem span_pieces (r : Regex α) (text : List α) :
    (r.pieces text).flatMap Piece.span = text :=
  span_piecesFrom r 0 [] text

theorem found_mem_piecesFrom {r : Regex α} {k : Nat} {before after w : List α}
    (h : .found w ∈ r.piecesFrom k before after) : w ≠ [] ∧ ∀ x ∈ w, r.reads x = true := by
  induction after generalizing k before with
  | nil => cases k <;> simp [piecesFrom] at h
  | cons c after ih =>
      cases k with
      | succ k => exact ih h
      | zero =>
          rw [piecesFrom] at h
          split at h
          · next m v hmatch =>
              rcases List.mem_cons.mp h with heq | h
              · obtain rfl := Piece.found.inj heq
                exact ⟨List.cons_ne_nil m v, (prefix_of_match? hmatch).2⟩
              · exact ih h
          · rcases List.mem_cons.mp h with heq | h
            · cases heq
            · exact ih h

theorem found_mem_pieces {r : Regex α} {text w : List α} (h : .found w ∈ r.pieces text) :
    w ≠ [] ∧ ∀ x ∈ w, r.reads x = true :=
  found_mem_piecesFrom h

/-! ## Characters that carry more -/

/-- The expression on a text whose characters are looked at through `f`. -/
def comap (f : β → α) : Regex α → Regex β
  | cls p => cls fun x => p (f x)
  | seq r s => seq (r.comap f) (s.comap f)
  | alt r s => alt (r.comap f) (s.comap f)
  | rep lo hi r => rep lo hi (r.comap f)
  | assert p => assert fun before after => p (before.map f) (after.map f)
  | look positive r => look positive (r.comap f)

def Cursor.through (f : β → α) (c : Cursor β) : Cursor α := ⟨c.before.map f, c.after.map f⟩

def Piece.map (f : β → α) : Piece β → Piece α
  | kept c => kept (f c)
  | found w => found (w.map f)

theorem reads_comap (f : β → α) (r : Regex α) (x : β) : (r.comap f).reads x = r.reads (f x) := by
  induction r with
  | cls p => rfl
  | seq r s ihr ihs => simp only [comap, reads, ihr, ihs]
  | alt r s ihr ihs => simp only [comap, reads, ihr, ihs]
  | rep lo hi r ih => simp only [comap, reads, ih]
  | assert p => rfl
  | look positive r => rfl

section Through

variable {f : β → α} {step : Cursor β → List (Cursor β)} {step' : Cursor α → List (Cursor α)}

theorem exactly_through (h : ∀ c, step' (c.through f) = (step c).map (Cursor.through f)) (n : Nat)
    (c : Cursor β) : exactly step' n (c.through f) = (exactly step n c).map (Cursor.through f) := by
  induction n generalizing c with
  | zero => rfl
  | succ n ih => simp only [exactly, h, List.flatMap_map, List.map_flatMap, ih]

theorem upTo_through (h : ∀ c, step' (c.through f) = (step c).map (Cursor.through f)) (n : Nat)
    (c : Cursor β) : upTo step' n (c.through f) = (upTo step n c).map (Cursor.through f) := by
  induction n generalizing c with
  | zero => rfl
  | succ n ih =>
      simp only [upTo, h, List.flatMap_map, List.map_append, List.map_flatMap, ih, List.map_cons,
        List.map_nil]

end Through

variable (f : β → α)

theorem ends_comap (r : Regex α) (c : Cursor β) :
    r.ends (c.through f) = ((r.comap f).ends c).map (Cursor.through f) := by
  induction r generalizing c with
  | cls p =>
      obtain ⟨before, after⟩ := c
      cases after with
      | nil => rfl
      | cons x rest => by_cases hp : p (f x) = true <;> simp [comap, ends, Cursor.through, hp]
  | seq r s ihr ihs => simp only [comap, ends, ihr, List.flatMap_map, List.map_flatMap, ihs]
  | alt r s ihr ihs => simp only [comap, ends, ihr, ihs, List.map_append]
  | rep lo hi r ih =>
      have hlen : ∀ c' : Cursor β, (c'.through f).after.length = c'.after.length := fun c' => by
        simp [Cursor.through]
      simp only [comap, ends, exactly_through ih, List.flatMap_map, List.map_flatMap, hlen,
        upTo_through ih]
  | assert p =>
      by_cases hp : p (c.before.map f) (c.after.map f) = true <;>
        simp [comap, ends, Cursor.through, hp]
  | look positive r ih =>
      simp only [comap, ends, ih, List.isEmpty_map]
      split <;> rfl

theorem match?_comap (r : Regex α) (before after : List β) :
    r.match? (before.map f) (after.map f) =
      ((r.comap f).match? before after).map (List.map f) := by
  have hends := ends_comap f r ⟨before, after⟩
  simp only [Cursor.through] at hends
  rw [match?, match?, hends, List.head?_map, Option.map_map, Option.map_map]
  congr 1
  funext c
  simp [Cursor.through, List.map_take]

theorem piecesFrom_comap (r : Regex α) (k : Nat) (before after : List β) :
    r.piecesFrom k (before.map f) (after.map f) =
      ((r.comap f).piecesFrom k before after).map (Piece.map f) := by
  induction after generalizing k before with
  | nil => cases k <;> simp [piecesFrom]
  | cons c after ih =>
      cases k with
      | succ k => simpa [piecesFrom] using ih k (c :: before)
      | zero =>
          have hmatch := match?_comap f r before (c :: after)
          have ih' := fun k => ih k (c :: before)
          simp only [List.map_cons] at hmatch ih' ⊢
          rw [piecesFrom, piecesFrom, hmatch]
          cases (r.comap f).match? before (c :: after) with
          | none => simp [Piece.map, ih']
          | some w => cases w <;> simp [Piece.map, ih']

/-- The scan finds the same, and the characters keep what they carry. -/
theorem pieces_comap (r : Regex α) (text : List β) :
    r.pieces (text.map f) = ((r.comap f).pieces text).map (Piece.map f) :=
  piecesFrom_comap f r 0 [] text

end Regex

end ThreatIntel
