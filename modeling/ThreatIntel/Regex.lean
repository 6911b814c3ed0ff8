import Mathlib.Data.List.Flatten

/-!
# Backtracking regular expressions

The matcher of Python's `re`, as far as the application's patterns use
it: greedy, first alternative first. `ends` lists the places where a
match that begins at a cursor may end, in the order in which backtracking
tries them, so its head is the match that `re` reports; what follows a
group is tried from each of them in turn.

A zero-width assertion (`^`, `$`, `\b`) is a test of what stands before
and after the cursor.
-/

namespace ThreatIntel

inductive Regex (α : Type*) where
  | cls (p : α → Bool)
  | seq (r s : Regex α)
  | alt (r s : Regex α)
  /-- At least `lo` times, and at most `hi` times if there is an upper bound. -/
  | rep (lo : Nat) (hi : Option Nat) (r : Regex α)
  | assert (p : List α → List α → Bool)
  /-- `(?=..)`, or `(?!..)` if not `positive`. -/
  | look (positive : Bool) (r : Regex α)

namespace Regex

variable {α : Type*}

/-- A place in the text: what stands before it, nearest first, and what
stands after it. -/
@[ext] structure Cursor (α : Type*) where
  before : List α
  after : List α

/-- The cursor behind `w`, if `w` is what comes next. -/
def Cursor.Past (w : List α) (c c' : Cursor α) : Prop :=
  c.after = w ++ c'.after ∧ c'.before = w.reverse ++ c.before

/-- Exactly so many times. -/
def exactly (step : Cursor α → List (Cursor α)) : Nat → Cursor α → List (Cursor α)
  | 0, c => [c]
  | n + 1, c => (step c).flatMap (exactly step n)

/-- So many times or fewer, more before fewer. -/
def upTo (step : Cursor α → List (Cursor α)) : Nat → Cursor α → List (Cursor α)
  | 0, c => [c]
  | n + 1, c => (step c).flatMap (upTo step n) ++ [c]

/-- Where a match of the expression from the cursor may end. A repetition
without an upper bound stops at the latest when the text is used up: its
body never matches the empty text in the patterns it is used for. -/
def ends : Regex α → Cursor α → List (Cursor α)
  | cls p, c =>
      match c.after with
      | [] => []
      | x :: rest => if p x then [⟨x :: c.before, rest⟩] else []
  | seq r s, c => (r.ends c).flatMap s.ends
  | alt r s, c => r.ends c ++ s.ends c
  | rep lo hi r, c =>
      (exactly r.ends lo c).flatMap fun c' => upTo r.ends (hi.elim c'.after.length (· - lo)) c'
  | assert p, c => if p c.before c.after then [c] else []
  | look positive r, c => if (r.ends c).isEmpty = positive then [] else [c]

/-- `pattern.match(text)`. -/
def isMatch (r : Regex α) (text : List α) : Bool := !(r.ends ⟨[], text⟩).isEmpty

/-- `pattern.match(text, pos)`: the text matched. -/
def match? (r : Regex α) (before after : List α) : Option (List α) :=
  (r.ends ⟨before, after⟩).head?.map fun c => after.take (after.length - c.after.length)

/-! ## Spelling patterns -/

/-- The expressions one after another. -/
def seqs : List (Regex α) → Regex α
  | [] => assert fun _ _ => true
  | [r] => r
  | r :: rs => seq r (seqs rs)

def lit [DecidableEq α] (c : α) : Regex α := cls fun x => x = c

def lits [DecidableEq α] (w : List α) : Regex α := seqs (w.map lit)

def star (r : Regex α) : Regex α := rep 0 none r

def plus (r : Regex α) : Regex α := rep 1 none r

def opt (r : Regex α) : Regex α := rep 0 (some 1) r

def times (n : Nat) (r : Regex α) : Regex α := rep n (some n) r

def between (lo hi : Nat) (r : Regex α) : Regex α := rep lo (some hi) r

/-! ## Scanning -/

/-- A stretch of the text: a character that is in no match, or a match. -/
inductive Piece (α : Type*) where
  | kept (c : α)
  | found (text : List α)

/-- The scan, with the number of characters of the last match that are
still to be passed. An empty match yields nothing. -/
def piecesFrom (r : Regex α) : Nat → List α → List α → List (Piece α)
  | _, _, [] => []
  | k + 1, before, c :: after => piecesFrom r k (c :: before) after
  | 0, before, c :: after =>
      match r.match? before (c :: after) with
      | some (m :: w) => .found (m :: w) :: piecesFrom r w.length (c :: before) after
      | _ => .kept c :: piecesFrom r 0 (c :: before) after

def pieces (r : Regex α) (text : List α) : List (Piece α) := piecesFrom r 0 [] text

def Piece.text? : Piece α → Option (List α)
  | kept _ => none
  | found w => some w

/-- The group in the middle of the first match of the three expressions one
after another, and the length of the match. -/
def groupMatch? (pre body post : Regex α) (before after : List α) : Option (List α × Nat) :=
  let found := (pre.ends ⟨before, after⟩).flatMap fun c₁ =>
    (body.ends c₁).flatMap fun c₂ => (post.ends c₂).map fun c₃ => (c₁, c₂, c₃)
  found.head?.map fun (c₁, c₂, c₃) =>
    (c₁.after.take (c₁.after.length - c₂.after.length), after.length - c₃.after.length)

def groupsFrom (pre body post : Regex α) : Nat → List α → List α → List (List α)
  | _, _, [] => []
  | k + 1, before, c :: after => groupsFrom pre body post k (c :: before) after
  | 0, before, c :: after =>
      match groupMatch? pre body post before (c :: after) with
      | some (group, n + 1) => group :: groupsFrom pre body post n (c :: before) after
      | _ => groupsFrom pre body post 0 (c :: before) after

/-- `[m.group(1) for m in pattern.finditer(text)]`, where the group is the
middle one of three parts. -/
def groups (pre body post : Regex α) (text : List α) : List (List α) :=
  groupsFrom pre body post 0 [] text

/-! ## Where a scan finds the group -/

theorem upTo_stuck {step : Cursor α → List (Cursor α)} {c : Cursor α} (h : step c = [])
    (n : Nat) : upTo step n c = [c] := by
  cases n with
  | zero => rfl
  | succ n => rw [upTo, h, List.flatMap_nil, List.nil_append]

theorem upTo_single {step : Cursor α → List (Cursor α)} {c c' : Cursor α} (h : step c = [c'])
    (n : Nat) : upTo step (n + 1) c = upTo step n c' ++ [c] := by
  rw [upTo, h, List.flatMap_singleton]

theorem ends_star (r : Regex α) (c : Cursor α) :
    (star r).ends c = upTo r.ends c.after.length c := by
  simp [star, ends, exactly]

section Groups

variable {pre body post : Regex α}

/-- The rest of a match is passed. -/
theorem groupsFrom_skip (w before s : List α) :
    groupsFrom pre body post w.length before (w ++ s) =
      groupsFrom pre body post 0 (w.reverse ++ before) s := by
  induction w generalizing before with
  | nil => rfl
  | cons c w ih =>
      rw [List.length_cons, List.cons_append, groupsFrom, ih, List.reverse_cons, List.append_assoc,
        List.singleton_append]

/-- No match begins with these characters. -/
theorem groupsFrom_of_ends_nil {w : List α}
    (h : ∀ c ∈ w, ∀ before after, pre.ends ⟨before, c :: after⟩ = []) (before s : List α) :
    groupsFrom pre body post 0 before (w ++ s) =
      groupsFrom pre body post 0 (w.reverse ++ before) s := by
  induction w generalizing before with
  | nil => rfl
  | cons c w ih =>
      have hnone : groupMatch? pre body post before (c :: (w ++ s)) = none := by
        simp [groupMatch?, h c List.mem_cons_self]
      rw [List.cons_append, groupsFrom, hnone]
      simpa using ih (fun d hd => h d (List.mem_cons_of_mem _ hd)) (c :: before)

/-- The match that is tried first. -/
theorem groupMatch?_of_ends {before after : List α} {c₁ c₂ c₃ : Cursor α} {l₂ : List (Cursor α)}
    (h₁ : pre.ends ⟨before, after⟩ = [c₁]) (h₂ : body.ends c₁ = c₂ :: l₂)
    (h₃ : post.ends c₂ = [c₃]) :
    groupMatch? pre body post before after =
      some (c₁.after.take (c₁.after.length - c₂.after.length),
        after.length - c₃.after.length) := by
  simp [groupMatch?, h₁, h₂, h₃]

end Groups

/-! ## The alphabet of an expression -/

/-- The characters an expression can read (assertions and lookaheads read
none). -/
def reads : Regex α → α → Bool
  | cls p, x => p x
  | seq r s, x => r.reads x || s.reads x
  | alt r s, x => r.reads x || s.reads x
  | rep _ _ r, x => r.reads x
  | assert _, _ => false
  | look _ _, _ => false

/-- None of the characters is in the alphabet of the expression. -/
def avoids (r : Regex α) (xs : List α) : Bool := xs.all fun x => !r.reads x

theorem reads_of_avoids {r : Regex α} {xs : List α} (h : r.avoids xs = true) {x : α}
    (hx : x ∈ xs) : r.reads x = false := by
  simpa using List.all_eq_true.mp h x hx

/-- The ends of `step` are behind texts over the alphabet `p`. -/
def Reads (p : α → Bool) (step : Cursor α → List (Cursor α)) : Prop :=
  ∀ c, ∀ c' ∈ step c, ∃ w, c.Past w c' ∧ ∀ x ∈ w, p x = true

namespace Cursor.Past

theorem nil (c : Cursor α) : c.Past [] c := ⟨rfl, rfl⟩

theorem append {v w : List α} {c c' c'' : Cursor α} (h : c.Past v c') (h' : c'.Past w c'') :
    c.Past (v ++ w) c'' := by
  refine ⟨?_, ?_⟩
  · rw [h.1, h'.1, List.append_assoc]
  · rw [h'.2, h.2, List.reverse_append, List.append_assoc]

end Cursor.Past

theorem Reads.trans {p : α → Bool} {f g : Cursor α → List (Cursor α)} (hf : Reads p f)
    (hg : Reads p g) : Reads p fun c => (f c).flatMap g := by
  intro c c'' hmem
  obtain ⟨c', hc', hc''⟩ := List.mem_flatMap.mp hmem
  obtain ⟨v, hv, hvp⟩ := hf c c' hc'
  obtain ⟨w, hw, hwp⟩ := hg c' c'' hc''
  exact ⟨v ++ w, hv.append hw, by simpa [or_imp, forall_and] using ⟨hvp, hwp⟩⟩

theorem reads_stay (p : α → Bool) : Reads p fun c => [c] := by
  intro c c' h
  obtain rfl := List.mem_singleton.mp h
  exact ⟨[], Cursor.Past.nil c', by simp⟩

theorem Reads.exactly {p : α → Bool} {f : Cursor α → List (Cursor α)} (hf : Reads p f)
    (n : Nat) : Reads p (exactly f n) := by
  induction n with
  | zero => exact reads_stay p
  | succ n ih => exact hf.trans ih

theorem Reads.upTo {p : α → Bool} {f : Cursor α → List (Cursor α)} (hf : Reads p f)
    (n : Nat) : Reads p (upTo f n) := by
  induction n with
  | zero => exact reads_stay p
  | succ n ih =>
      intro c c' h
      rcases List.mem_append.mp h with h | h
      · exact hf.trans ih c c' h
      · exact reads_stay p c c' h

theorem Reads.mono {p q : α → Bool} {f : Cursor α → List (Cursor α)} (hf : Reads p f)
    (hpq : ∀ x, p x = true → q x = true) : Reads q f := by
  intro c c' h
  obtain ⟨w, hw, hwp⟩ := hf c c' h
  exact ⟨w, hw, fun x hx => hpq x (hwp x hx)⟩

/-- What an expression passes is over its alphabet. -/
theorem reads_ends (r : Regex α) : Reads r.reads r.ends := by
  induction r with
  | cls p =>
      intro c c' h
      obtain ⟨before, after⟩ := c
      cases after with
      | nil => simp [ends] at h
      | cons x rest =>
          by_cases hp : p x = true
          · simp only [ends, hp, if_true, List.mem_singleton] at h
            exact ⟨[x], ⟨by simp [h], by simp [h]⟩, by simpa [reads] using hp⟩
          · simp [ends, hp] at h
  | seq r s ihr ihs =>
      exact (ihr.mono fun x hx => by simp [reads, hx]).trans
        (ihs.mono fun x hx => by simp [reads, hx])
  | alt r s ihr ihs =>
      intro c c' h
      rcases List.mem_append.mp h with h | h
      · exact ihr.mono (fun x hx => by simp [reads, hx]) c c' h
      · exact ihs.mono (fun x hx => by simp [reads, hx]) c c' h
  | rep lo hi r ih =>
      intro c c'' h
      obtain ⟨c', hc', hc''⟩ := List.mem_flatMap.mp h
      obtain ⟨v, hv, hvp⟩ := ih.exactly lo c c' hc'
      obtain ⟨w, hw, hwp⟩ := ih.upTo _ c' c'' hc''
      exact ⟨v ++ w, hv.append hw, by simpa [or_imp, forall_and] using ⟨hvp, hwp⟩⟩
  | assert p =>
      intro c c' h
      simp only [ends] at h
      split at h
      · exact reads_stay _ c c' h
      · exact absurd h List.not_mem_nil
  | look positive r ih =>
      intro c c' h
      simp only [ends] at h
      split at h
      · exact absurd h List.not_mem_nil
      · exact reads_stay _ c c' h

/-! ## What every match has -/

/-- Wherever a match ends, `q` holds of the text that is left. -/
def EndsBy (q : List α → Prop) (r : Regex α) : Prop := ∀ c, ∀ c' ∈ r.ends c, q c'.after

theorem EndsBy.seq {q : List α → Prop} {s : Regex α} (hs : EndsBy q s) (r : Regex α) :
    EndsBy q (seq r s) := by
  intro c c'' h
  obtain ⟨c', -, hc''⟩ := List.mem_flatMap.mp h
  exact hs c' c'' hc''

theorem endsBy_assert {q : List α → Prop} {p : List α → List α → Bool}
    (h : ∀ before after, p before after = true → q after) : EndsBy q (assert p) := by
  intro c c' hmem
  simp only [ends] at hmem
  split at hmem
  · next hp =>
      obtain rfl := List.mem_singleton.mp hmem
      exact h _ _ hp
  · exact absurd hmem List.not_mem_nil

/-- A text that matches is a part over the alphabet and a rest. -/
theorem split_of_isMatch {q : List α → Prop} {r : Regex α} (hq : EndsBy q r) {text : List α}
    (h : r.isMatch text = true) :
    ∃ w rest, text = w ++ rest ∧ (∀ x ∈ w, r.reads x = true) ∧ q rest := by
  simp only [isMatch, Bool.not_eq_true'] at h
  obtain ⟨c, hc⟩ := List.exists_mem_of_ne_nil _ (List.isEmpty_eq_false_iff.mp h)
  obtain ⟨w, hw, hreads⟩ := reads_ends r _ c hc
  exact ⟨w, c.after, hw.1, hreads, hq _ c hc⟩

/-- Every match passes a character of which `p` holds. -/
def Forces (p : α → Prop) : Regex α → Prop
  | cls q => ∀ x, q x = true → p x
  | seq r s => r.Forces p ∨ s.Forces p
  | alt r s => r.Forces p ∧ s.Forces p
  | rep lo _ r => 0 < lo ∧ r.Forces p
  | assert _ => False
  | look _ _ => False

theorem exists_of_forces {p : α → Prop} {r : Regex α} (h : r.Forces p) {c c' : Cursor α}
    (hc : c' ∈ r.ends c) : ∃ w, c.Past w c' ∧ ∃ x ∈ w, p x := by
  induction r generalizing c c' with
  | cls q =>
      obtain ⟨before, after⟩ := c
      cases after with
      | nil => simp [ends] at hc
      | cons x rest =>
          by_cases hq : q x = true
          · simp only [ends, hq, if_true, List.mem_singleton] at hc
            exact ⟨[x], ⟨by simp [hc], by simp [hc]⟩, x, by simp, h x hq⟩
          · simp [ends, hq] at hc
  | seq r s ihr ihs =>
      obtain ⟨c₁, hc₁, hc'⟩ := List.mem_flatMap.mp hc
      obtain ⟨v, hv, -⟩ := reads_ends r c c₁ hc₁
      obtain ⟨w, hw, -⟩ := reads_ends s c₁ c' hc'
      rcases h with h | h
      · obtain ⟨v', hv', x, hx, hp⟩ := ihr h hc₁
        exact ⟨v' ++ w, hv'.append hw, x, List.mem_append_left _ hx, hp⟩
      · obtain ⟨w', hw', x, hx, hp⟩ := ihs h hc'
        exact ⟨v ++ w', hv.append hw', x, List.mem_append_right _ hx, hp⟩
  | alt r s ihr ihs =>
      rcases List.mem_append.mp hc with hc | hc
      · exact ihr h.1 hc
      · exact ihs h.2 hc
  | rep lo hi r ih =>
      obtain ⟨lo, rfl⟩ := Nat.exists_eq_succ_of_ne_zero (Nat.ne_of_gt h.1)
      obtain ⟨c₂, hc₂, hc'⟩ := List.mem_flatMap.mp hc
      obtain ⟨c₁, hc₁, hc₂⟩ := List.mem_flatMap.mp hc₂
      -- the first round passes the character, the others pass something
      obtain ⟨u, hu, x, hx, hp⟩ := ih h.2 hc₁
      obtain ⟨v, hv, -⟩ := (reads_ends r).exactly lo c₁ c₂ hc₂
      obtain ⟨w, hw, -⟩ := (reads_ends r).upTo _ c₂ c' hc'
      exact ⟨u ++ v ++ w, (hu.append hv).append hw, x, by simp [hx], hp⟩
  | assert q => exact h.elim
  | look positive r ih => exact h.elim

theorem exists_of_isMatch {p : α → Prop} {r : Regex α} (hr : r.Forces p) {text : List α}
    (h : r.isMatch text = true) : ∃ x ∈ text, p x := by
  simp only [isMatch, Bool.not_eq_true'] at h
  obtain ⟨c, hc⟩ := List.exists_mem_of_ne_nil _ (List.isEmpty_eq_false_iff.mp h)
  obtain ⟨w, hw, x, hx, hp⟩ := exists_of_forces hr hc
  have htext : text = w ++ c.after := hw.1
  exact ⟨x, htext ▸ List.mem_append_left _ hx, hp⟩

/-! ## Changing characters that the expression does not tell apart -/

def Cursor.map (f : α → α) (c : Cursor α) : Cursor α := ⟨c.before.map f, c.after.map f⟩

/-- No test of the expression sees the difference `f` makes. -/
def Blind (f : α → α) : Regex α → Prop
  | cls p => ∀ x, p (f x) = p x
  | seq r s => r.Blind f ∧ s.Blind f
  | alt r s => r.Blind f ∧ s.Blind f
  | rep _ _ r => r.Blind f
  | assert p => ∀ before after, p (before.map f) (after.map f) = p before after
  | look _ r => r.Blind f

theorem exactly_map {f : α → α} {step : Cursor α → List (Cursor α)}
    (h : ∀ c, step (c.map f) = (step c).map (Cursor.map f)) (n : Nat) (c : Cursor α) :
    exactly step n (c.map f) = (exactly step n c).map (Cursor.map f) := by
  induction n generalizing c with
  | zero => rfl
  | succ n ih => simp only [exactly, h, List.flatMap_map, List.map_flatMap, ih]

theorem upTo_map {f : α → α} {step : Cursor α → List (Cursor α)}
    (h : ∀ c, step (c.map f) = (step c).map (Cursor.map f)) (n : Nat) (c : Cursor α) :
    upTo step n (c.map f) = (upTo step n c).map (Cursor.map f) := by
  induction n generalizing c with
  | zero => rfl
  | succ n ih =>
      simp only [upTo, h, List.flatMap_map, List.map_append, List.map_flatMap, ih, List.map_cons,
        List.map_nil]

theorem ends_map {f : α → α} {r : Regex α} (h : r.Blind f) (c : Cursor α) :
    r.ends (c.map f) = (r.ends c).map (Cursor.map f) := by
  induction r generalizing c with
  | cls p =>
      obtain ⟨before, after⟩ := c
      cases after with
      | nil => rfl
      | cons x rest =>
          have hx : p (f x) = p x := h x
          by_cases hp : p x = true <;> simp [ends, Cursor.map, hx, hp]
  | seq r s ihr ihs =>
      simp only [ends, ihr h.1, List.flatMap_map, List.map_flatMap, ihs h.2]
  | alt r s ihr ihs => simp only [ends, ihr h.1, ihs h.2, List.map_append]
  | rep lo hi r ih =>
      have hlen : ∀ c' : Cursor α, (c'.map f).after.length = c'.after.length := fun c' => by
        simp [Cursor.map]
      simp only [ends, exactly_map (ih h), List.flatMap_map, List.map_flatMap, hlen, upTo_map (ih h)]
  | assert p =>
      have hp : p (c.before.map f) (c.after.map f) = p c.before c.after := h c.before c.after
      by_cases hc : p c.before c.after = true <;> simp [ends, Cursor.map, hp, hc]
  | look positive r ih =>
      simp only [ends, ih h, List.isEmpty_map]
      split <;> rfl

theorem isMatch_map {f : α → α} {r : Regex α} (h : r.Blind f) (text : List α) :
    r.isMatch (text.map f) = r.isMatch text := by
  have hends := ends_map h ⟨[], text⟩
  simp only [Cursor.map, List.map_nil] at hends
  simp [isMatch, hends]

end Regex

end ThreatIntel
