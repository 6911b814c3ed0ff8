import Mathlib.Computability.Language
import Mathlib.Data.List.Forall2
import ThreatIntel.Regex

/-!
# The language of an expression

`ends` is how the matcher searches. Without assertions, and without the
order in which the ends are tried, what it finds from a cursor are the
texts of a language that come next (`Finds`). There is one rule for each
construct; a repetition of a class, the most common one, finds runs of
characters.
-/

namespace ThreatIntel

namespace Regex

variable {α : Type*}

/-- The ends of `step` are behind the texts of the language. -/
def Finds (L : Language α) (step : Cursor α → List (Cursor α)) : Prop :=
  ∀ c c', c' ∈ step c ↔ ∃ w ∈ L, c.Past w c'

/-- One character of a class. -/
def oneOf (p : α → Bool) : Language α := {w | ∃ x, p x = true ∧ w = [x]}

/-- One character of each class. -/
def inEach (ps : List (α → Bool)) : Language α := {w | List.Forall₂ (fun p x => p x = true) ps w}

/-- So many texts of the language one after another. -/
def repeated (lo : Nat) (hi : Option Nat) (L : Language α) : Language α :=
  {w | ∃ n, lo ≤ n ∧ (∀ m ∈ hi, n ≤ max lo m) ∧ w ∈ L ^ n}

/-- So many characters of a class one after another. -/
def runOf (lo : Nat) (hi : Option Nat) (p : α → Bool) : Language α :=
  {w | lo ≤ w.length ∧ (∀ m ∈ hi, w.length ≤ max lo m) ∧ ∀ x ∈ w, p x = true}

namespace Cursor.Past

/-- Where a cursor gets to is determined by what it passes. -/
theorem unique {w : List α} {c c₁ c₂ : Cursor α} (h₁ : c.Past w c₁) (h₂ : c.Past w c₂) :
    c₁ = c₂ := by
  have hafter := h₁.1.symm.trans h₂.1
  exact Cursor.ext (h₁.2.trans h₂.2.symm) (List.append_cancel_left hafter)

theorem split {v w : List α} {c c'' : Cursor α} (h : c.Past (v ++ w) c'') :
    ∃ c', c.Past v c' ∧ c'.Past w c'' := by
  refine ⟨⟨v.reverse ++ c.before, w ++ c''.after⟩, ⟨?_, rfl⟩, rfl, ?_⟩
  · rw [h.1, List.append_assoc]
  · rw [h.2, List.reverse_append, List.append_assoc]

@[simp] theorem nil_iff {c c' : Cursor α} : c.Past [] c' ↔ c' = c := by
  refine ⟨fun h => h.unique (nil c), ?_⟩
  rintro rfl
  exact nil c'

/-- What is passed is determined by where it begins and ends. -/
theorem text_unique {v w : List α} {c c' : Cursor α} (hv : c.Past v c') (hw : c.Past w c') :
    v = w :=
  List.append_cancel_right (hv.1.symm.trans hw.1)

theorem length_le {w : List α} {c c' : Cursor α} (h : c.Past w c') :
    w.length ≤ c.after.length := by
  rw [h.1, List.length_append]
  exact Nat.le_add_right _ _

end Cursor.Past

/-! ## The rules -/

section Rules

variable {L M : Language α} {f g : Cursor α → List (Cursor α)}

theorem finds_cls (p : α → Bool) : Finds (oneOf p) (cls p).ends := by
  intro c c'
  obtain ⟨before, after⟩ := c
  constructor
  · intro h
    cases after with
    | nil => simp [ends] at h
    | cons x rest =>
        by_cases hp : p x = true
        · simp only [ends, hp, if_true, List.mem_singleton] at h
          exact ⟨[x], ⟨x, hp, rfl⟩, by simp [Cursor.Past, h]⟩
        · simp [ends, hp] at h
  · rintro ⟨w, ⟨x, hp, rfl⟩, hafter, hbefore⟩
    simp only [List.singleton_append, List.reverse_singleton] at hafter hbefore
    subst hafter
    simp [ends, hp, Cursor.ext_iff, hbefore]

theorem Finds.trans (hf : Finds L f) (hg : Finds M g) :
    Finds (L * M) fun c => (f c).flatMap g := by
  intro c c''
  rw [List.mem_flatMap]
  constructor
  · rintro ⟨c', hc', hc''⟩
    obtain ⟨v, hv, hpv⟩ := (hf c c').mp hc'
    obtain ⟨w, hw, hpw⟩ := (hg c' c'').mp hc''
    exact ⟨v ++ w, Language.append_mem_mul hv hw, hpv.append hpw⟩
  · rintro ⟨u, hu, hpast⟩
    obtain ⟨v, hv, w, hw, rfl⟩ := Language.mem_mul.mp hu
    obtain ⟨c', hpv, hpw⟩ := hpast.split
    exact ⟨c', (hf c c').mpr ⟨v, hv, hpv⟩, (hg c' c'').mpr ⟨w, hw, hpw⟩⟩

theorem finds_seq {r s : Regex α} (hr : Finds L r.ends) (hs : Finds M s.ends) :
    Finds (L * M) (seq r s).ends :=
  hr.trans hs

theorem finds_stay : Finds (1 : Language α) fun c => [c] := by
  intro c c'
  simp [Language.mem_one]

theorem inEach_nil : inEach ([] : List (α → Bool)) = 1 := by
  ext w
  exact List.forall₂_nil_left_iff

theorem inEach_cons (p : α → Bool) (ps : List (α → Bool)) :
    inEach (p :: ps) = oneOf p * inEach ps := by
  ext w
  rw [Language.mem_mul]
  constructor
  · rintro (_ | ⟨hx, h⟩)
    exact ⟨[_], ⟨_, hx, rfl⟩, _, h, rfl⟩
  · rintro ⟨_, ⟨x, hx, rfl⟩, w, h, rfl⟩
    exact .cons hx h

theorem finds_classes (ps : List (α → Bool)) : Finds (inEach ps) (seqs (ps.map cls)).ends := by
  induction ps with
  | nil =>
      rw [inEach_nil]
      exact finds_stay
  | cons p ps ih =>
      rw [inEach_cons]
      cases ps with
      | nil =>
          rw [inEach_nil, mul_one]
          exact finds_cls p
      | cons q ps => exact finds_seq (finds_cls p) ih

theorem Finds.exactly (hf : Finds L f) (n : Nat) : Finds (L ^ n) (exactly f n) := by
  induction n with
  | zero =>
      rw [pow_zero]
      exact finds_stay
  | succ n ih =>
      rw [pow_succ']
      exact hf.trans ih

theorem Finds.upTo (hf : Finds L f) (n : Nat) :
    Finds {w | ∃ k ≤ n, w ∈ L ^ k} (upTo f n) := by
  induction n with
  | zero =>
      intro c c'
      simp only [Nat.le_zero, exists_eq_left, pow_zero]
      exact finds_stay c c'
  | succ n ih =>
      intro c c'
      have hmore := hf.trans ih c c'
      have hnone := finds_stay c c'
      rw [Regex.upTo, List.mem_append, hmore, hnone]
      constructor
      · rintro (⟨u, hu, hpast⟩ | ⟨u, hu, hpast⟩)
        · obtain ⟨v, hv, w, ⟨k, hk, hw⟩, rfl⟩ := Language.mem_mul.mp hu
          refine ⟨v ++ w, ⟨k + 1, by omega, ?_⟩, hpast⟩
          rw [pow_succ']
          exact Language.append_mem_mul hv hw
        · exact ⟨u, ⟨0, by omega, by simpa using hu⟩, hpast⟩
      · rintro ⟨u, ⟨k, hk, hu⟩, hpast⟩
        cases k with
        | zero => exact .inr ⟨u, by simpa using hu, hpast⟩
        | succ k =>
            rw [pow_succ'] at hu
            obtain ⟨v, hv, w, hw, rfl⟩ := Language.mem_mul.mp hu
            exact .inl ⟨v ++ w, Language.append_mem_mul hv ⟨k, by omega, hw⟩, hpast⟩

/-- Texts that are not empty are no more than their characters. -/
theorem le_length_of_mem_pow (hL : [] ∉ L) {n : Nat} {w : List α} (h : w ∈ L ^ n) :
    n ≤ w.length := by
  induction n generalizing w with
  | zero => exact Nat.zero_le _
  | succ n ih =>
      rw [pow_succ'] at h
      obtain ⟨u, hu, v, hv, rfl⟩ := Language.mem_mul.mp h
      have hpos : 0 < u.length := List.length_pos_iff.mpr fun hnil => hL (hnil ▸ hu)
      have := ih hv
      rw [List.length_append]
      omega

theorem finds_rep {r : Regex α} (hr : Finds L r.ends) (lo : Nat) (hi : Option Nat)
    (hL : hi = none → [] ∉ L) : Finds (repeated lo hi L) (rep lo hi r).ends := by
  intro c c''
  simp only [ends, List.mem_flatMap]
  constructor
  · rintro ⟨c', hc', hc''⟩
    obtain ⟨v, hv, hpv⟩ := (hr.exactly lo c c').mp hc'
    obtain ⟨w, ⟨k, hk, hw⟩, hpw⟩ := (hr.upTo _ c' c'').mp hc''
    refine ⟨v ++ w, ⟨lo + k, by omega, ?_, ?_⟩, hpv.append hpw⟩
    · rintro m rfl
      simp only [Option.elim_some] at hk
      omega
    · rw [pow_add]
      exact Language.append_mem_mul hv hw
  · rintro ⟨u, ⟨n, hlo, hhi, hu⟩, hpast⟩
    obtain ⟨k, rfl⟩ := Nat.exists_eq_add_of_le hlo
    rw [pow_add] at hu
    obtain ⟨v, hv, w, hw, rfl⟩ := Language.mem_mul.mp hu
    obtain ⟨c', hpv, hpw⟩ := hpast.split
    refine ⟨c', (hr.exactly lo c c').mpr ⟨v, hv, hpv⟩,
      (hr.upTo _ c' c'').mpr ⟨w, ⟨k, ?_, hw⟩, hpw⟩⟩
    cases hi with
    | none => exact (le_length_of_mem_pow (hL rfl) hw).trans hpw.length_le
    | some m =>
        have := hhi m rfl
        simp only [Option.elim_some]
        omega

end Rules

/-! ## Matches between assertions -/

/-- Every match passes a text of the language, but not every text of it is a
match. -/
def Within (L : Language α) (step : Cursor α → List (Cursor α)) : Prop :=
  ∀ c c', c' ∈ step c → ∃ w ∈ L, c.Past w c'

theorem Finds.within {L : Language α} {step : Cursor α → List (Cursor α)} (h : Finds L step) :
    Within L step := fun c c' hc' => (h c c').mp hc'

theorem within_assert (p : List α → List α → Bool) : Within 1 (assert p).ends := by
  intro c c' hc'
  simp only [ends] at hc'
  split at hc'
  · exact ⟨[], rfl, by simpa using hc'⟩
  · exact absurd hc' List.not_mem_nil

theorem Within.seq {L M : Language α} {r s : Regex α} (hr : Within L r.ends)
    (hs : Within M s.ends) : Within (L * M) (seq r s).ends := by
  intro c c'' h
  obtain ⟨c', hc', hc''⟩ := List.mem_flatMap.mp h
  obtain ⟨v, hv, hpv⟩ := hr c c' hc'
  obtain ⟨w, hw, hpw⟩ := hs c' c'' hc''
  exact ⟨v ++ w, Language.append_mem_mul hv hw, hpv.append hpw⟩

theorem Within.alt {L : Language α} {r s : Regex α} (hr : Within L r.ends)
    (hs : Within L s.ends) : Within L (alt r s).ends := by
  intro c c' h
  rcases List.mem_append.mp h with h | h
  · exact hr c c' h
  · exact hs c c' h

/-! ## Matches that end at an assertion -/

/-- As `Finds`, but only up to the cursors of which `q` holds. -/
def FindsTo (q : Cursor α → Prop) (L : Language α) (step : Cursor α → List (Cursor α)) : Prop :=
  ∀ c c', c' ∈ step c ↔ ∃ w ∈ L, c.Past w c' ∧ q c'

theorem findsTo_assert (p : List α → List α → Bool) :
    FindsTo (fun c => p c.before c.after = true) 1 (assert p).ends := by
  intro c c'
  by_cases hp : p c.before c.after = true
  · simp only [ends, hp, if_true, List.mem_singleton, Language.mem_one, exists_eq_left,
      Cursor.Past.nil_iff]
    exact ⟨fun h => ⟨h, h ▸ hp⟩, fun h => h.1⟩
  · simp only [ends, hp, Bool.false_eq_true, if_false, List.not_mem_nil, Language.mem_one,
      exists_eq_left, Cursor.Past.nil_iff, false_iff]
    rintro ⟨rfl, h⟩
    exact hp h

theorem Finds.then {q : Cursor α → Prop} {L M : Language α} {r s : Regex α}
    (hr : Finds L r.ends) (hs : FindsTo q M s.ends) : FindsTo q (L * M) (seq r s).ends := by
  intro c c''
  simp only [ends, List.mem_flatMap]
  constructor
  · rintro ⟨c', hc', hc''⟩
    obtain ⟨v, hv, hpv⟩ := (hr c c').mp hc'
    obtain ⟨w, hw, hpw, hq⟩ := (hs c' c'').mp hc''
    exact ⟨v ++ w, Language.append_mem_mul hv hw, hpv.append hpw, hq⟩
  · rintro ⟨u, hu, hpast, hq⟩
    obtain ⟨v, hv, w, hw, rfl⟩ := Language.mem_mul.mp hu
    obtain ⟨c', hpv, hpw⟩ := hpast.split
    exact ⟨c', (hr c c').mpr ⟨v, hv, hpv⟩, (hs c' c'').mpr ⟨w, hw, hpw, hq⟩⟩

/-- A positive lookahead found something. -/
theorem exists_of_mem_ends_look {r : Regex α} {c c' : Cursor α} (h : c' ∈ (look true r).ends c) :
    ∃ c'', c'' ∈ r.ends c := by
  refine List.exists_mem_of_ne_nil _ fun hnil => ?_
  simp [ends, hnil] at h

theorem isMatch_iff_exists {r : Regex α} {text : List α} :
    r.isMatch text = true ↔ ∃ c, c ∈ r.ends ⟨[], text⟩ := by
  rw [isMatch, Bool.not_eq_true', List.isEmpty_eq_false_iff_exists_mem]

/-- What is matched from the start is the text up to a rest. -/
theorem FindsTo.isMatch_iff {q : Cursor α → Prop} {L : Language α} {r : Regex α}
    (h : FindsTo q L r.ends) {text : List α} :
    r.isMatch text = true ↔ ∃ w ∈ L, ∃ rest, text = w ++ rest ∧ q ⟨w.reverse, rest⟩ := by
  rw [isMatch_iff_exists]
  constructor
  · rintro ⟨c', hc'⟩
    obtain ⟨w, hw, ⟨hafter, hbefore⟩, hq⟩ := (h _ _).mp hc'
    rw [List.append_nil] at hbefore
    exact ⟨w, hw, c'.after, hafter, hbefore ▸ hq⟩
  · rintro ⟨w, hw, rest, rfl, hq⟩
    exact ⟨⟨w.reverse, rest⟩, (h _ _).mpr ⟨w, hw, ⟨rfl, by simp⟩, hq⟩⟩

/-- What is passed last in a match is a text of the language. -/
def EndsIn (q : Cursor α → Prop) (L : Language α) (r : Regex α) : Prop :=
  ∀ c, ∀ c' ∈ r.ends c, ∃ v, ∃ w ∈ L, c.Past (v ++ w) c' ∧ q c'

theorem FindsTo.endsIn {q : Cursor α → Prop} {L : Language α} {r : Regex α}
    (h : FindsTo q L r.ends) : EndsIn q L r := by
  intro c c' hc'
  obtain ⟨w, hw, hpast, hq⟩ := (h c c').mp hc'
  exact ⟨[], w, hw, hpast, hq⟩

theorem EndsIn.seq {q : Cursor α → Prop} {L : Language α} {s : Regex α} (hs : EndsIn q L s)
    (r : Regex α) : EndsIn q L (seq r s) := by
  intro c c'' h
  obtain ⟨c', hc', hc''⟩ := List.mem_flatMap.mp h
  obtain ⟨u, hu, -⟩ := reads_ends r c c' hc'
  obtain ⟨v, w, hw, hpast, hq⟩ := hs c' c'' hc''
  refine ⟨u ++ v, w, hw, ?_, hq⟩
  rw [List.append_assoc]
  exact hu.append hpast

theorem EndsIn.split_of_isMatch {q : Cursor α → Prop} {L : Language α} {r : Regex α}
    (h : EndsIn q L r) {text : List α} (hm : r.isMatch text = true) :
    ∃ v, ∃ w ∈ L, ∃ c, text = v ++ w ++ c.after ∧ q c := by
  obtain ⟨c', hc'⟩ := isMatch_iff_exists.mp hm
  obtain ⟨v, w, hw, hpast, hq⟩ := h _ _ hc'
  exact ⟨v, w, hw, c', hpast.1, hq⟩

/-! ## Runs of characters -/

theorem nil_notMem_oneOf (p : α → Bool) : [] ∉ oneOf p := by
  rintro ⟨x, -, h⟩
  cases h

theorem mem_oneOf_pow {p : α → Bool} {n : Nat} {w : List α} :
    w ∈ oneOf p ^ n ↔ w.length = n ∧ ∀ x ∈ w, p x = true := by
  induction n generalizing w with
  | zero =>
      rw [pow_zero, Language.mem_one, List.length_eq_zero_iff]
      refine ⟨?_, fun h => h.1⟩
      rintro rfl
      simp
  | succ n ih =>
      rw [pow_succ', Language.mem_mul]
      constructor
      · rintro ⟨u, ⟨x, hx, rfl⟩, v, hv, rfl⟩
        obtain ⟨hlen, hall⟩ := ih.mp hv
        refine ⟨by simp [hlen], fun y hy => ?_⟩
        rcases List.mem_cons.mp hy with rfl | hy
        · exact hx
        · exact hall y hy
      · rintro ⟨hlen, hall⟩
        cases w with
        | nil => simp at hlen
        | cons x w =>
            refine ⟨[x], ⟨x, hall x List.mem_cons_self, rfl⟩, w, ih.mpr ⟨by simpa using hlen, ?_⟩,
              rfl⟩
            exact fun y hy => hall y (List.mem_cons_of_mem _ hy)

/-- Texts of a language with a separator behind each. -/
theorem mem_groups_pow [DecidableEq α] {L : Language α} {sep : α} {n : Nat} {w : List α}
    (h : w ∈ (L * oneOf fun x => decide (x = sep)) ^ n) :
    ∃ gs : List (List α), gs.length = n ∧ (∀ g ∈ gs, g ∈ L) ∧
      w = (gs.map (· ++ [sep])).flatten := by
  induction n generalizing w with
  | zero =>
      obtain rfl : w = [] := by simpa using h
      exact ⟨[], rfl, by simp, rfl⟩
  | succ n ih =>
      rw [pow_succ'] at h
      obtain ⟨_, ⟨g, hg, _, ⟨x, hx, rfl⟩, rfl⟩, v, hv, rfl⟩ := Language.mem_mul.mp h
      obtain ⟨gs, rfl, hgs, rfl⟩ := ih hv
      obtain rfl : x = sep := of_decide_eq_true hx
      exact ⟨g :: gs, rfl, List.forall_mem_cons.mpr ⟨hg, hgs⟩, by simp⟩

theorem repeated_oneOf (lo : Nat) (hi : Option Nat) (p : α → Bool) :
    repeated lo hi (oneOf p) = runOf lo hi p := by
  ext w
  constructor
  · rintro ⟨n, hlo, hhi, hw⟩
    obtain ⟨rfl, hall⟩ := mem_oneOf_pow.mp hw
    exact ⟨hlo, hhi, hall⟩
  · rintro ⟨hlo, hhi, hall⟩
    exact ⟨w.length, hlo, hhi, mem_oneOf_pow.mpr ⟨rfl, hall⟩⟩

theorem finds_run (lo : Nat) (hi : Option Nat) (p : α → Bool) :
    Finds (runOf lo hi p) (rep lo hi (cls p)).ends := by
  rw [← repeated_oneOf]
  exact finds_rep (finds_cls p) lo hi fun _ => nil_notMem_oneOf p

end Regex

end ThreatIntel
