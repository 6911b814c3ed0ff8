import ThreatIntel.RegexLanguage
import ThreatIntel.RegexScan

/-!
# What is matched first

Backtracking tries the ends of an expression in an order, and the match
that is reported is the one it tries first. `Takes` says which text that
is, for what stands before it and behind it: a class takes its character, a
sequence what its parts take one after the other, a repetition as many
blocks as it may. Where the longest run leaves nothing for what follows,
the run is given back character by character (`takes_giveBack`).
-/

namespace ThreatIntel

namespace Regex

variable {α : Type*}

/-- The end that is tried first is behind `w`. -/
def Takes (step : Cursor α → List (Cursor α)) (w before rest : List α) : Prop :=
  (step ⟨before, w ++ rest⟩).head? = some ⟨w.reverse ++ before, rest⟩

section Rules

variable {f g : Cursor α → List (Cursor α)} {r s : Regex α} {v w before rest : List α}

theorem head?_flatMap_of_head? {β : Type*} {l : List α} {h : α → List β} {a : α} {b : β}
    (ha : l.head? = some a) (hb : (h a).head? = some b) : (l.flatMap h).head? = some b := by
  cases l with
  | nil => simp at ha
  | cons a' l =>
      obtain rfl : a' = a := by simpa using ha
      rw [List.flatMap_cons, List.head?_append, hb]
      rfl

theorem Takes.trans (hf : Takes f v before (w ++ rest)) (hg : Takes g w (v.reverse ++ before) rest) :
    Takes (fun c => (f c).flatMap g) (v ++ w) before rest := by
  rw [Takes, List.append_assoc, List.reverse_append, List.append_assoc]
  exact head?_flatMap_of_head? hf hg

theorem takes_seq (hr : Takes r.ends v before (w ++ rest))
    (hs : Takes s.ends w (v.reverse ++ before) rest) : Takes (seq r s).ends (v ++ w) before rest :=
  hr.trans hs

theorem takes_assoc {t : Regex α} (h : Takes (seq (seq r s) t).ends w before rest) :
    Takes (seq r (seq s t)).ends w before rest := by
  rwa [Takes, ends, ends, List.flatMap_assoc] at h

theorem takes_cls {p : α → Bool} {x : α} (hx : p x = true) (before rest : List α) :
    Takes (cls p).ends [x] before rest := by
  simp [Takes, ends, hx]

theorem takes_lit [DecidableEq α] (x : α) (before rest : List α) :
    Takes (lit x).ends [x] before rest :=
  takes_cls (p := fun y => decide (y = x)) (decide_eq_true rfl) before rest

theorem takes_assert {p : List α → List α → Bool} (h : p before rest = true) :
    Takes (assert p).ends [] before rest := by
  simp [Takes, ends, h]

theorem takes_alt (hr : Takes r.ends w before rest) (s : Regex α) :
    Takes (alt r s).ends w before rest := by
  rw [Takes] at hr
  rw [Takes, ends, List.head?_append, hr]
  rfl

/-- The second alternative, if there is no match of the first. -/
theorem takes_alt_of_ends_nil (hr : r.ends ⟨before, w ++ rest⟩ = [])
    (hs : Takes s.ends w before rest) : Takes (alt r s).ends w before rest := by
  rw [Takes, ends, hr, List.nil_append]
  exact hs

/-- One character of each class. -/
theorem takes_classes {ps : List (α → Bool)} (h : List.Forall₂ (fun p x => p x = true) ps w)
    (before rest : List α) : Takes (seqs (ps.map cls)).ends w before rest := by
  induction h generalizing before with
  | nil => exact takes_assert rfl
  | @cons p x ps w hx h ih =>
      cases ps with
      | nil =>
          obtain rfl : w = [] := List.forall₂_nil_left_iff.mp h
          exact takes_cls hx before rest
      | cons q ps => exact takes_seq (takes_cls hx before (w ++ rest)) (ih _)

/-- There is no match if the next character is none of the expression. -/
theorem ends_eq_nil (hr : r.Forces fun _ => True)
    (hstop : ∀ x, rest.head? = some x → r.reads x = false) : r.ends ⟨before, rest⟩ = [] := by
  refine List.eq_nil_iff_forall_not_mem.mpr fun c' hc' => ?_
  obtain ⟨u, hpast, x, hx, -⟩ := exists_of_forces hr hc'
  obtain ⟨v, hpast', hreads⟩ := reads_ends r _ c' hc'
  obtain rfl := hpast.text_unique hpast'
  obtain ⟨y, u, rfl⟩ := List.exists_cons_of_ne_nil (List.ne_nil_of_mem hx)
  have hhead : rest.head? = some y := by
    have hafter : rest = y :: u ++ c'.after := hpast.1
    rw [hafter]
    rfl
  exact Bool.false_ne_true ((hstop y hhead).symm.trans (hreads y List.mem_cons_self))

theorem ends_seq_nil {c : Cursor α} (h : r.ends c = []) (s : Regex α) : (seq r s).ends c = [] := by
  rw [ends, h, List.flatMap_nil]

/-! ## Repetitions -/

/-- The blocks are taken one after the other. -/
inductive TakesAll (step : Cursor α → List (Cursor α)) : List (List α) → List α → List α → Prop where
  | nil (before rest : List α) : TakesAll step [] before rest
  | cons {u : List α} {us : List (List α)} {before rest : List α}
      (h : Takes step u before (us.flatten ++ rest))
      (hs : TakesAll step us (u.reverse ++ before) rest) : TakesAll step (u :: us) before rest

theorem takes_exactly {us : List (List α)} (h : TakesAll f us before rest) :
    Takes (exactly f us.length) us.flatten before rest := by
  induction h with
  | nil before rest => rfl
  | cons h hs ih => exact h.trans ih

/-- As many rounds as there are blocks, or more if no block can follow. -/
theorem takes_upTo {us : List (List α)} (h : TakesAll f us before rest) {n : Nat}
    (hn : us.length ≤ n)
    (hstop : n = us.length ∨ f ⟨us.flatten.reverse ++ before, rest⟩ = []) :
    Takes (upTo f n) us.flatten before rest := by
  induction h generalizing n with
  | nil before rest =>
      rcases hstop with rfl | hstop
      · rfl
      · have hend : upTo f n ⟨before, rest⟩ = [⟨before, rest⟩] := upTo_stuck (by simpa using hstop) n
        simp [Takes, hend]
  | @cons u us before rest h hs ih =>
      obtain ⟨n, rfl⟩ := Nat.exists_eq_succ_of_ne_zero (n := n) (by
        rw [List.length_cons] at hn
        omega)
      have hmore : Takes (upTo f n) us.flatten (u.reverse ++ before) rest := by
        refine ih (by simpa using hn) ?_
        refine hstop.imp (fun heq => by simpa using heq) fun hnil => ?_
        simpa using hnil
      have hboth := h.trans hmore
      rw [Takes] at hboth
      rw [Takes, List.flatten_cons, Nat.succ_eq_add_one, upTo, List.head?_append, hboth]
      rfl

theorem TakesAll.append_iff {us vs : List (List α)} :
    TakesAll f (us ++ vs) before rest ↔
      TakesAll f us before (vs.flatten ++ rest) ∧
        TakesAll f vs (us.flatten.reverse ++ before) rest := by
  induction us generalizing before with
  | nil => exact ⟨fun h => ⟨.nil _ _, by simpa using h⟩, fun h => by simpa using h.2⟩
  | cons u us ih =>
      constructor
      · intro h
        cases h with
        | cons h hs =>
            obtain ⟨h₁, h₂⟩ := ih.mp hs
            refine ⟨.cons (by simpa using h) h₁, by simpa using h₂⟩
      · rintro ⟨h₁, h₂⟩
        cases h₁ with
        | cons h hs => exact .cons (by simpa using h) (ih.mpr ⟨hs, by simpa using h₂⟩)

theorem length_le_length_flatten {us : List (List α)} (h : [] ∉ us) :
    us.length ≤ us.flatten.length := by
  induction us with
  | nil => exact Nat.le_refl _
  | cons u us ih =>
      have hu : 0 < u.length := List.length_pos_of_ne_nil fun hnil => h (hnil ▸ List.mem_cons_self)
      have hrest := ih fun hmem => h (List.mem_cons_of_mem u hmem)
      rw [List.length_cons, List.flatten_cons, List.length_append]
      omega

/-- A repetition takes the blocks, if there are enough of them, not too many,
and either as many as there may be or no other to follow. -/
theorem takes_rep {lo : Nat} {hi : Option Nat} {us : List (List α)}
    (h : TakesAll r.ends us before rest) (hlo : lo ≤ us.length) (hhi : ∀ m ∈ hi, us.length ≤ m)
    (hnil : [] ∉ us)
    (hstop : hi = some us.length ∨ r.ends ⟨us.flatten.reverse ++ before, rest⟩ = []) :
    Takes (rep lo hi r).ends us.flatten before rest := by
  obtain ⟨vs, ws, rfl, rfl⟩ : ∃ vs ws, us = vs ++ ws ∧ vs.length = lo :=
    ⟨us.take lo, us.drop lo, (List.take_append_drop lo us).symm, by simpa using hlo⟩
  obtain ⟨hfirst, hmore⟩ := TakesAll.append_iff.mp h
  have hws : [] ∉ ws := fun hmem => hnil (List.mem_append_right _ hmem)
  rw [Takes, List.flatten_append, List.append_assoc, List.reverse_append, List.append_assoc]
  refine head?_flatMap_of_head? (takes_exactly hfirst) (takes_upTo hmore ?_ ?_)
  · cases hi with
    | some m =>
        have := hhi m rfl
        rw [List.length_append] at this
        simp only [Option.elim_some]
        omega
    | none =>
        have := length_le_length_flatten hws
        simp only [Option.elim_none, List.length_append]
        omega
  · refine hstop.imp (fun heq => ?_) fun hend => by simpa using hend
    subst heq
    simp

/-- A run of a class, up to where it may go. -/
theorem takes_run {lo : Nat} {hi : Option Nat} {p : α → Bool} (hw : w ∈ runOf lo hi p)
    (hhi : ∀ m ∈ hi, lo ≤ m)
    (hstop : hi = some w.length ∨ ∀ x, rest.head? = some x → p x = false) :
    Takes (rep lo hi (cls p)).ends w before rest := by
  obtain ⟨hlo, hmax, hclass⟩ := hw
  have hflat : (w.map fun x => [x]).flatten = w := by
    rw [← List.flatMap_def]
    exact List.flatMap_singleton' w
  have hall : ∀ before, TakesAll (cls p).ends (w.map fun x => [x]) before rest := by
    clear hlo hmax hhi hstop hflat
    induction w with
    | nil => exact fun before => .nil before rest
    | cons x w ih =>
        intro before
        exact .cons (takes_cls (hclass x List.mem_cons_self) _ _)
          (ih (fun y hy => hclass y (List.mem_cons_of_mem _ hy)) _)
  have hend : hi = some (w.map fun x => [x]).length ∨
      (cls p).ends ⟨(w.map fun x => [x]).flatten.reverse ++ before, rest⟩ = [] := by
    rw [hflat, List.length_map]
    refine hstop.imp_right fun hrest => ?_
    cases rest with
    | nil => rfl
    | cons x rest => simp [ends, hrest x rfl]
  have hfew : ∀ m ∈ hi, (w.map fun x => [x]).length ≤ m := fun m hm => by
    have hle := hmax m hm
    rwa [Nat.max_eq_right (hhi m hm), ← List.length_map (fun x => [x])] at hle
  have h : Takes (rep lo hi (cls p)).ends (w.map fun x => [x]).flatten before rest :=
    takes_rep (hall before) (by simpa using hlo) hfew (by simp) hend
  rwa [hflat] at h

/-- A run of a fixed length. -/
theorem takes_times {n : Nat} {p : α → Bool} (hw : w ∈ runOf n (some n) p) :
    Takes (times n (cls p)).ends w before rest := by
  have hlen : w.length = n := Nat.le_antisymm (by simpa using hw.2.1 n rfl) hw.1
  exact takes_run hw (by simp) (.inl (by rw [hlen]))

theorem ends_opt (r : Regex α) (c : Cursor α) : (opt r).ends c = r.ends c ++ [c] := by
  simp [opt, ends, exactly, upTo]

theorem takes_opt (h : Takes r.ends w before rest) : Takes (opt r).ends w before rest := by
  rw [Takes] at h
  rw [Takes, ends_opt, List.head?_append, h]
  rfl

theorem takes_opt_of_ends_nil (h : r.ends ⟨before, rest⟩ = []) :
    Takes (opt r).ends [] before rest := by
  rw [Takes, ends_opt, List.nil_append, h]
  rfl

/-! ## Giving back -/

theorem ends_cls_cons {p : α → Bool} {x : α} (hx : p x = true) (before rest : List α) :
    (cls p).ends ⟨before, x :: rest⟩ = [⟨x :: before, rest⟩] := by
  simp [ends, hx]

theorem exactly_run {p : α → Bool} (hw : ∀ x ∈ w, p x = true) (before rest : List α) :
    exactly (cls p).ends w.length ⟨before, w ++ rest⟩ = [⟨w.reverse ++ before, rest⟩] := by
  induction w generalizing before with
  | nil => rfl
  | cons x w ih =>
      have hrest := ih (fun y hy => hw y (List.mem_cons_of_mem _ hy)) (x :: before)
      rw [List.length_cons, List.cons_append, exactly, ends_cls_cons (hw x List.mem_cons_self),
        List.flatMap_cons, List.flatMap_nil, List.append_nil, hrest]
      simp

/-- What follows fails wherever more than nothing of the run has been
taken, so the run is given back. -/
theorem upTo_giveBack {p : α → Bool} {n : Nat} {x : List α} (hx : ∀ y ∈ x, p y = true)
    (hstop : n ≤ x.length ∨ ∀ y, rest.head? = some y → p y = false)
    (hfail : ∀ y z, x = y ++ z → y ≠ [] → g ⟨y.reverse ++ before, z ++ rest⟩ = []) :
    (upTo (cls p).ends n ⟨before, x ++ rest⟩).flatMap g = g ⟨before, x ++ rest⟩ := by
  induction x generalizing n before with
  | nil =>
      have hend : upTo (cls p).ends n ⟨before, rest⟩ = [⟨before, rest⟩] := by
        rcases hstop with hzero | hrest
        · obtain rfl : n = 0 := by simpa using hzero
          rfl
        · refine upTo_stuck ?_ n
          cases rest with
          | nil => rfl
          | cons y rest => simp [ends, hrest y rfl]
      simp [hend]
  | cons a x ih =>
      cases n with
      | zero => simp [upTo]
      | succ n =>
          have ha : p a = true := hx a List.mem_cons_self
          have hx' : ∀ y ∈ x, p y = true := fun y hy => hx y (List.mem_cons_of_mem a hy)
          have hstop' : n ≤ x.length ∨ ∀ y, rest.head? = some y → p y = false :=
            hstop.imp_left fun hle => by simpa using hle
          have hfail' : ∀ y z, x = y ++ z → y ≠ [] →
              g ⟨y.reverse ++ a :: before, z ++ rest⟩ = [] := fun y z heq hy => by
            simpa using hfail (a :: y) z (by simp [heq]) (by simp)
          have hmore := ih hx' hstop' hfail'
          have hnone : g ⟨a :: before, x ++ rest⟩ = [] := hfail [a] x rfl (by simp)
          rw [List.cons_append, upTo_single (ends_cls_cons ha before (x ++ rest)),
            List.flatMap_append, hmore, hnone]
          simp

/-- **A run that is given back** as far as what follows needs it. -/
theorem takes_giveBack {lo : Nat} {hi : Option Nat} {p : α → Bool} {x : List α}
    (hall : ∀ y ∈ w ++ x, p y = true) (hlo : lo ≤ w.length) (hhi : ∀ m ∈ hi, w.length ≤ m)
    (hstop : (∃ m ∈ hi, m ≤ (w ++ x).length) ∨ ∀ y, rest.head? = some y → p y = false)
    (hfail : ∀ y z, x = y ++ z → y ≠ [] →
      s.ends ⟨y.reverse ++ (w.reverse ++ before), z ++ rest⟩ = [])
    (hs : Takes s.ends x (w.reverse ++ before) rest) :
    Takes (seq (rep lo hi (cls p)) s).ends (w ++ x) before rest := by
  obtain ⟨u, v, rfl, rfl⟩ : ∃ u v, w = u ++ v ∧ u.length = lo :=
    ⟨w.take lo, w.drop lo, (List.take_append_drop lo w).symm, by simpa using hlo⟩
  have hu : ∀ y ∈ u, p y = true := fun y hy => hall y (by simp [hy])
  have hv : ∀ y ∈ v, p y = true := fun y hy => hall y (by simp [hy])
  have hx : ∀ y ∈ x, p y = true := fun y hy => hall y (by simp [hy])
  have hrun : ∀ (v before : List α) (n : Nat), (∀ y ∈ v, p y = true) → v.length ≤ n →
      (n ≤ v.length + x.length ∨ ∀ y, rest.head? = some y → p y = false) →
      (∀ y z, x = y ++ z → y ≠ [] → s.ends ⟨y.reverse ++ (v.reverse ++ before), z ++ rest⟩ = []) →
      Takes s.ends x (v.reverse ++ before) rest →
      ((upTo (cls p).ends n ⟨before, v ++ (x ++ rest)⟩).flatMap s.ends).head? =
        some ⟨x.reverse ++ (v.reverse ++ before), rest⟩ := by
    intro v
    induction v with
    | nil =>
        intro before n hv hn hstop hfail hs
        rw [List.nil_append, upTo_giveBack hx (by simpa using hstop) (by simpa using hfail)]
        exact hs
    | cons a v ih =>
        intro before n hv hn hstop hfail hs
        cases n with
        | zero => simp at hn
        | succ n =>
            have ha : p a = true := hv a List.mem_cons_self
            have hmore := ih (a :: before) n (fun y hy => hv y (List.mem_cons_of_mem _ hy))
              (by simpa using hn) (hstop.imp_left fun hle => by simp at hle; omega)
              (by simpa using hfail) (by simpa using hs)
            rw [List.cons_append, upTo_single (ends_cls_cons ha before _), List.flatMap_append,
              List.head?_append, hmore]
            simp
  have hlen : v.length ≤ hi.elim (v ++ (x ++ rest)).length (· - u.length) ∧
      (hi.elim (v ++ (x ++ rest)).length (· - u.length) ≤ v.length + x.length ∨
        ∀ y, rest.head? = some y → p y = false) := by
    cases hi with
    | none => exact ⟨by simp, hstop.imp_left (by simp)⟩
    | some m =>
        have hm := hhi m rfl
        simp only [List.length_append] at hm
        refine ⟨by simp only [Option.elim_some]; omega, hstop.imp_left ?_⟩
        rintro ⟨m', hm', hle⟩
        obtain rfl := Option.some.inj hm'
        simp only [List.length_append] at hle
        simp only [Option.elim_some]
        omega
  have h := hrun v (u.reverse ++ before) _ hv hlen.1 hlen.2 (by simpa using hfail) (by simpa using hs)
  have hends : (seq (rep u.length hi (cls p)) s).ends ⟨before, u ++ (v ++ (x ++ rest))⟩ =
      (upTo (cls p).ends (hi.elim (v ++ (x ++ rest)).length (· - u.length))
        ⟨u.reverse ++ before, v ++ (x ++ rest)⟩).flatMap s.ends := by
    show ((exactly (cls p).ends u.length ⟨before, u ++ (v ++ (x ++ rest))⟩).flatMap _).flatMap _ = _
    rw [exactly_run hu, List.flatMap_cons, List.flatMap_nil, List.append_nil]
  rw [Takes, List.append_assoc, List.append_assoc, hends, h]
  simp

end Rules

/-! ## Where a match ends -/

theorem EndsIn.alt {q : Cursor α → Prop} {L : Language α} {r s : Regex α} (hr : EndsIn q L r)
    (hs : EndsIn q L s) : EndsIn q L (alt r s) := by
  intro c c' h
  rcases List.mem_append.mp h with h | h
  · exact hr c c' h
  · exact hs c c' h

/-- What is taken up to the end of the text ends as every match does. -/
theorem EndsIn.of_takes {q : Cursor α → Prop} {L : Language α} {r : Regex α} (h : EndsIn q L r)
    {before w : List α} (ht : Takes r.ends w before []) : q ⟨w.reverse ++ before, []⟩ := by
  obtain ⟨-, -, -, -, hq⟩ := h _ _ (List.mem_of_head? ht)
  exact hq

/-! ## From a match to a scan -/

/-- A text that is taken whole is all that a scan finds from there. -/
theorem piecesFrom_of_takes {r : Regex α} {before w : List α} (hw : w ≠ [])
    (h : Takes r.ends w before []) : r.piecesFrom 0 before w = [.found w] := by
  have hmatch : r.match? before w = some w := by
    rw [Takes, List.append_nil] at h
    simp [match?, h]
  obtain ⟨x, w, rfl⟩ := List.exists_cons_of_ne_nil hw
  have hskip : ∀ (v before : List α), r.piecesFrom v.length before v = [] := by
    intro v
    induction v with
    | nil => exact fun before => rfl
    | cons y v ih => exact fun before => ih (y :: before)
  rw [piecesFrom, hmatch]
  simp only
  rw [hskip]

/-- Where there is no match, the character is kept. -/
theorem piecesFrom_of_ends_nil {r : Regex α} {before : List α} {x : α} {after : List α}
    (h : r.ends ⟨before, x :: after⟩ = []) :
    r.piecesFrom 0 before (x :: after) = .kept x :: r.piecesFrom 0 (x :: before) after := by
  have hmatch : r.match? before (x :: after) = none := by simp [match?, h]
  rw [piecesFrom, hmatch]

/-- What is found is behind a place of the text. -/
theorem past_of_found {r : Regex α} {k : Nat} {before after w : List α}
    (h : .found w ∈ r.piecesFrom k before after) :
    ∃ c c', c' ∈ r.ends c ∧ c.Past w c' ∧
      c.before.reverse ++ c.after = before.reverse ++ after := by
  induction after generalizing k before with
  | nil => cases k <;> simp [piecesFrom] at h
  | cons x after ih =>
      have hplace : (x :: before).reverse ++ after = before.reverse ++ x :: after := by simp
      cases k with
      | succ k => exact hplace ▸ ih h
      | zero =>
          rw [piecesFrom] at h
          split at h
          · next m v hmatch =>
              rcases List.mem_cons.mp h with heq | h
              · obtain rfl := Piece.found.inj heq
                rw [match?, Option.map_eq_some_iff] at hmatch
                obtain ⟨c', hc', hw⟩ := hmatch
                obtain ⟨u, hpast, -⟩ := reads_ends r _ c' (List.mem_of_head? hc')
                have htext : x :: after = u ++ c'.after := hpast.1
                rw [htext] at hw
                obtain rfl : u = m :: v := by simpa using hw
                exact ⟨⟨before, x :: after⟩, c', List.mem_of_head? hc', hpast, rfl⟩
              · exact hplace ▸ ih h
          · rcases List.mem_cons.mp h with heq | h
            · cases heq
            · exact hplace ▸ ih h

theorem Within.mem_of_found {L : Language α} {r : Regex α} (h : Within L r.ends) {k : Nat}
    {before after w : List α} (hw : .found w ∈ r.piecesFrom k before after) : w ∈ L := by
  obtain ⟨c, c', hc', hpast, -⟩ := past_of_found hw
  obtain ⟨v, hv, hpast'⟩ := h c c' hc'
  rwa [hpast.text_unique hpast']

/-- What is found passes a character that every match passes. -/
theorem exists_of_found {p : α → Prop} {r : Regex α} (hr : r.Forces p) {k : Nat}
    {before after w : List α} (hw : .found w ∈ r.piecesFrom k before after) : ∃ x ∈ w, p x := by
  obtain ⟨c, c', hc', hpast, -⟩ := past_of_found hw
  obtain ⟨v, hpast', hex⟩ := exists_of_forces hr hc'
  rwa [hpast.text_unique hpast']

/-- What is found is a stretch of what is scanned. -/
theorem infix_of_found {r : Regex α} {before after w : List α}
    (hw : .found w ∈ r.piecesFrom 0 before after) : w <:+: after := by
  obtain ⟨ps, qs, hpieces⟩ := List.append_of_mem hw
  have hspan := span_piecesFrom r 0 before after
  rw [hpieces, List.flatMap_append, List.flatMap_cons, List.drop_zero] at hspan
  exact ⟨ps.flatMap Piece.span, qs.flatMap Piece.span, by rw [List.append_assoc]; exact hspan⟩

/-- A scan that finds nothing keeps the text. -/
theorem piecesFrom_eq_kept {r : Regex α} {before after : List α}
    (h : ∀ w, .found w ∉ r.piecesFrom 0 before after) :
    r.piecesFrom 0 before after = after.map .kept := by
  induction after generalizing before with
  | nil => rfl
  | cons x after ih =>
      rw [piecesFrom] at h ⊢
      split
      · next m v hmatch =>
          simp only [hmatch] at h
          exact absurd List.mem_cons_self (h (m :: v))
      · next hmatch =>
          have hrest : ∀ w, .found w ∉ r.piecesFrom 0 (x :: before) after := by
            intro w hw
            refine h w ?_
            split
            · next m v hm => exact absurd hm (hmatch m v)
            · exact List.mem_cons_of_mem _ hw
          rw [List.map_cons, ih hrest]

end Regex

end ThreatIntel
