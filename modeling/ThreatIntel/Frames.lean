import Mathlib.Data.List.Chain
import Mathlib.Data.List.Infix

/-!
# Frames

A text in which two separators in a row end a frame, received in pieces of
any size. Splitting what has arrived, keeping the unfinished end and going
on with it finds the same frames as splitting the whole text (`received_eq`):
where a piece ends makes no difference, not even between two separators.
-/

namespace ThreatIntel

namespace Frames

variable {α : Type*} [DecidableEq α] {x : α} {s t : List α}

/-- An element in front of the first of the pieces. -/
def prepend (a : α) : List (List α) → List (List α)
  | [] => [[a]]
  | piece :: pieces => (a :: piece) :: pieces

/-- The pieces between two separators in a row, from the left. -/
def split (x : α) : List α → List (List α)
  | [] => [[]]
  | [a] => [[a]]
  | a :: b :: s => if a = x ∧ b = x then [] :: split x s else prepend a (split x (b :: s))

/-- The piece that has not ended. -/
def unfinished (x : α) (s : List α) : List α := (split x s).getLastD []

/-- The pieces that have. -/
def finished (x : α) (s : List α) : List (List α) := (split x s).dropLast

theorem split_ne_nil (x : α) (s : List α) : split x s ≠ [] := by
  cases s with
  | nil => exact List.cons_ne_nil _ _
  | cons a s =>
      cases s with
      | nil => exact List.cons_ne_nil _ _
      | cons b s =>
          rw [split]
          split
          · exact List.cons_ne_nil _ _
          · cases split x (b :: s) <;> exact List.cons_ne_nil _ _

theorem split_eq (x : α) (s : List α) : split x s = finished x s ++ [unfinished x s] := by
  have hne := split_ne_nil x s
  rw [finished, unfinished, List.getLastD_eq_getLast?, List.getLast?_eq_some_getLast hne]
  exact (List.dropLast_append_getLast hne).symm

/-- Where nothing has ended, nothing is missing. -/
theorem unfinished_eq_self (h : finished x s = []) : unfinished x s = s := by
  induction s using split.induct x with
  | case1 => rfl
  | case2 a => rfl
  | case3 a b s hsep ih =>
      have hne := split_ne_nil x s
      rw [finished, split, if_pos hsep, List.dropLast_cons_of_ne_nil hne] at h
      cases h
  | case4 a b s hsep ih =>
      have hsplit := split_eq x (b :: s)
      rw [finished, split, if_neg hsep, hsplit] at h
      cases hfinished : finished x (b :: s) with
      | nil =>
          rw [unfinished, split, if_neg hsep, hsplit, hfinished, List.nil_append, prepend,
            ih hfinished]
          rfl
      | cons piece pieces =>
          rw [hfinished, List.cons_append, prepend, ← List.cons_append, List.dropLast_concat] at h
          cases h

/-- **Splitting goes on where it stopped.** -/
theorem split_append (x : α) (s t : List α) :
    split x (s ++ t) = finished x s ++ split x (unfinished x s ++ t) := by
  induction s using split.induct x with
  | case1 => rfl
  | case2 a => rfl
  | case3 a b s hsep ih =>
      have hstart : split x (a :: b :: s) = [] :: split x s := by rw [split, if_pos hsep]
      have hfinished : finished x (a :: b :: s) = [] :: finished x s := by
        rw [finished, hstart, split_eq, ← List.cons_append, List.dropLast_concat]
      have hunfinished : unfinished x (a :: b :: s) = unfinished x s := by
        rw [unfinished, hstart, split_eq, ← List.cons_append, List.getLastD_concat]
      rw [hfinished, hunfinished, List.cons_append, List.cons_append, split, if_pos hsep, ih,
        List.cons_append]
  | case4 a b s hsep ih =>
      have hstart : split x (a :: b :: s) = prepend a (split x (b :: s)) := by
        rw [split, if_neg hsep]
      have hwhole : split x ((a :: b :: s) ++ t) = prepend a (split x ((b :: s) ++ t)) := by
        rw [List.cons_append, List.cons_append, split, if_neg hsep]
      rw [hwhole, ih]
      cases hfinished : finished x (b :: s) with
      | nil =>
          -- no separator so far: the whole text is unfinished
          have hself := unfinished_eq_self hfinished
          have hnil : finished x (a :: b :: s) = [] := by
            rw [finished, hstart, split_eq, hfinished]
            rfl
          rw [hnil, unfinished_eq_self hnil, hself, List.nil_append, List.nil_append, ← hwhole]
      | cons piece pieces =>
          have hsplit : split x (a :: b :: s) =
              ((a :: piece) :: pieces) ++ [unfinished x (b :: s)] := by
            rw [hstart, split_eq, hfinished]
            rfl
          have hlast : unfinished x (a :: b :: s) = unfinished x (b :: s) := by
            rw [unfinished, hsplit, List.getLastD_concat]
          rw [finished, hsplit, List.dropLast_concat, hlast]
          rfl

/-! ## Arrival in pieces -/

/-- What is split off as the chunks arrive, the unfinished end carried over. -/
def received (x : α) : List α → List (List α) → List (List α)
  | _, [] => []
  | buffer, chunk :: chunks =>
      finished x (buffer ++ chunk) ++ received x (unfinished x (buffer ++ chunk)) chunks

theorem finished_unfinished (x : α) (s : List α) : finished x (unfinished x s) = [] := by
  have h := congrArg List.length (split_append x s [])
  rw [List.append_nil, List.append_nil, split_eq x s, split_eq x (unfinished x s)] at h
  simp only [List.length_append, List.length_singleton] at h
  exact List.eq_nil_of_length_eq_zero (by omega)

theorem finished_append (x : α) (s t : List α) :
    finished x (s ++ t) = finished x s ++ finished x (unfinished x s ++ t) := by
  rw [finished, split_append, split_eq x (unfinished x s ++ t), ← List.append_assoc,
    List.dropLast_concat]

theorem received_of_finished {buffer : List α} (h : finished x buffer = []) (chunks : List (List α)) :
    received x buffer chunks = finished x (buffer ++ chunks.flatten) := by
  induction chunks generalizing buffer with
  | nil => rw [received, List.flatten_nil, List.append_nil, h]
  | cons chunk chunks ih =>
      rw [received, ih (finished_unfinished x _), List.flatten_cons, ← List.append_assoc,
        finished_append x (buffer ++ chunk)]

/-- **The chunks make no difference.** -/
theorem received_eq (x : α) (chunks : List (List α)) :
    received x [] chunks = finished x chunks.flatten := by
  rw [received_of_finished rfl, List.nil_append]

/-! ## Sending -/

/-- No two separators in a row, nor one at the end. -/
def Body (x : α) (body : List α) : Prop := (body ++ [x]).IsChain fun a b => ¬ (a = x ∧ b = x)

omit [DecidableEq α] in
theorem isChain_of_notMem (h : x ∉ s) : s.IsChain fun a b => ¬ (a = x ∧ b = x) := by
  refine List.Pairwise.isChain (List.pairwise_of_forall_mem_list ?_)
  exact fun a ha b _ hab => h (hab.1 ▸ ha)

omit [DecidableEq α] in
/-- A line in front of a text. -/
theorem isChain_append_line (hs : x ∉ s) (ht : t.IsChain fun a b => ¬ (a = x ∧ b = x)) :
    (s ++ t).IsChain fun a b => ¬ (a = x ∧ b = x) :=
  List.isChain_append.mpr
    ⟨isChain_of_notMem hs, ht, fun _ ha _ _ hab => hs (hab.1 ▸ List.mem_of_getLast? ha)⟩

omit [DecidableEq α] in
theorem body_of_line (h : x ∉ s) : Body x s := isChain_append_line h (.singleton x)

omit [DecidableEq α] in
/-- A body of two lines, of which the second is not empty. -/
theorem body_of_lines (hs : x ∉ s) (ht : x ∉ t) (hne : t ≠ []) : Body x (s ++ x :: t) := by
  have htail : (t ++ [x]).IsChain fun a b => ¬ (a = x ∧ b = x) := body_of_line ht
  obtain ⟨y, t, rfl⟩ := List.exists_cons_of_ne_nil hne
  have hy : y ≠ x := fun h => ht (h ▸ List.mem_cons_self)
  rw [Body, List.append_assoc, List.cons_append]
  exact isChain_append_line hs (List.isChain_cons_cons.mpr ⟨fun h => hy h.2, htail⟩)

/-- What is sent: every body with two separators behind it. -/
def sent (x : α) (bodies : List (List α)) : List α := bodies.flatMap (· ++ [x, x])

theorem split_body {body : List α} (h : Body x body) : split x (body ++ [x, x]) = [body, []] := by
  induction body with
  | nil => simp [split]
  | cons a body ih =>
      have hchain := List.isChain_cons.mp h
      have hrest := ih hchain.2
      cases body with
      | nil =>
          have ha : a ≠ x := fun ha => hchain.1 x rfl ⟨ha, rfl⟩
          simp [split, ha, prepend]
      | cons b body =>
          have hab : ¬ (a = x ∧ b = x) := hchain.1 b rfl
          rw [List.cons_append, List.cons_append, split, if_neg hab, ← List.cons_append, hrest,
            prepend]

theorem finished_sent {bodies : List (List α)} (h : ∀ body ∈ bodies, Body x body) :
    finished x (sent x bodies) = bodies := by
  induction bodies with
  | nil => rfl
  | cons body bodies ih =>
      obtain ⟨hbody, hrest⟩ := List.forall_mem_cons.mp h
      rw [sent, List.flatMap_cons, finished_append, finished, unfinished, split_body hbody, ← sent]
      exact congrArg (body :: ·) (ih hrest)

/-- **Everything sent is received, in whatever chunks**, and what has been
received before the end is the beginning of it. -/
theorem received_sent {bodies : List (List α)} (h : ∀ body ∈ bodies, Body x body)
    {chunks : List (List α)} (hchunks : chunks.flatten <+: sent x bodies) :
    received x [] chunks <+: bodies ∧
      (chunks.flatten = sent x bodies → received x [] chunks = bodies) := by
  rw [received_eq]
  constructor
  · obtain ⟨rest, hrest⟩ := hchunks
    exact ⟨_, by rw [← finished_sent h, ← hrest, finished_append]⟩
  · intro hall
    rw [hall, finished_sent h]

end Frames

end ThreatIntel
