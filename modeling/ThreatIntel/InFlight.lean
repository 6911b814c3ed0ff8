import Mathlib.Data.List.Basic

/-!
# Calls in flight

Concurrent calls as a list of phases: a call is started at the end of the
list, and moves on by replacing its own phase. What the others do stays,
so a count over the calls changes by the phase that moved, and a property
of every call has to be shown again for that phase alone.
-/

namespace ThreatIntel

namespace InFlight

variable {α : Type*} {calls : List α} {call : Nat} {old new : α}

/-- A call that moves on changes a count by its own phases. -/
theorem countP_set (h : calls[call]? = some old) (p : α → Bool) (new : α) :
    (calls.set call new).countP p + (if p old then 1 else 0) =
      calls.countP p + (if p new then 1 else 0) := by
  obtain ⟨hlt, rfl⟩ := List.getElem?_eq_some_iff.mp h
  rw [List.countP_set hlt]
  by_cases hold : p calls[call] = true
  · have hpos : 0 < calls.countP p := List.countP_pos_iff.mpr ⟨_, List.getElem_mem hlt, hold⟩
    rw [if_pos hold]
    omega
  · rw [if_neg hold]
    omega

theorem countP_set_le (h : calls[call]? = some old) {p : α → Bool}
    (hp : p new = true → p old = true) : (calls.set call new).countP p ≤ calls.countP p := by
  have hmove := countP_set h p new
  by_cases hnew : p new = true
  · rw [if_pos hnew, if_pos (hp hnew)] at hmove
    omega
  · rw [if_neg hnew] at hmove
    omega

theorem countP_set_eq (h : calls[call]? = some old) {p : α → Bool} (hp : p new = p old) :
    (calls.set call new).countP p = calls.countP p := by
  have hmove := countP_set h p new
  rw [hp] at hmove
  omega

/-- A call enters the count. -/
theorem countP_set_enter (h : calls[call]? = some old) {p : α → Bool} (hold : p old = false)
    (hnew : p new = true) : (calls.set call new).countP p = calls.countP p + 1 := by
  have hmove := countP_set h p new
  simpa [hold, hnew] using hmove

/-- A call leaves the count. -/
theorem countP_set_leave (h : calls[call]? = some old) {p : α → Bool} (hold : p old = true)
    (hnew : p new = false) : (calls.set call new).countP p + 1 = calls.countP p := by
  have hmove := countP_set h p new
  simpa [hold, hnew] using hmove

/-- A call is one among the others. -/
theorem any_eq_others (h : calls[call]? = some old) (p : α → Bool) :
    calls.any p = ((calls.eraseIdx call).any p || p old) := by
  obtain ⟨hlt, rfl⟩ := List.getElem?_eq_some_iff.mp h
  conv_lhs => rw [← List.take_append_drop call calls, List.drop_eq_getElem_cons hlt]
  rw [List.eraseIdx_eq_take_drop_succ, List.any_append, List.any_append, List.any_cons]
  rw [Bool.or_assoc, Bool.or_comm (p calls[call])]

theorem any_set (h : calls[call]? = some old) (p : α → Bool) (new : α) :
    (calls.set call new).any p = ((calls.eraseIdx call).any p || p new) := by
  obtain ⟨hlt, -⟩ := List.getElem?_eq_some_iff.mp h
  rw [any_eq_others (List.getElem?_set_self hlt), List.eraseIdx_set_eq]

theorem forall_mem_set {P : α → Prop} (h : ∀ c ∈ calls, P c) (hnew : P new) :
    ∀ c ∈ calls.set call new, P c := by
  intro c hc
  rcases List.mem_or_eq_of_mem_set hc with hc | rfl
  · exact h c hc
  · exact hnew

theorem forall_mem_concat {P : α → Prop} (h : ∀ c ∈ calls, P c) (hnew : P new) :
    ∀ c ∈ calls ++ [new], P c := by
  intro c hc
  rcases List.mem_append.mp hc with hc | hc
  · exact h c hc
  · exact List.mem_singleton.mp hc ▸ hnew

end InFlight

end ThreatIntel
