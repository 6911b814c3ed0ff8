import Mathlib.Algebra.Order.Group.Defs
import Mathlib.Algebra.Order.Sub.Basic
import Mathlib.Data.List.TakeWhile

/-!
# Queues over a sliding window

A queue of times from which the ones that have fallen out of a window are
removed lazily: from the front when the queue is used, or all at once when
its last entry is stale. `Covers` ties such a queue to the history it was
filled from, and `Covers.prune_eq` reads the window off it: whatever was
removed, and whenever, pruning leaves the part of the history that lies in
the window.
-/

namespace ThreatIntel

namespace SlidingWindow

variable {K : Type*} [AddCommGroup K] [LinearOrder K]

/-- Pop from the front while the front is out of the window. -/
def prune (window now : K) (queue : List K) : List K := queue.dropWhile fun x => window < now - x

/-- What of a history lies in the window that ends `now`. -/
def inWindow (window now : K) (history : List K) : List K :=
  history.filter fun x => now - window ≤ x ∧ x ≤ now

/-- The queue is what is left of the history after some times have been
removed from the front, all of them out of the window that ends at `last`.
The history is in order and reaches up to `last`. -/
structure Covers (window last : K) (history queue : List K) : Prop where
  sorted : history.Pairwise (· ≤ ·)
  upTo : ∀ x ∈ history, x ≤ last
  suffix : ∃ dropped, history = dropped ++ queue ∧ ∀ x ∈ dropped, window < last - x

namespace Covers

variable {window last now : K} {history queue : List K}

theorem nil : Covers window last [] ([] : List K) :=
  ⟨List.Pairwise.nil, by simp, [], rfl, by simp⟩

/-- Something new is recorded. -/
theorem push (h : Covers window now history queue) :
    Covers window now (history ++ [now]) (queue ++ [now]) := by
  obtain ⟨dropped, heq, hstale⟩ := h.suffix
  refine ⟨?_, ?_, dropped, ?_, hstale⟩
  · simpa [List.pairwise_append] using ⟨h.sorted, h.upTo⟩
  · intro x hx
    rcases List.mem_append.mp hx with hx | hx
    · exact h.upTo x hx
    · exact (List.mem_singleton.mp hx).le
  · rw [heq, List.append_assoc]

theorem prune (h : Covers window now history queue) :
    Covers window now history (prune window now queue) := by
  obtain ⟨dropped, heq, hstale⟩ := h.suffix
  let stale := fun x : K => decide (window < now - x)
  refine ⟨h.sorted, h.upTo, dropped ++ queue.takeWhile stale, ?_, fun x hx => ?_⟩
  · rw [List.append_assoc, SlidingWindow.prune, List.takeWhile_append_dropWhile]
    exact heq
  · rcases List.mem_append.mp hx with hx | hx
    · exact hstale x hx
    · have hx : stale x = true := List.mem_takeWhile_imp hx
      exact of_decide_eq_true hx

variable [IsOrderedAddMonoid K]

/-- Time passes. -/
theorem later (h : Covers window last history queue) (hnow : last ≤ now) :
    Covers window now history queue := by
  obtain ⟨dropped, heq, hstale⟩ := h.suffix
  refine ⟨h.sorted, fun x hx => (h.upTo x hx).trans hnow, dropped, heq, fun x hx => ?_⟩
  exact (hstale x hx).trans_le (sub_le_sub_right hnow x)

/-- A queue whose last entry is out of the window may be dropped. -/
theorem drop (h : Covers window now history queue)
    (hlast : ∀ x, queue.getLast? = some x → window < now - x) :
    Covers window now history [] := by
  obtain ⟨dropped, heq, hstale⟩ := h.suffix
  refine ⟨h.sorted, h.upTo, history, (List.append_nil _).symm, fun x hx => ?_⟩
  rw [heq] at hx
  rcases List.mem_append.mp hx with hx | hx
  · exact hstale x hx
  · -- the last entry is the latest one
    obtain ⟨front, y, rfl⟩ : ∃ front y, queue = front ++ [y] :=
      ⟨_, _, (List.dropLast_concat_getLast (List.ne_nil_of_mem hx)).symm⟩
    have hy : window < now - y := hlast y (by simp)
    have hsorted : (front ++ [y]).Pairwise (· ≤ ·) :=
      (List.pairwise_append.mp (heq ▸ h.sorted)).2.1
    have hle : x ≤ y := by
      rcases List.mem_append.mp hx with hx | hx
      · exact (List.pairwise_append.mp hsorted).2.2 x hx y (List.mem_singleton_self y)
      · exact (List.mem_singleton.mp hx).le
    exact hy.trans_le (sub_le_sub_left hle now)

/-- Pruning a sorted queue removes everything that is out of the window. -/
theorem lt_of_mem_prune {x : K} (hsorted : queue.Pairwise (· ≤ ·))
    (hx : x ∈ SlidingWindow.prune window now queue) : now - x ≤ window := by
  induction queue with
  | nil => exact absurd hx List.not_mem_nil
  | cons y queue ih =>
      obtain ⟨hy, hrest⟩ := List.pairwise_cons.mp hsorted
      rw [SlidingWindow.prune, List.dropWhile_cons] at hx
      split at hx
      · exact ih hrest hx
      · next hfresh =>
          have hwindow : now - y ≤ window := by simpa using hfresh
          rcases List.mem_cons.mp hx with rfl | hx
          · exact hwindow
          · exact (sub_le_sub_left (hy x hx) now).trans hwindow

/-- What pruning leaves is the window. -/
theorem prune_eq (h : Covers window now history queue) :
    SlidingWindow.prune window now queue = inWindow window now history := by
  obtain ⟨dropped, heq, hstale⟩ := h.prune.suffix
  have hfresh : ∀ x ∈ SlidingWindow.prune window now queue, now - window ≤ x ∧ x ≤ now := by
    intro x hx
    have hqueue : queue.Pairwise (· ≤ ·) := by
      obtain ⟨dropped', heq', -⟩ := h.suffix
      exact (List.pairwise_append.mp (heq' ▸ h.sorted)).2.1
    have hmem : x ∈ history := heq ▸ List.mem_append_right dropped hx
    exact ⟨sub_le_comm.mp (lt_of_mem_prune hqueue hx), h.upTo x hmem⟩
  have hgone : ∀ x ∈ dropped, ¬ (now - window ≤ x ∧ x ≤ now) := by
    rintro x hx ⟨hge, -⟩
    exact absurd (sub_le_comm.mp hge) (not_le.mpr (hstale x hx))
  rw [inWindow, heq, List.filter_append, List.filter_eq_nil_iff.mpr (by simpa using hgone),
    List.filter_eq_self.mpr (by simpa using hfresh), List.nil_append]

end Covers

end SlidingWindow

end ThreatIntel
