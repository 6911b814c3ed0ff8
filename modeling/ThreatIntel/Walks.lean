import Mathlib.Data.List.Chain
import Mathlib.Data.List.Nodup
import Mathlib.Data.List.Perm.Subperm
import Mathlib.Data.Nat.Find

/-!
# Walks

Following a relation a number of times: what is reached in so many hops
(`Hops`) or in no more (`Within`), the routes that lead there, and the
shortest of them, which visit nothing twice (`Shortest.nodup`). Where every
element has a list of successors, all of this can be searched for
(`mem_within`, `shortest?_spec`).
-/

namespace ThreatIntel

namespace Walks

variable {α : Type*} {r s : α → α → Prop} {a b c : α} {m n : Nat} {l : List α}

/-! ## Hops -/

/-- The second is reached from the first in so many hops. -/
inductive Hops (r : α → α → Prop) : Nat → α → α → Prop where
  | here {a : α} : Hops r 0 a a
  | hop {n : Nat} {a b c : α} (first : r a b) (rest : Hops r n b c) : Hops r (n + 1) a c

/-- In so many hops or fewer. -/
def Within (r : α → α → Prop) (n : Nat) (a b : α) : Prop := ∃ m ≤ n, Hops r m a b

theorem hops_zero : Hops r 0 a b ↔ a = b := by
  constructor
  · rintro ⟨⟩
    rfl
  · rintro rfl
    exact .here

theorem Hops.mono (hrs : ∀ a b, r a b → s a b) (h : Hops r n a b) : Hops s n a b := by
  induction h with
  | here => exact .here
  | hop first _ ih => exact .hop (hrs _ _ first) ih

theorem Hops.concat (h : Hops r n a b) (last : r b c) : Hops r (n + 1) a c := by
  induction h with
  | here => exact .hop last .here
  | hop first _ ih => exact .hop first (ih last)

/-- The last hop. -/
theorem hops_succ_iff : Hops r (n + 1) a c ↔ ∃ b, Hops r n a b ∧ r b c := by
  constructor
  · intro h
    induction n generalizing a with
    | zero =>
        cases h with
        | hop first rest =>
            obtain rfl := hops_zero.mp rest
            exact ⟨a, .here, first⟩
    | succ n ih =>
        cases h with
        | hop first rest =>
            obtain ⟨b, hb, last⟩ := ih rest
            exact ⟨b, .hop first hb, last⟩
  · rintro ⟨b, hb, last⟩
    exact hb.concat last

theorem Within.mono (hrs : ∀ a b, r a b → s a b) (hmn : m ≤ n) (h : Within r m a b) :
    Within s n a b := by
  obtain ⟨k, hk, hops⟩ := h
  exact ⟨k, hk.trans hmn, hops.mono hrs⟩

theorem within_self (n : Nat) (a : α) : Within r n a a := ⟨0, Nat.zero_le n, .here⟩

/-- One hop more reaches what is next to something that was reached. -/
theorem within_succ_iff : Within r (n + 1) a c ↔ Within r n a c ∨ ∃ b, Within r n a b ∧ r b c := by
  constructor
  · rintro ⟨k, hk, hops⟩
    cases k with
    | zero => exact .inl ⟨0, Nat.zero_le n, hops⟩
    | succ k =>
        obtain ⟨b, hb, last⟩ := hops_succ_iff.mp hops
        exact .inr ⟨b, ⟨k, by omega, hb⟩, last⟩
  · rintro (h | ⟨b, ⟨k, hk, hops⟩, last⟩)
    · exact h.mono (fun _ _ => id) (by omega)
    · exact ⟨k + 1, by omega, hops.concat last⟩

/-! ## Routes -/

/-- The list of what a walk visits. -/
structure Route (r : α → α → Prop) (a b : α) (l : List α) : Prop where
  start : l.head? = some a
  finish : l.getLast? = some b
  chain : l.IsChain r

theorem route_singleton (a : α) : Route r a a [a] := ⟨rfl, rfl, .singleton a⟩

theorem Route.cons (h : Route r b c l) (first : r a b) : Route r a c (a :: l) where
  start := rfl
  finish := by
    obtain ⟨start, finish, -⟩ := h
    cases l with
    | nil => cases start
    | cons x l => rwa [List.getLast?_cons_cons]
  chain := List.isChain_cons.mpr
    ⟨fun x hx => by rw [h.start] at hx; exact Option.some.inj hx ▸ first, h.chain⟩

/-- A route from its second element on. -/
theorem Route.tail {x : α} (h : Route r a c (a :: x :: l)) : r a x ∧ Route r x c (x :: l) := by
  obtain ⟨-, finish, chain⟩ := h
  rw [List.getLast?_cons_cons] at finish
  rw [List.isChain_cons_cons] at chain
  exact ⟨chain.1, rfl, finish, chain.2⟩

theorem Route.hops (h : Route r a c (b :: l)) : Hops r l.length a c := by
  induction l generalizing a b with
  | nil =>
      obtain ⟨⟨⟩, ⟨⟩, -⟩ := h
      exact .here
  | cons x l ih =>
      obtain rfl : b = a := Option.some.inj h.start
      exact .hop h.tail.1 (ih h.tail.2)

theorem Hops.exists_route (h : Hops r n a b) : ∃ l, Route r a b l ∧ l.length = n + 1 := by
  induction h with
  | here => exact ⟨[_], route_singleton _, rfl⟩
  | hop first _ ih =>
      obtain ⟨l, hl, hlen⟩ := ih
      exact ⟨_ :: l, hl.cons first, by rw [List.length_cons, hlen]⟩

/-- A route on which nothing can be saved. -/
structure Shortest (r : α → α → Prop) (a b : α) (l : List α) : Prop extends Route r a b l where
  least : ∀ n, Hops r n a b → l.length ≤ n + 1

/-- **A shortest route visits nothing twice**: coming back would be a detour. -/
theorem Shortest.nodup (h : Shortest r a b l) : l.Nodup := by
  induction l generalizing a with
  | nil => exact List.nodup_nil
  | cons x l ih =>
      obtain rfl : x = a := Option.some.inj h.start
      cases l with
      | nil => exact List.nodup_singleton x
      | cons y l =>
          obtain ⟨first, htail⟩ := h.toRoute.tail
          have hleast : ∀ n, Hops r n y b → (y :: l).length ≤ n + 1 := fun n hn => by
            have := h.least (n + 1) (.hop first hn)
            rw [List.length_cons] at this
            omega
          refine List.nodup_cons.mpr ⟨fun hmem => ?_, ih ⟨htail, hleast⟩⟩
          -- the rest of the route from the second visit on
          obtain ⟨u, v, huv⟩ := List.append_of_mem hmem
          have hfinish := htail.finish
          have hchain := htail.chain
          rw [huv] at hchain hfinish
          have hdirect : Route r x b (x :: v) :=
            ⟨rfl, by simpa using hfinish, (List.isChain_append.mp hchain).2.1⟩
          have hlen := h.least _ hdirect.hops
          rw [huv] at hlen
          simp at hlen
          omega

/-- Among finitely many elements no more hops are needed than there are
elements. -/
theorem Hops.exists_lt {nodes : List α} (ha : a ∈ nodes) (hnodes : ∀ a b, r a b → b ∈ nodes)
    (h : Hops r n a b) : ∃ m < nodes.length, Hops r m a b := by
  classical
  have hexists : ∃ m, Hops r m a b := ⟨n, h⟩
  obtain ⟨l, hroute, hlen⟩ := (Nat.find_spec hexists).exists_route
  have hshortest : Shortest r a b l :=
    ⟨hroute, fun k hk => hlen ▸ Nat.succ_le_succ (Nat.find_min' hexists hk)⟩
  have hsubset : l ⊆ nodes := by
    have hchain := hroute.chain
    obtain ⟨x, l, rfl⟩ := List.exists_cons_of_length_eq_add_one hlen
    obtain rfl : x = a := Option.some.inj hroute.start
    intro y hy
    rcases List.mem_cons.mp hy with rfl | hy
    · exact ha
    · obtain ⟨u, v, rfl⟩ := List.append_of_mem hy
      rw [← List.cons_append] at hchain
      have hlast := (List.isChain_append.mp hchain).2.2
        _ (List.getLast_mem_getLast? (List.cons_ne_nil x u)) y rfl
      exact hnodes _ _ hlast
  have hle := (hshortest.nodup.subperm hsubset).length_le
  exact ⟨Nat.find hexists, by omega, Nat.find_spec hexists⟩

/-! ## Search -/

section Search

variable (succ : α → List α)

/-- What is reached in so many hops. -/
def after : Nat → α → List α
  | 0, a => [a]
  | n + 1, a => (succ a).flatMap (after n)

variable {succ}

theorem mem_after : b ∈ after succ n a ↔ Hops (fun a b => b ∈ succ a) n a b := by
  induction n generalizing a with
  | zero => rw [after, List.mem_singleton, hops_zero, eq_comm]
  | succ n ih =>
      rw [after, List.mem_flatMap]
      constructor
      · rintro ⟨x, hx, hb⟩
        exact .hop hx (ih.mp hb)
      · rintro (_ | ⟨hx, hb⟩)
        exact ⟨_, hx, ih.mpr hb⟩

variable [DecidableEq α] (succ)

/-- A route of so many hops. -/
def route : Nat → α → α → Option (List α)
  | 0, a, b => if a = b then some [a] else none
  | n + 1, a, b => (succ a).findSome? fun c => (route n c b).map (a :: ·)

/-- The least number of hops, up to a bound. -/
def distance? (bound : Nat) (a b : α) : Option Nat :=
  (List.range (bound + 1)).find? fun n => b ∈ after succ n a

def shortest? (bound : Nat) (a b : α) : Option (List α) :=
  (distance? succ bound a b).bind fun n => route succ n a b

variable {succ}

theorem route_spec (h : route succ n a b = some l) :
    Route (fun a b => b ∈ succ a) a b l ∧ l.length = n + 1 := by
  induction n generalizing a l with
  | zero =>
      by_cases hab : a = b
      · subst hab
        obtain rfl : [a] = l := by simpa [route] using h
        exact ⟨route_singleton a, rfl⟩
      · simp [route, hab] at h
  | succ n ih =>
      obtain ⟨c, hc, hroute⟩ := List.exists_of_findSome?_eq_some h
      obtain ⟨rest, hrest, rfl⟩ := Option.map_eq_some_iff.mp hroute
      obtain ⟨hrest, hlen⟩ := ih hrest
      exact ⟨hrest.cons hc, by rw [List.length_cons, hlen]⟩

theorem isSome_route (h : Hops (fun a b => b ∈ succ a) n a b) : (route succ n a b).isSome := by
  induction n generalizing a with
  | zero =>
      obtain rfl := hops_zero.mp h
      simp [route]
  | succ n ih =>
      cases h with
      | hop first rest =>
          rw [route, List.findSome?_isSome_iff]
          exact ⟨_, first, by rw [Option.isSome_map]; exact ih rest⟩

theorem distance?_eq_some_iff {bound : Nat} :
    distance? succ bound a b = some n ↔ n ≤ bound ∧ Hops (fun a b => b ∈ succ a) n a b ∧
      ∀ m, Hops (fun a b => b ∈ succ a) m a b → n ≤ m := by
  rw [distance?, List.find?_range_eq_some]
  simp only [decide_eq_true_eq, Bool.not_eq_true', decide_eq_false_iff_not, mem_after, List.mem_range]
  constructor
  · rintro ⟨hops, hn, hmin⟩
    exact ⟨by omega, hops, fun m hm => Nat.not_lt.mp fun hlt => hmin m hlt hm⟩
  · rintro ⟨hn, hops, hmin⟩
    exact ⟨hops, by omega, fun m hlt hm => by have := hmin m hm; omega⟩

/-- What is found is a shortest route. -/
theorem shortest_of_shortest? {bound : Nat} (h : shortest? succ bound a b = some l) :
    Shortest (fun a b => b ∈ succ a) a b l := by
  obtain ⟨n, hn, hroute⟩ := Option.bind_eq_some_iff.mp h
  obtain ⟨-, -, hmin⟩ := distance?_eq_some_iff.mp hn
  obtain ⟨hroute, hlen⟩ := route_spec hroute
  exact ⟨hroute, fun m hm => by have := hmin m hm; omega⟩

/-- Nothing is found only where nothing is to be found. -/
theorem shortest?_eq_none {nodes : List α} (ha : a ∈ nodes)
    (hnodes : ∀ a, ∀ b ∈ succ a, b ∈ nodes) (h : shortest? succ nodes.length a b = none) (n : Nat) :
    ¬ Hops (fun a b => b ∈ succ a) n a b := by
  classical
  intro hn
  have hexists : ∃ m, Hops (fun a b => b ∈ succ a) m a b := ⟨n, hn⟩
  obtain ⟨m, hm, hops⟩ := hn.exists_lt ha fun a b => hnodes a b
  have hdistance : distance? succ nodes.length a b = some (Nat.find hexists) :=
    distance?_eq_some_iff.mpr ⟨(Nat.find_min' hexists hops).trans hm.le, Nat.find_spec hexists,
      fun k hk => Nat.find_min' hexists hk⟩
  rw [shortest?, hdistance, Option.bind_some] at h
  have := isSome_route (Nat.find_spec hexists)
  rw [h] at this
  cases this

end Search

end Walks

end ThreatIntel
