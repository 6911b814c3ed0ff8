import Mathlib.Init

/-!
# Routines that may fail

A stateful computation that ends with a result or with an exception, and
leaves a state behind in either case. What a failure takes back is not
part of the monad: `atomically` undoes, on an exception, what a given
`rollback` puts back, and leaves alone what it does not (a message that
has been sent stays sent).

`Keeps` is the partial-correctness rule the clients use for invariants:
it composes along `bind` and needs no case analysis on how a computation
ended.
-/

namespace ThreatIntel

def Routine (ε ω : Type*) (α : Type) : Type _ := ω → Except ε α × ω

namespace Routine

variable {ε ω : Type*} {α β : Type}

/-- The result and the state left behind. -/
def run (x : Routine ε ω α) (w : ω) : Except ε α × ω := x w

instance : Monad (Routine ε ω) where
  pure a := fun w => (.ok a, w)
  bind x f := fun w =>
    match x w with
    | (.ok a, w') => f a w'
    | (.error e, w') => (.error e, w')

/-- `raise`. -/
def raise (e : ε) : Routine ε ω α := fun w => (.error e, w)

def gets (f : ω → α) : Routine ε ω α := fun w => (.ok (f w), w)

def update (f : ω → ω) : Routine ε ω Unit := fun w => (.ok (), f w)

/-- A read that changes the state, as a cache's does. -/
def modifyGet (f : ω → α × ω) : Routine ε ω α := fun w => (.ok (f w).1, (f w).2)

/-- Raise `e` if the condition holds. -/
def raiseIf (c : Bool) (e : ε) : Routine ε ω Unit := if c then raise e else pure ()

/-- A computation that does not touch the state. -/
def ofExcept (x : Except ε α) : Routine ε ω α := fun w => (x, w)

/-- `try: .. except E as exc: handler`, where `handler` answers `none` for
an exception it does not catch. -/
def tryExcept (x : Routine ε ω α) (handler : ε → Option (Routine ε ω α)) : Routine ε ω α := fun w =>
  match x w with
  | (.ok a, w') => (.ok a, w')
  | (.error e, w') =>
      match handler e with
      | some h => h w'
      | none => (.error e, w')

/-- A unit of work or a savepoint: on an exception `rollback before after`
is what is left. -/
def atomically (rollback : ω → ω → ω) (x : Routine ε ω α) : Routine ε ω α := fun w =>
  match x w with
  | (.ok a, w') => (.ok a, w')
  | (.error e, w') => (.error e, rollback w w')

/-- A routine on a part of the state. -/
def zoom {Ω : Type*} (get : Ω → ω) (put : ω → Ω → Ω) (x : Routine ε ω α) : Routine ε Ω α := fun w =>
  ((x (get w)).1, put (x (get w)).2 w)

/-! ## Equations -/

@[simp] theorem run_pure (a : α) (w : ω) : run (pure a : Routine ε ω α) w = (.ok a, w) := rfl

@[simp] theorem run_raise (e : ε) (w : ω) : run (raise e : Routine ε ω α) w = (.error e, w) := rfl

@[simp] theorem run_gets (f : ω → α) (w : ω) :
    run (gets f : Routine ε ω α) w = (.ok (f w), w) := rfl

@[simp] theorem run_update (f : ω → ω) (w : ω) :
    run (update f : Routine ε ω Unit) w = (.ok (), f w) := rfl

@[simp] theorem run_modifyGet (f : ω → α × ω) (w : ω) :
    run (modifyGet f : Routine ε ω α) w = (.ok (f w).1, (f w).2) := rfl

@[simp] theorem run_raiseIf (c : Bool) (e : ε) (w : ω) :
    run (raiseIf c e : Routine ε ω Unit) w = if c then (.error e, w) else (.ok (), w) := by
  cases c <;> rfl

@[simp] theorem run_ofExcept (x : Except ε α) (w : ω) :
    run (ofExcept x : Routine ε ω α) w = (x, w) := rfl

theorem run_bind (x : Routine ε ω α) (f : α → Routine ε ω β) (w : ω) :
    run (x >>= f) w =
      match run x w with
      | (.ok a, w') => run (f a) w'
      | (.error e, w') => (.error e, w') := rfl

@[simp] theorem run_bind_assoc {γ : Type} (x : Routine ε ω α) (f : α → Routine ε ω β)
    (g : β → Routine ε ω γ) (w : ω) :
    run (x >>= f >>= g) w = run (x >>= fun a => f a >>= g) w := by
  simp only [run_bind]
  rcases run x w with ⟨_ | a, w'⟩ <;> rfl

theorem run_bind_ok {x : Routine ε ω α} {w w' : ω} {a : α} (h : run x w = (.ok a, w'))
    (f : α → Routine ε ω β) : run (x >>= f) w = run (f a) w' := by
  rw [run_bind, h]

theorem run_bind_error {x : Routine ε ω α} {w w' : ω} {e : ε} (h : run x w = (.error e, w'))
    (f : α → Routine ε ω β) : run (x >>= f) w = (.error e, w') := by
  rw [run_bind, h]

@[simp] theorem run_bind_gets (g : ω → α) (f : α → Routine ε ω β) (w : ω) :
    run (gets g >>= f) w = run (f (g w)) w := rfl

@[simp] theorem run_bind_update (g : ω → ω) (f : Unit → Routine ε ω β) (w : ω) :
    run (update g >>= f) w = run (f ()) (g w) := rfl

@[simp] theorem run_bind_modifyGet (g : ω → α × ω) (f : α → Routine ε ω β) (w : ω) :
    run (modifyGet g >>= f) w = run (f (g w).1) (g w).2 := rfl

@[simp] theorem run_bind_raise (e : ε) (f : α → Routine ε ω β) (w : ω) :
    run (raise e >>= f) w = (.error e, w) := rfl

@[simp] theorem run_bind_pure (a : α) (f : α → Routine ε ω β) (w : ω) :
    run ((pure a : Routine ε ω α) >>= f) w = run (f a) w := rfl

@[simp] theorem run_bind_raiseIf (c : Bool) (e : ε) (f : Unit → Routine ε ω β) (w : ω) :
    run (raiseIf c e >>= f) w = if c then (.error e, w) else run (f ()) w := by
  cases c <;> rfl

theorem run_zoom {Ω : Type*} (get : Ω → ω) (put : ω → Ω → Ω) (x : Routine ε ω α) (w : Ω) :
    run (zoom get put x) w = ((run x (get w)).1, put (run x (get w)).2 w) := rfl

/-- A sequence has succeeded exactly if both parts have. -/
theorem run_bind_eq_ok {x : Routine ε ω α} {f : α → Routine ε ω β} {w w' : ω} {b : β} :
    run (x >>= f) w = (.ok b, w') ↔
      ∃ a w₁, run x w = (.ok a, w₁) ∧ run (f a) w₁ = (.ok b, w') := by
  rw [run_bind]
  constructor
  · intro h
    split at h
    · next a w₁ hx => exact ⟨a, w₁, hx, h⟩
    · cases h
  · rintro ⟨a, w₁, hx, hf⟩
    rw [hx]
    exact hf

/-- From this state the computation ends with a result. -/
def Succeeds (x : Routine ε ω α) (w : ω) : Prop := ∃ a w', run x w = (.ok a, w')

theorem succeeds_bind_iff {x : Routine ε ω α} {f : α → Routine ε ω β} {w : ω} :
    Succeeds (x >>= f) w ↔ ∃ a w', run x w = (.ok a, w') ∧ Succeeds (f a) w' := by
  constructor
  · rintro ⟨b, w', h⟩
    obtain ⟨a, w₁, hx, hf⟩ := run_bind_eq_ok.mp h
    exact ⟨a, w₁, hx, b, w', hf⟩
  · rintro ⟨a, w₁, hx, b, w', hf⟩
    exact ⟨b, w', run_bind_eq_ok.mpr ⟨a, w₁, hx, hf⟩⟩

theorem succeeds_bind_of_ok {x : Routine ε ω α} {f : α → Routine ε ω β} {w w' : ω} {a : α}
    (h : run x w = (.ok a, w')) : Succeeds (x >>= f) w ↔ Succeeds (f a) w' := by
  rw [Succeeds, Succeeds, run_bind_ok h]

theorem succeeds_of_run {x : Routine ε ω α} {w w' : ω} {a : α} (h : run x w = (.ok a, w')) :
    Succeeds x w := ⟨a, w', h⟩

theorem exists_error_of_not_succeeds {x : Routine ε ω α} {w : ω} (h : ¬ Succeeds x w) :
    ∃ e, run x w = (.error e, (run x w).2) := by
  rcases hx : run x w with ⟨e | a, w'⟩
  · exact ⟨e, rfl⟩
  · exact absurd ⟨a, w', hx⟩ h

/-! ## Exceptions that are caught -/

theorem tryExcept_ok {x : Routine ε ω α} {handler : ε → Option (Routine ε ω α)} {w w' : ω} {a : α}
    (h : run x w = (.ok a, w')) : run (tryExcept x handler) w = (.ok a, w') := by
  simp only [run] at h
  simp only [run, tryExcept, h]

theorem tryExcept_caught {x y : Routine ε ω α} {handler : ε → Option (Routine ε ω α)} {w w' : ω}
    {e : ε} (h : run x w = (.error e, w')) (hcaught : handler e = some y) :
    run (tryExcept x handler) w = run y w' := by
  simp only [run] at h
  simp only [run, tryExcept, h, hcaught]

/-! ## Units of work -/

theorem atomically_ok {rollback : ω → ω → ω} {x : Routine ε ω α} {w w' : ω} {a : α}
    (h : run x w = (.ok a, w')) : run (atomically rollback x) w = (.ok a, w') := by
  simp only [run] at h
  simp [run, atomically, h]

theorem atomically_error {rollback : ω → ω → ω} {x : Routine ε ω α} {w w' : ω} {e : ε}
    (h : run x w = (.error e, w')) :
    run (atomically rollback x) w = (.error e, rollback w w') := by
  simp only [run] at h
  simp [run, atomically, h]

/-- What ran alike runs on alike. -/
theorem run_bind_congr {x y : Routine ε ω α} {w : ω} (h : run x w = run y w)
    (f : α → Routine ε ω β) : run (x >>= f) w = run (y >>= f) w := by
  rw [run_bind, run_bind, h]

theorem run_atomically_congr {rollback : ω → ω → ω} {x y : Routine ε ω α} {w : ω}
    (h : run x w = run y w) : run (atomically rollback x) w = run (atomically rollback y) w := by
  simp only [run] at h
  simp only [run, atomically, h]

/-! ## Invariants -/

/-- However it ends, `x` leaves a state in `I` if it started in one. -/
def Keeps (I : ω → Prop) (x : Routine ε ω α) : Prop := ∀ w, I w → I (x.run w).2

theorem keeps_pure (I : ω → Prop) (a : α) : Keeps I (pure a : Routine ε ω α) := fun _ h => h

theorem keeps_raise (I : ω → Prop) (e : ε) : Keeps I (raise e : Routine ε ω α) := fun _ h => h

theorem keeps_gets (I : ω → Prop) (f : ω → α) : Keeps I (gets f : Routine ε ω α) := fun _ h => h

theorem keeps_update {I : ω → Prop} {f : ω → ω} (h : ∀ w, I w → I (f w)) :
    Keeps I (update f : Routine ε ω Unit) := h

theorem keeps_modifyGet {I : ω → Prop} {f : ω → α × ω} (h : ∀ w, I w → I (f w).2) :
    Keeps I (modifyGet f : Routine ε ω α) := h

theorem keeps_raiseIf (I : ω → Prop) (c : Bool) (e : ε) :
    Keeps I (raiseIf c e : Routine ε ω Unit) := by
  intro w h
  cases c <;> exact h

theorem Keeps.bind {I : ω → Prop} {x : Routine ε ω α} {f : α → Routine ε ω β}
    (hx : Keeps I x) (hf : ∀ a, Keeps I (f a)) : Keeps I (x >>= f) := by
  intro w h
  have hw : I (x.run w).2 := hx w h
  rw [run_bind]
  rcases hres : x.run w with ⟨_ | a, w'⟩
  · simpa [hres] using hw
  · exact hf a w' (by simpa [hres] using hw)

theorem Keeps.atomically {I : ω → Prop} {rollback : ω → ω → ω} {x : Routine ε ω α}
    (hx : Keeps I x) (hback : ∀ w w', I w → I w' → I (rollback w w')) :
    Keeps I (atomically rollback x) := by
  intro w h
  have hw : I (x.run w).2 := hx w h
  rcases hres : x.run w with ⟨_ | a, w'⟩
  · rw [atomically_error hres]
    exact hback w w' h (by simpa [hres] using hw)
  · rw [atomically_ok hres]
    simpa [hres] using hw

end Routine

end ThreatIntel
