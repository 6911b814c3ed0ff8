import ThreatIntel.Routine

/-!
# What a routine may do, within a budget

A relation between the state before and the state after, graded by what
it costs to get from one to the other. A routine stays within a budget if
every run of it is related at that cost, however it ends: also the runs
that end with an exception have cost something. Costs add up along `bind`
and along a handler that goes on where its routine has failed, so the
budget of a routine is read off its text.
-/

namespace ThreatIntel

namespace Routine

variable {ε ω : Type*} {α β : Type}

/-- Nothing costs nothing, costs add up, and a budget need not be used up. -/
structure Graded (R : Nat → ω → ω → Prop) : Prop where
  refl : ∀ w, R 0 w w
  trans : ∀ {j k w w₁ w₂}, R j w w₁ → R k w₁ w₂ → R (j + k) w w₂
  mono : ∀ {j k w w'}, R j w w' → j ≤ k → R k w w'

/-- Every run of `x` is related at cost `k`. -/
def Costs (R : Nat → ω → ω → Prop) (k : Nat) (x : Routine ε ω α) : Prop :=
  ∀ w, R k w (x.run w).2

section

variable {R : Nat → ω → ω → Prop} (hR : Graded R) {j k : Nat}

include hR

theorem Graded.pure (a : α) : Costs R 0 (Pure.pure a : Routine ε ω α) := hR.refl

theorem Graded.raise (e : ε) : Costs R 0 (Routine.raise e : Routine ε ω α) := hR.refl

theorem Graded.ofExcept (x : Except ε α) : Costs R 0 (Routine.ofExcept x : Routine ε ω α) := hR.refl

theorem Graded.raiseIf (c : Bool) (e : ε) :
    Costs R 0 (Routine.raiseIf c e : Routine ε ω Unit) := by
  intro w
  cases c <;> exact hR.refl w

theorem Graded.weaken {x : Routine ε ω α} (hx : Costs R j x) (h : j ≤ k) : Costs R k x :=
  fun w => hR.mono (hx w) h

theorem Graded.bind {x : Routine ε ω α} {f : α → Routine ε ω β} (hx : Costs R j x)
    (hf : ∀ a, Costs R k (f a)) : Costs R (j + k) (x >>= f) := by
  intro w
  have hfirst : R j w (x.run w).2 := hx w
  rw [run_bind]
  rcases hres : x.run w with ⟨e | a, w₁⟩
  · rw [hres] at hfirst
    exact hR.mono hfirst (Nat.le_add_right j k)
  · rw [hres] at hfirst
    exact hR.trans hfirst (hf a w₁)

/-- Also what has failed has cost something. -/
theorem Graded.tryExcept {x : Routine ε ω α} {handler : ε → Option (Routine ε ω α)}
    (hx : Costs R j x) (hh : ∀ e y, handler e = some y → Costs R k y) :
    Costs R (j + k) (Routine.tryExcept x handler) := by
  intro w
  have hfirst : R j w (x.run w).2 := hx w
  simp only [run] at hfirst
  simp only [run, Routine.tryExcept]
  rcases hres : x w with ⟨e | a, w₁⟩
  · rw [hres] at hfirst
    dsimp only
    cases hcaught : handler e with
    | none => exact hR.mono hfirst (Nat.le_add_right j k)
    | some y => exact hR.trans hfirst (hh e y hcaught w₁)
  · rw [hres] at hfirst
    exact hR.mono hfirst (Nat.le_add_right j k)

end

/-! ## Trying again -/

section

variable {D : Type*}

/-- Try `func`, and `left` times more after a failure that is caught, with a
pause before each of them; `next` says how the pauses grow. -/
def retryFrom (caught : ε → Bool) (pause : D → Routine ε ω Unit) (next : D → D)
    (func : Routine ε ω α) : Nat → D → Routine ε ω α
  | 0, _ => func
  | left + 1, delay =>
      .tryExcept func fun e =>
        if caught e then
          some (do
            pause delay
            retryFrom caught pause next func left (next delay))
        else none

variable {caught : ε → Bool} {pause : D → Routine ε ω Unit} {next : D → D} {func : Routine ε ω α}

/-- **The budget of a retry** is the budget of each attempt. -/
theorem Graded.retryFrom {R : Nat → ω → ω → Prop} (hR : Graded R) {k : Nat}
    (hfunc : Costs R k func) (hpause : ∀ d, Costs R 0 (pause d)) (left : Nat) (delay : D) :
    Costs R ((left + 1) * k) (Routine.retryFrom caught pause next func left delay) := by
  induction left generalizing delay with
  | zero => simpa [Routine.retryFrom] using hfunc
  | succ left ih =>
      have hsum : (left + 1 + 1) * k = k + (0 + (left + 1) * k) := by
        rw [Nat.succ_mul (left + 1) k, Nat.zero_add, Nat.add_comm]
      rw [hsum, Routine.retryFrom]
      refine hR.tryExcept hfunc fun e y hy => ?_
      cases hcaught : caught e with
      | true =>
          simp only [hcaught, if_true, Option.some.injEq] at hy
          subst hy
          exact hR.bind (hpause delay) fun _ => ih (next delay)
      | false => simp [hcaught] at hy

theorem tryExcept_uncaught {x : Routine ε ω α} {handler : ε → Option (Routine ε ω α)} {w w' : ω}
    {e : ε} (h : run x w = (.error e, w')) (huncaught : handler e = none) :
    run (tryExcept x handler) w = (.error e, w') := by
  simp only [run] at h
  simp only [run, tryExcept, h, huncaught]

/-- What every attempt ends with, the retry ends with: trying again is no way
to a result that `func` does not yield. -/
theorem run_retryFrom {I : ω → Prop} {Q : Except ε α → Prop} (hfunc : ∀ w, I w → Q (func.run w).1)
    (hkeeps : Keeps I func) (hpause : ∀ d, Keeps I (pause d))
    (hsucceeds : ∀ d w, (pause d).Succeeds w) (left : Nat) (delay : D) {w : ω} (h : I w) :
    Q ((retryFrom caught pause next func left delay).run w).1 := by
  induction left generalizing delay w with
  | zero => exact hfunc w h
  | succ left ih =>
      have hresult : Q (func.run w).1 := hfunc w h
      have hkept : I (func.run w).2 := hkeeps w h
      rw [retryFrom]
      rcases hrun : func.run w with ⟨e | a, w₁⟩
      · rw [hrun] at hresult hkept
        cases hcaught : caught e with
        | true =>
            have hpausedKept : I ((pause delay).run w₁).2 := hpause delay w₁ hkept
            obtain ⟨u, w₂, hpaused⟩ := hsucceeds delay w₁
            rw [hpaused] at hpausedKept
            rw [tryExcept_caught hrun (if_pos hcaught), run_bind_ok hpaused]
            exact ih (next delay) hpausedKept
        | false =>
            rw [tryExcept_uncaught hrun (if_neg (by simp [hcaught]))]
            exact hresult
      · rw [hrun] at hresult
        rw [tryExcept_ok hrun]
        exact hresult

end

end Routine

end ThreatIntel
