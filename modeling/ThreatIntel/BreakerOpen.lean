import Mathlib.Algebra.Order.Monoid.Unbundled.Basic
import Mathlib.Algebra.Order.Group.Defs
import ThreatIntel.BreakerWedge

/-!
# Open means open

The safety property of a breaker shared by overlapping calls, read off
the log of what happened since an opening: nobody is admitted before
`recovery_timeout` has passed, and until an admitted call has succeeded
at most one of those admitted is running.

`record_success` and `record_failure` do not ask when the reporting call
was admitted. A call that was already running when the breaker opened
and succeeds later closes it at once, and one that fails while a probe
is out re-opens it and takes the probe's flag down. `NoLateFinish`
excludes the two, and under it the property is inductive
(`splitOk_step`).

The property has two readings, told apart by the parameter `every`:
about the last opening only, or about each opening of the run. Late
failures matter to the second alone.
-/

namespace ThreatIntel

namespace Calls

variable {K : Type*}

/-! ## Reading the log -/

def Admitted (l : List (BreakerEntry K)) (id : Nat) : Prop :=
  ∃ t, BreakerEntry.admitted id t ∈ l

def Returned (l : List (BreakerEntry K)) (id : Nat) : Prop :=
  ∃ t, BreakerEntry.ended id .returned t ∈ l

/-- No call admitted in `l` has succeeded in `l`. -/
def NoReturn (l : List (BreakerEntry K)) : Prop :=
  ∀ id, Admitted l id → ¬ Returned l id

/-- `newer` is what the log holds since an opening at `t₀`: the last one
or, with `every`, any one. -/
def Since (every : Bool) (log newer : List (BreakerEntry K)) (t₀ : K) : Prop :=
  (∃ older, log = newer ++ .opened t₀ :: older) ∧
    (every = true ∨ ∀ t, BreakerEntry.opened t ∉ newer)

/-- Whether the call was admitted after the last opening. -/
def admittedSinceOpen : List (BreakerEntry K) → Nat → Bool
  | [], _ => false
  | .opened _ :: _, _ => false
  | .admitted i _ :: l, id => i == id || admittedSinceOpen l id
  | .refused _ _ :: l, id => admittedSinceOpen l id
  | .ended _ _ _ :: l, id => admittedSinceOpen l id

theorem Since.opened_mem {every : Bool} {log newer : List (BreakerEntry K)} {t₀ : K}
    (h : Since every log newer t₀) : BreakerEntry.opened t₀ ∈ log := by
  obtain ⟨⟨older, rfl⟩, -⟩ := h
  simp

/-- An entry that is not an opening only makes every suffix of interest
one longer. -/
theorem since_cons {every : Bool} {e : BreakerEntry K} {log newer : List (BreakerEntry K)} {t₀ : K}
    (he : ∀ t, e ≠ .opened t) (h : Since every (e :: log) newer t₀) :
    ∃ newer', newer = e :: newer' ∧ Since every log newer' t₀ := by
  obtain ⟨⟨older, heq⟩, hsel⟩ := h
  cases newer with
  | nil => exact absurd (List.cons.inj heq).1 (he t₀)
  | cons e' newer' =>
      obtain ⟨rfl, hlog⟩ := List.cons.inj heq
      refine ⟨newer', rfl, ⟨older, hlog⟩, hsel.imp_right fun h t ht => ?_⟩
      exact h t (List.mem_cons_of_mem _ ht)

/-- An opening starts an empty suffix of its own; the older ones live on
under `every` only. -/
theorem since_opened {every : Bool} {t : K} {log newer : List (BreakerEntry K)} {t₀ : K}
    (h : Since every (.opened t :: log) newer t₀) :
    (newer = [] ∧ t₀ = t) ∨
      every = true ∧ ∃ newer', newer = .opened t :: newer' ∧ Since every log newer' t₀ := by
  obtain ⟨⟨older, heq⟩, hsel⟩ := h
  cases newer with
  | nil =>
      obtain ⟨h1, -⟩ := List.cons.inj heq
      exact Or.inl ⟨rfl, (BreakerEntry.opened.inj h1).symm⟩
  | cons e' newer' =>
      obtain ⟨rfl, hlog⟩ := List.cons.inj heq
      have hev : every = true := hsel.resolve_right fun h => h t (by simp)
      exact Or.inr ⟨hev, newer', rfl, ⟨older, hlog⟩, Or.inl hev⟩

/-- A call admitted since the last opening was admitted since each. -/
theorem admitted_of_sinceOpen {every : Bool} {id : Nat} :
    ∀ {log newer : List (BreakerEntry K)} {t₀ : K}, Since every log newer t₀ →
      admittedSinceOpen log id = true → Admitted newer id
  | [], newer, t₀, h, _ => by
      obtain ⟨⟨older, heq⟩, -⟩ := h
      simp at heq
  | .opened _ :: _, _, _, _, h => by simp [admittedSinceOpen] at h
  | .admitted i t :: log, newer, t₀, hs, h => by
      obtain ⟨newer', rfl, hs'⟩ := since_cons (by simp) hs
      simp only [admittedSinceOpen, Bool.or_eq_true, beq_iff_eq] at h
      rcases h with rfl | h
      · exact ⟨t, by simp⟩
      · obtain ⟨t', ht'⟩ := admitted_of_sinceOpen hs' h
        exact ⟨t', List.mem_cons_of_mem _ ht'⟩
  | .refused _ _ :: log, newer, t₀, hs, h => by
      obtain ⟨newer', rfl, hs'⟩ := since_cons (by simp) hs
      obtain ⟨t', ht'⟩ := admitted_of_sinceOpen hs' (by simpa [admittedSinceOpen] using h)
      exact ⟨t', List.mem_cons_of_mem _ ht'⟩
  | .ended _ _ _ :: log, newer, t₀, hs, h => by
      obtain ⟨newer', rfl, hs'⟩ := since_cons (by simp) hs
      obtain ⟨t', ht'⟩ := admitted_of_sinceOpen hs' (by simpa [admittedSinceOpen] using h)
      exact ⟨t', List.mem_cons_of_mem _ ht'⟩

/-! ## The property and the condition -/

section

variable [AddCommGroup K] [LinearOrder K]

/-- **Open means open**, about the last opening (`every = false`) or
about each opening of the log. -/
def OpenMeansOpen (every : Bool) (s : Calls K) : Prop :=
  ∀ newer t₀, Since every s.log newer t₀ →
    (∀ id t, BreakerEntry.admitted id t ∈ newer → t₀ + s.breaker.recoveryTimeout ≤ t) ∧
    (NoReturn newer → ∀ i ∈ s.running, ∀ j ∈ s.running,
      Admitted newer i → Admitted newer j → i = j)

/-- The condition on a step: a call admitted before the breaker last
opened does not return while it is open or half-open (nor, for the
reading about every opening, raise while it is half-open). -/
def NoLateFinish (every : Bool) (s : Calls K) : CallEvent K → Prop
  | .finish id .returned =>
      id ∈ s.running → s.breaker.state ≠ .closed → admittedSinceOpen s.log id = true
  | .finish id .raised =>
      every = true → id ∈ s.running → s.breaker.state = .halfOpen →
        admittedSinceOpen s.log id = true
  | _ => True

instance (every : Bool) (s : Calls K) (e : CallEvent K) : Decidable (NoLateFinish every s e) :=
  match e with
  | .finish id .returned =>
      inferInstanceAs (Decidable (id ∈ s.running → s.breaker.state ≠ .closed →
        admittedSinceOpen s.log id = true))
  | .finish id .raised =>
      inferInstanceAs (Decidable (every = true → id ∈ s.running → s.breaker.state = .halfOpen →
        admittedSinceOpen s.log id = true))
  | .finish _ .cancelled | .start | .advance _ => inferInstanceAs (Decidable True)

/-! ## Bookkeeping

What the log says about identifiers and times, whatever the breaker
does. -/

structure Ledger (s : Calls K) : Prop where
  nodup : s.running.Nodup
  runningLt : ∀ i ∈ s.running, i < s.nextId
  admitted : ∀ id t, BreakerEntry.admitted id t ∈ s.log → id < s.nextId ∧ t ≤ s.now
  opened : ∀ t, BreakerEntry.opened t ∈ s.log → t ≤ s.breaker.openedAt ∧ t ≤ s.now

theorem ledger_init (name : String) (threshold : Int) (timeout t₀ : K) :
    Ledger (init name threshold timeout t₀) := by
  constructor <;> simp [init]

omit [AddCommGroup K] in
/-- The end of a call keeps the books, if the breaker it leaves behind
still knows of the openings already in the log. -/
theorem Ledger.ended {s : Calls K} (h : Ledger s) (id : Nat) (o : Outcome)
    {b : CircuitBreaker K} (hb : b.openedAt = s.breaker.openedAt) :
    Ledger { s with
      breaker := b
      running := s.running.erase id
      log := .ended id o s.now :: s.log } where
  nodup := h.nodup.erase id
  runningLt i hi := h.runningLt i (List.mem_of_mem_erase hi)
  admitted i t ht := h.admitted i t (by simpa using ht)
  opened t ht := by
    rw [hb]
    exact h.opened t (by simpa using ht)

theorem ledger_step (s : Calls K) (e : CallEvent K) (h : Ledger s) : Ledger (step s e) := by
  cases e with
  | advance t =>
      exact ⟨h.nodup, h.runningLt,
        fun id t' ht => ⟨(h.admitted id t' ht).1, le_max_of_le_left (h.admitted id t' ht).2⟩,
        fun t' ht => ⟨(h.opened t' ht).1, le_max_of_le_left (h.opened t' ht).2⟩⟩
  | start =>
      rcases start_cases s with ⟨b, heq, hb⟩ | ⟨heq, -⟩
      · have hat : b.openedAt = s.breaker.openedAt := by
          rcases hb with ⟨-, rfl⟩ | ⟨-, -, rfl⟩ | ⟨-, -, rfl⟩ <;> rfl
        simp only [step, heq]
        refine ⟨?_, ?_, ?_, ?_⟩
        · exact List.nodup_cons.mpr ⟨fun hm => absurd (h.runningLt _ hm) (lt_irrefl _), h.nodup⟩
        · intro i hi
          rcases List.mem_cons.mp hi with rfl | hi
          · exact Nat.lt_succ_self _
          · exact Nat.lt_succ_of_lt (h.runningLt i hi)
        · intro id t ht
          rcases List.mem_cons.mp ht with heq' | ht
          · obtain ⟨rfl, rfl⟩ := BreakerEntry.admitted.inj heq'
            exact ⟨Nat.lt_succ_self _, le_refl _⟩
          · exact ⟨Nat.lt_succ_of_lt (h.admitted id t ht).1, (h.admitted id t ht).2⟩
        · intro t ht
          rw [hat]
          exact h.opened t (by simpa using ht)
      · simp only [step, heq]
        exact ⟨h.nodup, h.runningLt, fun id t ht => h.admitted id t (by simpa using ht),
          fun t ht => h.opened t (by simpa using ht)⟩
  | finish id o =>
      by_cases hid : id ∈ s.running
      · cases o with
        | returned =>
            simp only [step, finish_returned hid]
            exact h.ended id .returned rfl
        | cancelled =>
            simp only [step, finish_cancelled hid]
            exact h.ended id .cancelled rfl
        | raised =>
            simp only [step, finish_raised hid]
            by_cases ho : s.breaker.opens = true
            · have hend := h.ended id .raised (b := s.breaker) rfl
              refine ⟨hend.nodup, hend.runningLt, fun i t ht => ?_, fun t ht => ?_⟩
              · exact hend.admitted i t (by simpa [ho] using ht)
              · rw [CircuitBreaker.recordFailure_openedAt, if_pos ho]
                have ht' : t = s.now ∨ BreakerEntry.opened t ∈ s.log := by simpa [ho] using ht
                rcases ht' with rfl | ht'
                · exact ⟨le_refl _, le_refl _⟩
                · exact ⟨(h.opened t ht').2, (h.opened t ht').2⟩
            · simp only [ho]
              exact h.ended id .raised (by rw [CircuitBreaker.recordFailure_openedAt, if_neg ho])
      · simpa only [step, finish_of_notMem hid] using h

/-! ## The invariant -/

/-- What holds of one suffix of the log, by the breaker's state: a closed
breaker has seen a success since that opening; an open one has no call
admitted since then running; a half-open one only its probe. -/
structure SplitOk (s : Calls K) (newer : List (BreakerEntry K)) (t₀ : K) : Prop where
  late : ∀ id t, BreakerEntry.admitted id t ∈ newer → t₀ + s.breaker.recoveryTimeout ≤ t
  closed : s.breaker.state = .closed → ¬ NoReturn newer
  opened : s.breaker.state = .open → NoReturn newer → ∀ i ∈ s.running, ¬ Admitted newer i
  halfOpen : s.breaker.state = .halfOpen → NoReturn newer →
    ∀ i ∈ s.running, Admitted newer i → admittedSinceOpen s.log i = true

structure OpenInv (every : Bool) (s : Calls K) : Prop where
  ledger : Ledger s
  flagged : ProbeFlagged s
  /-- Nobody has been admitted since a breaker opened that is still open. -/
  untouched : s.breaker.state = .open → ∀ id, admittedSinceOpen s.log id = false
  /-- The probe is the one call admitted since the last opening. -/
  probe : s.breaker.state = .halfOpen → ∀ i j,
    admittedSinceOpen s.log i = true → admittedSinceOpen s.log j = true → i = j
  splits : ∀ newer t₀, Since every s.log newer t₀ → SplitOk s newer t₀

theorem openInv_init (every : Bool) (name : String) (threshold : Int) (timeout t₀ : K) :
    OpenInv every (init name threshold timeout t₀) where
  ledger := ledger_init name threshold timeout t₀
  flagged := by simp [ProbeFlagged, init, CircuitBreaker.new]
  untouched := by simp [init, CircuitBreaker.new]
  probe := by simp [init, CircuitBreaker.new]
  splits newer t h := by
    have := h.opened_mem
    simp [init] at this

/-- The invariant gives the property. -/
theorem OpenInv.openMeansOpen {every : Bool} {s : Calls K} (h : OpenInv every s) :
    OpenMeansOpen every s := by
  intro newer t₀ hs
  have hok := h.splits newer t₀ hs
  refine ⟨hok.late, fun hnr i hi j hj hai haj => ?_⟩
  rcases hst : s.breaker.state with _ | _ | _
  · exact absurd hnr (hok.closed hst)
  · exact absurd hai (hok.opened hst hnr i hi)
  · exact h.probe hst i j (hok.halfOpen hst hnr i hi hai) (hok.halfOpen hst hnr j hj haj)

/-! ## What the steps preserve

One lemma for each kind of step, on one suffix of the log; `e` is the
entry the step adds. -/

omit [AddCommGroup K] [LinearOrder K] in
/-- A suffix that has a success in it keeps it. -/
theorem not_noReturn_cons {l : List (BreakerEntry K)} {e : BreakerEntry K}
    (h : ¬ NoReturn l) : ¬ NoReturn (e :: l) := by
  intro hnr
  refine h fun id ⟨t, ht⟩ ⟨t', ht'⟩ => hnr id ?_ ?_
  · exact ⟨t, List.mem_cons_of_mem _ ht⟩
  · exact ⟨t', List.mem_cons_of_mem _ ht'⟩

omit [AddCommGroup K] [LinearOrder K] in
theorem noReturn_of_cons {l : List (BreakerEntry K)} {e : BreakerEntry K}
    (h : NoReturn (e :: l)) : NoReturn l := by
  by_contra hl
  exact not_noReturn_cons hl h

omit [AddCommGroup K] [LinearOrder K] in
theorem admitted_cons {l : List (BreakerEntry K)} {e : BreakerEntry K} {i : Nat}
    (he : ∀ t, e ≠ .admitted i t) : Admitted (e :: l) i ↔ Admitted l i := by
  constructor
  · rintro ⟨t, ht⟩
    rcases List.mem_cons.mp ht with heq | ht
    · exact absurd heq.symm (he t)
    · exact ⟨t, ht⟩
  · rintro ⟨t, ht⟩
    exact ⟨t, List.mem_cons_of_mem _ ht⟩

/-- An entry that admits nobody, and a breaker in the state it was in. -/
theorem SplitOk.quiet {s s' : Calls K} {newer : List (BreakerEntry K)} {t₀ : K}
    {e : BreakerEntry K} (h : SplitOk s newer t₀)
    (hstate : s'.breaker.state = s.breaker.state)
    (htimeout : s'.breaker.recoveryTimeout = s.breaker.recoveryTimeout)
    (hrun : ∀ i ∈ s'.running, i ∈ s.running) (he : ∀ i t, e ≠ .admitted i t)
    (hsince : ∀ i, admittedSinceOpen s'.log i = admittedSinceOpen s.log i) :
    SplitOk s' (e :: newer) t₀ where
  late id t ht := by
    rw [htimeout]
    refine h.late id t ?_
    rcases List.mem_cons.mp ht with heq | ht
    · exact absurd heq.symm (he id t)
    · exact ht
  closed hst := not_noReturn_cons (h.closed (hstate ▸ hst))
  opened hst hnr i hi := by
    rw [admitted_cons (he i)]
    exact h.opened (hstate ▸ hst) (noReturn_of_cons hnr) i (hrun i hi)
  halfOpen hst hnr i hi hai := by
    rw [hsince]
    exact h.halfOpen (hstate ▸ hst) (noReturn_of_cons hnr) i (hrun i hi)
      ((admitted_cons (he i)).mp hai)

/-- An admission by a breaker that is still, or now becomes, `b`. -/
theorem SplitOk.admit [IsOrderedAddMonoid K] {every : Bool} {s : Calls K}
    (hinv : OpenInv every s) {b : CircuitBreaker K}
    (hb : (s.breaker.state = .closed ∧ b = s.breaker) ∨
      (s.breaker.state = .open ∧ s.breaker.recoveryTimeout ≤ s.now - s.breaker.openedAt ∧
        b = { s.breaker with state := .halfOpen, probeInFlight := true }))
    {newer : List (BreakerEntry K)} {t₀ : K} (hs : Since every s.log newer t₀) :
    SplitOk { s with
      breaker := b
      running := s.nextId :: s.running
      nextId := s.nextId + 1
      log := .admitted s.nextId s.now :: s.log } (.admitted s.nextId s.now :: newer) t₀ := by
  have hok := hinv.splits newer t₀ hs
  rcases hb with ⟨hst, rfl⟩ | ⟨hst, hel, rfl⟩
  · -- closed: since that opening a call was admitted in time and has returned
    have hnow : t₀ + s.breaker.recoveryTimeout ≤ s.now := by
      have hret := hok.closed hst
      simp only [NoReturn, not_forall, not_not] at hret
      obtain ⟨id, ⟨t, ht⟩, -⟩ := hret
      obtain ⟨⟨older, hlog⟩, -⟩ := hs
      have hmem : BreakerEntry.admitted id t ∈ s.log := by
        rw [hlog]
        exact List.mem_append_left _ ht
      exact (hok.late id t ht).trans (hinv.ledger.admitted id t hmem).2
    refine ⟨fun id t ht => ?_, fun _ => not_noReturn_cons (hok.closed hst), ?_, ?_⟩
    · rcases List.mem_cons.mp ht with heq | ht
      · obtain ⟨rfl, rfl⟩ := BreakerEntry.admitted.inj heq
        exact hnow
      · exact hok.late id t ht
    · intro hopen
      simp [hst] at hopen
    · intro hhalf
      simp [hst] at hhalf
  · -- open for long enough: the newcomer is the probe, and nobody else is left
    have hnow : t₀ + s.breaker.recoveryTimeout ≤ s.now := by
      have hle := (hinv.ledger.opened t₀ hs.opened_mem).1
      rw [le_sub_iff_add_le, add_comm] at hel
      exact (add_le_add_left hle _).trans hel
    refine ⟨fun id t ht => ?_, ?_, ?_, fun _ hnr i hi hai => ?_⟩
    · rcases List.mem_cons.mp ht with heq | ht
      · obtain ⟨rfl, rfl⟩ := BreakerEntry.admitted.inj heq
        exact hnow
      · exact hok.late id t ht
    · intro hclosed
      simp at hclosed
    · intro hopen
      simp at hopen
    · rcases List.mem_cons.mp hi with rfl | hi
      · simp [admittedSinceOpen]
      · have hne : ∀ t, BreakerEntry.admitted s.nextId s.now ≠ .admitted i t := by
          rintro t heq
          obtain ⟨rfl, -⟩ := BreakerEntry.admitted.inj heq
          exact absurd (hinv.ledger.runningLt _ hi) (lt_irrefl _)
        exact absurd ((admitted_cons hne).mp hai)
          (hok.opened hst (noReturn_of_cons hnr) i hi)

/-- A success closes the breaker. It was admitted since each opening of
interest, unless the breaker was closed already. -/
theorem SplitOk.returned {every : Bool} {s s' : Calls K} (hinv : OpenInv every s) {id : Nat}
    {t : K} (hsafe : s.breaker.state ≠ .closed → admittedSinceOpen s.log id = true)
    (hstate : s'.breaker.state = .closed)
    (htimeout : s'.breaker.recoveryTimeout = s.breaker.recoveryTimeout)
    {newer : List (BreakerEntry K)} {t₀ : K} (hs : Since every s.log newer t₀) :
    SplitOk s' (.ended id .returned t :: newer) t₀ where
  late i t' ht := by
    rw [htimeout]
    exact (hinv.splits newer t₀ hs).late i t' (by simpa using ht)
  closed _ := by
    by_cases hst : s.breaker.state = .closed
    · exact not_noReturn_cons ((hinv.splits newer t₀ hs).closed hst)
    · intro hnr
      have hadm : Admitted newer id := admitted_of_sinceOpen hs (hsafe hst)
      exact hnr id ((admitted_cons (by simp)).mpr hadm) ⟨t, by simp⟩
  opened h := by simp [hstate] at h
  halfOpen h := by simp [hstate] at h

/-- A failure that opens the breaker. Under `every`, what was running of
an older suffix was the probe, and it is the probe that has failed. -/
theorem SplitOk.reopened {every : Bool} {s s' : Calls K} (hinv : OpenInv every s) {id : Nat} {t : K}
    (hsafe : s.breaker.state = .halfOpen → admittedSinceOpen s.log id = true)
    (hstate : s'.breaker.state = .open)
    (htimeout : s'.breaker.recoveryTimeout = s.breaker.recoveryTimeout)
    (hrun : s'.running = s.running.erase id)
    {newer : List (BreakerEntry K)} {t₀ : K} (hs : Since every s.log newer t₀) :
    SplitOk s' (.opened t :: .ended id .raised t :: newer) t₀ where
  late i t' ht := by
    rw [htimeout]
    exact (hinv.splits newer t₀ hs).late i t' (by simpa using ht)
  closed h := by simp [hstate] at h
  opened _ hnr i hi := by
    have hok := hinv.splits newer t₀ hs
    have hnr' : NoReturn newer := noReturn_of_cons (noReturn_of_cons hnr)
    rw [hrun] at hi
    have hi' : i ∈ s.running := List.mem_of_mem_erase hi
    rw [admitted_cons (by simp), admitted_cons (by simp)]
    rcases hst : s.breaker.state with _ | _ | _
    · exact absurd hnr' (hok.closed hst)
    · exact hok.opened hst hnr' i hi'
    · intro hai
      have heq : i = id := hinv.probe hst i id (hok.halfOpen hst hnr' i hi' hai) (hsafe hst)
      exact (hinv.ledger.nodup.mem_erase_iff.mp hi).1 heq
  halfOpen h := by simp [hstate] at h

omit [AddCommGroup K] [LinearOrder K] in
theorem ProbeFlagged.not_idle {s : Calls K} (h : ProbeFlagged s)
    (hst : s.breaker.state = .halfOpen) : s.breaker.probeInFlight ≠ false := by
  simp [h hst]

theorem openInv_start [IsOrderedAddMonoid K] {every : Bool} {s : Calls K}
    (h : OpenInv every s) : OpenInv every s.start := by
  have hledger : Ledger s.start := ledger_step s .start h.ledger
  have hflag : ProbeFlagged s.start := probeFlagged_step s .start h.flagged
  rcases start_cases s with ⟨b, heq, hb⟩ | ⟨heq, -⟩
  · have hb' : (s.breaker.state = .closed ∧ b = s.breaker) ∨
        (s.breaker.state = .open ∧ s.breaker.recoveryTimeout ≤ s.now - s.breaker.openedAt ∧
          b = { s.breaker with state := .halfOpen, probeInFlight := true }) := by
      rcases hb with hb | hb | ⟨hst, hidle, -⟩
      · exact Or.inl hb
      · exact Or.inr hb
      · exact absurd hidle (h.flagged.not_idle hst)
    refine ⟨hledger, hflag, ?_, ?_, ?_⟩ <;> rw [heq]
    · intro hst
      rcases hb' with ⟨hcl, rfl⟩ | ⟨-, -, rfl⟩
      · simp [hcl] at hst
      · simp at hst
    · intro hst i j hi hj
      rcases hb' with ⟨hcl, rfl⟩ | ⟨hop, -, rfl⟩
      · simp [hcl] at hst
      · -- nobody had been admitted since the opening: both are the newcomer
        simp only [admittedSinceOpen, h.untouched hop, Bool.or_false, beq_iff_eq] at hi hj
        rw [← hi, ← hj]
    · intro newer t₀ hs
      obtain ⟨newer', rfl, hs'⟩ := since_cons (by simp) hs
      exact SplitOk.admit h hb' hs'
  · refine ⟨hledger, hflag, ?_, ?_, ?_⟩ <;> rw [heq]
    · exact h.untouched
    · exact h.probe
    · intro newer t₀ hs
      obtain ⟨newer', rfl, hs'⟩ := since_cons (by simp) hs
      exact (h.splits newer' t₀ hs').quiet rfl rfl (fun i hi => hi) (by simp) (fun i => rfl)

theorem openInv_raised {every : Bool} {s : Calls K} {id : Nat} (h : OpenInv every s)
    (hid : id ∈ s.running) (hsafe : NoLateFinish every s (.finish id .raised)) :
    OpenInv every (s.finish id .raised) := by
  have hledger : Ledger (s.finish id .raised) := ledger_step s (.finish id .raised) h.ledger
  have hflag : ProbeFlagged (s.finish id .raised) :=
    probeFlagged_step s (.finish id .raised) h.flagged
  by_cases ho : s.breaker.opens = true
  · have hb : s.breaker.recordFailure s.now = { s.breaker with
        failures := s.breaker.failures + 1
        probeInFlight := false
        state := .open
        openedAt := s.now } := by simp [CircuitBreaker.recordFailure, ho]
    have heq := finish_raised hid
    rw [hb, if_pos ho] at heq
    refine ⟨hledger, hflag, ?_, ?_, ?_⟩ <;> rw [heq]
    · intro _ i
      rfl
    · intro hst
      simp at hst
    · intro newer t₀ hs
      rcases since_opened hs with ⟨rfl, -⟩ | ⟨hev, newer₁, rfl, hs₁⟩
      · exact ⟨by simp, by simp, fun _ _ i _ => by simp [Admitted], by simp⟩
      · obtain ⟨newer₂, rfl, hs₂⟩ := since_cons (by simp) hs₁
        refine SplitOk.reopened h (hsafe hev hid) ?_ ?_ ?_ hs₂ <;> rfl
  · have hb : s.breaker.recordFailure s.now = { s.breaker with
        failures := s.breaker.failures + 1
        probeInFlight := false } := by simp [CircuitBreaker.recordFailure, ho]
    have heq := finish_raised hid
    rw [hb, if_neg ho] at heq
    refine ⟨hledger, hflag, ?_, ?_, ?_⟩ <;> rw [heq]
    · exact h.untouched
    · exact h.probe
    · intro newer t₀ hs
      obtain ⟨newer', rfl, hs'⟩ := since_cons (by simp) hs
      exact (h.splits newer' t₀ hs').quiet rfl rfl
        (fun i hi => List.mem_of_mem_erase hi) (by simp) (fun i => rfl)

/-- The step lemma. -/
theorem openInv_step [IsOrderedAddMonoid K] {every : Bool} (s : Calls K) (e : CallEvent K)
    (h : OpenInv every s) (hsafe : NoLateFinish every s e) : OpenInv every (step s e) := by
  cases e with
  | advance t =>
      exact ⟨ledger_step s (.advance t) h.ledger, h.flagged, h.untouched, h.probe,
        fun newer t₀ hs =>
          have hok := h.splits newer t₀ hs
          ⟨hok.late, hok.closed, hok.opened, hok.halfOpen⟩⟩
  | start => exact openInv_start h
  | finish id o =>
      by_cases hid : id ∈ s.running
      · have hledger : Ledger (s.finish id o) := ledger_step s (.finish id o) h.ledger
        have hflag : ProbeFlagged (s.finish id o) := probeFlagged_step s (.finish id o) h.flagged
        cases o with
        | returned =>
            refine ⟨hledger, hflag, ?_, ?_, ?_⟩ <;> rw [step, finish_returned hid]
            · intro hst
              simp [CircuitBreaker.recordSuccess] at hst
            · intro hst
              simp [CircuitBreaker.recordSuccess] at hst
            · intro newer t₀ hs
              obtain ⟨newer', rfl, hs'⟩ := since_cons (by simp) hs
              refine SplitOk.returned h (hsafe hid) ?_ ?_ hs' <;> rfl
        | raised => exact openInv_raised h hid hsafe
        | cancelled =>
            refine ⟨hledger, hflag, ?_, ?_, ?_⟩ <;> rw [step, finish_cancelled hid]
            · exact h.untouched
            · exact h.probe
            · intro newer t₀ hs
              obtain ⟨newer', rfl, hs'⟩ := since_cons (by simp) hs
              exact (h.splits newer' t₀ hs').quiet rfl rfl
                (fun i hi => List.mem_of_mem_erase hi) (by simp) (fun i => rfl)
      · rw [step, finish_of_notMem hid]
        exact h

/-! ## Whole runs -/

/-- **When open means open.** In every run in which no call from before
an opening finishes late (`NoLateFinish`), every state is safe, for
either reading of the property. -/
theorem openMeansOpen_of_noLateFinish [IsOrderedAddMonoid K] (every : Bool) (name : String)
    (failureThreshold : Int) (recoveryTimeout t₀ : K) (es : List (CallEvent K))
    (hsafe : Runs.Meets step (NoLateFinish every)
      (init name failureThreshold recoveryTimeout t₀) es) :
    OpenMeansOpen every (Runs.run step (init name failureThreshold recoveryTimeout t₀) es) := by
  have hinit := openInv_init every name failureThreshold recoveryTimeout t₀
  exact (Runs.run_invariant openInv_step hinit hsafe).openMeansOpen

/-- A failure opens the breaker, the probe is admitted after thirty time
units and succeeds: a run that meets the condition. -/
def probedRun : List (CallEvent Int) :=
  [.start, .finish 0 .raised, .start, .advance 30, .start, .finish 1 .returned]

theorem probedRun_openMeansOpen :
    Runs.Meets step (NoLateFinish true) (init "collector:otx" 1 30 (0 : Int)) probedRun ∧
      OpenMeansOpen true (Runs.run step (init "collector:otx" 1 30 0) probedRun) :=
  ⟨by decide, openMeansOpen_of_noLateFinish true "collector:otx" 1 30 0 probedRun (by decide)⟩

/-- Two calls overlap; the first fails and opens the breaker, the second
returns. -/
def lateReturn : List (CallEvent Int) :=
  [.start, .start, .finish 0 .raised, .finish 1 .returned, .start]

/-- The late success closes the breaker, and a call is admitted at the
very moment it opened. -/
theorem lateReturn_admits :
    ¬ ∀ es : List (CallEvent Int),
      OpenMeansOpen false (Runs.run step (init "collector:otx" 1 30 0) es) := by
  intro h
  have hsince : Since false
      (Runs.run step (init "collector:otx" 1 30 (0 : Int)) lateReturn).log
      [.admitted 2 0, .ended 1 .returned 0] 0 :=
    ⟨⟨[.ended 0 .raised 0, .admitted 1 0, .admitted 0 0], by decide⟩, Or.inr (by simp)⟩
  have hlate := (h lateReturn _ _ hsince).1 2 0 (by simp)
  exact absurd hlate (by decide)

end

end Calls

end ThreatIntel
