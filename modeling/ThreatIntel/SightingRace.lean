import Mathlib.Logic.Function.Basic
import ThreatIntel.IngestBatch

/-!
# Concurrent sightings of one indicator

Each request is a transaction of its own, and an upsert of a stored
indicator reads the row, computes the new attributes in memory and writes
them later. Under READ COMMITTED the read takes no lock and sees the row
last committed; the write takes the row's lock, so it waits for whoever
holds it, and sets the attributes that differ from what was read.

Here a transaction is split into these steps, and every list of events is
an interleaving of any number of them. What a transaction sets is right as
long as the row is still the one it read, and the condition asks for this
at the commit. The invariant behind the converse is that a row that was
read is either the committed one or short of a sighting.
-/

namespace ThreatIntel

/-- What an `UPDATE` leaves in a column: only attributes that changed are
set. -/
def updated {α : Type} [DecidableEq α] (read new current : α) : α :=
  if new = read then current else new

theorem updated_self {α : Type} [DecidableEq α] (read new : α) : updated read new read = new := by
  unfold updated
  split
  · next h => exact h.symm
  · rfl

/-- The row after the flush of an object that was read as `read` and is now
`new`. -/
def Ioc.flush (read new current : Ioc) : Ioc where
  id := updated read.id new.id current.id
  type := updated read.type new.type current.type
  value := updated read.value new.value current.value
  defangedValue := updated read.defangedValue new.defangedValue current.defangedValue
  source := updated read.source new.source current.source
  confidence := updated read.confidence new.confidence current.confidence
  severity := updated read.severity new.severity current.severity
  threatScore := updated read.threatScore new.threatScore current.threatScore
  threatLevel := updated read.threatLevel new.threatLevel current.threatLevel
  sightings := updated read.sightings new.sightings current.sightings
  tags := updated read.tags new.tags current.tags
  references := updated read.references new.references current.references
  description := updated read.description new.description current.description
  firstSeen := updated read.firstSeen new.firstSeen current.firstSeen
  lastSeen := updated read.lastSeen new.lastSeen current.lastSeen

/-- Nobody else has written. -/
theorem Ioc.flush_self (read new : Ioc) : read.flush new read = new := by
  simp [Ioc.flush, updated_self]

/-- Where a transaction stands: `fetched` has the row it read, `flushed`
also the row it has written and not committed. -/
inductive SightingPhase where
  | begun
  | fetched (read : Ioc)
  | flushed (read row : Ioc)
  | ended

/-- The row a transaction works on. -/
def SightingPhase.read? : SightingPhase → Option Ioc
  | fetched read | flushed read _ => some read
  | begun | ended => none

/-- The committed row, the holder of its lock, the transactions, and the
upserts that have been committed. -/
structure SightingRace (τ : Type) where
  committed : Ioc
  holder : Option τ := none
  txs : τ → SightingPhase := fun _ => .begun
  commits : List UpsertCall := []

inductive SightingEvent (τ : Type) where
  /-- `get_by_type_value`. -/
  | fetch (tx : τ)
  /-- The first statement after the assignments flushes them. -/
  | flush (tx : τ)
  | commit (tx : τ)
  /-- The transaction fails, wherever it stands. -/
  | rollback (tx : τ)

namespace IOCService

/-- The attributes an upsert assigns to a row it has read; `none` where a
number does not fit its column. -/
def resighted (S : IOCService) (row : Row) (read : Ioc) : Option Ioc :=
  let score := S.assess row.1 (enrichmentOf row.1 row.2) row.2.now (some read)
  if h : Fits (read.sightings.val + 1) ∧ Fits score.score then
    some (read.resight row.1 row.2.now ⟨score.score, h.2⟩ score.level
      ⟨read.sightings.val + 1, h.1⟩)
  else none

end IOCService

namespace SightingRace

open Function (update)

variable {τ : Type} [DecidableEq τ]

/-- One step of a transaction; `work` says what each of them upserts. -/
def step (S : IOCService) (work : τ → Row) (s : SightingRace τ) : SightingEvent τ → SightingRace τ
  | .fetch tx =>
      match s.txs tx with
      | .begun => { s with txs := update s.txs tx (.fetched s.committed) }
      | _ => s
  | .flush tx =>
      match s.txs tx with
      | .fetched read =>
          match S.resighted (work tx) read with
          | none => { s with txs := update s.txs tx .ended }
          | some new =>
              -- the lock is taken: the statement waits
              if s.holder.isSome then s
              else
                { s with
                  holder := some tx
                  txs := update s.txs tx (.flushed read (read.flush new s.committed)) }
      | _ => s
  | .commit tx =>
      match s.txs tx with
      | .flushed _ row =>
          { committed := row
            holder := none
            txs := update s.txs tx .ended
            commits := s.commits ++ [(work tx).1] }
      | _ => s
  | .rollback tx =>
      match s.txs tx with
      | .flushed _ _ => { s with holder := none, txs := update s.txs tx .ended }
      | _ => { s with txs := update s.txs tx .ended }

/-- **No sighting is lost**: the row counts every committed upsert, and has
its tags and references. -/
structure NoneLost (init : Ioc) (s : SightingRace τ) : Prop where
  sightings : s.committed.sightings.val = init.sightings.val + s.commits.length
  tags : ∀ call ∈ s.commits, ∀ tag ∈ call.tags, tag ∈ s.committed.tags
  references : ∀ call ∈ s.commits, ∀ r ∈ call.references, r ∈ s.committed.references

/-- **The condition on a step**: what is committed was computed from the
row it replaces. -/
def UpToDate (s : SightingRace τ) : SightingEvent τ → Prop
  | .commit tx => ∀ read row, s.txs tx = .flushed read row → read = s.committed
  | _ => True

/-! ## One upsert -/

variable {S : IOCService} {work : τ → Row} {init read new row : Ioc} {s : SightingRace τ} {tx : τ}

theorem sightings_resighted {r : Row} (h : S.resighted r read = some new) :
    new.sightings.val = read.sightings.val + 1 := by
  unfold IOCService.resighted at h
  simp only [Option.dite_none_right_eq_some, Option.some.injEq] at h
  obtain ⟨hfits, rfl⟩ := h
  rfl

theorem tags_resighted {r : Row} (h : S.resighted r read = some new) {tag : PyStr} :
    tag ∈ new.tags ↔ tag ∈ read.tags ∨ tag ∈ r.1.tags := by
  unfold IOCService.resighted at h
  simp only [Option.dite_none_right_eq_some, Option.some.injEq] at h
  obtain ⟨hfits, rfl⟩ := h
  rw [Ioc.resight, mem_sortedSet, List.mem_append]

theorem references_resighted {r : Row} (h : S.resighted r read = some new) {ref : PyStr} :
    ref ∈ new.references ↔ ref ∈ read.references ∨ ref ∈ r.1.references := by
  unfold IOCService.resighted at h
  simp only [Option.dite_none_right_eq_some, Option.some.injEq] at h
  obtain ⟨hfits, rfl⟩ := h
  simp only [Ioc.resight]
  split
  · rw [mem_sortedSet, List.mem_append]
  · next hnone => simp [not_not.mp hnone]

/-- The count is always written. -/
theorem sightings_flush {r : Row} (h : S.resighted r read = some new) (current : Ioc) :
    (read.flush new current).sightings.val = read.sightings.val + 1 := by
  have hcount := sightings_resighted h
  have hne : new.sightings ≠ read.sightings := by
    intro heq
    rw [heq] at hcount
    omega
  rw [Ioc.flush]
  simp only [updated, if_neg hne, hcount]

/-! ## The invariant -/

/-- No transaction counts more than there was to count, and one that counts
all of it has read the committed row. A row that is written and not
committed is locked, and was written over the committed one. A count that
is right vouches for the tags and references. -/
structure Inv (S : IOCService) (work : τ → Row) (init : Ioc) (s : SightingRace τ) : Prop where
  bounded : s.committed.sightings.val ≤ init.sightings.val + s.commits.length
  reads : ∀ tx, ∀ read ∈ (s.txs tx).read?,
    read.sightings.val < init.sightings.val + s.commits.length ∨ read = s.committed
  flushed : ∀ tx read row, s.txs tx = .flushed read row → s.holder = some tx ∧
    ∃ new, S.resighted (work tx) read = some new ∧ row = read.flush new s.committed
  complete : s.committed.sightings.val = init.sightings.val + s.commits.length → NoneLost init s

omit [DecidableEq τ] in
theorem inv_init (S : IOCService) (work : τ → Row) (init : Ioc) :
    Inv S work init { committed := init } where
  bounded := by simp
  reads := by simp [SightingPhase.read?]
  flushed := by simp
  complete h := ⟨h, by simp, by simp⟩

omit [DecidableEq τ] in
theorem noneLost_iff_count (h : Inv S work init s) :
    NoneLost init s ↔ s.committed.sightings.val = init.sightings.val + s.commits.length :=
  ⟨NoneLost.sightings, h.complete⟩

omit [DecidableEq τ] in
theorem Inv.read_le (h : Inv S work init s) (hread : read ∈ (s.txs tx).read?) :
    read.sightings.val ≤ init.sightings.val + s.commits.length := by
  rcases h.reads tx read hread with hlt | rfl
  · exact hlt.le
  · exact h.bounded

/-- One transaction moves on, and the others do not. -/
theorem Inv.move (h : Inv S work init s) {holder : Option τ} {phase : SightingPhase}
    (hread : ∀ read ∈ phase.read?,
      read.sightings.val < init.sightings.val + s.commits.length ∨ read = s.committed)
    (hflushed : ∀ read row, phase = .flushed read row → holder = some tx ∧
      ∃ new, S.resighted (work tx) read = some new ∧ row = read.flush new s.committed)
    (hothers : ∀ tx' read row, tx' ≠ tx → s.txs tx' = .flushed read row → holder = s.holder) :
    Inv S work init { s with holder, txs := update s.txs tx phase } where
  bounded := h.bounded
  reads := by
    intro tx'
    by_cases heq : tx' = tx
    · subst heq
      simpa using hread
    · simpa [Function.update_of_ne heq] using h.reads tx'
  flushed := by
    intro tx' read row
    by_cases heq : tx' = tx
    · subst heq
      simpa using hflushed read row
    · intro htx
      simp only [Function.update_of_ne heq] at htx
      obtain ⟨hholder, hnew⟩ := h.flushed tx' read row htx
      exact ⟨(hothers tx' read row heq htx).trans hholder, hnew⟩
  complete hcount := by
    obtain ⟨-, htags, hreferences⟩ := h.complete hcount
    exact ⟨hcount, htags, hreferences⟩

/-! ## Commits -/

/-- What a commit leaves behind. -/
def committing (work : τ → Row) (s : SightingRace τ) (tx : τ) (row : Ioc) : SightingRace τ where
  committed := row
  holder := none
  txs := update s.txs tx .ended
  commits := s.commits ++ [(work tx).1]

/-- The count stays right if and only if it was, and the row that is
replaced is the one that was read. -/
theorem count_committing (h : Inv S work init s) (htx : s.txs tx = .flushed read row) :
    (committing work s tx row).committed.sightings.val =
        init.sightings.val + (committing work s tx row).commits.length ↔
      s.committed.sightings.val = init.sightings.val + s.commits.length ∧ read = s.committed := by
  have hread : read ∈ (s.txs tx).read? := by simp [htx, SightingPhase.read?]
  obtain ⟨-, new, hnew, rfl⟩ := h.flushed tx read row htx
  simp only [committing, sightings_flush hnew, List.length_append, List.length_singleton]
  constructor
  · intro hcount
    rcases h.reads tx read hread with hlt | rfl
    · omega
    · exact ⟨by omega, rfl⟩
  · rintro ⟨hcount, rfl⟩
    omega

theorem complete_committing (h : Inv S work init s) (htx : s.txs tx = .flushed s.committed row)
    (hcomplete : NoneLost init s) (hcount : (committing work s tx row).committed.sightings.val =
      init.sightings.val + (committing work s tx row).commits.length) :
    NoneLost init (committing work s tx row) := by
  obtain ⟨-, new, hnew, rfl⟩ := h.flushed tx s.committed row htx
  rw [Ioc.flush_self] at hcount ⊢
  refine ⟨hcount, fun call hcall tag htag => ?_, fun call hcall ref href => ?_⟩
  · rw [committing, tags_resighted hnew]
    rcases List.mem_append.mp hcall with hold | hlast
    · exact .inl (hcomplete.tags call hold tag htag)
    · rw [List.mem_singleton.mp hlast] at htag
      exact .inr htag
  · rw [committing, references_resighted hnew]
    rcases List.mem_append.mp hcall with hold | hlast
    · exact .inl (hcomplete.references call hold ref href)
    · rw [List.mem_singleton.mp hlast] at href
      exact .inr href

theorem inv_committing (h : Inv S work init s) (htx : s.txs tx = .flushed read row) :
    Inv S work init (committing work s tx row) := by
  have hmine : read ∈ (s.txs tx).read? := by simp [htx, SightingPhase.read?]
  have hlength : ((committing work s tx row).commits.length : Int) = s.commits.length + 1 := by
    simp [committing]
  constructor
  · obtain ⟨-, new, hnew, rfl⟩ := h.flushed tx read row htx
    have hcount := sightings_flush hnew s.committed
    have hread := h.read_le hmine
    rw [hlength]
    simp only [committing]
    omega
  · intro tx' read' hread'
    refine .inl ?_
    rw [hlength]
    by_cases heq : tx' = tx
    · subst heq
      simp [committing, SightingPhase.read?] at hread'
    · simp only [committing, Function.update_of_ne heq] at hread'
      have hread := h.read_le hread'
      omega
  · intro tx' read' row' htx'
    by_cases heq : tx' = tx
    · subst heq
      simp [committing] at htx'
    · simp only [committing, Function.update_of_ne heq] at htx'
      have hholder := (h.flushed tx read row htx).1
      have hholder' := (h.flushed tx' read' row' htx').1
      exact absurd (Option.some.inj (hholder'.symm.trans hholder)) heq
  · intro hcount
    obtain ⟨hbefore, rfl⟩ := (count_committing h htx).mp hcount
    exact complete_committing h htx (h.complete hbefore) hcount

/-! ## Runs -/

theorem inv_step (h : Inv S work init s) (e : SightingEvent τ) : Inv S work init (step S work s e) := by
  cases e with
  | fetch tx =>
      rw [step]
      split
      · exact h.move (by simp [SightingPhase.read?]) (by simp) (by simp)
      · exact h
  | flush tx =>
      rw [step]
      split
      · next read htx =>
          have hread := h.reads tx read (by simp [htx, SightingPhase.read?])
          split
          · exact h.move (by simp [SightingPhase.read?]) (by simp) (by simp)
          · next new hnew =>
              split
              · exact h
              · next hfree =>
                  refine h.move (by simpa [SightingPhase.read?] using hread) ?_ ?_
                  · rintro read' row' ⟨⟩
                    exact ⟨rfl, new, hnew, rfl⟩
                  · rintro tx' read' row' - htx'
                    rw [(h.flushed tx' read' row' htx').1] at hfree
                    simp at hfree
      · exact h
  | commit tx =>
      rw [step]
      split
      · next read row htx => exact inv_committing h htx
      · exact h
  | rollback tx =>
      rw [step]
      split
      · next read row htx =>
          refine h.move (by simp [SightingPhase.read?]) (by simp) ?_
          intro tx' read' row' hne htx'
          have hholder := (h.flushed tx read row htx).1
          have hholder' := (h.flushed tx' read' row' htx').1
          exact absurd (Option.some.inj (hholder'.symm.trans hholder)) hne
      · exact h.move (by simp [SightingPhase.read?]) (by simp) (by simp)

theorem noneLost_step (h : Inv S work init s) (e : SightingEvent τ) :
    NoneLost init (step S work s e) ↔ NoneLost init s ∧ UpToDate s e := by
  have hsame : ∀ s' : SightingRace τ, s'.committed = s.committed → s'.commits = s.commits →
      (NoneLost init s' ↔ NoneLost init s) := by
    intro s' hcommitted hcommits
    constructor <;> rintro ⟨hcount, htags, hreferences⟩ <;> constructor <;> grind
  cases e with
  | fetch tx =>
      simp only [step, UpToDate, and_true]
      split
      · exact hsame _ rfl rfl
      · exact Iff.rfl
  | flush tx =>
      simp only [step, UpToDate, and_true]
      split
      · split
        · exact hsame _ rfl rfl
        · split
          · exact Iff.rfl
          · exact hsame _ rfl rfl
      · exact Iff.rfl
  | commit tx =>
      simp only [step, UpToDate]
      split
      · next read row htx =>
          have hinv := inv_committing h htx
          have hcount := count_committing h htx
          rw [← noneLost_iff_count hinv, ← noneLost_iff_count h] at hcount
          rw [committing] at hcount
          simp [htx, hcount]
      · next hnone =>
          refine ⟨fun hlost => ⟨hlost, fun read row htx => ?_⟩, And.left⟩
          exact (hnone read row htx).elim
  | rollback tx =>
      simp only [step, UpToDate, and_true]
      split
      · exact hsame _ rfl rfl
      · exact hsame _ rfl rfl

/-- **No sighting is lost if and only if every commit is of an up-to-date
row.** Whatever the stored row is, and whatever the transactions are and
how they overlap. -/
theorem noneLost_iff (S : IOCService) (work : τ → Row) (init : Ioc) (es : List (SightingEvent τ)) :
    NoneLost init (Runs.run (step S work) { committed := init } es) ↔
      Runs.Meets (step S work) UpToDate { committed := init } es := by
  have hinv : ∀ s e, Inv S work init s → Inv S work init (step S work s e) := fun s e h => inv_step h e
  have hstep : ∀ s e, Inv S work init s → NoneLost init s →
      (NoneLost init (step S work s e) ↔ UpToDate s e) := by
    intro s e h hnone
    rw [noneLost_step h e, and_iff_right hnone]
  have hbroken : ∀ s e, Inv S work init s → ¬ NoneLost init s → ¬ NoneLost init (step S work s e) :=
    fun s e h hlost hnone => hlost ((noneLost_step h e).mp hnone).1
  have hstart := inv_init S work init
  exact Runs.run_iff_meets hinv hstep hbroken hstart ((noneLost_iff_count hstart).mpr (by simp))

/-- Two analysts submit an indicator that is stored. -/
def analysts (first : Bool) : Row :=
  ({ rawValue := "evil.example".toList
     tags := [if first then "phishing".toList else "c2".toList]
     doEnrich := false },
    { now := 1 })

/-- The row they find. -/
def storedOnce : Ioc :=
  newIoc { value := "evil.example".toList, type := .domain } { rawValue := "evil.example".toList }
    0 ⟨25, by decide⟩ .low ⟨1, IntColumn.one_fits⟩ "f"

/-- Both read the row before the other has committed: one of the two
sightings is gone. -/
theorem overlapping_loses :
    ¬ NoneLost storedOnce
      (Runs.run (step (IOCService.getIocService .sample { enableLiveCollectors := false }) analysts)
        { committed := storedOnce }
        [.fetch true, .fetch false, .flush true, .commit true, .flush false, .commit false]) := by
  intro h
  exact absurd h.sightings (by decide +kernel)

/-! ## A transaction on its own -/

/-- What an upsert assigns is what the sequential upsert stores. -/
theorem resighted_of_persist {call : UpsertCall} {c : Conditions} {ioc : Ioc} {w w' : IntelWorld}
    {parsed : ParsedIndicator} (hpersist : (S.persist call c).run w = (.ok ioc, w'))
    (hclass : Indicators.classifyIndicator S.interpreter.unicode call.rawValue = .ok parsed)
    (hknown : IOCService.knownIoc w.db parsed = some read) :
    S.resighted (call, c) read = some ioc := by
  obtain ⟨parsed', hp, -⟩ := IOCService.persist_ok_score hpersist
  obtain rfl := Except.ok.inj (hp.classified.symm.trans hclass)
  obtain ⟨w₁, hstored, -, -⟩ := hp.stored
  have hfits := hstored.fits
  rw [IOCService.scoreOf, hknown] at hstored hfits
  cases hstored with
  | @updated sightings threatScore _ hsightings hscore =>
      obtain rfl : threatScore = ⟨_, hfits.2⟩ := Subtype.ext hscore
      obtain rfl : sightings = ⟨_, hfits.1⟩ := Subtype.ext hsightings
      exact dif_pos hfits

/-- **On its own, a transaction is the upsert.** -/
theorem run_alone {call : UpsertCall} {c : Conditions} {ioc : Ioc} {w w' : IntelWorld}
    {parsed : ParsedIndicator} (hpersist : (S.persist call c).run w = (.ok ioc, w'))
    (hclass : Indicators.classifyIndicator S.interpreter.unicode call.rawValue = .ok parsed)
    (hknown : IOCService.knownIoc w.db parsed = some s.committed) (hwork : work tx = (call, c))
    (hbegun : s.txs tx = .begun) (hfree : s.holder = none) :
    Runs.run (step S work) s [.fetch tx, .flush tx, .commit tx] =
      { committed := ioc
        holder := none
        txs := update s.txs tx .ended
        commits := s.commits ++ [call] } := by
  have hnew := resighted_of_persist hpersist hclass hknown
  simp [step, hbegun, hwork, hnew, hfree, Ioc.flush_self]

end SightingRace

end ThreatIntel
