import ThreatIntel.Runs
import ThreatIntel.Tokens

/-!
# What a revocation store remembers

The calls that a store serves, one after another. Entries leave the
in-process store in three ways: a later revocation of the same identifier
overwrites the entry, a revocation of another one prunes it, a query
deletes it. The last two concern entries that have lapsed, and a lapsed
entry is as good as none. So an answer is a function of the calls alone
(`Remembers`): it says whether the latest revocation of the identifier
still lasts.
-/

namespace ThreatIntel

variable {K : Type} [Ring K] [LinearOrder K]

/-- A call of the store, with the reading of the clock it takes. -/
inductive StoreCall (K : Type) where
  | revoke (now : K) (jti : String) (ttlSeconds : Int)
  | isRevoked (now : K) (jti : String)
  deriving DecidableEq, Repr

def StoreCall.now : StoreCall K → K
  | revoke now _ _ => now
  | isRevoked now _ => now

namespace TokenStore

/-- The store after a call. -/
def serve (st : TokenStore K) : StoreCall K → TokenStore K
  | .revoke now jti ttlSeconds => st.revoke now jti ttlSeconds
  | .isRevoked now jti => (st.isRevoked now jti).2

/-- The latest revocation of `jti` among the calls still lasts at `t`. -/
def Lasting (calls : List (StoreCall K)) (t : K) (jti : String) : Prop :=
  ∃ before now ttlSeconds after,
    calls = before ++ .revoke now jti ttlSeconds :: after ∧
      (∀ now' ttl', .revoke now' jti ttl' ∉ after) ∧ t < now + (max ttlSeconds 1 : Int)

/-! ## One more call -/

theorem not_lasting_nil (t : K) (jti : String) : ¬ Lasting [] t jti := by
  rintro ⟨before, now, ttl, after, hcalls, -⟩
  simp at hcalls

/-- A revocation is the latest one of its identifier. -/
theorem lasting_append_revoke (calls : List (StoreCall K)) (now t : K) (jti : String) (ttl : Int) :
    Lasting (calls ++ [.revoke now jti ttl]) t jti ↔ t < now + (max ttl 1 : Int) := by
  constructor
  · rintro ⟨before, now', ttl', after, hcalls, hlatest, hlt⟩
    rcases List.eq_nil_or_concat after with rfl | ⟨after, last, rfl⟩
    · obtain ⟨-, hlast⟩ := List.append_inj' hcalls rfl
      obtain ⟨rfl, -, rfl⟩ := StoreCall.revoke.inj (List.singleton_inj.mp hlast)
      exact hlt
    · rw [List.concat_eq_append, ← List.cons_append, ← List.append_assoc] at hcalls
      obtain ⟨-, hlast⟩ := List.append_inj' hcalls rfl
      obtain rfl := List.singleton_inj.mp hlast
      exact absurd (by simp) (hlatest now ttl)
  · exact fun hlt => ⟨calls, now, ttl, [], rfl, by simp, hlt⟩

/-- Any other call leaves the latest revocation what it was. -/
theorem lasting_append_other (calls : List (StoreCall K)) {call : StoreCall K} {jti : String}
    (h : ∀ now ttl, call ≠ .revoke now jti ttl) (t : K) :
    Lasting (calls ++ [call]) t jti ↔ Lasting calls t jti := by
  constructor
  · rintro ⟨before, now, ttl, after, hcalls, hlatest, hlt⟩
    rcases List.eq_nil_or_concat after with rfl | ⟨after, last, rfl⟩
    · obtain ⟨-, hlast⟩ := List.append_inj' hcalls rfl
      exact absurd (List.singleton_inj.mp hlast) (h now ttl)
    · rw [List.concat_eq_append] at hcalls hlatest
      rw [← List.cons_append, ← List.append_assoc] at hcalls
      obtain ⟨hinit, -⟩ := List.append_inj' hcalls rfl
      exact ⟨before, now, ttl, after, hinit,
        fun now' ttl' hmem => hlatest now' ttl' (List.mem_append_left _ hmem), hlt⟩
  · rintro ⟨before, now, ttl, after, rfl, hlatest, hlt⟩
    refine ⟨before, now, ttl, after ++ [call], by simp, fun now' ttl' hmem => ?_, hlt⟩
    rcases List.mem_append.mp hmem with hmem | hmem
    · exact hlatest now' ttl' hmem
    · exact h now' ttl' (List.mem_singleton.mp hmem).symm

/-! ## The invariant -/

/-- From the last call on, the store holds what its calls say. -/
def Remembers (st : TokenStore K) (calls : List (StoreCall K)) : Prop :=
  ∀ t, (∀ call ∈ calls, call.now ≤ t) → ∀ jti, st.Revoked t jti ↔ Lasting calls t jti

/-- A store in which nothing has been revoked, of either backend. -/
def IsNew (st : TokenStore K) : Prop := ∀ jti, st.deadline jti = none

omit [Ring K] [LinearOrder K] in
theorem isNew_inMemory : (inMemory ⟨.empty⟩ : TokenStore K).IsNew := fun _ => rfl

omit [Ring K] [LinearOrder K] in
theorem isNew_redis : (redis ⟨⟨.empty⟩⟩ : TokenStore K).IsNew := fun _ => rfl

theorem IsNew.remembers {st : TokenStore K} (h : st.IsNew) : st.Remembers [] := by
  intro t _ jti
  simp [Revoked, h jti, not_lasting_nil]

theorem remembers_serve {st : TokenStore K} {calls : List (StoreCall K)} (h : st.Remembers calls)
    (call : StoreCall K) : (st.serve call).Remembers (calls ++ [call]) := by
  intro t hclock jti
  have hpast : ∀ c ∈ calls, c.now ≤ t := fun c hc => hclock c (List.mem_append_left _ hc)
  cases call with
  | revoke now j ttl =>
      have hnow : now ≤ t := hclock (.revoke now j ttl) (by simp)
      by_cases hj : jti = j
      · subst hj
        rw [serve, revoked_revoke_self, lasting_append_revoke]
      · have hother : ∀ now' ttl', StoreCall.revoke now j ttl ≠ .revoke now' jti ttl' :=
          fun _ _ heq => hj (StoreCall.revoke.inj heq).2.1.symm
        rw [serve, revoked_revoke_ne st ttl hj hnow, lasting_append_other calls hother,
          h t hpast jti]
  | isRevoked now j =>
      have hnow : now ≤ t := hclock (.isRevoked now j) (by simp)
      rw [serve, revoked_isRevoked st j jti hnow, lasting_append_other calls (by simp),
        h t hpast jti]

theorem remembers_run {st : TokenStore K} {past : List (StoreCall K)} (h : st.Remembers past)
    (calls : List (StoreCall K)) : (Runs.run serve st calls).Remembers (past ++ calls) := by
  induction calls generalizing st past with
  | nil => simpa using h
  | cons call calls ih =>
      have hrun := ih (remembers_serve h call)
      rwa [List.append_assoc, List.singleton_append] at hrun

theorem IsNew.isRevoked_iff {st : TokenStore K} (h : st.IsNew) {calls : List (StoreCall K)} {now : K}
    (hclock : ∀ call ∈ calls, call.now ≤ now) (jti : String) :
    ((Runs.run serve st calls).isRevoked now jti).1 = true ↔ Lasting calls now jti := by
  have hrun := remembers_run h.remembers calls
  rw [TokenStore.isRevoked_iff]
  exact hrun now hclock jti

/-- **Pruning cannot be observed.** On a clock that does not run backwards
the in-process store answers that an identifier is revoked exactly while
its latest revocation lasts, and the Redis store answers the same. -/
theorem isRevoked_iff_lasting {calls : List (StoreCall K)} {now : K}
    (hclock : ∀ call ∈ calls, call.now ≤ now) (jti : String) :
    (((Runs.run serve (inMemory ⟨.empty⟩) calls).isRevoked now jti).1 = true ↔
        Lasting calls now jti) ∧
      ((Runs.run serve (redis ⟨⟨.empty⟩⟩) calls).isRevoked now jti).1 =
        ((Runs.run serve (inMemory ⟨.empty⟩) calls).isRevoked now jti).1 := by
  have hmemory := isNew_inMemory.isRevoked_iff hclock jti
  have hredis := isNew_redis.isRevoked_iff hclock jti
  exact ⟨hmemory, Bool.eq_iff_iff.mpr (hredis.trans hmemory.symm)⟩

/-- Two lifetimes of one identifier, the second one at its end, and another
identifier in between. -/
theorem isRevoked_iff_lasting_sample :
    (((Runs.run serve (inMemory ⟨.empty⟩) [.revoke (0 : Int) "a" 9, .isRevoked 3 "b",
        .revoke 5 "a" 0, .revoke 6 "b" 4]).isRevoked 6 "a").1 = true ↔
        Lasting [.revoke (0 : Int) "a" 9, .isRevoked 3 "b", .revoke 5 "a" 0, .revoke 6 "b" 4] 6
          "a") ∧
      ((Runs.run serve (redis ⟨⟨.empty⟩⟩) [.revoke (0 : Int) "a" 9, .isRevoked 3 "b",
        .revoke 5 "a" 0, .revoke 6 "b" 4]).isRevoked 6 "a").1 =
        ((Runs.run serve (inMemory ⟨.empty⟩) [.revoke (0 : Int) "a" 9, .isRevoked 3 "b",
          .revoke 5 "a" 0, .revoke 6 "b" 4]).isRevoked 6 "a").1 :=
  isRevoked_iff_lasting (by decide) "a"

end TokenStore

end ThreatIntel
