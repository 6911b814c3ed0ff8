import ThreatIntel.Ioc
import ThreatIntel.Like

/-!
# Searching for indicators

`app/repositories/ioc_repository.py`: the term of a search is escaped, put
between wildcards and compared with the value and the description without
regard to case. The database brings the comparison: `LIKE` with an escape
character, and a folding of letters.
-/

namespace ThreatIntel

namespace IocSearch

/-- `ESCAPE_CHAR`. -/
def escapeChar : Char := '\\'

/-- The characters of SQL patterns, with the escape character of the
repository. -/
def sql : Wildcards Char where
  many := '%'
  one := '_'
  escape := escapeChar
  nodup := by decide

/-- `_escape_like`. -/
def escapeLike (term : PyStr) : PyStr :=
  [escapeChar, '%', '_'].foldl (fun term ch => PyStr.replace [ch] [escapeChar, ch] term) term

/-- `f"%{_escape_like(query)}%"`. -/
def likePattern (query : PyStr) : PyStr := '%' :: (escapeLike query ++ ['%'])

/-- The backslashes come first, so none that a later replacement puts in is
replaced, and what it puts one before is not looked for again. -/
theorem escapeLike_eq (term : PyStr) : escapeLike term = sql.escapeAll term := by
  simp only [escapeLike, List.foldl_cons, List.foldl_nil, PyStr.replace, Rewrite.replace_singleton,
    List.flatMap_assoc, Wildcards.escapeAll]
  refine List.flatMap_congr fun c _ => ?_
  by_cases hescape : c = escapeChar
  · subst hescape
    decide
  · by_cases hmany : c = '%'
    · subst hmany
      decide
    · by_cases hone : c = '_'
      · subst hone
        decide
      · have hplain : sql.isSpecial c = false := by
          simp [Wildcards.isSpecial, sql, hescape, hmany, hone]
        simp [Wildcards.escapeOne, hplain, PyStr.sameChar, Ne.symm hescape, Ne.symm hmany,
          Ne.symm hone]

theorem likePattern_eq (query : PyStr) : likePattern query = sql.containing query := by
  rw [likePattern, escapeLike_eq]
  rfl

/-- **Search is literal**: the pattern for a term matches the texts that it
occurs in, and without regard to case the texts that it occurs in when both
are folded. -/
theorem likePattern_matches_iff (F : sql.Folding) (q s : PyStr) :
    (sql.like (likePattern q) s = some true ↔ q <:+: s) ∧
      (F.ilike (likePattern q) s = some true ↔ F.text q <:+: F.text s) := by
  rw [likePattern_eq]
  exact ⟨sql.like_containing q s, F.ilike_containing q s⟩

/-- The folding of a database that compares in lower case. -/
def lowering : sql.Folding where
  fold c := [PyStr.lowerOne c]
  fixes c hc := by
    simp only [Wildcards.isSpecial, Bool.or_eq_true, decide_eq_true_eq] at hc
    rcases hc with (rfl | rfl) | rfl <;> decide
  avoids c hc b hb := by
    obtain rfl := List.mem_singleton.mp hb
    have htable : ∀ kv ∈ PyStr.lowerTable, sql.isSpecial kv.1 = false →
        sql.isSpecial kv.2 = false := by decide
    exact PyStr.mapThrough_rel (R := fun c d => sql.isSpecial c = false → sql.isSpecial d = false)
      (fun _ => id) htable c hc

example : lowering.ilike (likePattern "10%_".toList) "save 10%_ now".toList = some true := by decide

/-! ## The repository -/

/-- A row with the column that only the search reads. -/
structure StoredIoc extends Ioc where
  status : String

/-- The arguments of `search` and `count`. -/
structure Filter where
  iocType : Option String := none
  minScore : Option Int := none
  threatLevel : Option String := none
  source : Option PyStr := none
  status : Option String := none
  query : Option PyStr := none
  deriving DecidableEq, Repr

/-- A condition on a column, if the argument is neither `None` nor empty. -/
def wanted {α : Type} [DecidableEq α] (empty : α) (argument : Option α) (column : α) : Bool :=
  argument.all fun a => a = empty || column = a

/-- `column.ilike(like, escape=ESCAPE_CHAR)` in a `WHERE`: a row for which
the comparison yields no answer is left out. -/
def ilikes (F : sql.Folding) (pattern column : PyStr) : Bool :=
  F.ilike pattern column = some true

/-- `_filtered`: whether the statement selects the row. -/
def filtered (F : sql.Folding) (f : Filter) (row : StoredIoc) : Bool :=
  wanted "" f.iocType row.type &&
    f.minScore.all (fun minScore => minScore ≤ row.threatScore.val) &&
    wanted "" f.threatLevel row.threatLevel && wanted [] f.source row.source &&
    wanted "" f.status row.status &&
    f.query.all fun query => query = [] ||
      (ilikes F (likePattern query) row.value ||
        row.description.any (ilikes F (likePattern query)))

/-- A search for a term and nothing else finds the rows with the term in
the value or in the description. -/
theorem filtered_query_iff (F : sql.Folding) {query : PyStr} (h : query ≠ []) (row : StoredIoc) :
    filtered F { query := some query } row = true ↔
      F.text query <:+: F.text row.value ∨
        ∃ description ∈ row.description, F.text query <:+: F.text description := by
  have hone : ∀ text, ilikes F (likePattern query) text = true ↔ F.text query <:+: F.text text := by
    intro text
    rw [ilikes, decide_eq_true_eq]
    exact (likePattern_matches_iff F query text).2
  simp [filtered, wanted, h, hone, Option.any_eq_true]

end IocSearch

end ThreatIntel
