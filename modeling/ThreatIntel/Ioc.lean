import Mathlib.Algebra.Ring.Int.Defs
import Mathlib.Data.Char
import Mathlib.Data.List.Lex
import ThreatIntel.Indicators

/-!
# Indicators of compromise

The row of the `iocs` table, `app/models/ioc.py`, and the way a value is
written so that it cannot be clicked.
-/

namespace ThreatIntel

/-- A value of an `Integer` column: no database keeps more than 64 bits. -/
abbrev IntColumn := {n : Int // -2 ^ 63 ≤ n ∧ n < 2 ^ 63}

theorem IntColumn.one_fits : -2 ^ 63 ≤ (1 : Int) ∧ (1 : Int) < 2 ^ 63 := by decide

namespace IOCType

def all : List IOCType :=
  [ipv4, ipv6, domain, url, md5, sha1, sha256, email, hostname, cve, mitreTechnique, yara, sigma]

/-- `IOCType(value)`; `none` is the `ValueError`. -/
def ofValue? (value : String) : Option IOCType := all.find? fun t => t.value = value

@[simp] theorem ofValue?_value (t : IOCType) : ofValue? t.value = some t := by
  cases t <;> decide

end IOCType

/-- The columns that are read or written here. Times are in microseconds;
`type`, `confidence`, `severity` and `threatLevel` hold the values of
enumerations, but the columns are strings. -/
structure Ioc where
  id : String
  type : String
  value : PyStr
  defangedValue : PyStr
  source : PyStr
  confidence : String
  severity : String
  threatScore : IntColumn
  threatLevel : String
  sightings : IntColumn
  tags : List PyStr
  references : List PyStr
  description : Option PyStr
  firstSeen : Option Int
  lastSeen : Option Int

/-- `sorted(set(texts))`. -/
def sortedSet (texts : List PyStr) : List PyStr :=
  texts.eraseDups.mergeSort fun s t => decide (s ≤ t)

theorem mem_sortedSet {t : PyStr} {texts : List PyStr} :
    t ∈ sortedSet texts ↔ t ∈ texts := by
  rw [sortedSet, List.mem_mergeSort, List.mem_eraseDups]

theorem nodup_eraseDups {α : Type} [BEq α] [LawfulBEq α] (l : List α) : l.eraseDups.Nodup := by
  generalize hn : l.length = n
  induction n using Nat.strongRecOn generalizing l with
  | ind n ih =>
      cases l with
      | nil => simp
      | cons a as =>
          rw [List.eraseDups_cons, List.nodup_cons]
          refine ⟨by simp, ih _ ?_ _ rfl⟩
          have hle := List.length_filter_le (fun b => !b == a) as
          rw [List.length_cons] at hn
          omega

theorem sorted_sortedSet (texts : List PyStr) : (sortedSet texts).Pairwise (· < ·) := by
  have hle : (sortedSet texts).Pairwise (· ≤ ·) := by
    have h := @List.pairwise_mergeSort _ (fun s t : PyStr => decide (s ≤ t))
      (fun a b c => by simpa using le_trans) (fun a b => by simpa using le_total a b)
      texts.eraseDups
    simpa [sortedSet] using h
  have hnodup : (sortedSet texts).Nodup :=
    (List.mergeSort_perm _ _).nodup_iff.mpr (nodup_eraseDups texts)
  exact (hle.and hnodup).imp fun h => lt_of_le_of_ne h.1 h.2

/-- `defang`. -/
def defang (value : PyStr) : PyStr :=
  let out := PyStr.replace "http".toList "hxxp".toList value
  let out := PyStr.replace ".".toList "[.]".toList out
  let out := PyStr.replace "://".toList "[://]".toList out
  PyStr.replace "@".toList "[at]".toList out

/-- `text or default`, where `text` may be `None`. -/
def orDefault (text : Option PyStr) (default : PyStr) : PyStr :=
  match text with
  | some s => if s = [] then default else s
  | none => default

end ThreatIntel
