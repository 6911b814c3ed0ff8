import Mathlib.Data.List.DropRight
import ThreatIntel.Rewrite
import ThreatIntel.Regex

/-!
# Python strings

A `str` as the list of its code points, and the `str` methods and `re`
character classes the application uses. What it asks of the Unicode
database beyond the tables below comes with a `Unicode`.

Case is mapped for the characters whose mapping involves ASCII; the
others stay as they are. The application lower-cases texts that an ASCII
pattern has matched, or compares the result with ASCII words, and no
other character has a mapping that either could notice.
-/

namespace ThreatIntel

abbrev PyStr := List Char

/-- The parts of the Unicode database that are consulted as a whole:
`str.isalnum` and `str.isprintable` above ASCII, and NFKC normalisation. -/
structure Unicode where
  isAlnum : Char → Bool
  isPrintable : Char → Bool
  nfkc : PyStr → PyStr

/-- Enough of the database for texts in ASCII. -/
def Unicode.ascii : Unicode where
  isAlnum _ := false
  isPrintable _ := false
  nfkc := id

namespace PyStr

/-! ## Characters -/

/-- The code points for which `str.isspace` holds. -/
def spaces : List Nat :=
  [0x9, 0xa, 0xb, 0xc, 0xd, 0x1c, 0x1d, 0x1e, 0x1f, 0x20, 0x85, 0xa0, 0x1680,
    0x2000, 0x2001, 0x2002, 0x2003, 0x2004, 0x2005, 0x2006, 0x2007, 0x2008, 0x2009, 0x200a,
    0x2028, 0x2029, 0x202f, 0x205f, 0x3000]

def isSpace (c : Char) : Bool := spaces.contains c.toNat

/-- Where the runs of ten decimal digits (category `Nd`) begin. -/
def zeros : List Nat :=
  [0x30, 0x660, 0x6f0, 0x7c0, 0x966, 0x9e6, 0xa66, 0xae6, 0xb66, 0xbe6, 0xc66, 0xce6, 0xd66, 0xde6,
    0xe50, 0xed0, 0xf20, 0x1040, 0x1090, 0x17e0, 0x1810, 0x1946, 0x19d0, 0x1a80, 0x1a90, 0x1b50,
    0x1bb0, 0x1c40, 0x1c50, 0xa620, 0xa8d0, 0xa900, 0xa9d0, 0xa9f0, 0xaa50, 0xabf0, 0xff10,
    0x104a0, 0x10d30, 0x11066, 0x110f0, 0x11136, 0x111d0, 0x112f0, 0x11450, 0x114d0, 0x11650,
    0x116c0, 0x11730, 0x118e0, 0x11950, 0x11c50, 0x11d50, 0x11da0, 0x11f50, 0x16a60, 0x16ac0,
    0x16b50, 0x1d7ce, 0x1d7d8, 0x1d7e2, 0x1d7ec, 0x1d7f6, 0x1e140, 0x1e2f0, 0x1e4f0, 0x1e950,
    0x1fbf0]

/-- `\d`. -/
def isDecimal (c : Char) : Bool := zeros.any fun z => z ≤ c.toNat && c.toNat < z + 10

def isAsciiDigit (c : Char) : Bool := '0' ≤ c && c ≤ '9'

def isAsciiLower (c : Char) : Bool := 'a' ≤ c && c ≤ 'z'

/-- `\w`. -/
def isWord (U : Unicode) (c : Char) : Bool :=
  if c.toNat < 128 then c.isAlphanum || c = '_' else U.isAlnum c

def asciiCase : List (Char × Char) :=
  (List.range 26).map fun i => (Char.ofNat (65 + i), Char.ofNat (97 + i))

/-- The characters that `re.IGNORECASE` reads as an ASCII letter without
their being that letter in lower case. -/
def caseTable : List (Char × Char) :=
  asciiCase ++ [('İ', 'i'), ('ı', 'i'), ('ſ', 's'), ('\u212a', 'k')]

/-- A character mapped through a table; one that is not in it stays. -/
def mapThrough (table : List (Char × Char)) (c : Char) : Char := (table.lookup c).getD c

/-- The representative of a character under `re.IGNORECASE`. -/
def foldCase (c : Char) : Char := mapThrough caseTable c

/-- Equality under `re.IGNORECASE`. -/
def sameFold (p c : Char) : Bool := foldCase p = foldCase c

def sameChar (p c : Char) : Bool := p = c

/-- A character class under `re.IGNORECASE`, given in lower case. -/
def ignoreCase (p : Char → Bool) (c : Char) : Bool := p (foldCase c)

/-! ## Methods -/

/-- `s.strip()`. -/
def strip (s : PyStr) : PyStr := (s.dropWhile isSpace).rdropWhile isSpace

/-- `s.lstrip()`. -/
def lstrip (s : PyStr) : PyStr := s.dropWhile isSpace

/-- `s.rstrip(chars)`. -/
def rstripChars (chars s : PyStr) : PyStr := s.rdropWhile chars.contains

/-- `sep.join(parts)` for a single character. -/
def join (sep : Char) (parts : List PyStr) : PyStr := [sep].intercalate parts

/-- `s.replace(old, new)`. -/
def replace (old new s : PyStr) : PyStr := Rewrite.replace sameChar old new s

/-- `re.sub(re.escape(old), new, s, flags=re.IGNORECASE)`. -/
def subIgnoreCase (old new s : PyStr) : PyStr := Rewrite.replace sameFold old new s

/-- `sub in s`. -/
def includes (sub s : PyStr) : Bool := Rewrite.occurs sameChar sub s

def lowerTable : List (Char × Char) := ('\u212a', 'k') :: asciiCase

def upperTable : List (Char × Char) :=
  ('ſ', 'S') :: ('ı', 'I') :: asciiCase.map fun kv => (kv.2, kv.1)

/-- The mapping to lower case, where it is one to one. -/
def lowerOne (c : Char) : Char := mapThrough lowerTable c

def upperOne (c : Char) : Char := mapThrough upperTable c

/-- `s.lower()`: the dotted capital i becomes two characters. -/
def lower (s : PyStr) : PyStr :=
  s.flatMap fun c => if c = 'İ' then ['i', '\u0307'] else [lowerOne c]

/-- `s.upper()`. -/
def upper (s : PyStr) : PyStr := s.map upperOne

def hexChar (d : Nat) : Char := if d < 10 then Char.ofNat (48 + d) else Char.ofNat (87 + d)

/-- The last `width` hexadecimal digits of a number. -/
def hexPad : Nat → Nat → PyStr
  | 0, _ => []
  | width + 1, n => hexPad width (n / 16) ++ [hexChar (n % 16)]

def apostrophe : Char := Char.ofNat 0x27

/-- How a character is written between the given quotes. -/
def reprChar (U : Unicode) (quote c : Char) : PyStr :=
  if c = quote ∨ c = '\\' then ['\\', c]
  else if c = '\t' then "\\t".toList
  else if c = '\n' then "\\n".toList
  else if c = '\r' then "\\r".toList
  else if 0x20 ≤ c.toNat ∧ c.toNat < 0x7f ∨ 0x7f < c.toNat ∧ U.isPrintable c then [c]
  else if c.toNat ≤ 0xff then "\\x".toList ++ hexPad 2 c.toNat
  else if c.toNat ≤ 0xffff then "\\u".toList ++ hexPad 4 c.toNat
  else "\\U".toList ++ hexPad 8 c.toNat

/-- `repr(s)`. -/
def repr (U : Unicode) (s : PyStr) : PyStr :=
  let quote := if apostrophe ∈ s ∧ '"' ∉ s then '"' else apostrophe
  quote :: s.flatMap (reprChar U quote) ++ [quote]

/-! ## Case -/

theorem mapThrough_cases (table : List (Char × Char)) (c : Char) :
    mapThrough table c = c ∨ (c, mapThrough table c) ∈ table := by
  induction table with
  | nil => exact .inl rfl
  | cons kv table ih =>
      obtain ⟨k, v⟩ := kv
      rw [mapThrough, List.lookup_cons]
      by_cases h : c = k
      · subst h
        simp
      · have hne : (c == k) = false := by simp [h]
        simpa [hne, h, mapThrough] using ih

/-- What holds of a character and itself and of the pairs in the table
holds of a character and its image. -/
theorem mapThrough_rel {table : List (Char × Char)} {R : Char → Char → Prop} (hself : ∀ c, R c c)
    (htable : ∀ kv ∈ table, R kv.1 kv.2) (c : Char) : R c (mapThrough table c) := by
  rcases mapThrough_cases table c with hc | hc
  · rw [hc]
    exact hself c
  · exact htable _ hc

theorem mapThrough_mapThrough {table : List (Char × Char)}
    (h : ∀ kv ∈ table, mapThrough table kv.2 = kv.2) (c : Char) :
    mapThrough table (mapThrough table c) = mapThrough table c := by
  rcases mapThrough_cases table c with hc | hc
  · rw [hc, hc]
  · exact h _ hc

/-- A test that does not tell the pairs of the table apart may be made
before or after folding. -/
theorem ignoreCase_eq {q : Char → Bool} (h : ∀ kv ∈ caseTable, q kv.2 = q kv.1) (c : Char) :
    ignoreCase q c = q c :=
  mapThrough_rel (R := fun c d => q d = q c) (fun _ => rfl) h c

theorem foldCase_lowerOne (c : Char) : foldCase (lowerOne c) = foldCase c :=
  mapThrough_rel (R := fun c d => foldCase d = foldCase c) (fun _ => rfl) (by decide) c

theorem foldCase_upperOne (c : Char) : foldCase (upperOne c) = foldCase c :=
  mapThrough_rel (R := fun c d => foldCase d = foldCase c) (fun _ => rfl) (by decide) c

theorem lowerOne_lowerOne (c : Char) : lowerOne (lowerOne c) = lowerOne c :=
  mapThrough_mapThrough (by decide) c

theorem upperOne_upperOne (c : Char) : upperOne (upperOne c) = upperOne c :=
  mapThrough_mapThrough (by decide) c

theorem lowerOne_eq_dotted (c : Char) : lowerOne c = 'İ' ↔ c = 'İ' :=
  mapThrough_rel (R := fun c d => d = 'İ' ↔ c = 'İ') (fun _ => Iff.rfl) (by decide) c

theorem lowerOne_eq_dot (c : Char) : lowerOne c = '\u0307' ↔ c = '\u0307' :=
  mapThrough_rel (R := fun c d => d = '\u0307' ↔ c = '\u0307') (fun _ => Iff.rfl) (by decide) c

theorem lower_eq_map {s : PyStr} (h : 'İ' ∉ s) : lower s = s.map lowerOne := by
  induction s with
  | nil => rfl
  | cons c s ih =>
      obtain ⟨hc, hs⟩ := not_or.mp (fun hmem => h (List.mem_cons.mpr hmem))
      have ih' := ih hs
      simp only [lower] at ih'
      simp [lower, Ne.symm hc, ih']

/-- A letter in upper case is in no text in lower case. -/
theorem notMem_lower {c : Char} (hcase : lowerOne c ≠ c) (htable : ∀ kv ∈ lowerTable, kv.2 ≠ c)
    (hother : c ∉ ['i', '\u0307']) (s : PyStr) : c ∉ lower s := by
  intro h
  obtain ⟨d, -, hd⟩ := List.mem_flatMap.mp h
  split at hd
  · exact hother hd
  · obtain rfl := List.mem_singleton.mp hd
    rcases mapThrough_cases lowerTable d with hself | hin
    · exact hcase (lowerOne_lowerOne d)
    · exact htable _ hin rfl

/-- No dotted capital i is left by lower-casing. -/
theorem dotted_notMem_lower (s : PyStr) : 'İ' ∉ lower s := by
  intro h
  obtain ⟨c, -, hc⟩ := List.mem_flatMap.mp h
  split at hc
  · simp at hc
  · next hne => exact hne ((lowerOne_eq_dotted c).mp (List.mem_singleton.mp hc).symm)

theorem lower_eq_self {s : PyStr} (h : ∀ c ∈ s, lowerOne c = c ∧ c ≠ 'İ') : s.lower = s := by
  rw [lower_eq_map fun hmem => (h _ hmem).2 rfl]
  conv_rhs => rw [← List.map_id s]
  exact List.map_congr_left fun c hc => (h c hc).1

/-- The characters of a text in lower case. -/
theorem lowerOne_of_lower {s : PyStr} (hs : s.lower = s) {c : Char} (hc : c ∈ s) :
    lowerOne c = c ∧ c ≠ 'İ' := by
  have hdotted : 'İ' ∉ s := hs ▸ dotted_notMem_lower s
  refine ⟨?_, fun heq => hdotted (heq ▸ hc)⟩
  rw [lower_eq_map hdotted] at hs
  exact List.map_inj_left.mp (hs.trans (List.map_id s).symm) c hc

theorem lower_lower {s : PyStr} (h : 'İ' ∉ s) : lower (lower s) = lower s := by
  rw [lower_eq_map (dotted_notMem_lower s), lower_eq_map h, List.map_map]
  exact List.map_congr_left fun c _ => lowerOne_lowerOne c

theorem upper_upper (s : PyStr) : upper (upper s) = upper s := by
  rw [upper, upper, List.map_map]
  exact List.map_congr_left fun c _ => upperOne_upperOne c

/-- Lower-casing leaves the combining dot of a dotted capital i behind,
and no other. -/
theorem dot_mem_lower {s : PyStr} : '\u0307' ∈ lower s ↔ 'İ' ∈ s ∨ '\u0307' ∈ s := by
  have hone : ∀ c, '\u0307' = lowerOne c ↔ '\u0307' = c := fun c => by
    rw [eq_comm, lowerOne_eq_dot, eq_comm]
  induction s with
  | nil => simp [lower]
  | cons c s ih =>
      simp only [lower] at ih
      by_cases h : c = 'İ'
      · simp [lower, h]
      · simp [lower, h, Ne.symm h, ih, hone, or_left_comm]

/-! ## Stripping -/

theorem strip_isInfix (s : PyStr) : strip s <:+: s :=
  (List.rdropWhile_prefix _ _).isInfix.trans (List.dropWhile_suffix _).isInfix

theorem not_isSpace_of_getLast?_strip {s : PyStr} {c : Char} (h : (strip s).getLast? = some c) :
    isSpace c = false := by
  have hne : strip s ≠ [] := by
    rintro hnil
    simp [hnil] at h
  rw [List.getLast?_eq_some_getLast hne] at h
  obtain rfl := Option.some.inj h
  exact Bool.eq_false_iff.mpr (List.rdropWhile_last_not isSpace (s.dropWhile isSpace) hne)

theorem strip_eq_self {s : PyStr} (h : ∀ c ∈ s, isSpace c = false) : strip s = s := by
  have hleft : s.dropWhile isSpace = s := by
    cases s with
    | nil => rfl
    | cons c s => simp [h c List.mem_cons_self]
  rw [strip, hleft, List.rdropWhile_eq_self_iff]
  intro hne
  simp [h _ (List.getLast_mem hne)]

/-- A text with no space at either end is stripped already, and conversely. -/
theorem strip_eq_self_iff {s : PyStr} :
    strip s = s ↔ (∀ c, s.head? = some c → isSpace c = false) ∧
      ∀ c, s.getLast? = some c → isSpace c = false := by
  constructor
  · intro h
    refine ⟨fun c hc => ?_, fun c hc => not_isSpace_of_getLast?_strip (h.symm ▸ hc)⟩
    have hlen := (List.rdropWhile_prefix isSpace (s.dropWhile isSpace)).length_le
    rw [← strip, h] at hlen
    have hself : s.dropWhile isSpace = s :=
      (List.dropWhile_suffix isSpace).eq_of_length_le hlen
    cases s with
    | nil => simp at hc
    | cons d s =>
        obtain rfl : d = c := by simpa using hc
        by_contra hspace
        have := List.length_dropWhile_le isSpace s
        rw [List.dropWhile_cons_of_pos (by simpa using hspace)] at hself
        have := congrArg List.length hself
        rw [List.length_cons] at this
        omega
  · rintro ⟨hhead, hlast⟩
    have hleft : s.dropWhile isSpace = s := by
      cases s with
      | nil => rfl
      | cons c s => simp [hhead c rfl]
    rw [strip, hleft, List.rdropWhile_eq_self_iff]
    intro hne
    simp [hlast _ (List.getLast?_eq_some_getLast hne)]

theorem mem_strip {s : PyStr} {c : Char} (h : c ∈ s) (hc : isSpace c = false) : c ∈ strip s := by
  have hleft : c ∈ s.dropWhile isSpace := by
    rw [← List.takeWhile_append_dropWhile (p := isSpace) (l := s)] at h
    refine (List.mem_append.mp h).resolve_left fun hspace => ?_
    exact Bool.false_ne_true (hc.symm.trans (List.mem_takeWhile_imp hspace))
  rw [← List.rdropWhile_append_rtakeWhile (p := isSpace) (l := s.dropWhile isSpace)] at hleft
  refine (List.mem_append.mp hleft).resolve_right fun hspace => ?_
  exact Bool.false_ne_true (hc.symm.trans (List.mem_rtakeWhile_imp hspace))

@[simp] theorem strip_strip (s : PyStr) : strip (strip s) = strip s := by
  have hleft : (strip s).dropWhile isSpace = strip s := by
    rw [List.dropWhile_eq_self_iff]
    intro hpos
    -- the first character is the one `dropWhile` stopped at
    have hprefix : strip s <+: s.dropWhile isSpace := List.rdropWhile_prefix _ _
    have hpos' : 0 < (s.dropWhile isSpace).length :=
      lt_of_lt_of_le hpos hprefix.length_le
    have hhead : (strip s)[0] = (s.dropWhile isSpace)[0] := hprefix.getElem hpos
    have hstop := List.dropWhile_get_zero_not isSpace s hpos'
    simpa [hhead] using hstop
  rw [strip, hleft]
  exact List.rdropWhile_idempotent _ _

end PyStr

end ThreatIntel
