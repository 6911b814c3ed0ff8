import Mathlib.Tactic.Ring
import ThreatIntel.Json

/-!
# Reading back what was written

`loads_dumps`: the reader returns the value that was written, for values
without floats that keep within the limits of the interpreter (`Fits`).
Strings come back character by character, whatever is in them; then the
elements of an array and the members of an object, given a reader for
what they hold; then values, by induction on how deep they may be nested.
-/

namespace ThreatIntel

namespace Json

/-- The value is nested at most so deep, has no float, and its integers
are not too long to read. -/
def Fits : Nat → Json → Prop
  | _, null => True
  | _, bool _ => True
  | _, int n => (Nat.toDigits 10 n.natAbs).length ≤ maxDigits
  | _, float _ => False
  | _, str _ => True
  | 0, arr _ => False
  | 0, obj _ => False
  | depth + 1, arr items => ∀ v ∈ items, Fits depth v
  | depth + 1, obj members => ∀ kv ∈ members, Fits depth kv.2

/-! ## Strings -/

theorem hexVal_hexChar : ∀ d < 16, hexVal (PyStr.hexChar d) = some d := by decide

theorem hex4_hexPad {n : Nat} (h : n < 0x10000) (s : PyStr) :
    hex4 (PyStr.hexPad 4 n ++ s) = some n := by
  have hd := fun m => hexVal_hexChar (m % 16) (Nat.mod_lt m (by decide))
  simp only [PyStr.hexPad, List.nil_append, List.cons_append, hex4, hd]
  simp only [bind, Option.bind, pure, Option.some.injEq]
  omega

theorem length_hexPad (width n : Nat) : (PyStr.hexPad width n).length = width := by
  induction width generalizing n with
  | zero => rfl
  | succ width ih => simp [PyStr.hexPad, ih]

theorem charOf_toNat (c : Char) : charOf c.toNat = c := by
  have hvalid : c.toNat < 0xd800 ∨ 0xdfff < c.toNat ∧ c.toNat < 0x110000 := c.valid
  have hnot : (isHighSurrogate c.toNat || isLowSurrogate c.toNat) = false := by
    simp [isHighSurrogate, isLowSurrogate]
    omega
  simp [charOf, hnot, c.ofNat_toNat]

theorem unicodeEscape_hexPad {c : Char} (h : c.toNat < 0x10000) {s : PyStr} (hs : s ≠ []) :
    unicodeEscape (PyStr.hexPad 4 c.toNat ++ s) = .ok (c, 5) := by
  have hvalid : c.toNat < 0xd800 ∨ 0xdfff < c.toNat ∧ c.toNat < 0x110000 := c.valid
  have hhigh : isHighSurrogate c.toNat = false := by
    simp [isHighSurrogate]
    omega
  have hlen : ¬ (PyStr.hexPad 4 c.toNat ++ s).length < 5 := by
    have := List.length_pos_iff.mpr hs
    simp only [List.length_append, length_hexPad]
    omega
  simp only [unicodeEscape, hex4_hexPad h, if_neg hlen, hhigh, Bool.false_and,
    Bool.false_eq_true, if_false, charOf_toNat]
  rfl

/-- The pair of escapes of a character outside the basic plane. -/
theorem unicodeEscape_pair {c : Char} (h : 0x10000 ≤ c.toNat) {s : PyStr} (hs : s ≠ []) :
    unicodeEscape (PyStr.hexPad 4 (0xd800 + (c.toNat - 0x10000) / 0x400) ++ ("\\u".toList ++
      (PyStr.hexPad 4 (0xdc00 + (c.toNat - 0x10000) % 0x400) ++ s))) = .ok (c, 11) := by
  have hvalid : c.toNat < 0xd800 ∨ 0xdfff < c.toNat ∧ c.toNat < 0x110000 := c.valid
  have hpos := List.length_pos_iff.mpr hs
  set hi := 0xd800 + (c.toNat - 0x10000) / 0x400 with hhi
  set lo := 0xdc00 + (c.toNat - 0x10000) % 0x400 with hlo
  have hhigh : isHighSurrogate hi = true := by
    simp [isHighSurrogate]
    omega
  have hlow : isLowSurrogate lo = true := by
    simp [isLowSurrogate]
    omega
  have hu : ("\\u".toList : PyStr) = ['\\', 'u'] := rfl
  have hdrop4 : (PyStr.hexPad 4 hi ++ (['\\', 'u'] ++ (PyStr.hexPad 4 lo ++ s))).drop 4 =
      ['\\', 'u'] ++ (PyStr.hexPad 4 lo ++ s) := by
    exact List.drop_left' (length_hexPad 4 hi)
  have hdrop6 : (PyStr.hexPad 4 hi ++ (['\\', 'u'] ++ (PyStr.hexPad 4 lo ++ s))).drop 6 =
      PyStr.hexPad 4 lo ++ s := by
    rw [show 6 = 4 + 2 from rfl, ← List.drop_drop, hdrop4]
    rfl
  have hlen : (PyStr.hexPad 4 hi ++ (['\\', 'u'] ++ (PyStr.hexPad 4 lo ++ s))).length =
      10 + s.length := by
    simp only [List.length_append, length_hexPad, List.length_cons, List.length_nil]
    omega
  have hcode : Char.ofNat (0x10000 + (hi - 0xd800) * 0x400 + (lo - 0xdc00)) = c := by
    rw [show 0x10000 + (hi - 0xd800) * 0x400 + (lo - 0xdc00) = c.toNat by omega]
    exact c.ofNat_toNat
  rw [hu, unicodeEscape, hex4_hexPad (by omega)]
  simp only [hlen, hhigh, hdrop4, hdrop6, hex4_hexPad (show lo < 0x10000 by omega), hlow, hcode]
  rw [if_neg (by omega), if_pos (by simp; omega)]
  rfl

theorem scanString_skip (p s : PyStr) : scanString p.length (p ++ s) = scanString 0 s := by
  induction p with
  | nil => rfl
  | cons c p ih =>
      cases s with
      | nil => simpa [scanString] using ih
      | cons d s => simpa [scanString] using ih

/-- An escape that is read as `c` puts `c` in front of what follows. -/
theorem scanString_escape {p s : PyStr} {c : Char} (h : escape (p ++ s) = .ok (c, p.length)) :
    scanString 0 ('\\' :: (p ++ s)) =
      (scanString 0 s).map fun found => (c :: found.1, found.2) := by
  simp only [scanString, h, bind, Except.bind, scanString_skip]
  cases scanString 0 s <;> rfl

theorem scanString_unicode {p s : PyStr} {c : Char} {n : Nat}
    (h : unicodeEscape (p ++ s) = .ok (c, n + 1)) (hlen : p.length = n) :
    scanString 0 ("\\u".toList ++ p ++ s) =
      (scanString 0 s).map fun found => (c :: found.1, found.2) := by
  have hesc : escape ('u' :: p ++ s) = .ok (c, ('u' :: p).length) := by
    rw [List.length_cons, hlen]
    exact h
  exact scanString_escape hesc

theorem scanString_escapeChar (c : Char) {s : PyStr} (hs : s ≠ []) :
    scanString 0 (escapeChar c ++ s) =
      (scanString 0 s).map fun found => (c :: found.1, found.2) := by
  unfold escapeChar
  split
  · next h =>
      rcases h with rfl | rfl <;> exact scanString_escape (p := [_]) rfl
  split
  · next h => exact h ▸ scanString_escape (p := ['n']) rfl
  split
  · next h => exact h ▸ scanString_escape (p := ['r']) rfl
  split
  · next h => exact h ▸ scanString_escape (p := ['t']) rfl
  split
  · next h => exact h ▸ scanString_escape (p := ['f']) rfl
  split
  · next h => exact h ▸ scanString_escape (p := ['b']) rfl
  split
  · -- a printable ASCII character stands for itself
    next hspecial _ _ _ _ _ h =>
      obtain ⟨hquote, hback⟩ := not_or.mp hspecial
      simp only [List.cons_append, List.nil_append, scanString, hquote, hback, if_false,
        if_neg (show ¬ c.toNat < 0x20 by omega)]
      cases scanString 0 s <;> rfl
  split
  · next h => exact scanString_unicode (unicodeEscape_hexPad h hs) (length_hexPad 4 _)
  · next h =>
      have hpair := unicodeEscape_pair (Nat.le_of_not_lt h) hs
      simp only [← List.append_assoc] at hpair
      simp only [List.append_assoc "\\u".toList]
      refine scanString_unicode hpair ?_
      simp only [List.length_append, length_hexPad]
      rfl

/-- A quoted text is read back. -/
theorem scanString_quote (s rest : PyStr) :
    scanString 0 (s.flatMap escapeChar ++ '"' :: rest) = .ok (s, rest) := by
  induction s with
  | nil => rfl
  | cons c s ih =>
      rw [List.flatMap_cons, List.append_assoc, scanString_escapeChar c (by simp), ih]
      rfl

/-! ## Numbers -/

/-- What may follow a value: nothing, a comma, or a new line. -/
def Closed (rest : PyStr) : Prop := ∀ c ∈ rest.head?, c = ',' ∨ c = '\n'

theorem closed_nil : Closed [] := fun _ h => nomatch h

theorem closed_comma (rest : PyStr) : Closed (',' :: rest) := fun _ h => .inl (Option.some.inj h).symm

theorem closed_newline (level : Nat) (rest : PyStr) : Closed (newline level ++ rest) :=
  fun _ h => .inr (Option.some.inj h).symm

theorem isAsciiDigit_of_isDigit {c : Char} (h : c.isDigit = true) :
    PyStr.isAsciiDigit c = true := by
  grind [PyStr.isAsciiDigit, Char.isDigit, Char.le_def]

theorem digits_append {ds rest : PyStr} (hds : ∀ c ∈ ds, PyStr.isAsciiDigit c = true)
    (hrest : ∀ c ∈ rest.head?, PyStr.isAsciiDigit c = false) : digits (ds ++ rest) = ds := by
  rw [digits, List.takeWhile_append_of_pos hds]
  cases rest with
  | nil => simp
  | cons c rest => simp [hrest c rfl]

theorem Closed.not_digit {rest : PyStr} (h : Closed rest) :
    ∀ c ∈ rest.head?, PyStr.isAsciiDigit c = false := by
  intro c hc
  rcases h c hc with rfl | rfl <;> decide

theorem head_toDigits {n : Nat} (h : n ≠ 0) : (Nat.toDigits 10 n).head? ≠ some '0' := by
  induction n using Nat.strong_induction_on with
  | _ n ih =>
      rw [Nat.toDigits_eq_if (by decide)]
      split
      · next hlt =>
          have hdigit : ∀ d < 10, d ≠ 0 → [d.digitChar].head? ≠ some '0' := by decide
          exact hdigit n hlt h
      · next hge =>
          rw [List.head?_append_of_ne_nil _ Nat.toDigits_ne_nil]
          exact ih (n / 10) (by omega) (by omega)

theorem isDigit_of_mem {n : Nat} {c : Char} (h : c ∈ Nat.toDigits 10 n) : c.isDigit = true :=
  Nat.isDigit_of_mem_toDigits (by decide) (by decide) h

/-- A numeral begins with a digit. -/
theorem exists_digit_cons (n : Nat) : ∃ d ds, Nat.toDigits 10 n = d :: ds ∧ d.isDigit = true := by
  obtain ⟨d, ds, hds⟩ := List.exists_cons_of_ne_nil (Nat.toDigits_ne_nil (n := n) (b := 10))
  exact ⟨d, ds, hds, isDigit_of_mem (hds ▸ List.mem_cons_self)⟩

theorem scanInt_toDigits (n : Nat) {rest : PyStr} (hrest : Closed rest) :
    scanInt (Nat.toDigits 10 n ++ rest) = Nat.toDigits 10 n := by
  by_cases h : n = 0
  · subst h
    rfl
  · have hdigits : digits (Nat.toDigits 10 n ++ rest) = Nat.toDigits 10 n :=
      digits_append (fun c hc => isAsciiDigit_of_isDigit (isDigit_of_mem hc)) hrest.not_digit
    have hhead := head_toDigits h
    unfold scanInt
    split
    · next rest' heq =>
        have hne : Nat.toDigits 10 n ≠ [] := Nat.toDigits_ne_nil
        have hzero : (Nat.toDigits 10 n ++ rest).head? = some '0' := by rw [heq]; rfl
        rw [List.head?_append_of_ne_nil _ hne] at hzero
        exact absurd hzero hhead
    · exact hdigits

theorem Closed.scanFraction {rest : PyStr} (h : Closed rest) : scanFraction rest = [] := by
  unfold Json.scanFraction
  split
  · next s => rcases h '.' rfl with h | h <;> cases h
  · rfl

theorem Closed.scanExponent {rest : PyStr} (h : Closed rest) : scanExponent rest = [] := by
  unfold Json.scanExponent
  split
  · next c s =>
      have hne : ¬ (c = 'e' ∨ c = 'E') := by
        rcases h c rfl with rfl | rfl <;> decide
      simp [hne]
  · rfl

theorem scanUnsigned_toDigits {m : Nat} (hm : (Nat.toDigits 10 m).length ≤ maxDigits)
    (sign : PyStr) {rest : PyStr} (hrest : Closed rest) :
    scanUnsigned sign (Nat.toDigits 10 m ++ rest) =
      .ok (.int (if sign = [] then m else -m), rest) := by
  have hvalue : Nat.ofDigitChars 10 (Nat.toDigits 10 m) 0 = m := Nat.ofDigitChars_ten_toDigits
  simp only [scanUnsigned, finishNumber, scanInt_toDigits _ hrest, List.drop_left,
    hrest.scanFraction, List.length_nil, List.drop_zero, hrest.scanExponent,
    if_neg Nat.toDigits_ne_nil, and_self, if_true, if_neg (Nat.not_lt.mpr hm), hvalue]
  rfl

theorem scanNumber_intText {n : Int} (hn : (Nat.toDigits 10 n.natAbs).length ≤ maxDigits)
    {rest : PyStr} (hrest : Closed rest) :
    scanNumber (intText n ++ rest) = .ok (.int n, rest) := by
  by_cases hneg : n < 0
  · have htext : intText n ++ rest = '-' :: (Nat.toDigits 10 n.natAbs ++ rest) := by
      simp [intText, hneg]
    have hvalue : -(n.natAbs : Int) = n := by omega
    rw [htext, scanNumber, scanUnsigned_toDigits hn _ hrest, if_neg (by simp), hvalue]
  · have htext : intText n = Nat.toDigits 10 n.natAbs := by simp [intText, hneg]
    have hvalue : (n.natAbs : Int) = n := by omega
    rw [htext]
    unfold scanNumber
    split
    · next s heq =>
        -- the digits do not begin with a sign
        have hhead : (Nat.toDigits 10 n.natAbs ++ rest).head? = some '-' := by rw [heq]; rfl
        rw [List.head?_append_of_ne_nil _ Nat.toDigits_ne_nil] at hhead
        have hdigit := isDigit_of_mem (List.mem_of_head? hhead)
        exact absurd hdigit (by decide)
    · rw [scanUnsigned_toDigits hn _ hrest, if_pos rfl, hvalue]

/-! ## Scalars -/

theorem scanWord_eq_none {s : PyStr} {ws : List (PyStr × Json)}
    (h : ∀ w ∈ ws, w.1.isPrefixOf? s = none) : scanWord s ws = none := by
  induction ws with
  | nil => rfl
  | cons w ws ih =>
      rw [scanWord, h w List.mem_cons_self]
      exact ih fun w' hw' => h w' (List.mem_cons_of_mem _ hw')

/-- A number is none of the words. -/
theorem scanWord_intText (n : Int) (rest : PyStr) : scanWord (intText n ++ rest) words = none := by
  obtain ⟨d, ds, hds, hdigit⟩ := exists_digit_cons n.natAbs
  have hne : ∀ c, c.isDigit = false → (c == d) = false := by
    intro c hc
    refine beq_eq_false_iff_ne.mpr ?_
    rintro rfl
    exact Bool.false_ne_true (hc.symm.trans hdigit)
  refine scanWord_eq_none fun w hw => ?_
  by_cases hneg : n < 0
  · have htext : intText n ++ rest = '-' :: d :: (ds ++ rest) := by simp [intText, hneg, hds]
    rw [htext]
    simp only [words, List.mem_cons, List.not_mem_nil, or_false] at hw
    rcases hw with rfl | rfl | rfl | rfl | rfl | rfl <;>
      simp [List.isPrefixOf?, hne 'I' (by decide)]
  · have htext : intText n ++ rest = d :: (ds ++ rest) := by simp [intText, hneg, hds]
    rw [htext]
    simp only [words, List.mem_cons, List.not_mem_nil, or_false] at hw
    rcases hw with rfl | rfl | rfl | rfl | rfl | rfl <;>
      simp [List.isPrefixOf?, hne 'n' (by decide), hne 't' (by decide), hne 'f' (by decide),
        hne 'N' (by decide), hne 'I' (by decide), hne '-' (by decide)]

theorem parseScalar_quote (s rest : PyStr) :
    parseScalar (quote s ++ rest) = .ok (.str s, rest) := by
  have htext : quote s ++ rest = '"' :: (s.flatMap escapeChar ++ '"' :: rest) := by simp [quote]
  rw [htext, parseScalar, scanString_quote]
  rfl

theorem parseScalar_intText {n : Int} (hn : (Nat.toDigits 10 n.natAbs).length ≤ maxDigits)
    {rest : PyStr} (hrest : Closed rest) :
    parseScalar (intText n ++ rest) = .ok (.int n, rest) := by
  unfold parseScalar
  split
  · next heq =>
      have hnumber := scanNumber_intText hn hrest
      rw [heq] at hnumber
      exact absurd hnumber (by simp [scanNumber, scanUnsigned, scanInt, digits,
        PyStr.isAsciiDigit])
  · rw [scanWord_intText, scanNumber_intText hn hrest]

/-! ## Values -/

/-- A value does not begin like white space, nor with a closing bracket or
a byte order mark. -/
theorem exists_cons_dumpsAt {depth : Nat} {v : Json} (h : Fits depth v) (level : Nat) :
    ∃ c s, dumpsAt level v = c :: s ∧ isWs c = false ∧ c ≠ ']' ∧ c ≠ '\ufeff' := by
  cases v with
  | null => exact ⟨'n', _, rfl, by decide⟩
  | bool b => cases b <;> exact ⟨_, _, rfl, by decide⟩
  | int n =>
      obtain ⟨d, ds, hds, hdigit⟩ := exists_digit_cons n.natAbs
      by_cases hneg : n < 0
      · exact ⟨'-', _, by simp [dumpsAt, intText, hneg]; rfl, by decide⟩
      · refine ⟨d, ds, by simp [dumpsAt, intText, hneg, hds], ?_, ?_, ?_⟩
        · refine Bool.eq_false_iff.mpr fun hws => ?_
          simp only [isWs, Bool.or_eq_true, decide_eq_true_eq] at hws
          rcases hws with ((rfl | rfl) | rfl) | rfl <;> exact absurd hdigit (by decide)
        · rintro rfl
          exact absurd hdigit (by decide)
        · rintro rfl
          exact absurd hdigit (by decide)
  | float literal => cases depth <;> exact h.elim
  | str s => exact ⟨'"', _, rfl, by decide⟩
  | arr items => cases items <;> exact ⟨'[', _, rfl, by decide⟩
  | obj members =>
      cases members with
      | nil => exact ⟨'\x7b', _, rfl, by decide⟩
      | cons kv members => exact ⟨'\x7b', _, rfl, by decide⟩

theorem skipWs_newline (level : Nat) (s : PyStr) : skipWs (newline level ++ s) = skipWs s := by
  have hws : ∀ c ∈ newline level, isWs c = true := by
    intro c hc
    rcases List.mem_cons.mp hc with rfl | hc
    · rfl
    · obtain rfl := List.eq_of_mem_replicate hc
      rfl
  exact List.dropWhile_append_of_pos hws

theorem skipWs_cons {c : Char} (h : isWs c = false) (s : PyStr) : skipWs (c :: s) = c :: s := by
  simp [skipWs, h]

/-- White space before a value is skipped, and only that. -/
theorem skipWs_dumpsAt {depth : Nat} {v : Json} (h : Fits depth v) (level : Nat) (rest : PyStr) :
    skipWs (dumpsAt level v ++ rest) = dumpsAt level v ++ rest := by
  obtain ⟨c, s, hv, hws, -⟩ := exists_cons_dumpsAt h level
  rw [hv, List.cons_append, skipWs_cons hws]

/-- `value` reads back the values it is given. -/
def Reads (value : PyStr → Except LoadsError (Json × PyStr)) (level : Nat) (v : Json) : Prop :=
  ∀ rest, Closed rest → value (dumpsAt level v ++ rest) = .ok (v, rest)

theorem parseElements_dumps {value : PyStr → Except LoadsError (Json × PyStr)} {depth level : Nat}
    {v : Json} {vs : List Json} (hfits : ∀ x ∈ v :: vs, Fits depth x)
    (hread : ∀ x ∈ v :: vs, Reads value level x) {n : Nat} (hn : vs.length < n) (outer : Nat)
    (rest : PyStr) :
    parseElements value n (dumpsAt level v ++ (dumpsElements level vs ++
      (newline outer ++ ']' :: rest))) = .ok (v :: vs, rest) := by
  induction vs generalizing v n with
  | nil =>
      obtain ⟨n, rfl⟩ := Nat.exists_eq_succ_of_ne_zero (Nat.ne_of_gt hn)
      have hv := hread v List.mem_cons_self _ (closed_newline outer (']' :: rest))
      simp only [dumpsElements, List.nil_append, parseElements, hv, bind, Except.bind,
        skipWs_newline, skipWs_cons (show isWs ']' = false by decide)]
      rfl
  | cons w ws ih =>
      obtain ⟨n, rfl⟩ := Nat.exists_eq_succ_of_ne_zero (Nat.ne_of_gt (Nat.zero_lt_of_lt hn))
      have hlen : ws.length < n := by simpa using hn
      have hrest := ih (fun x hx => hfits x (List.mem_cons_of_mem _ hx))
        (fun x hx => hread x (List.mem_cons_of_mem _ hx)) hlen
      have hw : Fits depth w := hfits w (by simp)
      have hv := hread v List.mem_cons_self _ (closed_comma (newline level ++ (dumpsAt level w ++
        (dumpsElements level ws ++ (newline outer ++ ']' :: rest)))))
      simp only [dumpsElements, List.cons_append, List.append_assoc, parseElements, hv, bind,
        Except.bind, skipWs_cons (show isWs ',' = false by decide), skipWs_newline,
        skipWs_dumpsAt hw, hrest]
      rfl

theorem skipWs_quote (s rest : PyStr) : skipWs (quote s ++ rest) = quote s ++ rest :=
  skipWs_cons (by decide) _

/-- What the scanner of an object meets: the name, the colon, the value. -/
theorem quote_member (k : PyStr) (level : Nat) (v : Json) (tail : PyStr) :
    quote k ++ (": ".toList ++ (dumpsAt level v ++ tail)) =
      '"' :: (k.flatMap escapeChar ++ '"' :: ':' :: ' ' :: (dumpsAt level v ++ tail)) := by
  simp [quote]

theorem skipWs_blank {depth : Nat} {v : Json} (h : Fits depth v) (level : Nat) (tail : PyStr) :
    skipWs (' ' :: (dumpsAt level v ++ tail)) = dumpsAt level v ++ tail :=
  (show _ = skipWs _ from rfl).trans (skipWs_dumpsAt h level tail)

theorem parseMembers_dumps {value : PyStr → Except LoadsError (Json × PyStr)} {depth level : Nat}
    {k : PyStr} {v : Json} {kvs : List (PyStr × Json)} (hfits : ∀ x ∈ (k, v) :: kvs, Fits depth x.2)
    (hread : ∀ x ∈ (k, v) :: kvs, Reads value level x.2) {n : Nat} (hn : kvs.length < n)
    (outer : Nat) (rest : PyStr) :
    parseMembers value n (quote k ++ (": ".toList ++ (dumpsAt level v ++ (dumpsMembers level kvs ++
      (newline outer ++ '\x7d' :: rest))))) = .ok ((k, v) :: kvs, rest) := by
  have hfirst : Fits depth v := hfits (k, v) List.mem_cons_self
  have hv : Reads value level v := hread (k, v) List.mem_cons_self
  induction kvs generalizing k v n with
  | nil =>
      obtain ⟨n, rfl⟩ := Nat.exists_eq_succ_of_ne_zero (Nat.ne_of_gt hn)
      rw [dumpsMembers, List.nil_append, quote_member]
      simp only [parseMembers, scanString_quote, bind, Except.bind,
        skipWs_cons (show isWs ':' = false by decide), skipWs_blank hfirst,
        hv _ (closed_newline outer ('\x7d' :: rest)), skipWs_newline,
        skipWs_cons (show isWs '\x7d' = false by decide)]
      rfl
  | cons kw kws ih =>
      obtain ⟨k', w⟩ := kw
      obtain ⟨n, rfl⟩ := Nat.exists_eq_succ_of_ne_zero (Nat.ne_of_gt (Nat.zero_lt_of_lt hn))
      have hlen : kws.length < n := by simpa using hn
      have hrest := ih (fun x hx => hfits x (List.mem_cons_of_mem _ hx))
        (fun x hx => hread x (List.mem_cons_of_mem _ hx)) hlen (hfits (k', w) (by simp))
        (hread (k', w) (by simp))
      simp only [dumpsMembers, List.cons_append, List.append_assoc]
      rw [quote_member]
      simp only [parseMembers, scanString_quote, bind, Except.bind,
        skipWs_cons (show isWs ':' = false by decide), skipWs_blank hfirst, hv _ (closed_comma _),
        skipWs_cons (show isWs ',' = false by decide), skipWs_newline, skipWs_quote, hrest]
      rfl

/-! ## The round trip -/

theorem length_dumpsElements (level : Nat) (vs : List Json) :
    vs.length ≤ (dumpsElements level vs).length := by
  induction vs with
  | nil => exact le_refl _
  | cons v vs ih =>
      simp only [dumpsElements, List.length_cons, List.length_append, List.cons_append]
      omega

theorem length_dumpsMembers (level : Nat) (kvs : List (PyStr × Json)) :
    kvs.length ≤ (dumpsMembers level kvs).length := by
  induction kvs with
  | nil => exact le_refl _
  | cons kv kvs ih =>
      obtain ⟨k, v⟩ := kv
      simp only [dumpsMembers, List.length_cons, List.length_append, List.cons_append]
      omega

theorem parseValue_scalar {depth : Nat} {c : Char} {s : PyStr} (harr : c ≠ '[') (hobj : c ≠ '\x7b') :
    parseValue depth (c :: s) = parseScalar (c :: s) := by
  cases depth with
  | zero => simp [parseValue, harr, hobj]
  | succ depth =>
      rw [parseValue]
      · exact fun s h => harr (List.cons.inj h).1
      · exact fun s h => hobj (List.cons.inj h).1

theorem parseValue_arr {depth : Nat} {c : Char} {s : PyStr} (hws : isWs c = false) (hc : c ≠ ']')
    (level : Nat) :
    parseValue (depth + 1) ('[' :: (newline level ++ c :: s)) =
      (parseElements (parseValue depth) (s.length + 2) (c :: s)).map fun found =>
        (.arr found.1, found.2) := by
  rw [parseValue, skipWs_newline, skipWs_cons hws]
  split
  · next heq => exact absurd (List.cons.inj heq).1 hc
  · rw [List.length_cons]
    cases parseElements (parseValue depth) (s.length + 1 + 1) (c :: s) <;> rfl

theorem parseValue_obj {depth : Nat} {s : PyStr} (level : Nat) :
    parseValue (depth + 1) ('\x7b' :: (newline level ++ '"' :: s)) =
      (parseMembers (parseValue depth) (s.length + 2) ('"' :: s)).map fun found =>
        (.obj found.1, found.2) := by
  rw [parseValue, skipWs_newline, skipWs_cons (by decide)]
  change (parseMembers (parseValue depth) (s.length + 2) ('"' :: s) >>= fun found =>
    pure (obj found.1, found.2)) = _
  cases parseMembers (parseValue depth) (s.length + 2) ('"' :: s) <;> rfl

theorem reads_arr {depth : Nat} {v : Json} {vs : List Json} (hfits : ∀ x ∈ v :: vs, Fits depth x)
    (ih : ∀ {x : Json}, Fits depth x → ∀ level, Reads (parseValue depth) level x) (level : Nat) :
    Reads (parseValue (depth + 1)) level (.arr (v :: vs)) := by
  intro rest hrest
  obtain ⟨c, s, hcons, hws, hc, -⟩ := exists_cons_dumpsAt (hfits v List.mem_cons_self) (level + 1)
  have hlen := length_dumpsElements (level + 1) vs
  have helems := fun n hn => parseElements_dumps (n := n) hfits
    (fun x hx => ih (hfits x hx) (level + 1)) hn level rest
  simp only [hcons, List.cons_append] at helems
  simp only [dumpsAt, hcons, List.cons_append, List.append_assoc, parseValue_arr hws hc,
    List.nil_append]
  rw [helems _ (by simp only [List.length_append]; omega)]
  rfl

theorem reads_obj {depth : Nat} {k : PyStr} {v : Json} {kvs : List (PyStr × Json)}
    (hfits : ∀ x ∈ (k, v) :: kvs, Fits depth x.2)
    (ih : ∀ {x : Json}, Fits depth x → ∀ level, Reads (parseValue depth) level x) (level : Nat) :
    Reads (parseValue (depth + 1)) level (.obj ((k, v) :: kvs)) := by
  intro rest hrest
  have hlen := length_dumpsMembers (level + 1) kvs
  have hmembers := fun n hn => parseMembers_dumps (n := n) hfits
    (fun x hx => ih (hfits x hx) (level + 1)) hn level rest
  simp only [quote_member] at hmembers
  have htext : dumpsAt level (.obj ((k, v) :: kvs)) ++ rest =
      '\x7b' :: (newline (level + 1) ++ (quote k ++ (": ".toList ++ (dumpsAt (level + 1) v ++
        (dumpsMembers (level + 1) kvs ++ (newline level ++ '\x7d' :: rest)))))) := by
    simp [dumpsAt]
  rw [htext, quote_member, parseValue_obj, hmembers]
  · rfl
  · simp only [List.length_append, List.length_cons]
    omega

/-- A scalar is read back at any depth. -/
theorem reads_scalar {depth : Nat} {v : Json} {c : Char} {level : Nat}
    (hhead : ∀ rest, (dumpsAt level v ++ rest).head? = some c) (harr : c ≠ '[') (hobj : c ≠ '\x7b')
    (hread : ∀ rest, Closed rest → parseScalar (dumpsAt level v ++ rest) = .ok (v, rest)) :
    Reads (parseValue depth) level v := by
  intro rest hrest
  have hscalar := hread rest hrest
  have hc := hhead rest
  cases htext : dumpsAt level v ++ rest with
  | nil => simp [htext] at hc
  | cons d s =>
      rw [htext] at hc hscalar
      obtain rfl := Option.some.inj hc
      rw [parseValue_scalar harr hobj, hscalar]

theorem reads_int {depth : Nat} {n : Int} (h : (Nat.toDigits 10 n.natAbs).length ≤ maxDigits)
    (level : Nat) : Reads (parseValue depth) level (.int n) := by
  obtain ⟨d, ds, hds, hdigit⟩ := exists_digit_cons n.natAbs
  have hread := fun rest (hrest : Closed rest) => parseScalar_intText h hrest
  by_cases hneg : n < 0
  · exact reads_scalar (c := '-') (fun rest => by simp [dumpsAt, intText, hneg]) (by decide)
      (by decide) hread
  · refine reads_scalar (c := d) (fun rest => by simp [dumpsAt, intText, hneg, hds]) ?_ ?_ hread
    · rintro rfl
      exact absurd hdigit (by decide)
    · rintro rfl
      exact absurd hdigit (by decide)

theorem reads_flat {depth : Nat} {v : Json} (h : Fits depth v) (harr : ∀ items, v ≠ .arr items)
    (hobj : ∀ members, v ≠ .obj members) (level : Nat) : Reads (parseValue depth) level v := by
  cases v with
  | null => exact reads_scalar (c := 'n') (fun _ => rfl) (by decide) (by decide) fun _ _ => rfl
  | bool b =>
      cases b with
      | false => exact reads_scalar (c := 'f') (fun _ => rfl) (by decide) (by decide) fun _ _ => rfl
      | true => exact reads_scalar (c := 't') (fun _ => rfl) (by decide) (by decide) fun _ _ => rfl
  | int n => exact reads_int (by cases depth <;> exact h) level
  | float literal => cases depth <;> exact h.elim
  | str s =>
      exact reads_scalar (c := '"') (fun _ => rfl) (by decide) (by decide) fun rest _ =>
        parseScalar_quote s rest
  | arr items => exact absurd rfl (harr items)
  | obj members => exact absurd rfl (hobj members)

theorem reads_parseValue {depth : Nat} {v : Json} (h : Fits depth v) (level : Nat) :
    Reads (parseValue depth) level v := by
  induction depth generalizing v level with
  | zero =>
      cases v with
      | arr items => exact h.elim
      | obj members => exact h.elim
      | _ => exact reads_flat h (by simp) (by simp) level
  | succ depth ih =>
      cases v with
      | arr items =>
          cases items with
          | nil => exact fun _ _ => rfl
          | cons v vs => exact reads_arr h (fun hx => ih hx) level
      | obj members =>
          cases members with
          | nil => exact fun _ _ => rfl
          | cons kv kvs => exact reads_obj h (fun hx => ih hx) level
      | _ => exact reads_flat h (by simp) (by simp) level

/-- **What was written is read back.** -/
theorem loads_dumps {maxDepth : Nat} {v : Json} (h : Fits maxDepth v) :
    loads maxDepth (dumps v) = .ok v := by
  obtain ⟨c, s, hcons, hws, -, hbom⟩ := exists_cons_dumpsAt h 0
  have hread := reads_parseValue h 0 [] closed_nil
  rw [List.append_nil] at hread
  have hhead : ¬ (c :: s).head? = some '\ufeff' := fun h => hbom (Option.some.inj h)
  rw [loads, dumps, hcons, if_neg hhead, skipWs_cons hws, ← hcons, hread]
  rfl

end Json

end ThreatIntel
