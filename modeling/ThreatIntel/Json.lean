import ThreatIntel.PyText

/-!
# JSON

`json.loads` and `json.dumps(value, indent=2)`. The reader follows the
scanner of the standard library: where it fails, and with which message.
Besides a `JSONDecodeError` it may run into two limits of the
interpreter: the recursion limit, which bounds how deep arrays and
objects may be nested, and the number of digits of an integer.

Floats are kept as they were written. A lone surrogate escape is read as
the replacement character: a text here has no surrogates.
-/

namespace ThreatIntel

inductive Json where
  | null
  | bool (b : Bool)
  | int (n : Int)
  | float (literal : PyStr)
  | str (s : PyStr)
  | arr (items : List Json)
  /-- Of members with the same name the last one counts. -/
  | obj (members : List (PyStr × Json))

namespace Json

/-- `value.get(key)` of an object. -/
def get? (members : List (PyStr × Json)) (key : String) : Option Json :=
  members.reverse.lookup key.toList

inductive LoadsError where
  | decode (msg : String)
  | tooDeep
  | tooManyDigits
  | outOfFuel
  deriving DecidableEq, Repr

/-! ## Strings -/

def isWs (c : Char) : Bool := c = ' ' || c = '\t' || c = '\n' || c = '\r'

def skipWs (s : PyStr) : PyStr := s.dropWhile isWs

def hexVal (c : Char) : Option Nat :=
  if '0' ≤ c ∧ c ≤ '9' then some (c.toNat - 48)
  else if 'a' ≤ c ∧ c ≤ 'f' then some (c.toNat - 87)
  else if 'A' ≤ c ∧ c ≤ 'F' then some (c.toNat - 55)
  else none

/-- The number that the first four characters spell in hexadecimal. -/
def hex4 : PyStr → Option Nat
  | a :: b :: c :: d :: _ => do
      return (((← hexVal a) * 16 + (← hexVal b)) * 16 + (← hexVal c)) * 16 + (← hexVal d)
  | _ => none

def isHighSurrogate (n : Nat) : Bool := 0xd800 ≤ n && n < 0xdc00

def isLowSurrogate (n : Nat) : Bool := 0xdc00 ≤ n && n < 0xe000

def charOf (n : Nat) : Char :=
  if isHighSurrogate n || isLowSurrogate n then '\ufffd' else Char.ofNat n

def badUnicode : LoadsError := .decode "Invalid \\uXXXX escape"

/-- What `\u` stands for, and how many characters the escape takes behind
the backslash. The escape has to be followed by something. -/
def unicodeEscape (s : PyStr) : Except LoadsError (Char × Nat) :=
  match hex4 s with
  | none => throw badUnicode
  | some hi =>
      if s.length < 5 then throw badUnicode
      else if isHighSurrogate hi && 10 < s.length && (s.drop 4).take 2 = ['\\', 'u'] then
        match hex4 (s.drop 6) with
        | none => throw badUnicode
        | some lo =>
            if isLowSurrogate lo then
              pure (Char.ofNat (0x10000 + (hi - 0xd800) * 0x400 + (lo - 0xdc00)), 11)
            else pure (charOf hi, 5)
      else pure (charOf hi, 5)

def unterminated : LoadsError := .decode "Unterminated string starting at"

/-- The character an escape stands for, given what follows the backslash. -/
def escape : PyStr → Except LoadsError (Char × Nat)
  | [] => throw unterminated
  | c :: s =>
      if c = 'u' then unicodeEscape s
      else if c = '"' ∨ c = '\\' ∨ c = '/' then pure (c, 1)
      else if c = 'b' then pure ('\x08', 1)
      else if c = 'f' then pure ('\x0c', 1)
      else if c = 'n' then pure ('\n', 1)
      else if c = 'r' then pure ('\r', 1)
      else if c = 't' then pure ('\t', 1)
      else throw (.decode "Invalid \\escape")

/-- `scanstring`: the text up to the closing quote and what is behind it.
The counter holds the characters of an escape still to be passed. -/
def scanString : Nat → PyStr → Except LoadsError (PyStr × PyStr)
  | _, [] => throw unterminated
  | k + 1, _ :: s => scanString k s
  | 0, c :: s =>
      if c = '"' then pure ([], s)
      else if c = '\\' then do
        let (d, k) ← escape s
        let (text, rest) ← scanString k s
        return (d :: text, rest)
      else if c.toNat < 0x20 then throw (.decode "Invalid control character at")
      else do
        let (text, rest) ← scanString 0 s
        return (c :: text, rest)

/-! ## Numbers -/

def digits (s : PyStr) : PyStr := s.takeWhile PyStr.isAsciiDigit

/-- The integer part: no leading zeros. -/
def scanInt (s : PyStr) : PyStr :=
  match s with
  | '0' :: _ => ['0']
  | s => digits s

def scanFraction (s : PyStr) : PyStr :=
  match s with
  | '.' :: s => if digits s = [] then [] else '.' :: digits s
  | _ => []

def scanSign (s : PyStr) : PyStr :=
  match s with
  | '+' :: _ => ['+']
  | '-' :: _ => ['-']
  | _ => []

def scanExponent (s : PyStr) : PyStr :=
  match s with
  | c :: s =>
      let sign := scanSign s
      let power := digits (s.drop sign.length)
      if (c = 'e' ∨ c = 'E') ∧ power ≠ [] then c :: sign ++ power else []
  | _ => []

def expectingValue : LoadsError := .decode "Expecting value"

/-- The digits that `int()` accepts. -/
def maxDigits : Nat := 4300

/-- A number whose sign and integer part have been read. -/
def finishNumber (sign int s : PyStr) : Except LoadsError (Json × PyStr) :=
  let fraction := scanFraction s
  let exponent := scanExponent (s.drop fraction.length)
  let rest := s.drop (fraction.length + exponent.length)
  if fraction = [] ∧ exponent = [] then
    if maxDigits < int.length then throw .tooManyDigits
    else
      let n : Int := Nat.ofDigitChars 10 int 0
      pure (.int (if sign = [] then n else -n), rest)
  else pure (.float (sign ++ int ++ fraction ++ exponent), rest)

def scanUnsigned (sign s : PyStr) : Except LoadsError (Json × PyStr) :=
  if scanInt s = [] then throw expectingValue
  else finishNumber sign (scanInt s) (s.drop (scanInt s).length)

def scanNumber (s : PyStr) : Except LoadsError (Json × PyStr) :=
  match s with
  | '-' :: s => scanUnsigned ['-'] s
  | s => scanUnsigned [] s

/-! ## Values -/

def words : List (PyStr × Json) :=
  [("null".toList, .null), ("true".toList, .bool true), ("false".toList, .bool false),
    ("NaN".toList, .float "NaN".toList), ("Infinity".toList, .float "Infinity".toList),
    ("-Infinity".toList, .float "-Infinity".toList)]

/-- The value named by the first of the words that the text begins with. -/
def scanWord (s : PyStr) : List (PyStr × Json) → Option (Json × PyStr)
  | [] => none
  | (word, value) :: rest =>
      match word.isPrefixOf? s with
      | some s => some (value, s)
      | none => scanWord s rest

def parseScalar (s : PyStr) : Except LoadsError (Json × PyStr) :=
  match s with
  | '"' :: s => do
      let (text, rest) ← scanString 0 s
      return (.str text, rest)
  | s =>
      match scanWord s words with
      | some found => pure found
      | none => scanNumber s

/-- The elements of an array, after the opening bracket. The first argument
reads one value; an element has a character at least, so the length of the
text bounds how many there are. -/
def parseElements (value : PyStr → Except LoadsError (Json × PyStr)) :
    Nat → PyStr → Except LoadsError (List Json × PyStr)
  | 0, _ => throw .outOfFuel
  | n + 1, s => do
      let (v, s) ← value s
      match skipWs s with
      | ']' :: s => return ([v], s)
      | ',' :: s => do
          let (vs, s) ← parseElements value n (skipWs s)
          return (v :: vs, s)
      | _ => throw (.decode "Expecting ',' delimiter")

/-- The members of an object, after the opening brace. -/
def parseMembers (value : PyStr → Except LoadsError (Json × PyStr)) :
    Nat → PyStr → Except LoadsError (List (PyStr × Json) × PyStr)
  | 0, _ => throw .outOfFuel
  | n + 1, s =>
      match s with
      | '"' :: s => do
          let (k, s) ← scanString 0 s
          match skipWs s with
          | ':' :: s => do
              let (v, s) ← value (skipWs s)
              match skipWs s with
              | '\x7d' :: s => return ([(k, v)], s)
              | ',' :: s => do
                  let (kvs, s) ← parseMembers value n (skipWs s)
                  return ((k, v) :: kvs, s)
              | _ => throw (.decode "Expecting ',' delimiter")
          | _ => throw (.decode "Expecting ':' delimiter")
      | _ => throw (.decode "Expecting property name enclosed in double quotes")

/-- A value, with arrays and objects nested no deeper than `depth`. -/
def parseValue : Nat → PyStr → Except LoadsError (Json × PyStr)
  | 0, s =>
      if s.head? = some '[' ∨ s.head? = some '\x7b' then throw .tooDeep else parseScalar s
  | depth + 1, s =>
      match s with
      | '[' :: s =>
          match skipWs s with
          | ']' :: s => pure (.arr [], s)
          | s => do
              let (vs, s) ← parseElements (parseValue depth) (s.length + 1) s
              return (.arr vs, s)
      | '\x7b' :: s =>
          match skipWs s with
          | '\x7d' :: s => pure (.obj [], s)
          | s => do
              let (kvs, s) ← parseMembers (parseValue depth) (s.length + 1) s
              return (.obj kvs, s)
      | s => parseScalar s

/-- `json.loads(text)`, in an interpreter that nests `maxDepth` deep. -/
def loads (maxDepth : Nat) (text : PyStr) : Except LoadsError Json :=
  if text.head? = some '\ufeff' then throw (.decode "Unexpected UTF-8 BOM (decode using utf-8-sig)")
  else do
    let (value, rest) ← parseValue maxDepth (skipWs text)
    if skipWs rest = [] then return value else throw (.decode "Extra data")

/-! ## Writing -/

/-- A character of a string, in ASCII. -/
def escapeChar (c : Char) : PyStr :=
  if c = '"' ∨ c = '\\' then ['\\', c]
  else if c = '\n' then "\\n".toList
  else if c = '\r' then "\\r".toList
  else if c = '\t' then "\\t".toList
  else if c = '\x0c' then "\\f".toList
  else if c = '\x08' then "\\b".toList
  else if 0x20 ≤ c.toNat ∧ c.toNat ≤ 0x7e then [c]
  else if c.toNat < 0x10000 then "\\u".toList ++ PyStr.hexPad 4 c.toNat
  else
    let n := c.toNat - 0x10000
    "\\u".toList ++ PyStr.hexPad 4 (0xd800 + n / 0x400) ++
      "\\u".toList ++ PyStr.hexPad 4 (0xdc00 + n % 0x400)

def quote (s : PyStr) : PyStr := '"' :: s.flatMap escapeChar ++ ['"']

def intText (n : Int) : PyStr :=
  if n < 0 then '-' :: Nat.toDigits 10 n.natAbs else Nat.toDigits 10 n.natAbs

/-- A new line, indented by two blanks a level. -/
def newline (level : Nat) : PyStr := '\n' :: List.replicate (2 * level) ' '

mutual

/-- A value that stands at the given level of nesting. -/
def dumpsAt (level : Nat) : Json → PyStr
  | null => "null".toList
  | bool b => if b then "true".toList else "false".toList
  | int n => intText n
  | float literal => literal
  | str s => quote s
  | arr [] => "[]".toList
  | arr (v :: vs) =>
      '[' :: newline (level + 1) ++ dumpsAt (level + 1) v ++ dumpsElements (level + 1) vs ++
        newline level ++ [']']
  | obj [] => ['\x7b', '\x7d']
  | obj ((k, v) :: kvs) =>
      '\x7b' :: newline (level + 1) ++ quote k ++ ": ".toList ++ dumpsAt (level + 1) v ++
        dumpsMembers (level + 1) kvs ++ newline level ++ ['\x7d']

/-- The elements after the first. -/
def dumpsElements (level : Nat) : List Json → PyStr
  | [] => []
  | v :: vs => ',' :: newline level ++ dumpsAt level v ++ dumpsElements level vs

/-- The members after the first. -/
def dumpsMembers (level : Nat) : List (PyStr × Json) → PyStr
  | [] => []
  | (k, v) :: kvs =>
      ',' :: newline level ++ quote k ++ ": ".toList ++ dumpsAt level v ++ dumpsMembers level kvs

end

/-- `json.dumps(value, indent=2)`. -/
def dumps (value : Json) : PyStr := dumpsAt 0 value

/-! ## The reader comes to an end

The fuel of the two loops is the length of the text, and every round takes
a character at least. -/

/-- Reading takes a character and does not run out of fuel. -/
def Advances {α : Type} (s : PyStr) (x : Except LoadsError (α × PyStr)) : Prop :=
  x ≠ .error .outOfFuel ∧ ∀ v rest, x = .ok (v, rest) → rest.length < s.length

theorem length_skipWs (s : PyStr) : (skipWs s).length ≤ s.length :=
  (List.dropWhile_suffix _).length_le

theorem unicodeEscape_ne (s : PyStr) : unicodeEscape s ≠ .error .outOfFuel := by
  unfold unicodeEscape
  repeat' split
  all_goals simp [badUnicode, pure, Except.pure, throw, throwThe, MonadExceptOf.throw]

theorem escape_ne (s : PyStr) : escape s ≠ .error .outOfFuel := by
  unfold escape
  repeat' split
  all_goals first
    | exact unicodeEscape_ne _
    | simp [unterminated, pure, Except.pure, throw, throwThe, MonadExceptOf.throw]

theorem advances_scanString (k : Nat) (s : PyStr) : Advances s (scanString k s) := by
  induction s generalizing k with
  | nil =>
      cases k <;> exact ⟨by simp [scanString, unterminated, throw, throwThe, MonadExceptOf.throw],
        fun v rest h => by simp [scanString, throw, throwThe, MonadExceptOf.throw] at h⟩
  | cons c s ih =>
      have hgrow : ∀ k' (d : Char), Advances (c :: s)
          ((scanString k' s).map fun found => (d :: found.1, found.2)) := by
        intro k' d
        obtain ⟨hne, hlen⟩ := ih k'
        cases hscan : scanString k' s with
        | error e => exact ⟨by simpa [Except.map, hscan] using hne, fun _ _ h => by cases h⟩
        | ok found =>
            refine ⟨by simp [Except.map], fun v rest h => ?_⟩
            obtain rfl : found.2 = rest := congrArg Prod.snd (Except.ok.inj h)
            exact Nat.lt_succ_of_lt (hlen found.1 found.2 hscan)
      cases k with
      | succ k =>
          obtain ⟨hne, hlen⟩ := ih k
          exact ⟨hne, fun v rest h => Nat.lt_succ_of_lt (hlen v rest h)⟩
      | zero =>
          rw [scanString]
          split
          · refine ⟨by simp [pure, Except.pure], fun v rest h => ?_⟩
            obtain rfl : s = rest := congrArg Prod.snd (Except.ok.inj h)
            exact Nat.lt_succ_self _
          · split
            · cases hesc : escape s with
              | error e =>
                  have hne := escape_ne s
                  exact ⟨by simpa [hesc, bind, Except.bind] using hne, fun _ _ h => by cases h⟩
              | ok found => exact hgrow found.2 found.1
            · split
              · exact ⟨by simp [throw, throwThe, MonadExceptOf.throw], fun _ _ h => by cases h⟩
              · exact hgrow 0 c

theorem length_scanInt_le (s : PyStr) : (scanInt s).length ≤ s.length := by
  unfold scanInt
  split
  · simp
  · exact (List.takeWhile_prefix _).length_le

theorem finishNumber_ne (sign int s : PyStr) : finishNumber sign int s ≠ .error .outOfFuel := by
  simp only [finishNumber]
  split
  · split <;> simp [pure, Except.pure, throw, throwThe, MonadExceptOf.throw]
  · simp [pure, Except.pure]

theorem length_of_finishNumber {sign int s rest : PyStr} {v : Json}
    (h : finishNumber sign int s = .ok (v, rest)) : rest.length ≤ s.length := by
  simp only [finishNumber] at h
  split at h
  · split at h
    · cases h
    · cases h
      exact (List.drop_suffix _ _).length_le
  · cases h
    exact (List.drop_suffix _ _).length_le

theorem advances_scanUnsigned (sign s : PyStr) : Advances s (scanUnsigned sign s) := by
  unfold scanUnsigned
  split
  · exact ⟨by simp [expectingValue, throw, throwThe, MonadExceptOf.throw], fun _ _ h => by cases h⟩
  · next hint =>
      refine ⟨finishNumber_ne _ _ _, fun v rest h => ?_⟩
      have hrest := length_of_finishNumber h
      have hpos := List.length_pos_iff.mpr hint
      have hle := length_scanInt_le s
      rw [List.length_drop] at hrest
      omega

theorem advances_scanNumber (s : PyStr) : Advances s (scanNumber s) := by
  unfold scanNumber
  split
  · next s =>
      obtain ⟨hne, hlen⟩ := advances_scanUnsigned ['-'] s
      exact ⟨hne, fun v rest h => Nat.lt_succ_of_lt (hlen v rest h)⟩
  · exact advances_scanUnsigned [] s

theorem length_of_scanWord {s : PyStr} {ws : List (PyStr × Json)} (hws : ∀ w ∈ ws, w.1 ≠ [])
    {v : Json} {rest : PyStr} (h : scanWord s ws = some (v, rest)) : rest.length < s.length := by
  induction ws with
  | nil => cases h
  | cons w ws ih =>
      obtain ⟨word, value⟩ := w
      rw [scanWord] at h
      split at h
      · next s' hpre =>
          obtain rfl : s' = rest := congrArg Prod.snd (Option.some.inj h)
          have hpos : 0 < word.length := List.length_pos_iff.mpr (hws (word, value) List.mem_cons_self)
          rw [← List.isPrefixOf?_eq_some_iff_append_eq.mp hpre, List.length_append]
          omega
      · exact ih (fun w hw => hws w (List.mem_cons_of_mem _ hw)) h

theorem advances_parseScalar (s : PyStr) : Advances s (parseScalar s) := by
  unfold parseScalar
  split
  · next s =>
      obtain ⟨hne, hlen⟩ := advances_scanString 0 s
      cases hscan : scanString 0 s with
      | error e => exact ⟨by simpa [hscan, bind, Except.bind] using hne, fun _ _ h => by cases h⟩
      | ok found =>
          refine ⟨by simp [bind, Except.bind, pure, Except.pure], fun v rest h => ?_⟩
          obtain rfl : found.2 = rest := congrArg Prod.snd (Except.ok.inj h)
          exact Nat.lt_succ_of_lt (hlen _ _ hscan)
  · split
    · next found hword =>
        refine ⟨by simp [pure, Except.pure], fun v rest h => ?_⟩
        have hnonempty : ∀ w ∈ words, w.1 ≠ [] := by
          intro w hw
          simp only [words, List.mem_cons, List.not_mem_nil, or_false] at hw
          rcases hw with rfl | rfl | rfl | rfl | rfl | rfl <;> simp
        exact length_of_scanWord hnonempty ((Except.ok.inj h) ▸ hword)
    · exact advances_scanNumber s

/-- The step of both loops: read a part, go on with the rest. -/
theorem Advances.bind {α β : Type} {s : PyStr} {x : Except LoadsError (α × PyStr)}
    {f : α × PyStr → Except LoadsError (β × PyStr)} (hx : Advances s x)
    (hf : ∀ v rest, rest.length < s.length → Advances s (f (v, rest))) : Advances s (x >>= f) := by
  obtain ⟨hne, hlen⟩ := hx
  cases x with
  | error e =>
      refine ⟨fun h => hne ?_, fun _ _ h => by cases h⟩
      cases h
      rfl
  | ok found => exact hf found.1 found.2 (hlen found.1 found.2 rfl)

theorem advances_error {α : Type} (s : PyStr) (msg : String) :
    Advances s (throw (.decode msg) : Except LoadsError (α × PyStr)) :=
  ⟨by simp [throw, throwThe, MonadExceptOf.throw], fun _ _ h => by cases h⟩

theorem advances_pure {α : Type} {s rest : PyStr} (v : α) (h : rest.length < s.length) :
    Advances s (pure (v, rest) : Except LoadsError (α × PyStr)) := by
  refine ⟨by simp [pure, Except.pure], fun v' rest' heq => ?_⟩
  cases heq
  exact h

theorem Advances.of_shorter {α : Type} {s t : PyStr} {x : Except LoadsError (α × PyStr)}
    (h : Advances t x) (hlen : t.length ≤ s.length) : Advances s x :=
  ⟨h.1, fun v rest hx => (h.2 v rest hx).trans_le hlen⟩

theorem length_lt_of_skipWs {s t : PyStr} {c : Char} (h : skipWs s = c :: t) :
    t.length < s.length := by
  have hle := length_skipWs s
  rw [h, List.length_cons] at hle
  exact hle

theorem advances_parseElements {value : PyStr → Except LoadsError (Json × PyStr)}
    (hvalue : ∀ s, Advances s (value s)) {n : Nat} {s : PyStr} (hn : s.length < n) :
    Advances s (parseElements value n s) := by
  induction n generalizing s with
  | zero => exact absurd hn (Nat.not_lt_zero _)
  | succ n ih =>
      rw [parseElements]
      refine (hvalue s).bind fun v rest hrest => ?_
      dsimp only
      split
      · next t heq => exact advances_pure _ ((length_lt_of_skipWs heq).trans hrest)
      · next t heq =>
          have hlt := (length_lt_of_skipWs heq).trans hrest
          have hle := length_skipWs t
          refine ((ih (by omega)).of_shorter (by omega)).bind fun vs rest' h => ?_
          dsimp only
          exact advances_pure _ h
      · exact advances_error _ _

theorem advances_parseMembers {value : PyStr → Except LoadsError (Json × PyStr)}
    (hvalue : ∀ s, Advances s (value s)) {n : Nat} {s : PyStr} (hn : s.length < n) :
    Advances s (parseMembers value n s) := by
  induction n generalizing s with
  | zero => exact absurd hn (Nat.not_lt_zero _)
  | succ n ih =>
      unfold parseMembers
      split
      · next s =>
          refine ((advances_scanString 0 s).of_shorter (List.length_cons ▸ Nat.le_succ _)).bind fun k rest hrest => ?_
          dsimp only
          split
          · next t heq =>
              have hlt := (length_lt_of_skipWs heq).trans hrest
              have hle := length_skipWs t
              refine ((hvalue _).of_shorter (by omega)).bind fun v rest' hrest' => ?_
              dsimp only
              split
              · next u heq' => exact advances_pure _ ((length_lt_of_skipWs heq').trans hrest')
              · next u heq' =>
                  have hlt' := (length_lt_of_skipWs heq').trans hrest'
                  have hle' := length_skipWs u
                  refine ((ih (by omega)).of_shorter (by omega)).bind fun vs rest'' h => ?_
                  dsimp only
                  exact advances_pure _ h
              · exact advances_error _ _
          · exact advances_error _ _
      · exact advances_error _ _

theorem advances_parseValue (depth : Nat) (s : PyStr) : Advances s (parseValue depth s) := by
  induction depth generalizing s with
  | zero =>
      rw [parseValue]
      split
      · exact ⟨by simp [throw, throwThe, MonadExceptOf.throw], fun _ _ h => by cases h⟩
      · exact advances_parseScalar s
  | succ depth ih =>
      unfold parseValue
      split
      · next s =>
          have hle := length_skipWs s
          split
          · next t heq => exact advances_pure _ (Nat.lt_succ_of_lt (length_lt_of_skipWs heq))
          · refine ((advances_parseElements ih (Nat.lt_succ_self _)).of_shorter
              (List.length_cons ▸ hle.trans (Nat.le_succ _))).bind fun vs rest h => ?_
            dsimp only
            exact advances_pure _ h
      · next s =>
          have hle := length_skipWs s
          split
          · next t heq => exact advances_pure _ (Nat.lt_succ_of_lt (length_lt_of_skipWs heq))
          · refine ((advances_parseMembers ih (Nat.lt_succ_self _)).of_shorter
              (List.length_cons ▸ hle.trans (Nat.le_succ _))).bind fun kvs rest h => ?_
            dsimp only
            exact advances_pure _ h
      · exact advances_parseScalar s

/-- **Reading never runs out of fuel.** -/
theorem loads_ne_outOfFuel (maxDepth : Nat) (text : PyStr) :
    loads maxDepth text ≠ .error .outOfFuel := by
  unfold loads
  split
  · simp [throw, throwThe, MonadExceptOf.throw]
  · have hne := (advances_parseValue maxDepth (skipWs text)).1
    cases h : parseValue maxDepth (skipWs text) with
    | error e => simpa [h, bind, Except.bind] using hne
    | ok found =>
        simp only [bind, Except.bind]
        split <;> simp [pure, Except.pure, throw, throwThe, MonadExceptOf.throw]

end Json

end ThreatIntel
