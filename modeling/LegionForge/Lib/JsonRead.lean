import LegionForge.Lib.JsonText

/-!
# Reading JSON text

The reader of a lenient serialiser: white space between tokens, the constants `NaN` and
`Infinity`, `\u` escapes that need not make a character. A text it gives back is therefore a
list of code points, where a surrogate that found no partner stands by itself. Of several
members of one name the last counts.

What a reader gets back of an object of strings is the same strings
(`loads_render_strings`).
-/

namespace JsonRead

open JsonText (escape escapeChar quote render renderMembers hex4 Json)

/-- What a text says. A number with a fraction or an exponent is its digits and the power
of ten they stand at. -/
inductive Value where
  | null
  | bool (b : Bool)
  | int (n : Int)
  | float (neg : Bool) (digits : Nat) (power : Int)
  | constant (name : List Char)
  | str (codes : List Nat)
  | arr (xs : List Value)
  | obj (ms : List (List Nat × Value))

/-- The code points of a text -/
def codes (s : String) : List Nat := s.toList.map Char.toNat

/-! ## Strings -/

def hexDigit (c : Char) : Option Nat :=
  if 48 ≤ c.toNat ∧ c.toNat ≤ 57 then some (c.toNat - 48)
  else if 97 ≤ c.toNat ∧ c.toNat ≤ 102 then some (c.toNat - 87)
  else if 65 ≤ c.toNat ∧ c.toNat ≤ 70 then some (c.toNat - 55)
  else none

/-- The letter behind a backslash -/
def shortEscape (c : Char) : Option Nat :=
  if c = '"' ∨ c = '\\' ∨ c = '/' then some c.toNat
  else if c = 'n' then some 10
  else if c = 'r' then some 13
  else if c = 't' then some 9
  else if c = 'b' then some 8
  else if c = 'f' then some 12
  else none

/-- Where the reader stands in a string literal: between characters, behind a backslash,
or in a `\u` escape with so many digits to come and the digits read. -/
inductive Place where
  | between
  | escape
  | hex (left value : Nat)

/-- The rest of a string literal, its escapes one unit each. -/
def readUnits : Place → List Char → Option (List Nat × List Char)
  | _, [] => none
  | .between, c :: rest =>
    if c = '"' then some ([], rest)
    else if c = '\\' then readUnits .escape rest
    else if c.toNat < 32 then none
    else (readUnits .between rest).map fun (units, rest) => (c.toNat :: units, rest)
  | .escape, c :: rest =>
    if c = 'u' then readUnits (.hex 4 0) rest
    else
      match shortEscape c with
      | none => none
      | some unit =>
        (readUnits .between rest).map fun (units, rest) => (unit :: units, rest)
  | .hex left value, c :: rest =>
    match hexDigit c with
    | none => none
    | some digit =>
      if left = 1 then
        (readUnits .between rest).map fun (units, rest) => ((value * 16 + digit) :: units, rest)
      else readUnits (.hex (left - 1) (value * 16 + digit)) rest

def highSurrogate (n : Nat) : Bool := 55296 ≤ n && n < 56320

def lowSurrogate (n : Nat) : Bool := 56320 ≤ n && n < 57344

/-- A high surrogate and the low one right behind it are one code point. -/
def joinPairs : List Nat → List Nat
  | [] => []
  | [n] => [n]
  | n :: m :: rest =>
    if highSurrogate n && lowSurrogate m then
      (65536 + (n - 55296) * 1024 + (m - 56320)) :: joinPairs rest
    else n :: joinPairs (m :: rest)

/-! ## Numbers -/

def decimal (digits : List Char) : Nat := Nat.ofDigitChars 10 digits 0

/-- The digits of a whole number: no zero in front of others. -/
def readWhole : List Char → Option (List Char × List Char)
  | '0' :: rest => some (['0'], rest)
  | text =>
    let digits := text.takeWhile Char.isDigit
    if digits = [] then none else some (digits, text.dropWhile Char.isDigit)

/-- A fraction, if a digit follows the point. -/
def readFraction : List Char → List Char × List Char
  | '.' :: rest =>
    let digits := rest.takeWhile Char.isDigit
    if digits = [] then ([], '.' :: rest) else (digits, rest.dropWhile Char.isDigit)
  | text => ([], text)

/-- An exponent, if a digit follows the letter and its sign. -/
def readExponent : List Char → Option Int × List Char
  | e :: rest =>
    if e = 'e' ∨ e = 'E' then
      let neg := rest.head? = some '-'
      let unsigned := if neg ∨ rest.head? = some '+' then rest.tail else rest
      let digits := unsigned.takeWhile Char.isDigit
      if digits = [] then (none, e :: rest)
      else
        (some (if neg then -(decimal digits : Int) else decimal digits),
          unsigned.dropWhile Char.isDigit)
    else (none, e :: rest)
  | [] => (none, [])

/-- A whole number is refused from 4301 digits on. -/
def readNumber (neg : Bool) (text : List Char) : Option (Value × List Char) :=
  match readWhole text with
  | none => none
  | some (whole, rest) =>
    let (fraction, rest) := readFraction rest
    let (exponent, rest) := readExponent rest
    if fraction = [] ∧ exponent = none then
      if 4300 < whole.length then none
      else some (.int (if neg then -(decimal whole : Int) else decimal whole), rest)
    else
      some (.float neg (decimal (whole ++ fraction)) (exponent.getD 0 - fraction.length), rest)

/-! ## Values -/

def whiteSpace (c : Char) : Bool := c = ' ' || c = '\t' || c = '\n' || c = '\r'

def skip (text : List Char) : List Char := text.dropWhile whiteSpace

/-- A word that stands for a value by itself. -/
def readWord : List (List Char × Value) → List Char → Option (Value × List Char)
  | [], _ => none
  | (word, value) :: words, text =>
    if word.isPrefixOf text then some (value, text.drop word.length) else readWord words text

def words : List (List Char × Value) :=
  [(['n', 'u', 'l', 'l'], .null), (['t', 'r', 'u', 'e'], .bool true),
    (['f', 'a', 'l', 's', 'e'], .bool false), (['N', 'a', 'N'], .constant ['N', 'a', 'N']),
    (['I', 'n', 'f', 'i', 'n', 'i', 't', 'y'],
      .constant ['I', 'n', 'f', 'i', 'n', 'i', 't', 'y']),
    (['-', 'I', 'n', 'f', 'i', 'n', 'i', 't', 'y'],
      .constant ['-', 'I', 'n', 'f', 'i', 'n', 'i', 't', 'y'])]

mutual

def readValue : Nat → List Char → Option (Value × List Char)
  | 0, _ => none
  | _ + 1, [] => none
  | fuel + 1, c :: rest =>
    if c = '"' then (readUnits .between rest).map fun (units, rest) =>
      (.str (joinPairs units), rest)
    else if c = '{' then
      match skip rest with
      | '}' :: rest => some (.obj [], rest)
      | rest => (readMembers fuel rest).map fun (ms, rest) => (.obj ms, rest)
    else if c = '[' then
      match skip rest with
      | ']' :: rest => some (.arr [], rest)
      | rest => (readElements fuel rest).map fun (xs, rest) => (.arr xs, rest)
    else
      match readWord words (c :: rest) with
      | some word => some word
      | none => if c = '-' then readNumber true rest else readNumber false (c :: rest)

/-- An object from the name of a member on. -/
def readMembers : Nat → List Char → Option (List (List Nat × Value) × List Char)
  | fuel + 1, '"' :: rest =>
    match readUnits .between rest with
    | none => none
    | some (name, rest) =>
      match skip rest with
      | ':' :: rest =>
        match readValue fuel (skip rest) with
        | none => none
        | some (value, rest) =>
          match skip rest with
          | '}' :: rest => some ([(joinPairs name, value)], rest)
          | ',' :: rest =>
            (readMembers fuel (skip rest)).map fun (ms, rest) =>
              ((joinPairs name, value) :: ms, rest)
          | _ => none
      | _ => none
  | _, _ => none

/-- An array from an element on. -/
def readElements : Nat → List Char → Option (List Value × List Char)
  | 0, _ => none
  | fuel + 1, text =>
    match readValue fuel text with
    | none => none
    | some (value, rest) =>
      match skip rest with
      | ']' :: rest => some ([value], rest)
      | ',' :: rest => (readElements fuel (skip rest)).map fun (xs, rest) => (value :: xs, rest)
      | _ => none

end

/-- The value of a whole text. Every second call takes a character, so the fuel is enough. -/
def loads (text : List Char) : Option Value :=
  if text.head? = some '\ufeff' then none
  else
    match readValue (2 * text.length + 2) (skip text) with
    | some (value, rest) => if skip rest = [] then some value else none
    | none => none

/-- The member of a name. -/
def Value.get? (v : Value) (name : List Nat) : Option Value :=
  match v with
  | .obj ms => (ms.reverse.find? fun m => m.1 = name).map Prod.snd
  | _ => none

/-! ## What was written comes back -/

/-- The units a character is escaped in. -/
def units (c : Char) : List Nat :=
  if c.toNat < 65536 then [c.toNat]
  else [55296 + (c.toNat - 65536) / 1024, 56320 + (c.toNat - 65536) % 1024]

theorem hexDigit_digitChar : ∀ d < 16, hexDigit (Nat.digitChar d) = some d := by decide

theorem readUnits_hex {n : Nat} (small : n < 65536) (rest : List Char) :
    readUnits .between ('\\' :: 'u' :: (hex4 n ++ rest)) =
      (readUnits .between rest).map fun (units, rest) => (n :: units, rest) := by
  have sum : (((0 * 16 + n / 4096 % 16) * 16 + n / 256 % 16) * 16 + n / 16 % 16) * 16 + n % 16 =
      n := by omega
  rw [readUnits, if_neg (by decide), if_pos rfl, readUnits, if_pos rfl, hex4]
  simp only [List.cons_append, List.nil_append]
  rw [readUnits, hexDigit_digitChar _ (Nat.mod_lt _ (by omega))]
  show readUnits (.hex 3 _) _ = _
  rw [readUnits, hexDigit_digitChar _ (Nat.mod_lt _ (by omega))]
  show readUnits (.hex 2 _) _ = _
  rw [readUnits, hexDigit_digitChar _ (Nat.mod_lt _ (by omega))]
  show readUnits (.hex 1 _) _ = _
  rw [readUnits, hexDigit_digitChar _ (Nat.mod_lt _ (by omega))]
  simp only [if_pos, sum]

theorem readUnits_short {e : Char} {n : Nat} (letter : shortEscape e = some n)
    (other : e ≠ 'u') (rest : List Char) :
    readUnits .between ('\\' :: e :: rest) =
      (readUnits .between rest).map fun (units, rest) => (n :: units, rest) := by
  rw [readUnits, if_neg (by decide), if_pos rfl, readUnits, if_neg other, letter]

theorem readUnits_plain {c : Char} (quoteless : c ≠ '"') (slashless : c ≠ '\\')
    (printable : 32 ≤ c.toNat) (rest : List Char) :
    readUnits .between (c :: rest) =
      (readUnits .between rest).map fun (units, rest) => (c.toNat :: units, rest) := by
  rw [readUnits, if_neg quoteless, if_neg slashless, if_neg (by omega)]

theorem readUnits_escapeChar (c : Char) (rest : List Char) :
    readUnits .between (escapeChar c ++ rest) =
      (readUnits .between rest).map fun (more, rest) => (units c ++ more, rest) := by
  by_cases short : c ∈ ['"', '\\', '\n', '\r', '\t', '\x08', '\x0c']
  · simp only [List.mem_cons, List.not_mem_nil, or_false] at short
    rcases short with rfl | rfl | rfl | rfl | rfl | rfl | rfl
    all_goals exact readUnits_short (by decide) (by decide) rest
  simp only [List.mem_cons, List.not_mem_nil, or_false, not_or] at short
  obtain ⟨hq, hb, hn, hr, ht, hbs, hff⟩ := short
  rw [escapeChar, if_neg hq, if_neg hb, if_neg hn, if_neg hr, if_neg ht, if_neg hbs, if_neg hff]
  by_cases ascii : 32 ≤ c.toNat ∧ c.toNat ≤ 126
  · rw [if_pos ascii, units, if_pos (by omega)]
    exact readUnits_plain hq hb ascii.1 rest
  rw [if_neg ascii, units]
  by_cases basic : c.toNat < 65536
  · rw [if_pos basic, if_pos basic]
    exact readUnits_hex basic rest
  · have scalar := JsonText.toNat_scalar c
    have apart : ∀ n, '\\' :: 'u' :: hex4 n ++ rest = '\\' :: 'u' :: (hex4 n ++ rest) :=
      fun _ => rfl
    rw [if_neg basic, if_neg basic, List.append_assoc, apart]
    show readUnits .between ('\\' :: 'u' :: (hex4 _ ++ _)) = _
    rw [readUnits_hex (by omega), readUnits_hex (by omega), Option.map_map]
    rfl

theorem readUnits_escape (s rest : List Char) :
    readUnits .between (escape s ++ '"' :: rest) = some (s.flatMap units, rest) := by
  induction s with
  | nil => rfl
  | cons c s ih =>
    rw [JsonText.escape_cons, List.append_assoc, readUnits_escapeChar, ih]
    rfl

/-- A character that is no half of a pair stays by itself. -/
theorem joinPairs_cons {n : Nat} (whole : highSurrogate n = false) (rest : List Nat) :
    joinPairs (n :: rest) = n :: joinPairs rest := by
  cases rest with
  | nil => rfl
  | cons m rest => simp [joinPairs, whole]

theorem joinPairs_units (s : List Char) : joinPairs (s.flatMap units) = s.map Char.toNat := by
  induction s with
  | nil => rfl
  | cons c s ih =>
    have scalar := JsonText.toNat_scalar c
    rw [List.flatMap_cons, units, List.map_cons, ← ih]
    by_cases basic : c.toNat < 65536
    · rw [if_pos basic]
      have whole : highSurrogate c.toNat = false := by
        simp [highSurrogate]
        omega
      exact joinPairs_cons whole _
    · rw [if_neg basic]
      have high : highSurrogate (55296 + (c.toNat - 65536) / 1024) = true := by
        simp [highSurrogate]
        omega
      have low : lowSurrogate (56320 + (c.toNat - 65536) % 1024) = true := by
        simp [lowSurrogate]
        omega
      have sum : 65536 + (55296 + (c.toNat - 65536) / 1024 - 55296) * 1024 +
          (56320 + (c.toNat - 65536) % 1024 - 56320) = c.toNat := by omega
      simp only [List.cons_append, List.nil_append]
      rw [joinPairs, if_pos (by rw [high, low]; rfl), sum]

/-- A string literal, and what follows it. -/
theorem readUnits_quote (s : String) (rest : List Char) :
    ∃ found, readUnits .between (escape s.toList ++ '"' :: rest) = some (found, rest) ∧
      joinPairs found = codes s :=
  ⟨_, readUnits_escape s.toList rest, joinPairs_units s.toList⟩

theorem skip_cons {c : Char} (solid : whiteSpace c = false) (rest : List Char) :
    skip (c :: rest) = c :: rest := by
  simp [skip, solid]

theorem skip_space (rest : List Char) : skip (' ' :: rest) = skip rest := rfl

theorem readValue_quote (fuel : Nat) (s : String) (rest : List Char) :
    readValue (fuel + 1) (quote s ++ rest) = some (.str (codes s), rest) := by
  obtain ⟨found, reads, joined⟩ := readUnits_quote s rest
  rw [quote, List.cons_append, List.append_assoc, List.singleton_append, readValue,
    if_pos rfl, reads]
  show some (Value.str (joinPairs found), rest) = _
  rw [joined]

/-- A member whose value is a string, up to what decides whether another follows. -/
theorem readMembers_string (fuel : Nat) (name value : String) (rest : List Char) :
    readMembers (fuel + 2) (quote name ++ ':' :: ' ' :: (quote value ++ rest)) =
      match skip rest with
      | '}' :: rest => some ([(codes name, .str (codes value))], rest)
      | ',' :: rest =>
        (readMembers (fuel + 1) (skip rest)).map fun (ms, rest) =>
          ((codes name, .str (codes value)) :: ms, rest)
      | _ => none := by
  obtain ⟨found, reads, joined⟩ := readUnits_quote name (':' :: ' ' :: (quote value ++ rest))
  have next : skip (' ' :: (quote value ++ rest)) = quote value ++ rest := by
    rw [skip_space, quote, List.cons_append, skip_cons (by decide)]
  rw [quote, List.cons_append, List.append_assoc, List.singleton_append, readMembers, reads]
  simp only [skip_cons (show whiteSpace ':' = false by decide), next, readValue_quote, joined]

/-- An object of strings from its first member on. -/
theorem readMembers_strings (fuel : Nat) (name value : String) (ms : List (String × String))
    (rest : List Char) (enough : ms.length < fuel) :
    readMembers (fuel + 1) (quote name ++ ':' :: ' ' :: (quote value ++
        (renderMembers (ms.map fun m => (m.1, Json.str m.2)) ++ rest))) =
      some (((name, value) :: ms).map fun m => (codes m.1, .str (codes m.2)), rest) := by
  obtain ⟨fuel, rfl⟩ := Nat.exists_eq_succ_of_ne_zero (show fuel ≠ 0 by omega)
  induction ms generalizing fuel name value with
  | nil =>
    rw [readMembers_string]
    rfl
  | cons m ms ih =>
    rw [List.length_cons] at enough
    obtain ⟨fuel, rfl⟩ := Nat.exists_eq_succ_of_ne_zero (show fuel ≠ 0 by omega)
    have more := ih m.1 m.2 fuel (by omega)
    rw [readMembers_string, List.map_cons, renderMembers]
    simp only [List.cons_append, List.append_assoc,
      skip_cons (show whiteSpace ',' = false by decide), skip_space]
    rw [JsonText.render, quote, List.cons_append, skip_cons (by decide), ← List.cons_append,
      ← quote, more]
    rfl

theorem length_lt_renderMembers (ms : List (String × Json)) :
    ms.length < (renderMembers ms).length := by
  induction ms with
  | nil => decide
  | cons m ms ih =>
    rw [renderMembers]
    simp only [List.length_cons, List.length_append]
    omega

theorem readValue_members (fuel : Nat) (name : String) (rest : List Char) :
    readValue (fuel + 1) ('{' :: (quote name ++ rest)) =
      (readMembers fuel (quote name ++ rest)).map fun (ms, rest) => (.obj ms, rest) := by
  rw [readValue, if_neg (by decide), if_pos rfl, quote, List.cons_append, skip_cons (by decide)]
  rfl

/-- An object of strings is read for what it was written for. -/
theorem loads_render_strings (ms : List (String × String)) :
    loads (render (.obj (ms.map fun m => (m.1, .str m.2)))) =
      some (.obj (ms.map fun m => (codes m.1, .str (codes m.2)))) := by
  cases ms with
  | nil => rfl
  | cons m ms =>
    rw [List.map_cons, render, JsonText.render]
    generalize inside : quote m.1 ++ ':' :: ' ' ::
      (quote m.2 ++ renderMembers (ms.map fun m => (m.1, Json.str m.2))) = inner
    have long : ms.length < inner.length := by
      have members := length_lt_renderMembers (ms.map fun m => (m.1, Json.str m.2))
      simp only [← inside, List.length_map, List.length_append, List.length_cons] at members ⊢
      omega
    have read := readMembers_strings (2 * inner.length + 2) m.1 m.2 ms [] (by omega)
    rw [List.append_nil, inside] at read
    have value : readValue (2 * ('{' :: inner).length + 2) ('{' :: inner) =
        (readMembers (2 * inner.length + 2 + 1) inner).map fun (ms, rest) => (.obj ms, rest) := by
      rw [← inside]
      exact readValue_members _ m.1 _
    rw [loads, if_neg (by simp), skip_cons (by decide), value, read]
    rfl

end JsonRead
