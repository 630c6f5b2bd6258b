import LegionForge.Lib.JsonRead

/-!
# A rendered tree is read for what it says

`valueOf` is what a tree says to a reader, which is nothing if one of its number tokens is no
number. The reader gets it back from the rendered text (`loads_render`), and its fuel is
enough: where a call of the reader has two units for every character of its tree, the calls
inside have as many for theirs.
-/

namespace JsonRead

open JsonText (escapeChar quote render renderRest renderMembers Json Token)

/-! ## What a tree says -/

def readToken : List Char → Option (Value × List Char)
  | '-' :: digits => readNumber true digits
  | text => readNumber false text

mutual

def valueOf : Json → Option Value
  | .null => some .null
  | .bool b => some (.bool b)
  | .num t =>
    match readToken t.text with
    | some (v, []) => some v
    | _ => none
  | .str s => some (.str (codes s))
  | .arr xs => (valuesOf xs).map .arr
  | .obj ms => (membersOf ms).map .obj

def valuesOf : List Json → Option (List Value)
  | [] => some []
  | x :: xs => (valueOf x).bind fun v => (valuesOf xs).map (v :: ·)

def membersOf : List (String × Json) → Option (List (List Nat × Value))
  | [] => some []
  | (k, x) :: ms => (valueOf x).bind fun v => (membersOf ms).map ((codes k, v) :: ·)

end

/-! ## Numbers -/

/-- What follows a value of a rendered tree: nothing, or what goes on with the tree. -/
def Ends (rest : List Char) : Prop := ∀ c ∈ rest.head?, c = ',' ∨ c = ']' ∨ c = '}'

theorem ends_nil : Ends [] := by
  intro c hc
  cases hc

theorem ends_cons {c : Char} {rest : List Char} (h : c = ',' ∨ c = ']' ∨ c = '}') :
    Ends (c :: rest) := by
  intro d hd
  cases hd
  exact h

theorem ends_renderRest (xs : List Json) (rest : List Char) : Ends (renderRest xs ++ rest) := by
  cases xs <;> exact ends_cons (by simp)

theorem ends_renderMembers (ms : List (String × Json)) (rest : List Char) :
    Ends (renderMembers ms ++ rest) := by
  cases ms <;> exact ends_cons (by simp)

theorem Ends.digit {rest : List Char} (h : Ends rest) : ∀ c ∈ rest.head?, c.isDigit = false := by
  intro c hc
  rcases h c hc with rfl | rfl | rfl <;> rfl

theorem takeWhile_append {p : Char → Bool} {rest : List Char}
    (stop : ∀ c ∈ rest.head?, p c = false) (l : List Char) :
    (l ++ rest).takeWhile p = l.takeWhile p ∧
      (l ++ rest).dropWhile p = l.dropWhile p ++ rest := by
  induction l with
  | nil =>
    cases rest with
    | nil => exact ⟨rfl, rfl⟩
    | cons c rest =>
      have hc := stop c rfl
      simp [hc]
  | cons c l ih =>
    cases hc : p c with
    | true => simpa [hc] using ih
    | false => simp [hc]

theorem readWhole_append {text whole r rest : List Char} (ends : Ends rest)
    (h : readWhole text = some (whole, r)) :
    readWhole (text ++ rest) = some (whole, r ++ rest) ∧
      ∃ d t, text = d :: t ∧ d.isDigit = true := by
  obtain ⟨takes, drops⟩ := takeWhile_append ends.digit text
  unfold readWhole at h
  split at h
  · cases h
    exact ⟨rfl, _, _, rfl, rfl⟩
  · next other =>
    dsimp only at h
    split at h
    · cases h
    · next some_digit =>
      cases h
      cases text with
      | nil => simp at some_digit
      | cons c t =>
        have digit : c.isDigit = true := by
          by_contra none
          simp [none] at some_digit
        have first : c ≠ '0' := by
          rintro rfl
          exact other t rfl
        refine ⟨?_, c, t, rfl, digit⟩
        rw [List.cons_append] at takes drops ⊢
        unfold readWhole
        split
        · next same => exact absurd (List.cons.inj same).1 first
        · rw [takes, drops, if_neg some_digit]

theorem readFraction_append {text rest : List Char} (ends : Ends rest) :
    readFraction (text ++ rest) =
      ((readFraction text).1, (readFraction text).2 ++ rest) := by
  cases text with
  | nil =>
    cases rest with
    | nil => rfl
    | cons c rest =>
      rcases ends c rfl with rfl | rfl | rfl <;> rfl
  | cons c t =>
    by_cases point : c = '.'
    · subst point
      obtain ⟨takes, drops⟩ := takeWhile_append ends.digit t
      rw [List.cons_append, readFraction, readFraction, takes, drops]
      split <;> rfl
    · have other (u : List Char) : readFraction (c :: u) = ([], c :: u) := by
        unfold readFraction
        split
        · next same => exact absurd (List.cons.inj same).1 point
        · rfl
      rw [List.cons_append, other, other]
      rfl

theorem readExponent_append {text rest : List Char} (ends : Ends rest) :
    readExponent (text ++ rest) =
      ((readExponent text).1, (readExponent text).2 ++ rest) := by
  cases text with
  | nil =>
    cases rest with
    | nil => rfl
    | cons c rest =>
      rcases ends c rfl with rfl | rfl | rfl <;> rfl
  | cons e t =>
    by_cases letter : e = 'e' ∨ e = 'E'
    · cases t with
      | nil =>
        -- no digit follows the letter
        have none : readExponent (e :: rest) = (none, e :: rest) := by
          rw [readExponent, if_pos letter]
          cases rest with
          | nil => rfl
          | cons c rest => rcases ends c rfl with rfl | rfl | rfl <;> rfl
        have alone : readExponent [e] = (Option.none, [e]) := by
          rw [readExponent, if_pos letter]
          rfl
        rw [List.cons_append, List.nil_append, none, alone]
        rfl
      | cons d t =>
        have after : ∀ u : List Char, (if d = '-' ∨ d = '+' then u else d :: u) ++ rest =
            if d = '-' ∨ d = '+' then u ++ rest else d :: (u ++ rest) := by
          intro u
          split <;> rfl
        obtain ⟨takes, drops⟩ := takeWhile_append ends.digit
          (if d = '-' ∨ d = '+' then t else d :: t)
        rw [after] at takes drops
        rw [List.cons_append, List.cons_append, readExponent, readExponent, if_pos letter,
          if_pos letter]
        simp only [List.head?_cons, Option.some.injEq, List.tail_cons, takes, drops]
        by_cases none : (if d = '-' ∨ d = '+' then t else d :: t).takeWhile Char.isDigit = []
        · rw [if_pos none, if_pos none]
          rfl
        · rw [if_neg none, if_neg none]
    · rw [List.cons_append, readExponent, readExponent, if_neg letter, if_neg letter]
      rfl

theorem readNumber_append {neg : Bool} {text r rest : List Char} {v : Value} (ends : Ends rest)
    (h : readNumber neg text = some (v, r)) :
    readNumber neg (text ++ rest) = some (v, r ++ rest) ∧
      ∃ d t, text = d :: t ∧ d.isDigit = true := by
  unfold readNumber at h
  split at h
  · cases h
  · next whole r₁ found =>
    obtain ⟨again, first⟩ := readWhole_append ends found
    refine ⟨?_, first⟩
    unfold readNumber
    rw [again]
    dsimp only at h ⊢
    rw [readFraction_append ends]
    dsimp only
    rw [readExponent_append ends]
    dsimp only
    split at h
    · next plain =>
      rw [if_pos plain]
      split at h
      · cases h
      · next short =>
        rw [if_neg short]
        cases h
        rfl
    · next dotted =>
      rw [if_neg dotted]
      cases h
      rfl

/-! ## First characters -/

theorem solid_tokenChar {c : Char} (h : JsonText.tokenChar c = true) :
    whiteSpace c = false ∧ c ≠ ']' ∧ c ≠ '\ufeff' := by
  refine ⟨?_, ?_, ?_⟩
  · rw [Bool.eq_false_iff]
    intro white
    simp only [whiteSpace, Bool.or_eq_true, decide_eq_true_eq] at white
    rcases white with ((rfl | rfl) | rfl) | rfl <;> exact absurd h (by decide)
  · rintro rfl
    exact absurd h (by decide)
  · rintro rfl
    exact absurd h (by decide)

theorem render_first (j : Json) :
    ∃ c l, render j = c :: l ∧ whiteSpace c = false ∧ c ≠ ']' ∧ c ≠ '\ufeff' := by
  rcases j with _ | (_ | _) | t | s | (_ | ⟨x, xs⟩) | (_ | ⟨⟨k, v⟩, ms⟩)
  case num =>
    obtain ⟨c, l, text⟩ := List.exists_cons_of_ne_nil t.nonempty
    exact ⟨c, l, by rw [render, text], solid_tokenChar (t.chars c (by simp [text]))⟩
  all_goals exact ⟨_, _, rfl, by decide, by decide, by decide⟩

theorem skip_render (j : Json) (rest : List Char) :
    skip (render j ++ rest) = render j ++ rest := by
  obtain ⟨c, l, text, solid, -⟩ := render_first j
  rw [text, List.cons_append, skip_cons solid]

theorem render_length_pos (j : Json) : 0 < (render j).length := by
  obtain ⟨c, l, text, -⟩ := render_first j
  simp [text]

/-! ## Values -/

theorem digit_ne {d : Char} (digit : d.isDigit = true) :
    d ≠ 'I' ∧ d ≠ 'n' ∧ d ≠ 't' ∧ d ≠ 'f' ∧ d ≠ 'N' ∧ d ≠ '-' ∧ d ≠ '"' ∧ d ≠ '{' ∧ d ≠ '[' := by
  refine ⟨?_, ?_, ?_, ?_, ?_, ?_, ?_, ?_, ?_⟩ <;> rintro rfl <;> exact absurd digit (by decide)

/-- A number token is met where no word is. -/
theorem readValue_token {t : Token} {v : Value} (fuel : Nat) {rest : List Char}
    (ends : Ends rest) (meaning : readToken t.text = some (v, [])) :
    readValue (fuel + 1) (t.text ++ rest) = some (v, rest) := by
  unfold readToken at meaning
  split at meaning
  · next digits text =>
    obtain ⟨reads, d, l, rfl, digit⟩ := readNumber_append ends meaning
    have no_word : readWord words ('-' :: (d :: l ++ rest)) = none := by
      have infinity := (digit_ne digit).1
      simp [readWord, words, infinity.symm]
    rw [text, List.cons_append, readValue, if_neg (by decide), if_neg (by decide),
      if_neg (by decide), no_word]
    exact reads
  · next minus =>
    obtain ⟨reads, d, l, text, digit⟩ := readNumber_append ends meaning
    obtain ⟨i, n, t, f, nan, negative, quoteless, brace, bracket⟩ := digit_ne digit
    have no_word : readWord words (d :: (l ++ rest)) = none := by
      simp [readWord, words, i.symm, n.symm, t.symm, f.symm, nan.symm, negative.symm]
    rw [text] at reads ⊢
    rw [List.cons_append] at reads ⊢
    rw [readValue, if_neg quoteless, if_neg brace, if_neg bracket, no_word, if_neg negative]
    exact reads

theorem readValue_elements (fuel : Nat) (x : Json) (text : List Char) :
    readValue (fuel + 1) ('[' :: (render x ++ text)) =
      (readElements fuel (render x ++ text)).map fun read => (.arr read.1, read.2) := by
  obtain ⟨c, l, first, -, other, -⟩ := render_first x
  rw [readValue, if_neg (by decide), if_neg (by decide), if_pos rfl, skip_render, first,
    List.cons_append]
  split
  · next same => exact absurd (List.cons.inj same).1 other
  · rfl

theorem readMembers_last {x : Json} {v : Value} {fuel : Nat} (k : String)
    {rest rest' : List Char} (value : readValue fuel (render x ++ rest) = some (v, rest))
    (last : skip rest = '}' :: rest') :
    readMembers (fuel + 1) (quote k ++ ':' :: ' ' :: (render x ++ rest)) =
      some ([(codes k, v)], rest') := by
  obtain ⟨found, reads, joined⟩ := readUnits_quote k (':' :: ' ' :: (render x ++ rest))
  rw [quote, List.cons_append, List.append_assoc, List.singleton_append, readMembers, reads]
  simp only [skip_cons (show whiteSpace ':' = false by decide), skip_space, skip_render, value,
    joined, last]

theorem readMembers_more {x : Json} {v : Value} {fuel : Nat} (k : String)
    {rest rest' left : List Char} {ms : List (List Nat × Value)}
    (value : readValue fuel (render x ++ rest) = some (v, rest))
    (more : skip rest = ',' :: rest')
    (tail : readMembers fuel (skip rest') = some (ms, left)) :
    readMembers (fuel + 1) (quote k ++ ':' :: ' ' :: (render x ++ rest)) =
      some ((codes k, v) :: ms, left) := by
  obtain ⟨found, reads, joined⟩ := readUnits_quote k (':' :: ' ' :: (render x ++ rest))
  rw [quote, List.cons_append, List.append_assoc, List.singleton_append, readMembers, reads]
  simp only [skip_cons (show whiteSpace ':' = false by decide), skip_space, skip_render, value,
    joined, more, tail, Option.map_some]

mutual

theorem readValue_render : ∀ (j : Json) {v : Value} {fuel : Nat} {rest : List Char},
    valueOf j = some v → Ends rest → 2 * (render j).length ≤ fuel →
    readValue fuel (render j ++ rest) = some (v, rest)
  | j, v, 0, rest, _, _, enough => by
    have positive := render_length_pos j
    omega
  | .null, v, fuel + 1, rest, meaning, ends, enough => by
    cases meaning
    rfl
  | .bool true, v, fuel + 1, rest, meaning, ends, enough => by
    cases meaning
    rfl
  | .bool false, v, fuel + 1, rest, meaning, ends, enough => by
    cases meaning
    rfl
  | .num t, v, fuel + 1, rest, meaning, ends, enough => by
    rw [render]
    refine readValue_token fuel ends ?_
    unfold valueOf at meaning
    split at meaning
    · next found =>
      cases meaning
      exact found
    · cases meaning
  | .str s, v, fuel + 1, rest, meaning, ends, enough => by
    cases meaning
    exact readValue_quote fuel s rest
  | .arr [], v, fuel + 1, rest, meaning, ends, enough => by
    cases meaning
    rfl
  | .arr (x :: xs), v, fuel + 1, rest, meaning, ends, enough => by
    rw [valueOf] at meaning
    obtain ⟨vs, elements, rfl⟩ := Option.map_eq_some_iff.mp meaning
    rw [render, List.length_cons, List.length_append] at enough
    rw [render, List.cons_append, List.append_assoc, readValue_elements,
      readElements_render x xs elements (by omega)]
    rfl
  | .obj [], v, fuel + 1, rest, meaning, ends, enough => by
    cases meaning
    rfl
  | .obj ((k, x) :: ms), v, fuel + 1, rest, meaning, ends, enough => by
    rw [valueOf] at meaning
    obtain ⟨vs, members, rfl⟩ := Option.map_eq_some_iff.mp meaning
    simp only [render, List.length_cons, List.length_append] at enough
    simp only [render, List.cons_append, List.append_assoc]
    rw [readValue_members, readMembers_render k x ms members (by omega)]
    rfl

/-- An array from an element on: a unit goes into the element, and the next one has more
characters behind it. -/
theorem readElements_render : ∀ (x : Json) (xs : List Json) {vs : List Value} {fuel : Nat}
    {rest : List Char}, valuesOf (x :: xs) = some vs →
    2 * ((render x).length + (renderRest xs).length) ≤ fuel + 1 →
    readElements fuel (render x ++ (renderRest xs ++ rest)) = some (vs, rest)
  | x, xs, vs, 0, rest, _, enough => by
    have positive := render_length_pos x
    omega
  | x, [], vs, fuel + 1, rest, meaning, enough => by
    obtain ⟨v, head, meaning⟩ := Option.bind_eq_some_iff.mp meaning
    cases meaning
    rw [renderRest, List.length_singleton] at enough
    rw [readElements, readValue_render x head (ends_renderRest [] rest) (by omega)]
    rfl
  | x, y :: ys, vs, fuel + 1, rest, meaning, enough => by
    obtain ⟨v, head, meaning⟩ := Option.bind_eq_some_iff.mp meaning
    obtain ⟨vs', tail, rfl⟩ := Option.map_eq_some_iff.mp meaning
    simp only [renderRest, List.length_cons, List.length_append] at enough
    rw [readElements, readValue_render x head (ends_renderRest (y :: ys) rest) (by omega)]
    simp only [renderRest, List.cons_append, List.append_assoc,
      skip_cons (show whiteSpace ',' = false by decide), skip_space, skip_render]
    rw [readElements_render y ys tail (by omega)]
    rfl

theorem readMembers_render : ∀ (k : String) (x : Json) (ms : List (String × Json))
    {vs : List (List Nat × Value)} {fuel : Nat} {rest : List Char},
    membersOf ((k, x) :: ms) = some vs →
    2 * ((render x).length + (renderMembers ms).length) ≤ fuel + 1 →
    readMembers fuel (quote k ++ ':' :: ' ' :: (render x ++ (renderMembers ms ++ rest))) =
      some (vs, rest)
  | k, x, ms, vs, 0, rest, _, enough => by
    have positive := render_length_pos x
    omega
  | k, x, [], vs, fuel + 1, rest, meaning, enough => by
    obtain ⟨v, head, meaning⟩ := Option.bind_eq_some_iff.mp meaning
    cases meaning
    rw [renderMembers, List.length_singleton] at enough
    exact readMembers_last k (readValue_render x head (ends_renderMembers [] rest) (by omega)) rfl
  | k, x, (k', y) :: ms, vs, fuel + 1, rest, meaning, enough => by
    obtain ⟨v, head, meaning⟩ := Option.bind_eq_some_iff.mp meaning
    obtain ⟨vs', tail, rfl⟩ := Option.map_eq_some_iff.mp meaning
    simp only [renderMembers, List.length_cons, List.length_append] at enough
    have next (text : List Char) : skip (quote k' ++ text) = quote k' ++ text := by
      rw [quote, List.cons_append, skip_cons (by decide)]
    have more : skip (renderMembers ((k', y) :: ms) ++ rest) =
        ',' :: ' ' :: (quote k' ++ ':' :: ' ' :: (render y ++ (renderMembers ms ++ rest))) := by
      simp only [renderMembers, List.cons_append, List.append_assoc,
        skip_cons (show whiteSpace ',' = false by decide)]
    refine readMembers_more k
      (readValue_render x head (ends_renderMembers ((k', y) :: ms) rest) (by omega)) more ?_
    rw [skip_space, next]
    exact readMembers_render k' y ms tail (by omega)

end

/-- The reader gets back what the tree says. -/
theorem loads_render {j : Json} {v : Value} (meaning : valueOf j = some v) :
    loads (render j) = some v := by
  have read : readValue (2 * (render j).length + 2) (render j ++ []) = some (v, []) :=
    readValue_render j meaning ends_nil (by omega)
  have skipped := skip_render j []
  rw [List.append_nil] at read skipped
  have first : (render j).head? ≠ some '\ufeff' := by
    obtain ⟨c, l, text, -, -, other⟩ := render_first j
    simpa [text] using other
  rw [loads, if_neg first, skipped, read]
  rfl

/-! ## The characters of a rendered tree -/

def printable (c : Char) : Bool := 32 ≤ c.toNat && c.toNat ≤ 126

theorem printable_digitChar : ∀ d < 16, printable (Nat.digitChar d) = true := by decide

theorem printable_hex4 (n : Nat) : ∀ c ∈ JsonText.hex4 n, printable c = true := by
  intro c hc
  simp only [JsonText.hex4, List.mem_cons, List.not_mem_nil, or_false] at hc
  rcases hc with rfl | rfl | rfl | rfl <;> exact printable_digitChar _ (Nat.mod_lt _ (by omega))

theorem printable_unit (n : Nat) : ∀ c ∈ '\\' :: 'u' :: JsonText.hex4 n, printable c = true := by
  intro c hc
  rcases List.mem_cons.mp hc with rfl | hc
  · rfl
  rcases List.mem_cons.mp hc with rfl | hc
  · rfl
  · exact printable_hex4 n c hc

theorem printable_escapeChar (a : Char) : ∀ c ∈ escapeChar a, printable c = true := by
  intro c hc
  by_cases short : a ∈ ['"', '\\', '\n', '\r', '\t', '\x08', '\x0c']
  · simp only [List.mem_cons, List.not_mem_nil, or_false] at short
    rcases short with rfl | rfl | rfl | rfl | rfl | rfl | rfl <;>
      exact List.all_eq_true.mp (show (escapeChar _).all printable = true by decide) c hc
  simp only [List.mem_cons, List.not_mem_nil, or_false, not_or] at short
  obtain ⟨hq, hb, hn, hr, ht, hbs, hff⟩ := short
  rw [escapeChar, if_neg hq, if_neg hb, if_neg hn, if_neg hr, if_neg ht, if_neg hbs,
    if_neg hff] at hc
  split at hc
  · next ascii =>
    rw [List.mem_singleton.mp hc]
    simpa [printable] using ascii
  · split at hc
    · exact printable_unit _ c hc
    · rcases List.mem_append.mp hc with high | low
      · exact printable_unit _ c high
      · exact printable_unit _ c low

theorem printable_quote (s : String) : ∀ c ∈ quote s, printable c = true := by
  intro c hc
  rcases List.mem_cons.mp hc with rfl | hc
  · rfl
  rcases List.mem_append.mp hc with inside | last
  · obtain ⟨a, -, ha⟩ := List.mem_flatMap.mp inside
    exact printable_escapeChar a c ha
  · rw [List.mem_singleton.mp last]
    rfl

theorem printable_tokenChar {c : Char} (h : JsonText.tokenChar c = true) : printable c = true := by
  simp only [JsonText.tokenChar, Bool.or_eq_true, decide_eq_true_eq] at h
  rcases h with (((digit | rfl) | rfl) | rfl) | rfl
  · have bounds : 48 ≤ c.toNat ∧ c.toNat ≤ 57 := Char.isDigit_iff_toNat.mp digit
    simp only [printable, Bool.and_eq_true, decide_eq_true_eq]
    omega
  all_goals rfl

theorem printable_member (k : String) {text : List Char} (h : ∀ c ∈ text, printable c = true) :
    ∀ c ∈ quote k ++ ':' :: ' ' :: text, printable c = true := by
  intro c hc
  rcases List.mem_append.mp hc with name | hc
  · exact printable_quote k c name
  rcases List.mem_cons.mp hc with rfl | hc
  · rfl
  rcases List.mem_cons.mp hc with rfl | hc
  · rfl
  · exact h c hc

mutual

/-- A rendered tree is one line of ASCII. -/
theorem printable_render : ∀ (j : Json), ∀ c ∈ render j, printable c = true
  | .null | .bool true | .bool false | .arr [] | .obj [] => List.all_eq_true.mp rfl
  | .num t => fun c hc => printable_tokenChar (t.chars c hc)
  | .str s => printable_quote s
  | .arr (x :: xs) => by
    rw [render]
    refine List.forall_mem_cons.mpr ⟨rfl, fun c hc => ?_⟩
    rcases List.mem_append.mp hc with first | more
    · exact printable_render x c first
    · exact printable_renderRest xs c more
  | .obj ((k, x) :: ms) => by
    rw [render]
    refine List.forall_mem_cons.mpr ⟨rfl, printable_member k fun c hc => ?_⟩
    rcases List.mem_append.mp hc with first | more
    · exact printable_render x c first
    · exact printable_renderMembers ms c more

theorem printable_renderRest : ∀ (xs : List Json), ∀ c ∈ renderRest xs, printable c = true
  | [] => List.all_eq_true.mp rfl
  | x :: xs => by
    rw [renderRest]
    refine List.forall_mem_cons.mpr ⟨rfl, List.forall_mem_cons.mpr ⟨rfl, fun c hc => ?_⟩⟩
    rcases List.mem_append.mp hc with first | more
    · exact printable_render x c first
    · exact printable_renderRest xs c more

theorem printable_renderMembers :
    ∀ (ms : List (String × Json)), ∀ c ∈ renderMembers ms, printable c = true
  | [] => List.all_eq_true.mp rfl
  | (k, x) :: ms => by
    rw [renderMembers]
    refine List.forall_mem_cons.mpr ⟨rfl, List.forall_mem_cons.mpr ⟨rfl, ?_⟩⟩
    refine printable_member k fun c hc => ?_
    rcases List.mem_append.mp hc with first | more
    · exact printable_render x c first
    · exact printable_renderMembers ms c more

end

theorem renderMembers_last : ∀ (ms : List (String × Json)), ∃ l, renderMembers ms = l ++ ['}']
  | [] => ⟨[], rfl⟩
  | (k, x) :: ms => by
    obtain ⟨l, last⟩ := renderMembers_last ms
    exact ⟨',' :: ' ' :: (quote k ++ ':' :: ' ' :: (render x ++ l)), by simp [renderMembers, last]⟩

/-- An object stands between braces. -/
theorem render_obj (ms : List (String × Json)) : ∃ l, render (.obj ms) = '{' :: (l ++ ['}']) := by
  cases ms with
  | nil => exact ⟨[], rfl⟩
  | cons m ms =>
    obtain ⟨k, x⟩ := m
    obtain ⟨l, last⟩ := renderMembers_last ms
    exact ⟨quote k ++ ':' :: ' ' :: (render x ++ l), by simp [render, last]⟩

end JsonRead
