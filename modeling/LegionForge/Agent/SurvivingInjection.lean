import LegionForge.Agent.DestructiveScan
import LegionForge.Lib.Survivors
import Mathlib.Data.List.Forall2

/-!
# What sanitisation leaves of an injection

`sanitize_output` looks for injection patterns and takes out personal data, so what it found
stays where no substitution and no cut happens to reach it. A Tier 1 pattern is in the clean
copy exactly if some match of one is kept (`tier1_cleanCopy_iff`).

From the copy back to the text a match is followed through the marks, which it shares no part
with: it has no bracket but at its ends, and lies in no mark. The same goes for the note
behind a cut, but for `dan 5.`, which may take its point from there and is a match without it.
-/

namespace LegionForge.Agent

open JsonText Security Regex

/-- The text holds a match of a Tier 1 pattern. -/
def HasTier1 (u : Unicode) (text : List Char) : Prop :=
  ∃ q : InjectionPattern, q.halts = true ∧ q.pattern.search u.toCharData true text = true

/-- A match of a Tier 1 pattern in the text that redaction keeps, and that ends within the
limit. -/
def InjectionKept (u : Unicode) (limit : Nat) (text : List Char) : Prop :=
  ∃ q : InjectionPattern, q.halts = true ∧ ∃ before w after around',
    text = before ++ w ++ after ∧ q.pattern.Spans u.toCharData true before.reverse w after ∧
    KeptThrough u w PiiPattern.all (before, after) around' ∧
    around'.1.length + w.length ≤ limit

/-! ## What the patterns read -/

/-- Characters of a list, spaces, and digits where there are any. -/
def literals (chars : List Char) (digits : Bool) : ClassItem → Bool
  | .char c => chars.contains c
  | .space => true
  | .digit => digits
  | .range _ _ | .word => false

def wordChars : List Char := "abcdefghijklmnopqrstuvwxyz<>|_-".toList

/-- What Tier 1 patterns read before a number. -/
def noteItems : ClassItem → Bool := literals (wordChars ++ "[]/INST".toList) false

/-- All that Tier 1 patterns read. -/
def tier1Items : ClassItem → Bool := literals (wordChars ++ ".[]/INST".toList) true

/-- The tables say of ASCII characters what they say in Python, and of others that they are
no brackets. -/
structure InjectionTables (u : Unicode) : Prop where
  ascii : ∀ c : Char, c.toNat < 128 →
    ReadsAs tier1Items u.toCharData c Unicode.ascii.toCharData c
  bracket : ∀ c, '[' ∈ u.variants c → c = '['
  bracket' : ∀ c, ']' ∈ u.variants c → c = ']'
  newline : Reads u.toCharData '\n' .space
  blank : Reads u.toCharData ' ' .space

theorem tier1_plain : ∀ q ∈ InjectionPattern.all, q.halts = true →
    q.pattern.plain tier1Items = true := by
  decide +kernel

/-- But for the one in brackets and the one with a number, they read letters and spaces. -/
theorem tier1_words : ∀ q ∈ InjectionPattern.all, q.halts = true → q ≠ .instTag →
    q ≠ .danNumber → q.pattern.plain (literals wordChars false) = true := by
  decide +kernel

theorem tier1_not_in_marks : ∀ q ∈ InjectionPattern.all, q.halts = true → ∀ p ∈ PiiPattern.all,
    q.pattern.search Unicode.ascii.toCharData true p.replacement.toList = false := by
  decide +kernel

theorem tier1_not_in_note : ∀ q ∈ InjectionPattern.all, q.halts = true → q ≠ .danNumber →
    q.pattern.plain noteItems = true ∧
      q.pattern.search Unicode.ascii.toCharData true " [truncated, original: ".toList = false ∧
      q.pattern.search Unicode.ascii.toCharData true " chars]".toList = false := by
  decide +kernel

theorem tier1_edges : ∀ q ∈ InjectionPattern.all, q.halts = true → ∀ first : Bool,
    ∀ item ∈ (q.pattern.edge first).1, tier1Items item = true ∧
      ∀ c ∈ [' ', '\n'], ¬ Reads Unicode.ascii.toCharData c item := by
  decide +kernel

theorem injectionPattern_mem_all (q : InjectionPattern) : q ∈ InjectionPattern.all := by
  cases q <;> decide

theorem piiPattern_mem_all (p : PiiPattern) : p ∈ PiiPattern.all := by
  cases p <;> decide

section
variable {u : Unicode} {q : InjectionPattern} {w : List Char}

/-- A stretch of ASCII characters is one for the ASCII tables. -/
theorem spans_ascii (tables : InjectionTables u) {p : Pattern} (plain : p.plain tier1Items = true)
    (ascii : ∀ c ∈ w, c.toNat < 128) {before after : List Char}
    (spans : p.Spans u.toCharData true before w after) :
    p.Spans Unicode.ascii.toCharData true [] w [] := by
  have pairs := @spans_pairs u.toCharData Unicode.ascii.toCharData tier1Items p before [] after []
    (w.map fun c => (c, c)) plain
  simp only [List.map_map, Function.comp_def, List.map_id'] at pairs
  refine pairs (fun z mem => ?_) spans
  obtain ⟨c, mem_w, rfl⟩ := List.mem_map.mp mem
  exact tables.ascii c (ascii c mem_w)

/-- In a text of ASCII characters the ASCII tables find every match. -/
theorem search_ascii_of_infix (tables : InjectionTables u) {p : Pattern}
    (plain : p.plain tier1Items = true) {text : List Char} (ascii : ∀ c ∈ text, c.toNat < 128)
    {before after : List Char} (spans : p.Spans u.toCharData true before w after)
    (inside : w <:+: text) : p.search Unicode.ascii.toCharData true text = true := by
  obtain ⟨x, y, rfl⟩ := inside
  refine (search_iff plain).mpr ⟨x, w, y, rfl, spans_ascii tables plain (fun c mem => ?_) spans⟩
  exact ascii c (List.mem_append_left y (List.mem_append_right x mem))

/-! ## Brackets -/

/-- A bracket that opens is at the beginning, and one that closes at the end. -/
def Closed (w : List Char) : Prop :=
  (∀ a b, w = a ++ '[' :: b → a = []) ∧ ∀ a b, w = a ++ ']' :: b → b = []

theorem closed_of_not_mem (opening : '[' ∉ w) (closing : ']' ∉ w) : Closed w := by
  constructor
  · rintro a b rfl
    exact absurd (List.mem_append_right a List.mem_cons_self) opening
  · rintro a b rfl
    exact absurd (List.mem_append_right a List.mem_cons_self) closing

theorem closed_of_brackets {inner : List Char} (opening : '[' ∉ inner) (closing : ']' ∉ inner) :
    Closed ('[' :: inner ++ [']']) := by
  constructor
  · intro a b split
    cases a with
    | nil => rfl
    | cons c a =>
      rw [List.cons_append, List.cons_append, List.cons.injEq] at split
      have mem : '[' ∈ inner ++ [']'] := by simp [split.2]
      simp [opening] at mem
  · intro a b split
    rcases List.eq_nil_or_concat b with rfl | ⟨b, c, rfl⟩
    · rfl
    · rw [List.concat_eq_append, ← List.cons_append, ← List.append_assoc] at split
      have same := (List.append_inj' split rfl).1
      have mem : ']' ∈ '[' :: inner := by simp [same]
      simp [closing] at mem

/-- A closed stretch shares no part with a mark in brackets that it is not within. -/
theorem apart_of_closed {inner : List Char} (closed : Closed w)
    (outside : ¬ w <:+: '[' :: inner ++ [']']) : Apart ('[' :: inner ++ [']']) w where
  inside := outside
  around := by
    rintro ⟨a, b, split⟩
    obtain rfl := closed.1 a (inner ++ [']'] ++ b) (by rw [← split]; simp)
    obtain rfl := closed.2 ('[' :: inner) b (by rw [← split]; simp)
    exact outside ⟨[], [], by rw [← split]; simp⟩
  start := by
    rintro s some_part tail ⟨b, split⟩
    obtain ⟨s, c, rfl⟩ := (List.eq_nil_or_concat s).resolve_left some_part
    obtain ⟨a, whole⟩ := tail
    rw [List.concat_eq_append, ← List.append_assoc] at whole
    obtain rfl : c = ']' := List.singleton_inj.mp (List.append_inj' whole rfl).2
    obtain rfl := closed.2 s b (by rw [← split]; simp)
    exact outside ⟨a, [], by rw [← split, ← whole]; simp⟩
  stop := by
    rintro s some_part ⟨b, whole⟩ ⟨a, split⟩
    cases s with
    | nil => exact some_part rfl
    | cons c s =>
      obtain rfl : c = '[' := (List.cons.inj whole).1
      obtain rfl := closed.1 a s split.symm
      exact outside ⟨[], b, by rw [← split, ← whole]; simp⟩

/-! ## What is not read -/

theorem readable_literals {chars : List Char} {digits : Bool} {d : CharData} {c : Char} :
    Readable (literals chars digits) d c ↔
      (d.variants c).any (fun v => chars.contains v || d.space v || (digits && d.digit v)) =
        true := by
  rw [List.any_eq_true]
  constructor
  · rintro ⟨item, allowed, reads⟩
    obtain ⟨v, variant, holds⟩ := List.any_eq_true.mp reads
    refine ⟨v, variant, ?_⟩
    cases item with
    | char x =>
      obtain rfl : v = x := of_decide_eq_true holds
      rw [show chars.contains v = true from allowed]
      rfl
    | space =>
      rw [show d.space v = true from holds, Bool.or_true]
      rfl
    | digit =>
      rw [show digits = true from allowed, show d.digit v = true from holds]
      simp
    | range | word => cases allowed
  · rintro ⟨v, variant, holds⟩
    rcases Bool.or_eq_true_iff.mp holds with char_or_space | digit
    · rcases Bool.or_eq_true_iff.mp char_or_space with char | space
      · exact ⟨.char v, char, List.any_eq_true.mpr ⟨v, variant, by simp [ClassItem.holds]⟩⟩
      · exact ⟨.space, rfl, List.any_eq_true.mpr ⟨v, variant, space⟩⟩
    · obtain ⟨some_digits, digit⟩ := Bool.and_eq_true_iff.mp digit
      exact ⟨.digit, some_digits, List.any_eq_true.mpr ⟨v, variant, digit⟩⟩

theorem literals_tier1 {chars : List Char} {digits : Bool}
    (among : ∀ x ∈ chars, x ∈ wordChars ++ ".[]/INST".toList) (item : ClassItem)
    (allowed : literals chars digits item = true) : tier1Items item = true := by
  cases item with
  | char x => exact List.contains_iff_mem.mpr (among x (List.contains_iff_mem.mp allowed))
  | space | digit => rfl
  | range | word => cases allowed

/-- What the ASCII tables do not read is not in a match. -/
theorem not_mem_of_unread (tables : InjectionTables u) {p : Pattern} {chars : List Char}
    {digits : Bool} (among : ∀ x ∈ chars, x ∈ wordChars ++ ".[]/INST".toList)
    (plain : p.plain (literals chars digits) = true) {before after : List Char}
    (spans : p.Spans u.toCharData true before w after) {c : Char} (ascii : c.toNat < 128)
    (unread : (Unicode.ascii.variants c).any (fun v => chars.contains v ||
      Unicode.ascii.space v || (digits && Unicode.ascii.digit v)) = false) : c ∉ w := by
  intro mem
  have fewer := @literals_tier1 chars digits among
  obtain ⟨item, allowed, reads⟩ := spans_readable plain spans c mem
  have read := readable_literals.mp
    ⟨item, allowed, tables.ascii c ascii item (fewer item allowed) reads⟩
  rw [unread] at read
  cases read

/-! ## The note behind a cut -/

def note (originalLength : Nat) : List Char :=
  s!"... [truncated, original: {originalLength} chars]".toList

theorem note_eq (n : Nat) : note n =
    "...".toList ++ (" [truncated, original: ".toList ++
      (Nat.toDigits 10 n ++ " chars]".toList)) := by
  simp [note, toString, String.toList_append]

theorem infix_beside_char {c : Char} (outside : c ∉ w) {left right : List Char}
    (inside : w <:+: left ++ c :: right) : w <:+: left ∨ w <:+: right := by
  obtain ⟨s, t, split⟩ := inside
  rcases List.append_eq_append_iff.mp split with ⟨a, rfl, -⟩ | ⟨a, first, second⟩
  · exact .inl ⟨s, a, rfl⟩
  · cases a with
    | nil => exact .inl ⟨s, [], by simpa using first⟩
    | cons c' a =>
      obtain ⟨rfl, rfl⟩ := List.cons.inj second
      rcases List.append_eq_append_iff.mp first with ⟨m, -, rfl⟩ | ⟨m, -, later⟩
      · exact absurd (List.mem_append_right m List.mem_cons_self) outside
      · cases m with
        | nil =>
          rw [List.nil_append] at later
          exact absurd (later ▸ List.mem_cons_self) outside
        | cons c' m =>
          obtain ⟨rfl, rfl⟩ := List.cons.inj later
          exact .inr ⟨m, t, rfl⟩

/-- A stretch on one side of what it does not contain. -/
theorem infix_beside {mid : List Char} (outside : ∀ c ∈ mid, c ∉ w) (some_mid : mid ≠ []) :
    ∀ {left right : List Char}, w <:+: left ++ (mid ++ right) → w <:+: left ∨ w <:+: right := by
  induction mid with
  | nil => exact absurd rfl some_mid
  | cons c mid ih =>
    intro left right inside
    rcases infix_beside_char (outside c List.mem_cons_self) inside with before | after
    · exact .inl before
    · by_cases last : mid = []
      · subst last
        exact .inr after
      · rcases @ih (fun c mem => outside c (List.mem_cons_of_mem _ mem)) last [] right after with
          none | after
        · rw [List.infix_nil.mp none]
          exact .inl List.nil_infix
        · exact .inr after

theorem mem_digits {c : Char} (digit : c.isDigit = true) : c ∈ "0123456789".toList := by
  have range : 48 ≤ c.toNat ∧ c.toNat ≤ 57 := by
    simpa [Char.isDigit, UInt32.le_iff_toNat_le] using digit
  obtain ⟨low, high⟩ := range
  have all : ∀ i ∈ List.range 10, Char.ofNat (48 + i) ∈ "0123456789".toList := by decide
  have at_c := all (c.toNat - 48) (List.mem_range.mpr (by omega))
  rwa [Nat.add_sub_cancel' low, Char.ofNat_toNat] at at_c

theorem noteItems_among : ∀ x ∈ wordChars ++ "[]/INST".toList,
    x ∈ wordChars ++ ".[]/INST".toList := by
  decide

/-- What reads neither points nor digits is not in the note. -/
theorem not_infix_note (tables : InjectionTables u) {p : Pattern}
    (plain : p.plain noteItems = true)
    (first : p.search Unicode.ascii.toCharData true " [truncated, original: ".toList = false)
    (second : p.search Unicode.ascii.toCharData true " chars]".toList = false)
    {before after : List Char} (spans : p.Spans u.toCharData true before w after) (n : Nat) :
    ¬ w <:+: note n := by
  intro inside
  have plain' := Pattern.plain_mono (literals_tier1 noteItems_among) plain
  have points : ∀ c ∈ "...".toList, c ∉ w := by
    intro c mem
    obtain rfl : c = '.' := by simpa using mem
    exact not_mem_of_unread tables noteItems_among plain spans (by decide) (by decide)
  have digits : ∀ c ∈ Nat.toDigits 10 n, c ∉ w := by
    have unread : ∀ c ∈ "0123456789".toList, c.toNat < 128 ∧
        (Unicode.ascii.variants c).any (fun v => (wordChars ++ "[]/INST".toList).contains v ||
          Unicode.ascii.space v || (false && Unicode.ascii.digit v)) = false := by
      decide
    intro c mem
    obtain ⟨ascii, unread⟩ :=
      unread c (mem_digits (Nat.isDigit_of_mem_toDigits (by decide) (by decide) mem))
    exact not_mem_of_unread tables noteItems_among plain spans ascii unread
  rw [note_eq] at inside
  have found : ∀ {text : List Char}, (∀ c ∈ text, c.toNat < 128) → w <:+: text →
      p.search Unicode.ascii.toCharData true text = true :=
    fun ascii inside => search_ascii_of_infix tables plain' ascii spans inside
  rcases @infix_beside w "...".toList points (by decide) [] _ inside with none | inside
  · have everywhere := @found " chars]".toList (by decide) (none.trans List.nil_infix)
    rw [second] at everywhere
    cases everywhere
  · rcases infix_beside digits Nat.toDigits_ne_nil inside with inside | inside
    · have found := found (by decide) inside
      rw [first] at found
      cases found
    · have found := found (by decide) inside
      rw [second] at found
      cases found

/-! ## A match without the point -/

/-- `danNumber` up to the digits. -/
def numbered : Pattern := seqs [lit "dan", star (.set false [.space]), digits 1 none]

theorem spans_danNumber_of_numbered {before after : List Char}
    (spans : numbered.Spans u.toCharData true before w after) :
    InjectionPattern.danNumber.pattern.Spans u.toCharData true before w after := by
  have none : ∀ (p : Pattern) (hi : Option Nat) (before after : List Char),
      (p.rep 0 hi).Spans u.toCharData true before [] after := fun p hi _ _ =>
    spans_rep.mpr ⟨0, Nat.le_refl 0, fun _ _ => Nat.zero_le _, .nil⟩
  obtain ⟨a, r, rfl, name, rest⟩ := spans_seq.mp spans
  obtain ⟨b, r, rfl, blank, rest⟩ := spans_seq.mp rest
  obtain ⟨c, r, rfl, number, rest⟩ := spans_seq.mp rest
  obtain rfl := spans_empty.mp rest
  refine spans_seq.mpr ⟨a, _, rfl, name, spans_seq.mpr ⟨b, _, rfl, blank, ?_⟩⟩
  refine spans_seq.mpr ⟨c, _, rfl, number, spans_seq.mpr ⟨[], [], rfl, none _ _ _ _, ?_⟩⟩
  exact spans_seq.mpr ⟨[], [], rfl, none _ _ _ _, spans_empty.mpr rfl⟩

theorem numbered_of_danNumber {before after : List Char}
    (spans : InjectionPattern.danNumber.pattern.Spans u.toCharData true before w after) :
    ∃ v rest, w = v ++ rest ∧ numbered.Spans u.toCharData true before v (rest ++ after) := by
  obtain ⟨a, r, rfl, name, rest⟩ := spans_seq.mp spans
  obtain ⟨b, r, rfl, blank, rest⟩ := spans_seq.mp rest
  obtain ⟨c, r, rfl, number, -⟩ := spans_seq.mp rest
  refine ⟨a ++ (b ++ (c ++ [])), r, by simp, ?_⟩
  refine spans_seq.mpr ⟨a, _, rfl, ?_, spans_seq.mpr ⟨b, _, rfl, ?_, spans_seq.mpr
    ⟨c, [], rfl, ?_, spans_empty.mpr rfl⟩⟩⟩
  · simpa using name
  · simpa using blank
  · simpa using number

/-- What a match comes down to. -/
structure Core (u : Unicode) (q : InjectionPattern) (w : List Char) : Prop where
  spans : q.pattern.Spans u.toCharData true [] w []
  point : '.' ∉ w
  closed : Closed w
  outside : ∀ n, ¬ w <:+: note n

/-- The characters of a literal are read one by one. -/
theorem reads_of_spans_lit {d : CharData} {text : String} {before after : List Char}
    (spans : (lit text).Spans d true before w after) :
    List.Forall₂ (fun x c => x ∈ d.variants c) text.toList w := by
  unfold lit at spans
  generalize text.toList = letters at spans ⊢
  induction letters generalizing before w with
  | nil =>
    rw [spans_empty.mp spans]
    exact .nil
  | cons x xs ih =>
    obtain ⟨a, b, rfl, first, rest⟩ := spans_seq.mp spans
    obtain ⟨c, rfl, holds⟩ := spans_set.mp first
    rw [Bool.bne_false, classHolds_true_iff] at holds
    obtain ⟨item, mem, reads⟩ := holds
    obtain rfl := List.mem_singleton.mp mem
    exact .cons (reads_char.mp reads) (ih rest)

theorem exists_of_forall₂ {α β : Type} {R : α → β → Prop} {xs : List α} {ys : List β}
    (related : List.Forall₂ R xs ys) : ∀ y ∈ ys, ∃ x ∈ xs, R x y := by
  induction related with
  | nil =>
    intro y mem
    cases mem
  | cons first _ ih =>
    intro y mem
    rcases List.mem_cons.mp mem with rfl | later
    · exact ⟨_, List.mem_cons_self, first⟩
    · obtain ⟨x, mem, related⟩ := ih y later
      exact ⟨x, List.mem_cons_of_mem _ mem, related⟩

/-- The tag in brackets. -/
theorem closed_of_tag (tables : InjectionTables u) {name : List Char}
    (letters : ∀ x ∈ name, x ∈ "/INST".toList)
    (reads : List.Forall₂ (fun x c => x ∈ u.variants c) ('[' :: name ++ [']']) w) : Closed w := by
  have tag : ∀ c ∈ "[]".toList, ∀ x ∈ "/INST".toList, x ∉ u.variants c := by
    have others : ∀ c ∈ "[]".toList, c.toNat < 128 ∧ ∀ x ∈ "/INST".toList,
        tier1Items (.char x) = true ∧ x ∉ Unicode.ascii.variants c := by
      decide
    intro c mem x mem_x variant
    obtain ⟨ascii, others⟩ := others c mem
    obtain ⟨allowed, other⟩ := others x mem_x
    exact other (reads_char.mp (tables.ascii c ascii _ allowed (reads_char.mpr variant)))
  cases reads with
  | @cons _ c _ rest opening reads =>
    obtain rfl := tables.bracket c opening
    have flipped : List.Forall₂ (fun c x => x ∈ u.variants c) rest (name ++ [']']) := reads.flip
    have inner := List.forall₂_take_append rest name [']'] flipped
    have closing := List.forall₂_drop_append rest name [']'] flipped
    rw [← List.take_append_drop name.length rest]
    generalize rest.take name.length = inner' at inner
    generalize rest.drop name.length = last at closing
    cases closing with
    | cons closing none =>
      cases none
      obtain rfl := tables.bracket' _ closing
      have no_bracket : ∀ c ∈ "[]".toList, c ∉ inner' := by
        intro c mem mem_inner
        obtain ⟨x, mem_x, variant⟩ := exists_of_forall₂ inner.flip c mem_inner
        exact tag c mem x (letters x mem_x) variant
      exact closed_of_brackets (no_bracket '[' (by decide)) (no_bracket ']' (by decide))

theorem closed_of_instTag (tables : InjectionTables u) {before after : List Char}
    (spans : InjectionPattern.instTag.pattern.Spans u.toCharData true before w after) :
    Closed w := by
  rcases spans_alt.mp spans with spans | spans
  · exact @closed_of_tag u w tables "INST".toList (by decide) (reads_of_spans_lit spans)
  · exact @closed_of_tag u w tables "/INST".toList (by decide) (reads_of_spans_lit spans)

theorem core_of_numbered (tables : InjectionTables u) {before after : List Char}
    (spans : numbered.Spans u.toCharData true before w after) : Core u .danNumber w := by
  have plain : numbered.plain (literals wordChars true) = true := by decide
  have among : ∀ x ∈ wordChars, x ∈ wordChars ++ ".[]/INST".toList := by decide
  have unread : ∀ c ∈ ".[]".toList, c ∉ w := by
    have none : ∀ c ∈ ".[]".toList, c.toNat < 128 ∧ (Unicode.ascii.variants c).any (fun v =>
        wordChars.contains v || Unicode.ascii.space v || (true && Unicode.ascii.digit v)) =
          false := by
      decide
    intro c mem
    exact not_mem_of_unread tables among plain spans (none c mem).1 (none c mem).2
  refine ⟨?_, unread '.' (by decide), closed_of_not_mem (unread '[' (by decide))
    (unread ']' (by decide)), fun n inside => ?_⟩
  · exact spans_anywhere (tier1_plain .danNumber (by decide) rfl)
      (spans_danNumber_of_numbered spans)
  · obtain ⟨name, rest, rfl, first, -⟩ := spans_seq.mp spans
    exact not_infix_note tables (by decide) (by decide) (by decide) first n
      ((List.prefix_append name rest).isInfix.trans inside)

/-- A match of a Tier 1 pattern begins with one that has all that. -/
theorem exists_core (tables : InjectionTables u) (halts : q.halts = true)
    {before after : List Char} (spans : q.pattern.Spans u.toCharData true before w after) :
    ∃ v rest, w = v ++ rest ∧ Core u q v := by
  by_cases number : q = .danNumber
  · subst number
    obtain ⟨v, rest, rfl, numbered⟩ := numbered_of_danNumber spans
    exact ⟨v, rest, rfl, core_of_numbered tables numbered⟩
  · obtain ⟨plain, first, second⟩ :=
      tier1_not_in_note q (injectionPattern_mem_all q) halts number
    refine ⟨w, [], (List.append_nil w).symm, spans_anywhere plain spans, ?_, ?_, ?_⟩
    · exact not_mem_of_unread tables noteItems_among plain spans (by decide) (by decide)
    · by_cases tag : q = .instTag
      · subst tag
        exact closed_of_instTag tables spans
      · have words := tier1_words q (injectionPattern_mem_all q) halts tag number
        have among : ∀ x ∈ wordChars, x ∈ wordChars ++ ".[]/INST".toList := by decide
        exact closed_of_not_mem
          (not_mem_of_unread tables among words spans (by decide) (by decide))
          (not_mem_of_unread tables among words spans (by decide) (by decide))
    · exact not_infix_note tables plain first second spans

/-! ## Back through the substitutions -/

theorem replacement_brackets (p : PiiPattern) :
    ∃ inner, p.replacement.toList = '[' :: inner ++ [']'] := by
  cases p
  case email => exact ⟨"EMAIL".toList, rfl⟩
  case phone => exact ⟨"PHONE".toList, rfl⟩
  case ssn => exact ⟨"SSN".toList, rfl⟩
  case card => exact ⟨"CARD".toList, rfl⟩
  case apiKey => exact ⟨"API_KEY".toList, rfl⟩
  case dbDsn => exact ⟨"DB_DSN".toList, rfl⟩
  case privateIp => exact ⟨"PRIVATE_IP".toList, rfl⟩
  case homePath => exact ⟨"HOME_PATH".toList, rfl⟩

theorem Core.apart (tables : InjectionTables u) (halts : q.halts = true) (core : Core u q w)
    (p : PiiPattern) : Apart p.replacement.toList w := by
  have outside : ¬ w <:+: p.replacement.toList := by
    intro inside
    have ascii : ∀ c ∈ p.replacement.toList, c.toNat < 128 := by cases p <;> decide
    have found := search_ascii_of_infix tables
      (tier1_plain q (injectionPattern_mem_all q) halts) ascii core.spans inside
    rw [tier1_not_in_marks q (injectionPattern_mem_all q) halts p (piiPattern_mem_all p)] at found
    cases found
  obtain ⟨inner, brackets⟩ := replacement_brackets p
  rw [brackets] at outside ⊢
  exact apart_of_closed core.closed outside

/-- A match neither begins nor ends with a blank or a line end. -/
theorem Core.edges (tables : InjectionTables u) (halts : q.halts = true) (core : Core u q w)
    (first : Bool) : ∀ c ∈ edgeOf first w, c ∉ [' ', '\n'] := by
  intro c edge mem
  have plain := tier1_plain q (injectionPattern_mem_all q) halts
  have read := spans_edge first plain core.spans
  rw [show edgeOf first w = some c from edge] at read
  obtain ⟨item, mem_item, reads⟩ := read
  obtain ⟨allowed, unread⟩ := tier1_edges q (injectionPattern_mem_all q) halts first item mem_item
  have ascii : c.toNat < 128 := by
    have all : ∀ c ∈ [' ', '\n'], c.toNat < 128 := by decide
    exact all c mem
  exact unread c mem (tables.ascii c ascii item allowed reads)

/-- A stretch that is apart from the marks has come through all the substitutions. -/
theorem keptThrough_of_result {ps : List PiiPattern} : ∀ {text x y : List Char},
    (∀ p ∈ ps, Apart p.replacement.toList w) →
    ps.foldl (fun text p => p.pattern.sub u.toCharData false p.replacement.toList text) text =
      x ++ w ++ y →
    ∃ around : List Char × List Char, text = around.1 ++ w ++ around.2 ∧
      KeptThrough u w ps around (x, y) := by
  induction ps with
  | nil =>
    intro text x y _ result
    exact ⟨(x, y), result, rfl⟩
  | cons p ps ih =>
    intro text x y apart result
    obtain ⟨next, step, later⟩ := ih (fun q mem => apart q (List.mem_cons_of_mem p mem)) result
    obtain ⟨around, source, keeps⟩ := keeps_of_sub (apart p List.mem_cons_self) step
    exact ⟨around, source, next, keeps, later⟩

/-- The cut keeps what is short enough. -/
theorem truncateField_start {n : Nat} {start rest : List Char}
    (short : start.length ≤ maxFieldLength) :
    ∃ rest', truncateField n (start ++ rest) = start ++ rest' := by
  rcases truncateField_append short rest with whole | cut
  · exact ⟨rest, whole⟩
  · exact ⟨_, cut⟩

/-- A match behind the cut stood before it. -/
theorem before_cut (core : Core u q w) {n : Nat} {text x y : List Char}
    (copy : truncateField n text = x ++ w ++ y) :
    (∃ y', text = x ++ w ++ y') ∧ x.length + w.length ≤ maxFieldLength := by
  unfold truncateField at copy
  split at copy
  · next long =>
    have full : (text.take maxFieldLength).length = maxFieldLength := by
      rw [List.length_take]
      omega
    have copy : text.take maxFieldLength ++ note n = x ++ w ++ y := copy
    -- nothing of the match is in the note
    have within : x ++ w <+: text.take maxFieldLength := by
      rcases List.append_eq_append_iff.mp copy with ⟨a, split, note_split⟩ | ⟨a, split, -⟩
      · cases a with
        | nil => exact ⟨[], by rw [List.append_nil, split, List.append_nil]⟩
        | cons c a =>
          have point : c = '.' := by
            rw [note_eq] at note_split
            exact (List.cons.inj note_split).1.symm
          rcases List.append_eq_append_iff.mp split with ⟨m, -, whole⟩ | ⟨m, -, whole⟩
          · subst point
            exact absurd (whole ▸ List.mem_append_right m List.mem_cons_self) core.point
          · exact absurd ⟨m, y, by rw [note_split, whole]⟩ (core.outside n)
      · exact ⟨a, split.symm⟩
    obtain ⟨z, within⟩ := within
    constructor
    · refine ⟨z ++ text.drop maxFieldLength, ?_⟩
      rw [← List.append_assoc, within, List.take_append_drop]
    · have size := congrArg List.length within
      rw [List.length_append, List.length_append, full] at size
      omega
  · next short =>
    refine ⟨⟨y, copy⟩, ?_⟩
    have size := congrArg List.length copy
    rw [List.length_append, List.length_append] at size
    omega

/-- A match of a Tier 1 pattern that ends within the limit. -/
def Tier1Within (u : Unicode) (limit : Nat) (text : List Char) : Prop :=
  ∃ q : InjectionPattern, q.halts = true ∧ ∃ x w y, text = x ++ w ++ y ∧
    x.length + w.length ≤ limit ∧ q.pattern.Spans u.toCharData true [] w []

/-- Up to a limit that the cut keeps, the clean copy has a Tier 1 pattern exactly if the text
has a match of one that is kept. -/
theorem tier1Within_cleanCopy_iff (tables : InjectionTables u) {limit : Nat}
    (le : limit ≤ maxFieldLength) {text : String} :
    Tier1Within u limit (cleanCopy u text).toList ↔ InjectionKept u limit text.toList := by
  rw [Tier1Within, cleanCopy_eq, String.toList_ofList]
  constructor
  · rintro ⟨q, halts, x, w, y, copy, short, spans⟩
    obtain ⟨v, rest, rfl, core⟩ := exists_core tables halts spans
    have copy : truncateField text.toList.length (redactPii u text.toList) =
        x ++ v ++ (rest ++ y) := by
      rw [copy]
      simp
    obtain ⟨⟨y', redacted⟩, -⟩ := before_cut core copy
    obtain ⟨around, split, kept⟩ := keptThrough_of_result
      (fun p _ => core.apart tables halts p) redacted
    have plain := tier1_plain q (injectionPattern_mem_all q) halts
    refine ⟨q, halts, around.1, v, around.2, (x, y'), split, spans_anywhere plain core.spans,
      kept, ?_⟩
    rw [List.length_append] at short
    show x.length + v.length ≤ limit
    omega
  · rintro ⟨q, halts, before, w, after, around', split, spans, kept, short⟩
    have plain := tier1_plain q (injectionPattern_mem_all q) halts
    have redacted : redactPii u text.toList = around'.1 ++ w ++ around'.2 := by
      rw [split]
      exact kept.redact
    obtain ⟨y, copy⟩ : ∃ y, truncateField text.toList.length (around'.1 ++ w ++ around'.2) =
        around'.1 ++ w ++ y :=
      truncateField_start (Nat.le_trans (by rw [List.length_append]; exact short) le)
    exact ⟨q, halts, around'.1, w, y, by rw [redacted, copy], short, spans_anywhere plain spans⟩

theorem hasTier1_iff {text : List Char} : HasTier1 u text ↔
    ∃ q : InjectionPattern, q.halts = true ∧ ∃ x w y, text = x ++ w ++ y ∧
      q.pattern.Spans u.toCharData true [] w [] := by
  constructor
  · rintro ⟨q, halts, found⟩
    exact ⟨q, halts, (search_iff (tier1_plain q (injectionPattern_mem_all q) halts)).mp found⟩
  · rintro ⟨q, halts, found⟩
    exact ⟨q, halts, (search_iff (tier1_plain q (injectionPattern_mem_all q) halts)).mpr found⟩

/-- The clean copy has a Tier 1 pattern exactly if the text has a match of one that is kept. -/
theorem tier1_cleanCopy_iff (tables : InjectionTables u) (text : String) :
    HasTier1 u (cleanCopy u text).toList ↔ InjectionKept u maxFieldLength text.toList := by
  rw [← tier1Within_cleanCopy_iff tables (Nat.le_refl maxFieldLength), hasTier1_iff]
  constructor
  · rintro ⟨q, halts, x, w, y, copy, spans⟩
    obtain ⟨v, rest, rfl, core⟩ := exists_core tables halts spans
    have copy : (cleanCopy u text).toList = x ++ v ++ (rest ++ y) := by
      rw [copy]
      simp
    have copy' := copy
    rw [cleanCopy_eq, String.toList_ofList] at copy'
    exact ⟨q, halts, x, v, rest ++ y, copy, (before_cut core copy').2, core.spans⟩
  · rintro ⟨q, halts, x, w, y, copy, -, spans⟩
    exact ⟨q, halts, x, w, y, copy, spans⟩

end

theorem eq_of_cased {b c : Char} (other : b.isAlpha = false)
    (cased : b ∈ [c.toLower, c.toUpper]) : c = b := by
  rcases List.mem_cons.mp cased with rfl | cased
  · unfold Char.toLower at other ⊢
    by_cases upper : c.val ≥ 'A'.val ∧ c.val ≤ 'Z'.val
    · rw [dif_pos upper] at other
      have not_lower := Bool.and_eq_false_iff.mp (Bool.or_eq_false_iff.mp other).2
      simp [UInt32.le_iff_toNat_le] at not_lower upper
      omega
    · rw [dif_neg upper]
  · obtain rfl := List.mem_singleton.mp cased
    unfold Char.toUpper at other ⊢
    by_cases lower : c.val ≥ 'a'.val ∧ c.val ≤ 'z'.val
    · rw [dif_pos lower] at other
      have not_upper := of_decide_eq_false (Bool.or_eq_false_iff.mp other).1
      simp [UInt32.le_iff_toNat_le] at not_upper lower
      omega
    · rw [dif_neg lower]

theorem ascii_injectionTables : InjectionTables .ascii where
  ascii _ _ _ _ := id
  bracket _ := eq_of_cased (by decide)
  bracket' _ := eq_of_cased (by decide)
  newline := by decide
  blank := by decide

end LegionForge.Agent
