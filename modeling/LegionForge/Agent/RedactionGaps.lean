import LegionForge.Agent.SurvivingInjection
import LegionForge.Lib.Leftmost

/-!
# What redaction leaves behind

Eight substitutions, one after the other, each of which takes every match of its pattern. A
match in the end is one that a later substitution has made. Most cannot: they work between
word boundaries, and a mark in brackets there makes no new ones. The connection string and
the home path do without, so a number before the one or behind the other becomes a match when
the mark takes the place of the letter next to it. And a password that is too long for a
connection string may be shortened by the marks within.

`redaction_complete_iff` says that these are the only ways.
-/

namespace LegionForge.Agent

open Security Regex

/-! ## Between the substitutions -/

section
variable (u : Unicode)

/-- One substitution. -/
def redactOne (p : PiiPattern) (text : List Char) : List Char :=
  p.pattern.sub u.toCharData false p.replacement.toList text

/-- The text that the substitution for `p` is given. -/
def textBefore (p : PiiPattern) (text : List Char) : List Char :=
  (PiiPattern.all.takeWhile (· ≠ p)).foldl (fun text p => redactOne u p text) text

/-- What a substitution makes of its text, in pieces. -/
def piecesOf (p : PiiPattern) (text : List Char) : List Piece :=
  p.pattern.pieces u.toCharData false text

/-- What stands in the result for the pieces. -/
def resultOf (p : PiiPattern) (pieces : List Piece) : List Char :=
  pieces.flatMap (Piece.result p.replacement.toList)

def sourceOf (pieces : List Piece) : List Char := pieces.flatMap Piece.source

end

/-! ## What may go wrong -/

/-- A number right before a connection string, which is one but for the letter behind it, and
which the later substitutions keep. -/
def NumberBeforeDsn (u : Unicode) (text : List Char) : Prop :=
  ∃ q ∈ [PiiPattern.phone, .ssn, .card], ∃ left w m right around,
    piecesOf u .dbDsn text = left ++ w.map .kept ++ .replaced m :: right ∧
    q.pattern.Spans u.toCharData false (sourceOf left).reverse w [] ∧
    w.head?.any u.word = true ∧
    KeptThrough u w [.privateIp, .homePath]
      (resultOf .dbDsn left, resultOf .dbDsn (.replaced m :: right)) around

/-- Something right behind a home path that is a match but for the letter before it. -/
def MatchBehindHome (u : Unicode) (text : List Char) : Prop :=
  ∃ q : PiiPattern, q ≠ .dbDsn ∧ q ≠ .homePath ∧ ∃ left m w right,
    piecesOf u .homePath text = left ++ .replaced m :: (w.map .kept ++ right) ∧
    q.pattern.Spans u.toCharData false [] w (sourceOf right)

def schemes : List String := ["postgresql", "postgres", "mysql", "mongodb", "redis", "sqlite"]

/-- `scheme://user` -/
def userParts : List Pattern :=
  [words schemes, lit "://", star (.set false ([.range 'A' 'Z', .range 'a' 'z', .range '0' '9'] ++
    "_.%+-".toList.map .char))]

def dsnUser : Pattern := seqs userParts

/-- What a host may be made of. -/
def HostChar (u : Unicode) (c : Char) : Prop :=
  u.space c = false ∧ c ≠ '"' ∧ c ≠ '\'' ∧ c ≠ '\x60'

/-- What a password may be made of. -/
def PasswordChar (u : Unicode) (c : Char) : Prop := u.space c = false ∧ c ≠ '@'

/-- A password that a connection string may have. -/
structure Password (u : Unicode) (text : List Char) : Prop where
  some_text : text ≠ []
  short : text.length ≤ 64
  chars : ∀ c ∈ text, PasswordChar u c

/-- The beginning of a connection string, up to a colon, that stays, and behind it a stretch
up to an `@` that stays, of which the substitutions make a password. -/
def PasswordShortened (u : Unicode) (text : List Char) : Prop :=
  ∃ before user long rest before' short rest',
    text = before ++ (user ++ [':']) ++ (long ++ '@' :: rest) ∧
    dsnUser.Spans u.toCharData false [] user [] ∧
    KeptThrough u (user ++ [':']) [.dbDsn, .privateIp, .homePath]
      (before, long ++ '@' :: rest) (before', short ++ '@' :: rest') ∧
    KeptThrough u ['@'] [.dbDsn, .privateIp, .homePath]
      (before ++ (user ++ [':']) ++ long, rest) (before' ++ (user ++ [':']) ++ short, rest') ∧
    Password u short ∧ ∃ c ∈ rest'.head?, HostChar u c

/-- The tables say of ASCII characters what they say in Python, and that white space is in no
word. -/
structure RedactionTables (u : Unicode) : Prop extends TextTables u where
  asciiDigit : ∀ c : Char, c.toNat < 128 → u.digit c = Unicode.ascii.digit c
  asciiSpace : ∀ c : Char, c.toNat < 128 → u.space c = Unicode.ascii.space c
  asciiWord : ∀ c : Char, c.toNat < 128 → u.word c = Unicode.ascii.word c
  spaceWord : ∀ c, u.space c = true → u.word c = false

/-! ## What the patterns read -/

/-- The item reads none of the characters. -/
def readsNone (chars : List Char) (item : ClassItem) : Bool :=
  chars.all fun c => !item.holds Unicode.ascii.toCharData c

def markChars : List Char := PiiPattern.all.flatMap (·.replacement.toList)

section
variable {u : Unicode} {p : Pattern} {before w after : List Char}

theorem readable_exact {allowed : ClassItem → Bool} {c : Char} :
    Readable allowed u.toCharData.exact c ↔
      ∃ item, allowed item = true ∧ item.holds u.toCharData c = true := by
  simp [Readable, Reads, CharData.exact]
  rfl

theorem holds_ascii (tables : RedactionTables u) {c : Char} (ascii : c.toNat < 128)
    (item : ClassItem) :
    item.holds u.toCharData c = item.holds Unicode.ascii.toCharData c := by
  cases item with
  | char x => rfl
  | range lo hi => rfl
  | space => exact tables.asciiSpace c ascii
  | digit => exact tables.asciiDigit c ascii
  | word => exact tables.asciiWord c ascii

theorem not_readable (tables : RedactionTables u) {chars : List Char} {c : Char}
    (ascii : c.toNat < 128) (mem : c ∈ chars) :
    ¬ Readable (readsNone chars) u.toCharData.exact c := by
  intro readable
  obtain ⟨item, none, holds⟩ := readable_exact.mp readable
  have none := List.all_eq_true.mp none c mem
  rw [← holds_ascii tables ascii item, holds] at none
  cases none

theorem markChars_ascii : ∀ c ∈ markChars, c.toNat < 128 := by
  decide

/-- A stretch without brackets that has a character that no mark has. -/
theorem apart_of_foreign (opening : '[' ∉ w) (closing : ']' ∉ w)
    (foreign : ∃ c ∈ w, c ∉ markChars) (q : PiiPattern) : Apart q.replacement.toList w := by
  obtain ⟨c, mem, foreign⟩ := foreign
  have outside : ¬ w <:+: q.replacement.toList := by
    intro inside
    refine foreign (List.mem_flatMap.mpr ⟨q, piiPattern_mem_all q, ?_⟩)
    exact inside.subset mem
  obtain ⟨inner, brackets⟩ := replacement_brackets q
  rw [brackets] at outside ⊢
  exact apart_of_closed (closed_of_not_mem opening closing) outside

/-- What reads no bracket, and in every match something that no mark has. -/
theorem apart_of_spans (tables : RedactionTables u) (plain : p.plain (readsNone ['[', ']']) = true)
    (needs : p.needs (readsNone markChars) = true)
    (spans : p.Spans u.toCharData false before w after) (q : PiiPattern) :
    Apart q.replacement.toList w := by
  have spans := spans_exact.mp spans
  have brackets : ∀ c ∈ ['[', ']'], c ∉ w := by
    have ascii : ∀ c ∈ ['[', ']'], c.toNat < 128 := by decide
    intro c mem inside
    exact not_readable tables (ascii c mem) mem (spans_readable plain spans c inside)
  obtain ⟨c, mem, readable⟩ := spans_needs needs spans
  refine apart_of_foreign (brackets '[' (by simp)) (brackets ']' (by simp)) ⟨c, mem, ?_⟩ q
  intro in_mark
  exact not_readable tables (markChars_ascii c in_mark) in_mark readable

end

/-! ## Between word boundaries -/

/-- The patterns that `seqs` puts one after the other. -/
def parts : Pattern → List Pattern
  | .seq p q => p :: parts q
  | _ => []

/-- The patterns between word boundaries. -/
def enclosed : List PiiPattern := [.email, .phone, .ssn, .card, .apiKey, .privateIp]

/-- What is between the boundaries. -/
def inner (q : PiiPattern) : List Pattern :=
  match q with
  | .privateIp => (parts q.pattern).tail.tail.dropLast
  | _ => (parts q.pattern).tail.dropLast

theorem pattern_bounded : ∀ q ∈ enclosed, q ≠ .privateIp → q.pattern = bounded (inner q) := by
  intro q mem other
  simp only [enclosed, List.mem_cons, List.not_mem_nil, or_false] at mem
  rcases mem with rfl | rfl | rfl | rfl | rfl | rfl
  · rfl
  · rfl
  · rfl
  · rfl
  · rfl
  · exact absurd rfl other

theorem privateIp_bounded : PiiPattern.privateIp.pattern =
    .seq (.notBehind "://".toList) (bounded (inner .privateIp)) :=
  rfl

theorem inner_checked : ∀ q ∈ enclosed, (seqs (inner q)).plain (readsNone ['[', ']']) = true ∧
    (seqs (inner q)).needs (readsNone markChars) = true := by
  decide +kernel

theorem pattern_reads (p : PiiPattern) : p.pattern.reads = true := by
  cases p <;> decide

section
variable {u : Unicode} {p q : PiiPattern} {before w after text : List Char}

theorem inner_anywhere (mem : q ∈ enclosed) {before' after' : List Char}
    (spans : (seqs (inner q)).Spans u.toCharData false before w after) :
    (seqs (inner q)).Spans u.toCharData false before' w after' :=
  spans_anywhere_exact (inner_checked q mem).1 spans

theorem spans_notBehind_iff {d : CharData} {s : List Char} :
    (Pattern.notBehind s).Spans d false before w after ↔ w = [] ∧ ¬ s.reverse <+: before := by
  constructor
  · intro spans
    obtain rfl := spans_notBehind spans
    refine ⟨rfl, fun behind => ?_⟩
    unfold Pattern.Spans Pattern.ends at spans
    rw [if_pos (List.isPrefixOf_iff_prefix.mpr behind)] at spans
    cases spans
  · rintro ⟨rfl, free⟩
    unfold Pattern.Spans Pattern.ends
    rw [if_neg (by rwa [List.isPrefixOf_iff_prefix])]
    exact List.mem_singleton_self _

/-- A match between boundaries, with what it asks of its neighbours. -/
theorem spans_enclosed (mem : q ∈ enclosed) :
    q.pattern.Spans u.toCharData false before w after ↔
      w ≠ [] ∧ (q = .privateIp → ¬ "://".toList.reverse <+: before) ∧
        AtEdge u.toCharData before w ∧ (seqs (inner q)).Spans u.toCharData false [] w [] ∧
        AtEdge u.toCharData w.reverse after := by
  have core : (bounded (inner q)).Spans u.toCharData false before w after ∧ w ≠ [] ↔
      w ≠ [] ∧ AtEdge u.toCharData before w ∧ (seqs (inner q)).Spans u.toCharData false [] w [] ∧
        AtEdge u.toCharData w.reverse after := by
    rw [spans_bounded]
    constructor
    · rintro ⟨⟨edge, spans, edge'⟩, some_text⟩
      rw [atEdge_append_right some_text] at edge
      rw [atEdge_append_left some_text] at edge'
      exact ⟨some_text, edge, inner_anywhere mem spans, edge'⟩
    · rintro ⟨some_text, edge, spans, edge'⟩
      rw [atEdge_append_right some_text, atEdge_append_left some_text]
      exact ⟨⟨edge, inner_anywhere mem spans, edge'⟩, some_text⟩
  by_cases ip : q = .privateIp
  · subst ip
    constructor
    · intro spans
      have some_text := spans_reads (pattern_reads .privateIp) spans
      rw [privateIp_bounded] at spans
      obtain ⟨a, b, rfl, first, spans⟩ := spans_seq.mp spans
      obtain ⟨rfl, free⟩ := spans_notBehind_iff.mp first
      obtain ⟨-, rest⟩ := core.mp ⟨spans, some_text⟩
      exact ⟨some_text, fun _ => free, rest⟩
    · rintro ⟨some_text, free, rest⟩
      rw [privateIp_bounded]
      refine spans_seq.mpr ⟨[], w, rfl, spans_notBehind_iff.mpr ⟨rfl, free rfl⟩, ?_⟩
      exact (core.mpr ⟨some_text, rest⟩).1
  · rw [pattern_bounded q mem ip]
    constructor
    · intro spans
      have some_text : w ≠ [] := by
        rw [← pattern_bounded q mem ip] at spans
        exact spans_reads (pattern_reads q) spans
      obtain ⟨-, rest⟩ := core.mp ⟨spans, some_text⟩
      exact ⟨some_text, fun same => absurd same ip, rest⟩
    · rintro ⟨some_text, -, rest⟩
      exact (core.mpr ⟨some_text, rest⟩).1

theorem enclosed_wordwise (mem : q ∈ enclosed) : q.pattern.Wordwise u.toCharData false := by
  intro before m after spans
  obtain ⟨some_text, -, edge, -, edge'⟩ := (spans_enclosed mem).mp spans
  rw [atEdge_append_right some_text, atEdge_append_left some_text]
  exact ⟨edge, edge'⟩

theorem apart_of_enclosed (tables : RedactionTables u) (mem : q ∈ enclosed)
    (spans : q.pattern.Spans u.toCharData false before w after) (p : PiiPattern) :
    Apart p.replacement.toList w := by
  obtain ⟨-, -, -, spans, -⟩ := (spans_enclosed mem).mp spans
  exact apart_of_spans tables (inner_checked q mem).1 (inner_checked q mem).2 spans p

/-! ## One substitution back -/

/-- What is apart from the mark has been kept. -/
theorem pieces_of_redactOne (apart : Apart p.replacement.toList w) {x y : List Char}
    (result : redactOne u p text = x ++ w ++ y) :
    ∃ left right, piecesOf u p text = left ++ w.map .kept ++ right ∧
      resultOf p left = x ∧ resultOf p right = y := by
  refine pieces_of_result apart ?_
  rw [← result]
  exact piecesFrom_result

theorem source_piecesOf : sourceOf (piecesOf u p text) = text := piecesFrom_source

theorem sourceOf_kept (left right : List Piece) :
    sourceOf (left ++ w.map .kept ++ right) = sourceOf left ++ w ++ sourceOf right := by
  unfold sourceOf
  rw [List.flatMap_append, List.flatMap_append, flatMap_kept w fun _ => rfl]

/-- Between boundaries nothing becomes a match: what is one in the result of such a
substitution was one in its text. -/
theorem back_enclosed (tables : RedactionTables u) (mem_p : p ∈ enclosed) (mem : q ∈ enclosed)
    (other : q ≠ .privateIp) {x y : List Char} (result : redactOne u p text = x ++ w ++ y)
    (spans : q.pattern.Spans u.toCharData false x.reverse w y) :
    ∃ left right, piecesOf u p text = left ++ w.map .kept ++ right ∧
      resultOf p left = x ∧ resultOf p right = y ∧
      q.pattern.Spans u.toCharData false (sourceOf left).reverse w (sourceOf right) := by
  obtain ⟨left, right, split, rfl, rfl⟩ :=
    pieces_of_redactOne (apart_of_enclosed tables mem spans p) result
  obtain ⟨some_text, -, edge, inside, edge'⟩ := (spans_enclosed mem).mp spans
  refine ⟨left, right, split, rfl, rfl, (spans_enclosed mem).mpr ⟨some_text, ?_, ?_, inside, ?_⟩⟩
  · exact fun same => absurd same other
  · exact edge_before (pattern_reads p) (enclosed_wordwise mem_p) some_text split edge
  · exact edge_behind (pattern_reads p) (enclosed_wordwise mem_p) some_text split edge'

/-- There is no match of the pattern anywhere. -/
def NoMatch (u : Unicode) (q : PiiPattern) (text : List Char) : Prop :=
  ∀ x w y, text = x ++ w ++ y → ¬ q.pattern.Spans u.toCharData false x.reverse w y

theorem search_eq_false_iff : q.pattern.search u.toCharData false text = false ↔
    NoMatch u q text := by
  rw [← Bool.not_eq_true, search_exact_iff]
  constructor
  · intro none x w y split spans
    exact none ⟨x, w, y, split, spans⟩
  · rintro none ⟨x, w, y, split, spans⟩
    exact none x w y split spans

/-- No match is kept by the substitution for the pattern. -/
theorem not_spans_of_own {left right : List Piece}
    (split : piecesOf u q text = left ++ w.map .kept ++ right) (some_text : w ≠ [])
    {v rest : List Char} (here : w ++ sourceOf right = v ++ rest) :
    ¬ q.pattern.Spans u.toCharData false (sourceOf left).reverse v rest := by
  obtain ⟨c, w, rfl⟩ := List.exists_cons_of_ne_nil some_text
  exact not_spans_of_kept (pattern_reads q) split here

/-- The first five substitutions. -/
def early : List PiiPattern := [.email, .phone, .ssn, .card, .apiKey]

theorem early_enclosed : ∀ q ∈ early, q ∈ enclosed ∧ q ≠ .privateIp := by
  decide

theorem noMatch_redactOne (tables : RedactionTables u) (mem_p : p ∈ early) (mem : q ∈ early)
    (none : q = p ∨ NoMatch u q text) : NoMatch u q (redactOne u p text) := by
  intro x w y result spans
  obtain ⟨enclosed_q, other⟩ := early_enclosed q mem
  obtain ⟨left, right, split, -, -, spans⟩ :=
    back_enclosed tables (early_enclosed p mem_p).1 enclosed_q other result spans
  rcases none with rfl | none
  · exact not_spans_of_own split (spans_reads (pattern_reads q) spans) rfl spans
  · refine none _ w (sourceOf right) ?_ spans
    rw [← sourceOf_kept, ← split, source_piecesOf]

/-- None of the first five has a match in what they leave. -/
theorem noMatch_textBefore (tables : RedactionTables u) (mem : q ∈ early) :
    NoMatch u q (textBefore u .dbDsn text) := by
  have all : ∀ (ps : List PiiPattern), (∀ p ∈ ps, p ∈ early) → ∀ text : List Char,
      q ∈ ps ∨ NoMatch u q text →
      NoMatch u q (ps.foldl (fun text p => redactOne u p text) text) := by
    intro ps
    induction ps with
    | nil =>
      intro _ text none
      rcases none with mem | none
      · cases mem
      · exact none
    | cons p ps ih =>
      intro sub text none
      refine ih (fun p mem => sub p (List.mem_cons_of_mem _ mem)) (redactOne u p text) ?_
      rcases none with mem_ps | none
      · rcases List.mem_cons.mp mem_ps with rfl | later
        · exact .inr (noMatch_redactOne tables mem mem (.inl rfl))
        · exact .inl later
      · exact .inr (noMatch_redactOne tables (sub p List.mem_cons_self) mem (.inr none))
  exact all early (fun _ => id) text (.inl mem)

end

/-! ## Connection strings -/

def hostItems : List ClassItem := [.space, .char '"', .char '\'', .char '\x60']

def passwordItems : List ClassItem := [.char '@', .space]

def passwordPart : Pattern := seqs [lit ":", .rep (.set true passwordItems) 1 (some 64)]

theorem dbDsn_pattern : PiiPattern.dbDsn.pattern =
    seqs (userParts ++ [opt passwordPart, lit "@", .rep (.set true hostItems) 1 none]) :=
  rfl

theorem dsnUser_checked : dsnUser.plain (readsNone ['[', ']']) = true ∧
    dsnUser.needs (readsNone markChars) = true := by
  decide +kernel

/-- What a connection string may have for its host. -/
structure Host (u : Unicode) (text : List Char) : Prop where
  some_text : text ≠ []
  chars : ∀ c ∈ text, HostChar u c

section
variable {u : Unicode} {before w after text : List Char}

theorem hostChar_iff {c : Char} :
    (classHolds u.toCharData false hostItems c != true) = true ↔ HostChar u c := by
  simp [classHolds, hostItems, ClassItem.holds, HostChar]

theorem passwordChar_iff {c : Char} :
    (classHolds u.toCharData false passwordItems c != true) = true ↔ PasswordChar u c := by
  simp [classHolds, passwordItems, ClassItem.holds, PasswordChar, and_comm]

theorem spans_host : (Pattern.rep (.set true hostItems) 1 none).Spans u.toCharData false
    before w after ↔ Host u w := by
  rw [spans_rep_set]
  simp only [hostChar_iff, Nat.one_le_iff_ne_zero, ne_eq, List.length_eq_zero_iff]
  constructor
  · rintro ⟨some_text, -, chars⟩
    exact ⟨some_text, chars⟩
  · rintro ⟨some_text, chars⟩
    exact ⟨some_text, (fun h none => by cases none), chars⟩

theorem spans_passwordPart : passwordPart.Spans u.toCharData false before w after ↔
    ∃ s, w = ':' :: s ∧ Password u s := by
  have inner : ∀ {before s after : List Char},
      (Pattern.rep (.set true passwordItems) 1 (some 64)).Spans u.toCharData false before s after ↔
        Password u s := by
    intro before s after
    rw [spans_rep_set]
    simp only [passwordChar_iff, Nat.one_le_iff_ne_zero, ne_eq, List.length_eq_zero_iff]
    constructor
    · rintro ⟨some_text, short, chars⟩
      exact ⟨some_text, short 64 rfl, chars⟩
    · rintro ⟨some_text, short, chars⟩
      exact ⟨some_text, fun h at_most => by cases at_most; exact short, chars⟩
  constructor
  · intro spans
    obtain ⟨a, b, rfl, colon, rest⟩ := spans_seq.mp spans
    obtain ⟨s, b, rfl, password, none⟩ := spans_seq.mp rest
    rw [spans_lit_iff.mp colon, spans_empty.mp none, List.append_nil]
    exact ⟨s, rfl, inner.mp password⟩
  · rintro ⟨s, rfl, password⟩
    refine spans_seq.mpr ⟨[':'], s, rfl, spans_lit_iff.mpr rfl, ?_⟩
    exact spans_seq.mpr ⟨s, [], (List.append_nil s).symm, inner.mpr password, spans_empty.mpr rfl⟩

theorem dsnUser_anywhere {before' after' : List Char}
    (spans : dsnUser.Spans u.toCharData false before w after) :
    dsnUser.Spans u.toCharData false before' w after' :=
  spans_anywhere_exact dsnUser_checked.1 spans

/-- A connection string in its parts. -/
theorem spans_dbDsn : PiiPattern.dbDsn.pattern.Spans u.toCharData false before w after ↔
    ∃ user pass host, w = user ++ (pass ++ '@' :: host) ∧
      dsnUser.Spans u.toCharData false [] user [] ∧
      (pass = [] ∨ ∃ s, pass = ':' :: s ∧ Password u s) ∧ Host u host := by
  rw [dbDsn_pattern]
  constructor
  · intro spans
    obtain ⟨user, b, rfl, first, rest⟩ := spans_seqs_append.mp spans
    obtain ⟨pass, b, rfl, password, rest⟩ := spans_seq.mp rest
    obtain ⟨a, b, rfl, sign, rest⟩ := spans_seq.mp rest
    obtain ⟨host, b, rfl, host_chars, none⟩ := spans_seq.mp rest
    rw [spans_lit_iff.mp sign, spans_empty.mp none, List.append_nil]
    refine ⟨user, pass, host, rfl, dsnUser_anywhere first, ?_, spans_host.mp host_chars⟩
    rcases (spans_opt (by decide)).mp password with rfl | password
    · exact .inl rfl
    · exact .inr (spans_passwordPart.mp password)
  · rintro ⟨user, pass, host, rfl, first, password, host_chars⟩
    refine spans_seqs_append.mpr ⟨user, _, rfl, dsnUser_anywhere first, ?_⟩
    refine spans_seq.mpr ⟨pass, _, rfl, (spans_opt (by decide)).mpr ?_, ?_⟩
    · rcases password with rfl | password
      · exact .inl rfl
      · exact .inr (spans_passwordPart.mpr password)
    · refine spans_seq.mpr ⟨['@'], host, rfl, spans_lit_iff.mpr rfl, ?_⟩
      exact spans_seq.mpr ⟨host, [], (List.append_nil host).symm, spans_host.mpr host_chars,
        spans_empty.mpr rfl⟩

/-- The host goes on as far as it can. -/
theorem dbDsn_stops {left right : List Piece} {m : List Char}
    (split : piecesOf u .dbDsn text = left ++ .replaced m :: right) :
    ∀ c ∈ (sourceOf right).head?, ¬ HostChar u c := by
  have fits := pieces_fit (pattern_reads .dbDsn) split
  have head := fits.2
  have shape : PiiPattern.dbDsn.pattern = seqs ((userParts ++ [opt passwordPart, lit "@"]) ++
      [.rep (.set true hostItems) 1 none]) := rfl
  rw [shape] at head
  intro c first host
  have stop := seqs_stops head c first
  rw [hostChar_iff.mpr host] at stop
  cases stop

end

section
variable {u : Unicode} {p q : PiiPattern} {w text : List Char}

theorem not_word_of_not_host (tables : RedactionTables u) {c : Char} (other : ¬ HostChar u c) :
    u.word c = false := by
  have quotes : ∀ c ∈ ['"', '\'', '\x60'], u.word c = false := by
    have all : ∀ c ∈ ['"', '\'', '\x60'],
        c.toNat < 128 ∧ Unicode.ascii.word c = false := by decide
    intro c mem
    rw [tables.asciiWord c (all c mem).1]
    exact (all c mem).2
  by_cases space : u.space c = true
  · exact tables.spaceWord c space
  · refine quotes c (Classical.byContradiction fun none => other ?_)
    simp only [List.mem_cons, List.not_mem_nil, or_false, not_or] at none
    exact ⟨by simpa using space, none⟩

/-- A mark is to what stands before it as the end of the text. -/
theorem atEdge_mark (tables : RedactionTables u) {v y : List Char} :
    AtEdge u.toCharData v (p.replacement.toList ++ y) ↔ AtEdge u.toCharData v [] := by
  obtain ⟨inner, brackets⟩ := replacement_brackets p
  rw [brackets]
  simp [AtEdge, tables.bracket]

theorem atEdge_mark' (tables : RedactionTables u) {x v : List Char} :
    AtEdge u.toCharData (x ++ p.replacement.toList).reverse v ↔ AtEdge u.toCharData [] v := by
  obtain ⟨inner, brackets⟩ := replacement_brackets p
  rw [brackets]
  simp [AtEdge, tables.bracket']

theorem resultOf_concat (left : List Piece) (m : List Char) :
    resultOf p (left ++ [.replaced m]) = resultOf p left ++ p.replacement.toList := by
  simp [resultOf, Piece.result]

theorem resultOf_cons (m : List Char) (right : List Piece) :
    resultOf p (.replaced m :: right) = p.replacement.toList ++ resultOf p right := rfl

/-- What the substitution for connection strings makes a match is before one of them. -/
theorem back_dbDsn (tables : RedactionTables u) (mem : q ∈ early) (unmatched : NoMatch u q text)
    {x y : List Char} (result : redactOne u .dbDsn text = x ++ w ++ y)
    (spans : q.pattern.Spans u.toCharData false x.reverse w y) :
    ∃ left m right, piecesOf u .dbDsn text = left ++ w.map .kept ++ .replaced m :: right ∧
      resultOf .dbDsn left = x ∧ resultOf .dbDsn (.replaced m :: right) = y ∧
      q.pattern.Spans u.toCharData false (sourceOf left).reverse w [] := by
  obtain ⟨mem, other⟩ := early_enclosed q mem
  obtain ⟨left, right, split, rfl, rfl⟩ :=
    pieces_of_redactOne (apart_of_enclosed tables mem spans .dbDsn) result
  obtain ⟨some_text, -, edge, inside, edge'⟩ := (spans_enclosed mem).mp spans
  have edge : AtEdge u.toCharData (sourceOf left).reverse w := by
    rcases @source_before PiiPattern.dbDsn.replacement.toList left with same | ⟨left, m, rfl⟩
    · rw [AtEdge] at edge ⊢
      rwa [← show (resultOf .dbDsn left).reverse.head? = (sourceOf left).reverse.head? from same]
    · -- a connection string ends where a word does not go on
      rw [resultOf_concat, atEdge_mark' tables] at edge
      rw [List.append_assoc, List.append_assoc, List.singleton_append] at split
      obtain ⟨c, w, rfl⟩ := List.exists_cons_of_ne_nil some_text
      have stops := dbDsn_stops split c rfl
      simp [AtEdge, not_word_of_not_host tables stops] at edge
  rcases @source_behind PiiPattern.dbDsn.replacement.toList right with same | ⟨m, right, rfl⟩
  · have edge' : AtEdge u.toCharData w.reverse (sourceOf right) := by
      rw [AtEdge] at edge' ⊢
      rwa [← show (resultOf .dbDsn right).head? = (sourceOf right).head? from same]
    refine absurd ?_ (unmatched (sourceOf left) w (sourceOf right) ?_)
    · exact (spans_enclosed mem).mpr ⟨some_text, fun same => absurd same other, edge, inside, edge'⟩
    · rw [← sourceOf_kept, ← split, source_piecesOf]
  · rw [resultOf_cons, atEdge_mark tables] at edge'
    exact ⟨left, m, right, split, rfl, rfl, (spans_enclosed mem).mpr
      ⟨some_text, fun same => absurd same other, edge, inside, edge'⟩⟩

/-- The scheme is a word, and behind it is none. -/
theorem scheme_of_dbDsn {x m y : List Char}
    (spans : PiiPattern.dbDsn.pattern.Spans u.toCharData false x m y) :
    ∃ s ∈ schemes, ∃ rest, m = s.toList ++ ':' :: rest := by
  obtain ⟨user, pass, host, rfl, user_spans, -⟩ := spans_dbDsn.mp spans
  obtain ⟨scheme, b, rfl, first, rest⟩ := spans_seq.mp user_spans
  obtain ⟨slashes, b, rfl, second, -⟩ := spans_seq.mp rest
  obtain ⟨s, mem, rfl⟩ := spans_words_iff.mp first
  rw [spans_lit_iff.mp second]
  exact ⟨s, mem, '/' :: '/' :: (b ++ (pass ++ '@' :: host)), by simp⟩

/-- Addresses and keys go on through the scheme, so they were matches before. -/
theorem number_of_before_dbDsn (tables : RedactionTables u) (mem : q ∈ early)
    (unmatched : NoMatch u q text) {left right : List Piece} {m : List Char}
    (split : piecesOf u .dbDsn text = left ++ w.map .kept ++ .replaced m :: right)
    (spans : q.pattern.Spans u.toCharData false (sourceOf left).reverse w []) :
    q ∈ [PiiPattern.phone, .ssn, .card] := by
  have fits := pieces_fit (pattern_reads .dbDsn) split
  obtain ⟨s, mem_s, rest, rfl⟩ := scheme_of_dbDsn fits.spans
  have letters : ∀ s ∈ schemes, s.toList ≠ [] ∧ (∀ c ∈ s.toList, 'a' ≤ c ∧ c ≤ 'z') ∧
      ∀ c ∈ s.toList, c.toNat < 128 ∧ Unicode.ascii.word c = true := by
    decide
  obtain ⟨some_letters, letters, words⟩ := letters s mem_s
  have goes_on : ∀ (ps : List Pattern) (items : List ClassItem) (lo : Nat), q ∈ enclosed →
      q ≠ .privateIp → inner q = ps ++ [.rep (.set false items) lo .none] →
      .range 'a' 'z' ∈ items → False := by
    intro ps items lo mem other shape range
    obtain ⟨some_text, -, edge, inside, -⟩ := (spans_enclosed mem).mp spans
    have longer : (seqs (inner q)).Spans u.toCharData false [] (w ++ s.toList) [] := by
      have inside := @inner_anywhere u q [] w [] mem [] (s.toList ++ []) inside
      rw [shape] at inside ⊢
      refine seqs_extend inside fun c mem_c => ?_
      have holds : classHolds u.toCharData false items c = true :=
        List.any_eq_true.mpr ⟨.range 'a' 'z', range, by
          simpa [ClassItem.holds] using letters c mem_c⟩
      rw [holds]
      rfl
    have edge' : AtEdge u.toCharData (w ++ s.toList).reverse (':' :: (rest ++ sourceOf right)) := by
      obtain ⟨s', last, concat⟩ := (List.eq_nil_or_concat s.toList).resolve_left some_letters
      rw [List.concat_eq_append] at concat
      have word := words last (by rw [concat]; simp)
      have colon : u.word ':' = false := tables.asciiWord ':' (by decide)
      have last_word : u.word last = true := (tables.asciiWord last word.1).trans word.2
      rw [concat]
      simp [AtEdge, colon, last_word]
    refine unmatched (sourceOf left) (w ++ s.toList) (':' :: (rest ++ sourceOf right)) ?_
      ((spans_enclosed mem).mpr ⟨List.append_ne_nil_of_left_ne_nil some_text _,
        fun same => absurd same other, ?_, longer, edge'⟩)
    · have whole := sourceOf_kept (w := w) left (.replaced (s.toList ++ ':' :: rest) :: right)
      rw [← split, source_piecesOf] at whole
      rw [whole]
      simp [sourceOf, Piece.source]
    · rwa [atEdge_append_right some_text]
  obtain ⟨mem', other⟩ := early_enclosed q mem
  simp only [early, List.mem_cons, List.not_mem_nil, or_false] at mem
  rcases mem with rfl | rfl | rfl | rfl | rfl
  · exact (goes_on (inner .email).dropLast _ 2 mem' other rfl (.tail _ (.head _))).elim
  · simp
  · simp
  · simp
  · exact (goes_on (inner .apiKey).dropLast _ 16 mem' other rfl (.tail _ (.head _))).elim

/-! ## Numbers from their first digit on -/

def countryCode : Pattern :=
  seqs [opt (lit "+"), lit "1", opt (.set false [.char '-', .char '.', .space])]

def areaOn : List Pattern := (inner .phone).tail.tail

theorem inner_phone : inner .phone = opt countryCode :: opt (lit "(") :: areaOn := rfl

def isDigit : ClassItem → Bool
  | .digit => true
  | .char _ | .range _ _ | .space | .word => false

theorem areaOn_checked : (seqs areaOn).plain (readsNone ['[', ']']) = true ∧
    (seqs areaOn).starts isDigit = true := by
  decide

theorem word_of_starts (tables : RedactionTables u) {p : Pattern} {before after : List Char}
    (starts : p.starts isDigit = true) (spans : p.Spans u.toCharData false before w after) :
    w.head?.any u.word = true := by
  obtain ⟨c, rest, rfl, readable⟩ := spans_starts starts (spans_exact.mp spans)
  obtain ⟨item, digit, holds⟩ := readable_exact.mp readable
  cases item with
  | digit => exact tables.digit c holds
  | char | range | space | word => cases digit

theorem countryCode_plain : countryCode.plain (readsNone ['[', ']']) = true := by
  decide

/-- A phone number from its first digit on is one. -/
theorem phone_from_digit (tables : RedactionTables u)
    (spans : (seqs (inner .phone)).Spans u.toCharData false [] w []) :
    ∃ a w', w = a ++ w' ∧ (a = [] ∨ ∃ c, a = [c] ∧ u.word c = false) ∧
      (seqs (inner .phone)).Spans u.toCharData false [] w' [] ∧ w'.head?.any u.word = true := by
  have one_word : u.word '1' = true := tables.asciiWord '1' (by decide)
  have plus_bare : u.word '+' = false := tables.asciiWord '+' (by decide)
  have paren_bare : u.word '(' = false := tables.asciiWord '(' (by decide)
  have paren_plain : (opt (lit "(")).plain (readsNone ['[', ']']) = true := by decide
  have build : ∀ {code paren area : List Char},
      (code = [] ∨ countryCode.Spans u.toCharData false [] code []) →
      (opt (lit "(")).Spans u.toCharData false [] paren [] →
      (seqs areaOn).Spans u.toCharData false [] area [] →
      (seqs (inner .phone)).Spans u.toCharData false [] (code ++ (paren ++ area)) [] := by
    intro code paren area first second third
    rw [inner_phone]
    refine spans_seq.mpr ⟨code, paren ++ area, rfl, (spans_opt (by decide)).mpr ?_, ?_⟩
    · exact first.imp id (spans_anywhere_exact countryCode_plain)
    · refine spans_seq.mpr ⟨paren, area, rfl, spans_anywhere_exact paren_plain second, ?_⟩
      exact spans_anywhere_exact areaOn_checked.1 third
  have whole := spans
  rw [inner_phone] at spans
  obtain ⟨code, b, rfl, first, rest⟩ := spans_seq.mp spans
  obtain ⟨paren, area, rfl, second, third⟩ := spans_seq.mp rest
  have area_spans : (seqs areaOn).Spans u.toCharData false [] area [] :=
    spans_anywhere_exact areaOn_checked.1 third
  have paren_spans : (opt (lit "(")).Spans u.toCharData false [] paren [] :=
    spans_anywhere_exact paren_plain second
  have area_word := word_of_starts tables areaOn_checked.2 area_spans
  have no_paren : (opt (lit "(")).Spans u.toCharData false [] [] [] :=
    (spans_opt (by decide)).mpr (.inl rfl)
  rcases (spans_opt (by decide)).mp first with rfl | code_spans
  · rcases (spans_opt (by decide)).mp second with rfl | bracket
    · exact ⟨[], area, rfl, .inl rfl, whole, area_word⟩
    · -- behind the bracket
      obtain rfl : paren = ['('] := spans_lit_iff.mp bracket
      exact ⟨['('], area, rfl, .inr ⟨'(', rfl, paren_bare⟩,
        @build [] [] area (.inl rfl) no_paren area_spans, area_word⟩
  · obtain ⟨sign, b, rfl, sign_spans, code_rest⟩ := spans_seq.mp code_spans
    obtain ⟨one, sep, rfl, one_spans, sep_spans⟩ := spans_seq.mp code_rest
    obtain rfl : one = ['1'] := spans_lit_iff.mp one_spans
    rcases (spans_opt (by decide)).mp sign_spans with rfl | some_sign
    · exact ⟨[], _, rfl, .inl rfl, whole, one_word⟩
    · -- behind the sign
      obtain rfl : sign = ['+'] := spans_lit_iff.mp some_sign
      have bare : countryCode.Spans u.toCharData false [] (['1'] ++ sep) [] := by
        refine spans_seq.mpr ⟨[], ['1'] ++ sep, rfl, (spans_opt (by decide)).mpr (.inl rfl), ?_⟩
        refine spans_seq.mpr ⟨['1'], sep, rfl, spans_lit_iff.mpr rfl, ?_⟩
        have sep_plain : (seqs [opt (.set false [.char '-', .char '.', .space])]).plain
            (readsNone ['[', ']']) = true := by decide
        exact spans_anywhere_exact sep_plain sep_spans
      exact ⟨['+'], ['1'] ++ sep ++ (paren ++ area), by simp, .inr ⟨'+', rfl, plus_bare⟩,
        @build (['1'] ++ sep) paren area (.inr bare) paren_spans area_spans, one_word⟩

/-- So is every number. -/
theorem number_from_digit (tables : RedactionTables u) (mem : q ∈ [PiiPattern.phone, .ssn, .card])
    {before after : List Char} (spans : q.pattern.Spans u.toCharData false before w after) :
    ∃ a w', w = a ++ w' ∧ q.pattern.Spans u.toCharData false (a.reverse ++ before) w' after ∧
      w'.head?.any u.word = true := by
  have plain_numbers : ∀ q ∈ [PiiPattern.ssn, .card],
      (seqs (inner q)).starts isDigit = true := by decide
  have mem_enclosed : q ∈ enclosed := by
    have all : ∀ q ∈ [PiiPattern.phone, .ssn, .card], q ∈ enclosed := by decide
    exact all q mem
  obtain ⟨some_text, free, edge, inside, edge'⟩ := (spans_enclosed mem_enclosed).mp spans
  rcases List.mem_cons.mp mem with rfl | mem
  · obtain ⟨a, w', rfl, bare, inside, word⟩ := phone_from_digit tables inside
    have some_rest : w' ≠ [] := by
      rintro rfl
      cases word
    refine ⟨a, w', rfl, (spans_enclosed mem_enclosed).mpr
      ⟨some_rest, (fun same => by cases same), ?_, inside, ?_⟩, word⟩
    · rcases bare with rfl | ⟨c, rfl, bare⟩
      · exact edge
      · rw [AtEdge, word]
        simp [bare]
    · rwa [List.reverse_append, atEdge_append_left some_rest] at edge'
  · exact ⟨[], w, rfl, spans, word_of_starts tables (plain_numbers q mem) inside⟩

/-! ## Home paths -/

/-- `/home/name` -/
def homeParts : List Pattern := ((parts PiiPattern.homePath.pattern).take 4)

def pathPart : Pattern := seqs ([lit "/"] ++ [.rep (.set true hostItems) 0 none])

theorem homePath_pattern : PiiPattern.homePath.pattern = seqs (homeParts ++ [opt pathPart]) := rfl

theorem homeParts_checked : (seqs homeParts).plain (readsNone ['[', ']']) = true ∧
    (seqs homeParts).needs (readsNone markChars) = true := by
  decide +kernel

/-- The last character of a name is neither a colon nor a slash. -/
theorem homeParts_last (tables : RedactionTables u) {before after : List Char} {e : Char}
    (spans : (seqs homeParts).Spans u.toCharData false before (w ++ [e]) after) :
    e ∉ [':', '/'] := by
  have shape : homeParts = homeParts.take 3 ++ homeParts.drop 3 := rfl
  have name_checked : (seqs (homeParts.drop 3)).plain (readsNone [':', '/']) = true ∧
      (seqs (homeParts.drop 3)).reads = true := by
    decide
  rw [shape] at spans
  obtain ⟨a, b, split, -, name⟩ := spans_seqs_append.mp spans
  obtain ⟨b, c, rfl⟩ := (List.eq_nil_or_concat b).resolve_left (spans_reads name_checked.2 name)
  rw [List.concat_eq_append] at split name
  rw [← List.append_assoc] at split
  obtain ⟨-, same⟩ := List.append_inj' split rfl
  obtain rfl := List.singleton_inj.mp same
  intro mem
  have ascii : ∀ c ∈ [':', '/'], c.toNat < 128 := by decide
  exact not_readable tables (ascii e mem) mem
    (spans_readable name_checked.1 (spans_exact.mp name) e (by simp))

theorem homePath_stops {left right : List Piece} {m : List Char}
    (split : piecesOf u .homePath text = left ++ .replaced m :: right) :
    (∀ c ∈ (sourceOf right).head?, ¬ HostChar u c) ∨
      (seqs homeParts).Spans u.toCharData false (sourceOf left).reverse m (sourceOf right) := by
  have fits := pieces_fit (pattern_reads .homePath) split
  have head := fits.2
  rw [homePath_pattern] at head
  obtain ⟨v, stem, last⟩ := head_ends_seqs head
  rw [ends_seqs_single] at last
  rcases head_ends_opt (by decide) last with same | path
  · right
    rw [← same] at stem
    exact stem
  · left
    intro c first host
    have stop := seqs_stops path c first
    rw [hostChar_iff.mpr host] at stop
    cases stop

/-- A colon or a slash before a slash is in no home path. -/
theorem kept_before_slash (tables : RedactionTables u) {left right : List Piece} {a : List Char}
    {e : Char} (mem : e ∈ [':', '/']) (split : piecesOf u .homePath text = left ++ right)
    (source : sourceOf left = a ++ [e]) (slash : (sourceOf right).head? = some '/') :
    ∃ left', left = left' ++ [.kept e] ∧ sourceOf left' = a := by
  rcases List.eq_nil_or_concat left with rfl | ⟨left, piece, rfl⟩
  · simp [sourceOf] at source
  · rw [List.concat_eq_append] at split source ⊢
    rw [sourceOf, List.flatMap_append, List.flatMap_singleton] at source
    cases piece with
    | kept c =>
      obtain ⟨shorter, same⟩ := List.append_inj' source rfl
      obtain rfl := List.singleton_inj.mp same
      exact ⟨left, rfl, shorter⟩
    | replaced m =>
      rw [List.append_assoc, List.singleton_append] at split
      have fits := pieces_fit (pattern_reads .homePath) split
      obtain ⟨m, c, rfl⟩ := (List.eq_nil_or_concat m).resolve_left fits.1
      rw [List.concat_eq_append] at source split
      rw [Piece.source, ← List.append_assoc] at source
      obtain ⟨-, same⟩ := List.append_inj' source rfl
      obtain rfl := List.singleton_inj.mp same
      rcases homePath_stops split with stops | stem
      · have host : HostChar u '/' :=
          ⟨(tables.asciiSpace '/' (by decide)).trans (by decide), by decide⟩
        exact absurd host (stops '/' slash)
      · exact absurd mem (homeParts_last tables stem)

theorem homePath_first {x m y : List Char}
    (spans : PiiPattern.homePath.pattern.Spans u.toCharData false x m y) :
    ∃ rest, m = '/' :: rest := by
  rw [homePath_pattern] at spans
  obtain ⟨a, b, rfl, first, -⟩ := spans_seq.mp spans
  exact ⟨b, by rw [spans_lit_iff.mp first]; rfl⟩

/-- What is behind a kept stretch begins with a word character in the result exactly if it
does in the text. -/
theorem atEdge_homePath (tables : RedactionTables u) {left right : List Piece} {v : List Char}
    (split : piecesOf u .homePath text = left ++ right) :
    AtEdge u.toCharData v (resultOf .homePath right) ↔
      AtEdge u.toCharData v (sourceOf right) := by
  rcases @source_behind PiiPattern.homePath.replacement.toList right with same | ⟨m, right, rfl⟩
  · rw [AtEdge, AtEdge,
      show (resultOf .homePath right).head? = (sourceOf right).head? from same]
  · have fits := pieces_fit (pattern_reads .homePath) split
    obtain ⟨rest, rfl⟩ := homePath_first fits.spans
    have slash : u.word '/' = false := tables.asciiWord '/' (by decide)
    rw [resultOf_cons, atEdge_mark tables]
    simp [AtEdge, sourceOf, Piece.source, slash]

/-- A kept slash behind a colon and a slash: both are kept. -/
theorem slashes_of_source (tables : RedactionTables u) {left right : List Piece}
    (split : piecesOf u .homePath text = left ++ .kept '/' :: right)
    (behind : ['/', ':'] <+: (sourceOf left).reverse) :
    ∃ left', left = left' ++ [.kept ':', .kept '/'] := by
  obtain ⟨a, whole⟩ := behind
  have source : sourceOf left = a.reverse ++ [':'] ++ ['/'] := by
    rw [← List.reverse_reverse (sourceOf left), ← whole]
    simp
  obtain ⟨left', rfl, source'⟩ := kept_before_slash tables (by simp) split source rfl
  rw [List.append_assoc] at split
  obtain ⟨left'', rfl, -⟩ := kept_before_slash tables (by simp) split source' rfl
  exact ⟨left'', by simp⟩

/-- What the substitution for home paths makes a match is behind one of them. -/
theorem back_homePath (tables : RedactionTables u) (mem : q ∈ enclosed) {x y : List Char}
    (result : redactOne u .homePath text = x ++ w ++ y)
    (spans : q.pattern.Spans u.toCharData false x.reverse w y) :
    MatchBehindHome u text ∨
      ∃ left right, piecesOf u .homePath text = left ++ w.map .kept ++ right ∧
        resultOf .homePath left = x ∧ resultOf .homePath right = y ∧
        q.pattern.Spans u.toCharData false (sourceOf left).reverse w (sourceOf right) := by
  obtain ⟨left, right, split, rfl, rfl⟩ :=
    pieces_of_redactOne (apart_of_enclosed tables mem spans .homePath) result
  obtain ⟨some_text, free, edge, inside, edge'⟩ := (spans_enclosed mem).mp spans
  have edge' : AtEdge u.toCharData w.reverse (sourceOf right) :=
    (atEdge_homePath tables split).mp edge'
  have others : ∀ q ∈ enclosed, q ≠ .dbDsn ∧ q ≠ .homePath := by decide
  rcases List.eq_nil_or_concat left with rfl | ⟨left, piece, rfl⟩
  · exact .inr ⟨[], right, split, rfl, rfl, (spans_enclosed mem).mpr
      ⟨some_text, free, edge, inside, edge'⟩⟩
  · rw [List.concat_eq_append] at split free edge
    cases piece with
    | replaced m =>
      rw [List.append_assoc, List.append_assoc, List.singleton_append] at split
      rw [resultOf_concat, atEdge_mark' tables] at edge
      refine .inl ⟨q, (others q mem).1, (others q mem).2, left, m, w, right, split, ?_⟩
      exact (spans_enclosed mem).mpr
        ⟨some_text, (fun _ => by simp), edge, inside, edge'⟩
    | kept c =>
      refine .inr ⟨left ++ [.kept c], right, split, by rw [List.concat_eq_append], rfl,
        (spans_enclosed mem).mpr ⟨some_text, fun ip behind => free ip ?_, ?_, inside, edge'⟩⟩
      · have source : (sourceOf (left ++ [.kept c])).reverse = c :: (sourceOf left).reverse := by
          simp [sourceOf, Piece.source]
        have marks : "://".toList.reverse = ['/', '/', ':'] := by decide
        rw [source, marks] at behind
        rw [marks]
        obtain ⟨rfl, before⟩ := List.cons_prefix_cons.mp behind
        rw [List.append_assoc, List.append_assoc] at split
        obtain ⟨left', rfl⟩ := slashes_of_source tables split before
        exact ⟨(resultOf .homePath left').reverse, by simp [resultOf, Piece.result]⟩
      · simpa [AtEdge, resultOf, sourceOf, Piece.result, Piece.source] using edge

/-! ## What takes every match of its own -/

theorem privateIp_chars (tables : RedactionTables u) {x m y : List Char}
    (spans : PiiPattern.privateIp.pattern.Spans u.toCharData false x m y) :
    ∀ c ∈ "://".toList, c ∉ m := by
  have plain : (seqs (inner .privateIp)).plain (readsNone "://".toList) = true := by
    decide +kernel
  have ascii : ∀ c ∈ "://".toList, c.toNat < 128 := by decide
  obtain ⟨-, -, -, inside, -⟩ := (spans_enclosed (by decide)).mp spans
  intro c mem found
  exact not_readable tables (ascii c mem) mem (spans_readable plain (spans_exact.mp inside) c found)

/-- No private address is left by its substitution. -/
theorem noMatch_privateIp (tables : RedactionTables u) :
    NoMatch u .privateIp (redactOne u .privateIp text) := by
  intro x w y result spans
  have mem : PiiPattern.privateIp ∈ enclosed := by decide
  obtain ⟨left, right, split, rfl, rfl⟩ :=
    pieces_of_redactOne (apart_of_enclosed tables mem spans .privateIp) result
  obtain ⟨some_text, free, edge, inside, edge'⟩ := (spans_enclosed mem).mp spans
  refine not_spans_of_own split some_text rfl ((spans_enclosed mem).mpr
    ⟨some_text, fun same behind => free same ?_, ?_, inside, ?_⟩)
  · -- nothing of what is behind `://` has been replaced
    obtain ⟨a, whole⟩ := behind
    have source : sourceOf left = a.reverse ++ "://".toList := by
      rw [← List.reverse_reverse (sourceOf left), ← whole]
      simp
    rw [List.append_assoc] at split
    obtain ⟨left', rfl, -⟩ := kept_of_suffix (pattern_reads .privateIp)
      (fun c mem _ _ _ spans => privateIp_chars tables spans c mem) split source
    rw [resultOf, List.flatMap_append, flatMap_kept _ fun _ => rfl, List.reverse_append]
    exact List.prefix_append _ _
  · exact edge_before (pattern_reads _) (enclosed_wordwise mem) some_text split edge
  · exact edge_behind (pattern_reads _) (enclosed_wordwise mem) some_text split edge'

theorem noMatch_homePath (tables : RedactionTables u) :
    NoMatch u .homePath (redactOne u .homePath text) := by
  intro x w y result spans
  rw [homePath_pattern] at spans
  obtain ⟨stem, rest, rfl, stem_spans, -⟩ := spans_seqs_append.mp spans
  have apart := apart_of_spans tables homeParts_checked.1 homeParts_checked.2 stem_spans .homePath
  have result : redactOne u .homePath text = x ++ stem ++ (rest ++ y) := by
    rw [result]
    simp
  obtain ⟨left, right, split, -, -⟩ := pieces_of_redactOne apart result
  refine not_spans_of_own split apart.ne_nil rfl ?_
  rw [homePath_pattern]
  refine spans_seqs_append.mpr ⟨stem, [], (List.append_nil stem).symm, ?_, ?_⟩
  · exact spans_anywhere_exact homeParts_checked.1 stem_spans
  · refine spans_seq.mpr ⟨[], [], rfl, (spans_opt (by decide)).mpr (.inl rfl), ?_⟩
    exact spans_empty.mpr rfl

/-! ## Connection strings in the end -/

/-- The last three substitutions. -/
def late : List PiiPattern := [.dbDsn, .privateIp, .homePath]

theorem hostChar_of_ascii (tables : RedactionTables u) {c : Char} (ascii : c.toNat < 128)
    (other : Unicode.ascii.space c = false ∧ c ≠ '"' ∧ c ≠ '\'' ∧ c ≠ '\x60') : HostChar u c :=
  ⟨(tables.asciiSpace c ascii).trans other.1, other.2⟩

def isOne : ClassItem → Bool
  | .char x => x = '1'
  | .range _ _ | .space | .digit | .word => false

/-- What is replaced late begins with what a host may be made of. -/
theorem late_first (tables : RedactionTables u) (mem : p ∈ late) {x m y : List Char}
    (spans : p.pattern.Spans u.toCharData false x m y) :
    ∃ c rest, m = c :: rest ∧ HostChar u c := by
  have one : ∀ {c : Char} {rest : List Char}, m = c :: rest → c.toNat < 128 →
      (Unicode.ascii.space c = false ∧ c ≠ '"' ∧ c ≠ '\'' ∧ c ≠ '\x60') →
      ∃ c rest, m = c :: rest ∧ HostChar u c :=
    fun split ascii other => ⟨_, _, split, hostChar_of_ascii tables ascii other⟩
  simp only [late, List.mem_cons, List.not_mem_nil, or_false] at mem
  rcases mem with rfl | rfl | rfl
  · obtain ⟨s, mem, rest, rfl⟩ := scheme_of_dbDsn spans
    have first : ∀ s ∈ schemes, ∃ c r, s.toList = c :: r ∧ c.toNat < 128 ∧
        (Unicode.ascii.space c = false ∧ c ≠ '"' ∧ c ≠ '\'' ∧ c ≠ '\x60') := by
      intro s mem
      simp only [schemes, List.mem_cons, List.not_mem_nil, or_false] at mem
      rcases mem with rfl | rfl | rfl | rfl | rfl | rfl
      all_goals exact ⟨_, _, rfl, by decide, by decide⟩
    obtain ⟨c, r, letters, ascii, other⟩ := first s mem
    exact one (by rw [letters]; rfl) ascii other
  · obtain ⟨-, -, -, inside, -⟩ := (spans_enclosed (by decide)).mp spans
    have starts : (seqs (inner .privateIp)).starts isOne = true := by decide
    obtain ⟨c, rest, rfl, readable⟩ := spans_starts starts (spans_exact.mp inside)
    obtain ⟨item, is_one, holds⟩ := readable_exact.mp readable
    cases item with
    | char x =>
      obtain rfl : x = '1' := of_decide_eq_true is_one
      obtain rfl : c = '1' := of_decide_eq_true holds
      exact one rfl (by decide) (by decide)
    | range | space | digit | word => cases is_one
  · obtain ⟨rest, rfl⟩ := homePath_first spans
    exact one rfl (by decide) (by decide)

theorem hostChar_behind (tables : RedactionTables u) (mem : p ∈ late) {left right : List Piece}
    (split : piecesOf u p text = left ++ right)
    (host : ∃ c ∈ (resultOf p right).head?, HostChar u c) :
    ∃ c ∈ (sourceOf right).head?, HostChar u c := by
  rcases @source_behind p.replacement.toList right with same | ⟨m, right, rfl⟩
  · rwa [show (resultOf p right).head? = (sourceOf right).head? from same] at host
  · have fits := pieces_fit (pattern_reads p) split
    obtain ⟨c, rest, rfl, first⟩ := late_first tables mem fits.spans
    exact ⟨c, rfl, first⟩

/-- A kept stretch that something of a host stands behind had it there before. -/
theorem kept_before_host (tables : RedactionTables u)
    (apart : ∀ p : PiiPattern, Apart p.replacement.toList w) : ∀ {ps : List PiiPattern}
    {text x y : List Char}, (∀ p ∈ ps, p ∈ late) →
    ps.foldl (fun text p => redactOne u p text) text = x ++ w ++ y →
    (∃ c ∈ y.head?, HostChar u c) →
    ∃ x' y', text = x' ++ w ++ y' ∧ ∃ c ∈ y'.head?, HostChar u c := by
  intro ps
  induction ps with
  | nil =>
    intro text x y _ result host
    exact ⟨x, y, result, host⟩
  | cons p ps ih =>
    intro text x y mem result host
    obtain ⟨x', y', step, host'⟩ := ih (fun q later => mem q (List.mem_cons_of_mem p later))
      result host
    obtain ⟨left, right, split, -, rfl⟩ := pieces_of_redactOne (apart p) step
    refine ⟨sourceOf left, sourceOf right, ?_, ?_⟩
    · rw [← sourceOf_kept, ← split, source_piecesOf]
    · exact hostChar_behind tables (mem p List.mem_cons_self) split host'

/-- A kept stretch and an `@` that is kept behind it. -/
theorem keptThrough_both (apart : ∀ p : PiiPattern, Apart p.replacement.toList w)
    (apart_sign : ∀ p : PiiPattern, Apart p.replacement.toList ['@']) : ∀ {ps : List PiiPattern}
    {text x s y : List Char},
    ps.foldl (fun text p => redactOne u p text) text = x ++ w ++ (s ++ '@' :: y) →
    ∃ before long rest, text = before ++ w ++ (long ++ '@' :: rest) ∧
      KeptThrough u w ps (before, long ++ '@' :: rest) (x, s ++ '@' :: y) ∧
      KeptThrough u ['@'] ps (before ++ w ++ long, rest) (x ++ w ++ s, y) := by
  intro ps
  induction ps with
  | nil =>
    intro text x s y result
    exact ⟨x, s, y, result, rfl, rfl⟩
  | cons p ps ih =>
    intro text x s y result
    obtain ⟨before, long, rest, step, kept, kept'⟩ := ih result
    obtain ⟨left, right, split, rfl, behind⟩ := pieces_of_redactOne (apart p) step
    have behind : resultOf p right = long ++ ['@'] ++ rest := by
      rw [behind]
      simp
    obtain ⟨mid, right, rfl, rfl, rfl⟩ := pieces_of_result (apart_sign p) behind
    have source : text = sourceOf left ++ w ++ (sourceOf mid ++ '@' :: sourceOf right) := by
      have whole := sourceOf_kept (w := w) left (mid ++ ['@'].map Piece.kept ++ right)
      rw [← split, source_piecesOf, sourceOf_kept] at whole
      simpa using whole
    refine ⟨sourceOf left, sourceOf mid, sourceOf right, source, ⟨_, ?_, kept⟩, ⟨_, ?_, kept'⟩⟩
    · refine ⟨left, mid ++ ['@'].map .kept ++ right, ?_, rfl, rfl, ?_⟩
      · rw [← source]
        exact split
      · rw [List.flatMap_append, List.flatMap_append]
        simp [Piece.result]
    · refine ⟨left ++ w.map .kept ++ mid, right, ?_, ?_, ?_, rfl⟩
      · have source : sourceOf left ++ w ++ sourceOf mid ++ ['@'] ++ sourceOf right = text := by
          rw [source]
          simp
        rw [source]
        simpa [piecesOf] using split
      · exact sourceOf_kept left mid
      · rw [List.flatMap_append, List.flatMap_append, flatMap_kept w fun _ => rfl]
        rfl

/-! ## From the result back -/

theorem textBefore_dbDsn : textBefore u .dbDsn text =
    early.foldl (fun text p => redactOne u p text) text := by
  have first : PiiPattern.all.takeWhile (· ≠ .dbDsn) = early := by decide
  rw [textBefore, first]

theorem redactPii_late : redactPii u text =
    late.foldl (fun text p => redactOne u p text) (textBefore u .dbDsn text) := by
  have split : PiiPattern.all = early ++ late := by decide
  rw [textBefore_dbDsn, ← List.foldl_append, ← split]
  simp only [redactPii, redactOne]

/-- The last two of them apart. -/
theorem redactPii_dbDsn : redactPii u text =
    [PiiPattern.privateIp, .homePath].foldl (fun text p => redactOne u p text)
      (redactOne u .dbDsn (textBefore u .dbDsn text)) := by
  rw [redactPii_late]
  simp only [late, List.foldl_cons]

theorem textBefore_homePath : textBefore u .homePath text =
    redactOne u .privateIp (redactOne u .dbDsn (textBefore u .dbDsn text)) := by
  have first : PiiPattern.all.takeWhile (· ≠ .homePath) = early ++ [.dbDsn, .privateIp] := by
    decide
  rw [textBefore_dbDsn, textBefore, first, List.foldl_append]
  simp only [List.foldl_cons, List.foldl_nil]

theorem redactPii_homePath : redactPii u text =
    redactOne u .homePath (textBefore u .homePath text) := by
  rw [redactPii_dbDsn, textBefore_homePath]
  simp only [List.foldl_cons, List.foldl_nil]

theorem keeps_of_pieces {left right : List Piece}
    (split : piecesOf u p text = left ++ w.map .kept ++ right) :
    p.pattern.Keeps u.toCharData false p.replacement.toList w (sourceOf left, sourceOf right)
      (resultOf p left, resultOf p right) := by
  refine ⟨left, right, ?_, rfl, rfl, rfl⟩
  rw [← split]
  show piecesOf u p (sourceOf left ++ w ++ sourceOf right) = piecesOf u p text
  rw [← sourceOf_kept, ← split, source_piecesOf]

/-- A match of the first five in the result is behind a home path, or comes from before a
connection string. -/
theorem walk_back (tables : RedactionTables u) (mem : q ∈ early) {x y : List Char}
    (result : redactPii u text = x ++ w ++ y)
    (spans : q.pattern.Spans u.toCharData false x.reverse w y) :
    MatchBehindHome u (textBefore u .homePath text) ∨
      ∃ left m right, piecesOf u .dbDsn (textBefore u .dbDsn text) =
          left ++ w.map .kept ++ .replaced m :: right ∧
        q.pattern.Spans u.toCharData false (sourceOf left).reverse w [] ∧
        KeptThrough u w [.privateIp, .homePath]
          (resultOf .dbDsn left, resultOf .dbDsn (.replaced m :: right)) (x, y) := by
  obtain ⟨mem_enclosed, other⟩ := early_enclosed q mem
  rw [redactPii_homePath] at result
  rcases back_homePath tables mem_enclosed result spans with
    gap | ⟨left, right, split, rfl, rfl, at_home⟩
  · exact .inl gap
  · have before_home : redactOne u .privateIp (redactOne u .dbDsn (textBefore u .dbDsn text)) =
        sourceOf left ++ w ++ sourceOf right := by
      rw [← textBefore_homePath, ← sourceOf_kept, ← split, source_piecesOf]
    obtain ⟨left', right', split', left_eq, right_eq, at_ip⟩ :=
      back_enclosed tables (by decide) mem_enclosed other before_home at_home
    have before_ip : redactOne u .dbDsn (textBefore u .dbDsn text) =
        sourceOf left' ++ w ++ sourceOf right' := by
      rw [← sourceOf_kept, ← split', source_piecesOf]
    obtain ⟨left'', m, right'', split'', left_eq', right_eq', at_dsn⟩ :=
      back_dbDsn tables mem (noMatch_textBefore tables mem) before_ip at_ip
    refine .inr ⟨left'', m, right'', split'', at_dsn, ?_⟩
    rw [left_eq', right_eq']
    refine ⟨(sourceOf left, sourceOf right), ?_, _, keeps_of_pieces split, rfl⟩
    rw [← left_eq, ← right_eq]
    exact keeps_of_pieces split'

theorem gap_of_early (tables : RedactionTables u) (mem : q ∈ early) {x y : List Char}
    (result : redactPii u text = x ++ w ++ y)
    (spans : q.pattern.Spans u.toCharData false x.reverse w y) :
    MatchBehindHome u (textBefore u .homePath text) ∨
      NumberBeforeDsn u (textBefore u .dbDsn text) := by
  rcases walk_back tables mem result spans with gap | ⟨left, m, right, split, at_dsn, -⟩
  · exact .inl gap
  · have number := number_of_before_dbDsn tables mem (noMatch_textBefore tables mem) split at_dsn
    -- once more, from the first digit on
    obtain ⟨a, w', rfl, spans', word⟩ := number_from_digit tables number spans
    have result' : redactPii u text = (x ++ a) ++ w' ++ y := by
      rw [result]
      simp
    rw [← List.reverse_append] at spans'
    rcases walk_back tables mem result' spans' with gap | ⟨left, m, right, split, at_dsn, kept⟩
    · exact .inl gap
    · exact .inr ⟨q, number, left, w', m, right, _, split, at_dsn, word, kept⟩

theorem gap_of_dbDsn (tables : RedactionTables u) {x y : List Char}
    (result : redactPii u text = x ++ w ++ y)
    (spans : PiiPattern.dbDsn.pattern.Spans u.toCharData false x.reverse w y) :
    PasswordShortened u (textBefore u .dbDsn text) := by
  obtain ⟨user, pass, host, rfl, user_spans, password, host_chars⟩ := spans_dbDsn.mp spans
  have no_bracket : '[' ∉ user ∧ ']' ∉ user := by
    have unread := spans_readable dsnUser_checked.1 (spans_exact.mp user_spans)
    have ascii : ∀ c ∈ ['[', ']'], c.toNat < 128 := by decide
    exact ⟨fun mem => not_readable tables (ascii _ (by simp)) (by simp) (unread _ mem),
      fun mem => not_readable tables (ascii _ (by simp)) (by simp) (unread _ mem)⟩
  have apart : ∀ c ∈ [':', '@'], ∀ p : PiiPattern, Apart p.replacement.toList (user ++ [c]) := by
    have foreign : ∀ c ∈ [':', '@'], c ∉ markChars ∧ c ≠ '[' ∧ c ≠ ']' := by decide
    intro c mem p
    obtain ⟨foreign, opening, closing⟩ := foreign c mem
    refine apart_of_foreign ?_ ?_ ⟨c, by simp, foreign⟩ p
    · simp [no_bracket.1, opening.symm]
    · simp [no_bracket.2, closing.symm]
  obtain ⟨c, host, rfl⟩ := List.exists_cons_of_ne_nil host_chars.some_text
  have first : HostChar u c := host_chars.chars c List.mem_cons_self
  rcases password with rfl | ⟨s, rfl, password⟩
  · -- without a password it was there before
    have result : [PiiPattern.privateIp, .homePath].foldl (fun text p => redactOne u p text)
        (redactOne u .dbDsn (textBefore u .dbDsn text)) =
        x ++ (user ++ ['@']) ++ (c :: host ++ y) := by
      rw [← redactPii_dbDsn, result]
      simp
    obtain ⟨x', y', before, first'⟩ := kept_before_host tables (apart '@' (by simp)) (by decide)
      result ⟨c, rfl, first⟩
    obtain ⟨left, right, split, -, rfl⟩ := pieces_of_redactOne (apart '@' (by simp) .dbDsn) before
    obtain ⟨c', next, first'⟩ := hostChar_behind tables (by decide) split first'
    refine absurd ?_ (@not_spans_of_own _ _ _ _ _ _ split (by simp) (user ++ '@' :: [c'])
      (sourceOf right).tail ?_)
    · exact spans_dbDsn.mpr ⟨user, [], [c'], rfl, user_spans, .inl rfl,
        ⟨by simp, by simpa using first'⟩⟩
    · cases behind : sourceOf right with
      | nil =>
        rw [behind] at next
        cases next
      | cons c'' rest =>
        rw [behind] at next
        obtain rfl := Option.some.inj next
        simp
  · have result : late.foldl (fun text p => redactOne u p text) (textBefore u .dbDsn text) =
        x ++ (user ++ [':']) ++ (s ++ '@' :: (c :: host ++ y)) := by
      rw [← redactPii_late, result]
      simp
    have apart_sign : ∀ p : PiiPattern, Apart p.replacement.toList ['@'] := by
      intro p
      exact apart_of_foreign (by simp) (by simp) ⟨'@', by simp, by decide⟩ p
    obtain ⟨before, long, rest, split, kept, kept'⟩ :=
      keptThrough_both (apart ':' (by simp)) apart_sign result
    exact ⟨before, user, long, rest, x, s, _, split, user_spans, kept, kept', password,
      c, rfl, first⟩

/-! ## And forward to it -/

theorem resultOf_pieces : resultOf p (piecesOf u p text) = redactOne u p text := piecesFrom_result

theorem not_noMatch_of_numberBeforeDsn (tables : RedactionTables u)
    (gap : NumberBeforeDsn u (textBefore u .dbDsn text)) :
    ∃ q, ¬ NoMatch u q (redactPii u text) := by
  obtain ⟨q, number, left, w, m, right, around, split, spans, word, kept⟩ := gap
  have mem : q ∈ enclosed ∧ q ≠ .privateIp := by
    have all : ∀ q ∈ [PiiPattern.phone, .ssn, .card], q ∈ enclosed ∧ q ≠ .privateIp := by decide
    exact all q number
  have result : redactPii u text = around.1 ++ w ++ around.2 := by
    have first : redactOne u .dbDsn (textBefore u .dbDsn text) =
        resultOf .dbDsn left ++ w ++ resultOf .dbDsn (.replaced m :: right) := by
      rw [← resultOf_pieces, split]
      unfold resultOf
      rw [List.flatMap_append, List.flatMap_append, flatMap_kept w fun _ => rfl]
    rw [redactPii_dbDsn, first]
    exact kept.redact
  have calmer := kept.calmer tables.toTextTables
  obtain ⟨some_text, -, edge, inside, edge'⟩ := (spans_enclosed mem.1).mp spans
  refine ⟨q, fun none => none around.1 w around.2 result ((spans_enclosed mem.1).mpr
    ⟨some_text, fun same => absurd same mem.2, ?_, inside, ?_⟩)⟩
  · -- no word before it, then and now
    have bare : (resultOf .dbDsn left).reverse.head?.any u.word = false := by
      rcases @source_before PiiPattern.dbDsn.replacement.toList left with same | ⟨left, m, rfl⟩
      · rw [AtEdge, word] at edge
        rw [show (resultOf .dbDsn left).reverse.head? = (sourceOf left).reverse.head? from same]
        simpa using edge
      · obtain ⟨inner, brackets⟩ := replacement_brackets .dbDsn
        rw [resultOf_concat, brackets]
        simp [tables.bracket']
    rw [AtEdge, word]
    intro before_word
    have before_word := calmer.1 before_word
    rw [show (resultOf .dbDsn left).reverse.head?.any u.toCharData.word = false from bare]
      at before_word
    cases before_word
  · have last : w.reverse.head?.any u.toCharData.word = true := by
      simpa [AtEdge] using edge'
    rw [AtEdge, last]
    intro behind_word
    have behind_word := calmer.2 behind_word.symm
    obtain ⟨inner, brackets⟩ := replacement_brackets .dbDsn
    rw [resultOf_cons, brackets] at behind_word
    simp [tables.bracket] at behind_word

theorem not_noMatch_of_matchBehindHome (tables : RedactionTables u)
    (gap : MatchBehindHome u (textBefore u .homePath text)) :
    ∃ q, ¬ NoMatch u q (redactPii u text) := by
  obtain ⟨q, not_dsn, not_home, left, m, w, right, split, spans⟩ := gap
  have mem : q ∈ enclosed := by
    cases q with
    | dbDsn => exact absurd rfl not_dsn
    | homePath => exact absurd rfl not_home
    | email | phone | ssn | card | apiKey | privateIp => decide
  obtain ⟨some_text, -, edge, inside, edge'⟩ := (spans_enclosed mem).mp spans
  have result : redactPii u text =
      (resultOf .homePath left ++ PiiPattern.homePath.replacement.toList) ++ w ++
        resultOf .homePath right := by
    rw [redactPii_homePath, ← resultOf_pieces, split]
    unfold resultOf
    rw [List.flatMap_append, List.flatMap_cons, List.flatMap_append, flatMap_kept w fun _ => rfl]
    simp [Piece.result]
  refine ⟨q, fun none => none _ w _ result ((spans_enclosed mem).mpr
    ⟨some_text, fun _ => ?_, ?_, inside, ?_⟩)⟩
  · rw [List.reverse_append]
    have mark : ¬ "://".toList.reverse.take 1 <+:
        PiiPattern.homePath.replacement.toList.reverse := by
      decide
    intro behind
    have behind := (List.take_prefix 1 _).trans behind
    exact mark (List.prefix_of_prefix_length_le behind (List.prefix_append _ _) (by decide))
  · rwa [atEdge_mark' tables]
  · have kept : piecesOf u .homePath (textBefore u .homePath text) =
        (left ++ .replaced m :: w.map .kept) ++ right := by
      rw [split]
      simp
    exact (atEdge_homePath tables kept).mpr edge'

theorem not_noMatch_of_passwordShortened
    (gap : PasswordShortened u (textBefore u .dbDsn text)) :
    ∃ q, ¬ NoMatch u q (redactPii u text) := by
  obtain ⟨before, user, long, rest, before', short, rest', split, user_spans, kept, -, password,
    c, first, host⟩ := gap
  have result : redactPii u text = before' ++ (user ++ [':']) ++ (short ++ '@' :: rest') := by
    rw [redactPii_late, split]
    exact kept.redact
  obtain ⟨host_rest, rfl⟩ : ∃ r, rest' = c :: r := by
    cases rest' with
    | nil => cases first
    | cons c' r =>
      obtain rfl := Option.some.inj first
      exact ⟨r, rfl⟩
  refine ⟨.dbDsn, fun none => none before' (user ++ (':' :: short ++ '@' :: [c])) host_rest ?_ ?_⟩
  · rw [result]
    simp
  · exact spans_dbDsn.mpr ⟨user, ':' :: short, [c], rfl, user_spans, .inr ⟨short, rfl, password⟩,
      ⟨by simp, by simpa using host⟩⟩

/-! ## Exactly when nothing is left -/

theorem noMatch_iff (tables : RedactionTables u) :
    (∀ q, NoMatch u q (redactPii u text)) ↔
      ¬ NumberBeforeDsn u (textBefore u .dbDsn text) ∧
        ¬ MatchBehindHome u (textBefore u .homePath text) ∧
        ¬ PasswordShortened u (textBefore u .dbDsn text) := by
  constructor
  · intro none
    refine ⟨fun gap => ?_, fun gap => ?_, fun gap => ?_⟩
    · obtain ⟨q, found⟩ := not_noMatch_of_numberBeforeDsn tables gap
      exact found (none q)
    · obtain ⟨q, found⟩ := not_noMatch_of_matchBehindHome tables gap
      exact found (none q)
    · obtain ⟨q, found⟩ := not_noMatch_of_passwordShortened gap
      exact found (none q)
  · rintro ⟨no_number, no_match, no_password⟩ q
    have early_none : q ∈ early → NoMatch u q (redactPii u text) := by
      intro mem x w y result spans
      exact (gap_of_early tables mem result spans).elim no_match no_number
    cases q with
    | email | phone | ssn | card | apiKey => exact early_none (by decide)
    | dbDsn =>
      intro x w y result spans
      exact no_password (gap_of_dbDsn tables result spans)
    | privateIp =>
      intro x w y result spans
      rw [redactPii_homePath] at result
      rcases back_homePath tables (by decide) result spans with gap |
        ⟨left, right, split, -, -, spans⟩
      · exact no_match gap
      · rw [textBefore_homePath] at split
        have taken : NoMatch u .privateIp (redactOne u .privateIp
            (redactOne u .dbDsn (textBefore u .dbDsn text))) := noMatch_privateIp tables
        refine taken (sourceOf left) w (sourceOf right) ?_ spans
        rw [← sourceOf_kept, ← split, source_piecesOf]
    | homePath =>
      rw [redactPii_homePath]
      exact noMatch_homePath tables

/-- What is redacted and not cut. -/
theorem sanitizeText_uncut (text : String) (check : Bool) :
    (sanitizeText u text true check false).1 = String.ofList (redactPii u text.toList) := by
  simp [sanitizeText]

/-- Nothing is left to redact, and to redact once more changes nothing, exactly if before the
late substitutions no number stood before a connection string and nothing behind a home path
that is a match but for its neighbour, and no password was shortened to one that fits. -/
theorem redaction_complete_iff (tables : RedactionTables u) (text : String)
    (check check' : Bool) :
    ((∀ q : PiiPattern, q.pattern.search u.toCharData false
        (sanitizeText u text true check false).1.toList = false) ∧
      (sanitizeText u (sanitizeText u text true check false).1 true check' false).1 =
        (sanitizeText u text true check false).1) ↔
      ¬ NumberBeforeDsn u (textBefore u .dbDsn text.toList) ∧
        ¬ MatchBehindHome u (textBefore u .homePath text.toList) ∧
        ¬ PasswordShortened u (textBefore u .dbDsn text.toList) := by
  rw [← noMatch_iff tables]
  simp only [sanitizeText_uncut, String.toList_ofList, search_eq_false_iff]
  refine ⟨And.left, fun none => ⟨none, ?_⟩⟩
  rw [redactPii_eq_self fun q _ => search_eq_false_iff.mpr (none q)]

end

theorem ascii_redactionTables : RedactionTables .ascii where
  toTextTables := ascii_tables
  asciiDigit _ _ := rfl
  asciiSpace _ _ := rfl
  asciiWord _ _ := rfl
  spaceWord c space := by
    have all : ∀ c ∈ " \t\n\r\x0b\x0c\x1c\x1d\x1e\x1f".toList,
        Unicode.ascii.word c = false := by
      decide
    exact all c (List.contains_iff_mem.mp space)

theorem redaction_complete_report :
    (∀ q : PiiPattern, q.pattern.search Unicode.ascii.toCharData false
        (sanitizeText .ascii "report" true true false).1.toList = false) ∧
      (sanitizeText .ascii (sanitizeText .ascii "report" true true false).1 true true false).1 =
        (sanitizeText .ascii "report" true true false).1 := by
  have untouched : textBefore .ascii .dbDsn "report".toList = "report".toList ∧
      textBefore .ascii .homePath "report".toList = "report".toList := by
    decide +kernel
  have no_piece : ∀ p ∈ [PiiPattern.dbDsn, .homePath], ∀ m : List Char,
      .replaced m ∉ piecesOf .ascii p "report".toList := by
    have kept : ∀ p ∈ [PiiPattern.dbDsn, .homePath],
        piecesOf .ascii p "report".toList = "report".toList.map .kept := by
      decide +kernel
    intro p mem m
    rw [kept p mem]
    simp
  refine (redaction_complete_iff ascii_redactionTables "report" true true).mpr ⟨?_, ?_, ?_⟩
  · rw [untouched.1]
    rintro ⟨q, -, left, w, m, right, around, split, -⟩
    exact no_piece .dbDsn (by simp) m (by rw [split]; simp)
  · rw [untouched.2]
    rintro ⟨q, -, -, left, m, w, right, split, -⟩
    exact no_piece .homePath (by simp) m (by rw [split]; simp)
  · rw [untouched.1]
    rintro ⟨before, user, long, rest, before', short, rest', split, -⟩
    have sign : '@' ∈ "report".toList := by
      rw [split]
      simp
    exact absurd sign (by decide)

/-- The letter behind the number goes with the connection string. -/
theorem number_left_before_dsn :
    (sanitizeText .ascii "5551234567redis://u@h" true true false).1 = "5551234567[DB_DSN]" ∧
      PiiPattern.phone.pattern.search Unicode.ascii.toCharData false
        "5551234567[DB_DSN]".toList = true ∧
      (sanitizeText .ascii "5551234567[DB_DSN]" true true false).1 = "[PHONE][DB_DSN]" := by
  decide +kernel

end LegionForge.Agent
