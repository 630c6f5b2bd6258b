import Mathlib.Data.List.Basic
import Mathlib.Tactic.Common

/-!
# Backtracking regular expressions

The fragment of the usual pattern language that word filters are written in:
character classes, sequence, ordered alternation, greedy bounded repetition,
word boundaries and the two negative look-arounds. A pattern is run by listing
the places it can stop at, best first, so the first one is the match a
backtracking engine reports and any one at all is what a search asks for.

What a character is (a digit, a space, a letter, and which characters a match
that ignores case identifies) is asked of a `CharData`, so nothing here depends
on a version of the Unicode tables.
-/

namespace Regex

/-- A check over listed characters runs along the list, where Batteries' own instance would run
over every character. -/
instance (priority := high) decidableListedChars {p : Char → Prop} [DecidablePred p]
    (chars : List Char) : Decidable (∀ c ∈ chars, p c) :=
  List.decidableBAll p chars

/-- What a pattern asks of the character tables. -/
structure CharData where
  space : Char → Bool
  digit : Char → Bool
  word : Char → Bool
  /-- The characters a match that ignores case reads `c` as, `c` among them. -/
  variants : Char → List Char

inductive ClassItem where
  | char (c : Char)
  | range (lo hi : Char)
  | space
  | digit
  | word

inductive Pattern where
  | set (negated : Bool) (items : List ClassItem)
  | empty
  | seq (p q : Pattern)
  | alt (p q : Pattern)
  | rep (p : Pattern) (lo : Nat) (hi : Option Nat)
  | boundary
  | notBehind (text : List Char)
  | notAhead (p : Pattern)

/-- A position in a text: what was read, last character first, and what is
left to read. -/
structure Place where
  before : List Char
  after : List Char

section
variable (d : CharData) (ignoreCase : Bool)

def ClassItem.holds (c : Char) : ClassItem → Bool
  | .char x => c = x
  | .range lo hi => lo ≤ c && c ≤ hi
  | .space => d.space c
  | .digit => d.digit c
  | .word => d.word c

def classHolds (items : List ClassItem) (c : Char) : Bool :=
  if ignoreCase then (d.variants c).any fun v => items.any (·.holds d v)
  else items.any (·.holds d c)

/-- Greedy repetition of one round: more rounds first. A round has to consume
something, so the number of rounds is bounded by the text. -/
def repeated (round : Place → List Place) :
    Nat → Nat → Option Nat → Place → List Place
  | 0, lo, _, s => if lo = 0 then [s] else []
  | fuel + 1, lo, hi, s =>
    (if hi = some 0 then []
      else (round s).flatMap fun t =>
        if t.after.length < s.after.length then
          repeated round fuel (lo - 1) (hi.map (· - 1)) t
        else []) ++
      if lo = 0 then [s] else []

/-- The places the pattern can stop at when started at `s`, best first. -/
def Pattern.ends : Pattern → Place → List Place
  | .set negated items, s =>
    match s.after with
    | [] => []
    | c :: rest =>
      if classHolds d ignoreCase items c != negated then [⟨c :: s.before, rest⟩]
      else []
  | .empty, s => [s]
  | .seq p q, s => (p.ends s).flatMap q.ends
  | .alt p q, s => p.ends s ++ q.ends s
  | .rep p lo hi, s => repeated p.ends (s.after.length + 1) lo hi s
  | .boundary, s =>
    if s.before.head?.any d.word != s.after.head?.any d.word then [s] else []
  | .notBehind text, s =>
    if text.reverse.isPrefixOf s.before then [] else [s]
  | .notAhead p, s => if (p.ends s).isEmpty then [s] else []

/-- A match anywhere in what is left to read. -/
def Pattern.searchFrom (p : Pattern) : List Char → List Char → Bool
  | before, [] => !(p.ends d ignoreCase ⟨before, []⟩).isEmpty
  | before, c :: rest =>
    !(p.ends d ignoreCase ⟨before, c :: rest⟩).isEmpty ||
      Pattern.searchFrom p (c :: before) rest

def Pattern.search (p : Pattern) (text : List Char) : Bool :=
  p.searchFrom d ignoreCase [] text

/-- Every leftmost match, from left to right and without overlap, replaced. -/
def Pattern.subFrom (p : Pattern) (replacement : List Char) :
    Nat → List Char → List Char → List Char
  | 0, _, after => after
  | _ + 1, _, [] => []
  | fuel + 1, before, c :: rest =>
    match p.ends d ignoreCase ⟨before, c :: rest⟩ with
    | t :: _ =>
      if t.after.length ≤ rest.length then
        replacement ++ Pattern.subFrom p replacement fuel t.before t.after
      else c :: Pattern.subFrom p replacement fuel (c :: before) rest
    | [] => c :: Pattern.subFrom p replacement fuel (c :: before) rest

def Pattern.sub (p : Pattern) (replacement text : List Char) : List Char :=
  p.subFrom d ignoreCase replacement text.length [] text

end

/-! ## Writing patterns -/

def chr (c : Char) : Pattern := .set false [.char c]

def seqs (ps : List Pattern) : Pattern := ps.foldr .seq .empty

def alts : List Pattern → Pattern
  | [] => .notAhead .empty
  | [p] => p
  | p :: ps => .alt p (alts ps)

/-- The text itself. -/
def lit (text : String) : Pattern := seqs (text.toList.map chr)

def words (texts : List String) : Pattern := alts (texts.map lit)

def opt (p : Pattern) : Pattern := .rep p 0 (some 1)

def star (p : Pattern) : Pattern := .rep p 0 none

def plus (p : Pattern) : Pattern := .rep p 1 none

def times (p : Pattern) (n : Nat) : Pattern := .rep p n (some n)

/-- One of the characters of the text. -/
def oneOf (text : String) : Pattern := .set false (text.toList.map .char)

def noneOf (text : String) : Pattern := .set true (text.toList.map .char)

def spaces : Pattern := plus (.set false [.space])

def digits (lo : Nat) (hi : Option Nat) : Pattern :=
  .rep (.set false [.digit]) lo hi

/-! ## A text without a match is left as it is -/

theorem subFrom_eq_self {d : CharData} {ignoreCase : Bool} {p : Pattern}
    {replacement : List Char} : ∀ {fuel : Nat} {before after : List Char},
    p.searchFrom d ignoreCase before after = false →
    p.subFrom d ignoreCase replacement fuel before after = after := by
  intro fuel
  induction fuel with
  | zero => intro before after _; rfl
  | succ fuel ih =>
    intro before after h
    match after with
    | [] => rfl
    | c :: rest =>
      obtain ⟨here, later⟩ := Bool.or_eq_false_iff.mp h
      have none : p.ends d ignoreCase ⟨before, c :: rest⟩ = [] := by
        simpa using here
      rw [Pattern.subFrom, none]
      exact congrArg (c :: ·) (ih later)

theorem sub_eq_self {d : CharData} {ignoreCase : Bool} {p : Pattern}
    {replacement text : List Char} (h : p.search d ignoreCase text = false) :
    p.sub d ignoreCase replacement text = text :=
  subFrom_eq_self h

end Regex
