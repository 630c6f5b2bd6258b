import Mathlib.Data.List.Basic
import Mathlib.Tactic.Common

/-!
# Lines of a text

A reader of lines that takes more characters than the newline for the end of one, and a
writer that ends each of its lines with a return and a newline. What is written of lines
without such characters reads back as the lines (`splitLines_wire`), and what is cut off
anywhere as some of the lines and a piece of the next (`splitLines_cut`).
-/

namespace TextLines

/-- Ends a line. -/
def isBreak (c : Char) : Bool :=
  c = '\n' || c = '\r' || c = '\x0b' || c = '\x0c' || c = '\x1c' || c = '\x1d' || c = '\x1e' ||
    c = '\u0085' || c = '\u2028' || c = '\u2029'

/-- The lines of what follows the beginning of a line. -/
def linesFrom (line : List Char) : List Char → List (List Char)
  | [] => if line = [] then [] else [line]
  | '\r' :: '\n' :: rest => line :: linesFrom [] rest
  | c :: rest => if isBreak c then line :: linesFrom [] rest else linesFrom (line ++ [c]) rest

def splitLines (text : List Char) : List (List Char) := linesFrom [] text

def wire (lines : List (List Char)) : List Char := lines.flatMap (· ++ ['\r', '\n'])

def Plain (line : List Char) : Prop := ∀ c ∈ line, isBreak c = false

instance : DecidablePred Plain := List.decidableBAll fun c => isBreak c = false

theorem Plain.of_prefix {l q : List Char} (plain : Plain l) (front : q <+: l) : Plain q :=
  fun c hc => plain c (front.subset hc)

theorem linesFrom_cons {c : Char} (plain : isBreak c = false) (line rest : List Char) :
    linesFrom line (c :: rest) = linesFrom (line ++ [c]) rest := by
  rw [linesFrom.eq_def]
  split
  · next empty => cases empty
  · next rest' same =>
    obtain ⟨rfl, -⟩ := List.cons.inj same
    exact absurd plain (by decide)
  · next c' rest' _ same =>
    obtain ⟨rfl, rfl⟩ := List.cons.inj same
    rw [if_neg (by simp [plain])]

theorem linesFrom_plain {l : List Char} (plain : Plain l) (line rest : List Char) :
    linesFrom line (l ++ rest) = linesFrom (line ++ l) rest := by
  induction l generalizing line with
  | nil => rw [List.append_nil, List.nil_append]
  | cons c l ih =>
    have first := plain c List.mem_cons_self
    rw [List.cons_append, linesFrom_cons first, ih fun d hd => plain d (List.mem_cons_of_mem _ hd),
      List.append_assoc, List.singleton_append]

theorem splitLines_line {l : List Char} (plain : Plain l) (rest : List Char) :
    splitLines (l ++ '\r' :: '\n' :: rest) = l :: splitLines rest := by
  rw [splitLines, linesFrom_plain plain]
  rfl

theorem splitLines_return {l : List Char} (plain : Plain l) : splitLines (l ++ ['\r']) = [l] := by
  rw [splitLines, linesFrom_plain plain]
  rfl

theorem splitLines_plain {l : List Char} (plain : Plain l) (some_char : l ≠ []) :
    splitLines l = [l] := by
  have read := linesFrom_plain plain [] []
  rw [List.append_nil, List.nil_append] at read
  rw [splitLines, read, linesFrom, if_neg some_char]

theorem wire_cons (l : List Char) (lines : List (List Char)) :
    wire (l :: lines) = l ++ '\r' :: '\n' :: wire lines := by
  simp [wire]

theorem wire_append (front back : List (List Char)) :
    wire (front ++ back) = wire front ++ wire back := by
  simp [wire]

theorem splitLines_wire {lines : List (List Char)} (plain : ∀ l ∈ lines, Plain l)
    (rest : List Char) : splitLines (wire lines ++ rest) = lines ++ splitLines rest := by
  induction lines with
  | nil => rfl
  | cons l lines ih =>
    have text : wire (l :: lines) ++ rest = l ++ '\r' :: '\n' :: (wire lines ++ rest) := by
      simp [wire_cons]
    rw [text, splitLines_line (plain l List.mem_cons_self),
      ih fun l hl => plain l (List.mem_cons_of_mem _ hl), List.cons_append]

theorem prefix_of_append {α : Type} {p l r : List α} (part : p <+: l ++ r) :
    p <+: l ∨ ∃ q, p = l ++ q ∧ q <+: r := by
  obtain ⟨t, same⟩ := part
  rcases List.append_eq_append_iff.mp same with ⟨u, whole, -⟩ | ⟨u, whole, rest⟩
  · exact .inl ⟨u, whole.symm⟩
  · exact .inr ⟨u, whole, t, rest.symm⟩

/-- Where a text is cut that begins with a line: within the line, behind its return, or
behind the line. -/
theorem cut_line {p l rest : List Char} (cut : p <+: l ++ '\r' :: '\n' :: rest) :
    p <+: l ∨ p = l ++ ['\r'] ∨ ∃ q, q <+: rest ∧ p = l ++ '\r' :: '\n' :: q := by
  rcases prefix_of_append cut with within | ⟨u, rfl, ending⟩
  · exact .inl within
  · match u, ending with
    | [], _ => exact .inl (by simp)
    | [c], ending =>
      obtain ⟨rfl, -⟩ := List.cons_prefix_cons.mp ending
      exact .inr (.inl rfl)
    | c :: d :: q, ending =>
      simp only [List.cons_prefix_cons] at ending
      obtain ⟨rfl, rfl, more⟩ := ending
      exact .inr (.inr ⟨q, more, rfl⟩)

/-- Of a text that is cut off the reader gives whole lines, and perhaps a piece of the next. -/
theorem splitLines_cut {lines : List (List Char)} (plain : ∀ l ∈ lines, Plain l) {p : List Char}
    (cut : p <+: wire lines) :
    ∃ front, front <+: lines ∧
      (splitLines p = front ∨ ∃ piece, piece ≠ [] ∧ splitLines p = front ++ [piece]) := by
  induction lines generalizing p with
  | nil =>
    obtain rfl : p = [] := List.prefix_nil.mp cut
    exact ⟨[], List.nil_prefix, .inl rfl⟩
  | cons l lines ih =>
    have first := plain l List.mem_cons_self
    rw [wire_cons] at cut
    rcases cut_line cut with within | rfl | ⟨q, more, rfl⟩
    · by_cases empty : p = []
      · exact ⟨[], List.nil_prefix, .inl (by rw [empty]; rfl)⟩
      · have piece := splitLines_plain (first.of_prefix within) empty
        exact ⟨[], List.nil_prefix, .inr ⟨p, empty, piece⟩⟩
    · exact ⟨[l], ⟨lines, rfl⟩, .inl (splitLines_return first)⟩
    · obtain ⟨front, part, ends⟩ := ih (fun l hl => plain l (List.mem_cons_of_mem _ hl)) more
      refine ⟨l :: front, List.cons_prefix_cons.mpr ⟨rfl, part⟩, ?_⟩
      rw [splitLines_line first]
      rcases ends with whole | ⟨piece, some_char, whole⟩
      · exact .inl (by rw [whole])
      · exact .inr ⟨piece, some_char, by rw [whole, List.cons_append]⟩

end TextLines
