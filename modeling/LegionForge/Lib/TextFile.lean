import Mathlib.Data.List.Basic
import Mathlib.Data.List.TakeWhile
import Mathlib.Tactic.Common

/-!
# Text files

A file is read in lines that keep the newline at their end, and every kind of line ending
counts as one; only the last line may lack it. Lines that end are read back as they were put
together (`readLines_flatten_append`), and white space is taken off both ends of a line but
never from between two letters (`strip_append`).
-/

namespace TextFile

variable {α : Type}

/-- Every line ending is read as a newline. -/
def universal : List Char → List Char
  | [] => []
  | '\r' :: '\n' :: rest => '\n' :: universal rest
  | '\r' :: rest => '\n' :: universal rest
  | c :: rest => c :: universal rest

/-- The lines of a text, the newlines with them -/
def readLines : List Char → List (List Char)
  | [] => []
  | c :: rest =>
    if c = '\n' then ['\n'] :: readLines rest
    else
      match readLines rest with
      | [] => [[c]]
      | line :: lines => (c :: line) :: lines

/-- A line with a newline at its end and nowhere else -/
def Ended (line : List Char) : Prop := ∃ text, '\n' ∉ text ∧ line = text ++ ['\n']

theorem universal_of_not_mem : ∀ {text : List Char}, '\r' ∉ text → universal text = text
  | [], _ => by rw [universal]
  | c :: rest, plain => by
    rw [List.mem_cons, not_or] at plain
    rw [universal.eq_def]
    split
    · next empty => cases empty
    · next same => exact absurd (List.cons.inj same).1.symm plain.1
    · next same => exact absurd (List.cons.inj same).1.symm plain.1
    · next same =>
      obtain ⟨rfl, rfl⟩ := List.cons.inj same
      rw [universal_of_not_mem plain.2]

theorem not_mem_universal (text : List Char) : '\r' ∉ universal text := by
  fun_induction universal text with
  | case1 => exact List.not_mem_nil
  | case2 rest ih => simpa using ih
  | case3 rest _ ih => simpa using ih
  | case4 c rest _ other ih =>
    rw [List.mem_cons, not_or]
    exact ⟨fun same => other same.symm, ih⟩

theorem flatten_readLines (text : List Char) : (readLines text).flatten = text := by
  induction text with
  | nil => rfl
  | cons c rest ih =>
    rw [readLines]
    split
    · next newline => rw [List.flatten_cons, ih, newline, List.singleton_append]
    · cases more : readLines rest with
      | nil =>
        rw [more] at ih
        simp [← ih]
      | cons line lines =>
        rw [more] at ih
        simp [← ih]

/-- A line that ends is read as one, whatever follows. -/
theorem readLines_ended {line : List Char} (ended : Ended line) (rest : List Char) :
    readLines (line ++ rest) = line :: readLines rest := by
  obtain ⟨text, plain, rfl⟩ := ended
  induction text with
  | nil => rw [List.nil_append, List.singleton_append, readLines, if_pos rfl]
  | cons c text ih =>
    rw [List.mem_cons, not_or] at plain
    have tail := ih plain.2
    rw [List.append_assoc, List.singleton_append] at tail ⊢
    rw [List.cons_append, readLines, if_neg (Ne.symm plain.1), tail]
    rfl

theorem readLines_flatten_append {lines : List (List Char)} (ended : ∀ l ∈ lines, Ended l)
    (rest : List Char) : readLines (lines.flatten ++ rest) = lines ++ readLines rest := by
  induction lines with
  | nil => rfl
  | cons line lines ih =>
    rw [List.flatten_cons, List.append_assoc, readLines_ended (ended line List.mem_cons_self),
      ih fun l hl => ended l (List.mem_cons_of_mem _ hl), List.cons_append]

/-! ## White space -/

variable (space : α → Bool)

def strip (text : List α) : List α :=
  ((text.dropWhile space).reverse.dropWhile space).reverse

/-- White space is taken off no further than a letter. -/
theorem strip_append {a : List α} (first : ∀ c ∈ a.head?, space c = false)
    (last : ∀ c ∈ a.getLast?, space c = false) (nonempty : a ≠ []) (text : List α) :
    ∃ rest, strip space (a ++ text) = a ++ rest ∧ ((∀ c ∈ text, space c = true) → rest = []) := by
  obtain ⟨c, l, rfl⟩ := List.exists_cons_of_ne_nil nonempty
  have front : (c :: l ++ text).dropWhile space = c :: l ++ text := by
    rw [List.cons_append, List.dropWhile_cons_of_neg (by simp [first c rfl])]
  have back : (c :: l).reverse.dropWhile space = (c :: l).reverse := by
    cases reversed : (c :: l).reverse with
    | nil => rfl
    | cons d r =>
      have end_ : (c :: l).getLast? = some d := by
        rw [← List.head?_reverse, reversed]
        rfl
      rw [List.dropWhile_cons_of_neg (by simp [last d end_])]
  have shape : strip space (c :: l ++ text) =
      c :: l ++ (text.reverse.dropWhile space).reverse := by
    rw [strip, front, List.reverse_append, List.dropWhile_append]
    split
    · next empty =>
      rw [back, List.reverse_reverse, List.isEmpty_iff.mp empty, List.reverse_nil, List.append_nil]
    · rw [List.reverse_append, List.reverse_reverse]
  refine ⟨_, shape, fun all => ?_⟩
  rw [List.reverse_eq_nil_iff, List.dropWhile_eq_nil_iff]
  exact fun d hd => all d (List.mem_reverse.mp hd)

end TextFile
