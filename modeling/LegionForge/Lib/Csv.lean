import Mathlib.Data.List.Basic
import Mathlib.Data.List.Induction
import Mathlib.Tactic.Common

/-!
# Comma-separated values

A writer that puts a field in quotes where it has to, and a reader that goes through a text one
character after another. Which characters end a row for the reader is open, as long as the
writer quotes a field that has one of them. Whatever is in the fields, what is written is read
back (`read_write`).
-/

namespace CsvText

/-! ## Writing -/

def escape (field : List Char) : List Char :=
  field.flatMap fun c => if c = '"' then ['"', '"'] else [c]

section
variable (special : Char → Bool)

/-- A field is quoted if it has a special character. -/
def writeField (field : List Char) : List Char :=
  if field.any special then '"' :: (escape field ++ ['"']) else field

/-- One empty field alone is quoted, so that its row is not an empty line. -/
def writeRow (row : List (List Char)) : List Char :=
  (if row = [[]] then ['"', '"'] else [','].intercalate (row.map (writeField special))) ++ ['\n']

def write (rows : List (List (List Char))) : List Char := rows.flatMap (writeRow special)

end

/-! ## Reading -/

inductive Place where
  /-- A field begins. -/
  | start
  | plain
  | quoted
  /-- After a quote within quotes -/
  | closing
  deriving DecidableEq

/-- The field and the row that are being read, and the rows before -/
structure Reader where
  place : Place
  field : List Char
  row : List (List Char)
  rows : List (List (List Char))

namespace Reader

/-- Nothing of the next row has been read. -/
def fresh (rows : List (List (List Char))) : Reader := ⟨.start, [], [], rows⟩

variable (ends : Char → Bool) (r : Reader)

def push (c : Char) (place : Place) : Reader := { r with place, field := r.field ++ [c] }

def closeField : Reader := ⟨.start, [], r.row ++ [r.field], r.rows⟩

def closeRow : Reader := .fresh (r.rows ++ [r.row ++ [r.field]])

/-- A character outside of quotes -/
def outside (c : Char) : Reader :=
  if c = ',' then r.closeField else if ends c then r.closeRow else r.push c .plain

def step (c : Char) : Reader :=
  match r.place with
  | .start =>
    if c = '"' then { r with place := .quoted }
    else if ends c && r.row.isEmpty then .fresh (r.rows ++ [[]])
    else r.outside ends c
  | .plain => r.outside ends c
  | .quoted => if c = '"' then { r with place := .closing } else r.push c .quoted
  | .closing => if c = '"' then r.push c .quoted else r.outside ends c

/-- The end of the text ends a row that has begun. -/
def finish : List (List (List Char)) :=
  if r.place = .start && r.row.isEmpty then r.rows else r.closeRow.rows

end Reader

def read (ends : Char → Bool) (text : List Char) : List (List (List Char)) :=
  (text.foldl (Reader.step ends) (.fresh [])).finish

/-! ## What is written is read -/

/-- The writer quotes what the reader takes for more than itself. -/
structure Agree (special ends : Char → Bool) : Prop where
  newline : ends '\n' = true
  quoted : ∀ c, c = ',' ∨ c = '"' ∨ ends c = true → special c = true
  comma : ends ',' = false
  quote : ends '"' = false

section
variable {special ends : Char → Bool}

theorem foldl_plain (agree : Agree special ends) {text : List Char}
    (plain : ∀ c ∈ text, special c = false) (r : Reader) (place : r.place = .plain) :
    text.foldl (Reader.step ends) r = { r with field := r.field ++ text } := by
  induction text generalizing r with
  | nil => rw [List.foldl_nil, List.append_nil]
  | cons c text ih =>
    have ordinary : c ≠ ',' ∧ ends c = false := by
      have none := plain c List.mem_cons_self
      refine ⟨fun comma => ?_, Bool.eq_false_iff.mpr fun stop => ?_⟩
      · rw [agree.quoted c (.inl comma)] at none
        cases none
      · rw [agree.quoted c (.inr (.inr stop))] at none
        cases none
    have step : r.step ends c = r.push c .plain := by
      simp [Reader.step, place, Reader.outside, ordinary]
    rw [List.foldl_cons, step, ih (fun d hd => plain d (List.mem_cons_of_mem _ hd)) _ rfl]
    simp [Reader.push, place]

theorem foldl_escape (text : List Char) (r : Reader) (place : r.place = .quoted) :
    (escape text).foldl (Reader.step ends) r = { r with field := r.field ++ text } := by
  induction text generalizing r with
  | nil => rw [escape, List.flatMap_nil, List.foldl_nil, List.append_nil]
  | cons c text ih =>
    have rest := ih (r.push c .quoted) rfl
    rw [escape, List.flatMap_cons, List.foldl_append]
    by_cases quote : c = '"'
    · have steps : ['"', '"'].foldl (Reader.step ends) r = r.push c .quoted := by
        simp [Reader.step, place, Reader.push, quote]
      rw [if_pos quote, steps, ← escape, rest]
      simp [Reader.push, place]
    · have step : [c].foldl (Reader.step ends) r = r.push c .quoted := by
        simp [Reader.step, place, quote]
      rw [if_neg quote, step, ← escape, rest]
      simp [Reader.push, place]

/-- A field is read up to the comma, or to the end of its row. -/
theorem foldl_field (agree : Agree special ends) (field : List Char) {c : Char}
    (closes : c = ',' ∨ ends c = true) (r : Reader) (place : r.place = .start)
    (empty : r.field = []) (inside : c = ',' ∨ r.row ≠ [] ∨ field ≠ []) :
    (writeField special field ++ [c]).foldl (Reader.step ends) r =
      Reader.outside ends { r with field } c := by
  have noQuote : c ≠ '"' := by
    rintro rfl
    rcases closes with comma | stop
    · cases comma
    · rw [agree.quote] at stop
      cases stop
  have outside (r' : Reader) (row : r'.row = r.row) (rows : r'.rows = r.rows)
      (content : r'.field = field) :
      r'.outside ends c = Reader.outside ends { r with field } c := by
    rcases closes with comma | stop
    · simp [Reader.outside, comma, Reader.closeField, row, rows, content]
    · by_cases comma : c = ','
      · simp [Reader.outside, comma, Reader.closeField, row, rows, content]
      · simp [Reader.outside, comma, stop, Reader.closeRow, row, rows, content]
  unfold writeField
  split
  · have opened : r.step ends '"' = { r with place := .quoted } := by
      simp [Reader.step, place]
    have whole : ('"' :: (escape field ++ ['"'])).foldl (Reader.step ends) r =
        { r with place := .closing, field := r.field ++ field } := by
      rw [List.foldl_cons, opened, List.foldl_append, foldl_escape field _ rfl]
      simp [Reader.step]
    have last : Reader.step ends { r with place := .closing, field := r.field ++ field } c =
        Reader.outside ends { r with place := .closing, field := r.field ++ field } c := by
      simp [Reader.step, noQuote]
    rw [List.foldl_append, whole, List.foldl_cons, List.foldl_nil, last]
    exact outside _ rfl rfl (by rw [empty, List.nil_append])
  · next none =>
    have plain : ∀ d ∈ field, special d = false := by simpa using none
    cases field with
    | nil =>
      have last : r.step ends c = r.outside ends c := by
        have row : (ends c && r.row.isEmpty) = false := by
          rcases inside with rfl | row | absurd_
          · rw [agree.comma, Bool.false_and]
          · rw [List.isEmpty_eq_false_iff.mpr row, Bool.and_false]
          · exact absurd rfl absurd_
        simp [Reader.step, place, noQuote, row]
      rw [List.nil_append, List.foldl_cons, List.foldl_nil, last]
      exact outside r rfl rfl empty
    | cons d text =>
      have ordinary : d ≠ ',' ∧ d ≠ '"' ∧ ends d = false := by
        have none := plain d List.mem_cons_self
        refine ⟨fun comma => ?_, fun quote => ?_, Bool.eq_false_iff.mpr fun stop => ?_⟩
        · rw [agree.quoted d (.inl comma)] at none
          cases none
        · rw [agree.quoted d (.inr (.inl quote))] at none
          cases none
        · rw [agree.quoted d (.inr (.inr stop))] at none
          cases none
      have first : r.step ends d = r.push d .plain := by
        simp [Reader.step, place, Reader.outside, ordinary]
      have last (r' : Reader) (place : r'.place = .plain) :
          r'.step ends c = r'.outside ends c := by
        simp [Reader.step, place]
      rw [List.cons_append, List.foldl_cons, first, List.foldl_append,
        foldl_plain agree (fun e he => plain e (List.mem_cons_of_mem _ he)) _ rfl,
        List.foldl_cons, List.foldl_nil, last _ rfl]
      exact outside _ rfl rfl (by simp [Reader.push, empty])

/-- A row that has begun is read up to its end. -/
theorem foldl_row (agree : Agree special ends) :
    ∀ (fields : List (List Char)) (r : Reader), r.place = .start → r.field = [] →
      fields ≠ [] → (r.row ≠ [] ∨ fields ≠ [[]]) →
      ([','].intercalate (fields.map (writeField special)) ++ ['\n']).foldl (Reader.step ends) r =
        .fresh (r.rows ++ [r.row ++ fields])
  | [], _, _, _, some_field, _ => absurd rfl some_field
  | [field], r, place, empty, _, inside => by
    have here : r.row ≠ [] ∨ field ≠ [] := inside.imp_right fun h same => h (by rw [same])
    have read := foldl_field agree field (.inr agree.newline) r place empty (.inr here)
    have close : Reader.outside ends { r with field } '\n' =
        .fresh (r.rows ++ [r.row ++ [field]]) := by
      simp [Reader.outside, agree.newline, Reader.closeRow]
    simpa [List.intercalate, close] using read
  | field :: next :: rest, r, place, empty, _, _ => by
    have read := foldl_field agree field (.inl rfl) r place empty (.inl rfl)
    have close : Reader.outside ends { r with field } ',' =
        ⟨.start, [], r.row ++ [field], r.rows⟩ := by
      simp [Reader.outside, Reader.closeField]
    have later := foldl_row agree (next :: rest) ⟨.start, [], r.row ++ [field], r.rows⟩ rfl rfl
      (List.cons_ne_nil _ _) (.inl (by simp))
    have text : [','].intercalate ((field :: next :: rest).map (writeField special)) ++ ['\n'] =
        (writeField special field ++ [',']) ++
          ([','].intercalate ((next :: rest).map (writeField special)) ++ ['\n']) := by
      simp [List.intercalate]
    rw [text, List.foldl_append, read, close, later, List.append_assoc, List.singleton_append]

theorem foldl_writeRow (agree : Agree special ends) {row : List (List Char)} (some_field : row ≠ [])
    (rows : List (List (List Char))) :
    (writeRow special row).foldl (Reader.step ends) (.fresh rows) = .fresh (rows ++ [row]) := by
  unfold writeRow
  split
  · next one =>
    simp [Reader.fresh, Reader.step, Reader.outside, agree.newline, Reader.closeRow, one]
  · next more => exact foldl_row agree row (.fresh rows) rfl rfl some_field (.inr more)

/-- What is written of rows is read back as the rows, whatever their fields are. -/
theorem read_write (agree : Agree special ends) {rows : List (List (List Char))}
    (some_fields : ∀ row ∈ rows, row ≠ []) : read ends (write special rows) = rows := by
  have fold : ∀ before, (write special rows).foldl (Reader.step ends) (.fresh before) =
      .fresh (before ++ rows) := by
    induction rows with
    | nil =>
      intro before
      rw [write, List.flatMap_nil, List.foldl_nil, List.append_nil]
    | cons row rows ih =>
      intro before
      have rest := ih fun r hr => some_fields r (List.mem_cons_of_mem _ hr)
      rw [write, List.flatMap_cons, List.foldl_append,
        foldl_writeRow agree (some_fields row List.mem_cons_self), ← write, rest,
        List.append_assoc, List.singleton_append]
  rw [read, fold, List.nil_append]
  rfl

end

end CsvText
