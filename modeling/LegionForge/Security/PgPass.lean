import LegionForge.Lib.TextFile
import LegionForge.Security.Sanitize

/-!
# The password file of PostgreSQL

`_read_pgpass` and `_write_pgpass_entry`. A lookup takes the first line whose four fields are
the ones asked for or a star, and an entry is written at the end, in place of the lines that
begin with its four fields. Before the abstract file, a list of entries, comes the text: where
the last line that is kept ends (`entries_write`), a lookup finds what it found among the kept
lines or the new entry (`read_after_write`), and where it does not, the two are run together
(`entries_write_open`).
-/

namespace LegionForge.Security

open TextFile

/-- Host, port, database and user -/
structure PgPassKey where
  host : List Char
  port : List Char
  db : List Char
  user : List Char
  deriving DecidableEq

structure PgPassEntry where
  key : PgPassKey
  password : List Char
  deriving DecidableEq

structure PgPassFile where
  text : List Char
  mode : Nat

/-- `host:port:db:user:` -/
def PgPassKey.before (k : PgPassKey) : List Char :=
  k.host ++ ':' :: (k.port ++ ':' :: (k.db ++ ':' :: (k.user ++ [':'])))

/-- `_m` -/
def fieldMatches (field value : List Char) : Bool := field = ['*'] || field = value

def PgPassEntry.answers (q : PgPassKey) (e : PgPassEntry) : Bool :=
  fieldMatches e.key.host q.host && fieldMatches e.key.port q.port &&
    fieldMatches e.key.db q.db && fieldMatches e.key.user q.user

section
variable (space : Char → Bool)

/-- A line of the file, if it is an entry -/
def parseEntry (raw : List Char) : Option PgPassEntry :=
  let line := strip space raw
  if line = [] || line.head? = some '#' then none
  else
    match line.splitOn ':' with
    | host :: port :: db :: user :: password =>
      if password = [] then none
      else some ⟨⟨host, port, db, user⟩, [':'].intercalate password⟩
    | _ => none

def entriesOf (lines : List (List Char)) : List PgPassEntry :=
  lines.filterMap (parseEntry space)

def linesOfFile (file : Option PgPassFile) : List (List Char) :=
  (file.map fun f => readLines (universal f.text)).getD []

/-- What a lookup takes from entries -/
def lookup (q : PgPassKey) (entries : List PgPassEntry) : Option (List Char) :=
  (entries.find? (·.answers q)).map (·.password)

/-- `mode & 0o077` -/
def PgPassFile.shared (f : PgPassFile) : Bool := f.mode &&& 0o077 ≠ 0

/-- `_read_pgpass`, for a user that is not empty -/
def readPgpass (file : Option PgPassFile) (q : PgPassKey) : Option (List Char) :=
  match file with
  | none => none
  | some f =>
    if f.shared then none else lookup q (entriesOf space (readLines (universal f.text)))

end

/-- The lines that an entry leaves -/
def keptLines (k : PgPassKey) (file : Option PgPassFile) : List (List Char) :=
  (linesOfFile file).filter fun line => !k.before.isPrefixOf line

/-- `_write_pgpass_entry` -/
def writePgpassEntry (file : Option PgPassFile) (k : PgPassKey) (password : List Char) :
    PgPassFile where
  text := (keptLines k file ++ [k.before ++ password ++ ['\n']]).flatten
  mode := 0o600

/-! ## One line -/

/-- Python's white space, as far as a line of the file has to do with it -/
structure LineSpace (space : Char → Bool) : Prop where
  newline : space '\n' = true
  return_ : space '\r' = true
  colon : space ':' = false

/-- A text without white space -/
def Solid (space : Char → Bool) (text : List Char) : Prop := ∀ c ∈ text, space c = false

/-- No field has a colon or white space, and the line is no comment. -/
structure PgPassKey.Plain (space : Char → Bool) (k : PgPassKey) : Prop where
  host : ':' ∉ k.host ∧ Solid space k.host
  port : ':' ∉ k.port ∧ Solid space k.port
  db : ':' ∉ k.db ∧ Solid space k.db
  user : ':' ∉ k.user ∧ Solid space k.user
  noComment : k.host.head? ≠ some '#'

section
variable {space : Char → Bool} {k : PgPassKey} {password : List Char}

theorem before_ne_nil (k : PgPassKey) : k.before ≠ [] := by
  unfold PgPassKey.before
  simp

theorem solid_before (doc : LineSpace space) (plain : k.Plain space) : Solid space k.before := by
  intro c hc
  simp only [PgPassKey.before, List.mem_append, List.mem_cons, List.not_mem_nil, or_false] at hc
  rcases hc with hc | rfl | hc | rfl | hc | rfl | hc | rfl
  · exact plain.host.2 c hc
  · exact doc.colon
  · exact plain.port.2 c hc
  · exact doc.colon
  · exact plain.db.2 c hc
  · exact doc.colon
  · exact plain.user.2 c hc
  · exact doc.colon

theorem head_before (plain : k.Plain space) : k.before.head? ≠ some '#' := by
  have first := plain.noComment
  unfold PgPassKey.before
  cases host : k.host with
  | nil => simp
  | cons c l => simpa [host] using first

/-- Four colons end the four fields. -/
theorem splitOn_before (plain : k.Plain space) (rest : List Char) :
    (k.before ++ rest).splitOn ':' = k.host :: k.port :: k.db :: k.user :: rest.splitOn ':' := by
  have shape : k.before ++ rest =
      k.host ++ ':' :: (k.port ++ ':' :: (k.db ++ ':' :: (k.user ++ ':' :: rest))) := by
    simp [PgPassKey.before]
  rw [shape, List.splitOn_append_cons_self_of_not_mem plain.host.1,
    List.splitOn_append_cons_self_of_not_mem plain.port.1,
    List.splitOn_append_cons_self_of_not_mem plain.db.1,
    List.splitOn_append_cons_self_of_not_mem plain.user.1]

theorem parse_of_strip (plain : k.Plain space) {raw rest : List Char}
    (stripped : strip space raw = k.before ++ rest) :
    parseEntry space raw = some ⟨k, rest⟩ := by
  have nonempty : k.before ++ rest ≠ [] := by simp [before_ne_nil]
  have first : (k.before ++ rest).head? ≠ some '#' := by
    rw [List.head?_append_of_ne_nil _ (before_ne_nil k)]
    exact head_before plain
  unfold parseEntry
  simp only [stripped, nonempty, first, splitOn_before plain, List.splitOn_ne_nil,
    List.intercalate_splitOn, decide_false, Bool.or_self, Bool.false_eq_true, if_false]

/-- A line that begins with the four fields is an entry for them. -/
theorem parse_before (doc : LineSpace space) (plain : k.Plain space) (text : List Char) :
    ∃ rest, parseEntry space (k.before ++ text) = some ⟨k, rest⟩ := by
  have solid := solid_before doc plain
  obtain ⟨rest, stripped, -⟩ := strip_append space
    (fun c hc => solid c (List.mem_of_head? hc))
    (fun c hc => solid c (List.mem_of_getLast? hc)) (before_ne_nil k) text
  exact ⟨rest, parse_of_strip plain stripped⟩

/-- The newline at the end is not part of an entry. -/
theorem parse_line (doc : LineSpace space) (plain : k.Plain space) {text : List Char}
    (last : ∀ c ∈ text.getLast?, space c = false) :
    parseEntry space (k.before ++ text ++ ['\n']) = some ⟨k, text⟩ := by
  have solid := solid_before doc plain
  obtain ⟨rest, stripped, blank⟩ := strip_append space (a := k.before ++ text)
    (fun c hc => solid c (List.mem_of_head? (by
      rwa [List.head?_append_of_ne_nil _ (before_ne_nil k)] at hc)))
    (fun c hc => by
      cases text with
      | nil => exact solid c (List.mem_of_getLast? (by rwa [List.append_nil] at hc))
      | cons d l =>
        rw [List.getLast?_append_of_ne_nil _ (List.cons_ne_nil d l)] at hc
        exact last c hc)
    (by simp [before_ne_nil]) ['\n']
  rw [blank (by simpa using doc.newline), List.append_nil] at stripped
  exact parse_of_strip plain stripped

/-! ## The file -/

theorem solid_last {text : List Char} (solid : Solid space text) :
    ∀ c ∈ text.getLast?, space c = false := fun c hc => solid c (List.mem_of_getLast? hc)

theorem not_mem_solid {text : List Char} (solid : Solid space text) {c : Char}
    (white : space c = true) : c ∉ text := by
  intro hc
  rw [solid c hc] at white
  cases white

theorem solid_entry (doc : LineSpace space) (plain : k.Plain space)
    (solid : Solid space password) : Solid space (k.before ++ password) := by
  intro c hc
  rcases List.mem_append.mp hc with hc | hc
  · exact solid_before doc plain c hc
  · exact solid c hc

theorem not_mem_kept (k : PgPassKey) (file : Option PgPassFile) :
    ∀ l ∈ keptLines k file, '\r' ∉ l := by
  intro l hl carriage
  have hl := (List.mem_filter.mp hl).1
  cases file with
  | none => cases hl
  | some f =>
    have all := flatten_readLines (universal f.text)
    refine not_mem_universal f.text ?_
    rw [← all]
    exact List.mem_flatten.mpr ⟨l, hl, carriage⟩

/-- What is written has the kept text in front, and no other line ending than newlines. -/
theorem universal_written (doc : LineSpace space) (file : Option PgPassFile)
    (plain : k.Plain space) (solid : Solid space password) :
    universal (writePgpassEntry file k password).text =
      (keptLines k file).flatten ++ (k.before ++ password ++ ['\n']) := by
  have text : (writePgpassEntry file k password).text =
      (keptLines k file).flatten ++ (k.before ++ password ++ ['\n']) := by
    simp [writePgpassEntry]
  rw [text]
  refine universal_of_not_mem fun carriage => ?_
  rcases List.mem_append.mp carriage with kept | new
  · obtain ⟨l, hl, hc⟩ := List.mem_flatten.mp kept
    exact not_mem_kept k file l hl hc
  · rcases List.mem_append.mp new with entry | last
    · exact not_mem_solid (solid_entry doc plain solid) doc.return_ entry
    · simp at last

theorem ended_written (doc : LineSpace space) (plain : k.Plain space)
    (solid : Solid space password) : Ended (k.before ++ password ++ ['\n']) :=
  ⟨_, not_mem_solid (solid_entry doc plain solid) doc.newline, rfl⟩

/-- Where every line that is kept ends, the new one comes after them. -/
theorem lines_write (doc : LineSpace space) (file : Option PgPassFile) (plain : k.Plain space)
    (solid : Solid space password) (ended : ∀ l ∈ keptLines k file, Ended l) :
    readLines (universal (writePgpassEntry file k password).text) =
      keptLines k file ++ [k.before ++ password ++ ['\n']] := by
  have last := readLines_ended (ended_written doc plain solid) []
  rw [List.append_nil] at last
  rw [universal_written doc file plain solid, readLines_flatten_append ended, last, readLines]

/-- A second write leaves what the first has left. -/
theorem kept_write (doc : LineSpace space) (file : Option PgPassFile) (plain : k.Plain space)
    (solid : Solid space password) (ended : ∀ l ∈ keptLines k file, Ended l) :
    keptLines k (some (writePgpassEntry file k password)) = keptLines k file := by
  have lines : linesOfFile (some (writePgpassEntry file k password)) = _ :=
    lines_write doc file plain solid ended
  have kept : (keptLines k file).filter (fun line => !k.before.isPrefixOf line) =
      keptLines k file := List.filter_eq_self.mpr fun l hl => (List.mem_filter.mp hl).2
  rw [keptLines, lines, List.filter_append, kept, List.filter_cons_of_neg (by simp),
    List.filter_nil, List.append_nil]

theorem entries_write (doc : LineSpace space) (file : Option PgPassFile) (plain : k.Plain space)
    (solid : Solid space password) (ended : ∀ l ∈ keptLines k file, Ended l) :
    entriesOf space (readLines (universal (writePgpassEntry file k password).text)) =
      entriesOf space (keptLines k file) ++ [⟨k, password⟩] := by
  rw [lines_write doc file plain solid ended, entriesOf, List.filterMap_append,
    List.filterMap_cons_some (parse_line doc plain (solid_last solid)), List.filterMap_nil,
    entriesOf]

/-- Where the last of them does not, and is an entry, the new one becomes a part of its
password. -/
theorem entries_write_open (doc : LineSpace space) (file : Option PgPassFile)
    (plain : k.Plain space) (solid : Solid space password) {lines : List (List Char)}
    {k' : PgPassKey} {password' : List Char} (plain' : k'.Plain space)
    (kept : keptLines k file = lines ++ [k'.before ++ password'])
    (ended : ∀ l ∈ lines, Ended l) (open_ : '\n' ∉ password') :
    entriesOf space (readLines (universal (writePgpassEntry file k password).text)) =
      entriesOf space lines ++ [⟨k', password' ++ (k.before ++ password)⟩] := by
  have entry := solid_entry doc plain solid
  have last : ∀ c ∈ (password' ++ (k.before ++ password)).getLast?, space c = false := by
    intro c hc
    rw [List.getLast?_append_of_ne_nil _ (by simp [before_ne_nil])] at hc
    exact entry c (List.mem_of_getLast? hc)
  have line : Ended (k'.before ++ (password' ++ (k.before ++ password)) ++ ['\n']) := by
    refine ⟨_, ?_, rfl⟩
    simp only [List.mem_append, not_or]
    exact ⟨not_mem_solid (solid_before doc plain') doc.newline, open_,
      not_mem_solid (solid_before doc plain) doc.newline, not_mem_solid solid doc.newline⟩
  have read := readLines_ended line []
  rw [List.append_nil] at read
  have text : (keptLines k file).flatten ++ (k.before ++ password ++ ['\n']) =
      lines.flatten ++ (k'.before ++ (password' ++ (k.before ++ password)) ++ ['\n']) := by
    simp [kept]
  rw [universal_written doc file plain solid, text, readLines_flatten_append ended, read, entriesOf,
    List.filterMap_append, readLines, List.filterMap_cons_some (parse_line doc plain' last),
    List.filterMap_nil, entriesOf]

/-- A file that is for the user only is read. -/
theorem read_private {file : Option PgPassFile} (private_ : ∀ f ∈ file, f.shared = false)
    (q : PgPassKey) :
    readPgpass space file q = lookup q (entriesOf space (linesOfFile file)) := by
  cases file with
  | none => rfl
  | some f =>
    rw [readPgpass, if_neg (by simp [private_ f rfl])]
    rfl

theorem read_written (file : Option PgPassFile) (q : PgPassKey) :
    readPgpass space (some (writePgpassEntry file k password)) q =
      lookup q (entriesOf space
        (readLines (universal (writePgpassEntry file k password).text))) := by
  rw [readPgpass, if_neg (by simp [PgPassFile.shared, writePgpassEntry])]

theorem lookup_concat (q : PgPassKey) (entries : List PgPassEntry) (e : PgPassEntry) :
    lookup q (entries ++ [e]) =
      (lookup q entries).or (if e.answers q then some e.password else none) := by
  rw [lookup, lookup, List.find?_append, List.find?_cons]
  cases entries.find? (·.answers q) with
  | some found => rfl
  | none => cases hit : e.answers q <;> simp

/-- A lookup after a write finds what it found among the lines that are kept, and otherwise the
new entry, whatever the file was, if each of those lines ends. -/
theorem read_after_write (space : Char → Bool) (doc : LineSpace space)
    (file : Option PgPassFile) {k : PgPassKey} {password : List Char} (plain : k.Plain space)
    (solid : Solid space password) (ended : ∀ l ∈ keptLines k file, Ended l) (q : PgPassKey) :
    readPgpass space (some (writePgpassEntry file k password)) q =
      (lookup q (entriesOf space (keptLines k file))).or
        (if PgPassEntry.answers q ⟨k, password⟩ then some password else none) := by
  rw [read_written, entries_write doc file plain solid ended, lookup_concat]

/-- If the last line that is kept is an entry that does not end, the new entry is lost: it is
found only behind the password of the other. -/
theorem read_after_open (space : Char → Bool) (doc : LineSpace space)
    (file : Option PgPassFile) {k k' : PgPassKey} {password password' : List Char}
    {lines : List (List Char)} (plain : k.Plain space) (solid : Solid space password)
    (plain' : k'.Plain space) (kept : keptLines k file = lines ++ [k'.before ++ password'])
    (ended : ∀ l ∈ lines, Ended l) (open_ : '\n' ∉ password') (q : PgPassKey) :
    readPgpass space (some (writePgpassEntry file k password)) q =
      (lookup q (entriesOf space lines)).or
        (if PgPassEntry.answers q ⟨k', password' ++ (k.before ++ password)⟩ then
          some (password' ++ (k.before ++ password)) else none) := by
  rw [read_written, entries_write_open doc file plain solid plain' kept ended open_,
    lookup_concat]

end

/-! ## An old file -/

theorem solid_of_all {space : Char → Bool} {text : List Char}
    (all : (text.all fun c => !space c) = true) : Solid space text := by
  intro c hc
  simpa using List.all_eq_true.mp all c hc

def workerKey : PgPassKey :=
  ⟨"localhost".toList, "5432".toList, "legionforge".toList, "legionforge_worker".toList⟩

def adminKey : PgPassKey := { workerKey with user := "admin".toList }

def asciiSpace (c : Char) : Bool := c = ' ' || c = '\n' || c = '\r' || c = '\t'

theorem lineSpace_ascii : LineSpace asciiSpace := ⟨rfl, rfl, rfl⟩

theorem plain_worker : workerKey.Plain asciiSpace where
  host := ⟨by decide, solid_of_all (by decide)⟩
  port := ⟨by decide, solid_of_all (by decide)⟩
  db := ⟨by decide, solid_of_all (by decide)⟩
  user := ⟨by decide, solid_of_all (by decide)⟩
  noComment := by decide

theorem plain_admin : adminKey.Plain asciiSpace where
  host := plain_worker.host
  port := plain_worker.port
  db := plain_worker.db
  user := ⟨by decide, solid_of_all (by decide)⟩
  noComment := plain_worker.noComment

/-- The last line lacks its newline. -/
def openFile : PgPassFile where
  text := "localhost:5432:legionforge:admin:a".toList
  mode := 0o600

theorem worker_lost : readPgpass asciiSpace
    (some (writePgpassEntry (some openFile) workerKey "c".toList)) workerKey = none := by
  have kept : keptLines workerKey (some openFile) = [] ++ [adminKey.before ++ ['a']] := by
    decide +kernel
  exact (read_after_open asciiSpace lineSpace_ascii (some openFile) plain_worker
    (solid_of_all (by decide)) plain_admin kept (by simp) (by decide) workerKey).trans
    (by decide +kernel)

end LegionForge.Security
