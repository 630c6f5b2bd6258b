import LegionForge.Lib.Machine
import LegionForge.Security.PgPass
import Mathlib.Logic.Function.Basic

/-!
# The passwords of the database roles

`_get_or_generate_role_password`. Each process asks the credential store, its environment and
the password file for the password of a role, makes one up where there is none, and writes it to
the file; reading the old lines, emptying the file, writing it and closing it to others are
steps of their own, and other processes may run in between. The keychain gets a copy that
nothing asks for, since the store does not know the roles.

What the processes agree on is a book of passwords in which a role is entered once
(`Settled`). As long as no process steps while another is between its lookup and the end of
its write, all that is ever answered for a role is the same (`role_passwords_agree`); two that
overlap may each have their own (`role_passwords_apart`).
-/

namespace LegionForge.Security

open TextFile

/-- The roles that `_setup_db_roles` creates -/
inductive DatabaseRole where
  | worker
  | gateway
  | maintenance
  | guardian
  | readonly
  deriving DecidableEq

def DatabaseRole.name : DatabaseRole → List Char
  | .worker => "legionforge_worker".toList
  | .gateway => "legionforge_gateway".toList
  | .maintenance => "legionforge_maintenance".toList
  | .guardian => "legionforge_guardian".toList
  | .readonly => "legionforge_readonly".toList

/-- `POSTGRES_HOST`, `POSTGRES_PORT` and `POSTGRES_DB` -/
structure DatabasePlace where
  host : List Char
  port : List Char
  db : List Char

def DatabasePlace.key (place : DatabasePlace) (role : DatabaseRole) : PgPassKey :=
  ⟨place.host, place.port, place.db, role.name⟩

/-- `_safe` -/
def safeLetters : List Char :=
  "abcdefghijklmnopqrstuvwxyzABCDEFGHIJKLMNOPQRSTUVWXYZ0123456789_-+=".toList

/-- What `secrets.choice` makes, one letter after another -/
structure RolePassword where
  text : List Char
  letters : ∀ c ∈ text, c ∈ safeLetters
  length : text.length = 32

/-- How far a process has got with a password it has made up -/
inductive PasswordStage where
  | idle
  | generated (role : DatabaseRole) (password : List Char)
  | linesRead (role : DatabaseRole) (password : List Char) (lines : List (List Char))
  | truncated (role : DatabaseRole) (password : List Char) (lines : List (List Char))
  | written (role : DatabaseRole) (password : List Char)
  deriving DecidableEq

structure RoleProcess where
  /-- `_creds`, if it is initialized -/
  creds : Option (DatabaseRole → Option (List Char))
  /-- `POSTGRES_<ROLE_UPPER>_PASSWORD` -/
  environ : DatabaseRole → Option (List Char)
  /-- `_role_pw_cache` -/
  cache : DatabaseRole → Option (List Char)
  stage : PasswordStage

namespace RoleProcess

def start (creds : Option (DatabaseRole → Option (List Char)))
    (environ : DatabaseRole → Option (List Char)) : RoleProcess :=
  ⟨creds, environ, fun _ => none, .idle⟩

variable (q : RoleProcess) (role : DatabaseRole) (password : List Char)

/-- What the store has, or else the environment -/
def known : Option (List Char) :=
  ((q.creds.bind (· role)).filter (· ≠ [])).or ((q.environ role).filter (· ≠ []))

def remember (stage : PasswordStage) : RoleProcess :=
  { q with cache := Function.update q.cache role (some password), stage }

end RoleProcess

structure PasswordHost (ρ : Type) where
  /-- `~/.pgpass` -/
  file : Option PgPassFile
  process : ρ → RoleProcess

inductive PasswordAction (ρ : Type) where
  /-- A process ends, at any place, and starts again. -/
  | restart (p : ρ) (creds : Option (DatabaseRole → Option (List Char)))
      (environ : DatabaseRole → Option (List Char))
  | ask (p : ρ) (role : DatabaseRole) (generated : RolePassword)
  | readLines (p : ρ)
  | truncate (p : ρ)
  | writeLines (p : ρ)
  | protect (p : ρ)
  /-- `_write_pgpass_entry` raises. -/
  | fail (p : ρ)
  /-- The file is changed by others. -/
  | edit (file : Option PgPassFile)

inductive PasswordLabel where
  | quiet
  | answered (role : DatabaseRole) (password : List Char)
  deriving DecidableEq

/-- What is written at the start of a file -/
def PgPassFile.overwrite (f : PgPassFile) (text : List Char) : PgPassFile :=
  { f with text := text ++ f.text.drop text.length }

/-- A file that is not there is made with the mode. -/
def emptied (newMode : Nat) (file : Option PgPassFile) : PgPassFile :=
  ⟨[], (file.map (·.mode)).getD newMode⟩

section
variable {ρ : Type} [DecidableEq ρ] (space : Char → Bool) (place : DatabasePlace) (newMode : Nat)

/-- The lines of `writelines` -/
def newLines (role : DatabaseRole) (password : List Char) (lines : List (List Char)) :
    List (List Char) :=
  (lines.filter fun line => !(place.key role).before.isPrefixOf line) ++
    [(place.key role).before ++ password ++ ['\n']]

def PasswordHost.put (s : PasswordHost ρ) (p : ρ) (q : RoleProcess) : PasswordHost ρ :=
  { s with process := Function.update s.process p q }

def PasswordHost.at_ (s : PasswordHost ρ) (p : ρ) (stage : PasswordStage) : PasswordHost ρ :=
  s.put p { s.process p with stage }

def PasswordHost.step (s : PasswordHost ρ) :
    PasswordAction ρ → Option (PasswordHost ρ × PasswordLabel)
  | .restart p creds environ => some (s.put p (.start creds environ), .quiet)
  | .ask p role generated =>
    let q := s.process p
    if q.stage ≠ .idle then none
    else
      match q.cache role with
      | some password => some (s, .answered role password)
      | none =>
        match (q.known role).or ((readPgpass space s.file (place.key role)).filter (· ≠ [])) with
        | some password =>
          some (s.put p (q.remember role password .idle), .answered role password)
        | none =>
          some (s.put p (q.remember role generated.text (.generated role generated.text)), .quiet)
  | .readLines p =>
    match (s.process p).stage with
    | .generated role password =>
      some (s.at_ p (.linesRead role password (linesOfFile s.file)), .quiet)
    | _ => none
  | .truncate p =>
    match (s.process p).stage with
    | .linesRead role password lines =>
      some ({ s.at_ p (.truncated role password lines) with
        file := some (emptied newMode s.file) }, .quiet)
    | _ => none
  | .writeLines p =>
    match (s.process p).stage with
    | .truncated role password lines =>
      some ({ s.at_ p (.written role password) with
        file := s.file.map (·.overwrite (newLines place role password lines).flatten) }, .quiet)
    | _ => none
  | .protect p =>
    match (s.process p).stage with
    | .written role password =>
      some ({ s.at_ p .idle with file := s.file.map ({ · with mode := 0o600 }) },
        .answered role password)
    | _ => none
  | .fail p =>
    match (s.process p).stage with
    | .idle => none
    | .generated role password | .linesRead role password _ | .truncated role password _
    | .written role password => some (s.at_ p .idle, .answered role password)
  | .edit file => some ({ s with file }, .quiet)

def passwordHost : Machine (PasswordHost ρ) (PasswordAction ρ) PasswordLabel where
  step s a := s.step space place newMode a

end

abbrev PasswordStep (ρ : Type) := Machine.Entry (PasswordHost ρ) (PasswordAction ρ) PasswordLabel

/-! ## What a step does -/

section
variable {ρ : Type} [DecidableEq ρ] {space : Char → Bool} {place : DatabasePlace} {newMode : Nat}

section
variable (s : PasswordHost ρ) (p : ρ)

@[simp] theorem process_put (q : RoleProcess) : (s.put p q).process p = q :=
  Function.update_self ..

theorem process_put_of_ne {o : ρ} (other : o ≠ p) (q : RoleProcess) :
    (s.put p q).process o = s.process o := Function.update_of_ne other ..

@[simp] theorem cache_at (o : ρ) (stage : PasswordStage) :
    ((s.at_ p stage).process o).cache = (s.process o).cache := by
  by_cases same : o = p
  · rw [same, PasswordHost.at_, process_put]
  · rw [PasswordHost.at_, process_put_of_ne s p same]

@[simp] theorem known_at (o : ρ) (stage : PasswordStage) :
    ((s.at_ p stage).process o).known = (s.process o).known := by
  by_cases same : o = p
  · rw [same, PasswordHost.at_, process_put]
    rfl
  · rw [PasswordHost.at_, process_put_of_ne s p same]

@[simp] theorem known_remember (q : RoleProcess) (role : DatabaseRole) (password : List Char)
    (stage : PasswordStage) : (q.remember role password stage).known = q.known := rfl

end

inductive PasswordMove (space : Char → Bool) (place : DatabasePlace) (newMode : Nat)
    (s : PasswordHost ρ) : PasswordAction ρ → PasswordHost ρ → PasswordLabel → Prop
  | restarted {p : ρ} {creds : Option (DatabaseRole → Option (List Char))}
      {environ : DatabaseRole → Option (List Char)} :
      PasswordMove space place newMode s (.restart p creds environ)
        (s.put p (.start creds environ)) .quiet
  | remembered {p : ρ} {role : DatabaseRole} {generated : RolePassword} {password : List Char}
      (idle : (s.process p).stage = .idle) (cached : (s.process p).cache role = some password) :
      PasswordMove space place newMode s (.ask p role generated) s (.answered role password)
  | found {p : ρ} {role : DatabaseRole} {generated : RolePassword} {password : List Char}
      (idle : (s.process p).stage = .idle)
      (known : ((s.process p).known role).or
        ((readPgpass space s.file (place.key role)).filter (· ≠ [])) = some password) :
      PasswordMove space place newMode s (.ask p role generated)
        (s.put p ((s.process p).remember role password .idle)) (.answered role password)
  | generated {p : ρ} {role : DatabaseRole} {generated : RolePassword}
      (idle : (s.process p).stage = .idle) (new : (s.process p).cache role = none)
      (unknown : ((s.process p).known role).or
        ((readPgpass space s.file (place.key role)).filter (· ≠ [])) = none) :
      PasswordMove space place newMode s (.ask p role generated)
        (s.put p ((s.process p).remember role generated.text (.generated role generated.text)))
        .quiet
  | linesRead {p : ρ} {role : DatabaseRole} {password : List Char}
      (stage : (s.process p).stage = .generated role password) :
      PasswordMove space place newMode s (.readLines p)
        (s.at_ p (.linesRead role password (linesOfFile s.file))) .quiet
  | truncated {p : ρ} {role : DatabaseRole} {password : List Char} {lines : List (List Char)}
      (stage : (s.process p).stage = .linesRead role password lines) :
      PasswordMove space place newMode s (.truncate p)
        { s.at_ p (.truncated role password lines) with
          file := some (emptied newMode s.file) } .quiet
  | written {p : ρ} {role : DatabaseRole} {password : List Char} {lines : List (List Char)}
      (stage : (s.process p).stage = .truncated role password lines) :
      PasswordMove space place newMode s (.writeLines p)
        { s.at_ p (.written role password) with
          file := s.file.map (·.overwrite (newLines place role password lines).flatten) } .quiet
  | protected_ {p : ρ} {role : DatabaseRole} {password : List Char}
      (stage : (s.process p).stage = .written role password) :
      PasswordMove space place newMode s (.protect p)
        { s.at_ p .idle with file := s.file.map ({ · with mode := 0o600 }) }
        (.answered role password)
  | failed {p : ρ} {role : DatabaseRole} {password : List Char} :
      PasswordMove space place newMode s (.fail p) (s.at_ p .idle) (.answered role password)
  | edited {file : Option PgPassFile} :
      PasswordMove space place newMode s (.edit file) { s with file } .quiet

theorem password_moves {x : PasswordStep ρ} (h : (passwordHost space place newMode).Steps x) :
    PasswordMove space place newMode x.before x.input x.after x.label := by
  obtain ⟨s, a, label, s'⟩ := x
  have h : s.step space place newMode a = some (s', label) := h
  cases a with
  | restart p creds environ =>
    cases h
    exact .restarted
  | ask p role generated =>
    simp only [PasswordHost.step] at h
    split at h
    · cases h
    · next idle =>
      have idle := not_not.mp idle
      split at h
      · next cached =>
        cases h
        exact .remembered idle cached
      · next new =>
        split at h
        · next known =>
          cases h
          exact .found idle known
        · next unknown =>
          cases h
          exact .generated idle new unknown
  | readLines p =>
    simp only [PasswordHost.step] at h
    split at h
    · next stage =>
      cases h
      exact .linesRead stage
    · cases h
  | truncate p =>
    simp only [PasswordHost.step] at h
    split at h
    · next stage =>
      cases h
      exact .truncated stage
    · cases h
  | writeLines p =>
    simp only [PasswordHost.step] at h
    split at h
    · next stage =>
      cases h
      exact .written stage
    · cases h
  | protect p =>
    simp only [PasswordHost.step] at h
    split at h
    · next stage =>
      cases h
      exact .protected_ stage
    · cases h
  | fail p =>
    simp only [PasswordHost.step] at h
    split at h <;> cases h
    all_goals exact .failed
  | edit file =>
    cases h
    exact .edited

/-! ## The book of passwords -/

/-- The file is for the user only, its lines end, and it answers for every role as the book
does. -/
structure Holds (space : Char → Bool) (place : DatabasePlace) (file : Option PgPassFile)
    (book : DatabaseRole → Option (List Char)) : Prop where
  private_ : ∀ f ∈ file, f.shared = false
  ended : ∀ l ∈ linesOfFile file, Ended l
  answers : ∀ role, readPgpass space file (place.key role) = book role
  nonempty : ∀ role, book role ≠ some []

/-- Python's white space, the letters of passwords included -/
structure RoleSpace (space : Char → Bool) : Prop extends LineSpace space where
  letters : ∀ c ∈ safeLetters, space c = false

structure DatabasePlace.Plain (space : Char → Bool) (place : DatabasePlace) : Prop where
  host : ':' ∉ place.host ∧ Solid space place.host
  port : ':' ∉ place.port ∧ Solid space place.port
  db : ':' ∉ place.db ∧ Solid space place.db
  noComment : place.host.head? ≠ some '#'

theorem name_letters (role : DatabaseRole) :
    (role.name.all fun c => safeLetters.contains c && c ≠ ':') = true := by
  cases role <;> decide

theorem plain_key (doc : RoleSpace space) (plain : place.Plain space) (role : DatabaseRole) :
    (place.key role).Plain space := by
  have letters (c : Char) (hc : c ∈ role.name) : c ∈ safeLetters ∧ c ≠ ':' := by
    simpa using List.all_eq_true.mp (name_letters role) c hc
  exact {
    host := plain.host
    port := plain.port
    db := plain.db
    user := ⟨fun h => (letters ':' h).2 rfl, fun c hc => doc.letters c (letters c hc).1⟩
    noComment := plain.noComment }

theorem RolePassword.solid (doc : RoleSpace space) (w : RolePassword) : Solid space w.text :=
  fun c hc => doc.letters c (w.letters c hc)

theorem RolePassword.ne_nil (w : RolePassword) : w.text ≠ [] := by
  intro empty
  have length := w.length
  rw [empty] at length
  cases length

/-- An entry for a role answers for no other. -/
theorem answers_role (role other : DatabaseRole) (password : List Char) :
    PgPassEntry.answers (place.key role) ⟨place.key other, password⟩ = decide (role = other) := by
  have user : fieldMatches other.name role.name = decide (role = other) := by
    cases role <;> cases other <;> decide
  simp [PgPassEntry.answers, DatabasePlace.key, fieldMatches] at user ⊢
  exact user

/-- A file that answers nothing for a role has no line that an entry for the role replaces. -/
theorem kept_of_unanswered (doc : RoleSpace space) (plain : place.Plain space)
    {file : Option PgPassFile} {role : DatabaseRole} (private_ : ∀ f ∈ file, f.shared = false)
    (unanswered : readPgpass space file (place.key role) = none) :
    keptLines (place.key role) file = linesOfFile file := by
  refine List.filter_eq_self.mpr fun line hl => ?_
  by_contra begins
  have begins : (place.key role).before <+: line := by simpa using begins
  obtain ⟨text, rfl⟩ := begins
  obtain ⟨rest, parsed⟩ := parse_before doc.toLineSpace (plain_key doc plain role) text
  rw [read_private private_, lookup, Option.map_eq_none_iff, List.find?_eq_none] at unanswered
  refine unanswered _ (List.mem_filterMap.mpr ⟨_, hl, parsed⟩) ?_
  rw [answers_role, decide_eq_true rfl]

/-- An entry for a role that has none is put into the book, and nothing else changes. -/
theorem holds_write (doc : RoleSpace space) (plain : place.Plain space)
    {file : Option PgPassFile} {book : DatabaseRole → Option (List Char)} {role : DatabaseRole}
    (holds : Holds space place file book) (free : book role = none) (w : RolePassword) :
    Holds space place (some (writePgpassEntry file (place.key role) w.text))
      (Function.update book role (some w.text)) := by
  have kept := kept_of_unanswered doc plain holds.private_ ((holds.answers role).trans free)
  have ended : ∀ l ∈ keptLines (place.key role) file, Ended l := by
    rw [kept]
    exact holds.ended
  have solid := w.solid doc
  have entry := plain_key doc plain role
  refine ⟨?_, ?_, ?_, ?_⟩
  · rintro f ⟨⟩
    simp [PgPassFile.shared, writePgpassEntry]
  · have lines : linesOfFile (some (writePgpassEntry file (place.key role) w.text)) = _ :=
      lines_write doc.toLineSpace file entry solid ended
    rw [lines]
    intro l hl
    rcases List.mem_append.mp hl with old | new
    · exact ended l old
    · rw [List.mem_singleton.mp new]
      exact ended_written doc.toLineSpace entry solid
  · intro other
    have before : lookup (place.key other) (entriesOf space (keptLines (place.key role) file)) =
        book other := by
      rw [kept, ← holds.answers other, read_private holds.private_]
    rw [read_after_write space doc.toLineSpace file entry solid ended, before, answers_role]
    by_cases same : other = role
    · rw [same, free, Function.update_self, decide_eq_true rfl, if_pos rfl, Option.none_or]
    · rw [Function.update_of_ne same, decide_eq_false same, if_neg Bool.false_ne_true,
        Option.or_none]
  · intro other
    by_cases same : other = role
    · rw [same, Function.update_self]
      intro empty
      exact w.ne_nil (Option.some.inj empty)
    · rw [Function.update_of_ne same]
      exact holds.nonempty other

/-! ## Agreement -/

/-- A password that was made up is entered for a role that has none. -/
structure Entering (old : DatabaseRole → Option (List Char)) (role : DatabaseRole)
    (password : List Char) (book : DatabaseRole → Option (List Char)) : Prop where
  free : old role = none
  made : ∃ w : RolePassword, w.text = password
  new : book = Function.update old role (some password)

theorem Entering.entered {old book : DatabaseRole → Option (List Char)} {role : DatabaseRole}
    {password : List Char} (h : Entering old role password book) :
    book role = some password := by
  rw [h.new, Function.update_self]

/-- The file of a process that is about to enter a password, or has done so in part -/
def StageHolds (space : Char → Bool) (place : DatabasePlace) (stage : PasswordStage)
    (file : Option PgPassFile) (book : DatabaseRole → Option (List Char)) : Prop :=
  match stage with
  | .idle => Holds space place file book
  | .generated role password =>
    ∃ old, Holds space place file old ∧ Entering old role password book
  | .linesRead role password lines =>
    ∃ old, Holds space place file old ∧ Entering old role password book ∧
      lines = linesOfFile file
  | .truncated role password lines =>
    ∃ file₀ old, Holds space place file₀ old ∧ Entering old role password book ∧
      lines = linesOfFile file₀ ∧ ∃ mode, file = some ⟨[], mode⟩
  | .written role password =>
    ∃ file₀ old, Holds space place file₀ old ∧ Entering old role password book ∧
      ∃ mode, file = some { writePgpassEntry file₀ (place.key role) password with mode }

/-- All but one process are idle, and what any of them remembers is in the book. -/
structure Settled (space : Char → Bool) (place : DatabasePlace) (s : PasswordHost ρ)
    (book : DatabaseRole → Option (List Char)) (p : ρ) : Prop where
  others : ∀ o, o ≠ p → (s.process o).stage = .idle
  cached : ∀ o role password, (s.process o).cache role = some password →
    book role = some password
  unknown : ∀ o role, (s.process o).known role = none
  holds : StageHolds space place (s.process p).stage s.file book

/-- No process begins to ask while another is in between, no start brings a password of its own
or comes in between, no write fails, and what others do to the file keeps its answers. -/
def Orderly (space : Char → Bool) (place : DatabasePlace) (x : PasswordStep ρ) : Prop :=
  match x.input with
  | .restart p creds environ => (x.before.process p).stage = .idle ∧
      ∀ role, (RoleProcess.start creds environ).known role = none
  | .ask p _ _ => ∀ o, o ≠ p → (x.before.process o).stage = .idle
  | .fail _ => False
  | .edit file => (∀ o, (x.before.process o).stage = .idle) ∧
      Holds space place file fun role => readPgpass space x.before.file (place.key role)
  | _ => True

section
variable {s : PasswordHost ρ} {book : DatabaseRole → Option (List Char)} {p : ρ}

theorem settled_by (settled : Settled space place s book p) {o : ρ}
    (others : ∀ o', o' ≠ o → (s.process o').stage = .idle) : Settled space place s book o := by
  by_cases same : o = p
  · rw [same]
    exact settled
  · have holds := settled.holds
    rw [others p (Ne.symm same)] at holds
    exact { settled with
      others
      holds := by rwa [settled.others o same] }

/-- The process that is in between is the one the book is settled by. -/
theorem settled_busy (settled : Settled space place s book p) {o : ρ} {stage : PasswordStage}
    (busy : (s.process o).stage = stage) (here : stage ≠ .idle) : o = p := by
  by_contra other
  exact here (busy.symm.trans (settled.others o other))

theorem settled_at (settled : Settled space place s book p) {stage : PasswordStage}
    {file : Option PgPassFile} (holds : StageHolds space place stage file book) :
    Settled space place { s.at_ p stage with file } book p where
  others o other := by
    have same : (s.at_ p stage).process o = s.process o := process_put_of_ne s p other _
    exact (congrArg _ same).trans (settled.others o other)
  cached o role password h := settled.cached o role password (by simpa using h)
  unknown o role := by simpa using settled.unknown o role
  holds := by simpa [PasswordHost.at_] using holds

/-- A process remembers what is in the book, maybe only since now. -/
theorem settled_remember (settled : Settled space place s book p) {role : DatabaseRole}
    {password : List Char} {stage : PasswordStage}
    {book' : DatabaseRole → Option (List Char)}
    (more : ∀ role password, book role = some password → book' role = some password)
    (here : book' role = some password) (holds : StageHolds space place stage s.file book') :
    Settled space place (s.put p ((s.process p).remember role password stage)) book' p where
  others o other := by
    rw [process_put_of_ne s p other]
    exact settled.others o other
  cached o role' password' h := by
    by_cases same : o = p
    · rw [same, process_put] at h
      have h : Function.update (s.process p).cache role (some password) role' = some password' := h
      by_cases this : role' = role
      · rw [this, Function.update_self] at h
        rw [this, here, h]
      · rw [Function.update_of_ne this] at h
        exact more _ _ (settled.cached p role' password' h)
    · rw [process_put_of_ne s p same] at h
      exact more _ _ (settled.cached o role' password' h)
  unknown o role' := by
    by_cases same : o = p
    · rw [same, process_put, known_remember]
      exact settled.unknown p role'
    · rw [process_put_of_ne s p same]
      exact settled.unknown o role'
  holds := by rwa [process_put]

theorem settled_restart (settled : Settled space place s book p) {o : ρ}
    {creds : Option (DatabaseRole → Option (List Char))}
    {environ : DatabaseRole → Option (List Char)} (idle : (s.process o).stage = .idle)
    (unknown : ∀ role, (RoleProcess.start creds environ).known role = none) :
    Settled space place (s.put o (.start creds environ)) book p where
  others o' other := by
    by_cases same : o' = o
    · rw [same, process_put, RoleProcess.start]
    · rw [process_put_of_ne s o same]
      exact settled.others o' other
  cached o' role password h := by
    by_cases same : o' = o
    · rw [same, process_put, RoleProcess.start] at h
      cases h
    · rw [process_put_of_ne s o same] at h
      exact settled.cached o' role password h
  unknown o' role := by
    by_cases same : o' = o
    · rw [same, process_put]
      exact unknown role
    · rw [process_put_of_ne s o same]
      exact settled.unknown o' role
  holds := by
    have holds := settled.holds
    by_cases same : p = o
    · rw [same, idle] at holds
      rwa [same, process_put]
    · rwa [process_put_of_ne s o same]

end

/-- A step enters at most one password, for a role without one, and answers from the book. -/
theorem settled_step (doc : RoleSpace space) (plain : place.Plain space)
    {x : PasswordStep ρ} (h : (passwordHost space place newMode).Steps x)
    (ok : Orderly space place x) {book : DatabaseRole → Option (List Char)} {p : ρ}
    (settled : Settled space place x.before book p) :
    ∃ book' p', Settled space place x.after book' p' ∧
      (∀ role password, book role = some password → book' role = some password) ∧
      ∀ role password, x.label = .answered role password → book' role = some password := by
  have moves := password_moves h
  obtain ⟨s, a, label, s'⟩ := x
  dsimp only at moves settled ok ⊢
  have quiet (s' : PasswordHost ρ) (p' : ρ) (after : Settled space place s' book p') :
      ∃ book' p', Settled space place s' book' p' ∧
        (∀ role password, book role = some password → book' role = some password) ∧
        ∀ role password, PasswordLabel.quiet = .answered role password →
          book' role = some password :=
    ⟨book, p', after, fun _ _ h => h, fun _ _ h => by cases h⟩
  have answer (s' : PasswordHost ρ) (p' : ρ) (after : Settled space place s' book p')
      (role : DatabaseRole) (password : List Char) (here : book role = some password) :
      ∃ book' p', Settled space place s' book' p' ∧
        (∀ role password, book role = some password → book' role = some password) ∧
        ∀ role' password', PasswordLabel.answered role password = .answered role' password' →
          book' role' = some password' :=
    ⟨book, p', after, fun _ _ h => h, fun _ _ h => by cases h; exact here⟩
  cases moves with
  | restarted => exact quiet _ p (settled_restart settled ok.1 ok.2)
  | remembered idle cached => exact answer _ p settled _ _ (settled.cached _ _ _ cached)
  | @found o role generated password idle known =>
    have settled := settled_by settled ok
    have holds := settled.holds
    rw [idle] at holds
    have here : book role = some password := by
      rw [settled.unknown, Option.none_or, holds.answers role] at known
      exact (Option.filter_eq_some_iff.mp known).1
    exact answer _ o (settled_remember settled (fun _ _ h => h) here holds) _ _ here
  | @generated o role w idle new unknown =>
    have settled := settled_by settled ok
    have holds := settled.holds
    rw [idle] at holds
    have free : book role = none := by
      rw [settled.unknown, Option.none_or, holds.answers role] at unknown
      cases entry : book role with
      | none => rfl
      | some password =>
        have nonempty := holds.nonempty role
        rw [entry] at unknown nonempty
        simp at unknown
        exact absurd (congrArg some unknown) nonempty
    have more (role' : DatabaseRole) (password : List Char) (h : book role' = some password) :
        Function.update book role (some w.text) role' = some password := by
      have other : role' ≠ role := by
        intro same
        rw [same, free] at h
        cases h
      rw [Function.update_of_ne other, h]
    exact ⟨_, o, settled_remember settled more (Function.update_self ..)
      ⟨book, holds, free, ⟨w, rfl⟩, rfl⟩, more, fun _ _ h => by cases h⟩
  | @linesRead o role password stage =>
    obtain rfl := settled_busy settled stage (by simp)
    have holds := settled.holds
    rw [stage] at holds
    obtain ⟨old, holds, entering⟩ := holds
    exact quiet _ o (settled_at settled ⟨old, holds, entering, rfl⟩)
  | @truncated o role password lines stage =>
    obtain rfl := settled_busy settled stage (by simp)
    have holds := settled.holds
    rw [stage] at holds
    obtain ⟨old, holds, entering, lines⟩ := holds
    exact quiet _ o (settled_at settled ⟨s.file, old, holds, entering, lines, _, rfl⟩)
  | @written o role password lines stage =>
    obtain rfl := settled_busy settled stage (by simp)
    have holds := settled.holds
    rw [stage] at holds
    obtain ⟨file₀, old, holds, entering, rfl, mode, empty⟩ := holds
    refine quiet _ o (settled_at settled ⟨file₀, old, holds, entering, mode, ?_⟩)
    rw [empty]
    simp [PgPassFile.overwrite, newLines, writePgpassEntry, keptLines]
  | @protected_ o role password stage =>
    obtain rfl := settled_busy settled stage (by simp)
    have holds := settled.holds
    rw [stage] at holds
    obtain ⟨file₀, old, holds, entering, mode, file⟩ := holds
    refine answer _ o (settled_at settled ?_) _ _ entering.entered
    obtain ⟨w, rfl⟩ := entering.made
    rw [file, entering.new]
    exact holds_write doc plain holds entering.free w
  | failed => exact ok.elim
  | @edited file =>
    obtain ⟨idle, kept⟩ := ok
    have holds := settled.holds
    rw [idle p] at holds
    have same : (fun role => readPgpass space s.file (place.key role)) = book :=
      funext holds.answers
    rw [same] at kept
    exact quiet _ p { settled with holds := by rwa [idle p] }

/-- A host that no process has asked yet -/
structure Unasked (space : Char → Bool) (place : DatabasePlace) (s : PasswordHost ρ) : Prop where
  idle : ∀ p, (s.process p).stage = .idle
  empty : ∀ p role, (s.process p).cache role = none
  unknown : ∀ p role, (s.process p).known role = none
  file : Holds space place s.file fun role => readPgpass space s.file (place.key role)

omit [DecidableEq ρ] in
theorem Unasked.settled {s : PasswordHost ρ} (unasked : Unasked space place s) (p : ρ) :
    Settled space place s (fun role => readPgpass space s.file (place.key role)) p where
  others o _ := unasked.idle o
  cached o role password h := by
    rw [unasked.empty] at h
    cases h
  unknown := unasked.unknown
  holds := by
    rw [unasked.idle]
    exact unasked.file

/-- Only processes are answered. -/
theorem process_of_answer {x : PasswordStep ρ} (h : (passwordHost space place newMode).Steps x)
    {role : DatabaseRole} {password : List Char} (answered : x.label = .answered role password) :
    Nonempty ρ := by
  obtain ⟨s, a, label, s'⟩ := x
  cases answered
  have h : s.step space place newMode a = some (s', .answered role password) := h
  cases a with
  | restart p _ _ | ask p _ _ | readLines p | truncate p | writeLines p | protect p | fail p =>
    exact ⟨p⟩
  | edit file => cases h

/-- In a run in which no process steps in while another enters a password, a role has one
password: all processes are answered the same, also after restarts. -/
theorem role_passwords_agree (space : Char → Bool) (doc : RoleSpace space)
    (place : DatabasePlace) (plain : place.Plain space) (newMode : Nat) (s : PasswordHost ρ)
    (unasked : Unasked space place s) (is : List (PasswordAction ρ))
    (ok : ∀ x ∈ (passwordHost space place newMode).run s is, Orderly space place x)
    {role : DatabaseRole} {a b : List Char} {x y : PasswordStep ρ}
    (hx : x ∈ (passwordHost space place newMode).run s is) (first : x.label = .answered role a)
    (hy : y ∈ (passwordHost space place newMode).run s is) (second : y.label = .answered role b) :
    a = b := by
  -- the book of a state has all that has been answered on the way to it
  have all : ∃ s' : PasswordHost ρ,
      (∀ x ∈ (passwordHost space place newMode).run s is, Orderly space place x) →
        ∀ _ : ρ, ∃ book p, Settled space place s' book p ∧
          ∀ x ∈ (passwordHost space place newMode).run s is, ∀ role password,
            x.label = .answered role password → book role = some password := by
    refine Machine.history_run (I := fun past s => (∀ x ∈ past, Orderly space place x) →
      ∀ _ : ρ, ∃ book p, Settled space place s book p ∧ ∀ x ∈ past, ∀ role password,
        x.label = .answered role password → book role = some password) ?_ ?_
    · intro past x step before ok p
      obtain ⟨earlier, here⟩ := List.forall_mem_append.mp ok
      obtain ⟨book, p', settled, answered⟩ := before earlier p
      obtain ⟨book', p'', settled', more, new⟩ :=
        settled_step doc plain step (here x List.mem_cons_self) settled
      refine ⟨book', p'', settled', fun y hy role password h => ?_⟩
      rcases List.mem_append.mp hy with old | last
      · exact more role password (answered y old role password h)
      · rw [List.mem_singleton.mp last] at h
        exact new role password h
    · intro _ p
      exact ⟨_, p, unasked.settled p, fun x hx => absurd hx List.not_mem_nil⟩
  obtain ⟨s', all⟩ := all
  obtain ⟨past, later, split⟩ := List.append_of_mem hx
  obtain ⟨p⟩ := process_of_answer (Machine.steps_of_run split) first
  obtain ⟨book, p', -, answered⟩ := all ok p
  have one := answered x hx role a first
  rw [answered y hy role b second] at one
  exact (Option.some.inj one).symm

/-! ## Overlap -/

/-- The steps of a write -/
def writeSteps (p : ρ) : List (PasswordAction ρ) :=
  [.readLines p, .truncate p, .writeLines p, .protect p]

theorem process_at (s : PasswordHost ρ) (p : ρ) (stage : PasswordStage) :
    (s.at_ p stage).process p = { s.process p with stage } := process_put ..

theorem at_at (s : PasswordHost ρ) (p : ρ) (a b : PasswordStage) :
    (s.at_ p a).at_ p b = s.at_ p b := by
  simp [PasswordHost.at_, PasswordHost.put]

theorem at_file (s : PasswordHost ρ) (p : ρ) (file : Option PgPassFile)
    (a b : PasswordStage) :
    PasswordHost.at_ { s.at_ p a with file } p b = { s.at_ p b with file } := by
  simp [PasswordHost.at_, PasswordHost.put]

variable (space place newMode) in
/-- Where no other process steps in between, the four steps are `_write_pgpass_entry`. -/
theorem write_alone (s : PasswordHost ρ) {p : ρ} {role : DatabaseRole} {password : List Char}
    (stage : (s.process p).stage = .generated role password) (rest : List (PasswordAction ρ)) :
    ∃ past x, x.label = .answered role password ∧
      x.after = { s.at_ p .idle with
        file := some (writePgpassEntry s.file (place.key role) password) } ∧
      (passwordHost space place newMode).run s (writeSteps p ++ rest) =
        past ++ x :: (passwordHost space place newMode).run x.after rest := by
  let reading := s.at_ p (.linesRead role password (linesOfFile s.file))
  let cleared : PasswordHost ρ := { s.at_ p (.truncated role password (linesOfFile s.file)) with
    file := some (emptied newMode s.file) }
  let filled : PasswordHost ρ := { s.at_ p (.written role password) with
    file := some { writePgpassEntry s.file (place.key role) password with
      mode := (emptied newMode s.file).mode } }
  have read : (passwordHost space place newMode).step s (.readLines p) =
      some (reading, .quiet) := by
    simp [passwordHost, PasswordHost.step, stage, reading]
  have clear : (passwordHost space place newMode).step reading (.truncate p) =
      some (cleared, .quiet) := by
    simp only [passwordHost, PasswordHost.step, reading, process_at, at_at]
    rfl
  have fill : (passwordHost space place newMode).step cleared (.writeLines p) =
      some (filled, .quiet) := by
    simp only [passwordHost, PasswordHost.step, cleared, process_at, at_file, Option.map_some]
    simp [filled, PgPassFile.overwrite, emptied, newLines, writePgpassEntry, keptLines]
  have protect : (passwordHost space place newMode).step filled (.protect p) =
      some ({ s.at_ p .idle with
        file := some (writePgpassEntry s.file (place.key role) password) },
        .answered role password) := by
    simp only [passwordHost, PasswordHost.step, filled, process_at, at_file, Option.map_some]
    rfl
  refine ⟨[⟨s, .readLines p, .quiet, reading⟩, ⟨reading, .truncate p, .quiet, cleared⟩,
    ⟨cleared, .writeLines p, .quiet, filled⟩], ⟨filled, .protect p, .answered role password, _⟩,
    rfl, rfl, ?_⟩
  rw [writeSteps, List.cons_append, Machine.run_cons_of_step read, List.cons_append,
    Machine.run_cons_of_step clear, List.cons_append, Machine.run_cons_of_step fill,
    List.cons_append, Machine.run_cons_of_step protect]
  rfl

/-- Two processes that both ask before either has written are each answered what they have
made up; the file has the one that is written last. -/
theorem role_passwords_apart (space : Char → Bool) (doc : RoleSpace space)
    (place : DatabasePlace) (plain : place.Plain space) (newMode : Nat) (s : PasswordHost ρ)
    (unasked : Unasked space place s) {role : DatabaseRole}
    (free : readPgpass space s.file (place.key role) = none) {p q : ρ} (other : q ≠ p)
    (g h : RolePassword) :
    ∃ x y, x.label = .answered role g.text ∧ y.label = .answered role h.text ∧
      readPgpass space y.after.file (place.key role) = some h.text ∧
      ∃ before between, (passwordHost space place newMode).run s
        (.ask p role g :: .ask q role h :: (writeSteps p ++ (writeSteps q ++ []))) =
          before ++ x :: (between ++ [y]) := by
  -- both are told that there is none
  have ask (t : PasswordHost ρ) (o : ρ) (w : RolePassword) (file : t.file = s.file)
      (same : t.process o = s.process o) :
      (passwordHost space place newMode).step t (.ask o role w) =
        some (t.put o ((s.process o).remember role w.text (.generated role w.text)), .quiet) := by
    simp [passwordHost, PasswordHost.step, file, same, unasked.idle, unasked.empty,
      unasked.unknown, free]
  let one := s.put p ((s.process p).remember role g.text (.generated role g.text))
  let two := one.put q ((s.process q).remember role h.text (.generated role h.text))
  have first : (passwordHost space place newMode).step s (.ask p role g) =
      some (one, .quiet) := ask s p g rfl rfl
  have second : (passwordHost space place newMode).step one (.ask q role h) =
      some (two, .quiet) := ask one q h rfl (process_put_of_ne s p other _)
  have stage : (two.process p).stage = .generated role g.text := by
    rw [process_put_of_ne one q (Ne.symm other), process_put, RoleProcess.remember]
  obtain ⟨before, x, answered, after, run⟩ :=
    write_alone space place newMode two stage (writeSteps q ++ [])
  have stage' : (x.after.process q).stage = .generated role h.text := by
    have same : x.after.process q = two.process q := by
      rw [after]
      exact process_put_of_ne two p other _
    rw [same, process_put, RoleProcess.remember]
  obtain ⟨between, y, answered', after', run'⟩ :=
    write_alone space place newMode x.after stage' []
  refine ⟨x, y, answered, answered', ?_, ⟨s, .ask p role g, .quiet, one⟩ ::
    ⟨one, .ask q role h, .quiet, two⟩ :: before, between, ?_⟩
  · have entry := plain_key doc plain role
    have kept := kept_of_unanswered doc plain unasked.file.private_ free
    have ended : ∀ l ∈ keptLines (place.key role) s.file, Ended l := by
      rw [kept]
      exact unasked.file.ended
    have again : keptLines (place.key role) (some (writePgpassEntry two.file (place.key role)
        g.text)) = keptLines (place.key role) s.file :=
      kept_write doc.toLineSpace s.file entry (g.solid doc) ended
    rw [after', after]
    dsimp only
    rw [read_after_write space doc.toLineSpace _ entry (h.solid doc) (by rwa [again]), again, kept,
      ← read_private unasked.file.private_, free, Option.none_or, answers_role,
      decide_eq_true rfl, if_pos rfl]
  · rw [Machine.run_cons_of_step first, Machine.run_cons_of_step second, run, run']
    rfl

end

/-! ## Two processes -/

def localPlace : DatabasePlace :=
  ⟨"localhost".toList, "5432".toList, "legionforge".toList⟩

theorem roleSpace_ascii : RoleSpace asciiSpace where
  toLineSpace := lineSpace_ascii
  letters := solid_of_all (by decide)

theorem plain_local : localPlace.Plain asciiSpace where
  host := plain_worker.host
  port := plain_worker.port
  db := plain_worker.db
  noComment := plain_worker.noComment

def passwordOf (c : Char) (safe : c ∈ safeLetters) : RolePassword where
  text := List.replicate 32 c
  letters d hd := by rwa [List.eq_of_mem_replicate hd]
  length := List.length_replicate

def passwordA : RolePassword := passwordOf 'a' (by decide)

def passwordB : RolePassword := passwordOf 'b' (by decide)

def freshHost : PasswordHost Bool := ⟨none, fun _ => .start none fun _ => none⟩

theorem unasked_fresh : Unasked asciiSpace localPlace freshHost where
  idle _ := rfl
  empty _ _ := rfl
  unknown _ _ := rfl
  file := ⟨by simp [freshHost], by simp [freshHost, linesOfFile], fun _ => rfl,
    by simp [freshHost, readPgpass]⟩

/-- One process makes the password, the other finds it. -/
def inTurn : List (PasswordAction Bool) :=
  .ask false .worker passwordA :: (writeSteps false ++ [.ask true .worker passwordB])

def inTurnRun : List (PasswordStep Bool) :=
  (passwordHost asciiSpace localPlace 0o644).run freshHost inTurn

/-- `Orderly`, for two processes that only ask and write -/
def inTurnStep (x : PasswordStep Bool) : Bool :=
  match x.input with
  | .ask p _ _ => (x.before.process !p).stage = .idle
  | .restart _ _ _ | .fail _ | .edit _ => false
  | _ => true

theorem orderly_of_inTurn {x : PasswordStep Bool} (h : inTurnStep x = true) :
    Orderly asciiSpace localPlace x := by
  obtain ⟨s, a, label, s'⟩ := x
  cases a with
  | ask p role w =>
    intro o other
    rw [Bool.eq_not_of_ne other]
    exact of_decide_eq_true h
  | restart p creds environ => cases h
  | fail p => cases h
  | edit file => cases h
  | readLines p => trivial
  | truncate p => trivial
  | writeLines p => trivial
  | protect p => trivial

theorem inTurnRun_long : 4 < inTurnRun.length := by decide +kernel

/-- What is answered for the worker's role -/
def workerAnswer : PasswordLabel → Option (List Char)
  | .answered .worker password => some password
  | .answered _ _ | .quiet => none

theorem answered_of_workerAnswer {label : PasswordLabel} {b : List Char}
    (h : workerAnswer label = some b) : label = .answered .worker b := by
  cases label with
  | quiet => cases h
  | answered role password =>
    cases role <;> cases h
    rfl

theorem worker_agrees :
    (inTurnRun.filterMap fun x => workerAnswer x.label).all (· = passwordA.text) = true := by
  refine List.all_eq_true.mpr fun b hb => decide_eq_true ?_
  obtain ⟨x, hx, answered⟩ := List.mem_filterMap.mp hb
  have first : (inTurnRun.get ⟨4, inTurnRun_long⟩).label = .answered .worker passwordA.text := by
    decide +kernel
  have ok : inTurnRun.all inTurnStep = true := by decide +kernel
  exact role_passwords_agree asciiSpace roleSpace_ascii localPlace plain_local 0o644 freshHost
    unasked_fresh inTurn (fun x hx => orderly_of_inTurn (List.all_eq_true.mp ok x hx)) hx
    (answered_of_workerAnswer answered) (List.get_mem ..) first

end LegionForge.Security
