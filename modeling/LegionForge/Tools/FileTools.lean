import LegionForge.Lib.Paths
import LegionForge.Tools.SizeCaps

/-!
# The file tools

`file_read` and `file_write` resolve the path with `realpath`, compare the result with the
resolved roots name by name, and open the file by that result. What is opened is there
(`openRead_realpath`, `openWrite_realpath`), so nothing outside the roots is opened, however
the links are laid.

The extension is tested on the path as it is spelled. `confined_iff` says for which paths
that is the extension of what is written.
-/

namespace LegionForge.Tools

open LegionForge.Security Paths Paths.FileSystem

/-- What the tools find: the settings, the file system and the working directory. -/
structure FileEnv where
  unicode : Unicode
  caps : CapSettings
  allowedReadPaths : List String
  allowedWritePaths : List String
  maxFileWriteBytes : Nat
  fs : FileSystem
  cwd : Loc
  cwdDir : fs.entry cwd = some .dir
  fault : Access → Loc → Option Errno
  /-- The text of the error for a path with a null in it. -/
  nullError : String
  /-- As many steps as `realpath` takes. -/
  fuel : Nat

/-- The class of the error. -/
def errorName : Errno → String
  | .noent => "FileNotFoundError"
  | .notdir => "NotADirectoryError"
  | .isdir => "IsADirectoryError"
  | .loop | .io => "OSError"
  | .exist => "FileExistsError"
  | .acces => "PermissionError"

/-! ## Names -/

/-- `Path.name` of a resolved path. -/
def locName (loc : Loc) : String := loc.head?.getD ""

/-- `Path.name` of a path as it is spelled. -/
def spelledName (text : String) : String :=
  ((parts text).filter fun name => name ≠ "" && name ≠ ".").getLast?.getD ""

/-- `Path.suffix` of Python 3.14, which the images run: from the last dot on, if something
else than dots is before it (up to 3.13 `..sh` has one as well). -/
def suffix (name : String) : List Char :=
  let back := name.toList.reverse
  let extension := back.takeWhile (· ≠ '.')
  match back.drop extension.length with
  | [] => []
  | dot :: stem => if stem.all (· = '.') then [] else dot :: extension.reverse

/-- `_BLOCKED_WRITE_EXTENSIONS` -/
def blockedWriteExtensions : List String :=
  [".py", ".sh", ".bash", ".zsh", ".rb", ".pl", ".exe", ".bat", ".cmd", ".ps1"]

section
variable (env : FileEnv)

def extension (name : String) : String := String.ofList (env.unicode.lower (suffix name))

def blocked (name : String) : Bool := blockedWriteExtensions.contains (extension env name)

/-! ## The check -/

def FileEnv.realpath (text : String) : Option Loc := env.fs.realpath env.fuel env.cwd text

/-- The loop over the roots. -/
def checkRoots (resolved : Loc) (label : String) : List String → Except String Loc
  | [] => .error s!"[{label}] Path is outside the configured workspace."
  | root :: roots =>
    match env.realpath root with
    | none => .error env.nullError
    | some rootResolved =>
      if rootResolved.isSuffixOf resolved then .ok resolved else checkRoots resolved label roots

/-- `_resolve_and_check` -/
def resolveAndCheck (path : String) (allowedRoots : List String) (label : String) :
    Except String Loc :=
  if allowedRoots.isEmpty then
    let setting := label.replace "file_" "allowed_" ++ "paths"
    .error (s!"[{label}] No allowed paths configured — operator must set " ++
      s!"tools.{setting} in the hardware profile.")
  else
    match env.realpath path with
    | none => .error env.nullError
    | some resolved => checkRoots env resolved label allowedRoots

/-! ## `file_read` -/

/-- The reply, and the file that was read. -/
def fileRead (path : String) : String × Option Loc :=
  let cleanPath := cleanCopy env.unicode path
  match resolveAndCheck env cleanPath env.allowedReadPaths "file_read" with
  | .error text => (text, none)
  | .ok resolved =>
    match env.fs.openRead env.fault resolved with
    | .error .noent => (s!"[file_read] File not found: {locName resolved}", none)
    | .error .acces => (s!"[file_read] Permission denied: {locName resolved}", none)
    | .error e => (s!"[file_read] OS error: {errorName e}", none)
    | .ok (last, rawBytes) => (fileReadReply env.unicode env.caps rawBytes, some last)

/-! ## `file_write` -/

def writeError (resolved : Loc) : Errno → String
  | .acces => s!"[file_write] Permission denied: {locName resolved}"
  | e => s!"[file_write] OS error: {errorName e}"

/-- The file that is opened to be written, with the directories above it made. -/
def openForWrite (resolved : Loc) : Except Errno Loc :=
  match mkdirParents env.fault env.fs resolved.tail with
  | .error e => .error e
  | .ok made => made.openWrite env.fault resolved

/-- What is to be written. -/
def encoded (content : String) : ByteArray := (cleanCopy env.unicode content).toByteArray

/-- The reply, and the file that was opened with what is written to it: it is empty from
then on, even where the write itself fails. -/
def fileWrite (path content : String) : String × Option (Loc × ByteArray) :=
  let cleanPath := cleanCopy env.unicode path
  if blocked env (spelledName cleanPath) then
    let ext := extension env (spelledName cleanPath)
    (s!"[file_write] Writing executable files ({ext}) is not permitted. " ++
      "Use a non-executable extension.", none)
  else
    match resolveAndCheck env cleanPath env.allowedWritePaths "file_write" with
    | .error text => (text, none)
    | .ok resolved =>
      let bytes := encoded env content
      if env.maxFileWriteBytes < bytes.size then
        (s!"[file_write] Content too large (max {env.maxFileWriteBytes} bytes).", none)
      else
        match openForWrite env resolved with
        | .error e => (writeError resolved e, none)
        | .ok last =>
          match env.fault .write last with
          | some e => (writeError resolved e, some (last, .empty))
          | none =>
            (s!"[file_write] Written {bytes.size} bytes to {locName resolved}.",
              some (last, bytes))

/-! ## Confinement -/

/-- Below one of the roots, which is where the root leads to, if it leads anywhere. -/
def Inside (roots : List String) (loc : Loc) : Prop :=
  ∃ root ∈ roots, ∃ place, env.realpath root = some place ∧ place <:+ loc ∧
    ∀ k last, env.fs.Walks k (parts root) (base root env.cwd) last → last = place

/-- What is read is inside a root for reading, and what is written inside one for writing,
under a name that may be written. -/
def Confined (path content : String) : Prop :=
  (∀ loc, (fileRead env path).2 = some loc → Inside env env.allowedReadPaths loc) ∧
    ∀ loc bytes, (fileWrite env path content).2 = some (loc, bytes) →
      Inside env env.allowedWritePaths loc ∧ blocked env (locName loc) = false

/-- The content fits and the file can be opened. -/
def Writable (resolved : Loc) (content : String) : Prop :=
  (encoded env content).size ≤ env.maxFileWriteBytes ∧ ∃ last, openForWrite env resolved = .ok last

end

section
variable {env : FileEnv}

/-! ### The check -/

theorem checkRoots_ok {resolved r : Loc} {label : String} {roots : List String}
    (ok : checkRoots env resolved label roots = .ok r) :
    r = resolved ∧ Inside env roots resolved := by
  induction roots with
  | nil => cases ok
  | cons root roots ih =>
    rw [checkRoots] at ok
    split at ok
    · cases ok
    · next place returned =>
      split at ok
      · next below =>
        cases ok
        refine ⟨rfl, root, List.mem_cons_self, place, returned,
          List.isSuffixOf_iff_suffix.mp below, ?_⟩
        intro k last walks
        exact walks_realpath env.cwdDir returned walks
      · obtain ⟨same, other, mem, inside⟩ := ih ok
        exact ⟨same, other, List.mem_cons_of_mem root mem, inside⟩

/-- What passes the check is the resolved path, inside a root. -/
theorem resolveAndCheck_ok {path label : String} {roots : List String} {r : Loc}
    (ok : resolveAndCheck env path roots label = .ok r) :
    env.realpath path = some r ∧ Inside env roots r := by
  rw [resolveAndCheck] at ok
  split at ok
  · cases ok
  · split at ok
    · cases ok
    · next resolved returned =>
      obtain ⟨rfl, inside⟩ := checkRoots_ok ok
      exact ⟨returned, inside⟩

/-! ### Reading -/

theorem fileRead_inside {path : String} {loc : Loc} (read : (fileRead env path).2 = some loc) :
    Inside env env.allowedReadPaths loc := by
  unfold fileRead at read
  dsimp only at read
  split at read
  · cases read
  · next resolved ok =>
    obtain ⟨returned, inside⟩ := resolveAndCheck_ok ok
    split at read
    · cases read
    · cases read
    · cases read
    · next last rawBytes opened =>
      cases read
      rw [openRead_realpath env.cwdDir returned opened]
      exact inside

/-! ### Writing -/

theorem openForWrite_realpath {path : String} {resolved last : Loc}
    (returned : env.realpath path = some resolved) (opened : openForWrite env resolved = .ok last) :
    last = resolved := by
  rw [openForWrite] at opened
  split at opened
  · cases opened
  · next made_ok => exact openWrite_realpath env.cwdDir returned made_ok opened

/-- Where something is written, and when. -/
theorem fileWrite_written_iff {path content : String} {loc : Loc} :
    (∃ bytes, (fileWrite env path content).2 = some (loc, bytes)) ↔
      blocked env (spelledName (cleanCopy env.unicode path)) = false ∧
        resolveAndCheck env (cleanCopy env.unicode path) env.allowedWritePaths "file_write" =
          .ok loc ∧
        Writable env loc content := by
  constructor
  · rintro ⟨bytes, written⟩
    unfold fileWrite at written
    dsimp only at written
    split at written
    · cases written
    · next allowed =>
      split at written
      · cases written
      · next resolved ok =>
        split at written
        · cases written
        · next fits =>
          split at written
          · cases written
          · next last opened =>
            have there := openForWrite_realpath (resolveAndCheck_ok ok).1 opened
            subst there
            have same : last = loc := by
              split at written <;> cases written <;> rfl
            subst same
            exact ⟨by simpa using allowed, ok, Nat.not_lt.mp fits, last, opened⟩
  · rintro ⟨allowed, ok, fits, last, opened⟩
    have there := openForWrite_realpath (resolveAndCheck_ok ok).1 opened
    subst there
    simp only [fileWrite, allowed, Bool.false_eq_true, if_false, ok, opened,
      if_neg (Nat.not_lt.mpr fits)]
    split
    · exact ⟨_, rfl⟩
    · exact ⟨_, rfl⟩

/-! ### Both -/

/-- Nothing outside the roots is read or written, and the name of what is written may be
written exactly where the spelled name may not, or the resolved name may, or nothing is
opened. -/
theorem confined_iff (env : FileEnv) (path content : String) :
    Confined env path content ↔
      blocked env (spelledName (cleanCopy env.unicode path)) = true ∨
        ∀ resolved, resolveAndCheck env (cleanCopy env.unicode path) env.allowedWritePaths
            "file_write" = .ok resolved →
          blocked env (locName resolved) = false ∨ ¬ Writable env resolved content := by
  constructor
  · rintro ⟨-, write⟩
    cases spelled : blocked env (spelledName (cleanCopy env.unicode path)) with
    | true => exact .inl rfl
    | false =>
      refine .inr fun resolved ok => ?_
      by_cases writable : Writable env resolved content
      · obtain ⟨bytes, written⟩ := fileWrite_written_iff.mpr ⟨spelled, ok, writable⟩
        exact .inl (write resolved bytes written).2
      · exact .inr writable
  · intro condition
    refine ⟨fun loc read => fileRead_inside read, fun loc bytes written => ?_⟩
    obtain ⟨allowed, ok, writable⟩ := fileWrite_written_iff.mp ⟨bytes, written⟩
    refine ⟨(resolveAndCheck_ok ok).2, ?_⟩
    rcases condition with spelled | resolved
    · rw [allowed] at spelled
      cases spelled
    · exact (resolved loc ok).resolve_right (not_not.mpr writable)

end

/-- A workspace with a script in it, and a link to the script. -/
def linkedScript : FileEnv where
  unicode := .ascii
  caps := threeBytes
  allowedReadPaths := []
  allowedWritePaths := ["/w"]
  maxFileWriteBytes := 1024
  fs := .ofEntries [(["w"], .dir), (["r.sh", "w"], .file .empty), (["n", "w"], .link "r.sh")]
    (by decide)
  cwd := []
  cwdDir := FileSystem.root _
  fault _ _ := none
  nullError := ""
  fuel := 8

/-- The script is written through the link. -/
theorem script_written : ¬ Confined linkedScript "/w/n" "ls" := by
  have same : cleanCopy linkedScript.unicode "/w/n" = "/w/n" :=
    cleanCopy_eq_self (by decide +kernel)
  have kept : cleanCopy linkedScript.unicode "ls" = "ls" :=
    cleanCopy_eq_self (by decide +kernel)
  have writable : Writable linkedScript ["r.sh", "w"] "ls" := by
    rw [Writable, encoded, kept]
    exact ⟨by decide, ["r.sh", "w"], by decide +kernel⟩
  rw [confined_iff, same]
  rintro (spelled | resolved)
  · exact absurd spelled (by decide +kernel)
  · rcases resolved ["r.sh", "w"] (by decide +kernel) with free | closed
    · exact absurd free (by decide +kernel)
    · exact closed writable

end LegionForge.Tools
