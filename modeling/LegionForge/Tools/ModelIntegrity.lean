import LegionForge.Lib.Machine
import LegionForge.Lib.Table
import LegionForge.Security.Sanitize

/-!
# Model integrity

The three models of the profile are checked one after the other, and what was found is kept
under the model's id; in strict mode a mismatch raises instead. The status call catches
what is raised, goes on with no results at all, and answers with the same status ever after.

So a mismatch reaches the status where nothing is raised and no later model has the same id
(`mismatch_shown_iff`).
-/

namespace LegionForge.Tools

open Security

/-! ## The profile and the files -/

structure ModelEntry where
  modelId : String
  /-- The pin, empty if there is none. -/
  ggufSha256 : String
  deriving DecidableEq, Repr

structure ModelsConfig where
  primary : ModelEntry
  router : ModelEntry
  embeddings : ModelEntry

/-- The models, in the order they are checked. -/
def ModelsConfig.entries (m : ModelsConfig) : List ModelEntry := [m.primary, m.router, m.embeddings]

structure Layer where
  mediaType : String
  digest : String

/-- The Ollama directory. -/
structure OllamaDir where
  /-- The manifest of a name and a tag, `none` if there is none. Reading it may raise, and
  so may a layer that is no object. -/
  manifest : String → String → Option (Option (List (Option Layer)))
  blobExists : String → Bool
  /-- The files of a glob pattern; searching may raise. -/
  glob : String → Option (List String)
  /-- The digest of a file that can be read. -/
  sha256File : String → Option String

structure IntegrityEnv where
  unicode : Unicode
  dir : OllamaDir
  models : ModelsConfig
  /-- `MODEL_INTEGRITY_STRICT` of the environment, empty if it is not set. -/
  strictVariable : String
  modelIntegrityStrict : Bool

/-! ## `_find_gguf` -/

/-- `model_id.rsplit(":", 1)` with the default tag -/
def nameAndTag (modelId : String) : String × String :=
  let text := modelId.toList
  if text.contains ':' then
    let tag := (text.reverse.takeWhile (· ≠ ':')).reverse
    (String.ofList (text.take (text.length - tag.length - 1)), String.ofList tag)
  else (modelId, "latest")

def Layer.isModel (l : Layer) : Bool :=
  let mediaType := l.mediaType.toList
  mediaType.tails.any ("model".toList.isPrefixOf ·) ||
    (mediaType.map Char.toLower).tails.any ("gguf".toList.isPrefixOf ·)

/-- The blob a layer names, if it is the model's and there. -/
def OllamaDir.blob (dir : OllamaDir) (l : Layer) : Option String :=
  if l.isModel && "sha256:".toList.isPrefixOf l.digest.toList then
    let name := "sha256-" ++ String.ofList (l.digest.toList.drop 7)
    if dir.blobExists name then some ("blobs/" ++ name) else none
  else none

/-- The loop over the layers, which ends at one that raises. -/
def OllamaDir.firstBlob (dir : OllamaDir) : List (Option Layer) → Option String
  | [] | none :: _ => none
  | some l :: rest => (dir.blob l).or (dir.firstBlob rest)

def OllamaDir.globbed (dir : OllamaDir) (name : String) : Option (Option String) :=
  let safeName := String.ofList (name.toList.map fun c =>
    if c = '.' then '*' else if c = '/' then '-' else c)
  match dir.glob s!"**/{safeName}*.gguf" with
  | none => none
  | some (first :: _) => some (some first)
  | some [] => (dir.glob s!"**/*{safeName}*.gguf").map (·.head?)

/-- `_find_gguf`, `none` where it raises. -/
def OllamaDir.findGguf (dir : OllamaDir) (modelId : String) : Option (Option String) :=
  let (name, tag) := nameAndTag modelId
  let byManifest := (dir.manifest name tag).bind fun manifest => manifest.bind dir.firstBlob
  match byManifest with
  | some path => some (some path)
  | none => dir.globbed name

/-! ## `verify_model_integrity` -/

inductive ModelStatus where
  | ok
  | mismatch
  | notFound
  | skipped
  deriving DecidableEq, Repr

structure ModelResult where
  modelId : String
  status : ModelStatus
  deriving DecidableEq, Repr

abbrev Results := Table ModelResult.modelId

/-- `results[model_id] = status` -/
def putResult (results : Results) (modelId : String) (status : ModelStatus) : Results :=
  results.upsert ⟨modelId, status⟩ (fun r => { r with status }) fun _ => rfl

/-- `_effective_strict` -/
def IntegrityEnv.effectiveStrict (env : IntegrityEnv) : Bool :=
  let text := String.ofList (env.unicode.lower (env.unicode.strip env.strictVariable).toList)
  if text = "" then env.modelIntegrityStrict else ["1", "true", "yes"].contains text

/-- What is found of one model, `none` where the search for its file raises. -/
def OllamaDir.check (dir : OllamaDir) (e : ModelEntry) : Option ModelStatus :=
  if e.ggufSha256 = "" then some .skipped
  else (dir.findGguf e.modelId).map fun
    | none => .notFound
    | some path =>
      match dir.sha256File path with
      | none => .notFound
      | some actual => if actual = e.ggufSha256 then .ok else .mismatch

/-- The loop over the models, `none` where it raises. -/
def OllamaDir.verifyFrom (dir : OllamaDir) (strict : Bool) :
    List ModelEntry → Results → Option Results
  | [], results => some results
  | e :: rest, results =>
    match dir.check e with
    | none => none
    | some status =>
      if status = .mismatch && strict then none
      else dir.verifyFrom strict rest (putResult results e.modelId status)

/-- `verify_model_integrity`, `none` where it raises. -/
def IntegrityEnv.verifyModelIntegrity (env : IntegrityEnv) : Option Results :=
  env.dir.verifyFrom env.effectiveStrict env.models.entries .empty

/-! ## `get_model_integrity_status` -/

structure IntegrityStatus where
  strict : Bool
  status : ModelStatus
  models : List ModelResult
  deriving DecidableEq, Repr

def overallStatus (statuses : List ModelStatus) : ModelStatus :=
  if .mismatch ∈ statuses then .mismatch
  else if .notFound ∈ statuses then .notFound
  else if ∀ s ∈ statuses, s = .skipped then .skipped
  else .ok

/-- The status as it is computed, whatever was raised. -/
def IntegrityEnv.freshStatus (env : IntegrityEnv) : IntegrityStatus :=
  let models := (env.verifyModelIntegrity.getD .empty).rows
  { strict := env.effectiveStrict, status := overallStatus (models.map (·.status)), models }

/-- The process: its cache, and how many calls found it empty and are still computing. -/
structure StatusServer where
  cache : Option IntegrityStatus
  computing : Nat

inductive StatusInput where
  | call
  /-- A call that computes writes the cache and returns. -/
  | finish
  /-- A call that computes is cancelled. -/
  | cancel

/-- `get_model_integrity_status`; the label is what a call returns. -/
def StatusServer.step (env : IntegrityEnv) (s : StatusServer) :
    StatusInput → Option (StatusServer × Option IntegrityStatus)
  | .call =>
    match s.cache with
    | some result => some (s, some result)
    | none => some ({ s with computing := s.computing + 1 }, none)
  | .finish =>
    if s.computing = 0 then none
    else some (⟨some env.freshStatus, s.computing - 1⟩, some env.freshStatus)
  | .cancel =>
    if s.computing = 0 then none else some ({ s with computing := s.computing - 1 }, none)

def statusServer (env : IntegrityEnv) :
    Machine StatusServer StatusInput (Option IntegrityStatus) where
  step s i := s.step env i

def StatusServer.start : StatusServer := ⟨none, 0⟩

abbrev StatusStep := Machine.Entry StatusServer StatusInput (Option IntegrityStatus)

/-! ## What is to hold -/

/-- The model has a pin, and a file that is not the one pinned. -/
def Mismatches (dir : OllamaDir) (e : ModelEntry) : Prop :=
  e.ggufSha256 ≠ "" ∧ ∃ path actual, dir.findGguf e.modelId = some (some path) ∧
    dir.sha256File path = some actual ∧ actual ≠ e.ggufSha256

/-- A mismatch of the model is still there when all are checked: it is the last of its id. -/
def StaysLast (dir : OllamaDir) (entries : List ModelEntry) (e : ModelEntry) : Prop :=
  Mismatches dir e ∧ entries.reverse.find? (·.modelId = e.modelId) = some e

/-- Nothing is raised on the way, and some mismatch is not written over. -/
structure Surfaces (env : IntegrityEnv) : Prop where
  lenient : env.effectiveStrict = false
  searched : ∀ e ∈ env.models.entries, e.ggufSha256 ≠ "" → env.dir.findGguf e.modelId ≠ none
  last : ∃ e ∈ env.models.entries, StaysLast env.dir env.models.entries e

section
variable {dir : OllamaDir} {env : IntegrityEnv}

/-! ## The loop -/

theorem check_mismatch_iff {e : ModelEntry} :
    dir.check e = some .mismatch ↔ Mismatches dir e := by
  unfold OllamaDir.check Mismatches
  by_cases pinned : e.ggufSha256 = ""
  · simp [pinned]
  · rw [if_neg pinned, and_iff_right pinned]
    cases dir.findGguf e.modelId with
    | none => simp
    | some found =>
      cases found with
      | none => simp
      | some path =>
        cases hash : dir.sha256File path with
        | none => simp [hash]
        | some actual => simp [hash]

theorem check_eq_none_iff {e : ModelEntry} :
    dir.check e = none ↔ e.ggufSha256 ≠ "" ∧ dir.findGguf e.modelId = none := by
  unfold OllamaDir.check
  by_cases pinned : e.ggufSha256 = ""
  · simp [pinned]
  · simp [pinned]

theorem get_putResult (results : Results) (modelId id : String) (status : ModelStatus) :
    (putResult results modelId status).get id =
      if id = modelId then some ⟨modelId, status⟩ else results.get id := by
  let row : ModelResult := ⟨modelId, status⟩
  let write (r : ModelResult) : ModelResult := { r with status }
  by_cases same : id = modelId
  · rw [if_pos same, same]
    refine Table.get_upsert_self results (a := row) (f := write) (fun _ => rfl) fun c at_id => ?_
    cases at_id
    rfl
  · rw [if_neg same]
    exact Table.get_upsert_of_ne results (a := row) (f := write) (fun _ => rfl) same

/-- In lenient mode nothing but a search raises, and under an id there is what was found of
the last model with it. -/
theorem verifyFrom_lenient : ∀ (entries : List ModelEntry) (results : Results),
    (∀ e ∈ entries, dir.check e ≠ none) →
    ∃ after, dir.verifyFrom false entries results = some after ∧ ∀ id,
      after.get id = match entries.reverse.find? (·.modelId = id) with
        | some e => (dir.check e).map (⟨id, ·⟩)
        | none => results.get id := by
  intro entries
  induction entries with
  | nil =>
    intro results _
    exact ⟨results, rfl, fun _ => rfl⟩
  | cons e rest ih =>
    intro results searched
    obtain ⟨status, found⟩ := Option.ne_none_iff_exists'.mp (searched e List.mem_cons_self)
    obtain ⟨after, whole, last⟩ := ih (putResult results e.modelId status)
      fun e' mem => searched e' (List.mem_cons_of_mem e mem)
    refine ⟨after, ?_, fun id => ?_⟩
    · rw [OllamaDir.verifyFrom, found]
      simpa using whole
    · rw [last id, List.reverse_cons, List.find?_append]
      cases rest.reverse.find? (·.modelId = id) with
      | some e' => rfl
      | none =>
        rw [Option.none_or, get_putResult]
        by_cases same : e.modelId = id
        · rw [if_pos same.symm, List.find?_cons_of_pos (by simpa using same)]
          simp [found, same]
        · rw [if_neg (Ne.symm same), List.find?_cons_of_neg (by simpa using same)]
          rfl

/-- A search that raises, or in strict mode a mismatch, ends the loop. -/
theorem verifyFrom_eq_none {strict : Bool} : ∀ {entries : List ModelEntry} {results : Results},
    (∃ e ∈ entries, dir.check e = none ∨ strict = true ∧ dir.check e = some .mismatch) →
    dir.verifyFrom strict entries results = none := by
  intro entries
  induction entries with
  | nil =>
    rintro results ⟨e, mem, -⟩
    cases mem
  | cons first rest ih =>
    rintro results ⟨e, mem, stops⟩
    rw [OllamaDir.verifyFrom]
    rcases List.mem_cons.mp mem with rfl | mem
    · rcases stops with raises | ⟨rfl, mismatch⟩
      · rw [raises]
      · rw [mismatch]
        rfl
    · split
      · rfl
      · split
        · rfl
        · exact ih ⟨e, mem, stops⟩

/-! ## The status -/

theorem overallStatus_mismatch_iff {statuses : List ModelStatus} :
    overallStatus statuses = .mismatch ↔ .mismatch ∈ statuses := by
  unfold overallStatus
  split
  · next mem => exact ⟨fun _ => mem, fun _ => rfl⟩
  · next none =>
    refine ⟨fun other => ?_, fun mem => absurd mem none⟩
    split at other
    · cases other
    · split at other <;> cases other

theorem freshStatus_mismatch_iff :
    env.freshStatus.status = .mismatch ↔
      ∃ results, env.verifyModelIntegrity = some results ∧
        ∃ id, results.get id = some ⟨id, .mismatch⟩ := by
  have rows : ∀ results : Results, overallStatus (results.rows.map (·.status)) = .mismatch ↔
      ∃ id, results.get id = some ⟨id, .mismatch⟩ := by
    intro results
    rw [overallStatus_mismatch_iff, List.mem_map]
    constructor
    · rintro ⟨⟨id, status⟩, mem, rfl⟩
      exact ⟨id, Table.get_of_mem mem⟩
    · rintro ⟨id, found⟩
      exact ⟨_, (Table.get_mem found).1, rfl⟩
  unfold IntegrityEnv.freshStatus
  cases env.verifyModelIntegrity with
  | some results => simpa using rows results
  | none =>
    refine (rows .empty).trans ⟨?_, ?_⟩
    · rintro ⟨id, found⟩
      cases found
    · rintro ⟨results, none, -⟩
      cases none

theorem verifyFrom_of_no_mismatch {strict : Bool} :
    ∀ {entries : List ModelEntry} {results : Results},
    (∀ e ∈ entries, dir.check e ≠ some .mismatch) →
    dir.verifyFrom strict entries results = dir.verifyFrom false entries results := by
  intro entries
  induction entries with
  | nil => intro results _; rfl
  | cons e rest ih =>
    intro results agree
    have here := agree e List.mem_cons_self
    rw [OllamaDir.verifyFrom, OllamaDir.verifyFrom]
    cases found : dir.check e with
    | none => rfl
    | some status =>
      have other : status ≠ .mismatch := fun same => here (same ▸ found)
      simp only [other, decide_false, Bool.false_and, Bool.false_eq_true, if_false]
      exact ih fun e' mem => agree e' (List.mem_cons_of_mem e mem)

/-- Where the loop ends, what is kept under an id is what was found of its last model. -/
theorem get_of_verified {results : Results} {strict : Bool} {entries : List ModelEntry}
    (whole : dir.verifyFrom strict entries .empty = some results) :
    (∀ e ∈ entries, dir.check e ≠ none) ∧
      (strict = true → ∀ e ∈ entries, dir.check e ≠ some .mismatch) ∧ ∀ id,
        results.get id = match entries.reverse.find? (·.modelId = id) with
          | some e => (dir.check e).map (⟨id, ·⟩)
          | none => none := by
  have goes_on : ∀ e ∈ entries, ¬ (dir.check e = none ∨
      strict = true ∧ dir.check e = some .mismatch) := by
    intro e mem stops
    rw [verifyFrom_eq_none ⟨e, mem, stops⟩] at whole
    cases whole
  have searched : ∀ e ∈ entries, dir.check e ≠ none := fun e mem raises =>
    goes_on e mem (.inl raises)
  have agree : strict = true → ∀ e ∈ entries, dir.check e ≠ some .mismatch :=
    fun on e mem mismatch => goes_on e mem (.inr ⟨on, mismatch⟩)
  obtain ⟨after, lenient, last⟩ := verifyFrom_lenient entries .empty searched
  have same : dir.verifyFrom strict entries .empty = some after := by
    cases strict with
    | false => exact lenient
    | true => exact (verifyFrom_of_no_mismatch (agree rfl)).trans lenient
  rw [whole, Option.some.injEq] at same
  exact ⟨searched, agree, same ▸ last⟩

/-- The status shows a mismatch exactly where one surfaces. -/
theorem freshStatus_iff_surfaces : env.freshStatus.status = .mismatch ↔ Surfaces env := by
  rw [freshStatus_mismatch_iff]
  constructor
  · rintro ⟨results, whole, id, found⟩
    obtain ⟨searched, agree, last⟩ := get_of_verified whole
    rw [last id] at found
    split at found
    · next e at_id =>
      obtain ⟨status, check, same⟩ := Option.map_eq_some_iff.mp found
      cases same
      have mem : e ∈ env.models.entries := by simpa using List.mem_of_find?_eq_some at_id
      have id_eq : e.modelId = id := by simpa using List.find?_some at_id
      refine ⟨?_, ?_, e, mem, check_mismatch_iff.mp check, by rw [id_eq]; exact at_id⟩
      · exact Bool.eq_false_iff.mpr fun on => agree on e mem check
      · exact fun e' mem' pinned raises => searched e' mem' (check_eq_none_iff.mpr ⟨pinned, raises⟩)
    · cases found
  · rintro ⟨lenient, searched, e, mem, mismatch, at_id⟩
    have checked : ∀ e' ∈ env.models.entries, env.dir.check e' ≠ none := fun e' mem' raises =>
      searched e' mem' (check_eq_none_iff.mp raises).1 (check_eq_none_iff.mp raises).2
    obtain ⟨after, whole, last⟩ := verifyFrom_lenient env.models.entries .empty checked
    refine ⟨after, ?_, e.modelId, ?_⟩
    · rw [IntegrityEnv.verifyModelIntegrity, lenient]
      exact whole
    · rw [last, at_id]
      dsimp only
      rw [check_mismatch_iff.mpr mismatch]
      rfl

/-! ## Calls -/

/-- The cache holds nothing but what a call computes. -/
def StatusServer.Fresh (env : IntegrityEnv) (s : StatusServer) : Prop :=
  ∀ result ∈ s.cache, result = env.freshStatus

theorem fresh_of_step {x : StatusStep} (h : (statusServer env).Steps x)
    (fresh : x.before.Fresh env) :
    x.after.Fresh env ∧ ∀ result ∈ x.label, result = env.freshStatus := by
  obtain ⟨s, i, label, s'⟩ := x
  have h : s.step env i = some (s', label) := h
  unfold StatusServer.step at h
  cases i with
  | call =>
    dsimp only at h
    split at h
    · next result cached =>
      cases h
      exact ⟨fresh, fun r at_label => fresh r (by rw [cached]; exact at_label)⟩
    · next empty =>
      cases h
      exact ⟨fun r at_cache => fresh r at_cache, fun r none => by cases none⟩
  | finish =>
    dsimp only at h
    split at h
    · cases h
    · cases h
      exact ⟨fun r at_cache => (Option.some.inj at_cache).symm,
        fun r at_label => (Option.some.inj at_label).symm⟩
  | cancel =>
    dsimp only at h
    split at h
    · cases h
    · cases h
      exact ⟨fun r at_cache => fresh r at_cache, fun r none => by cases none⟩

/-- Every answer, of the first calls and from the cache, says `mismatch` while some model
mismatches: exactly if then a mismatch surfaces. -/
theorem mismatch_shown_iff (env : IntegrityEnv) :
    (∀ inputs, ∀ x ∈ (statusServer env).run .start inputs, ∀ result ∈ x.label,
        (∃ e ∈ env.models.entries, Mismatches env.dir e) → result.status = .mismatch) ↔
      ((∃ e ∈ env.models.entries, Mismatches env.dir e) → Surfaces env) := by
  constructor
  · intro shown some_mismatch
    have first := shown [.call, .finish] ⟨⟨none, 1⟩, .finish, some env.freshStatus,
      ⟨some env.freshStatus, 0⟩⟩
        (by simp [Machine.run, statusServer, StatusServer.step, StatusServer.start])
      env.freshStatus rfl some_mismatch
    exact freshStatus_iff_surfaces.mp first
  · intro surfaces inputs x mem result at_label some_mismatch
    have start : StatusServer.start.Fresh env := fun r none => by cases none
    obtain ⟨step, fresh, -⟩ := Machine.run_invariant
      (fun x step fresh => (fresh_of_step step fresh).1) start x mem
    rw [(fresh_of_step step fresh).2 result at_label]
    exact freshStatus_iff_surfaces.mpr (surfaces some_mismatch)

end

/-! ## Two directories -/

/-- One file for every model, found by its name. -/
def sampleOllama (digest : String) : OllamaDir where
  manifest _ _ := none
  blobExists _ := false
  glob _ := some ["llama3.gguf"]
  sha256File _ := some digest

def sampleIntegrity (pin : String) (strict : Bool) : IntegrityEnv where
  unicode := .ascii
  dir := sampleOllama "f00d"
  models := ⟨⟨"llama3", pin⟩, ⟨"llama3:8b", ""⟩, ⟨"nomic", ""⟩⟩
  strictVariable := ""
  modelIntegrityStrict := strict

/-- In strict mode the mismatch raises, and what is shown is that nothing was checked. -/
theorem strict_mismatch_hidden :
    ¬ ∀ inputs, ∀ x ∈ (statusServer (sampleIntegrity "beef" true)).run .start inputs,
      ∀ result ∈ x.label,
        (∃ e ∈ (sampleIntegrity "beef" true).models.entries,
          Mismatches (sampleIntegrity "beef" true).dir e) → result.status = .mismatch := by
  intro shown
  have answered : (sampleIntegrity "beef" true).freshStatus.status = .skipped := by
    decide +kernel
  have first := shown [.call, .finish] ⟨⟨none, 1⟩, .finish,
    some (sampleIntegrity "beef" true).freshStatus,
    ⟨some (sampleIntegrity "beef" true).freshStatus, 0⟩⟩
    (by simp [Machine.run, statusServer, StatusServer.step, StatusServer.start])
    _ rfl ⟨_, List.mem_cons_self, check_mismatch_iff.mp (by decide +kernel)⟩
  rw [answered] at first
  cases first

end LegionForge.Tools
