import LegionForge.Lib.Machine
import LegionForge.Security.Sanitize
import Mathlib.Logic.Function.Basic

/-!
# The credential store

At startup the store asks its backend for every service it knows, one after another, and from
then on answers from memory. The environment, the credentials file and the keychain may change
at any time, also between two of the services; a file that others can read or write ends the
start with an exception, and what was stored by then stays for the next attempt.

`credential_reads` says what a reader gets, `ready_complete` what a finished start has asked
for, and `environment_clean` what a subprocess is given.
-/

namespace LegionForge.Security

/-! ## What the store knows -/

/-- `_SERVICE_TO_ENV` -/
def serviceToEnv : List (String × String) :=
  [("openai", "OPENAI_API_KEY"), ("anthropic", "ANTHROPIC_API_KEY"),
    ("openrouter", "OPENROUTER_API_KEY"), ("langsmith", "LANGSMITH_API_KEY"),
    ("postgres", "POSTGRES_PASSWORD"), ("legionforge_health", "LEGIONFORGE_HEALTH_TOKEN"),
    ("legionforge_task_tokens", "TASK_TOKEN_SECRET"),
    ("legionforge_tool_signer", "TOOL_SIGNING_PRIVATE_KEY"),
    ("legionforge_db_app", "POSTGRES_APP_PASSWORD"),
    ("legionforge_tavily_api_key", "TAVILY_API_KEY"),
    ("legionforge_brave_api_key", "BRAVE_API_KEY"),
    ("legionforge_exa_api_key", "EXA_API_KEY"),
    ("legionforge_perplexity_api_key", "PERPLEXITY_API_KEY"),
    ("legionforge_firecrawl_api_key", "FIRECRAWL_API_KEY"),
    ("legionforge_inceptionlabs_api_key", "INCEPTIONLABS_API_KEY"),
    ("legionforge_webhook_inbound_secret", "LEGIONFORGE_WEBHOOK_INBOUND_SECRET")]

def services : List String := serviceToEnv.map (·.1)

/-- `_SECRET_ENV_VARS` -/
def secretEnvVars : List String :=
  serviceToEnv.map (·.2) ++
    ["OPENAI_API_KEY", "ANTHROPIC_API_KEY", "LANGSMITH_API_KEY", "LANGCHAIN_API_KEY",
      "POSTGRES_PASSWORD", "POSTGRES_APP_PASSWORD", "DATABASE_URL", "SECRET_KEY", "SIGNING_KEY",
      "PRIVATE_KEY", "LEGIONFORGE_HEALTH_TOKEN", "LEGIONFORGE_WEBHOOK_INBOUND_SECRET",
      "TASK_TOKEN_SECRET", "TOOL_SIGNING_PRIVATE_KEY", "AWS_ACCESS_KEY_ID",
      "AWS_SECRET_ACCESS_KEY", "AWS_SESSION_TOKEN", "GITHUB_TOKEN", "GH_TOKEN", "NPM_TOKEN",
      "PYPI_TOKEN", "HUGGINGFACE_TOKEN", "HF_TOKEN", "LANGCHAIN_TRACING_V2",
      "LANGCHAIN_PROJECT"]

/-- `_SAFE_SUBPROCESS_ENV_KEYS` -/
def safeSubprocessEnvKeys : List String :=
  ["PATH", "HOME", "USER", "LOGNAME", "SHELL", "TMPDIR", "TEMP", "TMP", "PWD", "OLDPWD", "LANG",
    "LC_ALL", "LC_CTYPE", "LC_MESSAGES", "LC_NUMERIC", "LC_TIME", "TZ", "PYTHONPATH",
    "PYTHONDONTWRITEBYTECODE", "PYTHONNOUSERSITE", "PYTHONUNBUFFERED", "VIRTUAL_ENV",
    "DYLD_LIBRARY_PATH", "LD_LIBRARY_PATH", "TERM", "COLORTERM", "NO_COLOR", "CI",
    "OLLAMA_MODELS"]

theorem safe_not_secret : ∀ k ∈ safeSubprocessEnvKeys, k ∉ secretEnvVars := by decide +kernel

/-! ## Where credentials come from -/

/-- A value of the credentials file: whether it counts as true, and `str` of it -/
structure YamlValue where
  truthy : Bool
  text : String

/-- What `yaml.safe_load` makes of the file -/
inductive CredentialsYaml where
  /-- It raises, or opening the file does. -/
  | unreadable
  | mapping (entries : List (String × YamlValue))
  /-- Nothing, or a value that counts as false -/
  | empty
  /-- Any other value: it has no `get`. -/
  | other

structure CredentialsFile where
  /-- `stat.S_IMODE` -/
  mode : Nat
  data : CredentialsYaml

/-- `S_IRGRP | S_IROTH | S_IWGRP | S_IWOTH` -/
def groupOrWorld : Nat := 0o066

def CredentialsFile.exposed (f : CredentialsFile) : Bool := f.mode &&& groupOrWorld ≠ 0

/-- What is outside the process. -/
structure World where
  /-- `os.environ` -/
  environ : String → Option String
  files : String → Option CredentialsFile
  /-- `_keyring_get` of the account `api_key` -/
  keyring : String → Option String
  /-- The output of `security find-generic-password`, where it returns 0 in time -/
  securityCli : String → Option String

structure SecurityConfig where
  secretBackend : String := "env_var"
  purgeEnvAfterLoad : Bool := false
  keychainAccessAllowed : Bool := true
  /-- As `expanduser` leaves it; empty where none is given -/
  credentialsFilePath : String := ""

structure CredentialStore where
  store : String → Option String
  initialized : Bool
  backend : String
  credentialsFile : String
  purgeEnvAfterLoad : Bool
  keychainAccessAllowed : Bool
  safeEnvSnapshot : Option (String → Option String)

inductive LoadError where
  | permission (message : String)
  /-- `data.get` of what has no `get` -/
  | attribute
  deriving DecidableEq

structure CredentialEnv where
  unicode : Unicode
  /-- `DEFAULT_CREDENTIALS_FILE` -/
  defaultFile : String

section
variable (env : CredentialEnv)

/-- `__init__` -/
def CredentialStore.new : CredentialStore where
  store _ := none
  initialized := false
  backend := "env_var"
  credentialsFile := env.defaultFile
  purgeEnvAfterLoad := false
  keychainAccessAllowed := true
  safeEnvSnapshot := none

def envVarOf (service : String) : String :=
  (serviceToEnv.lookup service).getD
    (String.ofList (env.unicode.upper service.toList) ++ "_API_KEY")

variable (s : CredentialStore) (w : World) (service : String)

/-- `_load_from_env` -/
def loadFromEnv : Option String := w.environ (envVarOf env service)

/-- `_load_from_keychain` -/
def CredentialStore.loadFromKeychain : Option String :=
  if !s.keychainAccessAllowed then loadFromEnv env w service
  else
    match (w.keyring service).filter (· ≠ "") with
    | some key => some key
    | none =>
      match ((w.securityCli service).map env.unicode.strip).filter (· ≠ "") with
      | some key => some key
      | none => loadFromEnv env w service

/-- `_load_from_file` -/
def CredentialStore.loadFromFile : Except LoadError (Option String) :=
  match w.files s.credentialsFile with
  | none => .ok (loadFromEnv env w service)
  | some file =>
    if file.exposed then
      .error (.permission (
        s!"Credentials file {s.credentialsFile} is group/world accessible.\n" ++
        s!"Fix with: chmod 0600 {s.credentialsFile}"))
    else
      match file.data with
      | .unreadable => .ok (loadFromEnv env w service)
      | .empty => .ok (loadFromEnv env w service)
      | .other => .error .attribute
      | .mapping entries =>
        match (entries.lookup service).filter (·.truthy) with
        | some value => .ok (some value.text)
        | none => .ok (loadFromEnv env w service)

/-- `_load_one` -/
def CredentialStore.loadOne : Except LoadError (Option String) :=
  if s.backend = "keychain" then .ok (s.loadFromKeychain env w service)
  else if s.backend = "file" then s.loadFromFile env w service
  else .ok (loadFromEnv env w service)

def CredentialStore.configure (config : SecurityConfig) : CredentialStore :=
  { s with
    backend := config.secretBackend
    purgeEnvAfterLoad := config.purgeEnvAfterLoad
    keychainAccessAllowed := config.keychainAccessAllowed
    credentialsFile :=
      if config.credentialsFilePath = "" then s.credentialsFile else config.credentialsFilePath }

def CredentialStore.setRuntime (value : String) : CredentialStore :=
  { s with store := Function.update s.store service (some value) }

/-- The variables that a subprocess may see -/
def safeEnv : String → Option String := fun k =>
  if safeSubprocessEnvKeys.contains k then w.environ k else none

/-- `_purge_secrets_from_env` -/
def World.purge : World :=
  { w with environ := fun k => if secretEnvVars.contains k then none else w.environ k }

def CredentialStore.get (default : Option String) : Option String :=
  if s.initialized then (s.store service).or default
  else ((loadFromEnv env w service).filter (· ≠ "")).or default

def CredentialStore.require : Except String String :=
  match (s.get env w service none).filter (· ≠ "") with
  | some value => .ok value
  | none => .error (s!"Required credential '{service}' not found.\n" ++
      s!"  Backend: {s.backend}\n" ++
      s!"  Env var: export {envVarOf env service}=<value>\n" ++
      s!"  Keychain: python -m keyring set {service} api_key\n" ++
      s!"  File: add '{service}: <value>' to {env.defaultFile}")

def CredentialStore.getSafeSubprocessEnv : String → Option String :=
  s.safeEnvSnapshot.getD (safeEnv w)

end

/-! ## A process -/

structure CredentialProcess where
  world : World
  creds : CredentialStore
  /-- The services that a start has still to ask for -/
  loading : Option (List String)

inductive CredentialAction where
  /-- Whatever else there is changes the environment, the file or the keychain. -/
  | outside (world : World)
  | initializeWith (config : SecurityConfig)
  | loadNext
  | finish
  | get (service : String) (default : Option String)
  | require (service : String)
  | setRuntime (service value : String)
  | getSafeSubprocessEnv

inductive CredentialLabel where
  | quiet
  | stored (service value : String)
  | raised (e : LoadError)
  | ready
  | answered (value : Option String)
  | required (value : Except String String)
  | environment (environ : String → Option String)

section
variable (env : CredentialEnv)

def CredentialProcess.step (s : CredentialProcess) :
    CredentialAction → Option (CredentialProcess × CredentialLabel)
  | .outside world => some ({ s with world }, .quiet)
  | .initializeWith config =>
    match s.loading with
    | some _ => none
    | none =>
      if s.creds.initialized then some (s, .quiet)
      else some ({ s with creds := s.creds.configure config, loading := some services }, .quiet)
  | .loadNext =>
    match s.loading with
    | some (service :: rest) =>
      match s.creds.loadOne env s.world service with
      | .error e => some ({ s with loading := none }, .raised e)
      | .ok value =>
        match value.filter (· ≠ "") with
        | none => some ({ s with loading := some rest }, .quiet)
        | some value => some ({ s with
            creds := s.creds.setRuntime service value
            loading := some rest }, .stored service value)
    | _ => none
  | .finish =>
    match s.loading with
    | some [] => some ({
        world := if s.creds.purgeEnvAfterLoad then s.world.purge else s.world
        creds := { s.creds with initialized := true, safeEnvSnapshot := some (safeEnv s.world) }
        loading := none }, .ready)
    | _ => none
  | .get service default => some (s, .answered (s.creds.get env s.world service default))
  | .require service => some (s, .required (s.creds.require env s.world service))
  | .setRuntime service value =>
    some ({ s with creds := s.creds.setRuntime service value }, .stored service value)
  | .getSafeSubprocessEnv => some (s, .environment (s.creds.getSafeSubprocessEnv s.world))

/-- A process that has just started -/
def CredentialProcess.start (world : World) : CredentialProcess := ⟨world, .new env, none⟩

def credentialProcess : Machine CredentialProcess CredentialAction CredentialLabel where
  step s a := s.step env a

end

abbrev CredentialStep := Machine.Entry CredentialProcess CredentialAction CredentialLabel


/-! ## What a step does -/

section
variable {env : CredentialEnv}

inductive CredentialMove (env : CredentialEnv) (s : CredentialProcess) :
    CredentialAction → CredentialProcess → CredentialLabel → Prop
  | outside {world : World} : CredentialMove env s (.outside world) { s with world } .quiet
  | begun {config : SecurityConfig} (fresh : s.creds.initialized = false) :
      CredentialMove env s (.initializeWith config)
        { s with creds := s.creds.configure config, loading := some services } .quiet
  | begunAgain {config : SecurityConfig} : CredentialMove env s (.initializeWith config) s .quiet
  | failed {service : String} {rest : List String} {e : LoadError}
      (place : s.loading = some (service :: rest)) :
      CredentialMove env s .loadNext { s with loading := none } (.raised e)
  | notFound {service : String} {rest : List String} {value : Option String}
      (place : s.loading = some (service :: rest))
      (asked : s.creds.loadOne env s.world service = .ok value)
      (empty : value.filter (· ≠ "") = none) :
      CredentialMove env s .loadNext { s with loading := some rest } .quiet
  | loaded {service : String} {rest : List String} {value : String}
      (place : s.loading = some (service :: rest))
      (asked : s.creds.loadOne env s.world service = .ok (some value)) (nonempty : value ≠ "") :
      CredentialMove env s .loadNext
        { s with creds := s.creds.setRuntime service value, loading := some rest }
        (.stored service value)
  | finished (place : s.loading = some []) :
      CredentialMove env s .finish {
        world := if s.creds.purgeEnvAfterLoad then s.world.purge else s.world
        creds := { s.creds with initialized := true, safeEnvSnapshot := some (safeEnv s.world) }
        loading := none } .ready
  | got {service : String} {default : Option String} :
      CredentialMove env s (.get service default) s
        (.answered (s.creds.get env s.world service default))
  | required {service : String} :
      CredentialMove env s (.require service) s (.required (s.creds.require env s.world service))
  | set {service value : String} :
      CredentialMove env s (.setRuntime service value)
        { s with creds := s.creds.setRuntime service value } (.stored service value)
  | environment : CredentialMove env s .getSafeSubprocessEnv s
      (.environment (s.creds.getSafeSubprocessEnv s.world))

theorem credential_moves {x : CredentialStep} (h : (credentialProcess env).Steps x) :
    CredentialMove env x.before x.input x.after x.label := by
  obtain ⟨s, a, label, s'⟩ := x
  have h : s.step env a = some (s', label) := h
  cases a with
  | outside world =>
    cases h
    exact .outside
  | initializeWith config =>
    simp only [CredentialProcess.step] at h
    split at h
    · cases h
    · split at h
      · cases h
        exact .begunAgain
      · next fresh =>
        cases h
        exact .begun (Bool.eq_false_iff.mpr fresh)
  | loadNext =>
    simp only [CredentialProcess.step] at h
    split at h
    · next place =>
      split at h
      · cases h
        exact .failed place
      · next value asked =>
        split at h
        · next empty =>
          cases h
          exact .notFound place asked empty
        · next v found =>
          cases h
          obtain ⟨same, nonempty⟩ := Option.filter_eq_some_iff.mp found
          exact .loaded place (same ▸ asked) (of_decide_eq_true nonempty)
    · cases h
  | finish =>
    simp only [CredentialProcess.step] at h
    split at h
    · next place =>
      cases h
      exact .finished place
    · cases h
  | get service default =>
    cases h
    exact .got
  | require service =>
    cases h
    exact .required
  | setRuntime service value =>
    cases h
    exact .set
  | getSafeSubprocessEnv =>
    cases h
    exact .environment

/-! ## What a reader gets -/

/-- What the step stores for the service -/
def CredentialStep.stores (service : String) (x : CredentialStep) : Option String :=
  match x.label with
  | .stored name value => if name = service then some value else none
  | _ => none

/-- The value that was stored last -/
def lastStored (service : String) (past : List CredentialStep) : Option String :=
  past.reverse.findSome? (CredentialStep.stores service)

theorem lastStored_concat (service : String) (past : List CredentialStep) (x : CredentialStep) :
    lastStored service (past ++ [x]) = (x.stores service).or (lastStored service past) := by
  rw [lastStored, List.reverse_append, List.reverse_singleton, List.singleton_append,
    List.findSome?_cons]
  cases x.stores service <;> rfl

theorem store_of_step {x : CredentialStep} (h : (credentialProcess env).Steps x)
    (service : String) :
    x.after.creds.store service = (x.stores service).or (x.before.creds.store service) := by
  have moves := credential_moves h
  obtain ⟨s, a, label, s'⟩ := x
  dsimp only at moves ⊢
  have update (name value : String) :
      Function.update s.creds.store name (some value) service =
        (if name = service then some value else none).or (s.creds.store service) := by
    by_cases same : service = name
    · rw [same, Function.update_self, if_pos rfl, Option.some_or]
    · rw [Function.update_of_ne same, if_neg (Ne.symm same), Option.none_or]
  cases moves with
  | loaded => exact update _ _
  | set => exact update _ _
  | _ => rfl

/-- Whether a start is over, by the steps so far -/
structure Started (past : List CredentialStep) (s : CredentialProcess) : Prop where
  store : ∀ service, s.creds.store service = lastStored service past
  idle : s.creds.initialized = true → s.loading = none
  early : s.creds.initialized = false →
    s.creds.safeEnvSnapshot = none ∧ ∀ y ∈ past, y.label ≠ .ready
  ready : s.creds.initialized = true → (∃ y ∈ past, y.label = .ready) ∧
    ∀ y ∈ past, y.label = .ready → s.creds.safeEnvSnapshot = some (safeEnv y.before.world)

theorem started_of_step {past : List CredentialStep} {x : CredentialStep}
    (h : (credentialProcess env).Steps x) (started : Started past x.before) :
    Started (past ++ [x]) x.after := by
  have store (service : String) :
      x.after.creds.store service = lastStored service (past ++ [x]) := by
    rw [store_of_step h, started.store, lastStored_concat]
  -- a step that leaves the two flags alone
  have same (flag : x.after.creds.initialized = x.before.creds.initialized)
      (snapshot : x.after.creds.safeEnvSnapshot = x.before.creds.safeEnvSnapshot)
      (idle : x.before.creds.initialized = true → x.after.loading = none)
      (label : x.label ≠ .ready) : Started (past ++ [x]) x.after := by
    refine ⟨store, fun init => idle (flag ▸ init), fun init => ?_, fun init => ?_⟩
    · obtain ⟨none, quiet⟩ := started.early (flag ▸ init)
      refine ⟨snapshot ▸ none, fun y hy => ?_⟩
      rcases List.mem_append.mp hy with old | new
      · exact quiet y old
      · rwa [List.mem_singleton.mp new]
    · obtain ⟨⟨y, hy, ready⟩, taken⟩ := started.ready (flag ▸ init)
      refine ⟨⟨y, List.mem_append_left _ hy, ready⟩, fun z hz is_ready => ?_⟩
      rcases List.mem_append.mp hz with old | new
      · exact snapshot ▸ taken z old is_ready
      · rw [List.mem_singleton.mp new] at is_ready
        exact absurd is_ready label
  have moves := credential_moves h
  obtain ⟨s, a, label, s'⟩ := x
  dsimp only at moves store same started
  -- nothing is being loaded once the start is over
  have loading {services : List String} (place : s.loading = some services)
      (init : s.creds.initialized = true) : False := by
    rw [started.idle init] at place
    cases place
  cases moves with
  | begun fresh =>
    refine same rfl rfl (fun init => ?_) (by simp)
    rw [fresh] at init
    cases init
  | failed place => exact same rfl rfl (fun _ => rfl) (by simp)
  | notFound place => exact same rfl rfl (fun init => (loading place init).elim) (by simp)
  | loaded place => exact same rfl rfl (fun init => (loading place init).elim) (by simp)
  | finished place =>
    have fresh : s.creds.initialized = false := Bool.eq_false_iff.mpr (loading place)
    refine ⟨store, fun _ => rfl, fun init => Bool.noConfusion init, fun _ => ⟨?_, ?_⟩⟩
    · exact ⟨_, List.mem_append_right _ List.mem_cons_self, rfl⟩
    · intro y hy is_ready
      rcases List.mem_append.mp hy with old | new
      · exact absurd is_ready ((started.early fresh).2 y old)
      · rw [List.mem_singleton.mp new]
  | _ => exact same rfl rfl started.idle (by simp)

theorem started_of_run (world : World) (actions : List CredentialAction)
    {past later : List CredentialStep} {x : CredentialStep}
    (split : (credentialProcess env).run (.start env world) actions = past ++ x :: later) :
    Started past x.before := by
  refine (Machine.history_invariant (I := Started) (fun _ _ h => started_of_step h) ?_
    past x later split).2
  exact ⟨fun _ => rfl, fun init => Bool.noConfusion init,
    fun _ => ⟨rfl, fun y hy => absurd hy List.not_mem_nil⟩, fun init => Bool.noConfusion init⟩

/-- In every run, a reader gets the value that was stored last for the service, by a start or at
runtime, once a start is over, and before that the value of the environment and nothing else;
and the default where that is nothing. -/
theorem credential_reads (env : CredentialEnv) (world : World) (actions : List CredentialAction)
    {past later : List CredentialStep} {x : CredentialStep}
    (split : (credentialProcess env).run (.start env world) actions = past ++ x :: later)
    {service : String} {default : Option String} (input : x.input = .get service default) :
    ((∃ y ∈ past, y.label = .ready) →
      x.label = .answered ((lastStored service past).or default)) ∧
    ((∀ y ∈ past, y.label ≠ .ready) →
      x.label = .answered
        (((x.before.world.environ (envVarOf env service)).filter (· ≠ "")).or default)) := by
  have started := started_of_run world actions split
  have moves := credential_moves (Machine.steps_of_run split)
  obtain ⟨s, a, label, s'⟩ := x
  dsimp only at moves started input ⊢
  subst input
  cases moves with
  | got =>
    cases init : s.creds.initialized with
    | true =>
      obtain ⟨⟨y, hy, ready⟩, -⟩ := started.ready init
      refine ⟨fun _ => ?_, fun quiet => absurd ready (quiet y hy)⟩
      rw [CredentialStore.get, if_pos init, started.store]
    | false =>
      refine ⟨fun ⟨y, hy, ready⟩ => absurd ready ((started.early init).2 y hy), fun _ => ?_⟩
      rw [CredentialStore.get, if_neg (by simp [init]), loadFromEnv]

/-! ## What a subprocess is given -/

theorem safeEnv_of_secret (w : World) {k : String} (secret : k ∈ secretEnvVars) :
    safeEnv w k = none := by
  refine if_neg fun safe => ?_
  exact safe_not_secret k (List.contains_iff_mem.mp safe) secret

/-- In every run, the environment for a subprocess has no secret variable. It is what the safe
variables were when the start was finished, and as long as it is not, what they are now. -/
theorem environment_clean (env : CredentialEnv) (world : World) (actions : List CredentialAction)
    {past later : List CredentialStep} {x : CredentialStep}
    (split : (credentialProcess env).run (.start env world) actions = past ++ x :: later)
    {environ : String → Option String} (label : x.label = .environment environ) :
    (∀ k ∈ secretEnvVars, environ k = none) ∧
      (∀ y ∈ past, y.label = .ready → environ = safeEnv y.before.world) ∧
      ((∀ y ∈ past, y.label ≠ .ready) → environ = safeEnv x.before.world) := by
  have started := started_of_run world actions split
  have moves := credential_moves (Machine.steps_of_run split)
  obtain ⟨s, a, label', s'⟩ := x
  dsimp only at moves started label ⊢
  subst label
  cases moves with
  | environment =>
    unfold CredentialStore.getSafeSubprocessEnv
    cases init : s.creds.initialized with
    | true =>
      obtain ⟨⟨y, hy, ready⟩, taken⟩ := started.ready init
      refine ⟨fun k secret => ?_, fun z hz is_ready => ?_, fun quiet => absurd ready (quiet y hy)⟩
      · rw [taken y hy ready, Option.getD_some, safeEnv_of_secret _ secret]
      · rw [taken z hz is_ready, Option.getD_some]
    | false =>
      obtain ⟨none, quiet⟩ := started.early init
      refine ⟨fun k secret => ?_, fun z hz is_ready => absurd is_ready (quiet z hz), fun _ => ?_⟩
      · rw [none, Option.getD_none, safeEnv_of_secret _ secret]
      · rw [none, Option.getD_none]

/-! ## What a start asks for -/

/-- The service that the step asks the backend for -/
def CredentialStep.asks (x : CredentialStep) : Option String :=
  match x.input with
  | .loadNext => x.before.loading.bind List.head?
  | _ => none

/-- The step asks for the service as the configuration says, and stores what is found. -/
structure AsksFor (env : CredentialEnv) (config : SecurityConfig) (x : CredentialStep)
    (service : String) : Prop where
  backend : x.before.creds.backend = config.secretBackend
  keychain : x.before.creds.keychainAccessAllowed = config.keychainAccessAllowed
  asked : ∃ found, x.before.creds.loadOne env x.before.world service = .ok found ∧
    x.stores service = found.filter (· ≠ "")

/-- Where a start is: what it has asked for, and what is left -/
def Loading (env : CredentialEnv) (past : List CredentialStep) (s : CredentialProcess) : Prop :=
  ∀ rest, s.loading = some rest → ∃ pre first mid config, past = pre ++ first :: mid ∧
    first.input = .initializeWith config ∧ mid.filterMap CredentialStep.asks ++ rest = services ∧
    (∀ y ∈ mid, ∀ service, y.asks = some service → AsksFor env config y service) ∧
    s.creds.backend = config.secretBackend ∧
    s.creds.keychainAccessAllowed = config.keychainAccessAllowed

theorem loading_of_step {past : List CredentialStep} {x : CredentialStep}
    (h : (credentialProcess env).Steps x) (loading : Loading env past x.before) :
    Loading env (past ++ [x]) x.after := by
  -- a step of the start that was under way, or beside it
  have extend {rest rest' : List String} (was : x.before.loading = some rest)
      (asks : x.asks.toList ++ rest' = rest)
      (stores : ∀ service, x.asks = some service →
        ∃ found, x.before.creds.loadOne env x.before.world service = .ok found ∧
          x.stores service = found.filter (· ≠ ""))
      (backend : x.after.creds.backend = x.before.creds.backend)
      (keychain : x.after.creds.keychainAccessAllowed = x.before.creds.keychainAccessAllowed) :
      ∃ pre first mid config, past ++ [x] = pre ++ first :: mid ∧
        first.input = .initializeWith config ∧
        mid.filterMap CredentialStep.asks ++ rest' = services ∧
        (∀ y ∈ mid, ∀ service, y.asks = some service → AsksFor env config y service) ∧
        x.after.creds.backend = config.secretBackend ∧
        x.after.creds.keychainAccessAllowed = config.keychainAccessAllowed := by
    obtain ⟨pre, first, mid, config, rfl, input, asked, each, same, allowed⟩ := loading rest was
    refine ⟨pre, first, mid ++ [x], config, by simp, input, ?_, ?_, backend.trans same,
      keychain.trans allowed⟩
    · rw [← asked, ← asks, List.filterMap_append, List.append_assoc]
      cases here : x.asks <;> simp [here]
    · intro y hy service ask
      rcases List.mem_append.mp hy with old | new
      · exact each y old service ask
      · rw [List.mem_singleton.mp new] at ask ⊢
        exact ⟨same, allowed, stores service ask⟩
  have moves := credential_moves h
  obtain ⟨s, a, label, s'⟩ := x
  dsimp only at moves extend ⊢
  intro rest here
  cases moves with
  | @begun config fresh =>
    cases here
    exact ⟨past, _, [], config, rfl, rfl, rfl, fun y hy => absurd hy List.not_mem_nil, rfl, rfl⟩
  | failed => cases here
  | @notFound service rest value place asked empty =>
    cases here
    have ask : CredentialStep.asks ⟨s, .loadNext, .quiet, { s with loading := some rest }⟩ =
        some service := by simp [CredentialStep.asks, place]
    refine extend place (by rw [ask]; rfl) (fun name same => ?_) rfl rfl
    cases ask.symm.trans same
    exact ⟨value, asked, empty.symm⟩
  | @loaded service rest value place asked nonempty =>
    cases here
    have ask : CredentialStep.asks ⟨s, .loadNext, .stored service value,
        { s with creds := s.creds.setRuntime service value, loading := some rest }⟩ =
        some service := by simp [CredentialStep.asks, place]
    refine extend place (by rw [ask]; rfl) (fun name same => ?_) rfl rfl
    cases ask.symm.trans same
    exact ⟨some value, asked, by simp [CredentialStep.stores, Option.filter, nonempty]⟩
  | finished => cases here
  | _ => exact extend here rfl (by simp [CredentialStep.asks]) rfl rfl

theorem exposed_of_asksFor {config : SecurityConfig} {x : CredentialStep} {service : String}
    (asked : AsksFor env config x service) (backend : config.secretBackend = "file")
    {file : CredentialsFile}
    (found : x.before.world.files x.before.creds.credentialsFile = some file) :
    file.exposed = false := by
  obtain ⟨value, loaded, -⟩ := asked.asked
  rw [CredentialStore.loadOne, asked.backend, backend, if_neg (by decide), if_pos rfl,
    CredentialStore.loadFromFile, found] at loaded
  dsimp only at loaded
  split at loaded
  · cases loaded
  · next closed => exact Bool.eq_false_iff.mpr closed

/-- In every run, a start that is finished has asked its backend for every service once and in
order since it began, whatever else happened in between; each time it has stored what the
backend had, if that was not empty; and a credentials file was private each time. -/
theorem ready_complete (env : CredentialEnv) (world : World) (actions : List CredentialAction)
    {past later : List CredentialStep} {x : CredentialStep}
    (split : (credentialProcess env).run (.start env world) actions = past ++ x :: later)
    (ready : x.label = .ready) :
    ∃ pre first mid config, past = pre ++ first :: mid ∧ first.input = .initializeWith config ∧
      mid.filterMap CredentialStep.asks = services ∧
      (∀ y ∈ mid, ∀ service, y.asks = some service → AsksFor env config y service) ∧
      (config.secretBackend = "file" → ∀ y ∈ mid, y.asks ≠ none → ∀ file,
        y.before.world.files y.before.creds.credentialsFile = some file →
          file.exposed = false) := by
  have loading := (Machine.history_invariant (I := Loading env) (fun _ _ h => loading_of_step h)
    (fun rest none => by cases none) past x later split).2
  have moves := credential_moves (Machine.steps_of_run split)
  obtain ⟨s, a, label, s'⟩ := x
  dsimp only at moves ready loading
  subst ready
  cases moves with
  | finished place =>
    obtain ⟨pre, first, mid, config, history, input, asked, each, -⟩ := loading [] place
    rw [List.append_nil] at asked
    refine ⟨pre, first, mid, config, history, input, asked, each, ?_⟩
    intro backend y hy ask file found
    obtain ⟨service, some⟩ := Option.ne_none_iff_exists'.mp ask
    exact exposed_of_asksFor (each y hy service some) backend found

end

/-! ## A second attempt -/

def sampleCredentials : CredentialEnv := ⟨.ascii, "/home/ann/credentials.yaml"⟩

def keyFile (mode : Nat) (entries : List (String × YamlValue)) : World where
  environ _ := none
  files _ := some ⟨mode, .mapping entries⟩
  keyring _ := none
  securityCli _ := none

/-- The file becomes readable for others after its first key was read, and has lost the key when
it is private again. -/
def secondAttempt : List CredentialAction :=
  [.initializeWith { secretBackend := "file" }, .loadNext, .outside (keyFile 0o644 []), .loadNext,
    .outside (keyFile 0o600 []), .initializeWith { secretBackend := "file" }] ++
    services.map (fun _ => .loadNext) ++ [.finish, .get "openai" none, .getSafeSubprocessEnv]

def firstKeys : World := keyFile 0o600 [("openai", ⟨true, "sk-1"⟩)]

theorem secondAttempt_length :
    ((credentialProcess sampleCredentials).run (.start sampleCredentials firstKeys)
      secondAttempt).length = 25 := by
  decide +kernel

/-- The key that is gone from the file is still read. -/
theorem second_reads : ∃ past x later,
    (credentialProcess sampleCredentials).run (.start sampleCredentials firstKeys) secondAttempt =
        past ++ x :: later ∧
      x.label = .answered ((lastStored "openai" past).or none) ∧
      lastStored "openai" past = some "sk-1" := by
  have here := Machine.run_at 23 (by rw [secondAttempt_length]; omega)
  exact ⟨_, _, _, here, (credential_reads sampleCredentials firstKeys secondAttempt here rfl).1
    ⟨_, List.mem_of_getElem? (i := 22) rfl, rfl⟩, rfl⟩

theorem second_complete : ∃ past x later,
    (credentialProcess sampleCredentials).run (.start sampleCredentials firstKeys) secondAttempt =
        past ++ x :: later ∧
      ∃ pre first mid config, past = pre ++ first :: mid ∧
        first.input = .initializeWith config ∧
        mid.filterMap CredentialStep.asks = services := by
  have here := Machine.run_at 22 (by rw [secondAttempt_length]; omega)
  obtain ⟨pre, first, mid, config, history, input, asked, -⟩ :=
    ready_complete sampleCredentials firstKeys secondAttempt here rfl
  exact ⟨_, _, _, here, pre, first, mid, config, history, input, asked⟩

theorem second_clean : ∃ past x later,
    (credentialProcess sampleCredentials).run (.start sampleCredentials firstKeys) secondAttempt =
        past ++ x :: later ∧
      ∃ environ, x.label = .environment environ ∧ ∀ k ∈ secretEnvVars, environ k = none := by
  have here := Machine.run_at 24 (by rw [secondAttempt_length]; omega)
  exact ⟨_, _, _, here, _, rfl,
    (environment_clean sampleCredentials firstKeys secondAttempt here rfl).1⟩

end LegionForge.Security
