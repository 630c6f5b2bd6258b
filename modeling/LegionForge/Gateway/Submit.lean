import LegionForge.Gateway.BudgetDays
import LegionForge.Gateway.Worker
import LegionForge.Security.Sanitize
import Mathlib.Data.List.MinMax

/-!
# Submitting tasks

`POST /tasks` and `POST /tasks/batch`. Each route checks one thing after the other and
leaves through an error where a check fails; what was written before that stays. The
steps have their equations here: a budget check that passes adds the estimate to the
counter, if there is one, and writes nothing else; a new task is one row.
-/

namespace LegionForge.Gateway

open LegionForge.Audit (Instant UtcOffset)
open LegionForge.Security (Unicode sanitizeText)

/-! ## Requests -/

def validAgentTypes : List String := ["orchestrator", "researcher", "base_agent"]

structure TaskConfig where
  tracingEnabled : Bool
  maxSteps : Option Int
  deriving DecidableEq

/-- A request that its validators have let through. -/
structure TaskRequest where
  task : String
  agentType : String
  config : TaskConfig
  priority : Int
  useCache : Bool
  cacheTtl : Nat
  tags : List String
  dependsOn : Option String
  callbackUrl : Option String
  dryRun : Bool
  sessionId : Option String
  modelPreference : Option String
  attachmentText : Option String
  attachmentFilename : Option String
  imageB64 : Option String
  imageMime : Option String
  valid_agentType : agentType ∈ validAgentTypes
  valid_priority : 1 ≤ priority ∧ priority ≤ 10

/-- Between 1 and 20 requests -/
structure BatchTaskRequest where
  tasks : List TaskRequest
  valid_length : 1 ≤ tasks.length ∧ tasks.length ≤ 20

/-- What a route knows of the caller. -/
structure User where
  userId : String
  dailyTokenLimit : Int

structure HttpError where
  status : Nat
  detail : String
  retryAfter : Option Nat
  deriving DecidableEq

/-! ## The tables -/

/-- `config` as it is stored: with the image, if there is one. -/
structure StoredConfig extends TaskConfig where
  image : Option (String × Option String)
  deriving DecidableEq

/-- The columns that `create_task` inserts. -/
structure TaskColumns where
  userId : String
  input : String
  agentType : String
  config : StoredConfig
  estimatedTokens : Nat
  callbackUrl : Option String
  priority : Int
  contentHash : Option String
  tags : List String
  dependsOn : Option String
  sessionId : Option String
  modelPreference : Option String
  deriving DecidableEq

structure StoredTask extends TaskColumns where
  taskId : String
  status : TaskStatus
  result : Option String
  createdAt : Nat
  completedAt : Option Nat
  deriving DecidableEq

structure UsageRow where
  userId : String
  provider : String
  totalTokens : Int
  ts : Nat

/-- What the routes read and write. The newest task comes first, and `drawn` counts the
ids that have been generated. -/
structure GatewayDb where
  tasks : List StoredTask
  drawn : Nat
  /-- Ids and owners -/
  sessions : List (String × String)
  usage : List UsageRow
  redis : Option (Redis.Store (List Char))

/-- What the routes find on their host, in the settings and in the database session. -/
structure GatewayEnv where
  unicode : Unicode
  /-- `hashlib.sha256(text.encode("utf-8")).hexdigest()` -/
  sha256 : String → String
  /-- `gen_random_uuid()` -/
  uuid : Nat → String
  /-- The id that the text stands for, if it is one: `%s::uuid` -/
  castUuid : String → Option String
  /-- `DATE` of an instant, in the time zone of the database session -/
  dbDate : Nat → Nat
  tz : UtcOffset
  maxQueuedTasksPerUser : Int

section
variable (env : GatewayEnv)

/-! ## Images -/

def b64Value (c : Char) : Option Nat :=
  if 'A' ≤ c ∧ c ≤ 'Z' then some (c.toNat - 65)
  else if 'a' ≤ c ∧ c ≤ 'z' then some (c.toNat - 71)
  else if c.isDigit then some (c.toNat + 4)
  else if c = '+' then some 62
  else if c = '/' then some 63
  else none

/-- The whole bytes in up to four sextets -/
def quadBytes : List Nat → List Nat
  | [a, b] => [a * 4 + b / 16]
  | [a, b, c] => [a * 4 + b / 16, b % 16 * 16 + c / 4]
  | [a, b, c, d] => [a * 4 + b / 16, b % 16 * 16 + c / 4, c % 4 * 64 + d]
  | _ => []

/-- Other characters are skipped, and a quad that has its padding ends the text. -/
def b64Scan : List Nat → Nat → List Char → Option (List Nat)
  | quad, _, [] => if quad = [] then some [] else none
  | quad, pads, c :: cs =>
    if c = '=' then
      if 2 ≤ quad.length ∧ 4 ≤ quad.length + (pads + 1) then some (quadBytes quad)
      else b64Scan quad (if 2 ≤ quad.length then pads + 1 else pads) cs
    else
      match b64Value c with
      | none => b64Scan quad pads cs
      | some v =>
        if quad.length = 3 then (b64Scan [] 0 cs).map (quadBytes (quad ++ [v]) ++ ·)
        else b64Scan (quad ++ [v]) 0 cs

/-- `base64.b64decode`, which takes ASCII text only -/
def b64decode (text : String) : Option (List Nat) :=
  if text.toList.all (·.toNat < 128) then b64Scan [] 0 text.toList else none

def allowedMimes : List String := ["image/gif", "image/jpeg", "image/png", "image/webp"]

/-- `_MAGIC` -/
def magicCheck (mime : String) (bytes : List Nat) : Bool :=
  match mime with
  | "image/jpeg" => bytes.take 3 = [0xff, 0xd8, 0xff]
  | "image/png" => bytes.take 4 = [0x89, 0x50, 0x4e, 0x47]
  | "image/gif" => bytes.take 4 = [0x47, 0x49, 0x46, 0x38]
  | "image/webp" => (bytes.drop 8).take 4 = [0x57, 0x45, 0x42, 0x50]
  | _ => true

def unprocessable (detail : String) : HttpError := ⟨422, detail, none⟩

/-- The error of the image attachment, if it has one. -/
def imageError (body : TaskRequest) : Option HttpError :=
  match body.imageB64 with
  | none => none
  | some b64 =>
    let mime := body.imageMime.getD ""
    if !allowedMimes.contains mime then
      some (unprocessable
        ("image_mime is required and must be one of: " ++ String.intercalate ", " allowedMimes))
    else
      match b64decode (b64 ++ "==") with
      | none => some (unprocessable "image_b64 is not valid base64")
      | some bytes =>
        if 4 * 1024 * 1024 < bytes.length then
          some (unprocessable "Image exceeds 4 MB size limit")
        else if !magicCheck mime bytes then
          some (unprocessable
            ("Image magic bytes do not match declared MIME type '" ++ mime ++ "'"))
        else none

/-! ## Text -/

/-- `len(text.split())` -/
def wordCount (space : Char → Bool) : List Char → Nat
  | [] => 0
  | [c] => if space c then 0 else 1
  | c :: d :: cs =>
    -- a word is counted at its last character
    wordCount space (d :: cs) + if !space c && space d then 1 else 0

/-- `int(len(text.split()) * 1.3 + 500)` -/
def estimatedTokens (text : String) : Nat :=
  wordCount env.unicode.space text.toList * 13 / 10 + 500

/-- `str.strip` -/
def strip (text : String) : String :=
  let left := text.toList.dropWhile env.unicode.space
  String.ofList (left.reverse.dropWhile env.unicode.space).reverse

/-- The task text with the file attachment before it. -/
def withAttachment (body : TaskRequest) (sanitized : String) : String :=
  match body.attachmentText with
  | none => sanitized
  | some text =>
    if text = "" then sanitized
    else
      let name := match body.attachmentFilename with
        | none => "attachment.txt"
        | some name => if name = "" then "attachment.txt" else name
      let fname := String.ofList ((name.toList.map fun c => if c = '\n' then ' ' else c).take 100)
      s!"[ATTACHED FILE: {fname}]\n---\n{strip env text}\n---\n\n{sanitized}"

def computeTaskHash (agentType inputText : String) : String :=
  env.sha256 s!"{agentType}:{inputText}"

/-! ## Cost estimation -/

structure CostEstimate where
  inputTokens : Nat
  outputTokens : Nat
  estimatedTokens : Nat
  /-- Nothing: every agent runs on Ollama. -/
  estimatedCostUsd : Nat
  provider : String
  agentType : String
  deriving DecidableEq

def systemPromptOverhead (agentType : String) : Nat :=
  match agentType with
  | "base_agent" => 400
  | "orchestrator" => 800
  | "researcher" => 1200
  | _ => 400

/-- `int(input_tokens * expansion)`, for expansions in halves -/
def expandedTokens (agentType : String) (inputTokens : Nat) : Nat :=
  match agentType with
  | "base_agent" => inputTokens * 3 / 2
  | "orchestrator" => inputTokens * 5 / 2
  | "researcher" => inputTokens * 8 / 2
  | _ => inputTokens * 3 / 2

def estimateTaskCost (agentType text : String) : CostEstimate :=
  let inputTokens := wordCount env.unicode.space text.toList * 13 / 10 +
    systemPromptOverhead agentType
  let outputTokens := expandedTokens agentType inputTokens
  { inputTokens, outputTokens
    estimatedTokens := inputTokens + outputTokens
    estimatedCostUsd := 0
    provider := "ollama"
    agentType }

/-! ## The steps of the routes -/

/-- `_AGENT_TYPE_TO_PROVIDER` -/
def agentTypeToProvider : List (String × String) :=
  [("orchestrator", "ollama"), ("researcher", "ollama"), ("base_agent", "ollama")]

def providerOf (agentType : String) : String :=
  (agentTypeToProvider.lookup agentType).getD "ollama"

def pendingTasks (db : GatewayDb) (userId : String) : List StoredTask :=
  db.tasks.filter fun t => t.userId = userId && (t.status = .queued || t.status = .running)

def getUserActualUsageToday (db : GatewayDb) (userId provider : String) (now : Instant) : Int :=
  ((db.usage.filter fun r => r.userId = userId && r.provider = provider &&
    env.dbDate r.ts = env.dbDate now.micros).map (·.totalTokens)).sum

def getUserInflightTokens (db : GatewayDb) (userId : String) (now : Instant) : Int :=
  (((pendingTasks db userId).filter fun t =>
    env.dbDate t.createdAt = env.dbDate now.micros).map fun t => (t.estimatedTokens : Int)).sum

/-- What counts against the limit: the counter, or without Redis two sums over tables. -/
def budgetUsed (db : GatewayDb) (userId provider : String) (now : Instant) : Int :=
  match db.redis with
  | some redis => Redis.count (redis.live now.micros (budgetKey userId (today now env.tz)))
  | none =>
    getUserActualUsageToday env db userId provider now + getUserInflightTokens env db userId now

/-- Whether the check passes. With Redis it reserves the estimate. -/
def perUserBudgetCheck (db : GatewayDb) (user : User) (provider : String)
    (estimatedTokens : Nat) (now : Instant) : GatewayDb × Bool :=
  match db.redis with
  | some redis =>
    let r := redisBudgetCheckAndReserve redis now env.tz user.userId estimatedTokens
      user.dailyTokenLimit
    ({ db with redis := some r.1 }, r.2)
  | none =>
    (db, decide (budgetUsed env db user.userId provider now + estimatedTokens ≤
      user.dailyTokenLimit))

/-- The error of `_check_queue_depth`, where it raises. -/
def checkQueueDepth (db : GatewayDb) (userId : String) (additional : Nat) : Option HttpError :=
  if env.maxQueuedTasksPerUser ≤ 0 then none
  else
    let current := (pendingTasks db userId).length
    if env.maxQueuedTasksPerUser < current + additional then
      some
        { status := 429
          detail := s!"Queue depth limit reached — you already have {current} pending task(s). " ++
            s!"Max {env.maxQueuedTasksPerUser} queued+running at once. " ++
            "Wait for existing tasks to complete before submitting more."
          retryAfter := some 60 }
    else none

def internalServerError : HttpError := ⟨500, "Internal Server Error", none⟩

/-- The error of the session check: the id is no id, or no session of the user has it. -/
def sessionError (db : GatewayDb) (userId : String) (sessionId : Option String) :
    Option HttpError :=
  match sessionId with
  | none => none
  | some text =>
    if text = "" then none
    else
      match env.castUuid text with
      | none => some internalServerError
      | some id =>
        if db.sessions.contains (id, userId) then none
        else some ⟨404, "Session '" ++ text ++ "' not found", none⟩

/-- An id that is null, or that the cast accepts. -/
def castOptional (text : Option String) : Option (Option String) :=
  match text with
  | none => some none
  | some text => (env.castUuid text).map some

/-- What `create_task` is called with. -/
structure CreateTask where
  userId : String
  inputText : String
  agentType : String
  config : StoredConfig
  estimatedTokens : Nat
  callbackUrl : Option String
  priority : Int
  contentHash : Option String := none
  tags : List String := []
  dependsOn : Option String := none
  sessionId : Option String := none
  modelPreference : Option String := none

/-- The columns of the new row, if the ids can be cast and the task that is waited for
is there. -/
def CreateTask.columns (db : GatewayDb) (c : CreateTask) : Option TaskColumns :=
  (castOptional env c.dependsOn).bind fun dependsOn =>
    (castOptional env c.sessionId).bind fun sessionId =>
      let known := match dependsOn with
        | none => true
        | some id => db.tasks.any (·.taskId = id)
      if known then
        some
          { userId := c.userId
            input := c.inputText
            agentType := c.agentType
            config := c.config
            estimatedTokens := c.estimatedTokens
            callbackUrl := c.callbackUrl
            priority := max 1 (min 10 c.priority)
            contentHash := c.contentHash
            tags := c.tags
            dependsOn
            sessionId
            modelPreference := c.modelPreference }
      else none

def createTask (db : GatewayDb) (now : Instant) (c : CreateTask) :
    Option (GatewayDb × StoredTask) :=
  (c.columns env db).map fun columns =>
    let row : StoredTask :=
      { columns with
        taskId := env.uuid db.drawn
        status := .queued
        result := none
        createdAt := now.micros
        completedAt := none }
    ({ db with tasks := row :: db.tasks, drawn := db.drawn + 1 }, row)

/-- The completed tasks with the hash that are young enough -/
def cachedTasks (db : GatewayDb) (contentHash : String) (maxAgeSeconds : Nat) (now : Instant) :
    List StoredTask :=
  db.tasks.filter fun t => t.contentHash = some contentHash && t.status = .complete &&
    match t.completedAt with
    | none => false
    | some completedAt => now.micros < completedAt + maxAgeSeconds * 1000000

/-- `ORDER BY completed_at DESC LIMIT 1` -/
def lookupCachedTask (db : GatewayDb) (contentHash : String) (maxAgeSeconds : Nat)
    (now : Instant) : Option StoredTask :=
  (cachedTasks db contentHash maxAgeSeconds now).argmax (·.completedAt.getD 0)

/-! ## The routes -/

structure QueuedReply where
  taskId : String
  priority : Int
  createdAt : Nat
  deriving DecidableEq

inductive SubmitReply where
  | dryRun (estimate : CostEstimate)
  | cached (taskId : String) (result : Option String) (completedAt : Option Nat)
  | queued (reply : QueuedReply)
  deriving DecidableEq

def StoredTask.reply (t : StoredTask) : QueuedReply := ⟨t.taskId, t.priority, t.createdAt⟩

/-- The call of `create_task` in `submit_task` -/
def submitArgs (user : User) (body : TaskRequest) (text : String) : CreateTask where
  userId := user.userId
  inputText := text
  agentType := body.agentType
  config := { body.config with image := body.imageB64.map fun b64 => (b64, body.imageMime) }
  estimatedTokens := estimatedTokens env text
  callbackUrl := body.callbackUrl
  priority := body.priority
  contentHash := some (computeTaskHash env body.agentType text)
  tags := body.tags
  dependsOn := body.dependsOn
  sessionId := body.sessionId
  modelPreference := body.modelPreference

/-- The call of `create_task` in `submit_tasks_batch` -/
def batchArgs (user : User) (req : TaskRequest) (text : String) : CreateTask where
  userId := user.userId
  inputText := text
  agentType := req.agentType
  config := { req.config with image := none }
  estimatedTokens := estimatedTokens env text
  callbackUrl := req.callbackUrl
  priority := req.priority

/-- From the budget check on -/
def submitQueued (user : User) (body : TaskRequest) (text : String) (now : Instant)
    (db : GatewayDb) : GatewayDb × Except HttpError SubmitReply :=
  let checked := perUserBudgetCheck env db user (providerOf body.agentType)
    (estimatedTokens env text) now
  let db := checked.1
  if checked.2 then
    match checkQueueDepth env db user.userId 1 with
    | some e => (db, .error e)
    | none =>
      match sessionError env db user.userId body.sessionId with
      | some e => (db, .error e)
      | none =>
        match createTask env db now (submitArgs env user body text) with
        | none => (db, .error internalServerError)
        | some (db, row) => (db, .ok (.queued row.reply))
  else (db, .error ⟨429, "Daily token budget exceeded. Try again tomorrow.", none⟩)

/-- The row a submission is answered with instead of a new task. -/
def cacheHit (body : TaskRequest) (text : String) (now : Instant) (db : GatewayDb) :
    Option StoredTask :=
  if body.useCache && 0 < body.cacheTtl then
    lookupCachedTask db (computeTaskHash env body.agentType text) body.cacheTtl now
  else none

def submitTask (user : User) (body : TaskRequest) (now : Instant) (db : GatewayDb) :
    GatewayDb × Except HttpError SubmitReply :=
  let sanitized := sanitizeText env.unicode body.task true true true
  if sanitized.2.injectionDetected then
    (db, .error ⟨400, "Task rejected: invalid input", none⟩)
  else
    match imageError body with
    | some e => (db, .error e)
    | none =>
      if body.dryRun then
        (db, .ok (.dryRun (estimateTaskCost env body.agentType sanitized.1)))
      else
        let text := withAttachment env body sanitized.1
        match cacheHit env body text now db with
        | some hit => (db, .ok (.cached hit.taskId hit.result hit.completedAt))
        | none => submitQueued env user body text now db

/-- The tasks of a batch from the one with this index on -/
def submitBatchFrom (user : User) (now : Instant) :
    Nat → List TaskRequest → GatewayDb → GatewayDb × Except HttpError (List QueuedReply)
  | _, [], db => (db, .ok [])
  | idx, req :: reqs, db =>
    let sanitized := sanitizeText env.unicode req.task true true true
    if sanitized.2.injectionDetected then
      (db, .error ⟨400, s!"Task {idx}: rejected — invalid input", none⟩)
    else
      let checked := perUserBudgetCheck env db user (providerOf req.agentType)
        (estimatedTokens env sanitized.1) now
      if checked.2 then
        match createTask env checked.1 now (batchArgs env user req sanitized.1) with
        | none => (checked.1, .error internalServerError)
        | some (db, row) =>
          let rest := submitBatchFrom user now (idx + 1) reqs db
          (rest.1, rest.2.map (row.reply :: ·))
      else (checked.1, .error ⟨429, s!"Task {idx}: daily token budget exceeded", none⟩)

def submitTasksBatch (user : User) (body : BatchTaskRequest) (now : Instant) (db : GatewayDb) :
    GatewayDb × Except HttpError (List QueuedReply) :=
  match checkQueueDepth env db user.userId body.tasks.length with
  | some e => (db, .error e)
  | none => submitBatchFrom env user now 0 body.tasks db

end

/-! ## What the steps do -/

variable {env : GatewayEnv}

theorem providerOf_eq (agentType : String) : providerOf agentType = "ollama" := by
  simp only [providerOf, agentTypeToProvider, List.lookup_cons, List.lookup_nil]
  split
  · rfl
  · split
    · rfl
    · split <;> rfl

/-- Where a counter stands; without Redis there is none. -/
def budgetCounter (db : GatewayDb) (now : Instant) (key : List Char) : Int :=
  match db.redis with
  | none => 0
  | some redis => Redis.count (redis.live now.micros key)

/-- The counters and the table are as they were. -/
def Untouched (now : Instant) (before after : GatewayDb) : Prop :=
  after.tasks = before.tasks ∧ ∀ key, budgetCounter after now key = budgetCounter before now key

theorem untouched_refl (now : Instant) (db : GatewayDb) : Untouched now db db :=
  ⟨rfl, fun _ => rfl⟩

section
variable (env) (db : GatewayDb) (user : User) (provider : String) (tokens : Nat)
  (now : Instant)

/-- The budget check writes the counters only. -/
theorem check_same : ∃ redis,
    (perUserBudgetCheck env db user provider tokens now).1 = { db with redis } := by
  unfold perUserBudgetCheck
  split
  · exact ⟨_, rfl⟩
  · exact ⟨db.redis, rfl⟩

theorem check_passes :
    (perUserBudgetCheck env db user provider tokens now).2 =
      decide (budgetUsed env db user.userId provider now + tokens ≤ user.dailyTokenLimit) := by
  unfold perUserBudgetCheck budgetUsed
  cases db.redis with
  | none => rfl
  | some redis => simp only [reserve_eq]

/-- A check that passes reserves the estimate, where there is a counter. -/
theorem check_counter (key : List Char) :
    budgetCounter (perUserBudgetCheck env db user provider tokens now).1 now key =
      budgetCounter db now key +
        if db.redis.isSome ∧ key = budgetKey user.userId (today now env.tz) ∧
            budgetUsed env db user.userId provider now + tokens ≤ user.dailyTokenLimit
        then (tokens : Int) else 0 := by
  unfold perUserBudgetCheck budgetUsed budgetCounter
  cases configured : db.redis with
  | none => simp [configured]
  | some redis =>
    simp only [reserve_eq, Option.isSome_some, true_and]
    by_cases here : key = budgetKey user.userId (today now env.tz)
    · rw [here, Redis.Store.live_set_self counterAfter_live, count_counterAfter]
      simp
    · rw [Redis.Store.live_set_of_ne here]
      simp [here]

end

theorem pending_same {db db' : GatewayDb} (same : db'.tasks = db.tasks) (userId : String) :
    pendingTasks db' userId = pendingTasks db userId := by
  rw [pendingTasks, pendingTasks, same]

theorem queueDepth_same {db db' : GatewayDb} (same : db'.tasks = db.tasks) (userId : String)
    (additional : Nat) :
    checkQueueDepth env db' userId additional = checkQueueDepth env db userId additional := by
  unfold checkQueueDepth
  rw [pending_same same]

theorem createTask_some {db db' : GatewayDb} {now : Instant} {c : CreateTask} {row : StoredTask}
    (h : createTask env db now c = some (db', row)) :
    ∃ columns, c.columns env db = some columns ∧ row.toTaskColumns = columns ∧
      row.status = .queued ∧ row.createdAt = now.micros ∧
      db' = { db with tasks := row :: db.tasks, drawn := db.drawn + 1 } := by
  obtain ⟨columns, inserted, same⟩ := Option.map_eq_some_iff.mp h
  cases same
  exact ⟨columns, inserted, rfl, rfl, rfl, rfl⟩

/-! ## Up to the budget check -/

def reachesBudget (env : GatewayEnv) (body : TaskRequest) (text : String) (now : Instant)
    (db : GatewayDb) : Prop :=
  (sanitizeText env.unicode body.task true true true).2.injectionDetected = false ∧
    imageError body = none ∧ body.dryRun = false ∧ cacheHit env body text now db = none

/-- The text that is stored -/
def submitText (env : GatewayEnv) (body : TaskRequest) : String :=
  withAttachment env body (sanitizeText env.unicode body.task true true true).1

theorem submitTask_of_reaches {user : User} {body : TaskRequest} {now : Instant}
    {db : GatewayDb} (reaches : reachesBudget env body (submitText env body) now db) :
    submitTask env user body now db = submitQueued env user body (submitText env body) now db := by
  obtain ⟨clean, image, wet, missed⟩ := reaches
  unfold submitText at missed
  unfold submitTask
  simp only [clean, image, wet, missed, Bool.false_eq_true, if_false]
  rfl

theorem submitTask_same_of_not_reaches {user : User} {body : TaskRequest} {now : Instant}
    {db : GatewayDb} (ends : ¬ reachesBudget env body (submitText env body) now db) :
    (submitTask env user body now db).1 = db := by
  unfold submitTask
  simp only
  split
  · rfl
  · next clean =>
    split
    · rfl
    · next image =>
      split
      · rfl
      · next wet =>
        split
        · rfl
        · next missed =>
          exact absurd ⟨by simpa using clean, image, by simpa using wet, missed⟩ ends

/-! ## A sample -/

def GatewayEnv.sample : GatewayEnv where
  unicode := .ascii
  sha256 text := "sha256:" ++ text
  uuid n := "task-" ++ toString n
  castUuid := some
  dbDate t := t / dayMicros
  tz := .utc
  maxQueuedTasksPerUser := 20

/-- A request with the defaults of the model -/
def TaskRequest.plain (task : String) : TaskRequest where
  task
  agentType := "orchestrator"
  config := { tracingEnabled := true, maxSteps := none }
  priority := 5
  useCache := true
  cacheTtl := 3600
  tags := []
  dependsOn := none
  callbackUrl := none
  dryRun := false
  sessionId := none
  modelPreference := none
  attachmentText := none
  attachmentFilename := none
  imageB64 := none
  imageMime := none
  valid_agentType := by decide
  valid_priority := by decide

def GatewayDb.empty : GatewayDb where
  tasks := []
  drawn := 0
  sessions := []
  usage := []
  redis := some .empty

def sampleUser : User := ⟨"u", 100000⟩

end LegionForge.Gateway
