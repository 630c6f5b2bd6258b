import LegionForge.Gateway.BatchRows
import LegionForge.Lib.Machine

/-!
# The result cache

A submission is answered from the cache by the completed task with the same content hash
that was completed last. The hash covers the agent type and the text, and the lookup
asks for nothing else, so the task is of any user, and its image, model preference and
session are its own. `cache_sound_iff` says when an answer is one the request could have
had; `secluded_iff`, which requests are answered without regard to other users' tasks.
-/

namespace LegionForge.Gateway

open LegionForge.Audit (Instant)
open LegionForge.Security (sanitizeText)

/-! ## Histories -/

/-- What happens to the table. Besides the two routes, tasks are created by callers that
pass no content hash, or like a retry compute it; a worker sets what has become of a
task; and tasks are deleted. -/
inductive HistoryAction where
  | submit (user : User) (body : TaskRequest) (now : Instant)
  | submitBatch (user : User) (body : BatchTaskRequest) (now : Instant)
  | create (args : CreateTask) (hashed : Bool) (now : Instant)
  | settle (taskId : String) (status : TaskStatus) (result : Option String)
      (completedAt : Option Nat)
  | delete (taskIds : List String)

def settleTask (taskId : String) (status : TaskStatus) (result : Option String)
    (completedAt : Option Nat) (t : StoredTask) : StoredTask :=
  if t.taskId = taskId then { t with status, result, completedAt } else t

/-- The label is the reply to a submission. An agent type that is none violates a
constraint of the table. -/
def historyStep (env : GatewayEnv) (db : GatewayDb) :
    HistoryAction → Option (GatewayDb × Option (Except HttpError SubmitReply))
  | .submit user body now =>
    let r := submitTask env user body now db
    some (r.1, some r.2)
  | .submitBatch user body now => some ((submitTasksBatch env user body now db).1, none)
  | .create args hashed now =>
    if validAgentTypes.contains args.agentType then
      (createTask env db now { args with
        contentHash := if hashed then some (computeTaskHash env args.agentType args.inputText)
          else none }).map fun r => (r.1, none)
    else none
  | .settle taskId status result completedAt =>
    some ({ db with tasks := db.tasks.map (settleTask taskId status result completedAt) }, none)
  | .delete taskIds =>
    some ({ db with tasks := db.tasks.filter fun t => !taskIds.contains t.taskId }, none)

def history (env : GatewayEnv) :
    Machine GatewayDb HistoryAction (Option (Except HttpError SubmitReply)) where
  step := historyStep env

variable {env : GatewayEnv}

/-- The content hash, where there is one, is that of the row. -/
def StoredTask.Hashed (env : GatewayEnv) (t : StoredTask) : Prop :=
  t.agentType ∈ validAgentTypes ∧
    ∀ h, t.contentHash = some h → h = computeTaskHash env t.agentType t.input

theorem columns_of_some {c : CreateTask} {db : GatewayDb} {columns : TaskColumns}
    (h : c.columns env db = some columns) :
    columns.agentType = c.agentType ∧ columns.input = c.inputText ∧
      columns.contentHash = c.contentHash := by
  obtain ⟨_, -, h⟩ := Option.bind_eq_some_iff.mp h
  obtain ⟨_, -, h⟩ := Option.bind_eq_some_iff.mp h
  obtain ⟨-, same⟩ := Option.ite_none_right_eq_some.mp h
  rw [← Option.some.inj same]
  exact ⟨rfl, rfl, rfl⟩

theorem hashed_createTask {db db' : GatewayDb} {now : Instant} {c : CreateTask}
    {row : StoredTask} (created : createTask env db now c = some (db', row))
    (valid : c.agentType ∈ validAgentTypes)
    (hash : ∀ h, c.contentHash = some h → h = computeTaskHash env c.agentType c.inputText) :
    row.Hashed env := by
  obtain ⟨columns, inserted, same, -⟩ := createTask_some created
  obtain ⟨agentType, input, contentHash⟩ := columns_of_some inserted
  unfold StoredTask.Hashed
  rw [same, agentType, input, contentHash]
  exact ⟨valid, hash⟩

def AllHashed (env : GatewayEnv) (db : GatewayDb) : Prop := ∀ t ∈ db.tasks, t.Hashed env

theorem allHashed_submit {user : User} {body : TaskRequest} {now : Instant} {db : GatewayDb}
    (all : AllHashed env db) : AllHashed env (submitTask env user body now db).1 := by
  rcases submitTask_writes env user body now db with ⟨redis, out⟩ | ⟨redis, row, created⟩
  · rw [out]
    exact all
  · have new : row.Hashed env := hashed_createTask created body.valid_agentType
      fun h hash => (Option.some.inj hash).symm
    obtain ⟨_, -, -, -, -, out⟩ := createTask_some created
    rw [out]
    exact List.forall_mem_cons.mpr ⟨new, all⟩

theorem allHashed_batch {user : User} {now : Instant} {reqs : List TaskRequest} :
    ∀ idx db, AllHashed env db → AllHashed env (submitBatchFrom env user now idx reqs db).1 := by
  induction reqs with
  | nil => exact fun _ _ all => all
  | cons req reqs ih =>
    intro idx db all
    obtain ⟨redis, same⟩ := check_same env db user "ollama" (batchTokens env req) now
    rcases submitBatchFrom_cons env user now idx req reqs db with
      ⟨-, detail, out⟩ | ⟨-, -, detail, out⟩ | ⟨-, -, db', row, created, out⟩
    · rw [out]; exact all
    · rw [out, same]; exact all
    · have new : row.Hashed env := hashed_createTask created req.valid_agentType
        fun h hash => nomatch hash
      rw [out]
      refine ih (idx + 1) db' ?_
      obtain ⟨_, -, -, -, -, rfl⟩ := createTask_some created
      rw [same]
      exact List.forall_mem_cons.mpr ⟨new, all⟩

theorem allHashed_of_step {x : Machine.Entry GatewayDb HistoryAction _}
    (h : (history env).Steps x) (all : AllHashed env x.before) : AllHashed env x.after := by
  obtain ⟨db, a, label, db'⟩ := x
  have h : historyStep env db a = some (db', label) := h
  cases a with
  | submit user body now =>
    cases h
    exact allHashed_submit all
  | submitBatch user body now =>
    cases h
    show AllHashed env (submitTasksBatch env user body now db).1
    unfold submitTasksBatch
    split
    · exact all
    · exact allHashed_batch 0 db all
  | create args hashed now =>
    obtain ⟨valid, h⟩ := Option.ite_none_right_eq_some.mp h
    obtain ⟨⟨next, row⟩, created, same⟩ := Option.map_eq_some_iff.mp h
    cases same
    have new : row.Hashed env := by
      refine hashed_createTask created (by simpa using valid) fun h hash => ?_
      obtain ⟨-, same⟩ := Option.ite_none_right_eq_some.mp hash
      exact (Option.some.inj same).symm
    obtain ⟨_, -, -, -, -, rfl⟩ := createTask_some created
    exact List.forall_mem_cons.mpr ⟨new, all⟩
  | settle taskId status result completedAt =>
    cases h
    intro t ht
    obtain ⟨old, hold, rfl⟩ := List.mem_map.mp ht
    unfold settleTask
    split
    · exact all old hold
    · exact all old hold
  | delete taskIds =>
    cases h
    exact fun t ht => all t (List.mem_filter.mp ht).1

/-! ## What an answer comes from -/

/-- The submission is answered by this row. -/
structure CacheAnswers (env : GatewayEnv) (body : TaskRequest) (now : Instant) (db : GatewayDb)
    (hit : StoredTask) : Prop where
  clean : injected env body = false
  image : imageError body = none
  wet : body.dryRun = false
  found : cacheHit env body (submitText env body) now db = some hit

theorem submitTask_of_answers {user : User} {body : TaskRequest} {now : Instant}
    {db : GatewayDb} {hit : StoredTask} (answers : CacheAnswers env body now db hit) :
    submitTask env user body now db =
      (db, .ok (.cached hit.taskId hit.result hit.completedAt)) := by
  obtain ⟨clean, image, wet, found⟩ := answers
  unfold injected at clean
  unfold submitText at found
  unfold submitTask
  simp only [clean, image, wet, found, Bool.false_eq_true, if_false]

theorem agentType_plain {a : String} (h : a ∈ validAgentTypes) : ':' ∉ a.toList := by
  unfold validAgentTypes at h
  simp only [List.mem_cons, List.not_mem_nil, or_false] at h
  rcases h with rfl | rfl | rfl <;> decide

/-- The hash separates the agent type from the text. -/
theorem computeTaskHash_inj (collisionFree : Function.Injective env.sha256)
    {a b x y : String} (ha : a ∈ validAgentTypes) (hb : b ∈ validAgentTypes)
    (h : computeTaskHash env a x = computeTaskHash env b y) : a = b ∧ x = y := by
  have texts := congrArg String.toList (collisionFree h)
  simp only [String.toList_append, toString] at texts
  simp only [List.append_assoc] at texts
  obtain ⟨same, rest⟩ := Delimited.append_cons_inj (agentType_plain ha) (agentType_plain hb) texts
  exact ⟨String.toList_injective same, String.toList_injective rest⟩

/-- The image that would be stored with the task -/
def requestImage (body : TaskRequest) : Option (String × Option String) :=
  body.imageB64.map fun b64 => (b64, body.imageMime)

/-- The row is of the caller, and what bears on its result is what the request says. -/
structure SameInputs (env : GatewayEnv) (user : User) (body : TaskRequest) (t : StoredTask) :
    Prop where
  user : t.userId = user.userId
  agentType : t.agentType = body.agentType
  input : t.input = submitText env body
  image : t.config.image = requestImage body
  modelPreference : t.modelPreference = body.modelPreference
  session : castOptional env body.sessionId = some t.sessionId

/-- What the lookup does not ask for -/
structure SameBesidesHash (env : GatewayEnv) (user : User) (body : TaskRequest)
    (t : StoredTask) : Prop where
  user : t.userId = user.userId
  image : t.config.image = requestImage body
  modelPreference : t.modelPreference = body.modelPreference
  session : castOptional env body.sessionId = some t.sessionId

theorem mem_of_cacheHit {body : TaskRequest} {text : String} {now : Instant} {db : GatewayDb}
    {hit : StoredTask} (h : cacheHit env body text now db = some hit) :
    hit ∈ db.tasks ∧ hit.contentHash = some (computeTaskHash env body.agentType text) := by
  unfold cacheHit at h
  obtain ⟨-, h⟩ := Option.ite_none_right_eq_some.mp h
  have mem := List.mem_filter.mp (List.argmax_mem h)
  refine ⟨mem.1, ?_⟩
  simp only [Bool.and_eq_true, decide_eq_true_eq] at mem
  exact mem.2.1.1

/-- The agent type and the text of an answer are those of the request. -/
theorem answer_hashed (collisionFree : Function.Injective env.sha256) {body : TaskRequest}
    {now : Instant} {db : GatewayDb} {hit : StoredTask} (all : AllHashed env db)
    (answers : CacheAnswers env body now db hit) :
    hit.agentType = body.agentType ∧ hit.input = submitText env body := by
  obtain ⟨mem, hash⟩ := mem_of_cacheHit answers.found
  obtain ⟨valid, own_hash⟩ := all hit mem
  exact computeTaskHash_inj collisionFree valid body.valid_agentType (own_hash _ hash).symm

/-! ## Other users' tasks -/

def ownTasks (tasks : List StoredTask) (userId : String) : List StoredTask :=
  tasks.filter (·.userId = userId)

/-- The reply is the same in every history that agrees on the caller's tasks. -/
def Insulated (env : GatewayEnv) (user : User) (body : TaskRequest) (now : Instant)
    (db : GatewayDb) : Prop :=
  ∀ tasks, ownTasks tasks user.userId = ownTasks db.tasks user.userId →
    (submitTask env user body now { db with tasks }).2 = (submitTask env user body now db).2

theorem pendingTasks_own (db : GatewayDb) (userId : String) :
    pendingTasks db userId =
      (ownTasks db.tasks userId).filter fun t => t.status = .queued || t.status = .running := by
  rw [pendingTasks, ownTasks, List.filter_filter]
  refine List.filter_congr fun t _ => ?_
  rw [Bool.and_comm]

theorem pendingTasks_congr {db : GatewayDb} {tasks : List StoredTask} {userId : String}
    (same : ownTasks tasks userId = ownTasks db.tasks userId) :
    pendingTasks { db with tasks } userId = pendingTasks db userId := by
  rw [pendingTasks_own, pendingTasks_own, same]

theorem budgetUsed_congr {db : GatewayDb} {tasks : List StoredTask} {userId : String}
    (same : ownTasks tasks userId = ownTasks db.tasks userId) (provider : String)
    (now : Instant) :
    budgetUsed env { db with tasks } userId provider now =
      budgetUsed env db userId provider now := by
  unfold budgetUsed getUserInflightTokens getUserActualUsageToday
  rw [pendingTasks_congr same]

theorem lateError_congr {db : GatewayDb} {tasks : List StoredTask} {user : User}
    (same : ownTasks tasks user.userId = ownTasks db.tasks user.userId) (body : TaskRequest) :
    lateError env user body { db with tasks } = lateError env user body db := by
  unfold lateError checkQueueDepth
  rw [pendingTasks_congr same]
  rfl

/-- The budget, the queue or the session turns the request away. -/
def RefusedBeforeInsert (env : GatewayEnv) (user : User) (body : TaskRequest) (now : Instant)
    (db : GatewayDb) : Prop :=
  user.dailyTokenLimit < budgetUsed env db user.userId (providerOf body.agentType) now +
      estimatedTokens env (submitText env body) ∨
    (lateError env user body db).isSome ∨ castOptional env body.sessionId = none

/-- The request goes on to the cache, or past it. -/
def passesChecks (env : GatewayEnv) (body : TaskRequest) : Prop :=
  injected env body = false ∧ imageError body = none ∧ body.dryRun = false

def usesCache (body : TaskRequest) : Bool := body.useCache && 0 < body.cacheTtl

/-- The task that the request waits for is one of the caller's, if it waits for one. -/
def OwnDependency (env : GatewayEnv) (user : User) (body : TaskRequest) (db : GatewayDb) : Prop :=
  ∀ id, castOptional env body.dependsOn = some (some id) →
    ∃ t ∈ db.tasks, t.userId = user.userId ∧ t.taskId = id

def Secluded (env : GatewayEnv) (user : User) (body : TaskRequest) (now : Instant)
    (db : GatewayDb) : Prop :=
  ¬ passesChecks env body ∨
    (usesCache body = false ∧
      (OwnDependency env user body db ∨ RefusedBeforeInsert env user body now db))

/-- What is replied to a submission that the cache does not answer. -/
theorem submitQueued_reply (env : GatewayEnv) (user : User) (body : TaskRequest) (now : Instant)
    (db : GatewayDb) :
    (submitQueued env user body (submitText env body) now db).2 =
      if user.dailyTokenLimit < budgetUsed env db user.userId (providerOf body.agentType) now +
          estimatedTokens env (submitText env body) then
        .error ⟨429, "Daily token budget exceeded. Try again tomorrow.", none⟩
      else
        match lateError env user body db with
        | some e => .error e
        | none =>
          match (submitArgs env user body (submitText env body)).columns env db with
          | none => .error internalServerError
          | some columns => .ok (.queued ⟨env.uuid db.drawn, columns.priority, now.micros⟩) := by
  have passes := check_passes env db user (providerOf body.agentType)
    (estimatedTokens env (submitText env body)) now
  rcases submitQueued_cases env user body (submitText env body) now db with
    ⟨fails, out⟩ | ⟨fits, e, late, out⟩ | ⟨fits, late, ⟨none, out⟩ | ⟨db', row, created, out⟩⟩
  · rw [fails] at passes
    have above := of_decide_eq_false passes.symm
    rw [out, if_pos (by omega)]
  · rw [fits] at passes
    have fits := of_decide_eq_true passes.symm
    rw [out, if_neg (by omega), late]
  · rw [fits] at passes
    have fits := of_decide_eq_true passes.symm
    rw [out, if_neg (by omega), late, none]
  · rw [fits] at passes
    have fits := of_decide_eq_true passes.symm
    obtain ⟨redis, same⟩ := check_same env db user (providerOf body.agentType)
      (estimatedTokens env (submitText env body)) now
    rw [same] at created
    obtain ⟨columns, inserted, made⟩ := Option.map_eq_some_iff.mp created
    have inserted : (submitArgs env user body (submitText env body)).columns env db =
      some columns := inserted
    cases made
    rw [out, if_neg (by omega), late, inserted]
    rfl

theorem submitTask_past_cache {user : User} {body : TaskRequest} {now : Instant}
    {db : GatewayDb} (passes : passesChecks env body) (off : usesCache body = false) :
    submitTask env user body now db = submitQueued env user body (submitText env body) now db := by
  obtain ⟨clean, image, wet⟩ := passes
  refine submitTask_of_reaches ⟨clean, image, wet, ?_⟩
  unfold usesCache at off
  rw [cacheHit, off]
  rfl

theorem columns_congr {user : User} {body : TaskRequest} {text : String} {db : GatewayDb}
    {tasks : List StoredTask}
    (known : ∀ id, castOptional env body.dependsOn = some (some id) →
      tasks.any (·.taskId = id) = db.tasks.any (·.taskId = id)) :
    (submitArgs env user body text).columns env { db with tasks } =
      (submitArgs env user body text).columns env db := by
  unfold CreateTask.columns submitArgs
  cases cast : castOptional env body.dependsOn with
  | none => rfl
  | some dependsOn =>
    cases dependsOn with
    | none => rfl
    | some id =>
      simp only [Option.bind_some, known id cast]

theorem mem_ownTasks {tasks : List StoredTask} {userId : String} {t : StoredTask} :
    t ∈ ownTasks tasks userId ↔ t ∈ tasks ∧ t.userId = userId := by
  simp [ownTasks]

theorem insulated_of_not_passes {user : User} {body : TaskRequest} {now : Instant}
    {db : GatewayDb} (ends : ¬ passesChecks env body) : Insulated env user body now db := by
  intro tasks _
  unfold passesChecks injected at ends
  unfold submitTask
  simp only
  split
  · rfl
  · next clean =>
    split
    · rfl
    · next image =>
      split
      · rfl
      · next wet => exact absurd ⟨by simpa using clean, image, by simpa using wet⟩ ends

/-- What the table says of a task that the request waits for -/
theorem any_of_own {user : User} {body : TaskRequest} {db : GatewayDb}
    {tasks : List StoredTask} (own : OwnDependency env user body db)
    (same : ownTasks tasks user.userId = ownTasks db.tasks user.userId) :
    ∀ id, castOptional env body.dependsOn = some (some id) →
      tasks.any (·.taskId = id) = db.tasks.any (·.taskId = id) := by
  intro id cast
  obtain ⟨t, ht, owner, at_id⟩ := own id cast
  have mine : t ∈ ownTasks tasks user.userId := by
    rw [same]
    exact mem_ownTasks.mpr ⟨ht, owner⟩
  have here := (mem_ownTasks.mp mine).1
  rw [List.any_eq_true.mpr ⟨t, here, decide_eq_true at_id⟩,
    List.any_eq_true.mpr ⟨t, ht, decide_eq_true at_id⟩]

theorem insulated_of_secluded {user : User} {body : TaskRequest} {now : Instant}
    {db : GatewayDb} (secluded : Secluded env user body now db) :
    Insulated env user body now db := by
  by_cases passes : passesChecks env body
  · obtain ⟨off, own | refused⟩ := secluded.resolve_left (not_not_intro passes)
    · intro tasks same
      rw [submitTask_past_cache passes off, submitTask_past_cache passes off,
        submitQueued_reply, submitQueued_reply, budgetUsed_congr same, lateError_congr same,
        columns_congr (any_of_own own same)]
    · intro tasks same
      rw [submitTask_past_cache passes off, submitTask_past_cache passes off,
        submitQueued_reply, submitQueued_reply, budgetUsed_congr same, lateError_congr same]
      rcases refused with above | late | session
      · rw [if_pos above, if_pos above]
      · obtain ⟨e, late⟩ := Option.isSome_iff_exists.mp late
        rw [late]
      · have none : ∀ db,
            (submitArgs env user body (submitText env body)).columns env db = none := by
          intro db
          cases cast : castOptional env body.dependsOn with
          | none => simp [CreateTask.columns, submitArgs, cast]
          | some dependsOn => simp [CreateTask.columns, submitArgs, cast, session]
        rw [none, none]
  · exact insulated_of_not_passes passes

/-! ## A task of somebody else -/

/-- The same request of another user, completed. -/
def foreignTask (env : GatewayEnv) (user : User) (body : TaskRequest) (taskId result : String)
    (completedAt : Nat) : StoredTask where
  userId := user.userId ++ "'"
  input := submitText env body
  agentType := body.agentType
  config := { body.config with image := requestImage body }
  estimatedTokens := estimatedTokens env (submitText env body)
  callbackUrl := none
  priority := body.priority
  contentHash := some (computeTaskHash env body.agentType (submitText env body))
  tags := []
  dependsOn := none
  sessionId := none
  modelPreference := body.modelPreference
  taskId
  status := .complete
  result := some result
  createdAt := completedAt
  completedAt := some completedAt

theorem ownTasks_foreign (env : GatewayEnv) (user : User) (body : TaskRequest)
    (taskId result : String) (completedAt : Nat) (tasks : List StoredTask) :
    ownTasks (foreignTask env user body taskId result completedAt ::
      ownTasks tasks user.userId) user.userId = ownTasks tasks user.userId := by
  have other : user.userId ++ "'" ≠ user.userId := by
    intro same
    have length := congrArg String.length same
    rw [String.length_append] at length
    have one : ("'" : String).length = 1 := rfl
    omega
  rw [ownTasks, List.filter_cons_of_neg (by simp [foreignTask, other]), ownTasks,
    List.filter_filter]
  simp

/-- The last completion in a table, or now -/
def lastCompletion (now : Nat) (tasks : List StoredTask) : Nat :=
  tasks.foldr (fun t last => max (t.completedAt.getD 0) last) now

theorem now_le_lastCompletion (now : Nat) (tasks : List StoredTask) :
    now ≤ lastCompletion now tasks := by
  induction tasks with
  | nil => exact Nat.le_refl now
  | cons t tasks ih => exact Nat.le_trans ih (Nat.le_max_right _ _)

theorem le_lastCompletion {now : Nat} {tasks : List StoredTask} {t : StoredTask}
    (ht : t ∈ tasks) : t.completedAt.getD 0 ≤ lastCompletion now tasks := by
  induction tasks with
  | nil => cases ht
  | cons u tasks ih =>
    rcases List.mem_cons.mp ht with rfl | old
    · exact Nat.le_max_left _ _
    · exact Nat.le_trans (ih old) (Nat.le_max_right _ _)

/-- Where the cache is asked, a task of somebody else can be the answer. -/
theorem answers_foreign {user : User} {body : TaskRequest} {now : Instant} {db : GatewayDb}
    (passes : passesChecks env body) (cached : usesCache body = true) (taskId result : String)
    (tasks : List StoredTask) :
    CacheAnswers env body now
      { db with tasks := (foreignTask env user body taskId result
          (lastCompletion now.micros tasks) :: tasks) }
      (foreignTask env user body taskId result (lastCompletion now.micros tasks)) := by
  obtain ⟨clean, image, wet⟩ := passes
  refine ⟨clean, image, wet, ?_⟩
  have positive : 0 < body.cacheTtl := by
    unfold usesCache at cached
    simp only [Bool.and_eq_true, decide_eq_true_eq] at cached
    exact cached.2
  have last := now_le_lastCompletion now.micros tasks
  unfold usesCache at cached
  rw [cacheHit, cached, if_pos rfl, lookupCachedTask, cachedTasks, List.filter_cons_of_pos]
  · refine List.argmax_eq_some_iff.mpr ⟨List.mem_cons_self, ?_, ?_⟩
    · intro t ht
      rcases List.mem_cons.mp ht with rfl | old
      · exact Nat.le_refl _
      · exact le_lastCompletion (List.mem_filter.mp old).1
    · intro t _ _
      rw [List.idxOf_cons_self]
      exact Nat.zero_le _
  · simp only [foreignTask, decide_true, Bool.true_and, decide_eq_true_eq]
    omega

/-- A request that looks into the cache is not insulated. -/
theorem usesCache_of_insulated {user : User} {body : TaskRequest} {now : Instant}
    {db : GatewayDb} (passes : passesChecks env body)
    (insulated : Insulated env user body now db) : usesCache body = false := by
  by_contra cached
  rw [Bool.not_eq_false] at cached
  have reply (result : String) := insulated _ (ownTasks_foreign env user body "" result
    (lastCompletion now.micros (ownTasks db.tasks user.userId)) db.tasks)
  have answer (result : String) : (submitTask env user body now db).2 =
      .ok (.cached "" (some result) (some (lastCompletion now.micros
        (ownTasks db.tasks user.userId)))) := by
    rw [← reply result, submitTask_of_answers (answers_foreign passes cached "" result _)]
    rfl
  have same := (answer "a").symm.trans (answer "b")
  simp at same

/-- Nor is one that waits for a task of somebody else, and would be inserted. -/
theorem own_of_insulated {user : User} {body : TaskRequest} {now : Instant} {db : GatewayDb}
    (passes : passesChecks env body) (off : usesCache body = false)
    (insulated : Insulated env user body now db)
    (open_ : ¬ RefusedBeforeInsert env user body now db) : OwnDependency env user body db := by
  by_contra foreign
  obtain ⟨id, foreign⟩ := not_forall.mp foreign
  obtain ⟨cast, none_own⟩ := Classical.not_imp.mp foreign
  obtain ⟨fits, open_⟩ := not_or.mp open_
  obtain ⟨not_late, not_lost⟩ := not_or.mp open_
  have late : lateError env user body db = none := by simpa using not_late
  obtain ⟨session, session_cast⟩ := Option.ne_none_iff_exists'.mp not_lost
  -- without the task the insert fails, with it the request is queued
  have alone : (submitTask env user body now { db with tasks := ownTasks db.tasks user.userId }).2 =
      .error internalServerError := by
    have same : ownTasks (ownTasks db.tasks user.userId) user.userId =
        ownTasks db.tasks user.userId := by simp [ownTasks]
    rw [submitTask_past_cache passes off, submitQueued_reply, budgetUsed_congr same,
      lateError_congr same, if_neg fits, late]
    have absent : (ownTasks db.tasks user.userId).any (·.taskId = id) = false := by
      refine List.any_eq_false.mpr fun t ht => ?_
      obtain ⟨mem, owner⟩ := mem_ownTasks.mp ht
      exact fun at_id => none_own ⟨t, mem, owner, of_decide_eq_true at_id⟩
    simp [CreateTask.columns, submitArgs, cast, session_cast, absent]
  have joined (completedAt : Nat) : (submitTask env user body now
      { db with tasks := foreignTask env user body id "" completedAt ::
          ownTasks db.tasks user.userId }).2 ≠ .error internalServerError := by
    have same := ownTasks_foreign env user body id "" completedAt db.tasks
    rw [submitTask_past_cache passes off, submitQueued_reply, budgetUsed_congr same,
      lateError_congr same, if_neg fits, late]
    simp [CreateTask.columns, submitArgs, cast, session_cast, foreignTask]
  have without := insulated _ (show ownTasks (ownTasks db.tasks user.userId) user.userId = _ by
    simp [ownTasks])
  have with_ := insulated _ (ownTasks_foreign env user body id "" 0 db.tasks)
  exact joined 0 (with_.trans (without.symm.trans alone))

theorem insulated_iff (env : GatewayEnv) (user : User) (body : TaskRequest) (now : Instant)
    (db : GatewayDb) : Insulated env user body now db ↔ Secluded env user body now db := by
  refine ⟨fun insulated => ?_, insulated_of_secluded⟩
  by_cases passes : passesChecks env body
  · have off := usesCache_of_insulated passes insulated
    by_cases refused : RefusedBeforeInsert env user body now db
    · exact .inr ⟨off, .inr refused⟩
    · exact .inr ⟨off, .inl (own_of_insulated passes off insulated refused)⟩
  · exact .inl passes

/-- In every history: an answer from the cache has the agent type and the text of the
request, and it is the caller's own with the same inputs exactly when the row with that
hash that was completed last is the caller's, with the same image, model preference and
session. And a submission is answered without regard to other users' tasks exactly when
it is turned away before the cache, or does not ask the cache and does not come to wait
for a task that is not the caller's. -/
theorem cache_sound_iff (env : GatewayEnv) (collisionFree : Function.Injective env.sha256)
    (start : GatewayDb) (actions : List HistoryAction) :
    (∀ x ∈ (history env).run { start with tasks := [] } actions, ∀ user body now hit,
      x.input = .submit user body now → CacheAnswers env body now x.before hit →
        x.label = some (.ok (.cached hit.taskId hit.result hit.completedAt)) ∧
          hit.agentType = body.agentType ∧ hit.input = submitText env body ∧
          (SameInputs env user body hit ↔ SameBesidesHash env user body hit)) ∧
    ∀ x ∈ (history env).run { start with tasks := [] } actions, ∀ user body now,
      x.input = .submit user body now →
        (Insulated env user body now x.before ↔ Secluded env user body now x.before) := by
  refine ⟨?_, fun x _ user body now _ => insulated_iff env user body now x.before⟩
  intro x hx user body now hit input answers
  obtain ⟨step, all, -⟩ := Machine.run_invariant (I := AllHashed env)
    (fun _ step all => allHashed_of_step step all)
    (fun t ht => absurd ht List.not_mem_nil) x hx
  obtain ⟨agentType, text⟩ := answer_hashed collisionFree all answers
  refine ⟨?_, agentType, text, fun same => ?_, fun same => ?_⟩
  · obtain ⟨db, a, label, db'⟩ := x
    have step : historyStep env db a = some (db', label) := step
    cases input
    obtain ⟨-, same⟩ := Prod.mk.inj (Option.some.inj step)
    rw [← same, submitTask_of_answers answers]
  · exact ⟨same.user, same.image, same.modelPreference, same.session⟩
  · exact ⟨same.user, agentType, text, same.image, same.modelPreference, same.session⟩

theorem sample_collisionFree : Function.Injective GatewayEnv.sample.sha256 := by
  intro x y same
  have texts := congrArg String.toList same
  simp only [GatewayEnv.sample, String.toList_append] at texts
  exact String.toList_injective (List.append_cancel_left texts)

theorem cache_sound_first :
    ∃ x ∈ (history .sample).run { GatewayDb.empty with tasks := [] }
        [.submit sampleUser (.plain "hi") firstOfDay],
      Insulated .sample sampleUser (.plain "hi") firstOfDay x.before ↔
        Secluded .sample sampleUser (.plain "hi") firstOfDay x.before := by
  have here : ∃ x ∈ (history .sample).run { GatewayDb.empty with tasks := [] }
      [.submit sampleUser (.plain "hi") firstOfDay],
        x.input = .submit sampleUser (.plain "hi") firstOfDay := by
    rw [Machine.run_cons_of_step rfl]
    exact ⟨_, List.mem_cons_self, rfl⟩
  obtain ⟨x, hx, input⟩ := here
  exact ⟨x, hx, (cache_sound_iff .sample sample_collisionFree .empty _).2 x hx _ _ _ input⟩

/-! ## An answer for somebody else -/

def alice : User := ⟨"alice", 100000⟩

def bob : User := ⟨"bob", 100000⟩

/-- Alice has asked, and has her answer. -/
def answeredAlice : GatewayDb :=
  (history .sample).final .empty
    [.submit alice (.plain "what is my balance") firstOfDay,
      .settle "task-0" .complete (some "1200, Alice") (some firstOfDay.micros)]

/-- Bob asks the same. -/
theorem bob_reads_alice :
    (submitTask .sample bob (.plain "what is my balance") firstOfDay answeredAlice).2.toOption =
        some (.cached "task-0" (some "1200, Alice") (some firstOfDay.micros)) ∧
      answeredAlice.tasks.map (·.userId) = ["alice"] ∧
      (submitTask .sample bob (.plain "what is my balance") firstOfDay .empty).2.toOption =
        some (.queued ⟨"task-0", 5, firstOfDay.micros⟩) := by
  decide +kernel

end LegionForge.Gateway
