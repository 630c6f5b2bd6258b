import LegionForge.Gateway.Accounts
import LegionForge.Lib.Grants
import LegionForge.Lib.Redis
import LegionForge.Security.Sanitize

/-!
# Who may watch a task

A browser cannot send a header with an `EventSource`, so a submission answers with a token
that opens the stream of its task for thirty minutes. A process keeps the tokens it gives
out in Redis if it has a connection, and in the table `stream_tokens` otherwise; the
processes of one gateway need not agree. A rotation of the API key rewrites the hash and then
deletes the user's rows of the table: two statements, each a transaction of its own, and
other statements commit between them. Whoever comes without a token has to show an API key.

Tokens are grants, and both stores keep them (`keeps_stream_tokens`). So who gets into a
stream can be said without either: `stream_user_iff` and `stream_opens_for_owner`.
-/

namespace LegionForge.Gateway

open Security

/-! ## The stores -/

/-- 30 minutes, in microseconds -/
def streamTokenTtl : Nat := 30 * 60 * 1000000

/-- A row of `stream_tokens` -/
structure StreamTokenRow where
  token : String
  taskId : String
  userId : String
  expiresAt : Nat

def keyPrefix : String := "lf:stream_token:"

/-- The table and the Redis server. -/
structure TokenStores where
  rows : Table StreamTokenRow.token
  redis : Redis.Texts

namespace TokenStores

def empty : TokenStores := ⟨.empty, .empty⟩

section
variable (s : TokenStores) (redisMode : Bool) (now : Nat)

/-- `create_stream_token`; an `INSERT` that meets its key does nothing. -/
def createStreamToken (token taskId userId : String) : TokenStores :=
  let expiresAt := now + streamTokenTtl
  if redisMode then
    { s with redis := s.redis.setex (keyPrefix ++ token) expiresAt (taskId ++ ":" ++ userId) }
  else { s with rows := (s.rows.insert ⟨token, taskId, userId, expiresAt⟩).getD s.rows }

/-- `resolve_stream_token` -/
def resolveStreamToken (token : String) : Option (String × String) :=
  if redisMode then (s.redis.get now (keyPrefix ++ token)).bind splitColon
  else ((s.rows.get token).filter fun r => now < r.expiresAt).map fun r => (r.taskId, r.userId)

/-- `delete_stream_token` -/
def deleteStreamToken (token : String) : TokenStores :=
  if redisMode then { s with redis := s.redis.del (keyPrefix ++ token) }
  else { s with rows := s.rows.discard fun r => r.token = token }

/-- `purge_expired_stream_tokens` -/
def purge : TokenStores := { s with rows := s.rows.discard fun r => r.expiresAt ≤ now }

/-- The rows that a `DELETE` has found are gone. -/
def deleteRows (tokens : List String) : TokenStores :=
  { s with rows := s.rows.discard fun r => tokens.contains r.token }

end

/-- What a token stands for in a store, the first of its task and the user. -/
def held (s : TokenStores) : Bool × String → Option (Grant (String × String))
  | (true, token) => (s.redis.entry (keyPrefix ++ token)).bind fun e =>
      (splitColon e.1).map fun a => ⟨a, some e.2⟩
  | (false, token) => (s.rows.get token).map fun r => ⟨(r.taskId, r.userId), some r.expiresAt⟩

end TokenStores

theorem splitColon_join {a : String} (b : String) (plain : ':' ∉ a.toList) :
    splitColon (a ++ ":" ++ b) = some (a, b) := by
  have chars : (a ++ ":" ++ b).toList = a.toList ++ ':' :: b.toList := by
    simp [String.toList_append]
  have other : ∀ c ∈ a.toList, decide (c ≠ ':') = true := by
    intro c hc
    refine decide_eq_true fun colon => ?_
    exact plain (colon ▸ hc)
  have front : (a.toList ++ ':' :: b.toList).takeWhile (· ≠ ':') = a.toList := by
    rw [List.takeWhile_append_of_pos other]
    simp
  have back : (a.toList ++ ':' :: b.toList).dropWhile (· ≠ ':') = ':' :: b.toList := by
    rw [List.dropWhile_append_of_pos other]
    simp
  have colon : (a ++ ":" ++ b).toList.contains ':' = true := by simp [chars]
  rw [splitColon, if_pos colon, chars, front, back]
  simp

namespace TokenStores

section
variable {s : TokenStores} {mode : Bool} {now : Nat} {token taskId userId : String}

theorem held_redis : s.held (true, token) = (s.redis.entry (keyPrefix ++ token)).bind fun e =>
    (splitColon e.1).map fun a => ⟨a, some e.2⟩ := rfl

theorem held_row : s.held (false, token) =
    (s.rows.get token).map fun r => ⟨(r.taskId, r.userId), some r.expiresAt⟩ := rfl

/-- Both stores answer with what they hold, until it is over. -/
theorem resolve_eq_shown :
    s.resolveStreamToken mode now token = Grant.shown now (s.held (mode, token)) := by
  cases mode with
  | true =>
    show ((s.redis.get now (keyPrefix ++ token)).bind splitColon) = _
    rw [Redis.Texts.get, Grant.shown, held_redis]
    cases s.redis.entry (keyPrefix ++ token) with
    | none => rfl
    | some e =>
      by_cases open_ : now < e.2 <;> cases split : splitColon e.1 <;>
        simp [Option.filter, open_, split, Grant.isOpen]
  | false =>
    show ((s.rows.get token).filter fun r => now < r.expiresAt).map _ = _
    rw [Grant.shown, held_row]
    cases s.rows.get token with
    | none => rfl
    | some r => by_cases open_ : now < r.expiresAt <;> simp [Option.filter, open_, Grant.isOpen]

/-- A new token gets its grant, in the store of the process. -/
theorem held_create (plain : ':' ∉ taskId.toList) (fresh : s.held (mode, token) = none)
    (k : Bool × String) :
    (s.createStreamToken mode now token taskId userId).held k =
      if k = (mode, token) then some ⟨(taskId, userId), some (now + streamTokenTtl)⟩
      else s.held k := by
  obtain ⟨mode', token'⟩ := k
  cases mode <;> cases mode'
  case false.false =>
    have absent : s.rows.get token = none := by simpa [held_row] using fresh
    obtain ⟨rows, insert⟩ := Table.exists_insert
      (a := (⟨token, taskId, userId, now + streamTokenTtl⟩ : StreamTokenRow)) absent
    have stored : (s.createStreamToken false now token taskId userId).rows = rows := by
      simp [createStreamToken, insert]
    rw [held_row, held_row, stored, Table.get_insert insert]
    by_cases same : token' = token
    · simp [same]
    · simp [same, Ne.symm same]
  case true.true =>
    have stored : (s.createStreamToken true now token taskId userId).redis.entry
        (keyPrefix ++ token') = if keyPrefix ++ token' = keyPrefix ++ token then
          some (taskId ++ ":" ++ userId, now + streamTokenTtl)
        else s.redis.entry (keyPrefix ++ token') := rfl
    rw [held_redis, held_redis, stored]
    by_cases same : token' = token
    · simp [same, splitColon_join userId plain]
    · simp [same]
  all_goals rfl

theorem held_delete (k : Bool × String) :
    (s.deleteStreamToken mode token).held k = if k = (mode, token) then none else s.held k := by
  obtain ⟨mode', token'⟩ := k
  cases mode <;> cases mode'
  case false.false =>
    show ((s.rows.discard fun r => r.token = token).get token').map _ = _
    rw [Table.get_discard, held_row]
    cases found : s.rows.get token' with
    | none => simp
    | some r =>
      have key := (Table.get_mem found).2
      by_cases same : token' = token
      · simp [Option.filter, key, same]
      · simp [Option.filter, key, same]
  case true.true =>
    have stored : (s.deleteStreamToken true token).redis.entry (keyPrefix ++ token') =
        if keyPrefix ++ token' = keyPrefix ++ token then none
        else s.redis.entry (keyPrefix ++ token') := rfl
    rw [held_redis, held_redis, stored]
    by_cases same : token' = token <;> simp [same]
  all_goals rfl

theorem held_deleteRows {tokens : List String} (k : Bool × String) :
    (s.deleteRows tokens).held k = if k.1 = false ∧ k.2 ∈ tokens then none else s.held k := by
  obtain ⟨mode', token'⟩ := k
  cases mode' with
  | true => rfl
  | false =>
    show ((s.rows.discard fun r => tokens.contains r.token).get token').map _ = _
    rw [Table.get_discard, held_row]
    cases found : s.rows.get token' with
    | none => simp
    | some r =>
      have key := (Table.get_mem found).2
      by_cases gone : token' ∈ tokens <;> simp [Option.filter, key, gone]

/-- What is purged was over. -/
theorem held_purge (k : Bool × String) (g : Grant (String × String)) :
    (s.purge now).held k = some g ↔ s.held k = some g ∧ (k.1 = false → g.isOpen now = true) := by
  obtain ⟨mode', token'⟩ := k
  cases mode' with
  | true => exact ⟨fun h => ⟨h, nofun⟩, fun h => h.1⟩
  | false =>
    show ((s.rows.discard fun r => r.expiresAt ≤ now).get token').map _ = _ ↔ _
    rw [Table.get_discard, held_row]
    cases s.rows.get token' with
    | none => simp
    | some r =>
      by_cases ended : r.expiresAt ≤ now
      · simp [Option.filter, ended]
        rintro rfl
        simp [Grant.isOpen, ended]
      · simp [Option.filter, ended]
        rintro rfl
        simp [Grant.isOpen]
        omega

end

end TokenStores

/-! ## The gateway -/

structure HttpRefusal where
  status : Nat
  detail : String
  deriving DecidableEq

/-- The owner of a task. The key is a UUID. -/
structure OwnedTask where
  taskId : String
  userId : String
  plain : ':' ∉ taskId.toList

/-- A `rotate_api_key` that has rewritten the hash, with the rows that its `DELETE` has found. -/
structure KeyRotation where
  id : Nat
  userId : String
  deleted : Option (List String)

def KeyRotation.find (tokens : List String) (r : KeyRotation) : KeyRotation :=
  { r with deleted := some tokens }

/-- A request that submits tasks: the user, and the tasks it has created and gives out no
token for yet. -/
structure SubmitCall where
  id : Nat
  userId : String
  created : List OwnedTask

def SubmitCall.create (task : OwnedTask) (c : SubmitCall) : SubmitCall :=
  { c with created := c.created ++ [task] }

def SubmitCall.next (c : SubmitCall) : SubmitCall := { c with created := c.created.tail }

/-- A `stream_task` that knows its user and has not read the task. -/
structure OpeningStream where
  id : Nat
  taskId : String
  userId : String

structure StreamGate where
  now : Nat
  users : UserTable
  tasks : Table OwnedTask.taskId
  tokens : TokenStores
  /-- Whether `_redis` of a process is set -/
  redisMode : Nat → Bool
  rotations : Table KeyRotation.id
  submits : Table SubmitCall.id
  opening : Table OpeningStream.id

def StreamGate.empty : StreamGate where
  now := 0
  users := .empty
  tasks := .empty
  tokens := .empty
  redisMode _ := false
  rotations := .empty
  submits := .empty
  opening := .empty

/-- What comes from elsewhere. -/
structure AccessEnv where
  unicode : Unicode
  /-- `bcrypt.checkpw` of a key against a hash -/
  checkpw : String → String → Bool
  /-- `%s::uuid`, as the database writes a UUID; `none` where the cast raises -/
  asUuid : String → Option String

inductive AccessAction where
  | elapse (dt : Nat)
  /-- `init_redis`: the server answers to the `PING`, or does not. -/
  | initRedis (p : Nat) (url : String) (answers : Bool)
  | closeRedis (p : Nat)
  | createUser (user : GatewayUser)
  | deactivateUser (username : String)
  /-- The `UPDATE` of `rotate_api_key` -/
  | rotateUpdate (id : Nat) (userId newKeyHash : String)
  /-- Its `DELETE` finds the rows that are committed by now. -/
  | rotateDelete (id : Nat)
  | rotateCommit (id : Nat)
  | rotateAbort (id : Nat)
  /-- `require_user` of a request that submits tasks -/
  | submit (id : Nat) (credential : String)
  | createTask (id : Nat) (taskId : String) (plain : ':' ∉ taskId.toList)
  /-- `create_stream_token` for the next task of a request, with the text that was generated -/
  | createStreamToken (id p : Nat) (token : String)
  | submitEnds (id : Nat)
  | deleteTasks (gone : OwnedTask → Bool)
  | deleteStreamToken (p : Nat) (token : String)
  | purgeExpired
  /-- `_resolve_user_for_stream` -/
  | resolveUser (id p : Nat) (taskId : String) (streamToken authorization : Option String)
  /-- The request is refused for its number of streams, or is given up. -/
  | drop (id : Nat)
  /-- `get_task` -/
  | getTask (id : Nat)

inductive AccessLabel where
  | quiet
  | refused (e : HttpRefusal)
  | raised
  /-- The user of a request -/
  | user (userId : String)
  | rotated (userId : String)
  | opened (taskId userId : String)
  deriving DecidableEq

section
variable (env : AccessEnv)

/-- `extract_bearer_token` -/
def extractBearerToken (authorization : Option String) : Option String :=
  authorization.bind fun header =>
    let scheme := header.toList.takeWhile (· ≠ ' ')
    if header.toList.contains ' ' && env.unicode.lower scheme = "bearer".toList then
      let token := env.unicode.strip
        (String.ofList ((header.toList.dropWhile (· ≠ ' ')).drop 1))
      if token = "" then none else some token
    else none

/-- `authenticate` with the backend for API keys -/
def StreamGate.authenticate (s : StreamGate) (credential : String) : Option String :=
  (apiKeyAuthenticate s.users schemeBearer { checkpw := env.checkpw credential }).map
    (·.userId)

/-- `_resolve_user_for_stream` -/
def StreamGate.resolveUserForStream (s : StreamGate) (p : Nat) (taskId : String)
    (streamToken authorization : Option String) : Except HttpRefusal String :=
  match streamToken.filter (· ≠ "") with
  | some token =>
    match s.tokens.resolveStreamToken (s.redisMode p) s.now token with
    | none => .error ⟨401, "Invalid or expired stream token"⟩
    | some (resolvedTaskId, userId) =>
      if resolvedTaskId ≠ taskId then .error ⟨401, "Stream token does not match task"⟩
      else .ok userId
  | none =>
    match extractBearerToken env authorization with
    | none => .error ⟨401, "Missing Authorization header or stream_token param"⟩
    | some rawKey =>
      match s.authenticate env rawKey with
      | none => .error ⟨401, "Invalid API key"⟩
      | some userId => .ok userId

def StreamGate.step (s : StreamGate) : AccessAction → Option (StreamGate × AccessLabel)
  | .elapse dt => some ({ s with now := s.now + dt }, .quiet)
  | .initRedis p url answers =>
    if url = "" then some (s, .quiet)
    else some ({ s with redisMode := Function.update s.redisMode p answers }, .quiet)
  | .closeRedis p => some ({ s with redisMode := Function.update s.redisMode p false }, .quiet)
  | .createUser user => some ({ s with users := (s.users.insert user).getD s.users }, .quiet)
  | .deactivateUser username =>
    some ({ s with users := s.users.deactivate username }, .quiet)
  | .rotateUpdate id userId newKeyHash =>
    if (s.users.get userId).isNone then some (s, .quiet)
    else (s.rotations.insert ⟨id, userId, none⟩).map fun rotations =>
      ({ s with users := s.users.rotateKey userId newKeyHash, rotations }, .quiet)
  | .rotateDelete id =>
    match s.rotations.get id with
    | some ⟨_, userId, none⟩ =>
      let deleted := (s.tokens.rows.rows.filter (·.userId = userId)).map (·.token)
      some ({ s with
        rotations := s.rotations.modify id (.find deleted) fun _ => rfl }, .quiet)
    | _ => none
  | .rotateCommit id =>
    match s.rotations.get id with
    | some ⟨_, userId, some deleted⟩ =>
      some ({ s with
        tokens := s.tokens.deleteRows deleted
        rotations := s.rotations.discard (·.id = id) }, .rotated userId)
    | _ => none
  | .rotateAbort id => some ({ s with rotations := s.rotations.discard (·.id = id) }, .quiet)
  | .submit id credential =>
    match s.authenticate env credential with
    | none => some (s, .refused ⟨401, "Invalid credentials"⟩)
    | some userId => (s.submits.insert ⟨id, userId, []⟩).map fun submits =>
      ({ s with submits }, .user userId)
  | .createTask id taskId plain =>
    (s.submits.get id).bind fun c =>
      let task : OwnedTask := ⟨taskId, c.userId, plain⟩
      (s.tasks.insert task).map fun tasks =>
        ({ s with tasks, submits := s.submits.modify id (.create task) fun _ => rfl }, .quiet)
  | .createStreamToken id p token =>
    match s.submits.get id with
    | some ⟨_, userId, task :: _⟩ =>
      some ({ s with
        tokens := s.tokens.createStreamToken (s.redisMode p) s.now token task.taskId userId
        submits := s.submits.modify id .next fun _ => rfl }, .quiet)
    | _ => none
  | .submitEnds id => some ({ s with submits := s.submits.discard (·.id = id) }, .quiet)
  | .deleteTasks gone => some ({ s with tasks := s.tasks.discard gone }, .quiet)
  | .deleteStreamToken p token =>
    some ({ s with tokens := s.tokens.deleteStreamToken (s.redisMode p) token }, .quiet)
  | .purgeExpired => some ({ s with tokens := s.tokens.purge s.now }, .quiet)
  | .resolveUser id p taskId streamToken authorization =>
    match s.resolveUserForStream env p taskId streamToken authorization with
    | .error e => some (s, .refused e)
    | .ok userId => (s.opening.insert ⟨id, taskId, userId⟩).map fun opening =>
      ({ s with opening }, .user userId)
  | .drop id => some ({ s with opening := s.opening.discard (·.id = id) }, .quiet)
  | .getTask id =>
    (s.opening.get id).map fun c =>
      let s' := { s with opening := s.opening.discard (·.id = id) }
      match env.asUuid c.taskId with
      | none => (s', .raised)
      | some key =>
        match (s.tasks.get key).filter (·.userId = c.userId) with
        | none => (s', .refused ⟨404, "Task not found"⟩)
        | some _ => (s', .opened key c.userId)

def streamGate : Machine StreamGate AccessAction AccessLabel where
  step s a := s.step env a

end

abbrev AccessStep := Machine.Entry StreamGate AccessAction AccessLabel

/-! ## What a step does -/

section
variable {env : AccessEnv}

inductive AccessMove (env : AccessEnv) (s : StreamGate) :
    AccessAction → StreamGate → AccessLabel → Prop
  | elapsed {dt : Nat} : AccessMove env s (.elapse dt) { s with now := s.now + dt } .quiet
  | connected {p : Nat} {url : String} {answers : Bool} {redisMode : Nat → Bool} :
      AccessMove env s (.initRedis p url answers) { s with redisMode } .quiet
  | disconnected {p : Nat} {redisMode : Nat → Bool} :
      AccessMove env s (.closeRedis p) { s with redisMode } .quiet
  | userCreated {user : GatewayUser} :
      AccessMove env s (.createUser user)
        { s with users := (s.users.insert user).getD s.users } .quiet
  | deactivated {username : String} :
      AccessMove env s (.deactivateUser username)
        { s with users := s.users.deactivate username } .quiet
  | notRotated {id : Nat} {userId newKeyHash : String} :
      AccessMove env s (.rotateUpdate id userId newKeyHash) s .quiet
  | rotating {id : Nat} {userId newKeyHash : String} {rotations : Table KeyRotation.id}
      (known : (s.users.get userId).isNone = false)
      (insert : s.rotations.insert ⟨id, userId, none⟩ = some rotations) :
      AccessMove env s (.rotateUpdate id userId newKeyHash)
        { s with users := s.users.rotateKey userId newKeyHash, rotations } .quiet
  | rowsDeleted {id : Nat} {r : KeyRotation} (place : s.rotations.get id = some r)
      (first : r.deleted = none) :
      AccessMove env s (.rotateDelete id) { s with
        rotations := s.rotations.modify id
          (.find ((s.tokens.rows.rows.filter (·.userId = r.userId)).map (·.token)))
          fun _ => rfl } .quiet
  | rotated {id : Nat} {r : KeyRotation} {deleted : List String}
      (place : s.rotations.get id = some r) (found : r.deleted = some deleted) :
      AccessMove env s (.rotateCommit id) { s with
        tokens := s.tokens.deleteRows deleted
        rotations := s.rotations.discard (·.id = id) } (.rotated r.userId)
  | aborted {id : Nat} :
      AccessMove env s (.rotateAbort id)
        { s with rotations := s.rotations.discard (·.id = id) } .quiet
  | denied {id : Nat} {credential : String} {e : HttpRefusal} :
      AccessMove env s (.submit id credential) s (.refused e)
  | submitting {id : Nat} {credential userId : String} {submits : Table SubmitCall.id}
      (user : s.authenticate env credential = some userId)
      (insert : s.submits.insert ⟨id, userId, []⟩ = some submits) :
      AccessMove env s (.submit id credential) { s with submits } (.user userId)
  | taskCreated {id : Nat} {taskId : String} {plain : ':' ∉ taskId.toList} {c : SubmitCall}
      {tasks : Table OwnedTask.taskId} (place : s.submits.get id = some c)
      (insert : s.tasks.insert ⟨taskId, c.userId, plain⟩ = some tasks) :
      AccessMove env s (.createTask id taskId plain) { s with
        tasks
        submits := s.submits.modify id (.create ⟨taskId, c.userId, plain⟩) fun _ => rfl } .quiet
  | tokenCreated {id p : Nat} {token : String} {c : SubmitCall} {task : OwnedTask}
      {rest : List OwnedTask} (place : s.submits.get id = some c)
      (next : c.created = task :: rest) :
      AccessMove env s (.createStreamToken id p token) { s with
        tokens := s.tokens.createStreamToken (s.redisMode p) s.now token task.taskId c.userId
        submits := s.submits.modify id .next fun _ => rfl } .quiet
  | submitted {id : Nat} :
      AccessMove env s (.submitEnds id) { s with submits := s.submits.discard (·.id = id) } .quiet
  | tasksDeleted {gone : OwnedTask → Bool} :
      AccessMove env s (.deleteTasks gone) { s with tasks := s.tasks.discard gone } .quiet
  | tokenDeleted {p : Nat} {token : String} :
      AccessMove env s (.deleteStreamToken p token)
        { s with tokens := s.tokens.deleteStreamToken (s.redisMode p) token } .quiet
  | purged : AccessMove env s .purgeExpired { s with tokens := s.tokens.purge s.now } .quiet
  | unresolved {id p : Nat} {taskId : String} {streamToken authorization : Option String}
      {e : HttpRefusal}
      (refused : s.resolveUserForStream env p taskId streamToken authorization = .error e) :
      AccessMove env s (.resolveUser id p taskId streamToken authorization) s (.refused e)
  | resolved {id p : Nat} {taskId : String} {streamToken authorization : Option String}
      {userId : String} {opening : Table OpeningStream.id}
      (user : s.resolveUserForStream env p taskId streamToken authorization = .ok userId)
      (insert : s.opening.insert ⟨id, taskId, userId⟩ = some opening) :
      AccessMove env s (.resolveUser id p taskId streamToken authorization) { s with opening }
        (.user userId)
  | dropped {id : Nat} :
      AccessMove env s (.drop id) { s with opening := s.opening.discard (·.id = id) } .quiet
  | notOpened {id : Nat} {l : AccessLabel} (closed : l = .raised ∨ ∃ e, l = .refused e) :
      AccessMove env s (.getTask id) { s with opening := s.opening.discard (·.id = id) } l
  | opened {id : Nat} {c : OpeningStream} {key : String} {task : OwnedTask}
      (place : s.opening.get id = some c) (uuid : env.asUuid c.taskId = some key)
      (found : s.tasks.get key = some task) (owner : task.userId = c.userId) :
      AccessMove env s (.getTask id) { s with opening := s.opening.discard (·.id = id) }
        (.opened key c.userId)

theorem access_moves {x : AccessStep} (h : (streamGate env).Steps x) :
    AccessMove env x.before x.input x.after x.label := by
  obtain ⟨s, a, label, s'⟩ := x
  have h : s.step env a = some (s', label) := h
  cases a with
  | elapse dt =>
    cases h
    exact .elapsed
  | initRedis p url answers =>
    simp only [StreamGate.step] at h
    split at h
    · cases h
      exact .connected
    · cases h
      exact .connected
  | closeRedis p =>
    cases h
    exact .disconnected
  | createUser user =>
    cases h
    exact .userCreated
  | deactivateUser username =>
    cases h
    exact .deactivated
  | rotateUpdate id userId newKeyHash =>
    simp only [StreamGate.step] at h
    split at h
    · cases h
      exact .notRotated
    · next known =>
      obtain ⟨rotations, insert, same⟩ := Option.map_eq_some_iff.mp h
      cases same
      exact .rotating (Bool.eq_false_iff.mpr known) insert
  | rotateDelete id =>
    simp only [StreamGate.step] at h
    split at h
    · next place =>
      cases h
      exact .rowsDeleted place rfl
    · cases h
  | rotateCommit id =>
    simp only [StreamGate.step] at h
    split at h
    · next place =>
      cases h
      exact .rotated place rfl
    · cases h
  | rotateAbort id =>
    cases h
    exact .aborted
  | submit id credential =>
    simp only [StreamGate.step] at h
    split at h
    · cases h
      exact .denied
    · next userId user =>
      obtain ⟨submits, insert, same⟩ := Option.map_eq_some_iff.mp h
      cases same
      exact .submitting user insert
  | createTask id taskId plain =>
    obtain ⟨c, place, h⟩ := Option.bind_eq_some_iff.mp h
    obtain ⟨tasks, insert, same⟩ := Option.map_eq_some_iff.mp h
    cases same
    exact .taskCreated place insert
  | createStreamToken id p token =>
    simp only [StreamGate.step] at h
    split at h
    · next place =>
      cases h
      exact .tokenCreated place rfl
    · cases h
  | submitEnds id =>
    cases h
    exact .submitted
  | deleteTasks gone =>
    cases h
    exact .tasksDeleted
  | deleteStreamToken p token =>
    cases h
    exact .tokenDeleted
  | purgeExpired =>
    cases h
    exact .purged
  | resolveUser id p taskId streamToken authorization =>
    simp only [StreamGate.step] at h
    split at h
    · next refused =>
      cases h
      exact .unresolved refused
    · next userId user =>
      obtain ⟨opening, insert, same⟩ := Option.map_eq_some_iff.mp h
      cases same
      exact .resolved user insert
  | drop id =>
    cases h
    exact .dropped
  | getTask id =>
    obtain ⟨c, place, same⟩ := Option.map_eq_some_iff.mp h
    cases uuid : env.asUuid c.taskId with
    | none =>
      simp only [uuid] at same
      cases same
      exact .notOpened (.inl rfl)
    | some key =>
      simp only [uuid] at same
      cases found : (s.tasks.get key).filter (·.userId = c.userId) with
      | none =>
        simp only [found] at same
        cases same
        exact .notOpened (.inr ⟨_, rfl⟩)
      | some task =>
        simp only [found] at same
        cases same
        obtain ⟨found, owner⟩ := Option.filter_eq_some_iff.mp found
        exact .opened place uuid found (of_decide_eq_true owner)

/-! ## Tokens are grants -/

/-- The text that is generated is new to the store it is written to. -/
def AccessStep.NewToken (x : AccessStep) : Prop :=
  ∀ id p token, x.input = .createStreamToken id p token →
    x.before.tokens.held (x.before.redisMode p, token) = none

/-- The token is given out, for a task of a request and its user. -/
def AccessStep.Issues (x : AccessStep) (k : Bool × String) (g : Grant (String × String)) : Prop :=
  ∃ id p token c task rest, x.input = .createStreamToken id p token ∧
    x.before.submits.get id = some c ∧ c.created = task :: rest ∧
    k = (x.before.redisMode p, token) ∧
    g = ⟨(task.taskId, c.userId), some (x.before.now + streamTokenTtl)⟩

/-- The token is deleted, or the `DELETE` of a rotation commits that has found its row. -/
def AccessStep.Withdraws (x : AccessStep) (k : Bool × String)
    (_ : Grant (String × String)) : Prop :=
  (∃ p token, x.input = .deleteStreamToken p token ∧ k = (x.before.redisMode p, token)) ∨
    ∃ id r deleted, x.input = .rotateCommit id ∧ x.before.rotations.get id = some r ∧
      r.deleted = some deleted ∧ k.1 = false ∧ k.2 ∈ deleted

def streamTokens :
    Machine.Keeper StreamGate AccessAction AccessLabel (Bool × String) (String × String) where
  clock := StreamGate.now
  held s := s.tokens.held
  issues := AccessStep.Issues
  withdraws := AccessStep.Withdraws

/-- What a step does to what is held. -/
inductive TokenMove (x : AccessStep) : Prop
  | untouched (same : x.after.tokens = x.before.tokens) (noIssue : ∀ k g, ¬ x.Issues k g)
      (stays : ∀ k g, ¬ x.Withdraws k g)
  | issued {k : Bool × String} {g : Grant (String × String)}
      (issue : ∀ k' g', x.Issues k' g' ↔ k' = k ∧ g' = g) (stays : ∀ k g, ¬ x.Withdraws k g)
      (held : x.before.tokens.held k = none → ∀ k', x.after.tokens.held k' =
        if k' = k then some g else x.before.tokens.held k')
      (fresh : x.NewToken → x.before.tokens.held k = none)
  | withdrawn (gone : Bool × String → Prop) [DecidablePred gone]
      (noIssue : ∀ k g, ¬ x.Issues k g) (withdraw : ∀ k g, x.Withdraws k g ↔ gone k)
      (held : ∀ k, x.after.tokens.held k = if gone k then none else x.before.tokens.held k)
  | purged (noIssue : ∀ k g, ¬ x.Issues k g) (stays : ∀ k g, ¬ x.Withdraws k g)
      (held : ∀ k g, x.after.tokens.held k = some g ↔ x.before.tokens.held k = some g ∧
        (k.1 = false → g.isOpen x.after.now = true))

theorem token_moves {x : AccessStep} (h : (streamGate env).Steps x) :
    TokenMove x ∧ x.before.now ≤ x.after.now := by
  have moves := access_moves h
  obtain ⟨s, a, label, s'⟩ := x
  dsimp only at moves
  cases moves with
  | elapsed =>
    refine ⟨.untouched rfl ?_ ?_, Nat.le_add_right _ _⟩
    · simp [AccessStep.Issues]
    · simp [AccessStep.Withdraws]
  | @tokenCreated id p token c task rest place next =>
    refine ⟨.issued (k := (s.redisMode p, token))
      (g := ⟨(task.taskId, c.userId), some (s.now + streamTokenTtl)⟩) ?_ ?_ ?_ ?_, Nat.le_refl _⟩
    · intro k' g'
      constructor
      · rintro ⟨_, _, _, c', task', rest', input, place', next', rfl, rfl⟩
        cases input
        cases place.symm.trans place'
        cases next.symm.trans next'
        exact ⟨rfl, rfl⟩
      · rintro ⟨rfl, rfl⟩
        exact ⟨id, p, token, c, task, rest, rfl, place, next, rfl, rfl⟩
    · simp [AccessStep.Withdraws]
    · exact fun fresh k' => TokenStores.held_create task.plain fresh k'
    · exact fun new => new id p token rfl
  | @tokenDeleted p token =>
    refine ⟨.withdrawn (· = (s.redisMode p, token)) ?_ ?_ ?_, Nat.le_refl _⟩
    · simp [AccessStep.Issues]
    · simp [AccessStep.Withdraws]
    · exact TokenStores.held_delete
  | @rotated id r deleted place found =>
    refine ⟨.withdrawn (fun k => k.1 = false ∧ k.2 ∈ deleted) ?_ ?_ ?_, Nat.le_refl _⟩
    · simp [AccessStep.Issues]
    · simp [AccessStep.Withdraws, place, found]
    · exact TokenStores.held_deleteRows
  | purged =>
    refine ⟨.purged ?_ ?_ TokenStores.held_purge, Nat.le_refl _⟩
    · simp [AccessStep.Issues]
    · simp [AccessStep.Withdraws]
  | _ =>
    refine ⟨.untouched rfl ?_ ?_, Nat.le_refl _⟩
    · simp [AccessStep.Issues]
    · simp [AccessStep.Withdraws]

/-- The two stores together keep the tokens as grants. -/
theorem keeps_stream_tokens :
    Machine.Keeps (streamGate env) streamTokens AccessStep.NewToken where
  clock step := (token_moves step).2
  issued {x k g} step new issue := by
    show x.after.tokens.held k = some g
    cases (token_moves step).1 with
    | untouched same noIssue stays => exact absurd issue (noIssue k g)
    | issued issues stays held fresh =>
      obtain ⟨rfl, rfl⟩ := (issues k g).mp issue
      rw [held (fresh new), if_pos rfl]
    | withdrawn gone noIssue withdraw held => exact absurd issue (noIssue k g)
    | purged noIssue stays held => exact absurd issue (noIssue k g)
  kept {x k g} step new old kept open_ := by
    show x.after.tokens.held k = some g
    have old : x.before.tokens.held k = some g := old
    cases (token_moves step).1 with
    | untouched same noIssue stays => rw [same, old]
    | @issued k' _ issues stays held fresh =>
      have other : k ≠ k' := fun same => by simp [same, fresh new] at old
      rw [held (fresh new), if_neg other, old]
    | withdrawn gone noIssue withdraw held =>
      rw [held, if_neg fun gone => kept ((withdraw k g).mpr gone), old]
    | purged noIssue stays held => exact (held k g).mpr ⟨old, fun _ => open_⟩
  entered {x k g} step new after := by
    have after : x.after.tokens.held k = some g := after
    show AccessStep.Issues x k g ∨
      (x.before.tokens.held k = some g ∧ ¬ AccessStep.Withdraws x k g)
    cases (token_moves step).1 with
    | untouched same noIssue stays => exact .inr ⟨same ▸ after, stays k g⟩
    | issued issues stays held fresh =>
      rw [held (fresh new)] at after
      split at after
      · next same =>
        cases after
        exact .inl ((issues _ _).mpr ⟨same, rfl⟩)
      · exact .inr ⟨after, stays k g⟩
    | withdrawn gone noIssue withdraw held =>
      rw [held] at after
      split at after
      · cases after
      · next stays => exact .inr ⟨after, fun gone => stays ((withdraw k g).mp gone)⟩
    | purged noIssue stays held => exact .inr ⟨((held k g).mp after).1, stays k g⟩

/-! ## Who a stream request speaks for -/

/-- The request shows a token that was given out for the task and the user in the store of
its process, and not withdrawn, and it is not over. -/
def ByToken (past : List AccessStep) (s : StreamGate) (p : Nat) (taskId : String)
    (streamToken : Option String) (userId : String) : Prop :=
  ∃ token g, streamToken = some token ∧ token ≠ "" ∧ g.value = (taskId, userId) ∧
    g.isOpen s.now = true ∧ streamTokens.Granted past (s.redisMode p, token) g

/-- The request shows no token, and a key that the first active account with its hash has. -/
def ByKey (env : AccessEnv) (s : StreamGate) (streamToken authorization : Option String)
    (userId : String) : Prop :=
  (streamToken = none ∨ streamToken = some "") ∧
    ∃ key, extractBearerToken env authorization = some key ∧
      s.authenticate env key = some userId

theorem resolveUser_eq_ok_iff {s : StreamGate} {p : Nat} {taskId userId : String}
    {streamToken authorization : Option String} :
    s.resolveUserForStream env p taskId streamToken authorization = .ok userId ↔
      (∃ token, streamToken = some token ∧ token ≠ "" ∧
        s.tokens.resolveStreamToken (s.redisMode p) s.now token = some (taskId, userId)) ∨
      ByKey env s streamToken authorization userId := by
  unfold StreamGate.resolveUserForStream ByKey
  by_cases shown : streamToken = none ∨ streamToken = some ""
  · have none : streamToken.filter (· ≠ "") = none := by
      rcases shown with rfl | rfl <;> rfl
    have noToken : ¬ ∃ token, streamToken = some token ∧ token ≠ "" ∧
        s.tokens.resolveStreamToken (s.redisMode p) s.now token = some (taskId, userId) := by
      rintro ⟨token, rfl, nonempty, -⟩
      simp [nonempty] at shown
    rw [none, or_iff_right noToken, and_iff_right shown]
    dsimp only
    cases key : extractBearerToken env authorization with
    | none => simp
    | some rawKey => cases user : s.authenticate env rawKey <;> simp [user]
  · obtain ⟨token, rfl⟩ : ∃ token, streamToken = some token :=
      Option.ne_none_iff_exists'.mp fun none => shown (.inl none)
    have nonempty : token ≠ "" := fun empty => shown (.inr (by rw [empty]))
    have some : (some token).filter (· ≠ "") = some token := by simp [Option.filter, nonempty]
    rw [some, or_iff_left fun key => shown key.1]
    dsimp only
    cases resolved : s.tokens.resolveStreamToken (s.redisMode p) s.now token with
    | none => simp [resolved]
    | some a =>
      obtain ⟨resolvedTaskId, user⟩ := a
      by_cases same : resolvedTaskId = taskId <;> simp [resolved, nonempty, same]

theorem user_label_iff {x : AccessStep} (h : (streamGate env).Steps x) {id p : Nat}
    {taskId userId : String} {streamToken authorization : Option String}
    (input : x.input = .resolveUser id p taskId streamToken authorization) :
    x.label = .user userId ↔
      x.before.resolveUserForStream env p taskId streamToken authorization = .ok userId := by
  have moves := access_moves h
  obtain ⟨s, a, label, s'⟩ := x
  dsimp only at moves input ⊢
  subst input
  cases moves with
  | unresolved refused => simp [refused]
  | resolved user insert => simp [user]

theorem no_tokens_held (k : Bool × String) : streamTokens.held .empty k = none := by
  obtain ⟨mode, token⟩ := k
  cases mode <;> rfl

/-- A token that is shown resolves if it is in force. -/
theorem resolves_iff_granted (actions : List AccessAction)
    (new : ∀ x ∈ (streamGate env).run .empty actions, AccessStep.NewToken x)
    {past later : List AccessStep} {x : AccessStep}
    (split : (streamGate env).run .empty actions = past ++ x :: later) {mode : Bool}
    {token : String} {a : String × String} :
    x.before.tokens.resolveStreamToken mode x.before.now token = some a ↔
      ∃ g, g.value = a ∧ g.isOpen x.before.now = true ∧
        streamTokens.Granted past (mode, token) g := by
  have agree {g : Grant (String × String)} (open_ : g.isOpen x.before.now = true) :=
    keeps_stream_tokens.held_iff no_tokens_held new split (k := (mode, token)) open_
  rw [TokenStores.resolve_eq_shown, Grant.shown_eq_some_iff]
  constructor
  · rintro ⟨g, held, open_, value⟩
    exact ⟨g, value, open_, (agree open_).mp held⟩
  · rintro ⟨g, value, open_, granted⟩
    exact ⟨g, (agree open_).mpr granted, open_, value⟩

/-- In every run whose generated texts are new, a stream request speaks for a user exactly
if it shows a token in force for the task and the user, or none and a key of the user's. -/
theorem stream_user_iff (env : AccessEnv) (actions : List AccessAction)
    (new : ∀ x ∈ (streamGate env).run .empty actions, AccessStep.NewToken x)
    {past later : List AccessStep} {x : AccessStep}
    (split : (streamGate env).run .empty actions = past ++ x :: later)
    {id p : Nat} {taskId userId : String} {streamToken authorization : Option String}
    (input : x.input = .resolveUser id p taskId streamToken authorization) :
    x.label = .user userId ↔
      ByToken past x.before p taskId streamToken userId ∨
        ByKey env x.before streamToken authorization userId := by
  have step := Machine.steps_of_run split
  rw [user_label_iff step input, resolveUser_eq_ok_iff]
  refine or_congr_left ?_
  constructor
  · rintro ⟨token, shown, nonempty, resolved⟩
    obtain ⟨g, value, open_, granted⟩ := (resolves_iff_granted actions new split).mp resolved
    exact ⟨token, g, shown, nonempty, value, open_, granted⟩
  · rintro ⟨token, g, shown, nonempty, value, open_, granted⟩
    exact ⟨token, shown, nonempty,
      (resolves_iff_granted actions new split).mpr ⟨g, value, open_, granted⟩⟩

/-! ## From the key to the stream -/

/-- A request of this number is at work for the user. -/
def Submitting (s : StreamGate) (call : Nat × String) : Prop :=
  ∃ c ∈ s.submits.rows, c.id = call.1 ∧ c.userId = call.2

def Opening (s : StreamGate) (c : OpeningStream) : Prop := c ∈ s.opening.rows

theorem submitting_of_step {x : AccessStep} (h : (streamGate env).Steps x) (call : Nat × String)
    (after : Submitting x.after call) :
    (∃ credential, x.input = .submit call.1 credential ∧
      x.before.authenticate env credential = some call.2) ∨ Submitting x.before call := by
  have moves := access_moves h
  obtain ⟨s, a, label, s'⟩ := x
  obtain ⟨id, userId⟩ := call
  obtain ⟨c, hc, rfl, rfl⟩ := after
  dsimp only at moves hc ⊢
  cases moves with
  | submitting user insert =>
    rcases Table.of_mem_insert insert hc with rfl | old
    · exact .inl ⟨_, rfl, user⟩
    · exact .inr ⟨c, old, rfl, rfl⟩
  | @taskCreated _ _ _ c' _ place insert =>
    rcases Table.of_mem_modify (f := .create _) place (fun _ => rfl) hc with rfl | ⟨old, -⟩
    · exact .inr ⟨c', (Table.get_mem place).1, rfl, rfl⟩
    · exact .inr ⟨c, old, rfl, rfl⟩
  | @tokenCreated _ _ _ c' _ _ place next =>
    rcases Table.of_mem_modify (f := .next) place (fun _ => rfl) hc with rfl | ⟨old, -⟩
    · exact .inr ⟨c', (Table.get_mem place).1, rfl, rfl⟩
    · exact .inr ⟨c, old, rfl, rfl⟩
  | submitted => exact .inr ⟨c, (List.mem_filter.mp hc).1, rfl, rfl⟩
  | _ => exact .inr ⟨c, hc, rfl, rfl⟩

theorem opening_of_step {x : AccessStep} (h : (streamGate env).Steps x) (c : OpeningStream)
    (after : Opening x.after c) :
    (x.label = .user c.userId ∧ ∃ p streamToken authorization,
      x.input = .resolveUser c.id p c.taskId streamToken authorization) ∨ Opening x.before c := by
  have moves := access_moves h
  obtain ⟨s, a, label, s'⟩ := x
  have hc : c ∈ s'.opening.rows := after
  show _ ∨ c ∈ s.opening.rows
  dsimp only at moves ⊢
  cases moves with
  | resolved user insert =>
    rcases Table.of_mem_insert insert hc with rfl | old
    · exact .inl ⟨rfl, _, _, _, rfl⟩
    · exact .inr old
  | dropped => exact .inr (List.mem_filter.mp hc).1
  | notOpened closed => exact .inr (List.mem_filter.mp hc).1
  | opened place uuid found owner => exact .inr (List.mem_filter.mp hc).1
  | _ => exact .inr hc

/-- The token that is shown was given out less than thirty minutes ago, by a process with
the same kind of store and for this task, to a request that the user's key had let in, and
was not withdrawn since. -/
def TokenOfKey (env : AccessEnv) (past : List AccessStep) (s : StreamGate) (p : Nat)
    (taskId : String) (streamToken : Option String) (userId : String) : Prop :=
  ∃ token g pre z mid, streamToken = some token ∧ past = pre ++ z :: mid ∧
    g.value = (taskId, userId) ∧ AccessStep.Issues z (s.redisMode p, token) g ∧
    s.now < z.before.now + streamTokenTtl ∧
    (∀ w ∈ mid, ¬ AccessStep.Withdraws w (s.redisMode p, token) g) ∧
    ∃ w ∈ pre, ∃ id p' credential, z.input = .createStreamToken id p' token ∧
      w.input = .submit id credential ∧ w.before.authenticate env credential = some userId

theorem tokenOfKey_of_byToken (actions : List AccessAction) {past later : List AccessStep}
    {x : AccessStep} (split : (streamGate env).run .empty actions = past ++ x :: later) {p : Nat}
    {taskId userId : String} {streamToken : Option String}
    (shown : ByToken past x.before p taskId streamToken userId) :
    TokenOfKey env past x.before p taskId streamToken userId := by
  obtain ⟨token, g, rfl, -, value, open_, pre, z, mid, rfl, issue, stays⟩ := shown
  obtain ⟨id, p', token', c, task, rest, input, place, next, key, rfl⟩ := issue
  cases value
  obtain ⟨-, rfl⟩ : x.before.redisMode p = z.before.redisMode p' ∧ token = token' := by
    simpa using key
  rw [List.append_assoc, List.cons_append] at split
  have at_work : Submitting z.before (id, c.userId) := by
    obtain ⟨mem, same⟩ := Table.get_mem place
    exact ⟨c, mem, same, rfl⟩
  have none : ∀ call, ¬ Submitting .empty call := by
    rintro call ⟨c, hc, -⟩
    cases hc
  obtain ⟨a, w, b, rfl, credential, submit, user⟩ :=
    Machine.history_entered (fun _ h => submitting_of_step h) none split at_work
  exact ⟨token, _, a ++ w :: b, z, mid, rfl, rfl, rfl,
    ⟨id, p', token, c, task, rest, input, place, next, key, rfl⟩, Grant.isOpen_some.mp open_,
    stays, w, by simp, id, p', credential, input, submit, user⟩

/-- In every run whose generated texts are new, a stream opens only for the owner of the
task, and only after a request that showed a key of the owner's or a token that goes back
to one. -/
theorem stream_opens_for_owner (env : AccessEnv) (actions : List AccessAction)
    (new : ∀ x ∈ (streamGate env).run .empty actions, AccessStep.NewToken x)
    {past later : List AccessStep} {x : AccessStep}
    (split : (streamGate env).run .empty actions = past ++ x :: later)
    {taskId userId : String} (opened : x.label = .opened taskId userId) :
    (∃ task, x.before.tasks.get taskId = some task ∧ task.userId = userId) ∧
      ∃ pre y mid id p raw streamToken authorization, past = pre ++ y :: mid ∧
        x.input = .getTask id ∧ y.input = .resolveUser id p raw streamToken authorization ∧
        env.asUuid raw = some taskId ∧
        (ByKey env y.before streamToken authorization userId ∨
          TokenOfKey env pre y.before p raw streamToken userId) := by
  have step := Machine.steps_of_run split
  have moves := access_moves step
  obtain ⟨s, a, label, s'⟩ := x
  dsimp only at moves opened ⊢
  subst opened
  cases moves with
  | notOpened closed => simp at closed
  | @opened id c _ task place uuid found owner =>
    refine ⟨⟨task, found, owner⟩, ?_⟩
    obtain ⟨mem, rfl⟩ := Table.get_mem place
    have none : ∀ c, ¬ Opening .empty c := fun c hc => absurd hc List.not_mem_nil
    obtain ⟨pre, y, mid, rfl, label, p, streamToken, authorization, input⟩ :=
      Machine.history_entered (fun _ h => opening_of_step h) none split mem
    refine ⟨pre, y, mid, c.id, p, c.taskId, streamToken, authorization, rfl, rfl, input, uuid, ?_⟩
    rw [List.append_assoc, List.cons_append] at split
    rcases (stream_user_iff env actions new split input).mp label with shown | key
    · exact .inr (tokenOfKey_of_byToken actions split shown)
    · exact .inl key

end

/-! ## Ann watches her task -/

def sampleGate : AccessEnv where
  unicode := .ascii
  checkpw key keyHash := key = keyHash
  asUuid text := some text

def watching : List AccessAction :=
  [.createUser { userId := "ann", username := "Ann", apiKeyHash := "key-1", dailyTokenLimit := 0 },
    .submit 0 "key-1", .createTask 0 "task-1" (by simp), .createStreamToken 0 0 "token-1",
    .elapse 60000000, .resolveUser 1 0 "task-1" (some "token-1") none, .getTask 1]

theorem watching_new :
    ∀ x ∈ (streamGate sampleGate).run .empty watching, AccessStep.NewToken x := by
  refine Machine.forall_run_cons rfl (by simp [AccessStep.NewToken]) ?_
  refine Machine.forall_run_cons rfl (by simp [AccessStep.NewToken]) ?_
  refine Machine.forall_run_cons rfl (by simp [AccessStep.NewToken]) ?_
  refine Machine.forall_run_cons rfl ?_ ?_
  · intro id p token same
    cases same
    rfl
  refine Machine.forall_run_cons rfl (by simp [AccessStep.NewToken]) ?_
  refine Machine.forall_run_cons rfl (by simp [AccessStep.NewToken]) ?_
  refine Machine.forall_run_cons rfl (by simp [AccessStep.NewToken]) ?_
  exact fun x hx => absurd hx List.not_mem_nil

theorem watching_opens : ∃ past x later,
    (streamGate sampleGate).run .empty watching = past ++ x :: later ∧
      (∃ task, x.before.tasks.get "task-1" = some task ∧ task.userId = "ann") := by
  have long : 6 < ((streamGate sampleGate).run .empty watching).length := by decide +kernel
  exact ⟨_, _, _, Machine.run_at 6 long,
    (stream_opens_for_owner sampleGate watching watching_new (Machine.run_at 6 long) rfl).1⟩

end LegionForge.Gateway
