import LegionForge.Gateway.Refusals

/-!
# A batch and its requests one by one

Both routes build the arguments of `create_task` from the same request, each in its own
words. The batch route passes on seven of them; the rest of the request is dropped, the
text stays without its attachment, and no content hash is computed. A submission always
stores one, so the rows of the two are never the same.
-/

namespace LegionForge.Gateway

open LegionForge.Audit (Instant)
open LegionForge.Security (sanitizeText)

/-- What has been inserted, up to ids and times -/
def createdRows (before after : GatewayDb) : List TaskColumns :=
  (after.tasks.take (after.tasks.length - before.tasks.length)).map (·.toTaskColumns)

theorem createdRows_of_added {before after : GatewayDb} {new : List StoredTask}
    (added : after.tasks = new ++ before.tasks) :
    createdRows before after = new.map (·.toTaskColumns) := by
  rw [createdRows, added, List.length_append, Nat.add_sub_cancel, List.take_left]

/-- Each request is submitted, whatever has become of those before it. -/
def submitEach (env : GatewayEnv) (user : User) (now : Instant) :
    List TaskRequest → GatewayDb → GatewayDb
  | [], db => db
  | body :: bodies, db => submitEach env user now bodies (submitTask env user body now db).1

variable {env : GatewayEnv}

/-- The columns of a row that a submission inserts. -/
theorem columns_submit {user : User} {body : TaskRequest} {text : String} {db : GatewayDb}
    {columns : TaskColumns}
    (h : (submitArgs env user body text).columns env db = some columns) :
    ∃ dependsOn sessionId, castOptional env body.dependsOn = some dependsOn ∧
      castOptional env body.sessionId = some sessionId ∧
      (∀ id ∈ dependsOn, ∃ t ∈ db.tasks, t.taskId = id) ∧
      columns =
        { userId := user.userId
          input := text
          agentType := body.agentType
          config := { body.config with image := body.imageB64.map fun b64 => (b64, body.imageMime) }
          estimatedTokens := estimatedTokens env text
          callbackUrl := body.callbackUrl
          priority := max 1 (min 10 body.priority)
          contentHash := some (computeTaskHash env body.agentType text)
          tags := body.tags
          dependsOn
          sessionId
          modelPreference := body.modelPreference } := by
  obtain ⟨dependsOn, cast, h⟩ := Option.bind_eq_some_iff.mp h
  obtain ⟨sessionId, cast', h⟩ := Option.bind_eq_some_iff.mp h
  obtain ⟨known, same⟩ := Option.ite_none_right_eq_some.mp h
  refine ⟨dependsOn, sessionId, cast, cast', ?_, (Option.some.inj same).symm⟩
  intro id hid
  cases hid
  obtain ⟨t, ht, at_id⟩ := List.any_eq_true.mp known
  exact ⟨t, ht, of_decide_eq_true at_id⟩

/-- A submission stores a content hash. -/
theorem submit_hashed (env : GatewayEnv) (user : User) (body : TaskRequest) (now : Instant)
    (db : GatewayDb) :
    ∃ new, (submitTask env user body now db).1.tasks = new ++ db.tasks ∧
      ∀ t ∈ new, t.contentHash.isSome := by
  rcases submitTask_writes env user body now db with ⟨redis, out⟩ | ⟨redis, row, created⟩
  · exact ⟨[], by rw [out]; rfl, fun t ht => absurd ht List.not_mem_nil⟩
  · obtain ⟨columns, inserted, same_columns, -, -, out⟩ := createTask_some created
    refine ⟨[row], by rw [out]; rfl, fun t ht => ?_⟩
    rw [List.mem_singleton.mp ht, same_columns]
    obtain ⟨_, _, -, -, -, rfl⟩ := columns_submit inserted
    rfl

theorem submitEach_hashed (env : GatewayEnv) (user : User) (now : Instant)
    (bodies : List TaskRequest) :
    ∀ db, ∃ new, (submitEach env user now bodies db).tasks = new ++ db.tasks ∧
      ∀ t ∈ new, t.contentHash.isSome := by
  induction bodies with
  | nil => exact fun db => ⟨[], rfl, fun t ht => absurd ht List.not_mem_nil⟩
  | cons body bodies ih =>
    intro db
    obtain ⟨first, added, hashed⟩ := submit_hashed env user body now db
    obtain ⟨rest, more, all_hashed⟩ := ih (submitTask env user body now db).1
    refine ⟨rest ++ first, ?_, fun t ht => ?_⟩
    · rw [submitEach, more, added, List.append_assoc]
    · rcases List.mem_append.mp ht with later | here
      · exact all_hashed t later
      · exact hashed t here

/-- For every batch that goes through: the rows it creates are not those of its requests
submitted one by one. And for every request: the row of the batch is the row of a
submission with the text unattached, and without its image, content hash, tags,
dependency, session and model preference. -/
theorem batch_rows_differ (env : GatewayEnv) (user : User) (now : Instant) :
    (∀ body db replies, (submitTasksBatch env user body now db).2 = .ok replies →
      createdRows db (submitTasksBatch env user body now db).1 ≠
        createdRows db (submitEach env user now body.tasks db)) ∧
    ∀ (req : TaskRequest) db single,
      (submitArgs env user req (submitText env req)).columns env db = some single →
        let text := (sanitizeText env.unicode req.task true true true).1
        (batchArgs env user req text).columns env db = some
          { single with
            input := text
            config := { single.config with image := none }
            estimatedTokens := estimatedTokens env text
            contentHash := none
            tags := []
            dependsOn := none
            sessionId := none
            modelPreference := none } := by
  refine ⟨?_, ?_⟩
  · intro body db replies answer same
    obtain ⟨single, added, hashed⟩ := submitEach_hashed env user now body.tasks db
    unfold submitTasksBatch at answer same
    cases full : checkQueueDepth env db user.userId body.tasks.length with
    | some e =>
      rw [full] at answer
      cases answer
    | none =>
      rw [full] at answer same
      obtain ⟨new, batched, hashless, all⟩ := batch_tasks env user now body.tasks 0 db
      rw [createdRows_of_added batched, createdRows_of_added added] at same
      cases new with
      | nil =>
        have length := all replies answer
        have positive := body.valid_length.1
        simp only [List.length_nil] at length
        omega
      | cons t new =>
        cases single with
        | nil => cases same
        | cons u single =>
          have first : t.toTaskColumns = u.toTaskColumns := (List.cons.inj same).1
          have none := hashless t List.mem_cons_self
          have some := hashed u List.mem_cons_self
          rw [first] at none
          rw [none] at some
          cases some
  · intro req db single inserted
    obtain ⟨_, _, -, -, -, rfl⟩ := columns_submit inserted
    exact batch_columns ..

/-- One request with a tag -/
def taggedBatch : BatchTaskRequest where
  tasks := [{ TaskRequest.plain "hi" with tags := ["report"] }]
  valid_length := by decide

theorem tag_lost :
    createdRows .empty (submitTasksBatch .sample sampleUser taggedBatch firstOfDay .empty).1 ≠
        createdRows .empty
          (submitEach .sample sampleUser firstOfDay taggedBatch.tasks .empty) ∧
      (createdRows .empty
        (submitTasksBatch .sample sampleUser taggedBatch firstOfDay .empty).1).map (·.tags) = [[]] ∧
      (createdRows .empty (submitEach .sample sampleUser firstOfDay taggedBatch.tasks .empty)).map
        (·.tags) = [["report"]] := by
  decide +kernel

end LegionForge.Gateway
