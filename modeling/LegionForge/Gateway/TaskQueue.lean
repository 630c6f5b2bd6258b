import LegionForge.Gateway.Worker
import LegionForge.Lib.RowLocks
import Mathlib.Data.List.Sort

/-!
# The task queue

Everything that writes to the table `tasks`, from any number of processes: each
function is one statement that commits by itself, so the processes interleave at
the locks of single rows. Rows are inserted, deleted and pruned in one step.

`RowMove` is what a step can do to a row, whatever the interleaving. That a task
is claimed once and that a claim and a cancellation exclude each other comes down
to this: both ask for `queued` on the row they have locked, and nothing sets it.
-/

namespace LegionForge.Gateway

/-! ## Rows and statements -/

/-- The columns of `tasks` that these functions read or write. -/
structure TaskRow where
  taskId : String
  userId : String
  status : TaskStatus
  agentType : String
  input : String
  result : Option String
  error : Option String
  runId : Option String
  steps : Option Int
  tokens : Option String
  workerId : Option String
  priority : Int
  labels : List String
  tags : List String
  dependsOn : Option String
  createdAt : Nat
  updatedAt : Nat
  completedAt : Option Nat
  deriving DecidableEq, Repr

/-- The functions that update tasks, with what they are called with and the `now()`
of their transaction. Instants are microseconds. -/
inductive TaskStatement where
  | claimNextQueuedTask (workerId : Option String) (now : Nat)
  | markTaskRunning (taskId runId : String) (now : Nat)
  | markTaskComplete (taskId result : String) (steps : Option Int) (tokens : String)
      (now : Nat)
  | markTaskFailed (taskId error : String) (now : Nat)
  | markTaskPaused (taskId : String) (now : Nat)
  | failDependentTasks (failedTaskId : String) (now : Nat)
  | markTaskCancelled (taskId userId : String) (now : Nat)
  | bulkCancelTasks (taskIds : List String) (userId : String) (now : Nat)
  | reapStuckTasks (timeoutSeconds now : Nat)
  | reapStaleRunningTasks (workerId : String) (now : Nat)
  | updateTaskTags (taskId userId : String) (tags : List String) (now : Nat)
  | updateTaskLabels (taskId userId : String) (labels : List String) (now : Nat)
  | bulkTagTasks (taskIds : List String) (userId : String) (tags : List String) (now : Nat)

/-- An update that waits for its locks and takes every row it finds. -/
def plainUpdate (guard : TaskRow → Bool) (set : TaskRow → TaskRow)
    (keeps : ∀ t, (set t).taskId = t.taskId) : Update TaskRow.taskId where
  guard
  set
  keeps
  order := id
  skipLocked := false
  single := false

/-- `depends_on` is null or complete. -/
def dependencyComplete (snapshot : List TaskRow) (t : TaskRow) : Bool :=
  match t.dependsOn with
  | none => true
  | some d => snapshot.any fun dep => dep.taskId = d && dep.status = .complete

/-- `ORDER BY priority DESC, created_at ASC` -/
def claimsBefore (a b : TaskRow) : Bool :=
  b.priority < a.priority || (a.priority = b.priority && a.createdAt ≤ b.createdAt)

/-- `completed_at = now(), updated_at = now()` -/
def TaskRow.ended (t : TaskRow) (now : Nat) : TaskRow :=
  { t with completedAt := some now, updatedAt := now }

/-- The `UPDATE` of each function. -/
def TaskStatement.meaning : TaskStatement → List TaskRow → Update TaskRow.taskId
  | .claimNextQueuedTask workerId now, snapshot =>
    { guard := fun t => t.status = .queued && dependencyComplete snapshot t &&
        !t.labels.contains "__integration_test__"
      set := fun t => { t with status := .running, updatedAt := now, workerId }
      keeps := fun _ => rfl
      order := List.insertionSort fun a b => claimsBefore a b = true
      skipLocked := true
      single := true }
  | .markTaskRunning taskId runId now, _ =>
    plainUpdate (fun t => t.taskId = taskId)
      (fun t => { t with runId := some runId, updatedAt := now }) fun _ => rfl
  | .markTaskComplete taskId result steps tokens now, _ =>
    plainUpdate (fun t => t.taskId = taskId)
      (fun t => { t.ended now with
        status := .complete, result := some result, steps, tokens := some tokens }) fun _ => rfl
  | .markTaskFailed taskId error now, _ =>
    plainUpdate (fun t => t.taskId = taskId)
      (fun t => { t.ended now with status := .failed, error := some error }) fun _ => rfl
  | .markTaskPaused taskId now, _ =>
    plainUpdate (fun t => t.taskId = taskId)
      (fun t => { t with status := .paused, updatedAt := now }) fun _ => rfl
  | .failDependentTasks failedTaskId now, _ =>
    plainUpdate (fun t => t.dependsOn = some failedTaskId && t.status = .queued)
      (fun t => { t.ended now with
        status := .failed, error := some "Dependency task failed or was cancelled" })
      fun _ => rfl
  | .markTaskCancelled taskId userId now, _ =>
    plainUpdate (fun t => t.taskId = taskId && t.userId = userId && t.status = .queued)
      (fun t => { t.ended now with status := .cancelled }) fun _ => rfl
  | .bulkCancelTasks taskIds userId now, _ =>
    plainUpdate (fun t => taskIds.contains t.taskId && t.userId = userId && t.status = .queued)
      (fun t => { t.ended now with status := .cancelled }) fun _ => rfl
  | .reapStuckTasks timeoutSeconds now, _ =>
    plainUpdate
      (fun t => t.status = .running && t.updatedAt + timeoutSeconds * 1000000 < now)
      (fun t => { t.ended now with
        status := .failed
        error := some s!"Task timed out — reaped by watchdog after {timeoutSeconds} seconds" })
      fun _ => rfl
  | .reapStaleRunningTasks workerId now, _ =>
    plainUpdate (fun t => t.status = .running && t.workerId = some workerId)
      (fun t => { t.ended now with
        status := .failed
        error := some "Worker restarted — task orphaned and reaped at startup" })
      fun _ => rfl
  | .updateTaskTags taskId userId tags now, _ =>
    plainUpdate (fun t => t.taskId = taskId && t.userId = userId)
      (fun t => { t with tags, updatedAt := now }) fun _ => rfl
  | .updateTaskLabels taskId userId labels now, _ =>
    plainUpdate (fun t => t.taskId = taskId && t.userId = userId)
      (fun t => { t with labels, updatedAt := now }) fun _ => rfl
  | .bulkTagTasks taskIds userId tags now, _ =>
    plainUpdate (fun t => taskIds.contains t.taskId && t.userId = userId)
      (fun t => { t with tags, updatedAt := now }) fun _ => rfl

/-! ## The queue -/

abbrev TaskStore := Store TaskRow.taskId TaskStatement

abbrev TaskSession := Session String TaskRow TaskStatement

/-- The table, the ids `gen_random_uuid` has drawn, and the tasks `run_task` has marked
failed and whose dependents it has still to fail. -/
structure Queue where
  store : TaskStore
  drawn : List String
  failing : List String

def Queue.empty : Queue := ⟨⟨.empty, .empty⟩, [], []⟩

def Queue.rows (q : Queue) : List TaskRow := q.store.rows.rows

/-- What a task is submitted with. -/
structure NewTask where
  userId : String
  agentType : String
  input : String
  priority : Int
  tags : List String
  dependsOn : Option String

/-- The row `create_task` inserts. -/
def NewTask.row (t : NewTask) (taskId : String) (now : Nat) : TaskRow where
  taskId
  userId := t.userId
  status := .queued
  agentType := t.agentType
  input := t.input
  result := none
  error := none
  runId := none
  steps := none
  tokens := none
  workerId := none
  priority := max 1 (min 10 t.priority)
  labels := []
  tags := t.tags
  dependsOn := t.dependsOn
  createdAt := now
  updatedAt := now
  completedAt := none

inductive QueueAction where
  | createTask (taskId : String) (task : NewTask) (now : Nat)
  | start (session : Nat) (stmt : TaskStatement)
  | visit (session : Nat) (shared : Bool)
  | commit (session : Nat)
  | abort (session : Nat)
  | bulkDeleteTasks (taskIds : List String) (userId : String)
  /-- Of the tasks created before an instant, the retention job deletes the ended ones. -/
  | pruneTasks (before : Nat)
  /-- A worker does not come to the dependents of the task it has marked failed. -/
  | givesUp (taskId : String)

/-- What a function returns, at the commit of its statement. -/
inductive QueueAnswer where
  | none
  | claimed (task : Option TaskRow)
  | cancelled (taskId : String) (done : Bool)
  | count (n : Nat)
  | noneReaped
  /-- Of `row[0]`: the rows that come back are dictionaries. -/
  | keyError
  deriving DecidableEq

def TaskStatement.answer (writes : List TaskRow) : TaskStatement → QueueAnswer
  | .claimNextQueuedTask .. => .claimed writes.head?
  | .markTaskCancelled taskId .. => .cancelled taskId (writes.length = 1)
  | .failDependentTasks .. | .bulkCancelTasks .. | .bulkTagTasks .. => .count writes.length
  | .reapStuckTasks .. | .reapStaleRunningTasks .. =>
    if writes.isEmpty then .noneReaped else .keyError
  | _ => .none

def TaskStatus.isTerminal : TaskStatus → Bool
  | .complete | .failed | .cancelled => true
  | _ => false

/-- The foreign key lets go of the tasks that are deleted: `ON DELETE SET NULL`. -/
def Queue.delete (q : Queue) (gone : TaskRow → Bool) : Option Queue :=
  (q.store.delete gone
    (fun t => q.rows.any fun g => gone g && t.dependsOn = some g.taskId)
    (fun t => { t with dependsOn := none }) fun _ => rfl).map fun store => { q with store }

def validTaskLabels : List String := ["bookmarked", "starred", "important", "archived"]

/-- `run_task` comes to the dependents of a task once, after it has marked it failed;
unknown labels raise before the statement. -/
def Queue.startStatement (q : Queue) (session : Nat) (stmt : TaskStatement) : Option Queue :=
  let failing :=
    match stmt with
    | .failDependentTasks d _ => if d ∈ q.failing then some (q.failing.erase d) else none
    | .updateTaskLabels _ _ labels _ =>
      if labels.all validTaskLabels.contains then some q.failing else none
    | _ => some q.failing
  failing.bind fun failing =>
    (q.store.start TaskStatement.meaning session stmt).map fun store =>
      { q with store, failing }

def Queue.step (q : Queue) : QueueAction → Option (Queue × QueueAnswer)
  | .createTask taskId task now =>
    if taskId ∈ q.drawn then none
    else if task.dependsOn.any fun d => !q.rows.any (·.taskId = d) then none
    else
      (q.store.insert (task.row taskId now)).map fun store =>
        ({ q with store, drawn := taskId :: q.drawn }, .none)
  | .start session stmt => (q.startStatement session stmt).map fun q => (q, .none)
  | .visit session shared =>
    (q.store.visit TaskStatement.meaning session shared).map fun store =>
      ({ q with store }, .none)
  | .commit session =>
    (q.store.commit session).map fun r =>
      ({ q with
          store := r.1
          failing := match r.2.stmt with
            | .markTaskFailed taskId .. => taskId :: q.failing
            | _ => q.failing },
        r.2.stmt.answer r.2.writes)
  | .abort session => some ({ q with store := q.store.abort session }, .none)
  | .bulkDeleteTasks taskIds userId =>
    (q.delete fun t => taskIds.contains t.taskId && t.userId = userId).map fun q => (q, .none)
  | .pruneTasks before =>
    (q.delete fun t => t.status.isTerminal && t.createdAt < before).map fun q => (q, .none)
  | .givesUp taskId => some ({ q with failing := q.failing.erase taskId }, .none)

def queue : Machine Queue QueueAction QueueAnswer where
  step q a := q.step a

abbrev QueueStep := Machine.Entry Queue QueueAction QueueAnswer

/-! ## What a statement does to a row -/

section
variable {stmt : TaskStatement} {snapshot : List TaskRow} {t : TaskRow}

@[simp] theorem set_taskId : ((stmt.meaning snapshot).set t).taskId = t.taskId :=
  (stmt.meaning snapshot).keeps t

@[simp] theorem set_dependsOn :
    ((stmt.meaning snapshot).set t).dependsOn = t.dependsOn := by
  cases stmt <;> rfl

/-- No statement queues a task. -/
theorem queued_of_set (h : ((stmt.meaning snapshot).set t).status = .queued) :
    t.status = .queued := by
  cases stmt with
  | markTaskRunning | updateTaskTags | updateTaskLabels | bulkTagTasks => exact h
  | _ => cases h

end

/-! ## What a step can do -/

/-- What is left to be failed once a statement has started. -/
inductive Owes (q : Queue) : TaskStatement → List String → Prop
  | dependents {d : String} {now : Nat} (owed : d ∈ q.failing) :
      Owes q (.failDependentTasks d now) (q.failing.erase d)
  | same {stmt : TaskStatement} (other : ∀ d now, stmt ≠ .failDependentTasks d now) :
      Owes q stmt q.failing

inductive QueueMove (q : Queue) : QueueAction → Queue → QueueAnswer → Prop
  | created {taskId : String} {task : NewTask} {now : Nat} {store : TaskStore}
      (fresh : taskId ∉ q.drawn)
      (insert : q.store.insert (task.row taskId now) = some store) :
      QueueMove q (.createTask taskId task now)
        { q with store, drawn := taskId :: q.drawn } .none
  | started {session : Nat} {stmt : TaskStatement} {failing : List String}
      {store : TaskStore} (owes : Owes q stmt failing)
      (start : q.store.start TaskStatement.meaning session stmt = some store) :
      QueueMove q (.start session stmt) { q with store, failing } .none
  | visited {session : Nat} {shared : Bool} {store : TaskStore}
      (visit : q.store.visit TaskStatement.meaning session shared = some store) :
      QueueMove q (.visit session shared) { q with store } .none
  | committed {session : Nat} {store : TaskStore} {t : TaskSession}
      (commit : q.store.commit session = some (store, t)) :
      QueueMove q (.commit session)
        { q with
          store
          failing := match t.stmt with
            | .markTaskFailed taskId .. => taskId :: q.failing
            | _ => q.failing }
        (t.stmt.answer t.writes)
  | aborted {session : Nat} :
      QueueMove q (.abort session) { q with store := q.store.abort session } .none
  | deleted {a : QueueAction} {gone : TaskRow → Bool} {q' : Queue}
      (notCreate : ∀ taskId task now, a ≠ .createTask taskId task now)
      (notCommit : ∀ session, a ≠ .commit session)
      (delete : q.delete gone = some q') : QueueMove q a q' .none
  | gaveUp {taskId : String} :
      QueueMove q (.givesUp taskId) { q with failing := q.failing.erase taskId } .none

theorem startStatement_owes {q q' : Queue} {session : Nat} {stmt : TaskStatement}
    (h : q.startStatement session stmt = some q') : ∃ failing store, Owes q stmt failing ∧
      q.store.start TaskStatement.meaning session stmt = some store ∧
      q' = { q with store, failing } := by
  obtain ⟨failing, owes, h⟩ := Option.bind_eq_some_iff.mp h
  obtain ⟨store, start, rfl⟩ := Option.map_eq_some_iff.mp h
  refine ⟨failing, store, ?_, start, rfl⟩
  split at owes
  · obtain ⟨owed, same⟩ := Option.ite_none_right_eq_some.mp owes
    cases same
    exact .dependents owed
  · obtain ⟨-, same⟩ := Option.ite_none_right_eq_some.mp owes
    cases same
    exact .same nofun
  · next other _ =>
    cases owes
    exact .same other

theorem queue_moves {q q' : Queue} {a : QueueAction} {answer : QueueAnswer}
    (h : q.step a = some (q', answer)) : QueueMove q a q' answer := by
  cases a with
  | createTask taskId task now =>
    obtain ⟨fresh, h⟩ := Option.ite_none_left_eq_some.mp h
    obtain ⟨-, h⟩ := Option.ite_none_left_eq_some.mp h
    obtain ⟨store, insert, same⟩ := Option.map_eq_some_iff.mp h
    cases same
    exact .created fresh insert
  | start session stmt =>
    obtain ⟨_, started, same⟩ := Option.map_eq_some_iff.mp h
    obtain ⟨failing, store, owes, start, rfl⟩ := startStatement_owes started
    cases same
    exact .started owes start
  | visit session shared =>
    obtain ⟨store, visit, same⟩ := Option.map_eq_some_iff.mp h
    cases same
    exact .visited visit
  | commit session =>
    obtain ⟨⟨store, t⟩, commit, same⟩ := Option.map_eq_some_iff.mp h
    cases same
    exact .committed commit
  | abort session =>
    cases h
    exact .aborted
  | bulkDeleteTasks taskIds userId =>
    obtain ⟨_, delete, same⟩ := Option.map_eq_some_iff.mp h
    cases same
    exact .deleted nofun nofun delete
  | pruneTasks before =>
    obtain ⟨_, delete, same⟩ := Option.map_eq_some_iff.mp h
    cases same
    exact .deleted nofun nofun delete
  | givesUp taskId =>
    cases h
    exact .gaveUp

/-- A row after a step is an old one, a new task, one whose dependency is gone, or
one that a committed statement has written. -/
inductive RowMove (x : QueueStep) (b : TaskRow) : Prop
  | kept (mem : b ∈ x.before.rows)
  | created {taskId : String} {task : NewTask} {now : Nat}
      (input : x.input = .createTask taskId task now) (fresh : taskId ∉ x.before.drawn)
      (same : b = task.row taskId now)
  | freed {a g : TaskRow} (mem : a ∈ x.before.rows) (gone : g ∈ x.before.rows)
      (absent : ∀ r ∈ x.after.rows, r.taskId ≠ g.taskId)
      (refers : a.dependsOn = some g.taskId) (same : b = { a with dependsOn := none })
  | written {t : TaskSession} {a : TaskRow} (input : x.input = .commit t.id)
      (session : t ∈ x.before.store.sessions.rows) (mem : a ∈ x.before.rows)
      (write : a.taskId ∈ t.writes.map (·.taskId))
      (guard : (t.stmt.meaning t.snapshot).guard a = true)
      (same : b = (t.stmt.meaning t.snapshot).set a)

structure Queue.WellFormed (q : Queue) : Prop where
  store : q.store.Consistent TaskStatement.meaning
  drawn : ∀ r ∈ q.rows, r.taskId ∈ q.drawn

theorem delete_spec {q q' : Queue} {gone : TaskRow → Bool} (h : q.delete gone = some q') :
    (q.store.Consistent TaskStatement.meaning →
        q'.store.Consistent TaskStatement.meaning) ∧
      q'.drawn = q.drawn ∧ q'.failing = q.failing ∧
      q'.store.sessions = q.store.sessions ∧
      (∀ g ∈ q.rows, gone g = true → ∀ r ∈ q'.rows, r.taskId ≠ g.taskId) ∧
      ∀ b ∈ q'.rows, b ∈ q.rows ∨ ∃ a ∈ q.rows, ∃ g ∈ q.rows, gone g = true ∧
        a.dependsOn = some g.taskId ∧ b = { a with dependsOn := none } := by
  obtain ⟨store, deleted, rfl⟩ := Option.map_eq_some_iff.mp h
  obtain ⟨sessions, rows, -⟩ := Store.delete_eq_some deleted
  refine ⟨Store.consistent_delete deleted, rfl, rfl, sessions, ?_, ?_⟩
  · intro g hg hit r hr same
    have hr : r ∈ store.rows.rows := hr
    rw [rows] at hr
    obtain ⟨a, ha, rfl⟩ := List.mem_map.mp hr
    obtain ⟨mem, stays⟩ := List.mem_filter.mp ha
    have same : a.taskId = g.taskId := by
      split at same <;> exact same
    rw [q.store.rows.eq_of_key mem hg same, hit] at stays
    cases stays
  · intro b hb
    have hb : b ∈ store.rows.rows := hb
    rw [rows] at hb
    obtain ⟨a, ha, rfl⟩ := List.mem_map.mp hb
    obtain ⟨mem, -⟩ := List.mem_filter.mp ha
    split
    · next refers =>
      obtain ⟨g, hg, hit⟩ := List.any_eq_true.mp refers
      rw [Bool.and_eq_true, decide_eq_true_eq] at hit
      exact .inr ⟨a, mem, g, hg, hit.1, hit.2, rfl⟩
    · exact .inl mem

theorem rowMove_of_step {x : QueueStep} (h : queue.Steps x) (c : x.before.WellFormed)
    {b : TaskRow} (hb : b ∈ x.after.rows) : RowMove x b := by
  obtain ⟨q, a, answer, q'⟩ := x
  have moves : QueueMove q a q' answer := queue_moves h
  cases moves with
  | created fresh insert =>
    obtain ⟨rows, inserted, rfl⟩ := Option.map_eq_some_iff.mp insert
    rcases Table.of_mem_insert inserted hb with same | old
    · exact .created rfl fresh same
    · exact .kept old
  | started owes start =>
    obtain ⟨_, -, rfl⟩ := Option.map_eq_some_iff.mp start
    exact .kept hb
  | @visited _ _ store visit =>
    have hb : b ∈ store.rows.rows := hb
    rw [Store.visit_rows visit] at hb
    exact .kept hb
  | @committed session store t commit =>
    obtain ⟨mem, rfl, -, -⟩ := Store.commit_sessions commit
    rcases Store.of_mem_commit commit c.store hb with ⟨old, -⟩ | ⟨a, ha, write, guard, same⟩
    · exact .kept old
    · exact .written rfl mem ha write guard same
  | aborted => exact .kept hb
  | deleted _ _ delete =>
    obtain ⟨-, -, -, -, absent, rows⟩ := delete_spec delete
    rcases rows b hb with old | ⟨a, ha, g, hg, hit, refers, same⟩
    · exact .kept old
    · exact .freed ha hg (absent g hg hit) refers same
  | gaveUp => exact .kept hb

theorem drawn_mono {x : QueueStep} (h : queue.Steps x) : x.before.drawn ⊆ x.after.drawn := by
  obtain ⟨q, a, answer, q'⟩ := x
  have moves : QueueMove q a q' answer := queue_moves h
  cases moves with
  | created => exact List.subset_cons_self _ _
  | deleted _ _ delete => rw [(delete_spec delete).2.1]; exact List.Subset.refl _
  | _ => exact List.Subset.refl _

/-- The id of a new task is drawn in the step that inserts it. -/
theorem created_drawn {x : QueueStep} (h : queue.Steps x) {taskId : String} {task : NewTask}
    {now : Nat} (input : x.input = .createTask taskId task now) :
    taskId ∉ x.before.drawn ∧ taskId ∈ x.after.drawn := by
  obtain ⟨q, a, answer, q'⟩ := x
  have moves : QueueMove q a q' answer := queue_moves h
  cases moves with
  | created fresh =>
    cases input
    exact ⟨fresh, List.mem_cons_self⟩
  | deleted notCreate => exact absurd input (notCreate _ _ _)
  | _ => cases input

theorem wellFormed_of_step {x : QueueStep} (h : queue.Steps x) (c : x.before.WellFormed) :
    x.after.WellFormed := by
  refine ⟨?_, ?_⟩
  · obtain ⟨q, a, answer, q'⟩ := x
    have moves : QueueMove q a q' answer := queue_moves h
    cases moves with
    | created fresh insert => exact Store.consistent_insert insert c.store
    | started owes start => exact Store.consistent_start start c.store
    | visited visit => exact Store.consistent_visit visit c.store
    | committed commit => exact Store.consistent_commit commit c.store
    | aborted => exact Store.consistent_abort _ c.store
    | deleted _ _ delete => exact (delete_spec delete).1 c.store
    | gaveUp => exact c.store
  · intro b hb
    cases rowMove_of_step h c hb with
    | kept mem => exact drawn_mono h (c.drawn b mem)
    | created input fresh same =>
      rw [same]
      exact (created_drawn h input).2
    | @freed a g mem _ _ _ same =>
      rw [same]
      exact drawn_mono h (c.drawn a mem)
    | @written t a _ _ mem _ _ same =>
      rw [same, set_taskId]
      exact drawn_mono h (c.drawn a mem)

theorem wellFormed_empty : Queue.empty.WellFormed where
  store :=
    { writes := fun _ h => absurd h List.not_mem_nil
      exclusive := fun _ h => absurd h List.not_mem_nil }
  drawn _ h := absurd h List.not_mem_nil

/-! ## Claiming a task once -/

/-- `claim_next_queued_task` returns the task. -/
def Claims (taskId : String) (x : QueueStep) : Prop :=
  ∃ t, x.label = .claimed (some t) ∧ t.taskId = taskId

/-- The task was queued and will not be again. -/
def Taken (taskId : String) (q : Queue) : Prop :=
  taskId ∈ q.drawn ∧ ∀ r ∈ q.rows, r.taskId = taskId → r.status ≠ .queued

theorem taken_of_step {x : QueueStep} {taskId : String} (h : queue.Steps x)
    (c : x.before.WellFormed) (taken : Taken taskId x.before) : Taken taskId x.after := by
  refine ⟨drawn_mono h taken.1, fun b hb at_id queued => ?_⟩
  cases rowMove_of_step h c hb with
  | kept mem => exact taken.2 b mem at_id queued
  | @created id task now _ fresh same =>
    rw [same] at at_id
    rw [show id = taskId from at_id] at fresh
    exact fresh taken.1
  | @freed a g mem _ _ _ same =>
    rw [same] at at_id queued
    exact taken.2 a mem at_id queued
  | @written t a _ _ mem _ _ same =>
    rw [same] at at_id queued
    exact taken.2 a mem (set_taskId ▸ at_id) (queued_of_set queued)

/-- The statements that take a task off the queue. -/
def TaskStatement.takes : TaskStatement → Bool
  | .claimNextQueuedTask .. | .markTaskCancelled .. => true
  | _ => false

theorem queued_of_takes {stmt : TaskStatement} {snapshot : List TaskRow} {a : TaskRow}
    (takes : stmt.takes = true) (guard : (stmt.meaning snapshot).guard a = true) :
    a.status = .queued ∧ ((stmt.meaning snapshot).set a).status ≠ .queued := by
  cases stmt with
  | claimNextQueuedTask =>
    simp only [TaskStatement.meaning, Bool.and_eq_true, decide_eq_true_eq] at guard
    exact ⟨guard.1.1, TaskStatus.noConfusion⟩
  | markTaskCancelled =>
    simp only [TaskStatement.meaning, plainUpdate, Bool.and_eq_true, decide_eq_true_eq] at guard
    exact ⟨guard.2, TaskStatus.noConfusion⟩
  | _ => cases takes

/-- A claim or a cancellation that is answered has written the task. -/
theorem wrote_of_answer {stmt : TaskStatement} {q : Queue} {t : TaskSession} {taskId : String}
    (c : q.WellFormed) (session : t ∈ q.store.sessions.rows) (same : t.stmt = stmt)
    (answered : (∃ r, stmt.answer t.writes = .claimed (some r) ∧ r.taskId = taskId) ∨
      stmt.answer t.writes = .cancelled taskId true) :
    stmt.takes = true ∧ ∃ w ∈ t.writes, w.taskId = taskId := by
  cases stmt with
  | claimNextQueuedTask =>
    rcases answered with ⟨r, claimed, at_id⟩ | cancelled
    · cases head : t.writes with
      | nil => rw [head] at claimed; cases claimed
      | cons w rest =>
        rw [head] at claimed
        cases claimed
        exact ⟨rfl, _, List.mem_cons_self, at_id⟩
    · cases cancelled
  | markTaskCancelled id userId now =>
    rcases answered with ⟨r, claimed, -⟩ | cancelled
    · cases claimed
    · simp only [TaskStatement.answer, QueueAnswer.cancelled.injEq, decide_eq_true_eq] at cancelled
      obtain ⟨rfl, one⟩ := cancelled
      obtain ⟨w, hw⟩ := List.exists_mem_of_length_pos (l := t.writes) (by omega)
      obtain ⟨a, -, guard, rfl⟩ := c.store.writes t session w hw
      refine ⟨rfl, _, hw, ?_⟩
      rw [Store.update, same] at guard ⊢
      simp only [TaskStatement.meaning, plainUpdate, Bool.and_eq_true, decide_eq_true_eq] at guard
      exact guard.1.1
  | reapStuckTasks | reapStaleRunningTasks =>
    by_cases none : t.writes = [] <;> simp [TaskStatement.answer, none] at answered
  | _ => simp [TaskStatement.answer] at answered

/-- A step that claims or cancels a task has found it queued, and leaves it in another
status. -/
theorem queued_of_taking {x : QueueStep} {taskId : String} (h : queue.Steps x)
    (c : x.before.WellFormed) (takes : Claims taskId x ∨ x.label = .cancelled taskId true) :
    ∃ a ∈ x.before.rows, a.taskId = taskId ∧ a.status = .queued ∧
      ∃ b ∈ x.after.rows, b.taskId = taskId ∧ b.status ≠ .queued := by
  obtain ⟨q, action, answer, q'⟩ := x
  have moves : QueueMove q action q' answer := queue_moves h
  cases moves with
  | @committed session store t commit =>
    obtain ⟨mem, -⟩ := Store.commit_sessions commit
    obtain ⟨takes, w, hw, at_id⟩ := wrote_of_answer c mem rfl takes
    obtain ⟨a, ha, guard, rfl⟩ := c.store.writes t mem w hw
    obtain ⟨queued, left⟩ := queued_of_takes takes guard
    have same : a.taskId = taskId := (@set_taskId t.stmt _ _).symm.trans at_id
    have written : a.taskId ∈ t.writes.map (·.taskId) :=
      List.mem_map.mpr ⟨_, hw, at_id.trans same.symm⟩
    exact ⟨a, ha, same, queued, _, Store.mem_commit_of_written commit c.store ha written,
      at_id, left⟩
  | _ => rcases takes with ⟨_, claimed, -⟩ | cancelled <;> contradiction

theorem taken_of_taking {x : QueueStep} {taskId : String} (h : queue.Steps x)
    (c : x.before.WellFormed) (takes : Claims taskId x ∨ x.label = .cancelled taskId true) :
    Taken taskId x.after := by
  obtain ⟨a, ha, at_id, -, b, hb, at_id', left⟩ := queued_of_taking h c takes
  refine ⟨at_id' ▸ (wellFormed_of_step h c).drawn b hb, fun r hr same => ?_⟩
  rw [x.after.store.rows.eq_of_key hr hb (same.trans at_id'.symm)]
  exact left

theorem not_taking_of_taken {x : QueueStep} {taskId : String} (h : queue.Steps x)
    (c : x.before.WellFormed) (taken : Taken taskId x.before) :
    ¬ (Claims taskId x ∨ x.label = .cancelled taskId true) := by
  intro takes
  obtain ⟨a, ha, at_id, queued, -⟩ := queued_of_taking h c takes
  exact taken.2 a ha at_id queued

/-- In every interleaving of the statements, a task that a claim has returned is
returned by no later claim and its cancellation returns `False`, and a task whose
cancellation has returned `True` is returned by no later claim. -/
theorem claimed_once (actions : List QueueAction) (taskId : String) :
    Machine.Since (Claims taskId)
        (fun x => ¬ Claims taskId x ∧
          ∀ done, x.label = .cancelled taskId done → done = false)
        (queue.run .empty actions) ∧
      Machine.Since (fun x => x.label = .cancelled taskId true) (fun x => ¬ Claims taskId x)
        (queue.run .empty actions) := by
  have since : Machine.Since
      (fun x => Claims taskId x ∨ x.label = .cancelled taskId true)
      (fun x => ¬ (Claims taskId x ∨ x.label = .cancelled taskId true))
      (queue.run .empty actions) :=
    Machine.since_of_invariant (R := fun _ => True) (fun _ step c => wellFormed_of_step step c)
      (fun _ step c takes => taken_of_taking step c takes)
      (fun _ step c taken _ => ⟨not_taking_of_taken step c taken, taken_of_step step c taken⟩)
      wellFormed_empty fun _ _ => trivial
  refine ⟨?_, ?_⟩
  · refine since.imp fun {x y} later claims => ?_
    have later := later (.inl claims)
    refine ⟨fun again => later (.inl again), fun done answered => ?_⟩
    cases done with
    | false => rfl
    | true => exact absurd (.inr answered) later
  · exact since.imp fun {x y} later cancelled claims => later (.inr cancelled) (.inl claims)

end LegionForge.Gateway
