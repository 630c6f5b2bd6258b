import LegionForge.Gateway.TaskQueue

/-!
# Ended tasks

A task that is complete, failed or cancelled is to stay as it is. Cancellation,
reaping and the failing of dependents ask for the status they end; the three
functions `run_task` ends with, `mark_task_complete`, `mark_task_failed` and
`mark_task_paused`, only ask for the id. So a worker whose task was reaped under
it, or that raises after it has completed its task, writes over the end of it.
`ended_stays_iff` says that this is all that can happen.
-/

namespace LegionForge.Gateway

/-- What a task has ended with. -/
structure Ending where
  status : TaskStatus
  result : Option String
  error : Option String
  deriving DecidableEq

def TaskRow.ending (t : TaskRow) : Ending := ⟨t.status, t.result, t.error⟩

/-- The step leaves the tasks that have ended as they are, or deletes them. -/
def KeepsEnded (x : QueueStep) : Prop :=
  ∀ a ∈ x.before.rows, a.status.isTerminal = true →
    ∀ b ∈ x.after.rows, b.taskId = a.taskId → b.ending = a.ending

/-- The row is what the statement would make of it. -/
def Repeats (stmt : TaskStatement) (a : TaskRow) : Prop :=
  match stmt with
  | .markTaskComplete _ result .. => a.status = .complete ∧ a.result = some result
  | .markTaskFailed _ error _ => a.status = .failed ∧ a.error = some error
  | .markTaskPaused .. => False
  | _ => True

/-- Where the step commits one of the three functions on a task that has ended, the task
has ended in just the way that is written. -/
def EndsOpen (x : QueueStep) : Prop :=
  ∀ t ∈ x.before.store.sessions.rows, x.input = .commit t.id →
    ∀ a ∈ x.before.rows, a.taskId ∈ t.writes.map (·.taskId) →
      a.status.isTerminal = true → Repeats t.stmt a

/-- A statement that finds an ended task leaves its end alone, exactly when it repeats
it. -/
theorem ending_set_iff {stmt : TaskStatement} {snapshot : List TaskRow} {a : TaskRow}
    (guard : (stmt.meaning snapshot).guard a = true) (ended : a.status.isTerminal = true) :
    ((stmt.meaning snapshot).set a).ending = a.ending ↔ Repeats stmt a := by
  cases stmt with
  | markTaskComplete id result =>
    simp [TaskStatement.meaning, plainUpdate, TaskRow.ending, TaskRow.ended, Repeats, eq_comm]
  | markTaskFailed id error =>
    simp [TaskStatement.meaning, plainUpdate, TaskRow.ending, TaskRow.ended, Repeats, eq_comm]
  | markTaskPaused id =>
    have other : a.status ≠ .paused := by
      intro paused
      rw [paused] at ended
      cases ended
    simp [TaskStatement.meaning, plainUpdate, TaskRow.ending, Repeats, other.symm]
  | markTaskRunning | updateTaskTags | updateTaskLabels | bulkTagTasks =>
    exact ⟨fun _ => trivial, fun _ => rfl⟩
  | _ =>
    -- the other statements find queued or running tasks only
    have live : a.status = .queued ∨ a.status = .running := by
      simp only [TaskStatement.meaning, plainUpdate, Bool.and_eq_true, decide_eq_true_eq] at guard
      tauto
    rcases live with live | live <;> rw [live] at ended <;> cases ended

theorem keepsEnded_iff_of_step {x : QueueStep} (h : queue.Steps x)
    (c : x.before.WellFormed) : KeepsEnded x ↔ EndsOpen x := by
  refine ⟨?_, ?_⟩
  · intro keeps t session input a ha write ended
    obtain ⟨q, action, answer, q'⟩ := x
    have moves : QueueMove q action q' answer := queue_moves h
    cases moves with
    | @committed id store u commit =>
      obtain ⟨mem, at_id, -⟩ := Store.commit_sessions commit
      cases input
      have same : u = t := q.store.sessions.eq_of_key mem session at_id
      rw [same] at commit
      have guard := (Store.commit_rows commit c.store).2 a ha write
      have after := keeps a ha ended _
        (Store.mem_commit_of_written commit c.store ha write) set_taskId
      exact (ending_set_iff guard ended).mp after
    | deleted _ notCommit => exact absurd input (notCommit _)
    | _ => cases input
  · intro opens a ha ended b hb at_id
    cases rowMove_of_step h c hb with
    | kept mem => rw [x.before.store.rows.eq_of_key mem ha at_id]
    | @created id task now _ fresh same =>
      rw [same] at at_id
      rw [show id = a.taskId from at_id] at fresh
      exact absurd (c.drawn a ha) fresh
    | @freed a' g mem _ _ _ same =>
      rw [same] at at_id ⊢
      rw [← x.before.store.rows.eq_of_key mem ha at_id]
      rfl
    | @written t a' input session mem write guard same =>
      rw [same, set_taskId] at at_id
      have here := x.before.store.rows.eq_of_key mem ha at_id
      rw [here] at write guard same
      rw [same]
      exact (ending_set_iff guard ended).mpr (opens t session input a ha write ended)

/-- In every interleaving of the statements: a step leaves the ended tasks as they are
exactly when it ends open ones; and where all steps do, what a task has ended with is
what it stays with. -/
theorem ended_stays_iff (actions : List QueueAction) :
    (∀ x ∈ queue.run .empty actions, KeepsEnded x ↔ EndsOpen x) ∧
      ((∀ x ∈ queue.run .empty actions, EndsOpen x) →
        ∀ taskId (e : Ending), e.status.isTerminal = true →
          Machine.Since
            (fun x => ∃ a ∈ x.after.rows, a.taskId = taskId ∧ a.ending = e)
            (fun y => ∀ b ∈ y.after.rows, b.taskId = taskId → b.ending = e)
            (queue.run .empty actions)) := by
  refine ⟨?_, ?_⟩
  · intro x hx
    obtain ⟨step, c, -⟩ := Machine.run_invariant
      (fun _ step c => wellFormed_of_step step c) wellFormed_empty x hx
    exact keepsEnded_iff_of_step step c
  · intro opens taskId e terminal
    refine Machine.since_of_invariant (R := EndsOpen)
      (J := fun q => taskId ∈ q.drawn ∧ ∀ b ∈ q.rows, b.taskId = taskId → b.ending = e)
      (fun _ step c => wellFormed_of_step step c) ?_ ?_ wellFormed_empty opens
    · rintro x step c ⟨a, ha, rfl, rfl⟩
      refine ⟨(wellFormed_of_step step c).drawn a ha, fun b hb same => ?_⟩
      rw [x.after.store.rows.eq_of_key hb ha same]
    · rintro x step c ⟨drawn, stays⟩ ok
      suffices kept : ∀ b ∈ x.after.rows, b.taskId = taskId → b.ending = e from
        ⟨kept, drawn_mono step drawn, kept⟩
      intro b hb at_id
      have keeps := (keepsEnded_iff_of_step step c).mpr ok
      -- a row with the id that is not new was there before, ended
      have before : ∃ a ∈ x.before.rows, a.taskId = taskId := by
        cases rowMove_of_step step c hb with
        | kept mem => exact ⟨b, mem, at_id⟩
        | @created id task now _ fresh same =>
          rw [same] at at_id
          rw [show id = taskId from at_id] at fresh
          exact absurd drawn fresh
        | @freed a g mem _ _ _ same =>
          rw [same] at at_id
          exact ⟨a, mem, at_id⟩
        | @written t a _ _ mem _ _ same =>
          rw [same, set_taskId] at at_id
          exact ⟨a, mem, at_id⟩
      obtain ⟨a, ha, at_id'⟩ := before
      have ending := stays a ha at_id'
      rw [keeps a ha (by rw [← ending] at terminal; exact terminal) b hb
        (at_id.trans at_id'.symm), ending]

/-! ## A task reaped under its worker -/

def sampleTask : NewTask where
  userId := "user-1"
  agentType := "researcher"
  input := "report"
  priority := 5
  tags := []
  dependsOn := none

/-- A worker claims the task, a process that starts under the same node id reaps it,
and the worker completes it. -/
def reapedRun : List QueueAction :=
  [.createTask "task-1" sampleTask 0,
    .start 0 (.claimNextQueuedTask (some "node-1") 1), .visit 0 false, .commit 0,
    .start 1 (.reapStaleRunningTasks "node-1" 2), .visit 1 false, .commit 1,
    .start 0 (.markTaskComplete "task-1" "report" (some 3) "" 3), .visit 0 false, .commit 0]

theorem reaped_task_completed :
    ∃ x ∈ queue.run .empty reapedRun,
      (∃ a ∈ x.before.rows, a.taskId = "task-1" ∧ a.status = .failed) ∧
        ∃ b ∈ x.after.rows, b.taskId = "task-1" ∧ b.status = .complete := by
  decide +kernel

end LegionForge.Gateway
