import LegionForge.Gateway.TaskQueue

/-!
# Task dependencies

A task that depends on another is claimed only when the claim's snapshot has the
other complete. The foreign key sets the dependency to null when the other task
is deleted, and then the task runs as if it had none.

When `run_task` fails a task it goes on to fail the queued tasks that depend on
it. Nothing else that ends a task does, and the tasks that are failed this way do
not fail their own dependents, so a queued task can be left behind one that will
never complete. `Propagates` excludes the steps that leave one there.
-/

namespace LegionForge.Gateway

/-! ## Running after the dependency -/

/-- The task is submitted with a dependency. -/
def Submits (taskId d : String) (y : QueueStep) : Prop :=
  ∃ task now, y.input = .createTask taskId task now ∧ task.dependsOn = some d

/-- The task is complete before the step. -/
def CompleteAt (d : String) (y : QueueStep) : Prop :=
  ∃ r ∈ y.before.rows, r.taskId = d ∧ r.status = .complete

def Deletes (d : String) (y : QueueStep) : Prop :=
  (∃ g ∈ y.before.rows, g.taskId = d) ∧ ∀ r ∈ y.after.rows, r.taskId ≠ d

def BecomesRunning (taskId : String) (x : QueueStep) : Prop :=
  (∃ a ∈ x.before.rows, a.taskId = taskId ∧ a.status ≠ .running) ∧
    ∃ b ∈ x.after.rows, b.taskId = taskId ∧ b.status = .running

/-- What the past says about the dependencies and snapshots of a queue. -/
structure Traced (past : List QueueStep) (q : Queue) : Prop where
  wellFormed : q.WellFormed
  drawn : ∀ y ∈ past, ∀ taskId d, Submits taskId d y → taskId ∈ q.drawn
  /-- A task has the dependency it was submitted with until that is deleted. -/
  depends : ∀ r ∈ q.rows, ∀ d, (∃ y ∈ past, Submits r.taskId d y) →
    r.dependsOn = some d ∨ ∃ y ∈ past, Deletes d y
  /-- A snapshot is a state of the past. -/
  seen : ∀ t ∈ q.store.sessions.rows, ∀ r ∈ t.snapshot, ∃ y ∈ past, r ∈ y.before.rows

theorem traced_seen {past : List QueueStep} {x : QueueStep} (h : queue.Steps x)
    (traced : Traced past x.before) :
    ∀ t ∈ x.after.store.sessions.rows, ∀ r ∈ t.snapshot,
      ∃ y ∈ past ++ [x], r ∈ y.before.rows := by
  have older : ∀ t ∈ x.before.store.sessions.rows, ∀ r ∈ t.snapshot,
      ∃ y ∈ past ++ [x], r ∈ y.before.rows := by
    intro t ht r hr
    obtain ⟨y, hy, mem⟩ := traced.seen t ht r hr
    exact ⟨y, List.mem_append_left _ hy, mem⟩
  obtain ⟨q, a, answer, q'⟩ := x
  have moves : QueueMove q a q' answer := queue_moves h
  intro t ht r hr
  cases moves with
  | created _ insert =>
    obtain ⟨_, -, rfl⟩ := Option.map_eq_some_iff.mp insert
    exact older t ht r hr
  | started _ start =>
    obtain ⟨sessions, inserted, rfl⟩ := Option.map_eq_some_iff.mp start
    rcases Table.of_mem_insert inserted ht with rfl | old
    · exact ⟨_, List.mem_append_right _ (List.mem_singleton_self _), hr⟩
    · exact older t old r hr
  | visited visit =>
    rcases Store.of_mem_visit visit ht with ⟨old, -⟩ | ⟨u, hu, -, k, rest, -, ⟨-, rfl⟩ | rfl⟩
    · exact older t old r hr
    · exact older u hu r hr
    · rw [(Store.visited_same _ u).2.2] at hr
      exact older u hu r hr
  | committed commit =>
    have ht : t ∈ Table.rows _ := ht
    rw [(Store.commit_sessions commit).2.2.2] at ht
    exact older t (Store.mem_discard ht).1 r hr
  | aborted => exact older t (Store.mem_discard ht).1 r hr
  | deleted _ _ delete =>
    have ht : t ∈ Table.rows _ := ht
    rw [(delete_spec delete).2.2.2.1] at ht
    exact older t ht r hr
  | gaveUp => exact older t ht r hr

theorem traced_of_step {past : List QueueStep} {x : QueueStep} (h : queue.Steps x)
    (traced : Traced past x.before) : Traced (past ++ [x]) x.after where
  wellFormed := wellFormed_of_step h traced.wellFormed
  seen := traced_seen h traced
  drawn := by
    intro y hy taskId d submits
    rcases List.mem_append.mp hy with old | new
    · exact drawn_mono h (traced.drawn y old taskId d submits)
    · rw [List.mem_singleton.mp new] at submits
      obtain ⟨task, now, input, -⟩ := submits
      exact (created_drawn h input).2
  depends := by
    intro b hb d submitted
    -- what was true of the row before, if it was submitted before
    have before : ∀ a ∈ x.before.rows, a.taskId = b.taskId →
        a.dependsOn = some d ∨ ∃ y ∈ past ++ [x], Deletes d y := by
      intro a ha same
      obtain ⟨y, hy, submits⟩ := submitted
      rcases List.mem_append.mp hy with old | new
      · rw [← same] at submits
        rcases traced.depends a ha d ⟨y, old, submits⟩ with kept | ⟨z, hz, deletes⟩
        · exact .inl kept
        · exact .inr ⟨z, List.mem_append_left _ hz, deletes⟩
      · rw [List.mem_singleton.mp new] at submits
        obtain ⟨task, now, input, -⟩ := submits
        rw [← same] at input
        exact absurd (traced.wellFormed.drawn a ha) (created_drawn h input).1
    cases rowMove_of_step h traced.wellFormed hb with
    | kept mem => exact before b mem rfl
    | @created id task now input fresh same =>
      obtain ⟨y, hy, submits⟩ := submitted
      rcases List.mem_append.mp hy with old | new
      · rw [same] at submits
        exact absurd (traced.drawn y old _ d submits) fresh
      · rw [List.mem_singleton.mp new] at submits
        obtain ⟨task', now', input', depends⟩ := submits
        rw [input] at input'
        cases input'
        rw [same]
        exact .inl depends
    | @freed a g mem gone absent refers same =>
      rcases before a mem (by rw [same]) with kept | deletes
      · rw [refers] at kept
        cases kept
        exact .inr ⟨x, List.mem_append_right _ (List.mem_singleton_self _),
          ⟨g, gone, rfl⟩, absent⟩
      · exact .inr deletes
    | @written t a _ _ mem _ _ same =>
      rw [same, set_dependsOn]
      exact before a mem (by rw [same, set_taskId])

/-- Only a claim has a task run. -/
theorem running_of_set {stmt : TaskStatement} {snapshot : List TaskRow} {a : TaskRow}
    (guard : (stmt.meaning snapshot).guard a = true)
    (runs : ((stmt.meaning snapshot).set a).status = .running) :
    a.status = .running ∨ dependencyComplete snapshot a = true := by
  cases stmt with
  | claimNextQueuedTask =>
    simp only [TaskStatement.meaning, Bool.and_eq_true] at guard
    exact .inr guard.1.2
  | markTaskRunning | updateTaskTags | updateTaskLabels | bulkTagTasks => exact .inl runs
  | _ => cases runs

/-- A task that was submitted with a dependency becomes running only after that was
complete or deleted. -/
theorem complete_of_becomesRunning {past : List QueueStep} {x : QueueStep}
    {taskId d : String} (h : queue.Steps x) (traced : Traced past x.before)
    (runs : BecomesRunning taskId x) (submitted : ∃ y ∈ past, Submits taskId d y) :
    (∃ y ∈ past, CompleteAt d y) ∨ ∃ y ∈ past, Deletes d y := by
  obtain ⟨⟨a, ha, at_a, idle⟩, b, hb, at_b, running⟩ := runs
  -- another row with the id is the row itself
  have only : ∀ r ∈ x.before.rows, r.taskId = b.taskId → r = a := fun r hr same =>
    x.before.store.rows.eq_of_key hr ha (same.trans (at_b.trans at_a.symm))
  cases rowMove_of_step h traced.wellFormed hb with
  | kept mem =>
    rw [only b mem rfl] at running
    exact absurd running idle
  | @created id task now _ _ same =>
    rw [same] at running
    cases running
  | @freed a' g mem _ _ _ same =>
    rw [same] at running
    rw [← only a' mem (by rw [same])] at idle
    exact absurd running idle
  | @written t a' _ session mem _ guard same =>
    rw [same] at running
    rw [← only a' mem (by rw [same, set_taskId])] at idle at_a
    rcases running_of_set guard running with already | complete
    · exact absurd already idle
    · rw [← at_a] at submitted
      rcases traced.depends a' mem d submitted with depends | deletes
      · rw [dependencyComplete, depends] at complete
        obtain ⟨dep, hdep, hit⟩ := List.any_eq_true.mp complete
        rw [Bool.and_eq_true, decide_eq_true_eq, decide_eq_true_eq] at hit
        obtain ⟨y, hy, seen⟩ := traced.seen t session dep hdep
        exact .inl ⟨y, hy, dep, seen, hit.1, hit.2⟩
      · exact .inr deletes

/-! ## Waiting for nothing -/

/-- The task is queued behind one that has failed or was cancelled. -/
def Blocks (r g : TaskRow) : Prop :=
  r.status = .queued ∧ r.dependsOn = some g.taskId ∧
    (g.status = .failed ∨ g.status = .cancelled)

/-- A worker has still to come to the task for the other one, or is at it. -/
def Attended (q : Queue) (r g : TaskRow) : Prop :=
  g.taskId ∈ q.failing ∨ ∃ t ∈ q.store.sessions.rows,
    (∃ now, t.stmt = .failDependentTasks g.taskId now) ∧
      Store.due TaskRow.taskId t r

def Covered (q : Queue) : Prop :=
  ∀ r ∈ q.rows, ∀ g ∈ q.rows, Blocks r g → Attended q r g

/-- No statement is in progress, and no worker has dependents left to fail. -/
def Idle (q : Queue) : Prop := q.store.sessions.rows = [] ∧ q.failing = []

/-- The statements that end tasks unsuccessfully and leave it at that. -/
def TaskStatement.strands : TaskStatement → Bool
  | .failDependentTasks .. | .markTaskCancelled .. | .bulkCancelTasks .. | .reapStuckTasks ..
  | .reapStaleRunningTasks .. => true
  | _ => false

/-- The task has queued dependents. -/
def HasDependents (q : Queue) (taskId : String) : Prop :=
  ∃ r ∈ q.rows, r.status = .queued ∧ r.dependsOn = some taskId

/-- The step strands no queued task: a task is not submitted behind a failed or
cancelled one, what ends a task unsuccessfully and leaves it at that ends its queued
dependents too, and a worker comes to the dependents of a task that has any. -/
structure Propagates (x : QueueStep) : Prop where
  submission : ∀ taskId task now d, x.input = .createTask taskId task now →
    task.dependsOn = some d → ∀ g ∈ x.before.rows, g.taskId = d →
      g.status ≠ .failed ∧ g.status ≠ .cancelled
  ending : ∀ t ∈ x.before.store.sessions.rows, x.input = .commit t.id →
    t.stmt.strands = true → ∀ g ∈ x.before.rows, g.taskId ∈ t.writes.map (·.taskId) →
      ∀ r ∈ x.before.rows, r.status = .queued → r.dependsOn = some g.taskId →
        r.taskId ∈ t.writes.map (·.taskId)
  rollback : ∀ t ∈ x.before.store.sessions.rows, x.input = .abort t.id →
    ∀ d now, t.stmt = .failDependentTasks d now → ¬ HasDependents x.before d
  worker : ∀ d, x.input = .givesUp d → ¬ HasDependents x.before d

theorem covered_created {q : Queue} {taskId : String} {task : NewTask} {now : Nat}
    {store : TaskStore} (covered : Covered q)
    (insert : q.store.insert (task.row taskId now) = some store)
    (live : ∀ d, task.dependsOn = some d → ∀ g ∈ q.rows, g.taskId = d →
      g.status ≠ .failed ∧ g.status ≠ .cancelled) :
    Covered { q with store, drawn := taskId :: q.drawn } := by
  obtain ⟨rows, inserted, rfl⟩ := Option.map_eq_some_iff.mp insert
  intro r hr g hg blocks
  rcases Table.of_mem_insert inserted hg with rfl | hg
  · rcases blocks.2.2 with ended | ended <;> cases ended
  · rcases Table.of_mem_insert inserted hr with rfl | hr
    · obtain ⟨failed, cancelled⟩ := live g.taskId blocks.2.1 g hg rfl
      rcases blocks.2.2 with ended | ended
      · exact absurd ended failed
      · exact absurd ended cancelled
    · exact covered r hr g hg blocks

/-- A statement that fails the dependents of a task finds all that are queued. -/
theorem covered_started {q : Queue} {session : Nat} {stmt : TaskStatement}
    {failing : List String} {store : TaskStore} (covered : Covered q)
    (owes : Owes q stmt failing)
    (start : q.store.start TaskStatement.meaning session stmt = some store) :
    Covered { q with store, failing } := by
  obtain ⟨sessions, inserted, rfl⟩ := Option.map_eq_some_iff.mp start
  intro r hr g hg blocks
  rcases covered r hr g hg blocks with owed | ⟨t, ht, stmt, is_due⟩
  · cases owes with
    | same => exact .inl owed
    | @dependents d now _ =>
      by_cases here : g.taskId = d
      · refine .inr ⟨_, Table.mem_insert_self inserted, ⟨now, by rw [here]⟩, .inl ?_⟩
        refine List.mem_map_of_mem (List.mem_filter.mpr ⟨hr, ?_⟩)
        simp [TaskStatement.meaning, plainUpdate, blocks.1, blocks.2.1, here]
      · exact .inl ((List.mem_erase_of_ne here).mpr owed)
  · exact .inr ⟨t, Table.mem_insert_of_mem inserted ht, stmt, is_due⟩

theorem covered_visited {q : Queue} {session : Nat} {shared : Bool} {store : TaskStore}
    (covered : Covered q)
    (visit : q.store.visit TaskStatement.meaning session shared = some store) :
    Covered { q with store } := by
  intro r hr g hg blocks
  have rows := Store.visit_rows visit
  have hr : r ∈ store.rows.rows := hr
  have hg : g ∈ store.rows.rows := hg
  rw [rows] at hr hg
  rcases covered r hr g hg blocks with owed | ⟨t, ht, ⟨now, stmt⟩, is_due⟩
  · exact .inl owed
  · have guard : (Store.update TaskStatement.meaning t).guard r = true := by
      rw [Store.update, stmt]
      simp [TaskStatement.meaning, plainUpdate, blocks.1, blocks.2.1]
    obtain ⟨u, hu, same, is_due⟩ := Store.exists_due_visit visit ht
      (by rw [Store.update, stmt]; rfl) (by rw [Store.update, stmt]; rfl) hr guard is_due
    exact .inr ⟨u, hu, ⟨now, same.trans stmt⟩, is_due⟩

theorem strands_set {stmt : TaskStatement} {snapshot : List TaskRow} {a : TaskRow}
    (strands : stmt.strands = true) : ((stmt.meaning snapshot).set a).status ≠ .queued := by
  cases stmt with
  | failDependentTasks | markTaskCancelled | bulkCancelTasks | reapStuckTasks
  | reapStaleRunningTasks => exact TaskStatus.noConfusion
  | _ => cases strands

/-- A task that a statement leaves failed or cancelled was that before, or it is
stranded, or `run_task` has marked it failed. -/
theorem ended_of_set {stmt : TaskStatement} {snapshot : List TaskRow} {g : TaskRow}
    (guard : (stmt.meaning snapshot).guard g = true)
    (ended : ((stmt.meaning snapshot).set g).status = .failed ∨
      ((stmt.meaning snapshot).set g).status = .cancelled) :
    (g.status = .failed ∨ g.status = .cancelled) ∨ stmt.strands = true ∨
      ∃ error now, stmt = .markTaskFailed g.taskId error now := by
  cases stmt with
  | failDependentTasks | markTaskCancelled | bulkCancelTasks | reapStuckTasks
  | reapStaleRunningTasks => exact .inr (.inl rfl)
  | markTaskFailed id error now =>
    rw [show id = g.taskId from (of_decide_eq_true guard).symm]
    exact .inr (.inr ⟨error, now, rfl⟩)
  | markTaskRunning | updateTaskTags | updateTaskLabels | bulkTagTasks => exact .inl ended
  | _ => rcases ended with ended | ended <;> cases ended

theorem covered_committed {q : Queue} {session : Nat} {failing : List String}
    {store : TaskStore} {t : TaskSession} (c : q.WellFormed) (covered : Covered q)
    (commit : q.store.commit session = some (store, t))
    (kept : ∀ d ∈ q.failing, d ∈ failing)
    (marked : ∀ d error now, t.stmt = .markTaskFailed d error now → d ∈ failing)
    (ending : t.stmt.strands = true → ∀ g ∈ q.rows, g.taskId ∈ t.writes.map (·.taskId) →
      ∀ r ∈ q.rows, r.status = .queued → r.dependsOn = some g.taskId →
        r.taskId ∈ t.writes.map (·.taskId)) :
    Covered { q with store, failing } := by
  obtain ⟨mem, at_id, done, sessions⟩ := Store.commit_sessions commit
  intro r' hr g' hg blocks
  -- the queued task was queued before, and a statement that strands tasks has not written it
  have queued : ∃ r ∈ q.rows, r.taskId = r'.taskId ∧ r.status = .queued ∧
      r.dependsOn = r'.dependsOn ∧
      (t.stmt.strands = true → r.taskId ∉ t.writes.map (·.taskId)) := by
    rcases Store.of_mem_commit commit c.store hr with ⟨old, not⟩ | ⟨r, old, -, -, same⟩
    · exact ⟨r', old, rfl, blocks.1, rfl, fun _ => not⟩
    · have isQueued := blocks.1
      rw [same] at isQueued ⊢
      exact ⟨r, old, set_taskId.symm, queued_of_set isQueued, set_dependsOn.symm,
        fun strands => absurd isQueued (strands_set strands)⟩
  obtain ⟨r, hr, same, isQueued, depends, unwritten⟩ := queued
  -- if the other one had ended before, what attended to the two still does
  have attended : ∀ g ∈ q.rows, g.taskId = g'.taskId →
      (g.status = .failed ∨ g.status = .cancelled) →
        Attended { q with store, failing } r' g' := by
    intro g hg at_g ended
    rcases covered r hr g hg ⟨isQueued, by rw [depends, at_g, blocks.2.1], ended⟩ with
      owed | ⟨u, hu, ⟨now, stmt⟩, is_due⟩
    · exact .inl (kept _ (at_g ▸ owed))
    · by_cases here : u.id = session
      · cases q.store.sessions.eq_of_key hu mem (here.trans at_id.symm)
        rcases is_due with visit | written
        · rw [done] at visit
          cases visit
        · exact absurd written (unwritten (by rw [stmt]; rfl))
      · refine .inr ⟨u, ?_, ⟨now, at_g ▸ stmt⟩, ?_⟩
        · show u ∈ store.sessions.rows
          rw [sessions]
          exact List.mem_filter.mpr ⟨hu, by simpa using here⟩
        · rw [Store.due, ← same]
          exact is_due
  rcases Store.of_mem_commit commit c.store hg with ⟨old, -⟩ | ⟨g, old, write, guard, same'⟩
  · exact attended g' old rfl blocks.2.2
  · have at_g : g.taskId = g'.taskId := by rw [same']; exact set_taskId.symm
    have ended := blocks.2.2
    rw [same'] at ended
    rcases ended_of_set guard ended with before | strands | ⟨error, now, stmt⟩
    · exact attended g old at_g before
    · have both := blocks.2.1
      rw [← depends, ← at_g] at both
      exact absurd (ending strands g old write r hr isQueued both) (unwritten strands)
    · exact .inl (at_g ▸ marked g.taskId error now stmt)

theorem covered_aborted {q : Queue} {session : Nat} (covered : Covered q)
    (rollback : ∀ t ∈ q.store.sessions.rows, t.id = session →
      ∀ d now, t.stmt = .failDependentTasks d now → ¬ HasDependents q d) :
    Covered { q with store := q.store.abort session } := by
  intro r hr g hg blocks
  rcases covered r hr g hg blocks with owed | ⟨t, ht, ⟨now, stmt⟩, is_due⟩
  · exact .inl owed
  · by_cases here : t.id = session
    · exact absurd ⟨r, hr, blocks.1, blocks.2.1⟩ (rollback t ht here g.taskId now stmt)
    · exact .inr ⟨t, List.mem_filter.mpr ⟨ht, by simpa using here⟩, ⟨now, stmt⟩, is_due⟩

theorem covered_deleted {q q' : Queue} {gone : TaskRow → Bool} (covered : Covered q)
    (delete : q.delete gone = some q') : Covered q' := by
  obtain ⟨-, -, failing, sessions, -, rows⟩ := delete_spec delete
  intro r hr g hg blocks
  unfold Attended
  rw [failing, sessions]
  rcases rows r hr with old | ⟨a, -, _, -, -, -, rfl⟩
  · rcases rows g hg with old' | ⟨a, ha, _, -, -, -, rfl⟩
    · exact covered r old g old' blocks
    · exact covered r old a ha blocks
  · cases blocks.2.1

theorem covered_gaveUp {q : Queue} {d : String} (covered : Covered q)
    (worker : ¬ HasDependents q d) :
    Covered { q with failing := q.failing.erase d } := by
  intro r hr g hg blocks
  rcases covered r hr g hg blocks with owed | busy
  · by_cases here : g.taskId = d
    · exact absurd ⟨r, hr, blocks.1, here ▸ blocks.2.1⟩ worker
    · exact .inl ((List.mem_erase_of_ne here).mpr owed)
  · exact .inr busy

theorem covered_of_step {x : QueueStep} (h : queue.Steps x) (ok : Propagates x)
    (c : x.before.WellFormed) (covered : Covered x.before) : Covered x.after := by
  obtain ⟨q, a, answer, q'⟩ := x
  have moves : QueueMove q a q' answer := queue_moves h
  cases moves with
  | created _ insert =>
    exact covered_created covered insert fun d => ok.submission _ _ _ d rfl
  | started owes start => exact covered_started covered owes start
  | visited visit => exact covered_visited covered visit
  | committed commit =>
    obtain ⟨mem, rfl, -, -⟩ := Store.commit_sessions commit
    refine covered_committed c covered commit ?_ ?_ (ok.ending _ mem rfl)
    · intro d owed
      split
      · exact List.mem_cons_of_mem _ owed
      · exact owed
    · intro d error now stmt
      simp [stmt]
  | aborted =>
    refine covered_aborted covered fun t ht here => ?_
    exact ok.rollback t ht (by rw [here])
  | deleted _ _ delete => exact covered_deleted covered delete
  | gaveUp => exact covered_gaveUp covered (ok.worker _ rfl)

instance (q : Queue) (taskId : String) : Decidable (HasDependents q taskId) :=
  inferInstanceAs (Decidable (∃ r ∈ q.rows, _))

/-- The task whose dependents the statement fails -/
def TaskStatement.failsDependentsOf : TaskStatement → Option String
  | .failDependentTasks d _ => some d
  | _ => none

/-- `Propagates`, by the action -/
def propagates (x : QueueStep) : Bool :=
  match x.input with
  | .createTask _ task _ => decide (¬ ∃ g ∈ x.before.rows, task.dependsOn = some g.taskId ∧
      (g.status = .failed ∨ g.status = .cancelled))
  | .commit id => decide (¬ ∃ t ∈ x.before.store.sessions.rows, t.id = id ∧
      t.stmt.strands = true ∧ ∃ g ∈ x.before.rows, g.taskId ∈ t.writes.map (·.taskId) ∧
        ∃ r ∈ x.before.rows, (r.status = .queued ∧ r.dependsOn = some g.taskId) ∧
          r.taskId ∉ t.writes.map (·.taskId))
  | .abort id => decide (¬ ∃ t ∈ x.before.store.sessions.rows, t.id = id ∧
      ∃ d ∈ t.stmt.failsDependentsOf, HasDependents x.before d)
  | .givesUp d => decide (¬ HasDependents x.before d)
  | .start .. | .visit .. | .bulkDeleteTasks .. | .pruneTasks _ => true

theorem propagates_iff {x : QueueStep} : propagates x = true ↔ Propagates x := by
  obtain ⟨q, a, answer, q'⟩ := x
  refine ⟨fun h => ?_, fun h => ?_⟩
  · refine ⟨fun taskId task now d input depends g hg same => ?_,
      fun t ht input strands g hg written r hr waits depends => ?_,
      fun t ht input d now stmt has => ?_, fun d input => ?_⟩ <;> cases input
    · refine not_or.mp fun ended => of_decide_eq_true h ⟨g, hg, ?_, ended⟩
      rw [depends, same]
    · by_contra left
      exact of_decide_eq_true h ⟨t, ht, rfl, strands, g, hg, written, r, hr, ⟨waits, depends⟩, left⟩
    · exact of_decide_eq_true h ⟨t, ht, rfl, d, by rw [stmt]; rfl, has⟩
    · exact of_decide_eq_true h
  · cases a with
    | createTask taskId task now =>
      refine decide_eq_true ?_
      rintro ⟨g, hg, depends, ended⟩
      exact not_or.mpr (h.submission _ _ _ _ rfl depends g hg rfl) ended
    | commit id =>
      refine decide_eq_true ?_
      rintro ⟨t, ht, rfl, strands, g, hg, written, r, hr, ⟨waits, depends⟩, left⟩
      exact left (h.ending t ht rfl strands g hg written r hr waits depends)
    | abort id =>
      refine decide_eq_true ?_
      rintro ⟨t, ht, rfl, d, fails, has⟩
      cases stmt : t.stmt with
      | failDependentTasks d' now =>
        rw [stmt] at fails
        cases fails
        exact h.rollback t ht rfl d now stmt has
      | _ =>
        rw [stmt] at fails
        cases fails
    | givesUp d => exact decide_eq_true (h.worker d rfl)
    | start | visit | bulkDeleteTasks | pruneTasks => rfl

instance (x : QueueStep) : Decidable (Propagates x) := decidable_of_iff _ propagates_iff

/-- In every interleaving: a task that was submitted with a dependency becomes running
only after that was complete or deleted; and where all steps propagate, no task is
queued behind a failed or cancelled one in any state with nothing in progress. -/
theorem dependencies_respected (actions : List QueueAction) :
    (∀ past x later taskId d, queue.run .empty actions = past ++ x :: later →
        BecomesRunning taskId x → (∃ y ∈ past, Submits taskId d y) →
          (∃ y ∈ past, CompleteAt d y) ∨ ∃ y ∈ past, Deletes d y) ∧
      ((∀ x ∈ queue.run .empty actions, Propagates x) →
        ∀ x ∈ queue.run .empty actions, Idle x.after →
          ∀ r ∈ x.after.rows, ∀ g ∈ x.after.rows, ¬ Blocks r g) := by
  refine ⟨?_, ?_⟩
  · intro past x later taskId d split runs submitted
    have start : Traced [] Queue.empty :=
      { wellFormed := wellFormed_empty
        drawn := fun _ h => absurd h List.not_mem_nil
        depends := fun _ h => absurd h List.not_mem_nil
        seen := fun _ h => absurd h List.not_mem_nil }
    obtain ⟨step, traced⟩ := Machine.history_invariant
      (fun _ _ step traced => traced_of_step step traced) start past x later split
    exact complete_of_becomesRunning step traced runs submitted
  · intro propagates x hx idle r hr g hg blocks
    have start : Covered Queue.empty := fun _ h => absurd h List.not_mem_nil
    obtain ⟨-, -, -, covered⟩ := Machine.run_invariant_of_ok
      (I := fun q => q.WellFormed ∧ Covered q) (R := Propagates)
      (fun x step ok inv => ⟨wellFormed_of_step step inv.1, covered_of_step step ok inv.1 inv.2⟩)
      ⟨wellFormed_empty, start⟩ propagates x hx
    rcases covered r hr g hg blocks with owed | ⟨t, ht, -⟩
    · rw [idle.2] at owed
      cases owed
    · rw [idle.1] at ht
      cases ht

/-! ## Behind a failed task -/

def reportTask (dependsOn : Option String) : NewTask :=
  { userId := "user-1", agentType := "researcher", input := "report", priority := 5
    tags := [], dependsOn }

/-- A task fails that another depends on, and its worker goes on to fail that one. -/
def failedDependency : List QueueAction :=
  [.createTask "task-1" (reportTask none) 0, .createTask "task-2" (reportTask (some "task-1")) 0,
    .start 0 (.claimNextQueuedTask (some "node-1") 1), .visit 0 false, .commit 0,
    .start 0 (.markTaskFailed "task-1" "boom" 2), .visit 0 false, .commit 0,
    .start 0 (.failDependentTasks "task-1" 3), .visit 0 false, .commit 0]

theorem failed_dependents_fail : ∃ x ∈ queue.run .empty failedDependency,
    (∃ r ∈ x.before.rows, ∃ g ∈ x.before.rows, Blocks r g) ∧ Idle x.after ∧
      ∀ r ∈ x.after.rows, ∀ g ∈ x.after.rows, ¬ Blocks r g := by
  have propagates : ∀ x ∈ queue.run .empty failedDependency, Propagates x := by decide +kernel
  have last : ∃ x ∈ queue.run .empty failedDependency,
      (∃ r ∈ x.before.rows, ∃ g ∈ x.before.rows, Blocks r g) ∧ Idle x.after := by
    unfold Idle Blocks
    decide +kernel
  obtain ⟨x, hx, blocked, idle⟩ := last
  exact ⟨x, hx, blocked, idle,
    (dependencies_respected failedDependency).2 propagates x hx idle⟩

/-! ## Behind a cancelled task -/

/-- A task is submitted behind another, which is cancelled, deleted by the retention job
after its time, and the first is claimed. -/
def cancelledDependency : List QueueAction :=
  [.createTask "task-1" (reportTask none) 0, .createTask "task-2" (reportTask (some "task-1")) 0,
    .start 0 (.markTaskCancelled "task-1" "user-1" 1), .visit 0 false, .commit 0,
    .pruneTasks 1,
    .start 0 (.claimNextQueuedTask (some "node-1") 2), .visit 0 false, .commit 0]

/-- It is queued behind a cancelled task with nothing in progress, and later becomes
running although that was never complete. -/
theorem dependent_of_cancelled :
    (∃ x ∈ queue.run .empty cancelledDependency, Idle x.after ∧
        ∃ r ∈ x.after.rows, ∃ g ∈ x.after.rows, Blocks r g) ∧
      (∃ x ∈ queue.run .empty cancelledDependency, BecomesRunning "task-2" x) ∧
      ∀ x ∈ queue.run .empty cancelledDependency, ¬ CompleteAt "task-1" x := by
  unfold Idle Blocks BecomesRunning CompleteAt
  decide +kernel

end LegionForge.Gateway
