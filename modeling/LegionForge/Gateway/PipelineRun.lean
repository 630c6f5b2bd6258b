import LegionForge.Gateway.Intake

/-!
# The record of a pipeline run

`execute_pipeline` appends a result to its list when a task is complete, and only then
writes the row and publishes. Whatever raises inside the loop or behind it ends in one
handler, which appends a failed entry under the length of the list and marks the run as
failed. By then the list may hold every step, and the row may say complete.

How the awaited calls come back is an arbitrary `PipelineCalls`; a write may raise before
or after it is stored. `firstFailure` reads off it where the run leaves the loop, and
`record_kept_iff` says for which failures the row ends as it should.
-/

namespace LegionForge.Gateway

/-- An entry of `step_results`. -/
inductive StepResult where
  | complete (step : Nat) (name taskId : String) (result : Option String)
  | failed (step : Nat) (error : String)
  deriving DecidableEq, Repr

/-- `step_results[n].get("result", "")` -/
def StepResult.result : StepResult → Option String
  | .complete _ _ _ result => result
  | .failed _ _ => some ""

/-- The statuses a run is given. -/
inductive RunStatus where
  | running
  | complete
  | failed
  deriving DecidableEq, Repr

/-- A row of `pipeline_runs`, with the defaults of its columns. -/
structure RunRow where
  status : RunStatus := .running
  currentStep : Nat := 0
  stepResults : List StepResult := []
  deriving DecidableEq, Repr

/-- How a write comes back. -/
inductive WriteResult where
  | ok
  | raises (stored : Bool) (error : String)
  deriving DecidableEq

def WriteResult.stored : WriteResult → Bool
  | .ok => true
  | .raises stored _ => stored

def WriteResult.error : WriteResult → Option String
  | .ok => none
  | .raises _ error => some error

/-- How the awaited calls come back, those of a step by its index. -/
structure PipelineCalls where
  publishStart : Option String
  createTask : Nat → Except String String
  publishStepStart : Nat → Option String
  waitForTask : Nat → Except String (Option String)
  updateRunStep : Nat → WriteResult
  publishStepComplete : Nat → Option String
  finalizeComplete : WriteResult
  publishComplete : Option String
  finalizeFailed : WriteResult

/-- What `execute_pipeline` works on: its list, the row, the rows there were before, and
the tasks it put in the queue. -/
structure PipelineWork where
  stepResults : List StepResult := []
  row : RunRow := {}
  past : List RunRow := []
  created : List QueuedTask := []

/-- What became of the work, and what was raised. -/
structure Attempt where
  work : PipelineWork
  raised : Option String

/-! ## `execute_pipeline` -/

/-- A write of the row; what raises may have been stored. -/
def PipelineWork.write (w : PipelineWork) (row : RunRow) (result : WriteResult) : Attempt :=
  { work := if result.stored then { w with row, past := w.past ++ [w.row] } else w
    raised := result.error }

/-- What follows a call runs unless the call raised. -/
def Attempt.andThen (a : Attempt) (next : PipelineWork → Attempt) : Attempt :=
  match a.raised with
  | some _ => a
  | none => next a.work

/-- `update_pipeline_run_step` -/
def updatePipelineRunStep (w : PipelineWork) (currentStep : Nat) (result : WriteResult) : Attempt :=
  w.write { w.row with currentStep, stepResults := w.stepResults } result

/-- `finalize_pipeline_run` -/
def finalizePipelineRun (w : PipelineWork) (status : RunStatus) (result : WriteResult) : Attempt :=
  w.write { w.row with status, stepResults := w.stepResults } result

section
variable (env : CronEnv) (pyRepr : String → String) (calls : PipelineCalls)
variable (userId initialInput : String)

/-- The body of the loop for the step at index `i`. -/
def runStep (i : Nat) (step : PipelineStep) (w : PipelineWork) : Attempt :=
  let taskText := step.rendered env initialInput (w.stepResults.map (·.result))
  let stepName := pyRepr step.name
  match calls.createTask i with
  | .error exc => ⟨w, some s!"Step {i} ({stepName}): failed to create task: {exc}"⟩
  | .ok taskId =>
    let w := { w with created := w.created ++ [⟨userId, taskText, step.agentType⟩] }
    match calls.publishStepStart i with
    | some exc => ⟨w, some exc⟩
    | none =>
      match calls.waitForTask i with
      | .error exc => ⟨w, some s!"Step {i} ({stepName}) task {taskId}: {exc}"⟩
      | .ok result =>
        let w := { w with stepResults := w.stepResults ++ [.complete i step.name taskId result] }
        (updatePipelineRunStep w (i + 1) (calls.updateRunStep i)).andThen fun w =>
          ⟨w, calls.publishStepComplete i⟩

def runSteps : Nat → List PipelineStep → PipelineWork → Attempt
  | _, [], w => ⟨w, none⟩
  | i, step :: rest, w =>
    (runStep env pyRepr calls userId initialInput i step w).andThen (runSteps (i + 1) rest)

/-- The `try` block. -/
def tryPipeline (steps : List PipelineStep) : Attempt :=
  Attempt.andThen ⟨{}, calls.publishStart⟩ fun w =>
    (runSteps env pyRepr calls userId initialInput 0 steps w).andThen fun w =>
      (finalizePipelineRun w .complete calls.finalizeComplete).andThen fun w =>
        ⟨w, calls.publishComplete⟩

/-- What raises in the handler, and the event behind it, change nothing any more. -/
def executePipeline (steps : List PipelineStep) : PipelineWork :=
  let attempt := tryPipeline env pyRepr calls userId initialInput steps
  match attempt.raised with
  | none => attempt.work
  | some exc =>
    let w := attempt.work
    let w := { w with stepResults := w.stepResults ++ [.failed w.stepResults.length exc] }
    (finalizePipelineRun w .failed calls.finalizeFailed).work

/-! ## What the record is to be -/

def StepResult.completedStep : StepResult → Option Nat
  | .complete step _ _ _ => some step
  | .failed _ _ => none

/-- Completed steps 0, 1, and so on, each once. -/
def CompletedInOrder (results : List StepResult) : Prop :=
  results.map (·.completedStep) = (List.range results.length).map some

/-- The row of a run with `n` steps that is over. -/
def RecordSound (n : Nat) (row : RunRow) : Prop :=
  ∃ done, CompletedInOrder done ∧
    (row.stepResults = done ∧ done.length = n ∧ row.status = .complete ∨
      ∃ error, row.stepResults = done ++ [.failed done.length error] ∧ done.length < n ∧
        row.status = .failed)

/-- No row that says complete is followed by one that says failed. -/
def StaysComplete (rows : List RunRow) : Prop :=
  rows.Pairwise fun before after => before.status = .complete → after.status ≠ .failed

/-- Everything the row has been. -/
def PipelineWork.history (w : PipelineWork) : List RunRow := w.past ++ [w.row]

/-! ## Where a run fails -/

/-- Whether something raises in a step, and if so whether its task was complete by then. -/
def stepFailure (i : Nat) : Option Bool :=
  match calls.createTask i, calls.publishStepStart i, calls.waitForTask i with
  | .ok _, none, .ok _ =>
    if (calls.updateRunStep i).error.isSome || (calls.publishStepComplete i).isSome then some true
    else none
  | _, _, _ => some false

/-- How many tasks are complete when something raises in one of `n` steps from `i` on. -/
def stepsFailure : Nat → Nat → Option Nat
  | _, 0 => none
  | i, n + 1 =>
    match stepFailure calls i with
    | some done => some (i + done.toNat)
    | none => stepsFailure (i + 1) n

/-- How many tasks are complete when the first call raises, and whether the row says
complete by then. -/
def firstFailure (n : Nat) : Option (Nat × Bool) :=
  if calls.publishStart.isSome then some (0, false)
  else match stepsFailure calls 0 n with
    | some done => some (done, false)
    | none =>
      match calls.finalizeComplete with
      | .raises stored _ => some (n, stored)
      | .ok => if calls.publishComplete.isSome then some (n, true) else none

/-- Nothing raises; or what does comes before the last task is complete, and the failure is
stored; or it comes when the row says complete, and the failure is not stored. -/
def FailsInTime (n : Nat) : Prop :=
  match firstFailure calls n with
  | none => True
  | some (done, false) => done < n ∧ calls.finalizeFailed.stored = true
  | some (_, true) => calls.finalizeFailed.stored = false

end

/-! ## One step -/

/-- The list holds the first `k` steps, and the row has never been anything but running. -/
structure InProgress (k : Nat) (w : PipelineWork) : Prop where
  results : CompletedInOrder w.stepResults
  length : w.stepResults.length = k
  running : ∀ row ∈ w.history, row.status = .running

section
variable {env : CronEnv} {pyRepr : String → String} {calls : PipelineCalls}
variable {userId initialInput : String}

theorem CompletedInOrder.append {results : List StepResult} (order : CompletedInOrder results)
    (name taskId : String) (result : Option String) :
    CompletedInOrder (results ++ [.complete results.length name taskId result]) := by
  unfold CompletedInOrder at order ⊢
  rw [List.map_append, order, List.length_append, List.length_singleton, List.range_succ,
    List.map_append]
  rfl

theorem InProgress.write {k : Nat} {w : PipelineWork} (h : InProgress k w) {row : RunRow}
    (running : row.status = .running) (result : WriteResult) :
    InProgress k (w.write row result).work := by
  unfold PipelineWork.write
  cases result.stored with
  | false => exact h
  | true =>
    refine ⟨h.results, h.length, fun r mem => ?_⟩
    rcases List.mem_append.mp mem with mem | mem
    · exact h.running r mem
    · rw [List.mem_singleton.mp mem]
      exact running

/-- A step goes through and adds its result, or raises before its task is complete or
afterwards. -/
theorem runStep_spec {i : Nat} {step : PipelineStep} {w : PipelineWork} (h : InProgress i w) :
    let run := runStep env pyRepr calls userId initialInput i step w
    match stepFailure calls i with
    | none => run.raised = none ∧ InProgress (i + 1) run.work
    | some done => run.raised.isSome = true ∧ InProgress (i + done.toNat) run.work := by
  unfold runStep stepFailure
  dsimp only
  have queued : ∀ created, InProgress i { w with created } :=
    fun _ => ⟨h.results, h.length, h.running⟩
  cases calls.createTask i with
  | error exc => exact ⟨rfl, h⟩
  | ok taskId =>
    cases calls.publishStepStart i with
    | some exc => exact ⟨rfl, queued _⟩
    | none =>
      cases calls.waitForTask i with
      | error exc => exact ⟨rfl, queued _⟩
      | ok result =>
        have added : CompletedInOrder
            (w.stepResults ++ [.complete i step.name taskId result]) := by
          rw [← h.length]
          exact h.results.append step.name taskId result
        have done : ∀ created, InProgress (i + 1)
            { w with created, stepResults :=
                w.stepResults ++ [.complete i step.name taskId result] } := fun _ =>
          ⟨added, by rw [List.length_append, h.length]; rfl, h.running⟩
        have running : w.row.status = .running :=
          h.running _ (List.mem_append_right _ List.mem_cons_self)
        have kept := fun created =>
          @InProgress.write _ _ (done created) { w.row with
            currentStep := i + 1
            stepResults := w.stepResults ++ [.complete i step.name taskId result] }
            running (calls.updateRunStep i)
        dsimp only [Attempt.andThen, updatePipelineRunStep]
        cases update : (calls.updateRunStep i).error with
        | some exc =>
          simp only [PipelineWork.write, update, Option.isSome_some, Bool.true_or, if_true]
          exact ⟨trivial, kept _⟩
        | none =>
          simp only [PipelineWork.write, update, Option.isSome_none, Bool.false_or]
          cases calls.publishStepComplete i with
          | none => exact ⟨rfl, kept _⟩
          | some exc => exact ⟨rfl, kept _⟩

/-- The loop goes through all steps, or stops with as many as were complete. -/
theorem runSteps_spec (steps : List PipelineStep) : ∀ {i : Nat} {w : PipelineWork},
    InProgress i w →
    let run := runSteps env pyRepr calls userId initialInput i steps w
    match stepsFailure calls i steps.length with
    | none => run.raised = none ∧ InProgress (i + steps.length) run.work
    | some done => run.raised.isSome = true ∧ InProgress done run.work := by
  induction steps with
  | nil => intro i w h; exact ⟨rfl, h⟩
  | cons step rest ih =>
    intro i w h
    have one := @runStep_spec env pyRepr calls userId initialInput i step w h
    rw [List.length_cons, stepsFailure, runSteps, Attempt.andThen]
    dsimp only at one ⊢
    cases failure : stepFailure calls i with
    | none =>
      rw [failure] at one
      rw [one.1]
      have later := ih one.2
      rw [Nat.add_right_comm] at later
      exact later
    | some done =>
      rw [failure] at one
      obtain ⟨exc, raised⟩ := Option.isSome_iff_exists.mp one.1
      rw [raised]
      exact one

/-! ## The whole run -/

/-- All steps are in the list, and the row says so for the first time. -/
structure Finished (n : Nat) (w : PipelineWork) : Prop where
  results : CompletedInOrder w.stepResults
  length : w.stepResults.length = n
  row : w.row.stepResults = w.stepResults ∧ w.row.status = .complete
  past : ∀ row ∈ w.past, row.status = .running

theorem InProgress.finalize {n : Nat} {w : PipelineWork} (h : InProgress n w)
    {result : WriteResult} (stored : result.stored = true) :
    Finished n (finalizePipelineRun w .complete result).work := by
  unfold finalizePipelineRun PipelineWork.write
  rw [stored]
  exact ⟨h.results, h.length, ⟨rfl, rfl⟩, h.running⟩

theorem tryPipeline_spec (steps : List PipelineStep) :
    let run := tryPipeline env pyRepr calls userId initialInput steps
    match firstFailure calls steps.length with
    | none => run.raised = none ∧ Finished steps.length run.work
    | some (done, false) => run.raised.isSome = true ∧ InProgress done run.work
    | some (_, true) => run.raised.isSome = true ∧ Finished steps.length run.work := by
  have start : InProgress 0 {} := ⟨rfl, rfl, fun row mem => by
    rw [List.mem_singleton.mp mem]⟩
  unfold tryPipeline firstFailure
  cases publish : calls.publishStart with
  | some exc => exact ⟨rfl, start⟩
  | none =>
    have loop := @runSteps_spec env pyRepr calls userId initialInput steps 0 {} start
    dsimp only [Attempt.andThen] at loop ⊢
    rw [Option.isSome_none, if_neg (by decide)]
    cases failure : stepsFailure calls 0 steps.length with
    | some done =>
      rw [failure] at loop
      obtain ⟨exc, raised⟩ := Option.isSome_iff_exists.mp loop.1
      rw [raised]
      exact loop
    | none =>
      rw [failure, Nat.zero_add] at loop
      rw [loop.1]
      obtain ⟨-, ready⟩ := loop
      cases finalize : calls.finalizeComplete with
      | ok =>
        have finished := @InProgress.finalize _ _ ready .ok rfl
        dsimp only [finalizePipelineRun, PipelineWork.write, WriteResult.error] at finished ⊢
        cases calls.publishComplete with
        | none => exact ⟨rfl, finished⟩
        | some exc => exact ⟨rfl, finished⟩
      | raises stored exc =>
        cases stored with
        | true => exact ⟨rfl, @InProgress.finalize _ _ ready (.raises true exc) rfl⟩
        | false => exact ⟨rfl, ready⟩

theorem completedStep_of_order {results : List StepResult} (order : CompletedInOrder results)
    {r : StepResult} (mem : r ∈ results) : r.completedStep.isSome = true := by
  have mapped := List.mem_map_of_mem (f := (·.completedStep)) mem
  rw [order] at mapped
  obtain ⟨k, -, eq⟩ := List.mem_map.mp mapped
  rw [← eq]
  rfl

/-! ## How the row ends -/

/-- Behind rows that are running any row may come. -/
theorem staysComplete_of_running {past : List RunRow}
    (running : ∀ row ∈ past, row.status = .running) (row : RunRow) :
    StaysComplete (past ++ [row]) := by
  have never : ∀ a ∈ past, ∀ b : RunRow, a.status = .complete → b.status ≠ .failed := by
    intro a mem b complete
    rw [running a mem] at complete
    cases complete
  refine List.pairwise_append.mpr ⟨?_, List.pairwise_singleton _ _, fun a mem b _ => never a mem b⟩
  exact List.pairwise_of_forall_mem_list fun a mem b _ => never a mem b

theorem Finished.sound {n : Nat} {w : PipelineWork} (h : Finished n w) :
    RecordSound n w.row ∧ StaysComplete w.history :=
  ⟨⟨w.stepResults, h.results, .inl ⟨h.row.1, h.length, h.row.2⟩⟩,
    staysComplete_of_running h.past w.row⟩

theorem not_sound_of_running {n : Nat} {row : RunRow} (running : row.status = .running) :
    ¬ RecordSound n row := by
  rintro ⟨done, -, ⟨-, -, status⟩ | ⟨error, -, -, status⟩⟩
  · rw [running] at status
    cases status
  · rw [running] at status
    cases status

/-- A failed entry stands behind the completed steps under the right index. -/
theorem failed_sound_iff {n : Nat} {row : RunRow} {results : List StepResult} {error : String}
    (order : CompletedInOrder results) (failed : row.status = .failed)
    (entries : row.stepResults = results ++ [.failed results.length error]) :
    RecordSound n row ↔ results.length < n := by
  constructor
  · rintro ⟨done, order', ⟨all, -, -⟩ | ⟨error', all, short, -⟩⟩
    · -- a failed entry is no completed step
      have mem : StepResult.failed results.length error ∈ done := by
        rw [← all, entries]
        exact List.mem_append_right _ List.mem_cons_self
      cases completedStep_of_order order' mem
    · rw [entries] at all
      rwa [(List.append_inj' all rfl).1]
  · intro short
    exact ⟨results, order, .inr ⟨error, entries, short, failed⟩⟩

theorem Finished.not_staysComplete {n : Nat} {w : PipelineWork} (h : Finished n w) {row : RunRow}
    (failed : row.status = .failed) : ¬ StaysComplete (w.history ++ [row]) := by
  intro stays
  have last := (List.pairwise_append.mp stays).2.2 w.row
    (List.mem_append_right _ List.mem_cons_self) row List.mem_cons_self h.row.2
  exact last failed

/-- For every list of steps and every way the awaited calls come back: the row ends with
the completed steps in order and is complete, or with one failed entry under the next
index, and never turns from complete to failed, if and only if nothing raises too late. -/
theorem record_kept_iff (env : CronEnv) (pyRepr : String → String) (calls : PipelineCalls)
    (userId initialInput : String) (steps : List PipelineStep) :
    let w := executePipeline env pyRepr calls userId initialInput steps
    RecordSound steps.length w.row ∧ StaysComplete w.history ↔
      FailsInTime calls steps.length := by
  have spec := @tryPipeline_spec env pyRepr calls userId initialInput steps
  unfold executePipeline FailsInTime
  dsimp only at spec ⊢
  generalize tryPipeline env pyRepr calls userId initialInput steps = run at spec ⊢
  rcases failure : firstFailure calls steps.length with _ | ⟨done, _ | _⟩ <;>
    rw [failure] at spec <;> dsimp only at spec ⊢
  · rw [spec.1]
    exact ⟨fun _ => trivial, fun _ => spec.2.sound⟩
  · obtain ⟨exc, raised⟩ := Option.isSome_iff_exists.mp spec.1
    have progress := spec.2
    rw [raised]
    dsimp only [finalizePipelineRun, PipelineWork.write]
    cases stored : calls.finalizeFailed.stored with
    | true =>
      rw [if_pos rfl, ← progress.length]
      exact ⟨fun sound => ⟨(failed_sound_iff progress.results rfl rfl).mp sound.1, rfl⟩,
        fun early => ⟨(failed_sound_iff progress.results rfl rfl).mpr early.1,
          staysComplete_of_running progress.running _⟩⟩
    | false =>
      have running := progress.running run.work.row (List.mem_append_right _ List.mem_cons_self)
      exact ⟨fun sound => absurd sound.1 (not_sound_of_running running), fun h => by cases h.2⟩
  · obtain ⟨exc, raised⟩ := Option.isSome_iff_exists.mp spec.1
    have finished := spec.2
    rw [raised]
    dsimp only [finalizePipelineRun, PipelineWork.write]
    cases stored : calls.finalizeFailed.stored with
    | true =>
      exact ⟨fun sound => absurd sound.2 (finished.not_staysComplete rfl), fun h => by cases h⟩
    | false => exact ⟨fun _ => rfl, fun _ => finished.sound⟩

end

/-! ## A failure behind the last step -/

/-- The row of the last step cannot be written. -/
def lateFailure : PipelineCalls where
  publishStart := none
  createTask i := .ok s!"task-{i}"
  publishStepStart _ := none
  waitForTask _ := .ok (some "done")
  updateRunStep i := if i = 1 then .raises false "connection lost" else .ok
  publishStepComplete _ := none
  finalizeComplete := .ok
  publishComplete := none
  finalizeFailed := .ok

def lateSteps : List PipelineStep :=
  [⟨"search", "find \x7b\x7binput\x7d\x7d", "researcher", by decide⟩,
    ⟨"report", "write it up", "orchestrator", by decide⟩]

/-- Both steps, and a third one that failed. -/
def lateResults : List StepResult :=
  [.complete 0 "search" "task-0" (some "done"), .complete 1 "report" "task-1" (some "done"),
    .failed 2 "connection lost"]

/-- Both steps are complete and in the list, and the row ends as failed at a third step. -/
theorem failed_entry_behind_last_step :
    (executePipeline sampleCron id lateFailure "ada" "tides" lateSteps).row =
      { status := .failed, currentStep := 1, stepResults := lateResults } ∧
    ¬ RecordSound 2 (executePipeline sampleCron id lateFailure "ada" "tides" lateSteps).row := by
  have ends : (executePipeline sampleCron id lateFailure "ada" "tides" lateSteps).row =
      { status := .failed, currentStep := 1, stepResults := lateResults } := by
    decide +kernel
  refine ⟨ends, ?_⟩
  rw [ends]
  intro sound
  have short : 2 < 2 :=
    (@failed_sound_iff 2 _ (lateResults.take 2) "connection lost" rfl rfl rfl).mp sound
  exact absurd short (Nat.lt_irrefl 2)

end LegionForge.Gateway
