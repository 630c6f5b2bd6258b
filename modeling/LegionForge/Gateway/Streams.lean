import LegionForge.Gateway.Delivery
import LegionForge.Gateway.TaskQueue

/-!
# Streams of a gateway process

A process has its event bus, the coroutines of `run_task` it has created, and the stream
calls of its clients; the table of tasks it shares with other processes. A step of a
coroutine is what runs from one suspension to the next. Its statements commit or fail on
their own, and it goes on once it has the answer; a coroutine that was cancelled does not go
on. Only `run_task` publishes: whatever else ends a task says nothing on the bus. It
publishes under the id of the row it was started with, which is a `uuid.UUID`, and a stream
call subscribes under the text of its path.

`StreamMove` sorts the steps by what they do to tasks, coroutines and streams.
-/

namespace LegionForge.Gateway

variable {δ : Type}

/-! ## Coroutines -/

/-- What a coroutine of `run_task` is suspended in. -/
inductive RunPhase where
  | streaming
  /-- In the statement for this end of the agent's stream -/
  | marking (how : StreamEnd) (session : Nat)
  /-- The statement has answered, or failed. -/
  | marked (how : StreamEnd) (passed : Bool)
  /-- `record_api_usage` -/
  | recording
  /-- `increment_session_turn`, after the publication -/
  | published
  | failingDependents (session : Nat)
  | dependentsFailed

structure TaskRun where
  id : Nat
  taskId : String
  phase : RunPhase
  /-- `cancel` was called. -/
  cancelled : Bool

/-- What the functions that record an end are called with. -/
structure MarkArgs where
  result : String
  steps : Option Int
  tokens : String
  error : String
  now : Nat

def markStatement (taskId : String) (args : MarkArgs) : StreamEnd → TaskStatement
  | .ended => .markTaskComplete taskId args.result args.steps args.tokens args.now
  | .graphInterrupt => .markTaskPaused taskId args.now
  | .raised => .markTaskFailed taskId args.error args.now

/-- The event that `run_task` publishes last. -/
def endEvent : StreamEnd → String
  | .ended => "task_complete"
  | .graphInterrupt => "hitl_required"
  | .raised => "task_error"

/-- The events of `_stream_agent` -/
def streamAgentEvents : List String :=
  ["task_start", "chain_start", "chain_end", "token", "tool_start", "tool_end", "tool_blocked"]

/-- What the next step of a coroutine brings. A statement has the number of its session, or
`none` if there is no connection. -/
inductive RunAction (δ : Type) where
  | emits (event : String) (data : δ)
  | streamEnds (how : StreamEnd) (args : MarkArgs) (session : Option Nat)
  | resumes (records turns : Bool) (data : δ) (args : MarkArgs) (session : Option Nat)
  /-- An exception after the publication -/
  | raises (args : MarkArgs) (session : Option Nat)
  | dies

/-! ## The process -/

/-- A `stream_task` call that has read the row of its task: the text in its path, and the id
of the row. -/
structure StreamCall where
  id : Nat
  path : String
  taskId : String

structure Service (δ : Type) where
  queue : Queue
  bus : EventBus δ
  runs : Table TaskRun.id
  /-- The tasks that a claim has returned and that have no coroutine yet. -/
  claimed : List String
  streams : Table StreamCall.id

/-- The table as a process finds it when it starts. -/
structure DbStart where
  queue : Queue
  wellFormed : queue.WellFormed

def DbStart.service (start : DbStart) : Service δ := ⟨start.queue, .empty, .empty, [], .empty⟩

/-- The statement has committed or has been given up. -/
def TaskRun.settle (a : QueueAction) (r : TaskRun) : TaskRun :=
  match a, r.phase with
  | .commit n, .marking how m => if n = m then { r with phase := .marked how true } else r
  | .abort n, .marking how m => if n = m then { r with phase := .marked how false } else r
  | .commit n, .failingDependents m | .abort n, .failingDependents m =>
    if n = m then { r with phase := .dependentsFailed } else r
  | _, _ => r

def TaskRun.moveTo (phase : RunPhase) (r : TaskRun) : TaskRun := { r with phase }

def TaskRun.cancel (r : TaskRun) : TaskRun := { r with cancelled := true }

@[simp] theorem settle_id (a : QueueAction) (r : TaskRun) : (r.settle a).id = r.id := by
  unfold TaskRun.settle
  split <;> (try split) <;> rfl

@[simp] theorem settle_taskId (a : QueueAction) (r : TaskRun) :
    (r.settle a).taskId = r.taskId := by
  unfold TaskRun.settle
  split <;> (try split) <;> rfl

@[simp] theorem moveTo_id (phase : RunPhase) (r : TaskRun) : (r.moveTo phase).id = r.id := rfl
@[simp] theorem cancel_id (r : TaskRun) : r.cancel.id = r.id := rfl

namespace Service

variable (s : Service δ)

def moveTo (id : Nat) (phase : RunPhase) : Service δ :=
  { s with runs := s.runs.modify id (·.moveTo phase) (moveTo_id phase) }

/-- The coroutine is done, by a return or by an exception. -/
def leave (id : Nat) : Service δ := { s with runs := s.runs.discard (·.id = id) }

def publish (taskId event : String) (data : δ) : Service δ :=
  { s with bus := s.bus.publish taskBus (.uuid taskId) ⟨some event, data⟩ }

/-- The coroutine awaits a statement. -/
def call (id : Nat) (stmt : TaskStatement) (session : Nat) (phase : RunPhase) :
    Option (Service δ) :=
  (s.queue.startStatement session stmt).map fun queue => { s.moveTo id phase with queue }

def mark (r : TaskRun) (how : StreamEnd) (args : MarkArgs) :
    Option Nat → Option (Service δ)
  | none => some (s.moveTo r.id (.marked how false))
  | some session => s.call r.id (markStatement r.taskId args how) session (.marking how session)

/-- After `task_complete` is published -/
def afterComplete (r : TaskRun) (turns : Bool) (data : δ) : Service δ :=
  let s := s.publish r.taskId (endEvent .ended) data
  if turns then s.moveTo r.id .published else s.leave r.id

/-- `fail_dependent_tasks`, whose exceptions are caught -/
def failDependents (r : TaskRun) (now : Nat) : Option Nat → Option (Service δ)
  | none => some (s.leave r.id)
  | some session =>
    s.call r.id (.failDependentTasks r.taskId now) session (.failingDependents session)

/-- `run_task` goes on. -/
def resume (r : TaskRun) (records turns : Bool) (data : δ) (args : MarkArgs)
    (session : Option Nat) : Option (Service δ) :=
  match r.phase with
  | .marked .ended true =>
    some (if records then s.moveTo r.id .recording else s.afterComplete r turns data)
  | .marked .ended false => s.mark r .raised args session
  | .marked .graphInterrupt true =>
    some ((s.publish r.taskId (endEvent .graphInterrupt) data).leave r.id)
  | .marked .raised true =>
    (s.publish r.taskId (endEvent .raised) data).failDependents r args.now session
  | .marked .graphInterrupt false | .marked .raised false => some (s.leave r.id)
  | .recording => some (s.afterComplete r turns data)
  | .published | .dependentsFailed => some (s.leave r.id)
  | .streaming | .marking .. | .failingDependents _ => none

def runStep (r : TaskRun) : RunAction δ → Option (Service δ)
  | .emits event data =>
    match r.phase with
    | .streaming =>
      if event ∈ streamAgentEvents then some (s.publish r.taskId event data) else none
    | _ => none
  | .streamEnds how args session =>
    match r.phase with
    | .streaming => s.mark r how args session
    | _ => none
  | .resumes records turns data args session => s.resume r records turns data args session
  | .raises args session =>
    match r.phase with
    | .published => s.mark r .raised args session
    | _ => none
  | .dies => none

end Service

inductive StreamAction (δ : Type) where
  /-- A step of any process on the table -/
  | queue (a : QueueAction)
  | create (id : Nat) (taskId : String)
  | run (id : Nat) (a : RunAction δ)
  /-- The process is shut down. The watchdog cancels nothing: a reap that has found a task
  raises. -/
  | cancel (id : Nat)
  /-- With the id that the database reads in the path -/
  | connect (id : Nat) (path taskId userId : String)
  | subscribe (id : Nat)
  /-- A subscriber takes an event, waits in vain or goes away. -/
  | client (a : BusAction UuidOrStr δ)

/-- `stream_task` answers for tasks that have ended, and leaves the others to the bus. -/
def Service.connect (s : Service δ) (id : Nat) (path taskId userId : String) :
    Option (Service δ) :=
  match s.queue.rows.find? fun r => r.taskId = taskId && r.userId = userId with
  | none => some s
  | some r =>
    if r.status.isTerminal then some s
    else (s.streams.insert ⟨id, path, taskId⟩).map fun streams => { s with streams }

def BusAction.isClient {ι : Type} : BusAction ι δ → Bool
  | .publish .. | .subscribe .. => false
  | .receive _ | .timeout _ | .close _ => true

def Service.step (s : Service δ) : StreamAction δ → Option (Service δ)
  | .queue a =>
    (s.queue.step a).map fun next =>
      { s with
        queue := next.1
        runs := s.runs.mapRows (·.settle a) (settle_id a)
        claimed := match next.2 with
          | .claimed (some t) => t.taskId :: s.claimed
          | _ => s.claimed }
  | .create id taskId =>
    if taskId ∈ s.claimed then
      (s.runs.insert ⟨id, taskId, .streaming, false⟩).map fun runs =>
        { s with runs, claimed := s.claimed.erase taskId }
    else none
  | .run id a =>
    (s.runs.get id).bind fun r =>
      if r.cancelled then
        match a with
        | .dies => some (s.leave id)
        | _ => none
      else s.runStep r a
  | .cancel id => some { s with runs := s.runs.modify id TaskRun.cancel cancel_id }
  | .connect id path taskId userId => s.connect id path taskId userId
  | .subscribe id =>
    (s.streams.get id).bind fun c =>
      (s.bus.subscribe taskBus id (.str c.path)).map fun bus => { s with bus }
  | .client a =>
    if a.isClient then (s.bus.step taskBus a).map fun bus => { s with bus } else none

def service : Machine (Service δ) (StreamAction δ) Unit where
  step s a := (s.step a).map (·, ())

abbrev StreamStep (δ : Type) := Machine.Entry (Service δ) (StreamAction δ) Unit

/-! ## What a step can do -/

/-- A coroutine of `run_task` is in flight for the task. -/
def InFlight (runs : Table TaskRun.id) (taskId : String) : Prop :=
  ∃ r ∈ runs.rows, r.taskId = taskId

instance (runs : Table TaskRun.id) (taskId : String) : Decidable (InFlight runs taskId) :=
  inferInstanceAs (Decidable (∃ r ∈ runs.rows, r.taskId = taskId))

/-- In the step the coroutine returns, or an exception ends it. -/
def TaskRun.returns (a : RunAction δ) (r : TaskRun) : Bool :=
  match a, r.phase with
  | .dies, _ => true
  | .resumes records turns .., .marked .ended true => !records && !turns
  | .resumes _ turns .., .recording => !turns
  | .resumes _ _ _ _ session, .marked .raised true => session.isNone
  | .resumes .., .marked .graphInterrupt _ | .resumes .., .marked .raised false
  | .resumes .., .published | .resumes .., .dependentsFailed => true
  | _, _ => false

/-- A statement may have started, and no row has changed. -/
structure SameTable (q q' : Queue) : Prop where
  rows : q'.rows = q.rows
  wellFormed : q.WellFormed → q'.WellFormed

/-- The coroutine has said at most one event. -/
def Tells (s : Service δ) (r : TaskRun) (s' : Service δ) : Prop :=
  s'.bus = s.bus ∨ ∃ e, s'.bus = s.bus.publish taskBus (.uuid r.taskId) e

/-- A step of a coroutine: it goes on, or returns. -/
structure RunMove (s : Service δ) (r : TaskRun) (a : RunAction δ) (s' : Service δ) : Prop where
  bus : Tells s r s'
  table : SameTable s.queue s'.queue
  streams : s'.streams = s.streams
  stays : r.returns a = false → ∀ taskId, InFlight s'.runs taskId ↔ InFlight s.runs taskId
  left : r.returns a = true → s'.runs = s.runs.discard (·.id = r.id)

inductive StreamMove (s : Service δ) : StreamAction δ → Service δ → Prop
  | queued {a : QueueAction} {q : Queue} {answer : QueueAnswer} {claimed : List String}
      (step : s.queue.step a = some (q, answer)) :
      StreamMove s (.queue a)
        { s with queue := q, runs := s.runs.mapRows (·.settle a) (settle_id a), claimed }
  | created {id : Nat} {taskId : String} {runs : Table TaskRun.id} {claimed : List String}
      (inFlight : ∀ {taskId}, InFlight s.runs taskId → InFlight runs taskId) :
      StreamMove s (.create id taskId) { s with runs, claimed }
  | ran {id : Nat} {r : TaskRun} {a : RunAction δ} {s' : Service δ}
      (found : s.runs.get id = some r) (moves : RunMove s r a s') : StreamMove s (.run id a) s'
  | cancelled {id : Nat} :
      StreamMove s (.cancel id) { s with runs := s.runs.modify id TaskRun.cancel cancel_id }
  | answered {id : Nat} {path taskId userId : String} :
      StreamMove s (.connect id path taskId userId) s
  | connected {id : Nat} {path taskId userId : String} {streams : Table StreamCall.id}
      (insert : s.streams.insert ⟨id, path, taskId⟩ = some streams) :
      StreamMove s (.connect id path taskId userId) { s with streams }
  | subscribed {id : Nat} {c : StreamCall} {bus : EventBus δ} (found : s.streams.get id = some c)
      (step : s.bus.subscribe taskBus id (.str c.path) = some bus) :
      StreamMove s (.subscribe id) { s with bus }
  | client {a : BusAction UuidOrStr δ} {bus : EventBus δ} (isClient : a.isClient = true)
      (step : s.bus.step taskBus a = some bus) : StreamMove s (.client a) { s with bus }

section
variable {s s' : Service δ} {r : TaskRun} {runs runs' : Table TaskRun.id}

theorem sameTable_refl (q : Queue) : SameTable q q := ⟨rfl, fun c => c⟩

theorem sameTable_start {q q' : Queue} {session : Nat} {stmt : TaskStatement}
    (h : q.startStatement session stmt = some q') : SameTable q q' := by
  refine ⟨?_, fun c => ?_⟩
  · obtain ⟨failing, store, -, start, rfl⟩ := startStatement_owes h
    obtain ⟨sessions, -, rfl⟩ := Option.map_eq_some_iff.mp start
    rfl
  · have step : queue.Steps ⟨q, .start session stmt, .none, q'⟩ := by
      show (q.startStatement session stmt).map _ = _
      rw [h]
      rfl
    exact wellFormed_of_step step c

/-- A coroutine is rewritten and keeps its task. -/
theorem inFlight_modify_iff {id : Nat} {f : TaskRun → TaskRun} (keeps : ∀ r, (f r).id = r.id)
    (same : ∀ r, (f r).taskId = r.taskId) {taskId : String} :
    InFlight (runs.modify id f keeps) taskId ↔ InFlight runs taskId := by
  refine ⟨?_, ?_⟩
  · rintro ⟨b, hb, rfl⟩
    obtain ⟨a, ha, rfl⟩ := List.mem_map.mp hb
    refine ⟨a, ha, ?_⟩
    split
    · exact (same a).symm
    · rfl
  · rintro ⟨a, ha, rfl⟩
    refine ⟨_, List.mem_map_of_mem ha, ?_⟩
    split
    · exact same a
    · rfl

theorem inFlight_settle_iff {a : QueueAction} {taskId : String} :
    InFlight (runs.mapRows (·.settle a) (settle_id a)) taskId ↔ InFlight runs taskId := by
  refine ⟨?_, ?_⟩
  · rintro ⟨b, hb, rfl⟩
    obtain ⟨r, hr, rfl⟩ := List.mem_map.mp hb
    exact ⟨r, hr, (settle_taskId a r).symm⟩
  · rintro ⟨r, hr, rfl⟩
    exact ⟨_, List.mem_map_of_mem hr, settle_taskId a r⟩

/-- The coroutines of other tasks are not touched. -/
theorem others_leave (found : runs.get r.id = some r) {taskId : String}
    (other : taskId ≠ r.taskId) (inFlight : InFlight runs taskId) :
    InFlight (runs.discard (·.id = r.id)) taskId := by
  obtain ⟨a, ha, rfl⟩ := inFlight
  refine ⟨a, List.mem_filter.mpr ⟨ha, ?_⟩, rfl⟩
  have apart : a.id ≠ r.id := fun same =>
    other (congrArg _ (runs.eq_of_key ha (Table.get_mem found).1 same))
  simpa using apart

/-- A coroutine that has published goes on to its next phase. -/
theorem inFlight_moveTo_iff (id : Nat) (phase : RunPhase) (taskId : String) :
    InFlight (runs.modify id (·.moveTo phase) (moveTo_id phase)) taskId ↔ InFlight runs taskId :=
  inFlight_modify_iff (moveTo_id phase) fun _ => rfl

theorem call_spec {id session : Nat} {stmt : TaskStatement} {phase : RunPhase}
    (h : s.call id stmt session phase = some s') :
    s'.bus = s.bus ∧ SameTable s.queue s'.queue ∧ s'.streams = s.streams ∧
      s'.runs = s.runs.modify id (·.moveTo phase) (moveTo_id phase) := by
  obtain ⟨queue, start, rfl⟩ := Option.map_eq_some_iff.mp h
  exact ⟨rfl, sameTable_start start, rfl, rfl⟩

theorem tells_publish (event : String) (data : δ)
    (bus : s'.bus = (s.publish r.taskId event data).bus) : Tells s r s' := .inr ⟨_, bus⟩

/-- The coroutine goes on, in the phase it has come to. -/
theorem runMove_of_goesOn {a : RunAction δ} (stays : r.returns a = false) (bus : Tells s r s')
    (table : SameTable s.queue s'.queue) (streams : s'.streams = s.streams)
    (runs : s'.runs = s.runs ∨
      ∃ phase, s'.runs = s.runs.modify r.id (·.moveTo phase) (moveTo_id phase)) :
    RunMove s r a s' := by
  refine ⟨bus, table, streams, fun _ taskId => ?_, fun left => ?_⟩
  · rcases runs with same | ⟨phase, moved⟩
    · rw [same]
    · rw [moved]
      exact inFlight_moveTo_iff r.id phase taskId
  · rw [stays] at left
    cases left

/-- The coroutine is done, maybe with a last event. -/
theorem runMove_of_leave {a : RunAction δ} (left : r.returns a = true) (bus : Tells s r s')
    (table : SameTable s.queue s'.queue) (streams : s'.streams = s.streams)
    (runs : s'.runs = s.runs.discard (·.id = r.id)) : RunMove s r a s' := by
  refine ⟨bus, table, streams, fun stays => ?_, fun _ => runs⟩
  rw [left] at stays
  cases stays

/-- A statement for the end is begun. -/
theorem runMove_of_mark {a : RunAction δ} {how : StreamEnd} {args : MarkArgs}
    {session : Option Nat} (stays : r.returns a = false)
    (h : s.mark r how args session = some s') : RunMove s r a s' := by
  cases session with
  | none =>
    cases h
    exact runMove_of_goesOn stays (.inl rfl) (sameTable_refl _) rfl (.inr ⟨_, rfl⟩)
  | some session =>
    obtain ⟨bus, table, streams, runs⟩ := call_spec h
    exact runMove_of_goesOn stays (.inl bus) table streams (.inr ⟨_, runs⟩)

theorem runMove_of_afterComplete {a : RunAction δ} {turns : Bool} (returns : r.returns a = !turns)
    (data : δ) : RunMove s r a (s.afterComplete r turns data) := by
  unfold Service.afterComplete
  cases turns with
  | true =>
    exact runMove_of_goesOn returns (tells_publish (endEvent .ended) data rfl) (sameTable_refl _)
      rfl (.inr ⟨.published, rfl⟩)
  | false =>
    exact runMove_of_leave returns (tells_publish (endEvent .ended) data rfl) (sameTable_refl _)
      rfl rfl

theorem run_moves {a : RunAction δ} (h : s.runStep r a = some s') : RunMove s r a s' := by
  cases a with
  | emits event data =>
    cases at_phase : r.phase with
    | streaming =>
      simp only [Service.runStep, at_phase] at h
      obtain ⟨-, same⟩ := Option.ite_none_right_eq_some.mp h
      cases same
      exact runMove_of_goesOn (by simp [TaskRun.returns]) (tells_publish event data rfl)
        (sameTable_refl _) rfl (.inl rfl)
    | _ => simp [Service.runStep, at_phase] at h
  | streamEnds how args session =>
    cases at_phase : r.phase with
    | streaming =>
      simp only [Service.runStep, at_phase] at h
      exact runMove_of_mark (by simp [TaskRun.returns]) h
    | _ => simp [Service.runStep, at_phase] at h
  | raises args session =>
    cases at_phase : r.phase with
    | published =>
      simp only [Service.runStep, at_phase] at h
      exact runMove_of_mark (by simp [TaskRun.returns]) h
    | _ => simp [Service.runStep, at_phase] at h
  | dies => cases h
  | resumes records turns data args session =>
    have h : s.resume r records turns data args session = some s' := h
    cases at_phase : r.phase with
    | streaming | marking | failingDependents => simp [Service.resume, at_phase] at h
    | recording =>
      simp only [Service.resume, at_phase] at h
      cases h
      exact runMove_of_afterComplete (by simp [TaskRun.returns, at_phase]) data
    | published | dependentsFailed =>
      simp only [Service.resume, at_phase] at h
      cases h
      exact runMove_of_leave (by simp [TaskRun.returns, at_phase]) (.inl rfl) (sameTable_refl _)
        rfl rfl
    | marked how passed =>
      cases how with
      | ended =>
        cases passed with
        | true =>
          simp only [Service.resume, at_phase] at h
          cases records with
          | true =>
            cases h
            exact runMove_of_goesOn (by simp [TaskRun.returns, at_phase]) (.inl rfl)
              (sameTable_refl _) rfl (.inr ⟨_, rfl⟩)
          | false =>
            cases h
            exact runMove_of_afterComplete (by simp [TaskRun.returns, at_phase]) data
        | false =>
          simp only [Service.resume, at_phase] at h
          exact runMove_of_mark (by simp [TaskRun.returns, at_phase]) h
      | graphInterrupt =>
        have left : r.returns (.resumes records turns data args session) = true := by
          simp [TaskRun.returns, at_phase]
        cases passed with
        | true =>
          simp only [Service.resume, at_phase] at h
          cases h
          exact runMove_of_leave left (tells_publish (endEvent .graphInterrupt) data rfl)
            (sameTable_refl _) rfl rfl
        | false =>
          simp only [Service.resume, at_phase] at h
          cases h
          exact runMove_of_leave left (.inl rfl) (sameTable_refl _) rfl rfl
      | raised =>
        cases passed with
        | true =>
          simp only [Service.resume, at_phase] at h
          cases session with
          | none =>
            cases h
            exact runMove_of_leave (by simp [TaskRun.returns, at_phase])
              (tells_publish (endEvent .raised) data rfl) (sameTable_refl _) rfl rfl
          | some session =>
            obtain ⟨bus, table, streams, runs⟩ := call_spec h
            exact runMove_of_goesOn (by simp [TaskRun.returns, at_phase])
              (tells_publish (endEvent .raised) data bus) table streams (.inr ⟨_, runs⟩)
        | false =>
          simp only [Service.resume, at_phase] at h
          cases h
          exact runMove_of_leave (by simp [TaskRun.returns, at_phase]) (.inl rfl)
            (sameTable_refl _) rfl rfl

end

theorem stream_moves {x : StreamStep δ} (h : service.Steps x) :
    StreamMove x.before x.input x.after := by
  obtain ⟨s, a, label, s'⟩ := x
  obtain ⟨_, h, same⟩ := Option.map_eq_some_iff.mp h
  cases same
  have h : s.step a = some s' := h
  cases a with
  | queue a =>
    obtain ⟨⟨q, answer⟩, step, rfl⟩ := Option.map_eq_some_iff.mp h
    exact .queued step
  | create id taskId =>
    obtain ⟨-, h⟩ := Option.ite_none_right_eq_some.mp h
    obtain ⟨runs, insert, rfl⟩ := Option.map_eq_some_iff.mp h
    refine .created ?_
    rintro _ ⟨r, hr, rfl⟩
    exact ⟨r, Table.mem_insert_of_mem insert hr, rfl⟩
  | run id a =>
    obtain ⟨r, found, h⟩ := Option.bind_eq_some_iff.mp h
    obtain ⟨-, rfl⟩ := Table.get_mem found
    refine .ran found ?_
    split at h
    · split at h
      · cases h
        exact runMove_of_leave (by simp [TaskRun.returns]) (.inl rfl) (sameTable_refl _) rfl rfl
      · cases h
    · exact run_moves h
  | cancel id =>
    cases h
    exact .cancelled
  | connect id path taskId userId =>
    have h : s.connect id path taskId userId = some s' := h
    unfold Service.connect at h
    split at h
    · cases h
      exact .answered
    · split at h
      · cases h
        exact .answered
      · obtain ⟨streams, insert, rfl⟩ := Option.map_eq_some_iff.mp h
        exact .connected insert
  | subscribe id =>
    obtain ⟨c, found, h⟩ := Option.bind_eq_some_iff.mp h
    obtain ⟨bus, step, rfl⟩ := Option.map_eq_some_iff.mp h
    exact .subscribed found step
  | client a =>
    obtain ⟨isClient, h⟩ := Option.ite_none_right_eq_some.mp h
    obtain ⟨bus, step, rfl⟩ := Option.map_eq_some_iff.mp h
    exact .client isClient step

end LegionForge.Gateway
