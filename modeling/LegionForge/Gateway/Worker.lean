import LegionForge.Lib.Table
import LegionForge.Gateway.Hitl

/-!
# Task status and approval requests

The worker claims a queued task, runs the agent's graph and records how the
stream ended; the approve and reject routes work on the requests meanwhile. The
machine here takes these steps for any number of tasks in any order.

A task is to be `paused` exactly while a request of its latest run is pending.
The worker pauses a task on `GraphInterrupt` alone, which no stream of these
graphs raises, so no task is ever paused and the agreement comes down to the
requests: a run that ends must have none of its own pending.
-/

namespace LegionForge.Gateway

open Agent Security

/-! ## Tasks and their runs -/

inductive TaskStatus where
  | queued
  | running
  | paused
  | complete
  | failed
  | cancelled
  deriving DecidableEq, Repr

/-- A compiled graph on its thread, and where its stream stands. -/
structure Run where
  graph : AgentType
  threadId : String
  interruptBefore : List Node
  config : Config

/-- The columns of a task that change, and the run while there is one. -/
structure TaskState where
  status : TaskStatus
  runId : Option String
  inFlight : Option Run

structure Task where
  taskId : String
  agentType : String
  input : String
  state : TaskState

/-- The graph `_stream_agent` builds for a task. -/
def buildGraph (agentType : String) : AgentType :=
  if agentType = "researcher" then .researcher
  else if agentType = "orchestrator" then .orchestrator
  else .base

/-- Only the base graph is compiled to stop before its gate. -/
def interruptNodes (agentType : String) : List Node :=
  if agentType = "base_agent" then [.hitlGate] else []

/-- What a run starts with: the id drawn for it, the checkpoint of its thread, and
what the configuration and the prompts give. -/
structure RunStart where
  runId : String
  sessionThread : Option String
  thread : AgentState
  maxSteps : Nat
  messages : List Message

/-- The orchestrator gets a thread of its own for every task. -/
def lgThreadId (agentType : String) (start : RunStart) : String :=
  if agentType = "orchestrator" then start.runId
  else start.sessionThread.getD start.runId

def streamAgent (t : Task) (start : RunStart) : Run where
  graph := buildGraph t.agentType
  threadId := lgThreadId t.agentType start
  interruptBefore := interruptNodes t.agentType
  config :=
    ⟨.agent, freshState start.thread start.maxSteps start.runId t.input start.messages⟩

/-- How the event stream ends for its caller. -/
inductive StreamEnd where
  | ended
  | graphInterrupt
  | raised

/-- A stream is over at the end of the graph, where a node raised, and before a
node the graph interrupts at; the interrupt of a root graph raises nothing. -/
def streamEnd (run : Run) : Option StreamEnd :=
  match run.config.node with
  | .done => some .ended
  | .failed => some .raised
  | node => if run.interruptBefore.contains node then some .ended else none

/-- The status `run_task` records. -/
def runTask : StreamEnd → TaskStatus
  | .ended => .complete
  | .graphInterrupt => .paused
  | .raised => .failed

/-! ## Steps -/

inductive TaskAction where
  | cancel
  /-- `fail_dependent_tasks` reaches the task. -/
  | failDependent
  | claim (start : RunStart)
  | node (inp : NodeInput)
  | streamEnds
  /-- The engine or the database raises under the run. -/
  | raises
  /-- `reap_stuck_tasks` reaches the task; a run elsewhere goes on. -/
  | reap
  /-- The process or the coroutine of the run is gone. -/
  | dies

/-- The action ends a run. -/
def TaskAction.endsRun : TaskAction → Bool
  | .streamEnds | .raises | .dies => true
  | _ => false

inductive Action where
  | submit (taskId agentType input : String)
  | task (taskId : String) (action : TaskAction)
  /-- Approve, and what the invoked graph then meets. -/
  | approve (requestId : String) (checkpoint : Config) (inputs : List NodeInput)
  | reject (requestId : String)

structure World where
  tasks : Table Task.taskId
  requests : HitlTable

def World.start : World := ⟨.empty, []⟩

section
variable (env : Env)

def taskStep (t : Task) : TaskAction → Option (TaskState × List HitlRow)
  | .cancel =>
    if t.state.status = .queued then some ({ t.state with status := .cancelled }, [])
    else none
  | .failDependent =>
    if t.state.status = .queued then some ({ t.state with status := .failed }, [])
    else none
  | .claim start =>
    if t.state.status = .queued then
      some (⟨.running, some start.runId, some (streamAgent t start)⟩, [])
    else none
  | .node inp =>
    t.state.inFlight.bind fun run =>
      ((graph env run.graph (some run.threadId) run.interruptBefore).step
        run.config inp).map fun r =>
          ({ t.state with inFlight := some { run with config := r.1 } },
            storedRows r.2.events)
  | .streamEnds =>
    t.state.inFlight.bind fun run =>
      (streamEnd run).map fun e =>
        ({ t.state with status := runTask e, inFlight := none }, [])
  | .raises =>
    t.state.inFlight.map fun _ =>
      ({ t.state with status := runTask .raised, inFlight := none }, [])
  | .reap =>
    if t.state.status = .running then some ({ t.state with status := .failed }, [])
    else none
  | .dies => t.state.inFlight.map fun _ => ({ t.state with inFlight := none }, [])

/-- The rows as they are inserted. -/
def inserted (rows : List HitlRow) : HitlTable := rows.map fun row => ⟨row, .pending⟩

/-- The task's columns are set and the rows inserted. -/
def World.setState (w : World) (taskId : String) (s : TaskState) (rows : List HitlRow) :
    World where
  tasks := w.tasks.modify taskId (fun t => { t with state := s }) fun _ => rfl
  requests := w.requests ++ inserted rows

/-- The action starts a run under an id that is taken; `uuid4` draws none. -/
def World.reuses (w : World) : TaskAction → Bool
  | .claim start =>
    w.tasks.rows.any (·.state.runId = some start.runId) ||
      w.requests.any (·.row.runId = start.runId)
  | _ => false

/-- What the run that an approval starts inserts. -/
def resumedRows (result : RouteResult) (checkpoint : Config) (inputs : List NodeInput) :
    List HitlRow :=
  match result with
  | .approved inv =>
    ((graph env inv.graph (some inv.threadId) inv.interruptBefore).run
      (inv.start checkpoint) inputs).flatMap fun x => storedRows x.label.events
  | _ => []

def World.step (w : World) : Action → Option World
  | .submit taskId agentType input =>
    (w.tasks.insert ⟨taskId, agentType, input, ⟨.queued, none, none⟩⟩).map fun tasks =>
      { w with tasks }
  | .task taskId action =>
    if w.reuses action then none
    else
      (w.tasks.get taskId).bind fun t =>
        (taskStep env t action).map fun r => w.setState taskId r.1 r.2
  | .approve requestId checkpoint inputs =>
    let route := approveHitlRequest w.requests requestId
    some { w with requests := route.1 ++ inserted (resumedRows env route.2 checkpoint inputs) }
  | .reject requestId =>
    some { w with requests := (rejectHitlRequest w.requests requestId).1 }

/-- The worker, the routes and what else writes to the tasks. -/
def worker : Machine World Action Unit where
  step w a := (w.step env a).map fun w' => (w', ())

abbrev WorkerStep := Machine.Entry World Action Unit

/-! ## What the status is to say -/

/-- A request of the run is pending. -/
def Awaits (requests : HitlTable) (runId : Option String) : Prop :=
  ∃ req ∈ requests, req.status = .pending ∧ runId = some req.row.runId

/-- Of every task that no run is in progress for. -/
def Agrees (w : World) : Prop :=
  ∀ t ∈ w.tasks.rows, t.state.inFlight.isNone = true →
    (t.state.status = .paused ↔ Awaits w.requests t.state.runId)

/-- A run ends with every request of its own decided. -/
def EndsDecided (x : WorkerStep) : Prop :=
  ∀ taskId action, x.input = .task taskId action → action.endsRun = true →
    ∀ t ∈ x.before.tasks.rows, t.taskId = taskId →
      ¬ Awaits x.before.requests t.state.runId

variable {env}

/-! ## What a step can do -/

/-- An approval starts a run of the base graph, which inserts nothing. -/
theorem resumedRows_of_approve {result : RouteResult}
    (base : ∀ inv, result = .approved inv → ∃ threadId, inv = resumeInvocation threadId)
    (checkpoint : Config) (inputs : List NodeInput) :
    resumedRows env result checkpoint inputs = [] := by
  cases result with
  | approved inv =>
    obtain ⟨threadId, rfl⟩ := base inv rfl
    have idle := @Machine.run_invariant _ _ _ (graph env .base (some threadId) [])
      (fun c => c.node ≠ .tools ∧ c.node ≠ .verify)
      (fun _ step at_x => (base_step_stores_nothing step at_x.1 at_x.2).2)
      ((resumeInvocation threadId).start checkpoint) inputs
      ⟨Node.noConfusion, Node.noConfusion⟩
    refine List.flatMap_eq_nil_iff.mpr fun x hx => ?_
    obtain ⟨step, at_x, -⟩ := idle x hx
    exact (base_step_stores_nothing step at_x.1 at_x.2).1
  | _ => rfl

/-- The moves of one task: a run of it ends, starts or takes a step, or another
statement sets its status. -/
inductive Moves (t : Task) : TaskAction → TaskState → List HitlRow → Prop
  | ended {action : TaskAction} {status : TaskStatus} (ends : action.endsRun = true)
      (inFlight : t.state.inFlight.isSome = true)
      (notPaused : t.state.status ≠ .paused → status ≠ .paused) :
      Moves t action ⟨status, t.state.runId, none⟩ []
  | claimed (start : RunStart) :
      Moves t (.claim start) ⟨.running, some start.runId, some (streamAgent t start)⟩ []
  | stepped {inp : NodeInput} {run run' : Run} {rows : List HitlRow}
      (inFlight : t.state.inFlight = some run)
      (same : run'.config.state.runId = run.config.state.runId)
      (stored : ∀ row ∈ rows, row.runId = run.config.state.runId) :
      Moves t (.node inp) { t.state with inFlight := some run' } rows
  | set {action : TaskAction} {status : TaskStatus} (ends : action.endsRun = false)
      (notPaused : status ≠ .paused) :
      Moves t action { t.state with status } []

/-- The end of a stream never has the task paused. -/
theorem streamEnd_notPaused {run : Run} {e : StreamEnd} (h : streamEnd run = some e) :
    runTask e ≠ .paused := by
  unfold streamEnd at h
  split at h
  · cases h
    decide
  · cases h
    decide
  · split at h
    · cases h
      decide
    · cases h

theorem taskStep_moves {t : Task} {action : TaskAction} {r : TaskState × List HitlRow}
    (h : taskStep env t action = some r) : Moves t action r.1 r.2 := by
  cases action with
  | cancel =>
    obtain ⟨-, h⟩ := Option.ite_none_right_eq_some.mp h
    cases h
    exact .set rfl (by decide)
  | failDependent =>
    obtain ⟨-, h⟩ := Option.ite_none_right_eq_some.mp h
    cases h
    exact .set rfl (by decide)
  | claim start =>
    obtain ⟨-, h⟩ := Option.ite_none_right_eq_some.mp h
    cases h
    exact .claimed start
  | reap =>
    obtain ⟨-, h⟩ := Option.ite_none_right_eq_some.mp h
    cases h
    exact .set rfl (by decide)
  | node inp =>
    obtain ⟨run, inFlight, h⟩ := Option.bind_eq_some_iff.mp h
    obtain ⟨⟨config, label⟩, step, rfl⟩ := Option.map_eq_some_iff.mp h
    obtain ⟨same, stored⟩ := graph_steps_runId (x := ⟨run.config, inp, label, config⟩) step
    exact .stepped inFlight same stored
  | streamEnds =>
    obtain ⟨run, inFlight, h⟩ := Option.bind_eq_some_iff.mp h
    obtain ⟨e, ended, rfl⟩ := Option.map_eq_some_iff.mp h
    exact .ended rfl (by rw [inFlight]; rfl) fun _ => streamEnd_notPaused ended
  | raises =>
    obtain ⟨run, inFlight, rfl⟩ := Option.map_eq_some_iff.mp h
    exact .ended rfl (by rw [inFlight]; rfl) fun _ => by decide
  | dies =>
    obtain ⟨run, inFlight, rfl⟩ := Option.map_eq_some_iff.mp h
    exact .ended rfl (by rw [inFlight]; rfl) id

/-- A step of the machine: a task is inserted or moves, or a route resolves a
request. -/
inductive Steps (w : World) : Action → World → Prop
  | submitted {taskId agentType input : String} {tasks : Table Task.taskId}
      (insert : w.tasks.insert ⟨taskId, agentType, input, ⟨.queued, none, none⟩⟩ =
        some tasks) :
      Steps w (.submit taskId agentType input) { w with tasks }
  | moved {taskId : String} {action : TaskAction} {t : Task} {s : TaskState}
      {rows : List HitlRow} (fresh : w.reuses action = false)
      (found : w.tasks.get taskId = some t) (moves : Moves t action s rows) :
      Steps w (.task taskId action) (w.setState taskId s rows)
  | resolved {a : Action} {requests : HitlTable}
      (route : ∀ taskId action, a ≠ .task taskId action)
      (fewer : ∀ req ∈ requests, req.status = .pending → req ∈ w.requests) :
      Steps w a { w with requests }

theorem worker_steps {x : WorkerStep} (h : (worker env).Steps x) :
    Steps x.before x.input x.after := by
  obtain ⟨before, input, label, after⟩ := x
  obtain ⟨w', step, same⟩ := Option.map_eq_some_iff.mp h
  cases same
  dsimp only at step ⊢
  cases input with
  | submit taskId agentType input =>
    obtain ⟨tasks, insert, rfl⟩ := Option.map_eq_some_iff.mp step
    exact .submitted insert
  | task taskId action =>
    obtain ⟨fresh, step⟩ := Option.ite_none_left_eq_some.mp step
    obtain ⟨t, found, step⟩ := Option.bind_eq_some_iff.mp step
    obtain ⟨r, taken, rfl⟩ := Option.map_eq_some_iff.mp step
    exact .moved (Bool.eq_false_iff.mpr fresh) found (taskStep_moves taken)
  | approve requestId checkpoint inputs =>
    obtain ⟨fewer, base⟩ := approveHitlRequest_cases before.requests requestId
    have step : { before with
        requests := (approveHitlRequest before.requests requestId).1 ++
          inserted (resumedRows env (approveHitlRequest before.requests requestId).2
            checkpoint inputs) } = after := Option.some.inj step
    rw [resumedRows_of_approve base, inserted, List.map_nil, List.append_nil] at step
    rw [← step]
    exact .resolved (fun _ _ => by simp) fewer
  | reject requestId =>
    cases step
    exact .resolved (fun _ _ => by simp) (rejectHitlRequest_fewer before.requests requestId)

/-! ## The invariants -/

/-- What holds after any steps: no task is paused, a run carries the id its task
records, and no two tasks record one id. -/
structure Consistent (w : World) : Prop where
  notPaused : ∀ t ∈ w.tasks.rows, t.state.status ≠ .paused
  ownRun : ∀ t ∈ w.tasks.rows, ∀ run, t.state.inFlight = some run →
    t.state.runId = some run.config.state.runId
  oneTask : ∀ t ∈ w.tasks.rows, ∀ t' ∈ w.tasks.rows, ∀ id,
    t.state.runId = some id → t'.state.runId = some id → t = t'

/-- A pending request of a task's latest run has that run in progress. -/
def Waiting (w : World) : Prop :=
  ∀ t ∈ w.tasks.rows, Awaits w.requests t.state.runId → t.state.inFlight.isSome = true

theorem reuses_claim {w : World} {start : RunStart}
    (fresh : w.reuses (.claim start) = false) :
    ∀ t ∈ w.tasks.rows, t.state.runId ≠ some start.runId := by
  intro t ht same
  have none := (Bool.or_eq_false_iff.mp fresh).1
  exact List.any_eq_false.mp none t ht (decide_eq_true same)

theorem of_mem_setState {w : World} {taskId : String} {t b : Task} {s : TaskState}
    {rows : List HitlRow} (found : w.tasks.get taskId = some t)
    (hb : b ∈ (w.setState taskId s rows).tasks.rows) :
    b = { t with state := s } ∨ (b ∈ w.tasks.rows ∧ b.taskId ≠ taskId) :=
  @Table.of_mem_modify _ _ _ _ _ _ (fun t => { t with state := s }) _ _ found
    (fun _ => rfl) hb

theorem Moves.notPaused {t : Task} {action : TaskAction} {s : TaskState}
    {rows : List HitlRow} (moves : Moves t action s rows)
    (old : t.state.status ≠ .paused) : s.status ≠ .paused := by
  cases moves with
  | ended _ _ notPaused => exact notPaused old
  | claimed => exact TaskStatus.noConfusion
  | stepped => exact old
  | set _ notPaused => exact notPaused

theorem Moves.ownRun {t : Task} {action : TaskAction} {s : TaskState}
    {rows : List HitlRow} (moves : Moves t action s rows)
    (old : ∀ run, t.state.inFlight = some run →
      t.state.runId = some run.config.state.runId) :
    ∀ run, s.inFlight = some run → s.runId = some run.config.state.runId := by
  intro run inFlight
  cases moves with
  | ended => cases inFlight
  | claimed start =>
    cases inFlight
    rfl
  | stepped before same =>
    cases inFlight
    rw [same]
    exact old _ before
  | set => exact old run inFlight

/-- Only a claim changes the run a task records. -/
theorem Moves.runId {t : Task} {action : TaskAction} {s : TaskState}
    {rows : List HitlRow} (moves : Moves t action s rows) :
    s.runId = t.state.runId ∨ ∃ start, action = .claim start ∧ s.runId = some start.runId := by
  cases moves with
  | claimed start => exact .inr ⟨start, rfl, rfl⟩
  | _ => exact .inl rfl

theorem keeps_consistent {w w' : World} {a : Action} (step : Steps w a w')
    (ok : Consistent w) : Consistent w' := by
  cases step with
  | resolved => exact ⟨ok.notPaused, ok.ownRun, ok.oneTask⟩
  | submitted insert =>
    refine ⟨fun t ht => ?_, fun t ht run inFlight => ?_, fun t ht t' ht' id at_t at_t' => ?_⟩
    · rcases Table.of_mem_insert insert ht with rfl | ht
      · exact TaskStatus.noConfusion
      · exact ok.notPaused t ht
    · rcases Table.of_mem_insert insert ht with rfl | ht
      · cases inFlight
      · exact ok.ownRun t ht run inFlight
    · rcases Table.of_mem_insert insert ht with rfl | ht
      · cases at_t
      · rcases Table.of_mem_insert insert ht' with rfl | ht'
        · cases at_t'
        · exact ok.oneTask t ht t' ht' id at_t at_t'
  | @moved taskId action t s rows fresh found moves =>
    obtain ⟨mem, at_id⟩ := Table.get_mem found
    -- the task that moved records an id no other task does
    have alone : ∀ t' ∈ w.tasks.rows, t'.taskId ≠ taskId → ∀ id, s.runId = some id →
        t'.state.runId ≠ some id := by
      intro t' ht' other id at_s at_t'
      rcases moves.runId with same | ⟨start, rfl, drawn⟩
      · exact other (ok.oneTask t mem t' ht' id (same ▸ at_s) at_t' ▸ at_id)
      · rw [drawn] at at_s
        exact reuses_claim fresh t' ht' (at_t'.trans at_s.symm)
    refine ⟨fun t' ht' => ?_, fun t' ht' run inFlight => ?_,
      fun t' ht' t'' ht'' id at_t' at_t'' => ?_⟩
    · rcases of_mem_setState found ht' with rfl | ⟨ht', -⟩
      · exact moves.notPaused (ok.notPaused t mem)
      · exact ok.notPaused t' ht'
    · rcases of_mem_setState found ht' with rfl | ⟨ht', -⟩
      · exact moves.ownRun (ok.ownRun t mem) run inFlight
      · exact ok.ownRun t' ht' run inFlight
    · rcases of_mem_setState found ht' with rfl | ⟨ht', other'⟩
      · rcases of_mem_setState found ht'' with rfl | ⟨ht'', other''⟩
        · rfl
        · exact absurd at_t'' (alone t'' ht'' other'' id at_t')
      · rcases of_mem_setState found ht'' with rfl | ⟨ht'', other''⟩
        · exact absurd at_t' (alone t' ht' other' id at_t'')
        · exact ok.oneTask t' ht' t'' ht'' id at_t' at_t''

theorem awaits_append {requests : HitlTable} {rows : List HitlRow}
    {runId : Option String} (h : Awaits (requests ++ inserted rows) runId) :
    Awaits requests runId ∨ ∃ row ∈ rows, runId = some row.runId := by
  obtain ⟨req, mem, pending, same⟩ := h
  rcases List.mem_append.mp mem with mem | mem
  · exact .inl ⟨req, mem, pending, same⟩
  · obtain ⟨row, hrow, rfl⟩ := List.mem_map.mp mem
    exact .inr ⟨row, hrow, same⟩

/-- A move that ends no run undecided keeps the requests waiting for their runs. -/
theorem keeps_waiting {w w' : World} {a : Action} (step : Steps w a w')
    (ok : Consistent w)
    (decided : ∀ taskId action, a = .task taskId action → action.endsRun = true →
      ∀ t ∈ w.tasks.rows, t.taskId = taskId → ¬ Awaits w.requests t.state.runId)
    (waiting : Waiting w) : Waiting w' := by
  intro t' ht' awaits
  cases step with
  | submitted insert =>
    rcases Table.of_mem_insert insert ht' with rfl | ht'
    · obtain ⟨_, _, _, none⟩ := awaits
      cases none
    · exact waiting t' ht' awaits
  | resolved _ fewer =>
    obtain ⟨req, mem, pending, same⟩ := awaits
    exact waiting t' ht' ⟨req, fewer req mem pending, pending, same⟩
  | @moved taskId action t s rows fresh found moves =>
    obtain ⟨mem, at_id⟩ := Table.get_mem found
    rcases of_mem_setState found ht' with rfl | ⟨ht'', other⟩
    · dsimp only at awaits ⊢
      cases moves with
      | ended ends inFlight =>
        rcases awaits_append awaits with old | ⟨_, none, _⟩
        · exact absurd old (decided taskId action rfl ends t mem at_id)
        · cases none
      | claimed => rfl
      | stepped => rfl
      | set =>
        rcases awaits_append awaits with old | ⟨_, none, _⟩
        · exact waiting t mem old
        · cases none
    · rcases awaits_append awaits with old | ⟨row, stored, same⟩
      · exact waiting t' ht'' old
      · -- the row carries the id of the run that stored it, which is another task's
        cases moves with
        | stepped inFlight _ carries =>
          rw [carries row stored] at same
          have own := ok.ownRun t mem _ inFlight
          exact absurd (ok.oneTask t mem t' ht'' _ own same ▸ at_id) other
        | _ => cases stored

/-! ## Whole histories -/

theorem start_consistent : Consistent World.start :=
  ⟨fun _ h => (by cases h), fun _ h => (by cases h), fun _ h => (by cases h)⟩

theorem history_consistent (env : Env) (actions : List Action) :
    ∀ x ∈ (worker env).run World.start actions,
      (worker env).Steps x ∧ Consistent x.before ∧ Consistent x.after :=
  Machine.run_invariant (fun _ step ok => keeps_consistent (worker_steps step) ok)
    start_consistent

/-- In a consistent world the agreement asks for no pending request of an ended run. -/
theorem agrees_iff_waiting {w : World} (ok : Consistent w) : Agrees w ↔ Waiting w := by
  refine ⟨?_, ?_⟩
  · intro agrees t ht awaits
    by_contra ended
    rw [Option.not_isSome_iff_eq_none] at ended
    have paused := (agrees t ht (by rw [ended]; rfl)).mpr awaits
    exact ok.notPaused t ht paused
  · intro waiting t ht ended
    refine iff_of_false (ok.notPaused t ht) fun awaits => ?_
    have some := waiting t ht awaits
    rw [Option.isNone_iff_eq_none.mp ended] at some
    cases some

/-- A step that ends a run with a request of it pending leaves the agreement broken. -/
theorem endsDecided_of_waiting {x : WorkerStep} (step : Steps x.before x.input x.after)
    (waiting : Waiting x.after) : EndsDecided x := by
  obtain ⟨before, input, label, after⟩ := x
  dsimp only at step waiting
  intro taskId action is_input ends t ht at_id awaits
  dsimp only at is_input ht awaits
  subst is_input
  cases step with
  | resolved route => exact route taskId action rfl
  | @moved _ _ t' s rows fresh found moves =>
    obtain ⟨mem, at_id'⟩ := Table.get_mem found
    cases before.tasks.eq_of_key ht mem (at_id.trans at_id'.symm)
    have moved : { t with state := s } ∈ (before.setState taskId s rows).tasks.rows :=
      @Table.mem_modify_self _ _ _ _ _ _ (fun t => { t with state := s }) _ found
        fun _ => rfl
    have inFlight := waiting _ moved
    cases moves with
    | ended =>
      obtain ⟨req, hreq, pending, same⟩ := awaits
      exact absurd (inFlight ⟨req, List.mem_append_left _ hreq, pending, same⟩)
        Bool.false_ne_true
    | claimed => cases ends
    | stepped => cases ends
    | set off =>
      rw [off] at ends
      cases ends

/-- For every history of the worker and the routes: a task is paused exactly while a
request of its latest run is pending, whenever no run of it is in progress, if and
only if every run has its requests decided before it ends. -/
theorem status_agrees_iff (env : Env) (actions : List Action) :
    (∀ x ∈ (worker env).run World.start actions, Agrees x.after) ↔
      ∀ x ∈ (worker env).run World.start actions, EndsDecided x := by
  have consistent := history_consistent env actions
  refine ⟨?_, ?_⟩
  · intro agrees x hx
    obtain ⟨step, -, ok⟩ := consistent x hx
    exact endsDecided_of_waiting (worker_steps step) ((agrees_iff_waiting ok).mp (agrees x hx))
  · intro decided x hx
    have kept := @Machine.run_invariant_of_ok _ _ _ (worker env)
      (fun w => Consistent w ∧ Waiting w) EndsDecided
      (fun y step ok inv => ⟨keeps_consistent (worker_steps step) inv.1,
        keeps_waiting (worker_steps step) inv.1 ok inv.2⟩)
      World.start actions ⟨start_consistent, fun _ h => (by cases h)⟩ decided x hx
    exact (agrees_iff_waiting kept.2.2.1).mpr kept.2.2.2

end

/-! ## A run that completes while its request waits -/

/-- A researcher's task: its search is put up for review, and it answers without. -/
def reviewedHistory : List Action :=
  let asks : NodeInput :=
    { preflightRaises := false
      llm := fun _ => some
        { content := .text ""
          toolCalls :=
            [{ id := some (some "call_0"), name := "web_search",
               args := [("query", .str "password")] }]
          usage := some 700 }
      fallbackId := ""
      errorText := ""
      verdicts := { skipSecond with hitlInsert := fun _ _ => some "request-1" }
      inner := some []
      finalText := some "answer" }
  let answers : NodeInput :=
    { asks with
      llm := fun _ => some { content := .text "answer", toolCalls := [], usage := some 700 } }
  [.submit "task-1" "researcher" "report",
    .task "task-1" (.claim
      { runId := "run-1", sessionThread := none, thread := sampleState [], maxSteps := 40,
        messages := [] }),
    .task "task-1" (.node asks), .task "task-1" (.node asks), .task "task-1" (.node answers),
    .task "task-1" (.node answers), .task "task-1" .streamEnds]

/-- The task is complete, nothing runs, and the request is still pending. -/
theorem completed_with_request_pending :
    ∃ x ∈ (worker sampleEnv).run World.start reviewedHistory,
      (∀ t ∈ x.after.tasks.rows, t.state.status = .complete ∧ t.state.inFlight.isNone = true) ∧
        ¬ Agrees x.after := by
  unfold Agrees Awaits
  decide +kernel

end LegionForge.Gateway
