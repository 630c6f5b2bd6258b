import Mathlib.Logic.Function.Basic
import LegionForge.Lib.Machine
import LegionForge.Lib.Table
import LegionForge.Security.Sanitize

/-!
# The scheduler

Every gateway process runs a scheduler on the one table `scheduled_tasks`. A tick reads
the due rows, and for each row it read creates a task and then writes the row's next fire
time. Reading, creating and writing are statements of their own, on connections that
commit each by itself, so ticks of other processes and edits by the users come between
any two of them, and each can fail where the others have not.

The schedulers of all processes are one machine over the table, with the users' edits
among its actions; `SchedulerMove` lists what a step can do.
-/

namespace LegionForge.Gateway

open Security

/-! ## Cron expressions -/

/-- What the cron helpers take from elsewhere. Times are microseconds of UTC. -/
structure CronEnv where
  unicode : Unicode
  /-- The value `int` gives a decimal digit. -/
  digitValue : Char → Nat
  /-- `croniter.is_valid(expr)` -/
  croniterIsValid : String → Bool
  /-- `croniter(expr, after).get_next(datetime)`, `none` if it raises. -/
  croniterNext : String → Int → Option Int

section
variable (env : CronEnv)

/-- `expr.strip()` -/
def CronEnv.strip (expr : String) : List Char :=
  ((expr.toList.dropWhile env.unicode.space).reverse.dropWhile env.unicode.space).reverse

def shortcuts : List (String × String) :=
  [("@hourly", "0 * * * *"), ("@daily", "0 0 * * *"), ("@midnight", "0 0 * * *"),
    ("@weekly", "0 0 * * 0"), ("@monthly", "0 0 1 * *"), ("@yearly", "0 0 1 1 *"),
    ("@annually", "0 0 1 1 *")]

def expandShortcut (expr : String) : String :=
  let text := env.strip expr
  (shortcuts.lookup (String.ofList (env.unicode.lower text))).getD (String.ofList text)

def minute : Int := 60000000

/-- The length of a unit of `_EVERY_RE`. -/
def unitLength (c : Char) : Option Int :=
  match c.toLower with
  | 'm' => some minute
  | 'h' => some (60 * minute)
  | 'd' => some (24 * 60 * minute)
  | _ => none

/-- The longest `timedelta`: a day less a microsecond behind 999999999 days. -/
def maxDelta : Int := 1000000000 * (24 * 60 * minute) - 1

/-- `int` of decimal digits; the interpreter takes at most 4300. -/
def CronEnv.int (digits : List Char) : Option Nat :=
  if digits.length ≤ 4300 then
    some (digits.foldl (fun n c => 10 * n + env.digitValue c) 0)
  else none

/-- `timedelta` of some units, `none` if it overflows. -/
def timedelta (n : Nat) (unit : Int) : Option Int :=
  if n * unit ≤ maxDelta then some (n * unit) else none

/-- `_every_delta`: `none` if the text is no `@every` expression, and inside `none` if `int`
or `timedelta` raises. After the keyword come spaces, digits and one letter, in that order,
so the pattern can be read off from left to right. -/
def everyDelta (expr : String) : Option (Option Int) :=
  let text := env.strip expr
  if (text.take 6).map Char.toLower = "@every".toList then
    let rest := text.drop 6
    let amount := rest.dropWhile env.unicode.space
    let digits := amount.takeWhile env.unicode.digit
    if amount.length = rest.length || digits.isEmpty then none
    else match amount.dropWhile env.unicode.digit with
      | [unit] => (unitLength unit).map fun length => do timedelta (← env.int digits) length
      | _ => none
  else none

/-- The end of the year 9999, behind which a `datetime` overflows. -/
def maxTime : Int := 253402300799999999

/-- `compute_next_run`, `none` where it raises. -/
def computeNextRun (cronExpr : String) (after : Int) : Option Int :=
  match everyDelta env cronExpr with
  | some delta => do
    let time := after + (← delta)
    if time ≤ maxTime then some time else none
  | none => env.croniterNext (expandShortcut env cronExpr) after

/-- `validate_cron_expr`, false where it raises. -/
def validateCronExpr (cronExpr : String) : Bool :=
  match everyDelta env cronExpr with
  | some delta => delta.isSome
  | none => env.croniterIsValid (expandShortcut env cronExpr)

/-- Validated and computed, as the routes do with an expression they are given; `none`
if either raises. -/
def firstRun (cronExpr : String) (now : Int) : Option Int :=
  if validateCronExpr env cronExpr then computeNextRun env cronExpr now else none

/-- The time is one the expression leads to. -/
def FireTime (cronExpr : String) (time : Int) : Prop :=
  ∃ after, computeNextRun env cronExpr after = some time

end

/-! ## Rows and statements -/

/-- A row of `scheduled_tasks`. -/
structure Schedule where
  id : Nat
  userId : String
  name : String
  taskText : String
  agentType : String
  cronExpr : String
  nextRunAt : Int
  lastRunAt : Option Int
  lastTaskId : Option String
  enabled : Bool
  deriving DecidableEq, Repr

/-- A schedule and a time it came due at. -/
abbrev Occurrence := Nat × Int

def Schedule.occurrence (r : Schedule) : Occurrence := (r.id, r.nextRunAt)

/-- The fields of a `PUT /schedules/{id}`. -/
structure ScheduleChanges where
  name : Option String := none
  taskText : Option String := none
  cronExpr : Option String := none
  agentType : Option String := none
  enabled : Option Bool := none

/-- The `SET` list of `update_scheduled_task`. -/
def Schedule.update (r : Schedule) (changes : ScheduleChanges) (nextRunAt : Option Int) :
    Schedule :=
  { r with
    name := changes.name.getD r.name
    taskText := changes.taskText.getD r.taskText
    agentType := changes.agentType.getD r.agentType
    enabled := changes.enabled.getD r.enabled
    cronExpr := changes.cronExpr.getD r.cronExpr
    nextRunAt := nextRunAt.getD r.nextRunAt }

/-- What `create_task` is given for a schedule. -/
structure Firing where
  userId : String
  inputText : String
  agentType : String
  /-- `config["schedule_id"]` -/
  scheduleId : Nat
  /-- The due time of the row that was read. -/
  due : Int
  deriving DecidableEq, Repr

def Schedule.firing (r : Schedule) : Firing :=
  ⟨r.userId, r.taskText, r.agentType, r.id, r.nextRunAt⟩

def Firing.occurrence (f : Firing) : Occurrence := (f.scheduleId, f.due)

/-! ## Ticks -/

/-- Where the scheduler of a process is. -/
inductive TickPhase where
  | idle
  /-- These rows are still to be fired. -/
  | firing (due : List Schedule)
  /-- The task of the row is created; `record_scheduled_run` is under way. -/
  | recording (sched : Schedule) (taskId : String) (nextRun : Int) (due : List Schedule)
  deriving DecidableEq

/-- A tick goes on while rows are left. -/
def TickPhase.ofDue : List Schedule → TickPhase
  | [] => .idle
  | due => .firing due

/-- The rows a tick read and has not fired. -/
def TickPhase.pending : TickPhase → List Schedule
  | .idle => []
  | .firing due | .recording _ _ _ due => due

/-- The rows a tick goes on with: those, and the one whose run is to be recorded. -/
def TickPhase.held : TickPhase → List Schedule
  | .idle => []
  | .firing due => due
  | .recording sched _ _ due => sched :: due

structure Schedulers where
  /-- `now()` of the database. -/
  now : Int
  schedules : Table Schedule.id
  /-- The next number of the id sequence. -/
  nextId : Nat
  /-- The tick of each process. -/
  ticks : Nat → TickPhase

/-- How `create_task` comes back; it may raise after its row is stored. `now` is the
process's clock behind it. -/
inductive CreateAnswer where
  | created (taskId : String) (now : Int)
  | raised (stored : Bool)

inductive SchedulerAction where
  | elapse (dt : Nat)
  | createSchedule (userId name taskText agentType cronExpr : String) (now : Int)
  | updateSchedule (id : Nat) (userId : String) (changes : ScheduleChanges) (now : Int)
  | deleteSchedule (id : Nat) (userId : String)
  /-- The answer of `get_due_scheduled_tasks`. -/
  | getDue (p : Nat) (due : List Schedule)
  | createTask (p : Nat) (answer : CreateAnswer)
  /-- `record_scheduled_run`, which may raise instead of committing. -/
  | recordRun (p : Nat) (commits : Bool)
  /-- The process stops, or its tick is cancelled. -/
  | stop (p : Nat)

def isDue (now : Int) (r : Schedule) : Bool := r.enabled && r.nextRunAt ≤ now

/-- `next_run` of `_fire`, with the fallback of one hour. -/
def nextRun (env : CronEnv) (cronExpr : String) (now : Int) : Int :=
  (computeNextRun env cronExpr now).getD (now + 60 * minute)

def Schedulers.setTick (s : Schedulers) (p : Nat) (phase : TickPhase) : Schedulers :=
  { s with ticks := Function.update s.ticks p phase }

/-- What a `PUT` writes to `next_run_at`: nothing without a new expression. The outer
`none` is a request that is refused before its statement. -/
def changedRun (env : CronEnv) (changes : ScheduleChanges) (now : Int) : Option (Option Int) :=
  match changes.cronExpr with
  | none => some none
  | some cronExpr => (firstRun env cronExpr now).map some

/-- The table after an `UPDATE` of `update_scheduled_task`. -/
def Schedulers.updated (s : Schedulers) (id : Nat) (userId : String)
    (changes : ScheduleChanges) (nextRunAt : Option Int) : Table Schedule.id :=
  s.schedules.modify id
    (fun r => if r.userId = userId then r.update changes nextRunAt else r)
    fun r => by split <;> rfl

/-- The table after the `UPDATE` of `record_scheduled_run`. -/
def Schedulers.recorded (s : Schedulers) (id : Nat) (taskId : String) (nextRunAt : Int) :
    Table Schedule.id :=
  s.schedules.modify id
    ({ · with lastRunAt := some s.now, lastTaskId := some taskId, nextRunAt }) fun _ => rfl

def Schedulers.step (env : CronEnv) (s : Schedulers) :
    SchedulerAction → Option (Schedulers × Option Firing)
  | .elapse dt => some ({ s with now := s.now + dt }, none)
  | .createSchedule userId name taskText agentType cronExpr now =>
    match firstRun env cronExpr now with
    | none => some (s, none)
    | some nextRunAt =>
      (s.schedules.insert ⟨s.nextId, userId, name, taskText, agentType, cronExpr, nextRunAt,
          none, none, true⟩).map fun schedules =>
        ({ s with schedules, nextId := s.nextId + 1 }, none)
  | .updateSchedule id userId changes now =>
    match changedRun env changes now with
    | none => some (s, none)
    | some nextRunAt =>
      some ({ s with schedules := s.updated id userId changes nextRunAt }, none)
  | .deleteSchedule id userId =>
    let schedules := s.schedules.discard fun r => r.id = id && r.userId = userId
    some ({ s with schedules }, none)
  | .getDue p due =>
    if s.ticks p = .idle ∧ due.Perm (s.schedules.rows.filter (isDue s.now)) ∧
        due.Pairwise fun a b => a.nextRunAt ≤ b.nextRunAt then
      some (s.setTick p (.ofDue due), none)
    else none
  | .createTask p answer =>
    match s.ticks p with
    | .firing (sched :: due) =>
      match answer with
      | .created taskId now =>
        some (s.setTick p (.recording sched taskId (nextRun env sched.cronExpr now) due),
          some sched.firing)
      | .raised stored =>
        some (s.setTick p (.ofDue due), if stored then some sched.firing else none)
    | _ => none
  | .recordRun p commits =>
    match s.ticks p with
    | .recording sched taskId nextRunAt due =>
      let schedules := if commits then s.recorded sched.id taskId nextRunAt else s.schedules
      some ({ s with schedules }.setTick p (.ofDue due), none)
    | _ => none
  | .stop p => some (s.setTick p .idle, none)

def schedulers (env : CronEnv) : Machine Schedulers SchedulerAction (Option Firing) where
  step s a := s.step env a

abbrev SchedulerStep := Machine.Entry Schedulers SchedulerAction (Option Firing)

/-- No schedule yet, no process at work. -/
def Schedulers.empty (now : Int) : Schedulers := ⟨now, .empty, 1, fun _ => .idle⟩

section
variable {env : CronEnv} {s : Schedulers}

/-! ## What a step can do -/

@[simp] theorem TickPhase.pending_ofDue (due : List Schedule) : (ofDue due).pending = due := by
  cases due <;> rfl

@[simp] theorem TickPhase.held_ofDue (due : List Schedule) : (ofDue due).held = due := by
  cases due <;> rfl

theorem TickPhase.ofDue_ne_recording {due rest : List Schedule} {sched : Schedule}
    {taskId : String} {nextRunAt : Int} : ofDue due ≠ .recording sched taskId nextRunAt rest := by
  cases due <;> simp [ofDue]

theorem TickPhase.pending_subset_held {phase : TickPhase} {r : Schedule}
    (h : r ∈ phase.pending) : r ∈ phase.held := by
  cases phase with
  | recording sched taskId nextRunAt due => exact List.mem_cons_of_mem _ h
  | _ => exact h

@[simp] theorem setTick_ticks (p q : Nat) (phase : TickPhase) :
    (s.setTick p phase).ticks q = if q = p then phase else s.ticks q := by
  simp [Schedulers.setTick, Function.update_apply]

@[simp] theorem setTick_schedules (p : Nat) (phase : TickPhase) :
    (s.setTick p phase).schedules = s.schedules := rfl

@[simp] theorem setTick_now (p : Nat) (phase : TickPhase) :
    (s.setTick p phase).now = s.now := rfl

@[simp] theorem setTick_nextId (p : Nat) (phase : TickPhase) :
    (s.setTick p phase).nextId = s.nextId := rfl

inductive SchedulerMove (env : CronEnv) (s : Schedulers) :
    SchedulerAction → Schedulers → Option Firing → Prop
  | elapsed {dt : Nat} : SchedulerMove env s (.elapse dt) { s with now := s.now + dt } none
  | refused {a : SchedulerAction} : SchedulerMove env s a s none
  | created {userId name taskText agentType cronExpr : String} {now nextRunAt : Int}
      {schedules : Table Schedule.id} (first : firstRun env cronExpr now = some nextRunAt)
      (insert : s.schedules.insert ⟨s.nextId, userId, name, taskText, agentType, cronExpr,
        nextRunAt, none, none, true⟩ = some schedules) :
      SchedulerMove env s (.createSchedule userId name taskText agentType cronExpr now)
        { s with schedules, nextId := s.nextId + 1 } none
  | updated {id : Nat} {userId : String} {changes : ScheduleChanges} {now : Int}
      {nextRunAt : Option Int} (changed : changedRun env changes now = some nextRunAt) :
      SchedulerMove env s (.updateSchedule id userId changes now)
        { s with schedules := s.updated id userId changes nextRunAt } none
  | deleted {id : Nat} {userId : String} :
      SchedulerMove env s (.deleteSchedule id userId)
        { s with
          schedules := Table.discard s.schedules fun r => r.id = id && r.userId = userId } none
  | read {p : Nat} {due : List Schedule} (idle : s.ticks p = .idle)
      (perm : due.Perm (s.schedules.rows.filter (isDue s.now))) :
      SchedulerMove env s (.getDue p due) (s.setTick p (.ofDue due)) none
  | fired {p : Nat} {sched : Schedule} {due : List Schedule} {taskId : String} {now : Int}
      (place : s.ticks p = .firing (sched :: due)) :
      SchedulerMove env s (.createTask p (.created taskId now))
        (s.setTick p (.recording sched taskId (nextRun env sched.cronExpr now) due))
        (some sched.firing)
  | failed {p : Nat} {sched : Schedule} {due : List Schedule} {stored : Bool}
      (place : s.ticks p = .firing (sched :: due)) :
      SchedulerMove env s (.createTask p (.raised stored)) (s.setTick p (.ofDue due))
        (if stored then some sched.firing else none)
  | recorded {p : Nat} {sched : Schedule} {due : List Schedule} {taskId : String}
      {nextRunAt : Int} (place : s.ticks p = .recording sched taskId nextRunAt due) :
      SchedulerMove env s (.recordRun p true)
        ({ s with schedules := s.recorded sched.id taskId nextRunAt }.setTick p (.ofDue due))
        none
  | unrecorded {p : Nat} {sched : Schedule} {due : List Schedule} {taskId : String}
      {nextRunAt : Int} (place : s.ticks p = .recording sched taskId nextRunAt due) :
      SchedulerMove env s (.recordRun p false) (s.setTick p (.ofDue due)) none
  | stopped {p : Nat} : SchedulerMove env s (.stop p) (s.setTick p .idle) none

theorem scheduler_moves {x : SchedulerStep} (h : (schedulers env).Steps x) :
    SchedulerMove env x.before x.input x.after x.label := by
  obtain ⟨s, a, label, s'⟩ := x
  have h : s.step env a = some (s', label) := h
  cases a with
  | elapse dt =>
    cases h
    exact .elapsed
  | createSchedule userId name taskText agentType cronExpr now =>
    simp only [Schedulers.step] at h
    split at h
    · cases h
      exact .refused
    · next nextRunAt first =>
      obtain ⟨schedules, insert, same⟩ := Option.map_eq_some_iff.mp h
      cases same
      exact .created first insert
  | updateSchedule id userId changes now =>
    simp only [Schedulers.step] at h
    split at h
    · cases h
      exact .refused
    · next nextRunAt changed =>
      cases h
      exact .updated changed
  | deleteSchedule id userId =>
    cases h
    exact .deleted
  | getDue p due =>
    simp only [Schedulers.step] at h
    split at h
    · next legal =>
      cases h
      exact .read legal.1 legal.2.1
    · cases h
  | createTask p answer =>
    simp only [Schedulers.step] at h
    split at h
    · next sched due place =>
      cases answer with
      | created taskId now =>
        cases h
        exact .fired place
      | raised stored =>
        cases h
        exact .failed place
    · cases h
  | recordRun p commits =>
    simp only [Schedulers.step] at h
    split at h
    · next sched taskId nextRunAt due place =>
      cases commits with
      | true =>
        cases h
        exact .recorded place
      | false =>
        cases h
        exact .unrecorded place
    · cases h
  | stop p =>
    cases h
    exact .stopped

/-! ## Rows after a statement -/

/-- A row of the table after an edit: an old one, or one with its new time. -/
theorem of_mem_updated {id : Nat} {userId : String} {changes : ScheduleChanges}
    {nextRunAt : Option Int} {r : Schedule}
    (hr : r ∈ (s.updated id userId changes nextRunAt).rows) :
    r ∈ s.schedules.rows ∨ ∃ r' ∈ s.schedules.rows, r'.id = id ∧ r'.userId = userId ∧
      r = r'.update changes nextRunAt := by
  obtain ⟨r', hr', rfl⟩ := List.mem_map.mp hr
  split
  · next at_id =>
    dsimp only
    split
    · next owner => exact .inr ⟨r', hr', at_id, owner, rfl⟩
    · exact .inl hr'
  · exact .inl hr'

/-- A row of the table after a run was recorded: an old one of another schedule, or the
schedule's with its new time. -/
theorem of_mem_recorded {id : Nat} {taskId : String} {nextRunAt : Int} {r : Schedule}
    (hr : r ∈ (s.recorded id taskId nextRunAt).rows) :
    (r ∈ s.schedules.rows ∧ r.id ≠ id) ∨ ∃ r' ∈ s.schedules.rows, r'.id = id ∧
      r = { r' with lastRunAt := some s.now, lastTaskId := some taskId, nextRunAt } := by
  obtain ⟨r', hr', rfl⟩ := List.mem_map.mp hr
  split
  · next at_id => exact .inr ⟨r', hr', at_id, rfl⟩
  · next other => exact .inl ⟨hr', other⟩

end

/-! ## A schedule of five minutes -/

def sampleCron : CronEnv where
  unicode := .ascii
  digitValue c := c.toNat - '0'.toNat
  croniterIsValid expr := expr = "0 * * * *" || expr = "0 0 * * *"
  croniterNext expr after :=
    if expr = "0 * * * *" then some ((after / (60 * minute) + 1) * (60 * minute))
    else if expr = "0 0 * * *" then some ((after / (24 * 60 * minute) + 1) * (24 * 60 * minute))
    else none

def digest : Schedule where
  id := 1
  userId := "ada"
  name := "Digest"
  taskText := "report"
  agentType := "researcher"
  cronExpr := "@every 5m"
  nextRunAt := 300000000
  lastRunAt := none
  lastTaskId := none
  enabled := true

/-- The schedule is created and comes due. -/
def digestDue : List SchedulerAction :=
  [.createSchedule "ada" "Digest" "report" "researcher" "@every 5m" 0, .elapse 300000000]

theorem digest_created : (schedulers sampleCron).step (.empty 0)
    (.createSchedule "ada" "Digest" "report" "researcher" "@every 5m" 0) =
    some ({ Schedulers.empty 0 with
      schedules := ⟨[digest], List.nodup_singleton _⟩, nextId := 2 }, none) := by
  have first : firstRun sampleCron "@every 5m" 0 = some 300000000 := by decide +kernel
  simp only [schedulers, Schedulers.step, first]
  rfl

end LegionForge.Gateway
