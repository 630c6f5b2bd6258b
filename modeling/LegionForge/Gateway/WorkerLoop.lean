import LegionForge.Lib.Machine
import LegionForge.Lib.Table

/-!
# The worker loop

`task_worker` shares one event loop with the coroutines it creates, so a step here is
what runs from one suspension to the next. The event loop takes what is ready in
order: a coroutine that was created starts at the next suspension, and before the
worker is resumed, except where an `await` raises at once.

`_active_tasks` counts a coroutine from its start on. So the check that follows its
creation does not see it, and where the counter is one below the limit the next claim
adds one coroutine too many. `concurrency_bound_iff` says that the limit is passed in
this way only, and by one.
-/

namespace LegionForge.Gateway

/-! ## State -/

/-- `WORKER_CONCURRENCY`, from its environment variable. -/
def workerConcurrency (setting : Option Int) : Int := max 1 (setting.getD 3)

theorem one_le_workerConcurrency (setting : Option Int) : 1 ≤ workerConcurrency setting :=
  Int.le_max_left _ _

/-- Instants are microseconds of the event loop's clock. -/
def purgeInterval : Int := 600 * 1000000

def watchdogInterval : Int := 300 * 1000000

/-- A `_run_task_tracked` coroutine in its `asyncio.Task`. -/
structure Coroutine where
  serial : Nat
  taskId : String
  /-- `cancel` was called. -/
  cancelled : Bool
  deriving DecidableEq, Repr

/-- What `task_worker` is suspended in. -/
inductive LoopPhase where
  | startupReap
  | claiming
  /-- `sleep(1)`, after a claim that found no task -/
  | idle
  /-- `sleep(0.2)`, with all slots busy -/
  | busy
  | purging (now : Int)
  | reaping (now : Int)
  /-- `sleep(2)`, after an error -/
  | backoff
  | stopped
  deriving DecidableEq, Repr

structure WorkerLoop where
  phase : LoopPhase
  /-- How many coroutines have been created. -/
  spawned : Nat
  /-- Those that have not started. -/
  created : List Coroutine
  /-- Those that have started and not finished. -/
  running : List Coroutine
  activeTasks : Int
  inFlight : Table (Prod.fst : String × Nat → String)
  lastPurge : Int
  lastWatchdog : Int

def WorkerLoop.initial : WorkerLoop where
  phase := .startupReap
  spawned := 0
  created := []
  running := []
  activeTasks := 0
  inFlight := .empty
  lastPurge := 0
  lastWatchdog := 0

/-- Created and not finished. -/
def WorkerLoop.outstanding (w : WorkerLoop) : Int := w.created.length + w.running.length

/-! ## Steps -/

/-- `asyncio.create_task(_run_task_tracked(task))` -/
def WorkerLoop.spawn (w : WorkerLoop) (taskId : String) : WorkerLoop :=
  { w with
    spawned := w.spawned + 1
    created := ⟨w.spawned, taskId, false⟩ :: w.created
    inFlight := w.inFlight.upsert (taskId, w.spawned) (fun e => (e.1, w.spawned)) fun _ => rfl }

/-- `_run_task_tracked` up to its first suspension. -/
def WorkerLoop.begin (w : WorkerLoop) (c : Coroutine) : WorkerLoop :=
  { w with
    created := w.created.erase c
    running := c :: w.running
    activeTasks := w.activeTasks + 1 }

/-- A coroutine that is cancelled before its start does not run. -/
def WorkerLoop.drop (w : WorkerLoop) (c : Coroutine) : WorkerLoop :=
  { w with created := w.created.erase c }

/-- The `finally` of `_run_task_tracked` -/
def WorkerLoop.finish (w : WorkerLoop) (c : Coroutine) : WorkerLoop :=
  { w with
    running := w.running.erase c
    activeTasks := w.activeTasks - 1
    inFlight := w.inFlight.discard fun e => e.1 = c.taskId }

/-- The check of the counter -/
def WorkerLoop.check (limit : Int) (w : WorkerLoop) : WorkerLoop :=
  { w with phase := if w.activeTasks < limit then .claiming else .busy }

def WorkerLoop.watchdogIfDue (limit : Int) (w : WorkerLoop) (now : Int) : WorkerLoop :=
  if watchdogInterval ≤ now - w.lastWatchdog then { w with phase := .reaping now }
  else w.check limit

def WorkerLoop.purgeIfDue (limit : Int) (w : WorkerLoop) (now : Int) : WorkerLoop :=
  if purgeInterval ≤ now - w.lastPurge then { w with phase := .purging now }
  else w.watchdogIfDue limit now

def Coroutine.cancel (serial : Nat) (c : Coroutine) : Coroutine :=
  if c.serial = serial then { c with cancelled := true } else c

/-- A task that was reaped is popped from `_in_flight` and cancelled. -/
def WorkerLoop.cancelReaped (w : WorkerLoop) (taskId : String) : WorkerLoop :=
  match w.inFlight.get taskId with
  | none => w
  | some e =>
    { w with
      created := w.created.map (Coroutine.cancel e.2)
      running := w.running.map (Coroutine.cancel e.2)
      inFlight := w.inFlight.discard fun e => e.1 = taskId }

inductive LoopAction where
  | starts (serial : Nat)
  | finishes (serial : Nat)
  | startupReapEnds
  | claimed (taskId : String) (now : Int)
  | queueEmpty
  | claimRaises
  | sleepEnds (now : Int)
  | purgeEnds (passed : Bool)
  /-- `none` where `reap_stuck_tasks` raises. -/
  | watchdogEnds (reaped : Option (List String))
  | backoffEnds
  | shutdown

def WorkerLoop.step (limit : Int) (w : WorkerLoop) : LoopAction → Option WorkerLoop
  | .starts serial =>
    (w.created.find? (·.serial = serial)).map fun c =>
      if c.cancelled then w.drop c else w.begin c
  | .finishes serial => (w.running.find? (·.serial = serial)).map w.finish
  | .startupReapEnds => if w.phase = .startupReap then some (w.check limit) else none
  | .claimed taskId now =>
    if w.phase = .claiming ∧ w.created = [] then some ((w.spawn taskId).purgeIfDue limit now)
    else none
  | .queueEmpty =>
    if w.phase = .claiming ∧ w.created = [] then some { w with phase := .idle } else none
  | .claimRaises => if w.phase = .claiming then some { w with phase := .backoff } else none
  | .sleepEnds now =>
    if (w.phase = .idle ∨ w.phase = .busy) ∧ w.created = [] then some (w.purgeIfDue limit now)
    else none
  | .purgeEnds passed =>
    match w.phase with
    | .purging now =>
      if passed then
        if w.created = [] then some ({ w with lastPurge := now }.watchdogIfDue limit now)
        else none
      else some (w.watchdogIfDue limit now)
    | _ => none
  | .watchdogEnds (some taskIds) =>
    match w.phase with
    | .reaping now =>
      if w.created = [] then
        some ({ taskIds.foldl cancelReaped w with lastWatchdog := now }.check limit)
      else none
    | _ => none
  | .watchdogEnds none =>
    match w.phase with
    | .reaping _ => some (w.check limit)
    | _ => none
  | .backoffEnds =>
    if w.phase = .backoff ∧ w.created = [] then some (w.check limit) else none
  | .shutdown => some { w with phase := .stopped }

def workerLoop (limit : Int) : Machine WorkerLoop LoopAction Unit where
  step w a := (w.step limit a).map (·, ())

abbrev LoopStep := Machine.Entry WorkerLoop LoopAction Unit

/-! ## What a step can do -/

section
variable {limit : Int}

/-- The worker has gone on to its next suspension, with a check of the counter if that
is a claim. -/
structure Suspends (limit : Int) (w w' : WorkerLoop) : Prop where
  created : w'.created = w.created
  running : w'.running.length = w.running.length
  activeTasks : w'.activeTasks = w.activeTasks
  check : w'.phase = .claiming → w'.activeTasks < limit

theorem suspends_check (w : WorkerLoop) : Suspends limit w (w.check limit) where
  created := rfl
  running := rfl
  activeTasks := rfl
  check := by
    unfold WorkerLoop.check
    intro claims
    by_contra full
    rw [if_neg full] at claims
    cases claims

theorem suspends_watchdogIfDue (w : WorkerLoop) (now : Int) :
    Suspends limit w (w.watchdogIfDue limit now) := by
  unfold WorkerLoop.watchdogIfDue
  split
  · exact ⟨rfl, rfl, rfl, nofun⟩
  · exact suspends_check w

theorem suspends_purgeIfDue (w : WorkerLoop) (now : Int) :
    Suspends limit w (w.purgeIfDue limit now) := by
  unfold WorkerLoop.purgeIfDue
  split
  · exact ⟨rfl, rfl, rfl, nofun⟩
  · exact suspends_watchdogIfDue w now

/-- What a step can do. -/
inductive LoopMove (limit : Int) (w : WorkerLoop) : LoopAction → WorkerLoop → Prop
  | began {serial : Nat} {c : Coroutine} (mem : c ∈ w.created) :
      LoopMove limit w (.starts serial) (w.begin c)
  | dropped {serial : Nat} {c : Coroutine} (mem : c ∈ w.created)
      (cancelled : c.cancelled = true) : LoopMove limit w (.starts serial) (w.drop c)
  | finished {serial : Nat} {c : Coroutine} (mem : c ∈ w.running) :
      LoopMove limit w (.finishes serial) (w.finish c)
  | spawned {taskId : String} {now : Int} {w' : WorkerLoop} (claiming : w.phase = .claiming)
      (started : w.created = []) (suspends : Suspends limit (w.spawn taskId) w') :
      LoopMove limit w (.claimed taskId now) w'
  | resumed {a : LoopAction} {w' : WorkerLoop} (notClaim : ∀ taskId now, a ≠ .claimed taskId now)
      (suspends : Suspends limit w w') : LoopMove limit w a w'

theorem cancelReaped_counts (w : WorkerLoop) (taskId : String) (none : w.created = []) :
    (w.cancelReaped taskId).created = [] ∧
      (w.cancelReaped taskId).running.length = w.running.length ∧
      (w.cancelReaped taskId).activeTasks = w.activeTasks := by
  unfold WorkerLoop.cancelReaped
  split
  · exact ⟨none, rfl, rfl⟩
  · simp [none]

theorem foldl_cancelReaped_counts (taskIds : List String) :
    ∀ w : WorkerLoop, w.created = [] →
      (taskIds.foldl WorkerLoop.cancelReaped w).created = [] ∧
      (taskIds.foldl WorkerLoop.cancelReaped w).running.length = w.running.length ∧
      (taskIds.foldl WorkerLoop.cancelReaped w).activeTasks = w.activeTasks := by
  induction taskIds with
  | nil => exact fun w none => ⟨none, rfl, rfl⟩
  | cons taskId taskIds ih =>
    intro w none
    obtain ⟨created, running, active⟩ := cancelReaped_counts w taskId none
    obtain ⟨created', running', active'⟩ := ih _ created
    exact ⟨created', running'.trans running, active'.trans active⟩

/-- Behind a guard the worker is only resumed. -/
theorem resumed_of_ite {p : Prop} [Decidable p] {w w₁ w' : WorkerLoop} {a : LoopAction}
    (h : (if p then some w₁ else none) = some w')
    (notClaim : ∀ taskId now, a ≠ .claimed taskId now) (suspends : Suspends limit w w₁) :
    LoopMove limit w a w' := by
  obtain ⟨-, same⟩ := Option.ite_none_right_eq_some.mp h
  cases same
  exact .resumed notClaim suspends

theorem loop_moves {w w' : WorkerLoop} {a : LoopAction} (h : w.step limit a = some w') :
    LoopMove limit w a w' := by
  cases a with
  | starts serial =>
    obtain ⟨c, found, rfl⟩ := Option.map_eq_some_iff.mp h
    have mem := List.mem_of_find?_eq_some found
    split
    · next cancelled => exact .dropped mem cancelled
    · exact .began mem
  | finishes serial =>
    obtain ⟨c, found, rfl⟩ := Option.map_eq_some_iff.mp h
    exact .finished (List.mem_of_find?_eq_some found)
  | claimed taskId now =>
    obtain ⟨⟨claiming, started⟩, same⟩ := Option.ite_none_right_eq_some.mp h
    cases same
    exact .spawned claiming started (suspends_purgeIfDue _ now)
  | startupReapEnds => exact resumed_of_ite h nofun (suspends_check w)
  | queueEmpty => exact resumed_of_ite h nofun ⟨rfl, rfl, rfl, nofun⟩
  | claimRaises => exact resumed_of_ite h nofun ⟨rfl, rfl, rfl, nofun⟩
  | sleepEnds now => exact resumed_of_ite h nofun (suspends_purgeIfDue w now)
  | backoffEnds => exact resumed_of_ite h nofun (suspends_check w)
  | shutdown =>
    cases h
    exact .resumed nofun ⟨rfl, rfl, rfl, nofun⟩
  | purgeEnds passed =>
    rw [WorkerLoop.step] at h
    split at h
    · next now _ =>
      cases passed with
      | false =>
        cases h
        exact .resumed nofun (suspends_watchdogIfDue w now)
      | true =>
        obtain ⟨created, running, active, check⟩ :=
          @suspends_watchdogIfDue limit { w with lastPurge := now } now
        exact resumed_of_ite h nofun ⟨created, running, active, check⟩
    · cases h
  | watchdogEnds reaped =>
    cases reaped with
    | none =>
      rw [WorkerLoop.step] at h
      split at h
      · cases h
        exact .resumed nofun (suspends_check w)
      · cases h
    | some taskIds =>
      rw [WorkerLoop.step] at h
      split at h
      · next now _ =>
        obtain ⟨none, same⟩ := Option.ite_none_right_eq_some.mp h
        cases same
        obtain ⟨created, running, active⟩ := foldl_cancelReaped_counts taskIds w none
        exact .resumed nofun ⟨created.trans none.symm, running, active, (suspends_check _).check⟩
      · cases h

/-! ## The bound -/

/-- The step has passed the check with the counter one below the limit and a coroutine
created that has not started. -/
def Overlooks (limit : Int) (x : LoopStep) : Prop :=
  x.after.phase = .claiming ∧ x.after.created ≠ [] ∧ x.after.activeTasks + 1 = limit

def Finishes (x : LoopStep) : Prop := ∃ serial, x.input = .finishes serial

/-- A check has overlooked a coroutine, and none has finished since. -/
def Overlooked (limit : Int) : List LoopStep → Prop :=
  Machine.Pending (Overlooks limit) Finishes

/-- A claim returns a task to a check that has overlooked a coroutine, with none
finished since. -/
def Overshoots (limit : Int) (past : List LoopStep) (x : LoopStep) : Prop :=
  (∃ taskId now, x.input = .claimed taskId now) ∧ Overlooked limit past

/-- What the steps taken say about the state they have led to. -/
structure LoopInv (limit : Int) (past : List LoopStep) (w : WorkerLoop) : Prop where
  counted : w.activeTasks = w.running.length
  uncancelled : ∀ c ∈ w.created, c.cancelled = false
  /-- The worker suspends between two creations, if only for the claim. -/
  one : w.created.length ≤ 1
  bound : w.outstanding ≤ limit + 1
  claiming : w.phase = .claiming → w.outstanding ≤ limit
  full : w.phase = .claiming → w.outstanding = limit → Overlooked limit past
  overlooked : Overlooked limit past → limit ≤ w.outstanding
  passed : limit < w.outstanding →
    ∃ pre y post, past = pre ++ y :: post ∧ Overshoots limit pre y

theorem loopInv_initial (positive : 1 ≤ limit) : LoopInv limit [] .initial where
  counted := rfl
  uncancelled := nofun
  one := Nat.zero_le 1
  bound := by
    show (0 : Int) ≤ limit + 1
    omega
  claiming := nofun
  full := nofun
  overlooked := fun past => absurd past Machine.not_pending_nil
  passed := by
    intro above
    have : limit < (0 : Int) := above
    omega

/-- After a passed check the coroutines are at most as many as the limit, and as many
only if one was overlooked. -/
theorem outstanding_of_check {w : WorkerLoop} (counted : w.activeTasks = w.running.length)
    (one : w.created.length ≤ 1) (check : w.activeTasks < limit) :
    w.outstanding ≤ limit ∧
      (w.outstanding = limit → w.created ≠ [] ∧ w.activeTasks + 1 = limit) := by
  unfold WorkerLoop.outstanding
  refine ⟨by omega, fun full => ⟨fun none => ?_, by omega⟩⟩
  rw [none, List.length_nil] at full
  omega

theorem passed_concat {past : List LoopStep} (x : LoopStep)
    (h : ∃ pre y post, past = pre ++ y :: post ∧ Overshoots limit pre y) :
    ∃ pre y post, past ++ [x] = pre ++ y :: post ∧ Overshoots limit pre y := by
  obtain ⟨pre, y, post, rfl, overshoots⟩ := h
  exact ⟨pre, y, post ++ [x], by simp, overshoots⟩

/-- The worker goes on to its next suspension from a state `w` with the coroutines of
the one before, or with one more. -/
theorem loopInv_suspended {past : List LoopStep} {x : LoopStep} {w : WorkerLoop}
    (suspends : Suspends limit w x.after) (counted : w.activeTasks = w.running.length)
    (uncancelled : ∀ c ∈ w.created, c.cancelled = false) (one : w.created.length ≤ 1)
    (bound : w.outstanding ≤ limit + 1) (overlooked : Overlooked limit past → limit ≤ w.outstanding)
    (passed : limit < w.outstanding →
      ∃ pre y post, past ++ [x] = pre ++ y :: post ∧ Overshoots limit pre y) :
    LoopInv limit (past ++ [x]) x.after := by
  have same : x.after.outstanding = w.outstanding := by
    unfold WorkerLoop.outstanding
    rw [suspends.created, suspends.running]
  rw [← suspends.activeTasks, ← suspends.running] at counted
  rw [← suspends.created] at uncancelled one
  rw [← same] at bound overlooked passed
  constructor
  case counted => exact counted
  case uncancelled => exact uncancelled
  case one => exact one
  case bound => exact bound
  case passed => exact passed
  case claiming =>
    intro claims
    exact (outstanding_of_check counted one (suspends.check claims)).1
  case full =>
    intro claims full
    have overlooks := (outstanding_of_check counted one (suspends.check claims)).2 full
    exact Machine.pending_concat_iff.mpr (.inl ⟨claims, overlooks⟩)
  case overlooked =>
    intro now
    rcases Machine.pending_concat_iff.mp now with ⟨-, created, active⟩ | ⟨before, -⟩
    · have := List.length_pos_iff.mpr created
      unfold WorkerLoop.outstanding
      omega
    · exact overlooked before

theorem loopInv_resumed {past : List LoopStep} {x : LoopStep}
    (inv : LoopInv limit past x.before) (suspends : Suspends limit x.before x.after) :
    LoopInv limit (past ++ [x]) x.after :=
  loopInv_suspended suspends inv.counted inv.uncancelled inv.one inv.bound inv.overlooked
    fun above => passed_concat x (inv.passed above)

theorem outstanding_spawn (w : WorkerLoop) (taskId : String) :
    (w.spawn taskId).outstanding = w.outstanding + 1 := by
  simp only [WorkerLoop.outstanding, WorkerLoop.spawn, List.length_cons]
  omega

theorem loopInv_spawned {past : List LoopStep} {x : LoopStep} {taskId : String} {now : Int}
    (inv : LoopInv limit past x.before) (input : x.input = .claimed taskId now)
    (claiming : x.before.phase = .claiming) (started : x.before.created = [])
    (suspends : Suspends limit (x.before.spawn taskId) x.after) :
    LoopInv limit (past ++ [x]) x.after := by
  have room := inv.claiming claiming
  have more := outstanding_spawn x.before taskId
  refine loopInv_suspended suspends inv.counted ?_ ?_ ?_ ?_ ?_
  · intro c hc
    rw [WorkerLoop.spawn, started] at hc
    rw [List.mem_singleton.mp hc]
  · rw [WorkerLoop.spawn, started]
    exact Nat.le_refl 1
  · omega
  · intro overlooked
    have := inv.overlooked overlooked
    omega
  · intro above
    have full : x.before.outstanding = limit := by omega
    exact ⟨past, x, [], rfl, ⟨taskId, now, input⟩, inv.full claiming full⟩

/-- A coroutine starts: it goes from one list to the other. -/
theorem loopInv_began {past : List LoopStep} {x : LoopStep} {c : Coroutine} {serial : Nat}
    (inv : LoopInv limit past x.before) (input : x.input = .starts serial)
    (mem : c ∈ x.before.created) (after : x.after = x.before.begin c) :
    LoopInv limit (past ++ [x]) x.after := by
  have fewer := List.length_erase_of_mem mem
  have some := List.length_pos_of_mem mem
  have one := inv.one
  have counted := inv.counted
  have same : (x.before.begin c).outstanding = x.before.outstanding := by
    simp only [WorkerLoop.outstanding, WorkerLoop.begin, List.length_cons]
    omega
  have none : (x.before.begin c).created = [] := by
    refine List.eq_nil_of_length_eq_zero ?_
    simp only [WorkerLoop.begin]
    omega
  have unfinished : ¬ Finishes x := by
    rintro ⟨_, finishes⟩
    rw [input] at finishes
    cases finishes
  rw [after]
  constructor
  case counted =>
    simp only [WorkerLoop.begin, List.length_cons]
    omega
  case uncancelled => simp [none]
  case one => simp [none]
  case bound => exact same ▸ inv.bound
  case claiming => exact fun claims => same ▸ inv.claiming claims
  case full =>
    intro claims full
    exact Machine.pending_concat_iff.mpr (.inr ⟨inv.full claims (same ▸ full), unfinished⟩)
  case overlooked =>
    intro now
    rcases Machine.pending_concat_iff.mp now with ⟨-, created, -⟩ | ⟨before, -⟩
    · rw [after] at created
      exact absurd none created
    · exact same ▸ inv.overlooked before
  case passed => exact fun above => passed_concat x (inv.passed (same ▸ above))

theorem loopInv_finished {past : List LoopStep} {x : LoopStep} {c : Coroutine} {serial : Nat}
    (inv : LoopInv limit past x.before) (input : x.input = .finishes serial)
    (mem : c ∈ x.before.running) (after : x.after = x.before.finish c) :
    LoopInv limit (past ++ [x]) x.after := by
  have fewer := List.length_erase_of_mem mem
  have some := List.length_pos_of_mem mem
  have counted := inv.counted
  have bound := inv.bound
  have less : (x.before.finish c).outstanding = x.before.outstanding - 1 := by
    simp only [WorkerLoop.outstanding, WorkerLoop.finish]
    omega
  have counted' : (x.before.finish c).activeTasks = (x.before.finish c).running.length := by
    simp only [WorkerLoop.finish]
    omega
  rw [after]
  constructor
  case counted => exact counted'
  case uncancelled => exact inv.uncancelled
  case one => exact inv.one
  case bound => omega
  case claiming =>
    intro claims
    have := inv.claiming claims
    omega
  case full =>
    intro claims full
    have := inv.claiming claims
    omega
  case overlooked =>
    intro now
    rcases Machine.pending_concat_iff.mp now with ⟨claims, created, active⟩ | ⟨-, open_⟩
    · rw [after] at created active
      have := List.length_pos_iff.mpr created
      unfold WorkerLoop.outstanding
      omega
    · exact absurd ⟨serial, input⟩ open_
  case passed =>
    intro above
    exact passed_concat x (inv.passed (by omega))

theorem loopInv_of_step {past : List LoopStep} {x : LoopStep}
    (h : (workerLoop limit).Steps x) (inv : LoopInv limit past x.before) :
    LoopInv limit (past ++ [x]) x.after := by
  obtain ⟨w, a, label, w'⟩ := x
  obtain ⟨_, step, same⟩ := Option.map_eq_some_iff.mp h
  cases same
  have moves : LoopMove limit w a w' := loop_moves step
  cases moves with
  | began mem => exact loopInv_began inv rfl mem rfl
  | dropped mem cancelled =>
    rw [inv.uncancelled _ mem] at cancelled
    cases cancelled
  | finished mem => exact loopInv_finished inv rfl mem rfl
  | spawned claiming started suspends => exact loopInv_spawned inv rfl claiming started suspends
  | resumed _ suspends => exact loopInv_resumed inv suspends

/-- A claim that returns a task adds a coroutine. -/
theorem outstanding_of_claimed {x : LoopStep} {taskId : String} {now : Int}
    (h : (workerLoop limit).Steps x) (input : x.input = .claimed taskId now) :
    x.after.outstanding = x.before.outstanding + 1 := by
  obtain ⟨w, a, label, w'⟩ := x
  obtain ⟨_, step, same⟩ := Option.map_eq_some_iff.mp h
  cases same
  have moves : LoopMove limit w a w' := loop_moves step
  cases moves with
  | spawned _ _ suspends =>
    rw [← outstanding_spawn w _]
    unfold WorkerLoop.outstanding
    rw [suspends.created, suspends.running]
  | resumed notClaim => exact absurd input (notClaim _ _)
  | _ => cases input

end

/-- In every run of the event loop the coroutines that were created and have not finished
are at most one more than the limit; and they are never more than the limit exactly
when no claim returns a task after a check that has overlooked a coroutine, with none
finished since. -/
theorem concurrency_bound_iff (setting : Option Int) (actions : List LoopAction) :
    let limit := workerConcurrency setting
    let run := (workerLoop limit).run .initial actions
    (∀ x ∈ run, x.after.outstanding ≤ limit + 1) ∧
      ((∀ x ∈ run, x.after.outstanding ≤ limit) ↔
        ∀ past x later, run = past ++ x :: later → ¬ Overshoots limit past x) := by
  intro limit run
  have inv : ∀ past x later, run = past ++ x :: later →
      (workerLoop limit).Steps x ∧ LoopInv limit past x.before :=
    Machine.history_invariant (fun _ _ step inv => loopInv_of_step step inv)
      (loopInv_initial (one_le_workerConcurrency setting))
  -- the invariant after a step of the run
  have after : ∀ past x later, run = past ++ x :: later →
      LoopInv limit (past ++ [x]) x.after := by
    intro past x later split
    obtain ⟨step, before⟩ := inv past x later split
    exact loopInv_of_step step before
  refine ⟨?_, ?_, ?_⟩
  · intro x hx
    obtain ⟨past, later, split⟩ := List.append_of_mem hx
    exact (after past x later split).bound
  · rintro bounded past x later split ⟨⟨taskId, now, input⟩, overlooked⟩
    obtain ⟨step, before⟩ := inv past x later split
    have full := before.overlooked overlooked
    have more := outstanding_of_claimed step input
    have := bounded x (by simp [split])
    omega
  · intro clean x hx
    obtain ⟨past, later, split⟩ := List.append_of_mem hx
    by_contra above
    obtain ⟨pre, y, post, earlier, overshoots⟩ := (after past x later split).passed (by omega)
    refine clean pre y (post ++ later) ?_ overshoots
    rw [split, ← List.singleton_append, ← List.append_assoc, earlier, List.append_assoc,
      List.cons_append]

/-! ## A slot too many -/

/-- Four tasks are queued when the worker starts, with the limit of three that is the
default. Purge and watchdog are due the first time round. -/
def fourTasks : List LoopAction :=
  let now : Int := 1000 * 1000000
  [.startupReapEnds, .claimed "task-1" now, .starts 0, .purgeEnds true,
    .watchdogEnds (some []), .claimed "task-2" (now + 1), .starts 1,
    .claimed "task-3" (now + 2), .starts 2, .claimed "task-4" (now + 3)]

theorem fourth_coroutine_created :
    ∃ x ∈ (workerLoop (workerConcurrency none)).run .initial fourTasks,
      workerConcurrency none < x.after.outstanding := by
  decide +kernel

end LegionForge.Gateway
