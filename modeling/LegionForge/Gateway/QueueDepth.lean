import LegionForge.Gateway.TaskQueue
import Mathlib.Data.List.Perm.Subperm

/-!
# The queue cap of a user

The routes count a user's queued and running tasks in one statement and insert in
another, and of the callers of `create_task` only the two submission routes count at
all. No other statement adds to the count, so the cap holds as long as every insert finds
room. `queue_cap_iff` says so, and that an insert finds room when its request has counted
and nobody else has inserted a task of the user since.
-/

namespace LegionForge.Gateway

/-! ## Requests -/

/-- Who calls `create_task` -/
inductive CreateRoute where
  | submitTask
  | submitTasksBatch
  | retryTask
  | a2aSubmitTask
  | schedule
  | pipelineStep
  deriving DecidableEq, Repr

/-- The route calls `_check_queue_depth`. -/
def CreateRoute.checks : CreateRoute → Bool
  | .submitTask | .submitTasksBatch => true
  | .retryTask | .a2aSubmitTask | .schedule | .pipelineStep => false

/-- A request that has tasks to insert. -/
structure CreateRequest where
  id : Nat
  route : CreateRoute
  userId : String
  /-- It has passed the check, or its route has none. -/
  admitted : Bool
  remaining : List NewTask

structure Gate where
  queue : Queue
  requests : Table CreateRequest.id
  arrived : Nat

def Gate.empty : Gate := ⟨.empty, .empty, 0⟩

inductive GateAction where
  | arrive (route : CreateRoute) (userId : String) (tasks : List NewTask)
  | checkQueueDepth (id : Nat)
  | createTask (id : Nat) (taskId : String) (now : Nat)
  /-- The request is done, or has failed in another way. -/
  | leave (id : Nat)
  | queue (a : QueueAction)

def TaskRow.pending (t : TaskRow) : Bool := t.status = .queued || t.status = .running

/-- `SELECT count(*) FROM tasks WHERE user_id = %s AND status IN ('queued', 'running')` -/
def pendingCount (q : Queue) (userId : String) : Nat :=
  (q.rows.filter fun t => t.userId = userId && t.pending).length

/-- Whether `_check_queue_depth` raises -/
def depthExceeded (cap : Int) (q : Queue) (userId : String) (additional : Nat) : Bool :=
  0 < cap && cap < pendingCount q userId + additional

def QueueAction.creates : QueueAction → Bool
  | .createTask .. => true
  | _ => false

def passCheck (r : CreateRequest) : CreateRequest := { r with admitted := true }

def nextTask (r : CreateRequest) : CreateRequest := { r with remaining := r.remaining.tail }

/-- A call that comes in: its tasks are for its own user. -/
def newRequest (id : Nat) (route : CreateRoute) (userId : String) (tasks : List NewTask) :
    CreateRequest where
  id
  route
  userId
  admitted := !route.checks
  remaining := tasks.map ({ · with userId })

def Gate.step (cap : Int) (g : Gate) : GateAction → Option Gate
  | .arrive route userId tasks =>
    (g.requests.insert (newRequest g.arrived route userId tasks)).map fun requests =>
      { g with requests, arrived := g.arrived + 1 }
  | .checkQueueDepth id =>
    (g.requests.get id).bind fun r =>
      if r.admitted then none
      else if depthExceeded cap g.queue r.userId r.remaining.length then
        some { g with requests := g.requests.discard (·.id = id) }
      else some { g with requests := g.requests.modify id passCheck fun _ => rfl }
  | .createTask id taskId now =>
    (g.requests.get id).bind fun r =>
      match r.remaining with
      | [] => none
      | task :: _ =>
        if r.admitted then
          (g.queue.step (.createTask taskId task now)).map fun next =>
            { g with
              queue := next.1
              requests := g.requests.modify id nextTask fun _ => rfl }
        else none
  | .leave id => some { g with requests := g.requests.discard (·.id = id) }
  | .queue a =>
    if a.creates then none
    else (g.queue.step a).map fun next => { g with queue := next.1 }

def gate (cap : Int) : Machine Gate GateAction Unit where
  step g a := (g.step cap a).map (·, ())

abbrev GateStep := Machine.Entry Gate GateAction Unit

/-! ## The count -/

section
variable {stmt : TaskStatement} {snapshot : List TaskRow} {t : TaskRow}

@[simp] theorem set_userId : ((stmt.meaning snapshot).set t).userId = t.userId := by
  cases stmt <;> rfl

/-- No statement makes a task pending that was not. -/
theorem pending_of_set (guard : (stmt.meaning snapshot).guard t = true)
    (h : ((stmt.meaning snapshot).set t).pending = true) : t.pending = true := by
  cases stmt with
  | markTaskRunning | updateTaskTags | updateTaskLabels | bulkTagTasks => exact h
  | claimNextQueuedTask =>
    simp only [TaskStatement.meaning, Bool.and_eq_true, decide_eq_true_eq] at guard
    simp [TaskRow.pending, guard.1.1]
  | _ => cases h

end

/-- A pending task after a step was pending before, or has just been created. -/
theorem pending_of_step {x : QueueStep} (h : queue.Steps x) (c : x.before.WellFormed)
    (notCreate : x.input.creates = false) {b : TaskRow} (hb : b ∈ x.after.rows)
    (pending : b.pending = true) :
    ∃ a ∈ x.before.rows, a.taskId = b.taskId ∧ a.userId = b.userId ∧ a.pending = true := by
  cases rowMove_of_step h c hb with
  | kept mem => exact ⟨b, mem, rfl, rfl, pending⟩
  | created input =>
    rw [input] at notCreate
    cases notCreate
  | @freed a _ mem _ _ _ same =>
    rw [same] at pending ⊢
    exact ⟨a, mem, rfl, rfl, pending⟩
  | @written t a _ _ mem _ guard same =>
    rw [same] at pending ⊢
    exact ⟨a, mem, set_taskId.symm, set_userId.symm, pending_of_set guard pending⟩

/-- Only an insert adds to the count. -/
theorem pendingCount_le {x : QueueStep} (h : queue.Steps x) (c : x.before.WellFormed)
    (notCreate : x.input.creates = false) (userId : String) :
    pendingCount x.after userId ≤ pendingCount x.before userId := by
  have ids : ((x.after.rows.filter fun t => t.userId = userId && t.pending).map
      (·.taskId)).Nodup := x.after.store.rows.keys.sublist (List.filter_sublist.map _)
  have subset : ((x.after.rows.filter fun t => t.userId = userId && t.pending).map (·.taskId)) ⊆
      (x.before.rows.filter fun t => t.userId = userId && t.pending).map (·.taskId) := by
    intro id hid
    obtain ⟨b, hb, rfl⟩ := List.mem_map.mp hid
    obtain ⟨mem, counted⟩ := List.mem_filter.mp hb
    rw [Bool.and_eq_true, decide_eq_true_eq] at counted
    obtain ⟨a, ha, at_id, owner, pending⟩ := pending_of_step h c notCreate mem counted.2
    refine List.mem_map.mpr ⟨a, List.mem_filter.mpr ⟨ha, ?_⟩, at_id⟩
    rw [owner, counted.1, pending]
    simp
  have shorter := (List.subperm_of_subset ids subset).length_le
  simpa [pendingCount] using shorter

/-- An insert adds one, for its user. -/
theorem pendingCount_create {q q' : Queue} {taskId : String} {task : NewTask} {now : Nat}
    {answer : QueueAnswer} (h : q.step (.createTask taskId task now) = some (q', answer))
    (userId : String) :
    pendingCount q' userId = pendingCount q userId + if task.userId = userId then 1 else 0 := by
  obtain ⟨-, h⟩ := Option.ite_none_left_eq_some.mp h
  obtain ⟨-, h⟩ := Option.ite_none_left_eq_some.mp h
  obtain ⟨store, insert, same⟩ := Option.map_eq_some_iff.mp h
  obtain ⟨rows, inserted, rfl⟩ := Option.map_eq_some_iff.mp insert
  cases same
  have added : rows.rows = task.row taskId now :: q.rows := Table.insert_rows inserted
  unfold pendingCount
  show (List.filter _ rows.rows).length = _
  rw [added]
  by_cases owner : task.userId = userId
  · rw [List.filter_cons_of_pos (by simp [NewTask.row, owner, TaskRow.pending]), if_pos owner]
    rfl
  · rw [List.filter_cons_of_neg (by simp [NewTask.row, owner]), if_neg owner]
    rfl

/-! ## What a step can do -/

inductive GateMove (cap : Int) (g : Gate) : GateAction → Gate → Prop
  | arrived {route : CreateRoute} {userId : String} {tasks : List NewTask}
      {requests : Table CreateRequest.id}
      (insert : g.requests.insert (newRequest g.arrived route userId tasks) = some requests) :
      GateMove cap g (.arrive route userId tasks)
        { g with requests, arrived := g.arrived + 1 }
  | refused {id : Nat} {r : CreateRequest} (found : g.requests.get id = some r) :
      GateMove cap g (.checkQueueDepth id)
        { g with requests := g.requests.discard (·.id = id) }
  | admitted {id : Nat} {r : CreateRequest} (found : g.requests.get id = some r)
      (fits : depthExceeded cap g.queue r.userId r.remaining.length = false) :
      GateMove cap g (.checkQueueDepth id)
        { g with requests := g.requests.modify id passCheck fun _ => rfl }
  | inserted {id : Nat} {r : CreateRequest} {task : NewTask} {rest : List NewTask}
      {taskId : String} {now : Nat} {q : Queue} {answer : QueueAnswer}
      (found : g.requests.get id = some r) (next : r.remaining = task :: rest)
      (create : g.queue.step (.createTask taskId task now) = some (q, answer)) :
      GateMove cap g (.createTask id taskId now)
        { g with queue := q, requests := g.requests.modify id nextTask fun _ => rfl }
  | left {id : Nat} :
      GateMove cap g (.leave id) { g with requests := g.requests.discard (·.id = id) }
  | queued {a : QueueAction} {q : Queue} {answer : QueueAnswer}
      (notCreate : a.creates = false) (step : g.queue.step a = some (q, answer)) :
      GateMove cap g (.queue a) { g with queue := q }

variable {cap : Int}

theorem gate_moves {x : GateStep} (h : (gate cap).Steps x) :
    GateMove cap x.before x.input x.after := by
  obtain ⟨g, a, label, g'⟩ := x
  obtain ⟨_, h, same⟩ := Option.map_eq_some_iff.mp h
  cases same
  have h : g.step cap a = some g' := h
  cases a with
  | arrive route userId tasks =>
    obtain ⟨requests, insert, rfl⟩ := Option.map_eq_some_iff.mp h
    exact .arrived insert
  | checkQueueDepth id =>
    obtain ⟨r, found, h⟩ := Option.bind_eq_some_iff.mp h
    obtain ⟨-, h⟩ := Option.ite_none_left_eq_some.mp h
    split at h
    · cases h
      exact .refused found
    · next fits =>
      cases h
      exact .admitted found (Bool.not_eq_true _ ▸ fits)
  | createTask id taskId now =>
    obtain ⟨r, found, h⟩ := Option.bind_eq_some_iff.mp h
    cases next : r.remaining with
    | nil =>
      rw [next] at h
      cases h
    | cons task rest =>
      rw [next] at h
      obtain ⟨-, h⟩ := Option.ite_none_right_eq_some.mp h
      obtain ⟨⟨q, answer⟩, create, rfl⟩ := Option.map_eq_some_iff.mp h
      exact .inserted found next create
  | leave id =>
    cases h
    exact .left
  | queue a =>
    obtain ⟨notCreate, h⟩ := Option.ite_none_left_eq_some.mp h
    obtain ⟨⟨q, answer⟩, step, rfl⟩ := Option.map_eq_some_iff.mp h
    exact .queued (Bool.not_eq_true _ ▸ notCreate) step

/-- The request inserts its next task. -/
def Inserts (r : CreateRequest) (x : GateStep) : Prop :=
  x.before.requests.get r.id = some r ∧ ∃ taskId now, x.input = .createTask r.id taskId now

/-- Every request that inserts finds fewer tasks pending than the cap. -/
def HasRoom (cap : Int) (x : GateStep) : Prop :=
  0 ≤ cap ∧ ∀ r, Inserts r x → (pendingCount x.before.queue r.userId : Int) < cap

/-- The cap holds after the step. -/
def WithinCap (cap : Int) (x : GateStep) : Prop :=
  ∀ userId, (pendingCount x.after.queue userId : Int) ≤ cap

/-! ## Every insert has room -/

structure Gate.Consistent (g : Gate) : Prop where
  queue : g.queue.WellFormed
  requests : ∀ r ∈ g.requests.rows, r.id < g.arrived ∧
    ∀ task ∈ r.remaining, task.userId = r.userId

theorem of_mem_discard {κ α : Type} {key : α → κ} {t : Table key} {gone : α → Bool} {a : α}
    (h : a ∈ (t.discard gone).rows) : a ∈ t.rows ∧ gone a = false := by
  obtain ⟨mem, stays⟩ := List.mem_filter.mp h
  exact ⟨mem, by simpa using stays⟩

theorem of_mem_passCheck {t : Table CreateRequest.id} {id : Nat} {r b : CreateRequest}
    (found : t.get id = some r) (hb : b ∈ (t.modify id passCheck fun _ => rfl).rows) :
    b = passCheck r ∨ (b ∈ t.rows ∧ b.id ≠ id) :=
  Table.of_mem_modify found _ hb

theorem of_mem_nextTask {t : Table CreateRequest.id} {id : Nat} {r b : CreateRequest}
    (found : t.get id = some r) (hb : b ∈ (t.modify id nextTask fun _ => rfl).rows) :
    b = nextTask r ∨ (b ∈ t.rows ∧ b.id ≠ id) :=
  Table.of_mem_modify found _ hb

theorem gate_consistent_of_step {x : GateStep} (h : (gate cap).Steps x)
    (c : x.before.Consistent) : x.after.Consistent := by
  obtain ⟨g, a, label, g'⟩ := x
  have moves : GateMove cap g a g' := gate_moves h
  have c : g.Consistent := c
  show g'.Consistent
  obtain ⟨queue, requests⟩ := c
  cases moves with
  | arrived insert =>
    refine ⟨queue, fun r hr => ?_⟩
    show r.id < g.arrived + 1 ∧ _
    rcases Table.of_mem_insert insert hr with rfl | old
    · refine ⟨Nat.lt_succ_self _, fun task mem => ?_⟩
      obtain ⟨_, -, rfl⟩ := List.mem_map.mp mem
      rfl
    · exact ⟨Nat.lt_succ_of_lt (requests r old).1, (requests r old).2⟩
  | refused | left => exact ⟨queue, fun r hr => requests r (of_mem_discard hr).1⟩
  | @admitted _ r found =>
    refine ⟨queue, fun r hr => ?_⟩
    rcases of_mem_passCheck found hr with rfl | ⟨old, -⟩
    · exact requests r (Table.get_mem found).1
    · exact requests r old
  | @inserted _ _ task _ taskId now q answer found _ create =>
    have step : Gateway.queue.Steps ⟨g.queue, .createTask taskId task now, answer, q⟩ := create
    refine ⟨wellFormed_of_step step queue, fun r hr => ?_⟩
    rcases of_mem_nextTask found hr with rfl | ⟨old, -⟩
    · obtain ⟨early, owner⟩ := requests _ (Table.get_mem found).1
      exact ⟨early, fun task mem => owner task (List.mem_of_mem_tail mem)⟩
    · exact requests r old
  | queued _ step => exact ⟨wellFormed_of_step (x := ⟨_, _, _, _⟩) step queue, requests⟩

theorem gate_consistent_empty : Gate.empty.Consistent where
  queue := wellFormed_empty
  requests _ h := absurd h List.not_mem_nil

/-- An insert counts for the user of the request, and nothing else adds to a count. -/
theorem pendingCount_of_step {x : GateStep} (h : (gate cap).Steps x)
    (c : x.before.Consistent) (userId : String) :
    pendingCount x.after.queue userId ≤ pendingCount x.before.queue userId ∨
      ∃ r, Inserts r x ∧ r.userId = userId ∧
        pendingCount x.after.queue userId = pendingCount x.before.queue userId + 1 := by
  obtain ⟨g, a, label, g'⟩ := x
  have moves : GateMove cap g a g' := gate_moves h
  have c : g.Consistent := c
  cases moves with
  | @inserted id r task rest _ _ _ _ found next create =>
    obtain ⟨mem, rfl⟩ := Table.get_mem found
    have owner : task.userId = r.userId := (c.requests r mem).2 task (by simp [next])
    have counted := pendingCount_create create userId
    by_cases mine : r.userId = userId
    · rw [owner, if_pos mine] at counted
      exact .inr ⟨r, ⟨found, _, _, rfl⟩, mine, counted⟩
    · rw [owner, if_neg mine] at counted
      exact .inl counted.le
  | queued notCreate step =>
    exact .inl (pendingCount_le (x := ⟨_, _, _, _⟩) step c.queue notCreate userId)
  | _ => exact .inl le_rfl

/-- What an insert leaves of the count, and of the request. -/
theorem pendingCount_insert {x : GateStep} (h : (gate cap).Steps x) (c : x.before.Consistent)
    {r : CreateRequest} (inserts : Inserts r x) :
    pendingCount x.after.queue r.userId = pendingCount x.before.queue r.userId + 1 := by
  obtain ⟨g, a, label, g'⟩ := x
  have moves : GateMove cap g a g' := gate_moves h
  have c : g.Consistent := c
  obtain ⟨found, taskId, now, input⟩ := inserts
  have found : g.requests.get r.id = some r := found
  have input : a = .createTask r.id taskId now := input
  cases input
  cases moves with
  | @inserted _ r' task rest _ _ _ _ found' next create =>
    cases found.symm.trans found'
    have owner := (c.requests r (Table.get_mem found).1).2 task (by simp [next])
    have counted := pendingCount_create create r.userId
    rwa [if_pos owner] at counted

theorem within_iff_of_step {x : GateStep} (h : (gate cap).Steps x) (c : x.before.Consistent)
    (before : ∀ userId, (pendingCount x.before.queue userId : Int) ≤ max 0 cap) :
    WithinCap cap x ↔ HasRoom cap x := by
  refine ⟨fun within => ⟨?_, fun r inserts => ?_⟩, fun room userId => ?_⟩
  · have := within ""
    omega
  · have counted := pendingCount_insert h c inserts
    have := within r.userId
    omega
  · have := before userId
    obtain ⟨nonneg, room⟩ := room
    rcases pendingCount_of_step h c userId with le | ⟨r, inserts, rfl, counted⟩
    · omega
    · have := room r inserts
      omega

/-! ## Requests that have counted -/

/-- The request counts. -/
def Checks (id : Nat) (x : GateStep) : Prop := x.input = .checkQueueDepth id

/-- Another request inserts a task of the same user. -/
def InsertsBeside (id : Nat) (userId : String) (x : GateStep) : Prop :=
  ∃ other, Inserts other x ∧ other.id ≠ id ∧ other.userId = userId

/-- Requests that have counted since anybody else has inserted for their user fit in. -/
structure Counted (cap : Int) (past : List GateStep) (g : Gate) : Prop where
  consistent : g.Consistent
  arrived : ∀ x ∈ past, ∀ id, Checks id x → id < g.arrived
  fits : ∀ r ∈ g.requests.rows,
    Machine.Pending (Checks r.id) (InsertsBeside r.id r.userId) past →
      (pendingCount g.queue r.userId : Int) + r.remaining.length ≤ cap

theorem not_pending_of_new {cap : Int} {past : List GateStep} {g : Gate} {userId : String}
    (c : Counted cap past g) :
    ¬ Machine.Pending (Checks g.arrived) (InsertsBeside g.arrived userId) past := by
  rintro ⟨pre, y, mid, rfl, check, -⟩
  exact Nat.lt_irrefl _ (c.arrived y (by simp) _ check)

theorem counted_arrived_of_step {past : List GateStep} {x : GateStep}
    (h : (gate cap).Steps x) (c : Counted cap past x.before) :
    ∀ y ∈ past ++ [x], ∀ id, Checks id y → id < x.after.arrived := by
  obtain ⟨g, a, label, g'⟩ := x
  have moves : GateMove cap g a g' := gate_moves h
  have c : Counted cap past g := c
  have grows : g.arrived ≤ g'.arrived := by
    cases moves with
    | arrived => exact Nat.le_succ _
    | _ => exact le_rfl
  intro y hy id check
  rcases List.mem_append.mp hy with old | new
  · exact (c.arrived y old id check).trans_le grows
  · cases List.mem_singleton.mp new
    have check : a = .checkQueueDepth id := check
    cases check
    cases moves with
    | refused found | admitted found =>
      obtain ⟨mem, rfl⟩ := Table.get_mem found
      exact (c.consistent.requests _ mem).1

theorem counted_of_step {past : List GateStep} {x : GateStep} (h : (gate cap).Steps x)
    (enabled : 0 < cap) (c : Counted cap past x.before) :
    Counted cap (past ++ [x]) x.after := by
  refine ⟨gate_consistent_of_step h c.consistent, counted_arrived_of_step h c, ?_⟩
  intro r hr pending
  rw [Machine.pending_concat_iff] at pending
  obtain ⟨g, a, label, g'⟩ := x
  have moves : GateMove cap g a g' := gate_moves h
  have c : Counted cap past g := c
  -- a step that is not this request's own check, and leaves its row
  have older (mem : r ∈ g.requests.rows) (other : ¬ Checks r.id ⟨g, a, label, g'⟩) :
      (pendingCount g.queue r.userId : Int) + r.remaining.length ≤ cap :=
    c.fits r mem (pending.resolve_left other).1
  cases moves with
  | arrived insert =>
    rcases Table.of_mem_insert insert hr with rfl | old
    · rcases pending with check | ⟨pending, -⟩
      · cases check
      · exact absurd pending (not_pending_of_new c)
    · exact older old nofun
  | @refused id _ found =>
    obtain ⟨mem, other⟩ := of_mem_discard hr
    refine older mem fun check => ?_
    have check : GateAction.checkQueueDepth id = .checkQueueDepth r.id := check
    cases check
    simp at other
  | @admitted id r' found fits =>
    rcases of_mem_passCheck found hr with rfl | ⟨old, other⟩
    · show (pendingCount g.queue r'.userId : Int) + r'.remaining.length ≤ cap
      simp only [depthExceeded, enabled, decide_true, Bool.true_and, decide_eq_false_iff_not]
        at fits
      omega
    · refine older old fun check => ?_
      have check : GateAction.checkQueueDepth id = .checkQueueDepth r.id := check
      cases check
      exact other rfl
  | @inserted id r' task rest taskId now q _ found next create =>
    obtain ⟨mem, rfl⟩ := Table.get_mem found
    have owner : task.userId = r'.userId := (c.consistent.requests r' mem).2 task (by simp [next])
    have counted := pendingCount_create create r.userId
    show (pendingCount q r.userId : Int) + r.remaining.length ≤ cap
    rcases of_mem_nextTask found hr with rfl | ⟨old, other⟩
    · -- one more task, and one less to insert
      have before : (pendingCount g.queue r'.userId : Int) + r'.remaining.length ≤ cap :=
        c.fits r' mem (pending.resolve_left nofun).1
      have shorter : (nextTask r').remaining.length + 1 = r'.remaining.length := by
        simp [nextTask, next]
      have mine : (nextTask r').userId = r'.userId := rfl
      have counted : pendingCount q r'.userId = pendingCount g.queue r'.userId + 1 := by
        rwa [mine, if_pos owner] at counted
      rw [mine]
      omega
    · have beside : r'.userId ≠ r.userId := fun same =>
        (pending.resolve_left nofun).2 ⟨r', ⟨found, _, _, rfl⟩, Ne.symm other, same⟩
      rw [owner, if_neg beside] at counted
      have before := older old nofun
      omega
  | left => exact older (of_mem_discard hr).1 nofun
  | @queued a q _ notCreate step =>
    have counted := pendingCount_le (x := ⟨_, _, _, _⟩) step c.consistent.queue notCreate r.userId
    have counted : pendingCount q r.userId ≤ pendingCount g.queue r.userId := counted
    have before := older hr nofun
    show (pendingCount q r.userId : Int) + r.remaining.length ≤ cap
    omega

theorem counted_empty : Counted cap [] Gate.empty where
  consistent := gate_consistent_empty
  arrived _ h := absurd h List.not_mem_nil
  fits _ h := absurd h List.not_mem_nil

/-- The cap holds in a run exactly if every insert finds room; and one does whose request
has counted since anybody else has inserted a task of its user. -/
theorem queue_cap_iff (cap : Int) (actions : List GateAction) :
    ((∀ x ∈ (gate cap).run .empty actions, WithinCap cap x) ↔
      ∀ x ∈ (gate cap).run .empty actions, HasRoom cap x) ∧
    (0 < cap → ∀ past x later, (gate cap).run .empty actions = past ++ x :: later →
      (∀ r, Inserts r x →
        Machine.Pending (Checks r.id) (InsertsBeside r.id r.userId) past) →
      HasRoom cap x) := by
  refine ⟨?_, fun enabled past x later split counts => ⟨enabled.le, fun r inserts => ?_⟩⟩
  · refine Machine.run_iff_of_ok (R := fun _ => True)
      (I := fun g => g.Consistent ∧
        ∀ userId, (pendingCount g.queue userId : Int) ≤ max 0 cap)
      (fun x h c _ => within_iff_of_step h c.1 c.2) (fun x h c _ within => ?_)
      ⟨gate_consistent_empty, fun _ => le_max_left _ _⟩ fun _ _ => trivial
    exact ⟨gate_consistent_of_step h c.1, fun userId => (within userId).trans (le_max_right _ _)⟩
  · obtain ⟨h, c⟩ := Machine.history_invariant (I := Counted cap)
      (fun _ _ h c => counted_of_step h enabled c) counted_empty past x later split
    obtain ⟨g, a, label, g'⟩ := x
    have moves : GateMove cap g a g' := gate_moves h
    have c : Counted cap past g := c
    have fits := c.fits r (Table.get_mem inserts.1).1 (counts r inserts)
    show (pendingCount g.queue r.userId : Int) < cap
    obtain ⟨found, taskId, now, input⟩ := inserts
    have input : a = .createTask r.id taskId now := input
    cases input
    cases moves with
    | @inserted _ r' _ _ _ _ _ _ found' next =>
      cases found.symm.trans found'
      rw [next, List.length_cons] at fits
      omega

/-! ## Inserts without room -/

def echoTask : NewTask where
  userId := "ada"
  agentType := "orchestrator"
  input := "echo"
  priority := 5
  tags := []
  dependsOn := none

/-- Two submissions count before either of them inserts. -/
def countTogether : List GateAction :=
  [.arrive .submitTask "ada" [echoTask],
   .arrive .submitTask "ada" [echoTask],
   .checkQueueDepth 0, .checkQueueDepth 1,
   .createTask 0 "task-1" 0, .createTask 1 "task-2" 0]

/-- A submission at the cap, and then one by a route that does not count. -/
def submitThen (route : CreateRoute) : List GateAction :=
  [.arrive .submitTask "ada" [echoTask],
   .checkQueueDepth 0, .createTask 0 "task-1" 0, .leave 0,
   .arrive route "ada" [echoTask],
   .createTask 1 "task-2" 0]

/-- A second task is pending where the cap is one: after two submissions that have counted
together, and after a call of any of the routes that do not count. -/
theorem cap_exceeded : (¬ ∀ x ∈ (gate 1).run .empty countTogether, WithinCap 1 x) ∧
    ∀ route ∈ [CreateRoute.retryTask, .a2aSubmitTask, .schedule, .pipelineStep],
      ¬ ∀ x ∈ (gate 1).run .empty (submitThen route), WithinCap 1 x := by
  have exceeds {actions : List GateAction}
      (two : ∃ x ∈ (gate 1).run .empty actions, pendingCount x.after.queue "ada" = 2) :
      ¬ ∀ x ∈ (gate 1).run .empty actions, WithinCap 1 x := by
    intro within
    obtain ⟨x, hx, two⟩ := two
    have bound := within x hx "ada"
    omega
  refine ⟨exceeds (by decide +kernel), fun route hroute => exceeds ?_⟩
  revert route
  decide +kernel

end LegionForge.Gateway
