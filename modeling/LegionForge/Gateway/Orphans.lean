import LegionForge.Gateway.Streams
import LegionForge.Gateway.TaskEnds

/-!
# Streams without an end

A stream is to end when its task has ended or is paused and no coroutine of `run_task` is
at work on it. But the events of a task go to the channel of its `uuid.UUID`, and the
streams wait in the channels of texts. No event comes to any of them, and a stream is open
until its client goes away. So a step leaves a stream without an end if it ends a task with
an open stream from outside of its coroutines, if the last coroutine leaves an ended task
with an open stream, or if a client subscribes to an ended task (`stream_closed_iff`).
-/

namespace LegionForge.Gateway

variable {δ : Type}

/-- The task has ended, or waits for an operator. -/
def TaskStatus.isOver : TaskStatus → Bool
  | .complete | .failed | .cancelled | .paused => true
  | .queued | .running => false

/-- The subscriber is that of a stream of the task, and waits at its queue. -/
def Listens (s : Service δ) (taskId : String) (q : Subscriber δ) : Prop :=
  ∃ call ∈ s.streams.rows, call.taskId = taskId ∧
    s.bus.subscribers.get call.id = some q ∧ ∃ c, q.phase = .listening c

/-- No queue for a task that is over, and not at work, is without a terminal event and the
sentinel. -/
def NoOrphan (s : Service δ) : Prop :=
  ∀ t ∈ s.queue.rows, t.status.isOver = true → ¬ InFlight s.runs t.taskId →
    ∀ q, Listens s t.taskId q →
      ∃ front e, q.taken ++ q.queue = front ++ [.event e, .sentinel] ∧
        taskBus.isTerminal e = true

def OpenStream (s : Service δ) (taskId : String) : Prop := ∃ q, Listens s taskId q

/-- Such tasks have no open streams. -/
def Quiet (s : Service δ) : Prop :=
  ∀ t ∈ s.queue.rows, t.status.isOver = true → ¬ InFlight s.runs t.taskId →
    ¬ OpenStream s t.taskId

/-- Nothing has come to any subscriber: they have texts as keys, and the cache has none. -/
structure Unheard (s : Service δ) : Prop where
  queue : s.queue.WellFormed
  bus : s.bus.Consistent
  uncached : ∀ path, s.bus.terminalEvents.get (.str path) = none
  called : ∀ q ∈ s.bus.subscribers.rows, ∃ call ∈ s.streams.rows,
    call.id = q.id ∧ q.key = .str call.path
  waits : ∀ q ∈ s.bus.subscribers.rows, q.phase = .closed ∨ ∃ c, q.phase = .listening c
  silent : ∀ q ∈ s.bus.subscribers.rows, q.taken ++ q.queue = []

theorem noOrphan_iff {s : Service δ} (unheard : Unheard s) : NoOrphan s ↔ Quiet s := by
  refine ⟨fun none t ht settled idle => ?_, fun quiet t ht settled idle q listens => ?_⟩
  · rintro ⟨q, listens⟩
    obtain ⟨front, e, last, -⟩ := none t ht settled idle q listens
    obtain ⟨_, -, -, found, -⟩ := listens
    rw [unheard.silent q (Table.get_mem found).1] at last
    simp at last
  · exact absurd ⟨q, listens⟩ (quiet t ht settled idle)

/-! ## What comes to a stream -/

section
variable {s s' : Service δ} {bus : EventBus δ}

/-- The channel of a `uuid.UUID` has no queues. -/
theorem queues_uuid (unheard : Unheard s) (taskId : String) :
    s.bus.queues (.uuid taskId) = [] := by
  refine List.eq_nil_iff_forall_not_mem.mpr fun id mem => ?_
  obtain ⟨c, channel, listed⟩ := mem_queues_iff.mp mem
  obtain ⟨q, found, at_key, -⟩ := unheard.bus.members channel listed
  obtain ⟨call, -, -, path⟩ := unheard.called q (Table.get_mem found).1
  rw [at_key] at path
  cases path

theorem subscribers_publish (unheard : Unheard s) (taskId : String) (e : Event δ) :
    (s.bus.publish taskBus (.uuid taskId) e).subscribers = s.bus.subscribers := by
  have nobody : s.bus.queues (taskBus.key (.uuid taskId)) = [] := queues_uuid unheard taskId
  rw [publish_subscribers, nobody]
  rfl

theorem uncached_publish (unheard : Unheard s) (taskId path : String) (e : Event δ) :
    (s.bus.publish taskBus (.uuid taskId) e).terminalEvents.get (.str path) = none := by
  have absent := unheard.uncached path
  unfold EventBus.publish
  split
  · refine Option.eq_none_iff_forall_ne_some.mpr fun p found => ?_
    obtain ⟨mem, at_key⟩ := Table.get_mem found
    rcases of_mem_cacheTerminal mem with rfl | ⟨old, -⟩
    · cases at_key
    · have found := Table.get_of_mem old
      rw [at_key, absent] at found
      cases found
  · exact absent

theorem unheard_of_tells {r : TaskRun} (unheard : Unheard s) (bus : Tells s r s')
    (queue : s'.queue.WellFormed) (streams : s'.streams = s.streams) :
    Unheard s' ∧ s'.bus.subscribers = s.bus.subscribers := by
  rcases bus with same | ⟨e, said⟩
  · refine ⟨⟨queue, ?_, ?_, ?_, ?_, ?_⟩, by rw [same]⟩ <;> rw [same]
    · exact unheard.bus
    · exact unheard.uncached
    · rw [streams]
      exact unheard.called
    · exact unheard.waits
    · exact unheard.silent
  · have subscribers : s'.bus.subscribers = s.bus.subscribers := by
      rw [said]
      exact subscribers_publish unheard r.taskId e
    refine ⟨⟨queue, ?_, fun path => ?_, ?_, ?_, ?_⟩, subscribers⟩
    · rw [said]
      exact consistent_publish unheard.bus _ e
    · rw [said]
      exact uncached_publish unheard r.taskId path e
    · rw [subscribers, streams]
      exact unheard.called
    · rw [subscribers]
      exact unheard.waits
    · rw [subscribers]
      exact unheard.silent

/-- A subscription finds nothing in the cache and waits. -/
theorem subscribed_listens {id : Nat} {path : String} (unheard : Unheard s)
    (step : s.bus.subscribe taskBus id (.str path) = some bus) :
    ∃ c, s.bus.subscribers.insert (newSubscriber id (.str path) (.listening c) []) =
      some bus.subscribers ∧ bus.terminalEvents = s.bus.terminalEvents := by
  have moves : BusMove taskBus s.bus (.subscribe id (.str path)) bus := bus_moves step
  cases moves with
  | replays found =>
    rw [show taskBus.key (.str path) = .str path from rfl, unheard.uncached] at found
    cases found
  | registers _ insert => exact ⟨_, insert, created_terminalEvents _ _⟩

/-- A client waits on, or goes away. -/
theorem client_leaves {a : BusAction UuidOrStr δ} (unheard : Unheard s)
    (isClient : a.isClient = true) (step : s.bus.step taskBus a = some bus) :
    bus.terminalEvents = s.bus.terminalEvents ∧
      ∃ id f, ∃ keeps : ∀ q : Subscriber δ, (f q).id = q.id,
        bus.subscribers = s.bus.subscribers.modify id f keeps ∧ (f = .beat ∨ f = .close) := by
  have idle {id : Nat} {q : Subscriber δ} (found : s.bus.subscribers.get id = some q) :
      q.queue = [] := (List.append_eq_nil_iff.mp (unheard.silent q (Table.get_mem found).1)).2
  have waits {id : Nat} {q : Subscriber δ} (found : s.bus.subscribers.get id = some q) :
      q.phase ≠ .replayed := by
    rcases unheard.waits q (Table.get_mem found).1 with closed | ⟨c, listens⟩
    · rw [closed]
      exact nofun
    · rw [listens]
      exact nofun
  cases bus_moves step with
  | published | replays | registers => cases isClient
  | yields found _ next | ends found _ next =>
    rw [idle found] at next
    cases next
  | returns found at_phase | drops found at_phase => exact absurd at_phase (waits found)
  | beats => exact ⟨rfl, _, _, beat_id, rfl, .inl rfl⟩
  | closes => exact ⟨leave_terminalEvents _ _ _ _, _, _, close_id, rfl, .inr rfl⟩

end

theorem taken_beat {q : Subscriber δ} : q.beat.taken = q.taken := by
  have events : q.beat.yielded.filterMap Yielded.event? = q.yielded.filterMap Yielded.event? := by
    simp [Subscriber.beat, Yielded.event?, List.filterMap_cons]
  unfold Subscriber.taken
  rw [events]
  rfl

theorem taken_close {q : Subscriber δ} (waits : q.phase = .closed ∨ ∃ c, q.phase = .listening c) :
    q.close.taken = q.taken := by
  rcases waits with closed | ⟨c, listens⟩
  · simp [Subscriber.taken, Subscriber.close, closed]
  · simp [Subscriber.taken, Subscriber.close, listens]

section
variable {x : StreamStep δ}

theorem queue_wellFormed_of_step (h : service.Steps x) (c : x.before.queue.WellFormed) :
    x.after.queue.WellFormed := by
  obtain ⟨s, a, label, s'⟩ := x
  have moves : StreamMove s a s' := stream_moves h
  have c : s.queue.WellFormed := c
  show s'.queue.WellFormed
  cases moves with
  | @queued a q answer _ step =>
    have step : queue.Steps ⟨s.queue, a, answer, q⟩ := step
    exact wellFormed_of_step step c
  | ran _ moves => exact moves.table.wellFormed c
  | _ => exact c

theorem unheard_of_step (h : service.Steps x) (unheard : Unheard x.before) : Unheard x.after := by
  have queue := queue_wellFormed_of_step h unheard.queue
  obtain ⟨s, a, label, s'⟩ := x
  have moves : StreamMove s a s' := stream_moves h
  have unheard : Unheard s := unheard
  have queue : s'.queue.WellFormed := queue
  show Unheard s'
  have lift {b : BusAction UuidOrStr δ} {bus : EventBus δ}
      (step : s.bus.step taskBus b = some bus) : bus.Consistent := by
    have steps : (eventBus taskBus).Steps ⟨s.bus, b, (), bus⟩ := by
      show (s.bus.step taskBus b).map _ = _
      rw [step]
      rfl
    exact bus_consistent_of_step steps unheard.bus
  cases moves with
  | queued | created | cancelled =>
    exact ⟨queue, unheard.bus, unheard.uncached, unheard.called, unheard.waits, unheard.silent⟩
  | answered => exact unheard
  | ran _ moves => exact (unheard_of_tells unheard moves.bus queue moves.streams).1
  | connected insert =>
    refine ⟨queue, unheard.bus, unheard.uncached, fun q hq => ?_, unheard.waits, unheard.silent⟩
    obtain ⟨call, mem, same⟩ := unheard.called q hq
    exact ⟨call, Table.mem_insert_of_mem insert mem, same⟩
  | @subscribed id call bus found step =>
    obtain ⟨c, insert, cache⟩ := subscribed_listens unheard step
    have cons : bus.Consistent := lift (b := .subscribe id (.str call.path)) step
    obtain ⟨mem, same⟩ := Table.get_mem found
    refine ⟨queue, cons, fun path => cache ▸ unheard.uncached path, fun q hq => ?_,
      fun q hq => ?_, fun q hq => ?_⟩ <;> rcases Table.of_mem_insert insert hq with rfl | old
    · exact ⟨call, mem, same, rfl⟩
    · exact unheard.called q old
    · exact .inr ⟨c, rfl⟩
    · exact unheard.waits q old
    · rfl
    · exact unheard.silent q old
  | client isClient step =>
    obtain ⟨cache, id, f, keeps, subscribers, how⟩ := client_leaves unheard isClient step
    refine ⟨queue, lift step, fun path => cache ▸ unheard.uncached path, fun q hq => ?_,
      fun q hq => ?_, fun q hq => ?_⟩ <;>
        obtain ⟨old, mem, rfl⟩ := List.mem_map.mp (subscribers ▸ hq : q ∈ Table.rows _)
    · obtain ⟨call, hcall, same, path⟩ := unheard.called old mem
      refine ⟨call, hcall, ?_⟩
      split
      · rcases how with rfl | rfl <;> exact ⟨same, path⟩
      · exact ⟨same, path⟩
    · split
      · rcases how with rfl | rfl
        · exact unheard.waits old mem
        · exact .inl rfl
      · exact unheard.waits old mem
    · split
      · rcases how with rfl | rfl
        · rw [taken_beat]
          exact unheard.silent old mem
        · rw [taken_close (unheard.waits old mem)]
          exact unheard.silent old mem
      · exact unheard.silent old mem

theorem unheard_start (start : DbStart) : Unheard (start.service (δ := δ)) where
  queue := start.wellFormed
  bus := bus_consistent_empty
  uncached _ := rfl
  called _ h := absurd h List.not_mem_nil
  waits _ h := absurd h List.not_mem_nil
  silent _ h := absurd h List.not_mem_nil

end

/-! ## Steps that leave no stream without an end -/

/-- The statement sets a status in which streams are to be over. -/
def TaskStatement.settles : TaskStatement → Bool
  | .markTaskComplete .. | .markTaskFailed .. | .markTaskPaused .. | .failDependentTasks ..
  | .markTaskCancelled .. | .bulkCancelTasks .. | .reapStuckTasks ..
  | .reapStaleRunningTasks .. => true
  | .claimNextQueuedTask .. | .markTaskRunning .. | .updateTaskTags .. | .updateTaskLabels ..
  | .bulkTagTasks .. => false

structure Safe (x : StreamStep δ) : Prop where
  /-- A commit that ends tasks finds a coroutine at work on each, or no open stream. -/
  commits : ∀ t ∈ x.before.queue.store.sessions.rows, x.input = .queue (.commit t.id) →
    t.stmt.settles = true → ∀ w ∈ t.writes, ¬ InFlight x.before.runs w.taskId →
      ¬ OpenStream x.before w.taskId
  /-- A coroutine that returns leaves no ended task with an open stream, unless to another. -/
  returns : ∀ id a r, x.input = .run id a → x.before.runs.get id = some r →
    r.returns a = true → ∀ t ∈ x.before.queue.rows, t.taskId = r.taskId →
      t.status.isOver = true → ¬ InFlight (x.before.runs.discard (·.id = id)) r.taskId →
        ¬ OpenStream x.before r.taskId
  /-- A client that subscribes to an ended task finds a coroutine at work. -/
  subscribes : ∀ id c, x.input = .subscribe id → x.before.streams.get id = some c →
    ∀ t ∈ x.before.queue.rows, t.taskId = c.taskId → t.status.isOver = true →
      InFlight x.before.runs c.taskId

section
variable {stmt : TaskStatement} {snapshot : List TaskRow} {t : TaskRow}

theorem isOver_of_settles (settles : stmt.settles = true) :
    ((stmt.meaning snapshot).set t).status.isOver = true := by
  cases stmt with
  | claimNextQueuedTask | markTaskRunning | updateTaskTags | updateTaskLabels | bulkTagTasks =>
    cases settles
  | _ => rfl

theorem isOver_of_set (other : stmt.settles = false)
    (settled : ((stmt.meaning snapshot).set t).status.isOver = true) : t.status.isOver = true := by
  cases stmt with
  | markTaskRunning | updateTaskTags | updateTaskLabels | bulkTagTasks => exact settled
  | claimNextQueuedTask => cases settled
  | _ => cases other

end

theorem openStream_congr {s s' : Service δ} (streams : s'.streams = s.streams)
    (subscribers : s'.bus.subscribers = s.bus.subscribers) (taskId : String) :
    OpenStream s' taskId ↔ OpenStream s taskId := by
  unfold OpenStream Listens
  rw [streams, subscribers]

/-- A new call has no subscriber yet. -/
theorem open_of_connected {s : Service δ} {streams : Table StreamCall.id} {call : StreamCall}
    {taskId : String} (unheard : Unheard s) (insert : s.streams.insert call = some streams)
    (open_ : OpenStream { s with streams } taskId) : OpenStream s taskId := by
  obtain ⟨q, call', mem, same, found, listens⟩ := open_
  rcases Table.of_mem_insert insert mem with rfl | old
  · obtain ⟨hq, at_id⟩ := Table.get_mem found
    obtain ⟨older, mem', same', -⟩ := unheard.called q hq
    have taken := Table.get_of_insert insert
    have found := Table.get_of_mem mem'
    rw [same', at_id, taken] at found
    cases found
  · exact ⟨q, call', old, same, found, listens⟩

/-- A subscription opens the stream of its call, and no other. -/
theorem openStream_subscribed_iff {s : Service δ} {bus : EventBus δ} {id : Nat} {call : StreamCall}
    (unheard : Unheard s) (found : s.streams.get id = some call)
    (step : s.bus.subscribe taskBus id (.str call.path) = some bus) (taskId : String) :
    OpenStream { s with bus } taskId ↔ OpenStream s taskId ∨ call.taskId = taskId := by
  obtain ⟨c, insert, -⟩ := subscribed_listens unheard step
  obtain ⟨mem, at_id⟩ := Table.get_mem found
  refine ⟨?_, ?_⟩
  · rintro ⟨q, call', mem', same, found', listens⟩
    have found' : bus.subscribers.get call'.id = some q := found'
    rw [Table.get_insert insert] at found'
    split at found'
    · next here =>
      have here : id = call'.id := here
      rw [s.streams.eq_of_key mem' mem (here.symm.trans at_id.symm)] at same
      exact .inr same
    · exact .inl ⟨q, call', mem', same, found', listens⟩
  · rintro (⟨q, call', mem', same, found', listens⟩ | same)
    · exact ⟨q, call', mem', same, Table.get_insert_of_get insert found', listens⟩
    · refine ⟨newSubscriber id (.str call.path) (.listening c) [], call, mem, same, ?_, c, rfl⟩
      rw [at_id]
      exact Table.get_insert_self insert

/-- A client opens no stream. -/
theorem open_of_client {s : Service δ} {a : BusAction UuidOrStr δ} {bus : EventBus δ}
    {taskId : String} (unheard : Unheard s) (isClient : a.isClient = true)
    (step : s.bus.step taskBus a = some bus) (open_ : OpenStream { s with bus } taskId) :
    OpenStream s taskId := by
  obtain ⟨-, id, f, keeps, subscribers, how⟩ := client_leaves unheard isClient step
  obtain ⟨q, call, mem, same, found, c, listens⟩ := open_
  have found : bus.subscribers.get call.id = some q := found
  rw [subscribers, Table.get_modify] at found
  split at found
  · obtain ⟨old, before, rfl⟩ := Option.map_eq_some_iff.mp found
    rcases how with rfl | rfl
    · exact ⟨old, call, mem, same, before, c, listens⟩
    · cases listens
  · exact ⟨q, call, mem, same, found, c, listens⟩

/-- A step on the table keeps the streams right, where its commit does. -/
theorem quiet_queued_iff {s : Service δ} {a : QueueAction} {q : Queue} {answer : QueueAnswer}
    {claimed : List String} (c : s.queue.WellFormed) (quiet : Quiet s)
    (step : s.queue.step a = some (q, answer)) :
    Quiet { s with queue := q, runs := s.runs.mapRows (·.settle a) (settle_id a), claimed } ↔
      ∀ t ∈ s.queue.store.sessions.rows, a = .commit t.id → t.stmt.settles = true →
        ∀ w ∈ t.writes, ¬ InFlight s.runs w.taskId → ¬ OpenStream s w.taskId := by
  have taken : queue.Steps ⟨s.queue, a, answer, q⟩ := step
  refine ⟨fun after t ht input settles w hw idle => ?_, fun safe b hb settled idle => ?_⟩
  · subst input
    obtain ⟨⟨store, t'⟩, commit, same⟩ := Option.map_eq_some_iff.mp step
    obtain ⟨mem, at_id, -⟩ := Store.commit_sessions commit
    cases s.queue.store.sessions.eq_of_key mem ht at_id
    obtain ⟨r, hr, -, rfl⟩ := c.store.writes t ht w hw
    have written := Store.mem_commit_of_written commit c.store hr
      (List.mem_map.mpr ⟨_, hw, (t.stmt.meaning t.snapshot).keeps r⟩)
    have rows : q.rows = store.rows.rows := (congrArg (fun p => p.1.rows) same).symm
    refine after _ (show _ ∈ q.rows from rows ▸ written) (isOver_of_settles settles) fun busy =>
      idle (inFlight_settle_iff.mp busy)
  · rw [inFlight_settle_iff] at idle
    show ¬ OpenStream s b.taskId
    cases rowMove_of_step taken c hb with
    | kept mem => exact quiet b mem settled idle
    | created _ _ same =>
      rw [same] at settled
      cases settled
    | @freed r _ mem _ _ _ same =>
      rw [same] at settled idle ⊢
      exact quiet r mem settled idle
    | @written t r input session mem write _ same =>
      rw [same] at settled idle ⊢
      rw [set_taskId] at idle ⊢
      cases settles : t.stmt.settles with
      | false => exact quiet r mem (isOver_of_set settles settled) idle
      | true =>
        obtain ⟨w, hw, at_id⟩ := List.mem_map.mp write
        rw [← at_id] at idle ⊢
        exact safe t session input settles w hw idle

/-- A step of a coroutine keeps them right, where it does not leave an open one. -/
theorem quiet_ran_iff {s s' : Service δ} {r : TaskRun} {a : RunAction δ} (unheard : Unheard s)
    (found : s.runs.get r.id = some r) (quiet : Quiet s) (moves : RunMove s r a s') :
    Quiet s' ↔ (r.returns a = true → ∀ t ∈ s.queue.rows, t.taskId = r.taskId →
      t.status.isOver = true → ¬ InFlight (s.runs.discard (·.id = r.id)) r.taskId →
        ¬ OpenStream s r.taskId) := by
  have subscribers : s'.bus.subscribers = s.bus.subscribers :=
    (unheard_of_tells unheard moves.bus (moves.table.wellFormed unheard.queue) moves.streams).2
  have rows := moves.table.rows
  cases returns : r.returns a with
  | false =>
    refine ⟨fun _ left => absurd left Bool.false_ne_true, fun _ t ht settled idle => ?_⟩
    rw [rows] at ht
    rw [openStream_congr moves.streams subscribers]
    exact quiet t ht settled fun busy => idle ((moves.stays returns t.taskId).mpr busy)
  | true =>
    have runs := moves.left returns
    refine ⟨fun after _ t ht at_id settled idle => ?_, fun safe t ht settled idle => ?_⟩
    · rw [← at_id] at idle ⊢
      rw [← openStream_congr moves.streams subscribers]
      exact after t (rows ▸ ht) settled (runs ▸ idle)
    · rw [rows] at ht
      rw [runs] at idle
      rw [openStream_congr moves.streams subscribers]
      by_cases mine : t.taskId = r.taskId
      · rw [mine] at idle ⊢
        exact safe rfl t ht mine settled idle
      · exact quiet t ht settled fun busy => idle (others_leave found mine busy)

/-- A subscription keeps them right, where it is not to an ended task. -/
theorem quiet_subscribed_iff {s : Service δ} {bus : EventBus δ} {id : Nat} {call : StreamCall}
    (unheard : Unheard s) (quiet : Quiet s) (found : s.streams.get id = some call)
    (step : s.bus.subscribe taskBus id (.str call.path) = some bus) :
    Quiet { s with bus } ↔ ∀ t ∈ s.queue.rows, t.taskId = call.taskId →
      t.status.isOver = true → InFlight s.runs call.taskId := by
  have opens := openStream_subscribed_iff unheard found step
  refine ⟨fun after t ht at_id settled => ?_, fun safe t ht settled idle => ?_⟩
  · by_contra idle
    rw [← at_id] at idle
    exact after t ht settled idle ((opens t.taskId).mpr (.inr at_id.symm))
  · intro open_
    rcases (opens t.taskId).mp open_ with old | mine
    · exact quiet t ht settled idle old
    · rw [← mine] at idle
      exact idle (safe t ht mine.symm settled)

theorem quiet_iff_of_step {x : StreamStep δ} (h : service.Steps x) (unheard : Unheard x.before)
    (quiet : Quiet x.before) : Quiet x.after ↔ Safe x := by
  obtain ⟨s, a, label, s'⟩ := x
  have moves : StreamMove s a s' := stream_moves h
  have unheard : Unheard s := unheard
  have quiet : Quiet s := quiet
  show Quiet s' ↔ Safe _
  -- a step that is none of the three
  have other (notQueue : ∀ b, a ≠ .queue b) (notRun : ∀ id b, a ≠ .run id b)
      (notSubscribe : ∀ id, a ≠ .subscribe id) (after : Quiet s') :
      Quiet s' ↔ Safe ⟨s, a, label, s'⟩ :=
    ⟨fun _ => ⟨fun _ _ input => absurd input (notQueue _),
      fun _ _ _ input => absurd input (notRun _ _),
      fun _ _ input => absurd input (notSubscribe _)⟩, fun _ => after⟩
  cases moves with
  | queued step =>
    refine (quiet_queued_iff unheard.queue quiet step).trans
      ⟨fun safe => ⟨fun t ht input => safe t ht (StreamAction.queue.inj input), ?_, ?_⟩,
        fun safe t ht input => safe.commits t ht (congrArg _ input)⟩
    · intro _ _ _ input
      cases input
    · intro _ _ input
      cases input
  | @ran id r a s' found moves =>
    obtain ⟨-, rfl⟩ := Table.get_mem found
    rw [quiet_ran_iff unheard found quiet moves]
    refine ⟨fun safe => ⟨?_, ?_, ?_⟩, fun safe => safe.returns r.id a r rfl found⟩
    · intro _ _ input
      cases input
    · intro id a r' input found' left
      cases input
      cases found.symm.trans found'
      exact safe left
    · intro _ _ input
      cases input
  | @subscribed id call bus found step =>
    rw [quiet_subscribed_iff unheard quiet found step]
    refine ⟨fun safe => ⟨?_, ?_, ?_⟩, fun safe => safe.subscribes id call rfl found⟩
    · intro _ _ input
      cases input
    · intro _ _ _ input
      cases input
    · intro id' call' input found'
      cases input
      cases found.symm.trans found'
      exact safe
  | created inFlight =>
    exact other nofun nofun nofun fun t ht settled idle =>
      quiet t ht settled fun busy => idle (inFlight busy)
  | cancelled =>
    exact other nofun nofun nofun fun t ht settled idle =>
      quiet t ht settled fun busy =>
        idle ((inFlight_modify_iff cancel_id fun _ => rfl).mpr busy)
  | answered => exact other nofun nofun nofun quiet
  | connected insert =>
    exact other nofun nofun nofun fun t ht settled idle open_ =>
      quiet t ht settled idle (open_of_connected unheard insert open_)
  | client isClient step =>
    exact other nofun nofun nofun fun t ht settled idle open_ =>
      quiet t ht settled idle (open_of_client unheard isClient step open_)

/-- In every run of a process, no stream is left without an end exactly if its steps are
safe. No stream is given any event, so all that a step can rely on is that clients have gone
away. -/
theorem stream_closed_iff (start : DbStart) (actions : List (StreamAction δ)) :
    ((∀ x ∈ service.run start.service actions, NoOrphan x.after) ↔
      ∀ x ∈ service.run start.service actions, Safe x) ∧
    ∀ x ∈ service.run start.service actions, ∀ q ∈ x.after.bus.subscribers.rows,
      q.taken ++ q.queue = [] := by
  refine ⟨?_, fun x hx => ?_⟩
  · refine Machine.run_iff_of_ok (R := fun _ => True) (I := fun s => Unheard s ∧ Quiet s)
      (fun x h c _ => ?_) (fun x h c _ none => ?_) ⟨unheard_start start, ?_⟩ fun _ _ => trivial
    · exact (noOrphan_iff (unheard_of_step h c.1)).trans (quiet_iff_of_step h c.1 c.2)
    · have after := unheard_of_step h c.1
      exact ⟨after, (noOrphan_iff after).mp none⟩
    · rintro _ _ _ _ ⟨_, _, mem, _⟩
      exact absurd mem List.not_mem_nil
  · obtain ⟨-, -, after⟩ := Machine.run_invariant (fun _ h c => unheard_of_step h c)
      (unheard_start start) x hx
    exact after.silent

/-! ## Streams that heartbeat forever -/

theorem orphan_of_open {start : DbStart} {actions : List (StreamAction δ)}
    (open_ : ∃ x ∈ service.run start.service actions, ∃ t ∈ x.after.queue.rows,
      t.status.isOver = true ∧ ¬ InFlight x.after.runs t.taskId ∧ ∃ call ∈ x.after.streams.rows,
        call.taskId = t.taskId ∧ ∃ q ∈ x.after.bus.subscribers.rows,
          q.id = call.id ∧ q.phase ≠ .closed) :
    ¬ ∀ x ∈ service.run start.service actions, NoOrphan x.after := by
  intro none
  obtain ⟨x, hx, t, ht, settled, idle, call, mem, same, q, hq, at_id, stays⟩ := open_
  obtain ⟨-, -, unheard⟩ := Machine.run_invariant (fun _ h c => unheard_of_step h c)
    (unheard_start start) x hx
  refine (noOrphan_iff unheard).mp (none x hx) t ht settled idle ⟨q, call, mem, same, ?_, ?_⟩
  · rw [← at_id]
    exact Table.get_of_mem hq
  · exact (unheard.waits q hq).resolve_left stays

def emptyDb : DbStart := ⟨.empty, wellFormed_empty⟩

def sampleArgs : MarkArgs := ⟨"4", some 2, "3", "boom", 4⟩

/-- A statement finds one row and commits. -/
def runStatement (session : Nat) (stmt : TaskStatement) : List (StreamAction Unit) :=
  [.queue (.start session stmt), .queue (.visit session false), .queue (.commit session)]

/-- A client opens the stream of its task. -/
def openStream (id : Nat) (taskId : String) : List (StreamAction Unit) :=
  [.connect id taskId taskId "user-1", .subscribe id]

/-- A worker claims the task and starts a coroutine. -/
def claimTask (id : Nat) (taskId : String) : List (StreamAction Unit) :=
  runStatement 0 (.claimNextQueuedTask (some "node-1") 1) ++ [.create id taskId]

/-- A task is submitted, its stream opened, and the task claimed, run and completed. -/
def completeOpen : List (StreamAction Unit) :=
  .queue (.createTask "task-1" sampleTask 0) :: openStream 1 "task-1" ++ claimTask 0 "task-1" ++
    [.run 0 (.emits "task_start" ()), .run 0 (.streamEnds .ended sampleArgs (some 0)),
      .queue (.visit 0 false), .queue (.commit 0), .run 0 (.resumes false false () sampleArgs none)]

/-- The owner cancels a queued task with an open stream. -/
def cancelOpen : List (StreamAction Unit) :=
  .queue (.createTask "task-1" sampleTask 0) :: openStream 0 "task-1" ++
    runStatement 0 (.markTaskCancelled "task-1" "user-1" 1)

/-- A task fails, and with it one that depends on it and has an open stream. -/
def failOpen : List (StreamAction Unit) :=
  [.queue (.createTask "task-1" sampleTask 0)] ++ claimTask 0 "task-1" ++
    [.queue (.createTask "task-2" { sampleTask with dependsOn := some "task-1" } 2)] ++
    openStream 1 "task-2" ++
    [.run 0 (.streamEnds .raised sampleArgs (some 0)), .queue (.visit 0 false),
      .queue (.commit 0), .run 0 (.resumes false false () sampleArgs (some 1)),
      .queue (.visit 1 false), .queue (.commit 1)]

theorem stream_orphaned :
    (¬ ∀ x ∈ service.run emptyDb.service completeOpen, NoOrphan x.after) ∧
      (¬ ∀ x ∈ service.run emptyDb.service cancelOpen, NoOrphan x.after) ∧
      ¬ ∀ x ∈ service.run emptyDb.service failOpen, NoOrphan x.after :=
  ⟨orphan_of_open (by decide +kernel), orphan_of_open (by decide +kernel),
    orphan_of_open (by decide +kernel)⟩

end LegionForge.Gateway
