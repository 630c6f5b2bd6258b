import LegionForge.Gateway.Submit
import LegionForge.Lib.Machine
import LegionForge.Lib.Table
import Mathlib.Algebra.GroupWithZero.Nat

/-!
# The slots of the event streams

`stream_task` takes a slot for the user before it reads the row of the task. It gives it
back where the row is missing, and otherwise leaves that to the `finally` of the generator
that it puts in the response. The lock around the counter is never held over a suspension,
so each of the two functions is one step.

Two ways lead past both places: `get_task` raises, or nobody ever asks the generator for
its first item, and a generator that has not started has no `finally` to run. The counter
is the slots of the requests that hold one and those that were lost on these two ways
(`slots_invariant`).
-/

namespace LegionForge.Gateway

/-- Where the generator of a stream is suspended. -/
inductive GeneratorPhase where
  /-- In the only `yield` for a task that is over -/
  | terminal
  /-- In `subscribe_task_events` -/
  | waiting
  /-- In `request.is_disconnected` -/
  | asking
  /-- In the `yield` of the loop -/
  | sending
  deriving DecidableEq, Repr

inductive SlotPhase where
  /-- In `get_task` -/
  | reading
  /-- The response has the generator, which has not started. -/
  | responding (status : String)
  | streaming (generator : GeneratorPhase)
  /-- The client has gone during a `yield`, and the generator waits to be closed. -/
  | abandoned
  | over
  deriving DecidableEq, Repr

/-- A `stream_task` call that was given a slot. -/
structure SlotRequest where
  id : Nat
  userId : String
  phase : SlotPhase

/-- `_active_streams` and the calls. A user without an entry counts 0. -/
structure StreamSlots where
  active : String → Nat
  requests : Table SlotRequest.id

def StreamSlots.empty : StreamSlots := ⟨fun _ => 0, .empty⟩

/-! ## The two functions -/

/-- `settings.gateway.max_sse_streams_per_user`, or 10 if there are no settings -/
def streamLimit (configured : Option Int) : Int := configured.getD 10

def tooManyStreams (current : Nat) (limit : Int) : HttpError where
  status := 429
  detail := s!"Too many open streams — you already have {current} SSE " ++
    s!"connection(s) open (max {limit}). " ++
    "Close an existing stream before opening a new one."
  retryAfter := some 30

/-- `_acquire_stream_slot` -/
def acquireStreamSlot (limit : Int) (active : String → Nat) (userId : String) :
    Except HttpError (String → Nat) :=
  if limit ≤ 0 then .ok active
  else if limit ≤ active userId then .error (tooManyStreams (active userId) limit)
  else .ok (Function.update active userId (active userId + 1))

/-- `_release_stream_slot` -/
def releaseStreamSlot (active : String → Nat) (userId : String) : String → Nat :=
  if active userId ≤ 1 then Function.update active userId 0
  else Function.update active userId (active userId - 1)

/-! ## `stream_task` -/

/-- How `get_task` comes back; a call that is cancelled raises. -/
inductive TaskRead where
  | raises
  | missing
  | found (status : String)

/-- What a suspended generator goes on with. -/
inductive Resumption where
  /-- There is an event, or the client is connected. -/
  | goesOn
  /-- There are no more events, or the client has disconnected. -/
  | stops
  /-- An exception, a cancellation, or `aclose` -/
  | thrown

/-- Where the generator stops first. -/
def GeneratorPhase.first (status : String) : GeneratorPhase :=
  if status = "complete" ∨ status = "failed" ∨ status = "cancelled" then .terminal else .waiting

/-- Where it stops next, or `none` when it is done. -/
def GeneratorPhase.next : GeneratorPhase → Resumption → Option GeneratorPhase
  | .waiting, .goesOn => some .asking
  | .asking, .goesOn => some .sending
  | .sending, .goesOn => some .waiting
  | .terminal, .goesOn | _, .stops | _, .thrown => none

inductive SlotAction where
  /-- The caller is authenticated as the user. -/
  | connects (id : Nat) (userId : String)
  | taskRead (id : Nat) (answer : TaskRead)
  /-- The response asks for the first item. -/
  | starts (id : Nat)
  /-- The response is given up before it does. -/
  | dropped (id : Nat)
  | resumes (id : Nat) (how : Resumption)
  /-- The client goes during a `yield`. -/
  | leaves (id : Nat)
  /-- The generator is closed, by the response or by the garbage collector. -/
  | closed (id : Nat)

namespace StreamSlots

variable (s : StreamSlots)

def moveTo (id : Nat) (phase : SlotPhase) : StreamSlots :=
  { s with requests := s.requests.modify id ({ · with phase }) fun _ => rfl }

/-- The `finally` of the generator, and the way out for a missing task. -/
def release (r : SlotRequest) : StreamSlots :=
  { s.moveTo r.id .over with active := releaseStreamSlot s.active r.userId }

/-- The step of a call that has a slot, with what is answered instead of a stream. -/
def advance (r : SlotRequest) (a : SlotAction) : Option (StreamSlots × Option HttpError) :=
  match a, r.phase with
  | .taskRead _ .raises, .reading => some (s.moveTo r.id .over, some internalServerError)
  | .taskRead _ .missing, .reading => some (s.release r, some ⟨404, "Task not found", none⟩)
  | .taskRead _ (.found status), .reading => some (s.moveTo r.id (.responding status), none)
  | .starts _, .responding status => some (s.moveTo r.id (.streaming (.first status)), none)
  | .dropped _, .responding _ => some (s.moveTo r.id .over, none)
  | .resumes _ how, .streaming generator =>
    match generator.next how with
    | some generator => some (s.moveTo r.id (.streaming generator), none)
    | none => some (s.release r, none)
  | .leaves _, .streaming .terminal => some (s.moveTo r.id .abandoned, none)
  | .leaves _, .streaming .sending => some (s.moveTo r.id .abandoned, none)
  | .closed _, .abandoned => some (s.release r, none)
  | _, _ => none

end StreamSlots

def SlotAction.id : SlotAction → Nat
  | .connects id _ | .taskRead id _ | .starts id | .dropped id | .resumes id _ | .leaves id
  | .closed id => id

def StreamSlots.step (limit : Int) (s : StreamSlots) (a : SlotAction) :
    Option (StreamSlots × Option HttpError) :=
  match a with
  | .connects id userId =>
    match acquireStreamSlot limit s.active userId with
    | .error error => some (s, some error)
    | .ok active =>
      (s.requests.insert ⟨id, userId, .reading⟩).map fun requests => (⟨active, requests⟩, none)
  | a =>
    match s.requests.get a.id with
    | none => none
    | some r => s.advance r a

/-- A gateway process under its configured limit. -/
def streamSlots (configured : Option Int) :
    Machine StreamSlots SlotAction (Option HttpError) where
  step := StreamSlots.step (streamLimit configured)

abbrev SlotStep := Machine.Entry StreamSlots SlotAction (Option HttpError)

/-! ## What is counted -/

/-- The generator has started, and the client is there. -/
def SlotPhase.isOpen : SlotPhase → Bool
  | .streaming _ => true
  | .reading | .responding _ | .abandoned | .over => false

def SlotPhase.inProgress : SlotPhase → Bool
  | .reading | .responding _ | .abandoned => true
  | .streaming _ | .over => false

def StreamSlots.count (s : StreamSlots) (p : SlotPhase → Bool) (userId : String) : Nat :=
  (s.requests.rows.map fun r => if r.userId = userId ∧ p r.phase then 1 else 0).sum

def StreamSlots.openStreams (s : StreamSlots) : String → Nat := s.count (·.isOpen)

/-- Calls on their way to a stream or out of it. -/
def StreamSlots.inProgress (s : StreamSlots) : String → Nat := s.count (·.inProgress)

/-- No call is in progress. -/
def StreamSlots.Quiet (s : StreamSlots) : Prop := ∀ r ∈ s.requests.rows, r.phase.inProgress = false

/-- `get_task` raises, or the generator never starts. -/
def SlotAction.Loses : SlotAction → Prop
  | .taskRead _ .raises | .dropped _ => True
  | _ => False

/-! ## What a step does -/

def SlotPhase.holds (phase : SlotPhase) : Bool := phase.isOpen || phase.inProgress

def StreamSlots.held (s : StreamSlots) : String → Nat := s.count (·.holds)

/-- A request is refused or given a slot; a call that has one moves on with it, gives it
back, or loses it. -/
inductive SlotMove (limit : Int) (s : StreamSlots) (a : SlotAction) : StreamSlots → Prop
  | refused (stays : ¬ a.Loses) : SlotMove limit s a s
  | taken (id : Nat) (userId : String) (active : String → Nat) (requests : Table SlotRequest.id)
      (stays : ¬ a.Loses)
      (acquired : acquireStreamSlot limit s.active userId = .ok active)
      (added : s.requests.insert ⟨id, userId, .reading⟩ = some requests) :
      SlotMove limit s a ⟨active, requests⟩
  | moved (r : SlotRequest) (phase : SlotPhase) (stays : ¬ a.Loses)
      (found : s.requests.get r.id = some r) (before : r.phase.holds = true)
      (after : phase.holds = true) : SlotMove limit s a (s.moveTo r.id phase)
  | released (r : SlotRequest) (stays : ¬ a.Loses) (found : s.requests.get r.id = some r)
      (before : r.phase.holds = true) : SlotMove limit s a (s.release r)
  | lost (r : SlotRequest) (loses : a.Loses) (found : s.requests.get r.id = some r)
      (before : r.phase.holds = true) : SlotMove limit s a (s.moveTo r.id .over)

theorem slotMove_of_advance {limit : Int} {s s' : StreamSlots} {a : SlotAction}
    {r : SlotRequest} {answer : Option HttpError} (found : s.requests.get r.id = some r)
    (h : s.advance r a = some (s', answer)) : SlotMove limit s a s' := by
  unfold StreamSlots.advance at h
  split at h
  next phase => cases h; exact .lost r trivial found (by rw [phase]; rfl)
  next phase => cases h; exact .released r not_false found (by rw [phase]; rfl)
  next phase => cases h; exact .moved r _ not_false found (by rw [phase]; rfl) rfl
  next phase => cases h; exact .moved r _ not_false found (by rw [phase]; rfl) rfl
  next phase => cases h; exact .lost r trivial found (by rw [phase]; rfl)
  next phase =>
    split at h
    · cases h; exact .moved r _ not_false found (by rw [phase]; rfl) rfl
    · cases h; exact .released r not_false found (by rw [phase]; rfl)
  next phase => cases h; exact .moved r _ not_false found (by rw [phase]; rfl) rfl
  next phase => cases h; exact .moved r _ not_false found (by rw [phase]; rfl) rfl
  next phase => cases h; exact .released r not_false found (by rw [phase]; rfl)
  next => cases h

theorem slot_moves {configured : Option Int} {x : SlotStep}
    (h : (streamSlots configured).Steps x) :
    SlotMove (streamLimit configured) x.before x.input x.after := by
  obtain ⟨s, a, answer, s'⟩ := x
  have step : StreamSlots.step (streamLimit configured) s a = some (s', answer) := h
  unfold StreamSlots.step at step
  split at step
  next id userId =>
    split at step
    · cases step; exact .refused not_false
    next active acquired =>
      obtain ⟨requests, added, rfl, -⟩ := by simpa using step
      exact .taken id userId active requests not_false acquired added
  next =>
    split at step
    · cases step
    next r found =>
      have at_id : r.id = a.id := (Table.get_mem found).2
      rw [← at_id] at found
      exact slotMove_of_advance found step

/-! ## The counter -/

theorem releaseStreamSlot_apply (active : String → Nat) (userId u : String) :
    releaseStreamSlot active userId u = active u - if userId = u then 1 else 0 := by
  unfold releaseStreamSlot
  by_cases same : userId = u
  · subst same
    rw [if_pos rfl]
    split
    next few => rw [Function.update_self]; omega
    next => rw [Function.update_self]
  · rw [if_neg same, Nat.sub_zero]
    split <;> exact Function.update_of_ne (Ne.symm same) _ _

theorem acquireStreamSlot_apply {limit : Int} {active active' : String → Nat} {userId : String}
    (h : acquireStreamSlot limit active userId = .ok active') (u : String) :
    active' u = active u + if 0 < limit ∧ userId = u then 1 else 0 := by
  unfold acquireStreamSlot at h
  split at h
  next off =>
    cases h
    rw [if_neg (by omega), Nat.add_zero]
  next on =>
    split at h
    · cases h
    · cases h
      by_cases same : userId = u
      · subst same
        rw [Function.update_self, if_pos ⟨by omega, rfl⟩]
      · rw [Function.update_of_ne (Ne.symm same), if_neg (fun both => same both.2), Nat.add_zero]

/-- A call that moves is counted where it is now and no longer where it was. -/
theorem count_moveTo {s : StreamSlots} {r : SlotRequest} (found : s.requests.get r.id = some r)
    (phase : SlotPhase) (p : SlotPhase → Bool) (u : String) :
    (s.moveTo r.id phase).count p u + (if r.userId = u ∧ p r.phase then 1 else 0) =
      s.count p u + if r.userId = u ∧ p phase then 1 else 0 :=
  Table.sum_modify (f := fun r => { r with phase }) found (fun _ => rfl)
    fun r => if r.userId = u ∧ p r.phase then 1 else 0

theorem held_moved {s : StreamSlots} {r : SlotRequest} (found : s.requests.get r.id = some r)
    (before : r.phase.holds = true) {phase : SlotPhase} (after : phase.holds = true)
    (u : String) : (s.moveTo r.id phase).held u = s.held u := by
  have moved := count_moveTo found phase SlotPhase.holds u
  rw [before, after] at moved
  exact Nat.add_right_cancel moved

theorem held_over {s : StreamSlots} {r : SlotRequest} (found : s.requests.get r.id = some r)
    (before : r.phase.holds = true) (u : String) :
    (s.moveTo r.id .over).held u + (if r.userId = u then 1 else 0) = s.held u := by
  have moved := count_moveTo found .over SlotPhase.holds u
  have gone : SlotPhase.over.holds = false := rfl
  simp only [before, gone, and_true, Bool.false_eq_true, and_false, if_false, Nat.add_zero]
    at moved
  exact moved

theorem held_taken {s : StreamSlots} {id : Nat} {userId : String}
    {requests : Table SlotRequest.id}
    (added : s.requests.insert ⟨id, userId, .reading⟩ = some requests) (active : String → Nat)
    (u : String) :
    StreamSlots.held ⟨active, requests⟩ u = s.held u + if userId = u then 1 else 0 := by
  have reading : SlotPhase.reading.holds = true := rfl
  unfold StreamSlots.held StreamSlots.count
  rw [Table.insert_rows added, List.map_cons, List.sum_cons, Nat.add_comm]
  simp only [reading, and_true]

theorem held_eq (s : StreamSlots) (u : String) : s.held u = s.openStreams u + s.inProgress u := by
  unfold StreamSlots.held StreamSlots.openStreams StreamSlots.inProgress StreamSlots.count
  rw [← List.sum_map_add]
  congr 1
  refine List.map_congr_left fun r _ => ?_
  unfold SlotPhase.holds
  by_cases mine : r.userId = u
  · rcases r.phase <;> simp [mine, SlotPhase.isOpen, SlotPhase.inProgress]
  · simp [mine]

theorem inProgress_of_quiet {s : StreamSlots} (quiet : s.Quiet) (u : String) :
    s.inProgress u = 0 := by
  refine List.sum_eq_zero fun n hn => ?_
  obtain ⟨r, hr, rfl⟩ := List.mem_map.mp hn
  refine if_neg fun both => ?_
  have busy : r.phase.inProgress = true := both.2
  rw [quiet r hr] at busy
  cases busy

/-! ## The invariant -/

/-- The counter is the slots that are held and those that were lost, and none is lost as
long as no step loses one. Without a limit it stays at 0. -/
def SlotsAccounted (limit : Int) (past : List SlotStep) (s : StreamSlots) : Prop :=
  ∃ lost : String → Nat,
    (∀ u, s.active u = if 0 < limit then s.held u + lost u else 0) ∧
      ((∀ u, lost u = 0) ↔ ∀ x ∈ past, ¬ x.input.Loses)

theorem slotsAccounted_step {configured : Option Int} {past : List SlotStep} {x : SlotStep}
    (step : (streamSlots configured).Steps x)
    (h : SlotsAccounted (streamLimit configured) past x.before) :
    SlotsAccounted (streamLimit configured) (past ++ [x]) x.after := by
  obtain ⟨lost, counter, none_lost⟩ := h
  have move := slot_moves step
  obtain ⟨s, a, answer, s'⟩ := x
  unfold SlotsAccounted
  rw [List.forall_mem_append, List.forall_mem_singleton]
  dsimp only at counter move ⊢
  generalize streamLimit configured = limit at counter move ⊢
  cases move with
  | refused stays => exact ⟨lost, counter, none_lost.trans (and_iff_left stays).symm⟩
  | taken id userId active requests stays acquired added =>
    refine ⟨lost, fun u => ?_, none_lost.trans (and_iff_left stays).symm⟩
    dsimp only
    rw [acquireStreamSlot_apply acquired u, held_taken added active u, counter u]
    by_cases on : 0 < limit
    · simp only [on, true_and, if_true]
      omega
    · simp only [on, false_and, if_false]
  | moved r phase stays found before after =>
    refine ⟨lost, fun u => ?_, none_lost.trans (and_iff_left stays).symm⟩
    rw [held_moved found before after u]
    exact counter u
  | released r stays found before =>
    refine ⟨lost, fun u => ?_, none_lost.trans (and_iff_left stays).symm⟩
    have held := held_over found before u
    have same : (s.release r).held u = (s.moveTo r.id .over).held u := rfl
    have released : (s.release r).active u = releaseStreamSlot s.active r.userId u := rfl
    rw [released, same, releaseStreamSlot_apply, counter u]
    split <;> omega
  | lost r loses found before =>
    -- the counter stays, and one of its slots is held by nobody now
    refine ⟨fun u => lost u + if r.userId = u then 1 else 0, fun u => ?_, fun none => ?_,
      fun none => absurd loses none.2⟩
    · have held := held_over found before u
      have kept : (s.moveTo r.id .over).active u = s.active u := rfl
      rw [kept, counter u, ← held]
      dsimp only
      split <;> omega
    · have one : lost r.userId + (if r.userId = r.userId then 1 else 0) = 0 := none r.userId
      rw [if_pos rfl] at one
      cases one

theorem slots_invariant (configured : Option Int) (actions : List SlotAction) :
    SlotsAccounted (streamLimit configured) ((streamSlots configured).run .empty actions)
      ((streamSlots configured).final .empty actions) := by
  refine Machine.history_final (fun past x => slotsAccounted_step) ⟨fun _ => 0, ?_, ?_⟩
  · intro u
    split <;> rfl
  · exact ⟨fun _ _ hx => absurd hx List.not_mem_nil, fun _ _ => rfl⟩

/-- The user's next request would be refused. -/
def StreamSlots.Refuses (limit : Int) (s : StreamSlots) (userId : String) : Prop :=
  acquireStreamSlot limit s.active userId = .error (tooManyStreams (s.active userId) limit)

theorem refuses_iff {limit : Int} {s : StreamSlots} {u : String} :
    s.Refuses limit u ↔ 0 < limit ∧ limit ≤ s.active u := by
  unfold StreamSlots.Refuses acquireStreamSlot
  split
  next off => exact ⟨fun h => (by cases h), fun h => (by omega)⟩
  next on =>
    split
    next full => exact ⟨fun _ => ⟨by omega, full⟩, fun _ => rfl⟩
    next free => exact ⟨fun h => (by cases h), fun h => absurd h.2 free⟩

/-- For every sequence of requests and every way they go, in the state it leads to: where
no request is in progress the counters are the open streams, if and only if no step lost a
slot, or there is no limit and nothing is open. As long as no step loses a slot a user is
only refused when the streams that are open or on their way reach the limit. -/
theorem stream_slots_iff (configured : Option Int) (actions : List SlotAction) :
    let limit := streamLimit configured
    let run := (streamSlots configured).run .empty actions
    let s := (streamSlots configured).final .empty actions
    (s.Quiet → ((∀ u, s.active u = s.openStreams u) ↔
      if 0 < limit then ∀ x ∈ run, ¬ x.input.Loses else ∀ u, s.openStreams u = 0)) ∧
    ((∀ x ∈ run, ¬ x.input.Loses) → ∀ u, s.Refuses limit u →
      limit ≤ s.openStreams u + s.inProgress u) := by
  obtain ⟨lost, counter, none_lost⟩ := slots_invariant configured actions
  dsimp only
  generalize streamLimit configured = limit at counter ⊢
  generalize (streamSlots configured).final .empty actions = s at counter ⊢
  refine ⟨fun quiet => ?_, fun kept u refuses => ?_⟩
  · by_cases on : 0 < limit
    · rw [if_pos on, ← none_lost]
      refine forall_congr' fun u => ?_
      rw [counter u, if_pos on, held_eq, inProgress_of_quiet quiet u]
      omega
    · rw [if_neg on]
      refine forall_congr' fun u => ?_
      rw [counter u, if_neg on]
      exact eq_comm
  · obtain ⟨on, full⟩ := refuses_iff.mp refuses
    rw [counter u, if_pos on, none_lost.mpr kept u, held_eq] at full
    omega

/-! ## Slots that nobody holds -/

/-- Ten streams are asked for while the database is down. -/
def failedReads : List SlotAction :=
  (List.range 10).flatMap fun id => [.connects id "ada", .taskRead id .raises]

/-- Nothing is open or in progress, and ada's next stream is refused. -/
theorem lost_slots_refuse :
    let s := (streamSlots (some 10)).final .empty failedReads
    s.Quiet ∧ s.active "ada" = 10 ∧ s.openStreams "ada" = 0 ∧ s.Refuses 10 "ada" := by
  have counter : ((streamSlots (some 10)).final .empty failedReads).active "ada" = 10 := by
    decide +kernel
  refine ⟨?_, counter, by decide +kernel, refuses_iff.mpr ⟨by decide, by rw [counter]; decide⟩⟩
  unfold StreamSlots.Quiet
  decide +kernel

end LegionForge.Gateway
