import LegionForge.Audit.Row
import LegionForge.Lib.Machine
import LegionForge.Lib.Table
import Mathlib.Logic.Function.Basic

/-!
# The event bus

Tasks and pipelines have a bus each, with the same code: a table of channels, which
are lists of subscriber queues, and a bounded cache of terminal events. The queues are
unbounded, so no `put` suspends, and a publication is one step; a subscription is one up to
the first event it waits for. They differ in the clause that takes the queue out of its
channel: one goes to the list it has put it in, the other looks the channel up again.
This makes no difference, since a queue is in no channel but the one it was put in
(`leave_lists`).
-/

namespace LegionForge.Gateway

/-- An id as the code has it in hand: a row gives a `uuid.UUID`, a path a text. Neither is
equal to the other, so a dictionary with the one as a key does not find the other. -/
inductive UuidOrStr where
  | uuid (text : String)
  | str (text : String)
  deriving DecidableEq, Repr

/-! ## Events and subscribers -/

structure Event (δ : Type) where
  /-- `event.get("event")` -/
  event : Option String
  data : δ
  deriving DecidableEq, Repr

inductive Item (δ : Type) where
  | event (e : Event δ)
  | sentinel
  deriving DecidableEq, Repr

inductive Yielded (δ : Type) where
  | event (e : Event δ)
  | heartbeat
  deriving DecidableEq, Repr

inductive SubscriberPhase where
  /-- It waits for its queue, which it has put into the channel with this reference. -/
  | listening (channel : Nat)
  /-- It has yielded the event that was cached. -/
  | replayed
  | returned
  /-- The client has closed it. -/
  | closed
  deriving DecidableEq, Repr

/-- A call of `subscribe_task_events` or `subscribe_pipeline_events`, and its queue -/
structure Subscriber (δ : Type) where
  id : Nat
  key : UuidOrStr
  phase : SubscriberPhase
  queue : List (Item δ)
  yielded : List (Yielded δ)
  deriving DecidableEq, Repr

variable {ι δ : Type}

def Subscriber.put (items : List (Item δ)) (s : Subscriber δ) : Subscriber δ :=
  { s with queue := s.queue ++ items }

def Subscriber.yield (e : Event δ) (s : Subscriber δ) : Subscriber δ :=
  { s with queue := s.queue.tail, yielded := s.yielded ++ [.event e] }

def Subscriber.beat (s : Subscriber δ) : Subscriber δ :=
  { s with yielded := s.yielded ++ [.heartbeat] }

/-- The sentinel is taken, or the event has been replayed. -/
def Subscriber.return (s : Subscriber δ) : Subscriber δ :=
  { s with queue := s.queue.tail, phase := .returned }

def Subscriber.close (s : Subscriber δ) : Subscriber δ := { s with phase := .closed }

section
variable (s : Subscriber δ)

@[simp] theorem put_id (items : List (Item δ)) : (s.put items).id = s.id := rfl
@[simp] theorem yield_id (e : Event δ) : (s.yield e).id = s.id := rfl
@[simp] theorem beat_id : s.beat.id = s.id := rfl
@[simp] theorem return_id : s.return.id = s.id := rfl
@[simp] theorem close_id : s.close.id = s.id := rfl

end

/-! ## The buses -/

/-- What the code of the two buses differs in. -/
structure BusCode (ι : Type) where
  key : ι → UuidOrStr
  key_inj : Function.Injective key
  terminalEvents : List String
  /-- The `finally` clause looks the channel up again. -/
  looksUp : Bool

def taskBus : BusCode UuidOrStr where
  key := id
  key_inj := Function.injective_id
  terminalEvents := ["task_complete", "task_error", "task_cancelled", "hitl_required"]
  looksUp := false

def pipelineBus : BusCode Int where
  key runId := .str (String.ofList (Audit.intText runId))
  key_inj _ _ same := Audit.intText_inj (String.ofList_injective (UuidOrStr.str.inj same))
  terminalEvents := ["pipeline_complete", "pipeline_failed"]
  looksUp := true

def BusCode.isTerminal (code : BusCode ι) (e : Event δ) : Bool :=
  e.event.any code.terminalEvents.contains

def terminalCacheMaxsize : Nat := 2000

/-- The lists of queues are objects with references. -/
structure EventBus (δ : Type) where
  channels : UuidOrStr → Option Nat
  lists : Nat → List Nat
  allocated : Nat
  terminalEvents : Table (Prod.fst : UuidOrStr × Event δ → UuidOrStr)
  subscribers : Table (Subscriber.id (δ := δ))

def EventBus.empty : EventBus δ where
  channels _ := none
  lists _ := []
  allocated := 0
  terminalEvents := .empty
  subscribers := .empty

/-- `_channels.get(key, [])` -/
def EventBus.queues (bus : EventBus δ) (key : UuidOrStr) : List Nat :=
  match bus.channels key with
  | none => []
  | some c => bus.lists c

/-- `put` on each of the queues -/
def putAll (subscribers : Table (Subscriber.id (δ := δ))) (queues : List Nat)
    (items : List (Item δ)) : Table (Subscriber.id (δ := δ)) :=
  queues.foldl (fun subscribers q => subscribers.modify q (·.put items) (put_id · items))
    subscribers

/-- The oldest entry makes room even if there is one with the key. -/
def cacheTerminal (cache : Table (Prod.fst : UuidOrStr × Event δ → UuidOrStr)) (key : UuidOrStr)
    (e : Event δ) : Table (Prod.fst : UuidOrStr × Event δ → UuidOrStr) :=
  (if terminalCacheMaxsize ≤ cache.rows.length then cache.dropOldest else cache).upsert
    (key, e) (fun p => (p.1, e)) fun _ => rfl

/-- `publish_event`, `publish_pipeline_event` -/
def EventBus.publish (code : BusCode ι) (bus : EventBus δ) (subject : ι) (e : Event δ) :
    EventBus δ :=
  let key := code.key subject
  let queues := bus.queues key
  if code.isTerminal e then
    { bus with
      terminalEvents := cacheTerminal bus.terminalEvents key e
      subscribers := putAll bus.subscribers queues [.event e, .sentinel]
      channels := Function.update bus.channels key none }
  else { bus with subscribers := putAll bus.subscribers queues [.event e] }

/-- `_get_or_create_channel` -/
def EventBus.getOrCreateChannel (bus : EventBus δ) (key : UuidOrStr) : EventBus δ × Nat :=
  match bus.channels key with
  | some c => (bus, c)
  | none =>
    ({ bus with
        channels := Function.update bus.channels key (some bus.allocated)
        lists := Function.update bus.lists bus.allocated []
        allocated := bus.allocated + 1 }, bus.allocated)

/-- `channel.append(q)` -/
def EventBus.append (bus : EventBus δ) (c id : Nat) : EventBus δ :=
  { bus with lists := Function.update bus.lists c (bus.lists c ++ [id]) }

/-- `channel.remove(q)`, where a queue that is not there is no error -/
def EventBus.remove (bus : EventBus δ) (c id : Nat) : EventBus δ :=
  { bus with lists := Function.update bus.lists c ((bus.lists c).erase id) }

def newSubscriber (id : Nat) (key : UuidOrStr) (phase : SubscriberPhase)
    (yielded : List (Yielded δ)) : Subscriber δ where
  id
  key
  phase
  queue := []
  yielded

/-- `subscribe_task_events`, `subscribe_pipeline_events`, up to the first event -/
def EventBus.subscribe (code : BusCode ι) (bus : EventBus δ) (id : Nat) (subject : ι) :
    Option (EventBus δ) :=
  let key := code.key subject
  match bus.terminalEvents.get key with
  | some cached =>
    (bus.subscribers.insert (newSubscriber id key .replayed [.event cached.2])).map
      fun subscribers => { bus with subscribers }
  | none =>
    let channel := bus.getOrCreateChannel key
    (bus.subscribers.insert (newSubscriber id key (.listening channel.2) [])).map
      fun subscribers => { channel.1.append channel.2 id with subscribers }

/-- The `finally` clause -/
def EventBus.leave (code : BusCode ι) (bus : EventBus δ) (key : UuidOrStr) (c id : Nat) :
    EventBus δ :=
  if code.looksUp then
    match bus.channels key with
    | none => bus
    | some current => bus.remove current id
  else bus.remove c id

/-- The generator goes on: with what its queue gives it, or after the replay. -/
def EventBus.receive (code : BusCode ι) (bus : EventBus δ) (id : Nat) : Option (EventBus δ) :=
  (bus.subscribers.get id).bind fun s =>
    match s.phase, s.queue with
    | .listening _, .event e :: _ =>
      some { bus with subscribers := bus.subscribers.modify id (·.yield e) (yield_id · e) }
    | .listening c, .sentinel :: _ =>
      some { bus.leave code s.key c id with
        subscribers := bus.subscribers.modify id Subscriber.return return_id }
    | .replayed, _ =>
      some { bus with subscribers := bus.subscribers.modify id Subscriber.return return_id }
    | _, _ => none

/-- Fifteen seconds have passed. -/
def EventBus.timeout (bus : EventBus δ) (id : Nat) : Option (EventBus δ) :=
  (bus.subscribers.get id).bind fun s =>
    match s.phase with
    | .listening _ =>
      some { bus with subscribers := bus.subscribers.modify id Subscriber.beat beat_id }
    | _ => none

/-- The client closes the generator. -/
def EventBus.close (code : BusCode ι) (bus : EventBus δ) (id : Nat) : Option (EventBus δ) :=
  (bus.subscribers.get id).bind fun s =>
    match s.phase with
    | .listening c =>
      some { bus.leave code s.key c id with
        subscribers := bus.subscribers.modify id Subscriber.close close_id }
    | .replayed =>
      some { bus with subscribers := bus.subscribers.modify id Subscriber.close close_id }
    | _ => none

inductive BusAction (ι δ : Type) where
  | publish (subject : ι) (e : Event δ)
  | subscribe (id : Nat) (subject : ι)
  | receive (id : Nat)
  | timeout (id : Nat)
  | close (id : Nat)

def EventBus.step (code : BusCode ι) (bus : EventBus δ) : BusAction ι δ → Option (EventBus δ)
  | .publish subject e => some (bus.publish code subject e)
  | .subscribe id subject => bus.subscribe code id subject
  | .receive id => bus.receive code id
  | .timeout id => bus.timeout id
  | .close id => bus.close code id

def eventBus (code : BusCode ι) : Machine (EventBus δ) (BusAction ι δ) Unit where
  step bus a := (bus.step code a).map (·, ())

abbrev BusStep (ι δ : Type) := Machine.Entry (EventBus δ) (BusAction ι δ) Unit

/-! ## What a step can do -/

inductive BusMove (code : BusCode ι) (bus : EventBus δ) : BusAction ι δ → EventBus δ → Prop
  | published {subject : ι} {e : Event δ} :
      BusMove code bus (.publish subject e) (bus.publish code subject e)
  | replays {id : Nat} {subject : ι} {cached : UuidOrStr × Event δ}
      {subscribers : Table (Subscriber.id (δ := δ))}
      (found : bus.terminalEvents.get (code.key subject) = some cached)
      (insert : bus.subscribers.insert
        (newSubscriber id (code.key subject) .replayed [.event cached.2]) = some subscribers) :
      BusMove code bus (.subscribe id subject) { bus with subscribers }
  | registers {id : Nat} {subject : ι} {subscribers : Table (Subscriber.id (δ := δ))}
      (absent : bus.terminalEvents.get (code.key subject) = none)
      (insert : bus.subscribers.insert (newSubscriber id (code.key subject)
        (.listening (bus.getOrCreateChannel (code.key subject)).2) []) = some subscribers) :
      BusMove code bus (.subscribe id subject)
        { (bus.getOrCreateChannel (code.key subject)).1.append
            (bus.getOrCreateChannel (code.key subject)).2 id with subscribers }
  | yields {id c : Nat} {s : Subscriber δ} {e : Event δ} {rest : List (Item δ)}
      (found : bus.subscribers.get id = some s) (at_phase : s.phase = .listening c)
      (next : s.queue = .event e :: rest) :
      BusMove code bus (.receive id)
        { bus with subscribers := bus.subscribers.modify id (·.yield e) (yield_id · e) }
  | ends {id c : Nat} {s : Subscriber δ} {rest : List (Item δ)}
      (found : bus.subscribers.get id = some s) (at_phase : s.phase = .listening c)
      (next : s.queue = .sentinel :: rest) :
      BusMove code bus (.receive id)
        { bus.leave code s.key c id with
          subscribers := bus.subscribers.modify id Subscriber.return return_id }
  | returns {id : Nat} {s : Subscriber δ} (found : bus.subscribers.get id = some s)
      (at_phase : s.phase = .replayed) :
      BusMove code bus (.receive id)
        { bus with subscribers := bus.subscribers.modify id Subscriber.return return_id }
  | beats {id c : Nat} {s : Subscriber δ} (found : bus.subscribers.get id = some s)
      (at_phase : s.phase = .listening c) :
      BusMove code bus (.timeout id)
        { bus with subscribers := bus.subscribers.modify id Subscriber.beat beat_id }
  | closes {id c : Nat} {s : Subscriber δ} (found : bus.subscribers.get id = some s)
      (at_phase : s.phase = .listening c) :
      BusMove code bus (.close id)
        { bus.leave code s.key c id with
          subscribers := bus.subscribers.modify id Subscriber.close close_id }
  | drops {id : Nat} {s : Subscriber δ} (found : bus.subscribers.get id = some s)
      (at_phase : s.phase = .replayed) :
      BusMove code bus (.close id)
        { bus with subscribers := bus.subscribers.modify id Subscriber.close close_id }

variable {code : BusCode ι}

theorem bus_moves {bus bus' : EventBus δ} {a : BusAction ι δ} (h : bus.step code a = some bus') :
    BusMove code bus a bus' := by
  cases a with
  | publish subject e =>
    cases h
    exact .published
  | subscribe id subject =>
    cases found : bus.terminalEvents.get (code.key subject) with
    | some cached =>
      simp only [EventBus.step, EventBus.subscribe, found] at h
      obtain ⟨subscribers, insert, rfl⟩ := Option.map_eq_some_iff.mp h
      exact .replays found insert
    | none =>
      simp only [EventBus.step, EventBus.subscribe, found] at h
      obtain ⟨subscribers, insert, rfl⟩ := Option.map_eq_some_iff.mp h
      exact .registers found insert
  | receive id =>
    obtain ⟨s, found, h⟩ := Option.bind_eq_some_iff.mp h
    split at h
    · next at_phase next =>
      cases h
      exact .yields found at_phase next
    · next at_phase next =>
      cases h
      exact .ends found at_phase next
    · next at_phase =>
      cases h
      exact .returns found at_phase
    · cases h
  | timeout id =>
    obtain ⟨s, found, h⟩ := Option.bind_eq_some_iff.mp h
    split at h
    · next at_phase =>
      cases h
      exact .beats found at_phase
    · cases h
  | close id =>
    obtain ⟨s, found, h⟩ := Option.bind_eq_some_iff.mp h
    split at h
    · next at_phase =>
      cases h
      exact .closes found at_phase
    · next at_phase =>
      cases h
      exact .drops found at_phase
    · cases h

theorem busMove_of_step {x : BusStep ι δ} (h : (eventBus code).Steps x) :
    BusMove code x.before x.input x.after := by
  obtain ⟨_, step, same⟩ := Option.map_eq_some_iff.mp h
  cases same
  exact bus_moves step

/-! ## Channels -/

/-- Keys have channels of their own, of distinct queues of subscribers that listen there. -/
structure EventBus.Consistent (bus : EventBus δ) : Prop where
  allocated : ∀ {k c}, bus.channels k = some c → c < bus.allocated
  separate : ∀ {k k' c}, bus.channels k = some c → bus.channels k' = some c → k = k'
  nodup : ∀ {k c}, bus.channels k = some c → (bus.lists c).Nodup
  members : ∀ {k c id}, bus.channels k = some c → id ∈ bus.lists c →
    ∃ s, bus.subscribers.get id = some s ∧ s.key = k ∧ s.phase = .listening c

theorem bus_consistent_empty : (EventBus.empty : EventBus δ).Consistent where
  allocated h := nomatch h
  separate h := nomatch h
  nodup h := nomatch h
  members h := nomatch h

theorem mem_queues_iff {bus : EventBus δ} {key : UuidOrStr} {id : Nat} :
    id ∈ bus.queues key ↔ ∃ c, bus.channels key = some c ∧ id ∈ bus.lists c := by
  unfold EventBus.queues
  split
  · next absent => simp [absent]
  · next c found => simp [found]

theorem queues_nodup {bus : EventBus δ} (c : bus.Consistent) (key : UuidOrStr) :
    (bus.queues key).Nodup := by
  unfold EventBus.queues
  split
  · exact List.nodup_nil
  · next found => exact c.nodup found

theorem get_putAll {queues : List Nat} (nodup : queues.Nodup) (id : Nat)
    (subscribers : Table (Subscriber.id (δ := δ))) (items : List (Item δ)) :
    (putAll subscribers queues items).get id =
      if id ∈ queues then (subscribers.get id).map (·.put items) else subscribers.get id := by
  induction queues generalizing subscribers with
  | nil => rfl
  | cons q queues ih =>
    obtain ⟨fresh, nodup⟩ := List.nodup_cons.mp nodup
    show (putAll (subscribers.modify q (·.put items) _) queues items).get id = _
    rw [ih nodup, Table.get_modify]
    by_cases here : id = q
    · subst here
      simp [fresh]
    · simp [here]

@[simp] theorem leave_channels (bus : EventBus δ) (key : UuidOrStr) (c id : Nat) :
    (bus.leave code key c id).channels = bus.channels := by
  unfold EventBus.leave
  split
  · split <;> rfl
  · rfl

@[simp] theorem leave_allocated (bus : EventBus δ) (key : UuidOrStr) (c id : Nat) :
    (bus.leave code key c id).allocated = bus.allocated := by
  unfold EventBus.leave
  split
  · split <;> rfl
  · rfl

@[simp] theorem leave_terminalEvents (bus : EventBus δ) (key : UuidOrStr) (c id : Nat) :
    (bus.leave code key c id).terminalEvents = bus.terminalEvents := by
  unfold EventBus.leave
  split
  · split <;> rfl
  · rfl

/-- A queue is in no channel but the one its subscriber listens to, so it is removed from
all of them, by either clause. -/
theorem leave_lists {bus : EventBus δ} (cons : bus.Consistent) {id c : Nat}
    {s : Subscriber δ} (found : bus.subscribers.get id = some s)
    (at_phase : s.phase = .listening c) {k : UuidOrStr} {c' : Nat}
    (channel : bus.channels k = some c') :
    (bus.leave code s.key c id).lists c' = (bus.lists c').erase id := by
  have only (mem : id ∈ bus.lists c') : k = s.key ∧ c' = c := by
    obtain ⟨s', found', key, listens⟩ := cons.members channel mem
    cases found.symm.trans found'
    rw [at_phase] at listens
    cases listens
    exact ⟨key.symm, rfl⟩
  have away (d : Nat) (other : c' ≠ d) : (bus.remove d id).lists c' = bus.lists c' :=
    Function.update_of_ne other _ _
  have here : (bus.remove c' id).lists c' = (bus.lists c').erase id := Function.update_self _ _ _
  have keeps (absent : id ∉ bus.lists c') : (bus.lists c').erase id = bus.lists c' :=
    List.erase_of_not_mem absent
  unfold EventBus.leave
  split
  · split
    · next none =>
      refine (keeps fun mem => ?_).symm
      rw [← (only mem).1, channel] at none
      cases none
    · next current at_key =>
      by_cases same : c' = current
      · subst same
        exact here
      · rw [away current same, keeps fun mem => ?_]
        rw [← (only mem).1, channel] at at_key
        exact same (Option.some.inj at_key)
  · by_cases same : c' = c
    · subst same
      exact here
    · rw [away c same, keeps fun mem => same (only mem).2]

/-- A subscriber is changed that goes on listening, or did not listen. -/
theorem consistent_modify {bus : EventBus δ} (c : bus.Consistent) {id : Nat}
    {s : Subscriber δ} (found : bus.subscribers.get id = some s)
    {f : Subscriber δ → Subscriber δ} (keeps : ∀ s, (f s).id = s.id)
    (key : (f s).key = s.key)
    (listens : ∀ c, s.phase = .listening c → (f s).phase = .listening c) :
    EventBus.Consistent { bus with subscribers := bus.subscribers.modify id f keeps } where
  allocated := c.allocated
  separate := c.separate
  nodup := c.nodup
  members {k c' id'} channel mem := by
    obtain ⟨s', found', at_key, at_phase⟩ := c.members channel mem
    show ∃ s', (bus.subscribers.modify id f keeps).get id' = some s' ∧ _
    rw [Table.get_modify]
    by_cases same : id' = id
    · subst same
      cases found.symm.trans found'
      exact ⟨f s, by rw [if_pos rfl, found]; rfl, key.trans at_key, listens c' at_phase⟩
    · exact ⟨s', by rw [if_neg same, found'], at_key, at_phase⟩

/-- A subscriber stops to listen and takes its queue out. -/
theorem consistent_leave {bus : EventBus δ} (cons : bus.Consistent) {id c : Nat}
    {s : Subscriber δ} (found : bus.subscribers.get id = some s)
    (at_phase : s.phase = .listening c) {f : Subscriber δ → Subscriber δ}
    (keeps : ∀ s, (f s).id = s.id) :
    EventBus.Consistent { bus.leave code s.key c id with
      subscribers := bus.subscribers.modify id f keeps } where
  allocated channel := by
    simp only [leave_channels, leave_allocated] at channel ⊢
    exact cons.allocated channel
  separate channel channel' := by
    simp only [leave_channels] at channel channel'
    exact cons.separate channel channel'
  nodup channel := by
    simp only [leave_channels] at channel
    simp only [leave_lists cons found at_phase channel]
    exact (cons.nodup channel).erase id
  members {k c' id'} channel mem := by
    simp only [leave_channels] at channel
    simp only [leave_lists cons found at_phase channel] at mem
    have other : id' ≠ id := fun same =>
      (cons.nodup channel).not_mem_erase (same ▸ mem)
    obtain ⟨s', found', at_key, listens⟩ := cons.members channel (List.mem_of_mem_erase mem)
    show ∃ s', (bus.subscribers.modify id f keeps).get id' = some s' ∧ _
    rw [Table.get_modify, if_neg other]
    exact ⟨s', found', at_key, listens⟩

theorem consistent_insert {bus : EventBus δ} (c : bus.Consistent) {s : Subscriber δ}
    {subscribers : Table (Subscriber.id (δ := δ))}
    (insert : bus.subscribers.insert s = some subscribers) :
    EventBus.Consistent { bus with subscribers } where
  allocated := c.allocated
  separate := c.separate
  nodup := c.nodup
  members channel mem := by
    obtain ⟨s', found, rest⟩ := c.members channel mem
    exact ⟨s', Table.get_insert_of_get insert found, rest⟩

/-- `_get_or_create_channel` returns the channel of the key, which may be a new one. -/
inductive Created (bus : EventBus δ) (key : UuidOrStr) : EventBus δ × Nat → Prop
  | existing {c : Nat} (channel : bus.channels key = some c) : Created bus key (bus, c)
  | new (absent : bus.channels key = none) :
      Created bus key ({ bus with
        channels := Function.update bus.channels key (some bus.allocated)
        lists := Function.update bus.lists bus.allocated []
        allocated := bus.allocated + 1 }, bus.allocated)

theorem created (bus : EventBus δ) (key : UuidOrStr) :
    Created bus key (bus.getOrCreateChannel key) := by
  unfold EventBus.getOrCreateChannel
  split
  · next channel => exact .existing channel
  · next absent => exact .new absent

theorem channels_new {bus : EventBus δ} {key k : UuidOrStr} {c : Nat}
    (h : Function.update bus.channels key (some bus.allocated) k = some c) :
    (k = key ∧ c = bus.allocated) ∨ (k ≠ key ∧ bus.channels k = some c) := by
  by_cases same : k = key
  · subst same
    rw [Function.update_self] at h
    exact .inl ⟨rfl, (Option.some.inj h).symm⟩
  · rw [Function.update_of_ne same] at h
    exact .inr ⟨same, h⟩

theorem consistent_created {bus : EventBus δ} {key : UuidOrStr} {r : EventBus δ × Nat}
    (h : Created bus key r) (cons : bus.Consistent) :
    r.1.Consistent ∧ r.1.channels key = some r.2 ∧ r.1.subscribers = bus.subscribers := by
  cases h with
  | existing channel => exact ⟨cons, channel, rfl⟩
  | new absent =>
    -- the new list is none of those in use
    have fresh {k : UuidOrStr} {c : Nat} (channel : bus.channels k = some c) : c ≠ bus.allocated :=
      (cons.allocated channel).ne
    have lists {k : UuidOrStr} {c : Nat} (channel : bus.channels k = some c) :
        Function.update bus.lists bus.allocated [] c = bus.lists c :=
      Function.update_of_ne (fresh channel) _ _
    refine ⟨⟨?_, ?_, ?_, ?_⟩, Function.update_self _ _ _, rfl⟩
    · intro k c channel
      show c < bus.allocated + 1
      rcases channels_new channel with ⟨-, rfl⟩ | ⟨-, old⟩
      · exact Nat.lt_succ_self _
      · exact Nat.lt_succ_of_lt (cons.allocated old)
    · intro k k' c channel channel'
      rcases channels_new channel with ⟨rfl, new⟩ | ⟨-, old⟩ <;>
        rcases channels_new channel' with ⟨rfl, new'⟩ | ⟨-, old'⟩
      · rfl
      · exact absurd new (fresh old')
      · exact absurd new' (fresh old)
      · exact cons.separate old old'
    · intro k c channel
      show (Function.update bus.lists bus.allocated [] c).Nodup
      rcases channels_new channel with ⟨-, rfl⟩ | ⟨-, old⟩
      · rw [Function.update_self]
        exact List.nodup_nil
      · rw [lists old]
        exact cons.nodup old
    · intro k c id channel mem
      have mem : id ∈ Function.update bus.lists bus.allocated [] c := mem
      rcases channels_new channel with ⟨-, rfl⟩ | ⟨-, old⟩
      · rw [Function.update_self] at mem
        cases mem
      · rw [lists old] at mem
        exact cons.members old mem

theorem consistent_append {bus : EventBus δ} (cons : bus.Consistent) {s : Subscriber δ}
    {c : Nat} (channel : bus.channels s.key = some c) (at_phase : s.phase = .listening c)
    {subscribers : Table (Subscriber.id (δ := δ))}
    (insert : bus.subscribers.insert s = some subscribers) :
    EventBus.Consistent { bus.append c s.id with subscribers } where
  allocated := cons.allocated
  separate := cons.separate
  nodup {k c'} channel' := by
    show (Function.update bus.lists c _ c').Nodup
    by_cases same : c' = c
    · subst same
      rw [Function.update_self]
      refine List.nodup_append.mpr ⟨cons.nodup channel', List.nodup_singleton _, ?_⟩
      rintro a old _ new rfl
      rw [List.mem_singleton.mp new] at old
      obtain ⟨_, found, -⟩ := cons.members channel' old
      rw [Table.get_of_insert insert] at found
      cases found
    · rw [Function.update_of_ne same]
      exact cons.nodup channel'
  members {k c' id} channel' mem := by
    have mem : id ∈ Function.update bus.lists c (bus.lists c ++ [s.id]) c' := mem
    have older (old : id ∈ bus.lists c') :
        ∃ s', subscribers.get id = some s' ∧ s'.key = k ∧ s'.phase = .listening c' := by
      obtain ⟨s', found, rest⟩ := cons.members channel' old
      exact ⟨s', Table.get_insert_of_get insert found, rest⟩
    by_cases same : c' = c
    · subst same
      rw [Function.update_self] at mem
      rcases List.mem_append.mp mem with old | new
      · exact older old
      · rw [List.mem_singleton.mp new]
        exact ⟨s, Table.get_insert_self insert, cons.separate channel channel', at_phase⟩
    · rw [Function.update_of_ne same] at mem
      exact older mem

theorem consistent_publish {bus : EventBus δ} (cons : bus.Consistent) (subject : ι)
    (e : Event δ) : (bus.publish code subject e).Consistent := by
  have written (items : List (Item δ)) : EventBus.Consistent { bus with
      subscribers := putAll bus.subscribers (bus.queues (code.key subject)) items } :=
    { allocated := cons.allocated
      separate := cons.separate
      nodup := cons.nodup
      members := by
        intro k c id channel mem
        obtain ⟨s, found, at_key, at_phase⟩ := cons.members channel mem
        show ∃ s, (putAll bus.subscribers _ items).get id = some s ∧ _
        rw [get_putAll (queues_nodup cons _), found]
        split
        · exact ⟨s.put items, rfl, at_key, at_phase⟩
        · exact ⟨s, rfl, at_key, at_phase⟩ }
  -- a channel less
  have older {k : UuidOrStr} {c : Nat}
      (h : Function.update bus.channels (code.key subject) none k = some c) :
      bus.channels k = some c := by
    by_cases same : k = code.key subject
    · subst same
      rw [Function.update_self] at h
      cases h
    · rwa [Function.update_of_ne same] at h
  unfold EventBus.publish
  split
  · exact
      { allocated := fun channel => cons.allocated (older channel)
        separate := fun channel channel' => cons.separate (older channel) (older channel')
        nodup := fun channel => cons.nodup (older channel)
        members := fun channel mem => (written _).members (older channel) mem }
  · exact written _

theorem bus_consistent_of_step {x : BusStep ι δ} (h : (eventBus code).Steps x)
    (cons : x.before.Consistent) : x.after.Consistent := by
  obtain ⟨bus, a, label, bus'⟩ := x
  have moves : BusMove code bus a bus' := busMove_of_step h
  have cons : bus.Consistent := cons
  cases moves with
  | published => exact consistent_publish cons _ _
  | replays _ insert => exact consistent_insert cons insert
  | registers _ insert =>
    obtain ⟨cons, channel, same⟩ := consistent_created (created bus _) cons
    rw [← same] at insert
    exact consistent_append cons channel rfl insert
  | yields found at_phase =>
    exact consistent_modify cons found _ rfl fun _ same => same
  | beats found => exact consistent_modify cons found _ rfl fun _ same => same
  | ends found at_phase | closes found at_phase => exact consistent_leave cons found at_phase _
  | returns found at_phase | drops found at_phase =>
    refine consistent_modify cons found _ rfl fun c same => ?_
    rw [at_phase] at same
    cases same

end LegionForge.Gateway
