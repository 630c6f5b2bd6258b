import LegionForge.Gateway.Events

/-!
# Delivery of events

A subscriber is owed what is published from its registration to the first terminal
event, and then the sentinel. `Owed` says that what it has taken and what its queue holds
is this, and where the bus has its queue; a publication extends both sides alike, and the
steps of the others keep it. A subscriber that finds a terminal event in the cache is given
that one and has no queue in any channel.
-/

namespace LegionForge.Gateway

variable {ι δ : Type} {code : BusCode ι}

/-! ## What a subscriber is owed -/

/-- Some event ends the stream. -/
def BusCode.ended (code : BusCode ι) (es : List (Event δ)) : Bool := es.any code.isTerminal

/-- What the events are as a stream: up to the first terminal one, and then the sentinel -/
def BusCode.delivery (code : BusCode ι) : List (Event δ) → List (Item δ)
  | [] => []
  | e :: es =>
    if code.isTerminal e then [.event e, .sentinel] else .event e :: code.delivery es

def Yielded.event? : Yielded δ → Option (Event δ)
  | .event e => some e
  | .heartbeat => none

/-- What the subscriber has taken from its queue. -/
def Subscriber.taken (s : Subscriber δ) : List (Item δ) :=
  (s.yielded.filterMap Yielded.event?).map .event ++
    if s.phase = .returned then [.sentinel] else []

/-- A subscriber has received what it is owed, in its order: with what its queue holds
while it listens, all of it once it has returned, and the first part if it was closed. -/
def Subscriber.Received (code : BusCode ι) (es : List (Event δ)) (s : Subscriber δ) : Prop :=
  match s.phase with
  | .listening _ => s.taken ++ s.queue = code.delivery es
  | .returned => s.taken = code.delivery es ∧ code.ended es = true
  | .closed => s.taken <+: code.delivery es
  | .replayed => False

theorem delivery_of_ended {es : List (Event δ)} (h : code.ended es = true)
    (later : List (Event δ)) : code.delivery (es ++ later) = code.delivery es := by
  induction es with
  | nil => cases h
  | cons e es ih =>
    by_cases terminal : code.isTerminal e = true
    · simp [BusCode.delivery, terminal]
    · have rest : code.ended es = true := by simpa [BusCode.ended, terminal] using h
      simp [BusCode.delivery, terminal, ih rest]

/-- What a publication puts into the queues. -/
def BusCode.items (code : BusCode ι) (e : Event δ) : List (Item δ) :=
  if code.isTerminal e then [.event e, .sentinel] else [.event e]

theorem delivery_of_open {es : List (Event δ)} (h : code.ended es = false) (e : Event δ) :
    code.delivery (es ++ [e]) = code.delivery es ++ code.items e := by
  induction es with
  | nil => simp [BusCode.delivery, BusCode.items]
  | cons e' es ih =>
    obtain ⟨open_, rest⟩ : code.isTerminal e' = false ∧ code.ended es = false := by
      simpa [BusCode.ended] using h
    simp [BusCode.delivery, open_, ih rest]

theorem delivery_initial (es later : List (Event δ)) :
    code.delivery es <+: code.delivery (es ++ later) := by
  by_cases ended : code.ended es = true
  · exact ⟨[], by rw [delivery_of_ended ended, List.append_nil]⟩
  · induction later generalizing es with
    | nil => exact ⟨[], by rw [List.append_nil, List.append_nil]⟩
    | cons e later ih =>
      have open_ : code.ended es = false := by simpa using ended
      have first : code.delivery es <+: code.delivery (es ++ [e]) := by
        rw [delivery_of_open open_]
        exact List.prefix_append _ _
      rw [← List.singleton_append, ← List.append_assoc]
      by_cases ended : code.ended (es ++ [e]) = true
      · rwa [delivery_of_ended ended]
      · exact first.trans (ih _ ended)

/-- Where the queue of a subscriber is: in the channel of its key, or, once a terminal
event has come, in none that the bus will find. -/
structure EventBus.Places (bus : EventBus δ) (id : Nat) (key : UuidOrStr) (c : Nat)
    (ended : Bool) : Prop where
  attached : ended = false → bus.channels key = some c ∧ id ∈ bus.lists c
  detached : ended = true → c < bus.allocated ∧ ∀ k, bus.channels k ≠ some c

/-- The subscriber has received what was published since it registered. -/
def Owed (code : BusCode ι) (id : Nat) (key : UuidOrStr) (es : List (Event δ))
    (bus : EventBus δ) : Prop :=
  ∃ s, bus.subscribers.get id = some s ∧ s.key = key ∧ s.Received code es ∧
    ∀ c, s.phase = .listening c → bus.Places id key c (code.ended es)

/-- The events a step publishes for a subject. -/
def publishedBy [DecidableEq ι] (subject : ι) (x : BusStep ι δ) : List (Event δ) :=
  match x.input with
  | .publish about e => if about = subject then [e] else []
  | _ => []

/-- And those of a run, in their order. -/
def published [DecidableEq ι] (subject : ι) (steps : List (BusStep ι δ)) : List (Event δ) :=
  steps.flatMap (publishedBy subject)

/-- The queues of a key are those of subscribers that listen in its channel. -/
theorem of_mem_queues {bus : EventBus δ} (cons : bus.Consistent) {key : UuidOrStr} {id : Nat}
    {s : Subscriber δ} (found : bus.subscribers.get id = some s) (mem : id ∈ bus.queues key) :
    s.key = key ∧ ∃ c, bus.channels key = some c ∧ s.phase = .listening c := by
  obtain ⟨c, channel, mem⟩ := mem_queues_iff.mp mem
  obtain ⟨s', found', at_key, at_phase⟩ := cons.members channel mem
  cases found.symm.trans found'
  exact ⟨at_key, c, channel, at_phase⟩

section
variable {bus : EventBus δ} {subject : ι} {e : Event δ}

@[simp] theorem publish_lists : (bus.publish code subject e).lists = bus.lists := by
  unfold EventBus.publish
  split <;> rfl

@[simp] theorem publish_allocated :
    (bus.publish code subject e).allocated = bus.allocated := by
  unfold EventBus.publish
  split <;> rfl

theorem publish_channels : (bus.publish code subject e).channels =
    if code.isTerminal e then Function.update bus.channels (code.key subject) none
    else bus.channels := by
  unfold EventBus.publish
  split <;> rfl

theorem publish_subscribers : (bus.publish code subject e).subscribers =
    putAll bus.subscribers (bus.queues (code.key subject)) (code.items e) := by
  unfold EventBus.publish BusCode.items
  split <;> rfl

theorem channel_of_publish {k : UuidOrStr} {c : Nat}
    (h : (bus.publish code subject e).channels k = some c) :
    bus.channels k = some c ∧ (code.isTerminal e = true → k ≠ code.key subject) := by
  rw [publish_channels] at h
  split at h
  · by_cases same : k = code.key subject
    · subst same
      rw [Function.update_self] at h
      cases h
    · rw [Function.update_of_ne same] at h
      exact ⟨h, fun _ => same⟩
  · next open_ => exact ⟨h, fun terminal => absurd terminal open_⟩

theorem ended_concat (es : List (Event δ)) (e : Event δ) :
    code.ended (es ++ [e]) = (code.ended es || code.isTerminal e) := by
  simp [BusCode.ended]

/-- A terminal event takes the channel away. -/
theorem places_publish (cons : bus.Consistent) {id c : Nat} {ended : Bool}
    (places : bus.Places id (code.key subject) c ended) :
    (bus.publish code subject e).Places id (code.key subject) c
      (ended || code.isTerminal e) := by
  refine ⟨fun h => ?_, fun h => ?_⟩
  · obtain ⟨open_, not_terminal⟩ := Bool.or_eq_false_iff.mp h
    rw [publish_channels, publish_lists, not_terminal]
    exact places.attached open_
  · rw [publish_allocated]
    cases ended with
    | true =>
      obtain ⟨lt, none⟩ := places.detached rfl
      exact ⟨lt, fun k channel => none k (channel_of_publish channel).1⟩
    | false =>
      obtain ⟨channel, -⟩ := places.attached rfl
      refine ⟨cons.allocated channel, fun k channel' => ?_⟩
      obtain ⟨old, other⟩ := channel_of_publish channel'
      exact other h (cons.separate old channel)

/-- A publication reaches the queue as long as no terminal event has. -/
theorem owed_publish (cons : bus.Consistent) {id : Nat} {es : List (Event δ)}
    (owed : Owed code id (code.key subject) es bus) :
    Owed code id (code.key subject) (es ++ [e]) (bus.publish code subject e) := by
  obtain ⟨s, found, at_key, received, places⟩ := owed
  have moved : ∀ c, s.phase = .listening c → (bus.publish code subject e).Places id
      (code.key subject) c (code.ended (es ++ [e])) := fun c at_phase =>
    ended_concat es e ▸ places_publish cons (places c at_phase)
  have get : (bus.publish code subject e).subscribers.get id =
      if id ∈ bus.queues (code.key subject) then some (s.put (code.items e)) else some s := by
    rw [publish_subscribers, get_putAll (queues_nodup cons _), found]
    rfl
  by_cases mem : id ∈ bus.queues (code.key subject)
  · obtain ⟨-, c, channel, at_phase⟩ := of_mem_queues cons found mem
    have open_ : code.ended es = false := by
      refine Bool.eq_false_iff.mpr fun ended => ?_
      exact ((places c at_phase).detached ended).2 _ channel
    rw [if_pos mem] at get
    refine ⟨s.put (code.items e), get, at_key, ?_, moved⟩
    have at_phase' : (s.put (code.items e)).phase = .listening c := at_phase
    rw [Subscriber.Received, at_phase] at received
    rw [Subscriber.Received, at_phase', delivery_of_open open_, ← received, List.append_assoc]
    rfl
  · rw [if_neg mem] at get
    refine ⟨s, get, at_key, ?_, moved⟩
    unfold Subscriber.Received at received ⊢
    cases at_phase : s.phase with
    | listening c =>
      rw [at_phase] at received
      have ended : code.ended es = true := by
        refine Bool.not_eq_false _ ▸ fun open_ => ?_
        exact mem (mem_queues_iff.mpr ⟨c, (places c at_phase).attached open_⟩)
      rw [delivery_of_ended ended]
      exact received
    | returned =>
      rw [at_phase] at received
      rw [delivery_of_ended received.2, ended_concat, received.2]
      exact ⟨received.1, rfl⟩
    | closed =>
      rw [at_phase] at received
      exact received.trans (delivery_initial es [e])
    | replayed =>
      rw [at_phase] at received
      exact received

end

/-! ## Steps that are not about the subscriber -/

/-- The subscriber and the place of its queue are kept. -/
structure Keeps (id : Nat) (key : UuidOrStr) (bus bus' : EventBus δ) : Prop where
  subscriber : ∀ {s}, bus.subscribers.get id = some s → bus'.subscribers.get id = some s
  channel : ∀ {c}, bus.channels key = some c → bus'.channels key = some c
  member : ∀ {c}, bus.channels key = some c → id ∈ bus.lists c → id ∈ bus'.lists c
  allocated : bus.allocated ≤ bus'.allocated
  older : ∀ {k c}, c < bus.allocated → bus'.channels k = some c → bus.channels k = some c

section
variable {bus bus' : EventBus δ} {id : Nat} {key : UuidOrStr} {es : List (Event δ)}

theorem owed_of_keeps (keeps : Keeps id key bus bus') (owed : Owed code id key es bus) :
    Owed code id key es bus' := by
  obtain ⟨s, found, at_key, received, places⟩ := owed
  refine ⟨s, keeps.subscriber found, at_key, received, fun c at_phase => ⟨fun open_ => ?_,
    fun ended => ?_⟩⟩
  · obtain ⟨channel, mem⟩ := (places c at_phase).attached open_
    exact ⟨keeps.channel channel, keeps.member channel mem⟩
  · obtain ⟨lt, none⟩ := (places c at_phase).detached ended
    exact ⟨lt.trans_le keeps.allocated, fun k channel => none k (keeps.older lt channel)⟩

/-- An event is published for another key. -/
theorem keeps_publish (cons : bus.Consistent) {subject : ι} {e : Event δ}
    (mine : ∀ s, bus.subscribers.get id = some s → s.key = key)
    (other : key ≠ code.key subject) : Keeps id key bus (bus.publish code subject e) where
  subscriber {s} found := by
    have out : id ∉ bus.queues (code.key subject) := by
      intro mem
      have at_key := (of_mem_queues cons found mem).1
      rw [mine s found] at at_key
      exact other at_key
    rw [publish_subscribers, get_putAll (queues_nodup cons _), if_neg out, found]
  channel channel := by
    rw [publish_channels]
    split
    · rwa [Function.update_of_ne other]
    · exact channel
  member _ mem := by rwa [publish_lists]
  allocated := by rw [publish_allocated]
  older _ channel := (channel_of_publish channel).1

theorem keeps_created {k : UuidOrStr} {r : EventBus δ × Nat} (h : Created bus k r)
    (cons : bus.Consistent) : Keeps id key bus r.1 := by
  cases h with
  | existing => exact ⟨fun h => h, fun h => h, fun _ h => h, le_rfl, fun _ h => h⟩
  | new absent =>
    refine ⟨fun h => h, fun {c} channel => ?_, fun {c} channel mem => ?_, Nat.le_succ _, ?_⟩
    · have other : key ≠ k := fun same => by
        rw [← same, channel] at absent
        cases absent
      show Function.update _ _ _ _ = _
      rwa [Function.update_of_ne other]
    · show id ∈ Function.update bus.lists bus.allocated [] c
      rwa [Function.update_of_ne (cons.allocated channel).ne]
    · intro k' c lt channel
      rcases channels_new channel with ⟨-, rfl⟩ | ⟨-, old⟩
      · exact absurd lt (Nat.lt_irrefl _)
      · exact old

theorem keeps_insert {s : Subscriber δ} {subscribers : Table (Subscriber.id (δ := δ))}
    (insert : bus.subscribers.insert s = some subscribers) :
    Keeps id key bus { bus with subscribers } :=
  ⟨Table.get_insert_of_get insert, fun h => h, fun _ h => h, le_rfl, fun _ h => h⟩

theorem keeps_append {s : Subscriber δ} {c : Nat}
    {subscribers : Table (Subscriber.id (δ := δ))}
    (insert : bus.subscribers.insert s = some subscribers) :
    Keeps id key bus { bus.append c s.id with subscribers } := by
  refine ⟨Table.get_insert_of_get insert, fun h => h, fun {c'} _ mem => ?_, le_rfl,
    fun _ h => h⟩
  show id ∈ Function.update bus.lists c _ c'
  by_cases same : c' = c
  · subst same
    rw [Function.update_self]
    exact List.mem_append_left _ mem
  · rwa [Function.update_of_ne same]

variable {other : Nat} {f : Subscriber δ → Subscriber δ}

theorem keeps_modify (keeps : ∀ s, (f s).id = s.id) (ne : id ≠ other) :
    Keeps id key bus { bus with subscribers := bus.subscribers.modify other f keeps } where
  subscriber found := by rw [Table.get_modify, if_neg ne, found]
  channel h := h
  member _ h := h
  allocated := le_rfl
  older _ h := h

theorem keeps_leave (cons : bus.Consistent) {c : Nat} {s : Subscriber δ}
    (found : bus.subscribers.get other = some s) (at_phase : s.phase = .listening c)
    (keeps : ∀ s, (f s).id = s.id) (ne : id ≠ other) :
    Keeps id key bus { bus.leave code s.key c other with
      subscribers := bus.subscribers.modify other f keeps } where
  subscriber found := by rw [Table.get_modify, if_neg ne, found]
  channel h := by simpa using h
  member channel mem := by
    rw [leave_lists cons found at_phase channel]
    exact (List.mem_erase_of_ne ne).mpr mem
  allocated := by simp
  older _ h := by simpa using h

end

/-! ## Steps of the subscriber -/

section
variable {bus : EventBus δ} {id : Nat} {key : UuidOrStr} {es : List (Event δ)}

/-- There is one sentinel, and it comes last. -/
theorem sentinel_last {front rest : List (Item δ)}
    (h : code.delivery es = front ++ .sentinel :: rest) :
    rest = [] ∧ code.ended es = true := by
  induction es generalizing front with
  | nil => simp [BusCode.delivery] at h
  | cons e es ih =>
    unfold BusCode.delivery at h
    by_cases terminal : code.isTerminal e = true
    · rw [if_pos terminal] at h
      refine ⟨?_, by simp [BusCode.ended, terminal]⟩
      rcases front with _ | ⟨a, _ | ⟨b, front⟩⟩
      · cases h
      · cases h
        rfl
      · have lengths := congrArg List.length h
        simp at lengths
    · rw [if_neg terminal] at h
      rcases front with _ | ⟨a, front⟩
      · cases h
      · obtain ⟨-, h⟩ := List.cons.inj h
        obtain ⟨last, ended⟩ := ih h
        refine ⟨last, ?_⟩
        rw [BusCode.ended, List.any_cons, show es.any code.isTerminal = true from ended,
          Bool.or_true]

theorem taken_listening {s : Subscriber δ} {c : Nat} (h : s.phase = .listening c) :
    s.taken = (s.yielded.filterMap Yielded.event?).map .event := by
  simp [Subscriber.taken, h]

/-- A step of the generator that leaves it listening. -/
theorem owed_listens {s : Subscriber δ} {c : Nat} {f : Subscriber δ → Subscriber δ}
    (owed : Owed code id key es bus) (found : bus.subscribers.get id = some s)
    (at_phase : s.phase = .listening c) (keeps : ∀ s, (f s).id = s.id)
    (same_key : (f s).key = s.key) (listens : (f s).phase = .listening c)
    (same : (f s).taken ++ (f s).queue = s.taken ++ s.queue) :
    Owed code id key es { bus with subscribers := bus.subscribers.modify id f keeps } := by
  obtain ⟨s', found', at_key, received, places⟩ := owed
  cases found.symm.trans found'
  refine ⟨f s, Table.get_modify_self found keeps, same_key.trans at_key, ?_, ?_⟩
  · rw [Subscriber.Received, at_phase] at received
    rw [Subscriber.Received, listens]
    exact same.trans received
  · intro c' at_phase'
    cases listens.symm.trans at_phase'
    exact ⟨(places c at_phase).attached, (places c at_phase).detached⟩

/-- A step that ends the generator. -/
theorem owed_ends {s : Subscriber δ} {f : Subscriber δ → Subscriber δ} {bus' : EventBus δ}
    (owed : Owed code id key es bus) (found : bus.subscribers.get id = some s)
    (found' : bus'.subscribers.get id = some (f s)) (same_key : (f s).key = s.key)
    (silent : ∀ c, (f s).phase ≠ .listening c)
    (received : s.Received code es → (f s).Received code es) : Owed code id key es bus' := by
  obtain ⟨s', before, at_key, was, -⟩ := owed
  cases found.symm.trans before
  exact ⟨f s, found', same_key.trans at_key, received was,
    fun c listens => absurd listens (silent c)⟩

theorem received_return {s : Subscriber δ} {c : Nat} {rest : List (Item δ)}
    (at_phase : s.phase = .listening c) (next : s.queue = .sentinel :: rest)
    (received : s.Received code es) : s.return.Received code es := by
  rw [Subscriber.Received, at_phase, next] at received
  obtain ⟨rfl, ended⟩ := sentinel_last received.symm
  refine ⟨?_, ended⟩
  rw [← received, taken_listening at_phase]
  simp [Subscriber.taken, Subscriber.return]

theorem received_close {s : Subscriber δ} {c : Nat} (at_phase : s.phase = .listening c)
    (received : s.Received code es) : s.close.Received code es := by
  rw [Subscriber.Received, at_phase] at received
  have same : s.close.taken = s.taken := by
    rw [taken_listening at_phase]
    simp [Subscriber.taken, Subscriber.close]
  show s.close.taken <+: code.delivery es
  rw [same, ← received]
  exact List.prefix_append _ _

end

theorem owed_of_step [DecidableEq ι] {x : BusStep ι δ} (h : (eventBus code).Steps x)
    (cons : x.before.Consistent) {id : Nat} {subject : ι} {es : List (Event δ)}
    (owed : Owed code id (code.key subject) es x.before) :
    Owed code id (code.key subject) (es ++ publishedBy subject x) x.after := by
  obtain ⟨bus, a, label, bus'⟩ := x
  have moves : BusMove code bus a bus' := busMove_of_step h
  have cons : bus.Consistent := cons
  have owed : Owed code id (code.key subject) es bus := owed
  have unpublished (silent : publishedBy subject ⟨bus, a, label, bus'⟩ = [])
      (next : Owed code id (code.key subject) es bus') :
      Owed code id (code.key subject) (es ++ publishedBy subject ⟨bus, a, label, bus'⟩) bus' := by
    rwa [silent, List.append_nil]
  cases moves with
  | @published about e =>
    by_cases same : about = subject
    · subst same
      simpa [publishedBy] using owed_publish cons owed
    · refine unpublished (by simp [publishedBy, same])
        (owed_of_keeps (keeps_publish cons ?_ ?_) owed)
      · intro s found
        obtain ⟨s', found', at_key, -⟩ := owed
        cases found.symm.trans found'
        exact at_key
      · exact fun keys => same (code.key_inj keys).symm
  | replays _ insert => exact unpublished rfl (owed_of_keeps (keeps_insert insert) owed)
  | @registers _ about _ _ insert =>
    refine unpublished rfl ?_
    have made := created bus (code.key about)
    rw [← (consistent_created made cons).2.2] at insert
    exact owed_of_keeps (keeps_append insert) (owed_of_keeps (keeps_created made cons) owed)
  | @yields own c s e rest found at_phase next =>
    refine unpublished rfl ?_
    by_cases mine : id = own
    · subst mine
      refine owed_listens owed found at_phase _ rfl at_phase ?_
      have at_phase' : (s.yield e).phase = .listening c := at_phase
      rw [taken_listening at_phase', taken_listening at_phase, next]
      simp [Subscriber.yield, Yielded.event?, next]
    · exact owed_of_keeps (keeps_modify _ mine) owed
  | @beats own c s found at_phase =>
    refine unpublished rfl ?_
    by_cases mine : id = own
    · subst mine
      refine owed_listens owed found at_phase _ rfl at_phase ?_
      have at_phase' : s.beat.phase = .listening c := at_phase
      rw [taken_listening at_phase', taken_listening at_phase]
      simp [Subscriber.beat, Yielded.event?]
    · exact owed_of_keeps (keeps_modify _ mine) owed
  | @ends own c s rest found at_phase next =>
    refine unpublished rfl ?_
    by_cases mine : id = own
    · subst mine
      exact owed_ends owed found (Table.get_modify_self found return_id) rfl nofun
        (received_return at_phase next)
    · exact owed_of_keeps (keeps_leave cons found at_phase _ mine) owed
  | @closes own c s found at_phase =>
    refine unpublished rfl ?_
    by_cases mine : id = own
    · subst mine
      exact owed_ends owed found (Table.get_modify_self found close_id) rfl nofun
        (received_close at_phase)
    · exact owed_of_keeps (keeps_leave cons found at_phase _ mine) owed
  | @returns own s found at_phase | @drops own s found at_phase =>
    refine unpublished rfl (owed_of_keeps (keeps_modify _ fun mine => ?_) owed)
    subst mine
    -- a subscriber that is owed events has not been given a cached one
    obtain ⟨s', found', -, received, -⟩ := owed
    cases found.symm.trans found'
    rw [Subscriber.Received, at_phase] at received
    exact received

/-! ## The cache of terminal events -/

/-- The last terminal event among the events -/
def BusCode.lastTerminal (code : BusCode ι) (es : List (Event δ)) : Option (Event δ) :=
  es.reverse.find? code.isTerminal

theorem length_cacheTerminal {cache : Table (Prod.fst : UuidOrStr × Event δ → UuidOrStr)}
    (bound : cache.rows.length ≤ terminalCacheMaxsize) (key : UuidOrStr) (e : Event δ) :
    (cacheTerminal cache key e).rows.length ≤ terminalCacheMaxsize := by
  unfold cacheTerminal
  refine (Table.length_upsert_le _ _ _).trans ?_
  split
  · next full =>
    show cache.rows.dropLast.length + 1 ≤ _
    have room : 0 < terminalCacheMaxsize := Nat.zero_lt_succ _
    rw [List.length_dropLast]
    omega
  · omega

theorem of_mem_cacheTerminal {cache : Table (Prod.fst : UuidOrStr × Event δ → UuidOrStr)}
    {key : UuidOrStr} {e : Event δ} {p : UuidOrStr × Event δ}
    (h : p ∈ (cacheTerminal cache key e).rows) : p = (key, e) ∨ (p ∈ cache.rows ∧ p.1 ≠ key) := by
  rcases Table.of_mem_upsert _ h with ⟨at_key, same | ⟨q, same⟩⟩ | ⟨old, other⟩
  · exact .inl same
  · have event := congrArg Prod.snd same
    exact .inl (Prod.ext at_key event)
  · refine .inr ⟨?_, other⟩
    split at old
    · exact List.dropLast_subset _ old
    · exact old

/-- The cache holds at most as many events as it may, each the last terminal one published
for its key. -/
structure Cached [DecidableEq ι] (code : BusCode ι) (past : List (BusStep ι δ))
    (bus : EventBus δ) : Prop where
  consistent : bus.Consistent
  bound : bus.terminalEvents.rows.length ≤ terminalCacheMaxsize
  last : ∀ p ∈ bus.terminalEvents.rows, ∀ subject, p.1 = code.key subject →
    code.lastTerminal (published subject past) = some p.2

theorem published_concat [DecidableEq ι] (subject : ι) (past : List (BusStep ι δ))
    (x : BusStep ι δ) :
    published subject (past ++ [x]) = published subject past ++ publishedBy subject x := by
  simp [published]

@[simp] theorem created_terminalEvents (bus : EventBus δ) (key : UuidOrStr) :
    (bus.getOrCreateChannel key).1.terminalEvents = bus.terminalEvents := by
  unfold EventBus.getOrCreateChannel
  split <;> rfl

theorem cached_of_step [DecidableEq ι] {past : List (BusStep ι δ)} {x : BusStep ι δ}
    (h : (eventBus code).Steps x) (c : Cached code past x.before) :
    Cached code (past ++ [x]) x.after := by
  have cons := bus_consistent_of_step h c.consistent
  obtain ⟨bus, a, label, bus'⟩ := x
  have moves : BusMove code bus a bus' := busMove_of_step h
  have c : Cached code past bus := c
  obtain ⟨-, bound, last⟩ := c
  -- a step that leaves the cache publishes nothing
  have kept (silent : ∀ subject, publishedBy subject ⟨bus, a, label, bus'⟩ = [])
      (same : bus'.terminalEvents = bus.terminalEvents) :
      Cached code (past ++ [⟨bus, a, label, bus'⟩]) bus' := by
    refine ⟨cons, same ▸ bound, fun p hp subject at_key => ?_⟩
    rw [published_concat, silent, List.append_nil]
    exact last p (same ▸ hp) subject at_key
  cases moves with
  | @published about e =>
    by_cases terminal : code.isTerminal e = true
    · have cache : (bus.publish code about e).terminalEvents =
          cacheTerminal bus.terminalEvents (code.key about) e := by
        rw [EventBus.publish, if_pos terminal]
      refine ⟨cons, ?_, fun p hp subject at_key => ?_⟩
      · show (bus.publish code about e).terminalEvents.rows.length ≤ _
        rw [cache]
        exact length_cacheTerminal bound _ _
      · have hp : p ∈ (bus.publish code about e).terminalEvents.rows := hp
        rw [cache] at hp
        rw [published_concat]
        rcases of_mem_cacheTerminal hp with rfl | ⟨old, other⟩
        · rw [show about = subject from code.key_inj at_key]
          simp [publishedBy, terminal, BusCode.lastTerminal]
        · have away : about ≠ subject := fun same => other (same ▸ at_key)
          simpa [publishedBy, away] using last p old subject at_key
    · have cache : (bus.publish code about e).terminalEvents = bus.terminalEvents := by
        rw [EventBus.publish, if_neg terminal]
      refine ⟨cons, ?_, fun p hp subject at_key => ?_⟩
      · show (bus.publish code about e).terminalEvents.rows.length ≤ _
        rwa [cache]
      · have hp : p ∈ (bus.publish code about e).terminalEvents.rows := hp
        rw [cache] at hp
        have before := last p hp subject at_key
        rw [published_concat, ← before]
        by_cases same : about = subject
        · simp [publishedBy, same, terminal, BusCode.lastTerminal]
        · simp [publishedBy, same]
  | registers =>
    refine kept (fun _ => rfl) ?_
    exact created_terminalEvents bus _
  | ends | closes => exact kept (fun _ => rfl) (leave_terminalEvents bus _ _ _)
  | _ => exact kept (fun _ => rfl) rfl

theorem cached_empty [DecidableEq ι] : Cached code [] (EventBus.empty : EventBus δ) where
  consistent := bus_consistent_empty
  bound := Nat.zero_le _
  last _ h := absurd h List.not_mem_nil

/-! ## Delivery -/

/-- The subscriber has the events it is owed, in its hands or in its queue. -/
def Delivered (code : BusCode ι) (id : Nat) (es : List (Event δ)) (bus : EventBus δ) : Prop :=
  ∃ s, bus.subscribers.get id = some s ∧ s.Received code es

/-- Going on, a subscriber that has not been closed comes to have all of it, and returns if
a terminal event was among it. -/
def Completes (code : BusCode ι) (id : Nat) (es : List (Event δ)) (bus : EventBus δ) : Prop :=
  (∀ s, bus.subscribers.get id = some s → s.phase ≠ .closed) →
    ∃ n, let after := (eventBus code).final bus (List.replicate n (.receive id))
      ∃ s, after.subscribers.get id = some s ∧ s.taken = code.delivery es ∧
        (code.ended es = true → s.phase = .returned)

/-- Going on, it returns. -/
def Closes (code : BusCode ι) (id : Nat) (bus : EventBus δ) : Prop :=
  (∀ s, bus.subscribers.get id = some s → s.phase ≠ .closed) →
    ∃ n, let after := (eventBus code).final bus (List.replicate n (.receive id))
      ∃ s, after.subscribers.get id = some s ∧ s.phase = .returned

/-- The subscriber has been given the cached event and nothing else. -/
def Replayed (id : Nat) (e : Event δ) (bus : EventBus δ) : Prop :=
  ∃ s, bus.subscribers.get id = some s ∧ s.yielded = [.event e] ∧ s.queue = [] ∧
    ∀ c, s.phase ≠ .listening c

section
variable {id : Nat} {subject : ι} {es : List (Event δ)}

theorem owed_of_registers {x : BusStep ι δ} (h : (eventBus code).Steps x)
    (cons : x.before.Consistent) (input : x.input = .subscribe id subject)
    (uncached : x.before.terminalEvents.get (code.key subject) = none) :
    Owed code id (code.key subject) [] x.after := by
  obtain ⟨bus, a, label, bus'⟩ := x
  have moves : BusMove code bus a bus' := busMove_of_step h
  have cons : bus.Consistent := cons
  have uncached : bus.terminalEvents.get (code.key subject) = none := uncached
  have input : a = .subscribe id subject := input
  cases input
  cases moves with
  | replays found =>
    rw [uncached] at found
    cases found
  | registers _ insert =>
    refine ⟨_, Table.get_insert_self insert, rfl, rfl, fun c at_phase => ⟨fun _ => ?_, nofun⟩⟩
    cases at_phase
    refine ⟨(consistent_created (created bus (code.key subject)) cons).2.1, ?_⟩
    show id ∈ Function.update (bus.getOrCreateChannel (code.key subject)).1.lists _ _ _
    rw [Function.update_self]
    exact List.mem_append_right _ (List.mem_singleton_self id)

/-- Whoever has no number yet can subscribe. -/
theorem exists_subscribe {bus : EventBus δ} (fresh : bus.subscribers.get id = none)
    (code : BusCode ι) (subject : ι) : ∃ bus', bus.subscribe code id subject = some bus' := by
  have inserts (key : UuidOrStr) (phase : SubscriberPhase) (yielded : List (Yielded δ)) :
      ∃ subscribers, bus.subscribers.insert (newSubscriber id key phase yielded) =
        some subscribers := Table.exists_insert fresh
  cases found : bus.terminalEvents.get (code.key subject) with
  | some cached =>
    obtain ⟨subscribers, insert⟩ := inserts (code.key subject) .replayed [.event cached.2]
    simp [EventBus.subscribe, found, insert]
  | none =>
    obtain ⟨subscribers, insert⟩ := inserts (code.key subject)
      (.listening (bus.getOrCreateChannel (code.key subject)).2) []
    simp [EventBus.subscribe, found, insert]

theorem replayed_of_subscribes {x : BusStep ι δ} {cached : UuidOrStr × Event δ}
    (h : (eventBus code).Steps x) (input : x.input = .subscribe id subject)
    (found : x.before.terminalEvents.get (code.key subject) = some cached) :
    Replayed id cached.2 x.after := by
  obtain ⟨bus, a, label, bus'⟩ := x
  have moves : BusMove code bus a bus' := busMove_of_step h
  have found : bus.terminalEvents.get (code.key subject) = some cached := found
  have input : a = .subscribe id subject := input
  cases input
  cases moves with
  | replays found' insert =>
    cases found.symm.trans found'
    exact ⟨_, Table.get_insert_self insert, rfl, rfl, nofun⟩
  | registers absent =>
    rw [found] at absent
    cases absent

theorem replayed_of_step {x : BusStep ι δ} {e : Event δ} (h : (eventBus code).Steps x)
    (cons : x.before.Consistent) (replayed : Replayed id e x.before) :
    Replayed id e x.after := by
  obtain ⟨bus, a, label, bus'⟩ := x
  have moves : BusMove code bus a bus' := busMove_of_step h
  have cons : bus.Consistent := cons
  obtain ⟨s, found, yielded, empty, silent⟩ := replayed
  have found : bus.subscribers.get id = some s := found
  have kept (next : Keeps id s.key bus bus') : Replayed id e bus' :=
    ⟨s, next.subscriber found, yielded, empty, silent⟩
  have other {own c : Nat} {s' : Subscriber δ} (found' : bus.subscribers.get own = some s')
      (listens : s'.phase = .listening c) : id ≠ own := by
    rintro rfl
    cases found.symm.trans found'
    exact silent c listens
  cases moves with
  | published =>
    refine ⟨s, ?_, yielded, empty, silent⟩
    rw [publish_subscribers, get_putAll (queues_nodup cons _), if_neg, found]
    intro mem
    obtain ⟨-, c, -, listens⟩ := of_mem_queues cons found mem
    exact silent c listens
  | replays _ insert => exact kept (keeps_insert insert)
  | @registers _ about _ _ insert =>
    have made := created bus (code.key about)
    have same := (consistent_created made cons).2.2
    rw [← same] at insert
    exact ⟨s, Table.get_insert_of_get insert (same ▸ found), yielded, empty, silent⟩
  | yields found' at_phase | beats found' at_phase =>
    exact kept (keeps_modify _ (other found' at_phase))
  | ends found' at_phase | closes found' at_phase =>
    exact kept (keeps_leave cons found' at_phase _ (other found' at_phase))
  | @returns own =>
    by_cases mine : id = own
    · subst mine
      refine ⟨s.return, Table.get_modify_self found return_id, yielded, ?_, nofun⟩
      simp [Subscriber.return, empty]
    · exact kept (keeps_modify _ mine)
  | @drops own =>
    by_cases mine : id = own
    · subst mine
      exact ⟨s.close, Table.get_modify_self found close_id, yielded, empty, nofun⟩
    · exact kept (keeps_modify _ mine)

theorem closes_of_replayed {bus : EventBus δ} {e : Event δ} (replayed : Replayed id e bus) :
    Closes code id bus := by
  intro not_closed
  obtain ⟨s, found, -, -, silent⟩ := replayed
  cases at_phase : s.phase with
  | listening c => exact absurd at_phase (silent c)
  | returned => exact ⟨0, s, found, at_phase⟩
  | closed => exact absurd at_phase (not_closed s found)
  | replayed =>
    have step : (eventBus code).step bus (.receive id) = some
        ({ bus with subscribers := bus.subscribers.modify id Subscriber.return return_id },
          ()) := by
      simp [eventBus, EventBus.step, EventBus.receive, found, at_phase]
    refine ⟨1, s.return, ?_, rfl⟩
    rw [List.replicate_succ, Machine.final_cons_of_step step]
    exact Table.get_modify_self found return_id

theorem sentinel_of_ended (ended : code.ended es = true) : .sentinel ∈ code.delivery es := by
  induction es with
  | nil => cases ended
  | cons e es ih =>
    by_cases terminal : code.isTerminal e = true
    · simp [BusCode.delivery, terminal]
    · have rest : code.ended es = true := by simpa [BusCode.ended, terminal] using ended
      simp [BusCode.delivery, terminal, ih rest]

theorem receive_event {bus : EventBus δ} {s : Subscriber δ} {c : Nat} {e : Event δ}
    {rest : List (Item δ)} (found : bus.subscribers.get id = some s)
    (at_phase : s.phase = .listening c) (next : s.queue = .event e :: rest) :
    (eventBus code).step bus (.receive id) = some
      ({ bus with subscribers := bus.subscribers.modify id (·.yield e) (yield_id · e) }, ()) := by
  simp [eventBus, EventBus.step, EventBus.receive, found, at_phase, next]

theorem receive_sentinel {bus : EventBus δ} {s : Subscriber δ} {c : Nat}
    {rest : List (Item δ)} (found : bus.subscribers.get id = some s)
    (at_phase : s.phase = .listening c) (next : s.queue = .sentinel :: rest) :
    (eventBus code).step bus (.receive id) = some
      ({ bus.leave code s.key c id with
          subscribers := bus.subscribers.modify id Subscriber.return return_id }, ()) := by
  simp [eventBus, EventBus.step, EventBus.receive, found, at_phase, next]

theorem received_of_owed {bus : EventBus δ} {s : Subscriber δ} {key : UuidOrStr}
    (owed : Owed code id key es bus) (found : bus.subscribers.get id = some s) :
    s.Received code es := by
  obtain ⟨s', found', -, received, -⟩ := owed
  cases found.symm.trans found'
  exact received

/-- A subscriber that listens takes what is in its queue, an item a step. -/
theorem completes_listening [DecidableEq ι] {bus : EventBus δ} (cons : bus.Consistent)
    (owed : Owed code id (code.key subject) es bus) {s : Subscriber δ} {c : Nat}
    (found : bus.subscribers.get id = some s) (at_phase : s.phase = .listening c) :
    ∃ n, let after := (eventBus code).final bus (List.replicate n (.receive id))
      ∃ s, after.subscribers.get id = some s ∧ s.taken = code.delivery es ∧
        (code.ended es = true → s.phase = .returned) := by
  have received := received_of_owed owed found
  induction next : s.queue generalizing bus s with
  | nil =>
    rw [Subscriber.Received, at_phase, next, List.append_nil] at received
    refine ⟨0, s, found, received, fun ended => ?_⟩
    -- then the sentinel would have been taken
    have last := sentinel_of_ended ended
    rw [← received, taken_listening at_phase] at last
    simp at last
  | cons item rest ih =>
    cases item with
    | event e =>
      have step : (eventBus code).step bus (.receive id) = some _ :=
        receive_event found at_phase next
      have owed : Owed code id (code.key subject) (es ++ []) _ :=
        owed_of_step (x := ⟨bus, .receive id, (), _⟩) step cons owed
      rw [List.append_nil] at owed
      have found := Table.get_modify_self found (yield_id · e)
      obtain ⟨n, last⟩ := ih (bus_consistent_of_step (x := ⟨bus, .receive id, (), _⟩) step cons)
        owed found at_phase (received_of_owed owed found) (by simp [Subscriber.yield, next])
      refine ⟨n + 1, ?_⟩
      rw [List.replicate_succ, Machine.final_cons_of_step step]
      exact last
    | sentinel =>
      have step : (eventBus code).step bus (.receive id) = some _ :=
        receive_sentinel found at_phase next
      refine ⟨1, s.return, ?_, (received_return at_phase next received).1, fun _ => rfl⟩
      rw [List.replicate_succ, Machine.final_cons_of_step step]
      exact Table.get_modify_self found return_id

theorem completes_of_owed [DecidableEq ι] {bus : EventBus δ} (cons : bus.Consistent)
    (owed : Owed code id (code.key subject) es bus) : Completes code id es bus := by
  intro not_closed
  have whole := owed
  obtain ⟨s, found, -, received, -⟩ := whole
  cases at_phase : s.phase with
  | listening c => exact completes_listening cons owed found at_phase
  | returned =>
    rw [Subscriber.Received, at_phase] at received
    exact ⟨0, s, found, received.1, fun _ => at_phase⟩
  | closed => exact absurd at_phase (not_closed s found)
  | replayed =>
    rw [Subscriber.Received, at_phase] at received
    exact received.elim

end

/-! ## The whole of a run -/

section
variable {bus : EventBus δ} {id : Nat} {subject : ι} (actions : List (BusAction ι δ))

/-- What is published in a run is owed at its end. -/
theorem owed_run [DecidableEq ι] (cons : bus.Consistent)
    (owed : Owed code id (code.key subject) [] bus) :
    ((eventBus code).final bus actions).Consistent ∧
      Owed code id (code.key subject) (published subject ((eventBus code).run bus actions))
        ((eventBus code).final bus actions) :=
  Machine.history_final (I := fun past bus => bus.Consistent ∧
      Owed code id (code.key subject) (published subject past) bus)
    (fun past y h i => ⟨bus_consistent_of_step h i.1,
      published_concat subject past y ▸ owed_of_step h i.1 i.2⟩) ⟨cons, owed⟩

theorem replayed_run {e : Event δ} (cons : bus.Consistent) (replayed : Replayed id e bus) :
    Replayed id e ((eventBus code).final bus actions) :=
  (Machine.history_final (m := eventBus code) (I := fun _ bus => bus.Consistent ∧ Replayed id e bus)
    (fun _ _ h i => ⟨bus_consistent_of_step h i.1, replayed_of_step h i.1 i.2⟩)
    ⟨cons, replayed⟩).2

end

/-- A subscriber that registers is delivered the events published for its task from then on,
in their order, up to the first terminal one; one that finds a terminal event in the cache is
given this, the last that was published for the task. The cache keeps its bound. -/
theorem event_delivery [DecidableEq ι] (code : BusCode ι) (actions : List (BusAction ι δ)) :
    (∀ x ∈ (eventBus code).run .empty actions,
      x.after.terminalEvents.rows.length ≤ terminalCacheMaxsize) ∧
    ∀ past x later id subject, (eventBus code).run .empty actions = past ++ x :: later →
      x.input = .subscribe id subject →
      let bus := (eventBus code).final .empty actions
      match x.before.terminalEvents.get (code.key subject) with
      | none => Delivered code id (published subject later) bus ∧
          Completes code id (published subject later) bus
      | some cached => code.lastTerminal (published subject past) = some cached.2 ∧
          Replayed id cached.2 bus ∧ Closes code id bus := by
  have always : ∀ past x later, (eventBus code).run .empty actions = past ++ x :: later →
      (eventBus code).Steps x ∧ Cached code past x.before :=
    Machine.history_invariant (fun _ _ h c => cached_of_step h c) cached_empty
  refine ⟨fun x hx => ?_, fun past x later id subject split input => ?_⟩
  · obtain ⟨past, later, split⟩ := List.append_of_mem hx
    obtain ⟨h, c⟩ := always past x later split
    exact (cached_of_step h c).bound
  · obtain ⟨h, c⟩ := always past x later split
    have cons := bus_consistent_of_step h c.consistent
    obtain ⟨rest, rfl, ends⟩ := Machine.run_split split
    rw [← ends]
    show match x.before.terminalEvents.get (code.key subject) with | none => _ | some _ => _
    cases found : x.before.terminalEvents.get (code.key subject) with
    | none =>
      have owed := owed_of_registers h c.consistent input found
      obtain ⟨cons, owed⟩ := owed_run rest cons owed
      have whole := owed
      obtain ⟨s, found, -, received, -⟩ := whole
      exact ⟨⟨s, found, received⟩, completes_of_owed cons owed⟩
    | some cached =>
      obtain ⟨mem, at_key⟩ := Table.get_mem found
      have replayed : Replayed id cached.2 ((eventBus code).final x.after rest) :=
        replayed_run rest cons (replayed_of_subscribes h input found)
      exact ⟨c.last cached mem subject at_key, replayed, closes_of_replayed replayed⟩

/-- Two subscribers, one before the events of a task and one after. -/
def twoSubscribers : List (BusAction UuidOrStr Nat) :=
  [.subscribe 0 (.str "task-1"), .publish (.str "task-1") ⟨some "token", 1⟩,
    .publish (.str "task-2") ⟨some "token", 2⟩, .publish (.str "task-1") ⟨some "task_complete", 3⟩,
    .subscribe 1 (.str "task-1"), .receive 0]

theorem early_and_late : let bus := (eventBus taskBus).final .empty twoSubscribers
    Delivered taskBus 0 [⟨some "token", 1⟩, ⟨some "task_complete", 3⟩] bus ∧
      Completes taskBus 0 [⟨some "token", 1⟩, ⟨some "task_complete", 3⟩] bus ∧
      Replayed 1 ⟨some "task_complete", 3⟩ bus ∧ Closes taskBus 1 bus := by
  have long : 4 < ((eventBus taskBus).run .empty twoSubscribers).length := by decide +kernel
  have early := (event_delivery taskBus twoSubscribers).2 _ _ _ 0 (.str "task-1")
    (Machine.run_at 0 (Nat.lt_of_le_of_lt (Nat.zero_le 4) long)) rfl
  have late := (event_delivery taskBus twoSubscribers).2 _ _ _ 1 (.str "task-1")
    (Machine.run_at 4 long) rfl
  exact ⟨early.1, early.2, late.2⟩

end LegionForge.Gateway
