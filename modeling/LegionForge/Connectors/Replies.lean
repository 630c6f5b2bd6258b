import LegionForge.Connectors.EventStream
import Mathlib.Data.List.Infix

/-!
# What a chat is told of its task

A connector has two loops with a queue between them. One submits the task and puts what the
events say into the queue: the text of each token, and at the end a sentinel. The other
takes the items and edits the reply, not too often, until the sentinel or a minute without
an item. Discord, Telegram and Slack run the same loop with limits of their own; only
Discord appends the cursor after it has cut the text.

The webhook and WhatsApp connectors collect the items and say nothing in between.
-/

namespace LegionForge.Connectors

open JsonRead (Value codes)

/-! ## Values -/

def Value.truthy : Value → Bool
  | .null => false
  | .bool b => b
  | .int n => n ≠ 0
  | .float _ digits _ => digits ≠ 0
  | .constant _ => true
  | .str t => t ≠ []
  | .arr xs => xs.length ≠ 0
  | .obj ms => ms.length ≠ 0

/-- `data.get(name, default)`; what is not a `dict` has no `get`. -/
def dataGet (data : Value) (name : String) (default : Value) : Option Value :=
  match data with
  | .obj ms => some (((Value.obj ms).get? (codes name)).getD default)
  | _ => none

/-- `f"{v}"`, where `repr` is what a value other than a text is written as. -/
def format (repr : Value → List Nat) : Value → List Nat
  | .str t => t
  | v => repr v

/-! ## From events to items -/

def doneItem (resultUrl : Value) : Value :=
  .obj [(codes "done", .bool true), (codes "result_url", resultUrl)]

def errorItem (error : Value) : Value := .obj [(codes "error", error)]

/-- The items that were put, and whether the call ended with an exception. -/
structure Forwarded where
  items : List Value
  raised : Bool

def Forwarded.put (item : Value) (f : Forwarded) : Forwarded := { f with items := item :: f.items }

/-- How the iteration over the lines ends. -/
inductive Ending where
  | closed
  | httpError (text : List Nat)

/-- The response to `POST /tasks` -/
structure SubmitReply where
  status : Nat
  text : List Nat
  /-- `resp.json()`, unless it raises -/
  json : Option Value

section
variable (repr : Value → List Nat)

/-- The loop of `_run_task` -/
def forward (taskId : Value) (ending : Ending) : List StreamEvent → Forwarded
  | [] =>
    match ending with
    | .closed => ⟨[], false⟩
    | .httpError text => ⟨[errorItem (.str (codes "Stream connection failed: " ++ text))], false⟩
  | e :: events =>
    if e.event = "token" then
      match dataGet e.data "delta" (.str []) with
      | none => ⟨[], true⟩
      | some delta =>
        if Value.truthy delta then (forward taskId ending events).put delta
        else forward taskId ending events
    else if e.event = "task_complete" then
      match dataGet e.data "result_url" (.str (codes "/tasks/" ++ format repr taskId)) with
      | none => ⟨[], true⟩
      | some resultUrl => ⟨[doneItem resultUrl], false⟩
    else if e.event = "task_error" ∨ e.event = "task_cancelled" then
      match dataGet e.data "error" (.str (codes "Task " ++ codes e.event)) with
      | none => ⟨[], true⟩
      | some error => ⟨[errorItem error], false⟩
    else forward taskId ending events

/-- `_run_task`, `_run_task_and_stream`; there is no reply if the request raises. -/
def runTask (reply : Option SubmitReply) (events : List StreamEvent) (ending : Ending) :
    Forwarded :=
  match reply with
  | none => ⟨[], true⟩
  | some resp =>
    if resp.status ≠ 202 then
      let detail := (resp.json.bind fun v => dataGet v "detail" (.str resp.text)).getD
        (.str resp.text)
      ⟨[errorItem (.str (codes "Gateway error " ++ codes (toString resp.status) ++ codes ": " ++
        format repr detail))], false⟩
    else
      match resp.json with
      | none => ⟨[], true⟩
      | some payload =>
        match payload.get? (codes "task_id"), payload.get? (codes "stream_url"),
            payload.get? (codes "stream_token") with
        | some taskId, some _, some _ => forward repr taskId ending events
        | _, _, _ => ⟨[], true⟩

/-! ## From items to the reply -/

/-- The two characters of the warning sign -/
def warning : List Nat := [0x26A0, 0xFE0F]

/-- What an item makes of the text, and whether it is the last. -/
def absorb (mark : List Nat) (accumulated : List Nat) : Value → List Nat × Bool
  | .str t => (accumulated ++ t, false)
  | .obj ms =>
    if ((Value.obj ms).get? (codes "done")).any Value.truthy then (accumulated, true)
    else
      match (Value.obj ms).get? (codes "error") with
      | some error => (accumulated ++ codes "\n\n" ++ mark ++ format repr error, true)
      | none => (accumulated, false)
  | _ => (accumulated, false)

/-- What the loops of the three chats differ in. -/
structure Channel where
  limit : Nat
  noResponse : List Nat
  display : Bool → List Nat → List Nat

def cursor : List Nat := [32, 0x258C]

/-- The text with a cursor, cut to the limit -/
def cursorThenCut (limit : Nat) (working : List Nat) (done : Bool) (accumulated : List Nat) :
    List Nat :=
  let display := if accumulated = [] then working else accumulated
  let display := if done then display else display ++ cursor
  if limit < display.length then display.take (limit - 3) ++ codes "..." else display

/-- The text cut to the limit, with a cursor -/
def cutThenCursor (limit : Nat) (working : List Nat) (done : Bool) (accumulated : List Nat) :
    List Nat :=
  let display :=
    if limit < accumulated.length then accumulated.take (limit - 3) ++ codes "..." else accumulated
  let display := if done then display else display ++ cursor
  if display = [] then working else display

/-- `_stream_to_telegram` -/
def telegram : Channel where
  limit := 4096
  noResponse := codes "*(no response)*"
  display := cursorThenCut 4096 (codes "*(working...)*")

/-- `_stream_to_slack` -/
def slack : Channel where
  limit := 3000
  noResponse := codes "_(no response)_"
  display := cursorThenCut 3000 (codes "_(working...)_")

/-- `_stream_to_discord` -/
def discord : Channel where
  limit := 2000
  noResponse := codes "*(no response)*"
  display := cutThenCursor 2000 (codes "*(working...)*")

/-- An item comes within the minute; the edit it may lead to is accepted or not. -/
structure Arrival where
  item : Value
  now : Nat
  accepted : Bool

structure Edit where
  accumulated : List Nat
  done : Bool
  now : Nat
  accepted : Bool

/-- The edits of the loop, and the text it ends with. Behind the arrivals is a minute without
an item. -/
def editLoop (interval : Nat) (accumulated : List Nat) (lastEdit : Nat) :
    List Arrival → List Edit × List Nat
  | [] => ([], accumulated)
  | a :: arrivals =>
    let (accumulated, done) := absorb repr (warning ++ [32]) accumulated a.item
    let edit : Edit := ⟨accumulated, done, a.now, a.accepted⟩
    if done then ([edit], accumulated)
    else if lastEdit + interval ≤ a.now ∧ accumulated ≠ [] then
      let (edits, final) :=
        editLoop interval accumulated (if a.accepted then a.now else lastEdit) arrivals
      (edit :: edits, final)
    else editLoop interval accumulated lastEdit arrivals

/-- A text that leaves room for the mark -/
def Channel.cut (ch : Channel) (final : List Nat) : List Nat :=
  if ch.limit - 10 < final.length then final.take (ch.limit - 13) ++ codes "..." else final

/-- The check mark stands where there is no warning. -/
def sign (final : List Nat) : List Nat :=
  if warning <:+: final then final else final ++ [10, 0x2705]

/-- The text of the final edit -/
def Channel.final (ch : Channel) (accumulated : List Nat) : List Nat :=
  sign (ch.cut (if accumulated = [] then ch.noResponse else accumulated))

/-- The loops of `_process_and_callback` and `_process_message`: the text, and whether the
status is "complete". Behind the items are five minutes without one. -/
def collect (accumulated : List Nat) : List Value → List Nat × Bool
  | [] => (accumulated ++ codes "\n\n[timeout waiting for task result]", false)
  | item :: items =>
    match absorb repr [] accumulated item with
    | (accumulated, false) => collect accumulated items
    | (accumulated, true) => (accumulated, item.get? (codes "done") |>.any Value.truthy)

/-- What the webhook posts of a task, its status and result: `raised` is the text of an
exception, and the items that were taken are `taken`. -/
def callbackPayload (raised : List Nat) (f : Forwarded) (taken : List Value) : String × List Nat :=
  if f.raised then ("error", raised)
  else
    match collect repr [] taken with
    | (accumulated, true) => ("complete", accumulated)
    | (accumulated, false) => ("error", accumulated)

/-! ## What the items say -/

def StreamEvent.terminal (e : StreamEvent) : Bool :=
  e.event = "task_complete" || e.event = "task_error" || e.event = "task_cancelled"

/-- The item of a token -/
def StreamEvent.delta? (e : StreamEvent) : Option Value :=
  if e.event = "token" then (dataGet e.data "delta" (.str [])).filter Value.truthy else none

def deltaText : Value → List Nat
  | .str t => t
  | _ => []

/-- The text of the tokens -/
def answer (events : List StreamEvent) : List Nat :=
  (events.filterMap StreamEvent.delta?).flatMap deltaText

/-- The `data` of every event of the gateway is an object, and a model gives text or a list
of parts. -/
def StreamEvent.Usual (e : StreamEvent) : Prop :=
  (∃ ms, e.data = .obj ms) ∧ ∀ v, e.delta? = some v → ∀ ms, v ≠ .obj ms

def StreamEvent.error (e : StreamEvent) : Value :=
  (dataGet e.data "error" (.str (codes "Task " ++ codes e.event))).getD .null

def StreamEvent.resultUrl (taskId : Value) (e : StreamEvent) : Value :=
  (dataGet e.data "result_url" (.str (codes "/tasks/" ++ format repr taskId))).getD .null

/-- The item of the terminal event -/
def closing (taskId : Value) (e : StreamEvent) : Value :=
  if e.event = "task_complete" then doneItem (e.resultUrl repr taskId) else errorItem e.error

/-- What the reply ends with. -/
def lastWords (mark : List Nat) (e : StreamEvent) : List Nat :=
  if e.event = "task_complete" then [] else codes "\n\n" ++ mark ++ format repr e.error

/-- The text after the items, and the one that ended the loop. -/
def told (mark accumulated : List Nat) : List Value → List Nat × Option Value
  | [] => (accumulated, none)
  | item :: items =>
    match absorb repr mark accumulated item with
    | (accumulated, false) => told mark accumulated items
    | (accumulated, true) => (accumulated, some item)

section
variable {repr}

theorem dataGet_obj {e : StreamEvent} (usual : e.Usual) (name : String) (default : Value) :
    ∃ v, dataGet e.data name default = some v := by
  obtain ⟨ms, object⟩ := usual.1
  exact ⟨_, by rw [object, dataGet]⟩

theorem forward_running {taskId : Value} {ending : Ending} {e : StreamEvent} (usual : e.Usual)
    (running : e.terminal = false) (events : List StreamEvent) :
    forward repr taskId ending (e :: events) =
      ⟨e.delta?.toList ++ (forward repr taskId ending events).items,
        (forward repr taskId ending events).raised⟩ := by
  simp only [StreamEvent.terminal, Bool.or_eq_false_iff, decide_eq_false_iff_not] at running
  obtain ⟨⟨complete, error⟩, cancelled⟩ := running
  by_cases token : e.event = "token"
  · obtain ⟨delta, found⟩ := dataGet_obj usual "delta" (.str [])
    rw [forward, if_pos token, found, StreamEvent.delta?, if_pos token, found]
    cases shown : Value.truthy delta with
    | true => simp [Option.filter, shown, Forwarded.put]
    | false => simp [Option.filter, shown]
  · rw [forward, if_neg token, if_neg complete, if_neg (by simp [error, cancelled]),
      StreamEvent.delta?, if_neg token]
    rfl

theorem forward_terminal {taskId : Value} {ending : Ending} {e : StreamEvent} (usual : e.Usual)
    (terminal : e.terminal = true) (events : List StreamEvent) :
    forward repr taskId ending (e :: events) = ⟨[closing repr taskId e], false⟩ := by
  by_cases complete : e.event = "task_complete"
  · obtain ⟨url, found⟩ := dataGet_obj usual "result_url"
      (.str (codes "/tasks/" ++ format repr taskId))
    have other : e.event ≠ "token" := by simp [complete]
    rw [forward, if_neg other, if_pos complete, closing, if_pos complete, StreamEvent.resultUrl,
      found]
    rfl
  · have ended : e.event = "task_error" ∨ e.event = "task_cancelled" := by
      simpa [StreamEvent.terminal, complete] using terminal
    obtain ⟨text, found⟩ := dataGet_obj usual "error" (.str (codes "Task " ++ codes e.event))
    have other : e.event ≠ "token" := by rcases ended with same | same <;> simp [same]
    rw [forward, if_neg other, if_neg complete, if_pos ended, closing, if_neg complete,
      StreamEvent.error, found]
    rfl

/-- The items are those of the tokens and of the first terminal event. -/
theorem forward_split {taskId : Value} {ending : Ending} {before : List StreamEvent}
    {last : StreamEvent} (usual : ∀ e ∈ before, e.Usual) (usual_last : last.Usual)
    (running : ∀ e ∈ before, e.terminal = false) (terminal : last.terminal = true)
    (rest : List StreamEvent) :
    forward repr taskId ending (before ++ last :: rest) =
      ⟨before.filterMap StreamEvent.delta? ++ [closing repr taskId last], false⟩ := by
  induction before with
  | nil => exact forward_terminal usual_last terminal rest
  | cons e before ih =>
    have tail := ih (fun e he => usual e (List.mem_cons_of_mem _ he))
      (fun e he => running e (List.mem_cons_of_mem _ he))
    rw [List.cons_append, forward_running (usual e List.mem_cons_self)
      (running e List.mem_cons_self), tail, List.filterMap_cons]
    cases e.delta? <;> rfl

/-! ## What the loops make of the items -/

/-- The text after items none of which is the last. -/
theorem absorb_delta {mark accumulated : List Nat} {v : Value} (plain : ∀ ms, v ≠ .obj ms) :
    absorb repr mark accumulated v = (accumulated ++ deltaText v, false) := by
  cases v with
  | obj ms => exact absurd rfl (plain ms)
  | str t => rfl
  | _ => simp [absorb, deltaText]

theorem absorb_closing {mark accumulated : List Nat} {taskId : Value} {e : StreamEvent} :
    absorb repr mark accumulated (closing repr taskId e) =
      (accumulated ++ lastWords repr mark e, true) := by
  unfold closing lastWords
  split
  · simp [doneItem, absorb, Value.get?, codes, Value.truthy]
  · simp [errorItem, absorb, Value.get?, codes]

theorem editLoop_told (interval : Nat) (arrivals : List Arrival) (accumulated : List Nat)
    (lastEdit : Nat) :
    (editLoop repr interval accumulated lastEdit arrivals).2 =
      (told repr (warning ++ [32]) accumulated (arrivals.map (·.item))).1 := by
  induction arrivals generalizing accumulated lastEdit with
  | nil => rfl
  | cons a arrivals ih =>
    rw [editLoop, List.map_cons, told]
    obtain ⟨text, done⟩ := absorb repr (warning ++ [32]) accumulated a.item
    cases done with
    | true => rfl
    | false =>
      dsimp only
      rw [if_neg Bool.false_ne_true]
      split
      · exact ih _ _
      · exact ih _ _

theorem collect_told (items : List Value) (accumulated : List Nat) :
    collect repr accumulated items =
      match told repr [] accumulated items with
      | (text, none) => (text ++ codes "\n\n[timeout waiting for task result]", false)
      | (text, some item) => (text, (item.get? (codes "done")).any Value.truthy) := by
  induction items generalizing accumulated with
  | nil => rfl
  | cons item items ih =>
    rw [collect, told]
    obtain ⟨text, done⟩ := absorb repr [] accumulated item
    cases done with
    | true => rfl
    | false => exact ih text

theorem told_deltas {mark : List Nat} {vs : List Value} (plain : ∀ v ∈ vs, ∀ ms, v ≠ .obj ms)
    (accumulated : List Nat) (items : List Value) :
    told repr mark accumulated (vs ++ items) =
      told repr mark (accumulated ++ vs.flatMap deltaText) items := by
  induction vs generalizing accumulated with
  | nil => simp
  | cons v vs ih =>
    rw [List.cons_append, told, absorb_delta (plain v List.mem_cons_self)]
    simpa using ih (fun v hv => plain v (List.mem_cons_of_mem _ hv)) (accumulated ++ deltaText v)

theorem plain_deltas {events : List StreamEvent} (usual : ∀ e ∈ events, e.Usual) :
    ∀ v ∈ events.filterMap StreamEvent.delta?, ∀ ms, v ≠ .obj ms := by
  intro v hv
  obtain ⟨e, he, found⟩ := List.mem_filterMap.mp hv
  exact (usual e he).2 v found

/-- An item that ends the loop, with words for the text -/
def Ends (repr : Value → List Nat) (mark : List Nat) (item : Value) (words : List Nat) : Prop :=
  ∀ accumulated, absorb repr mark accumulated item = (accumulated ++ words, true)

theorem ends_closing (mark : List Nat) (taskId : Value) (e : StreamEvent) :
    Ends repr mark (closing repr taskId e) (lastWords repr mark e) :=
  fun _ => absorb_closing

theorem ends_error (mark : List Nat) (text : Value) :
    Ends repr mark (errorItem text) (codes "\n\n" ++ mark ++ format repr text) := by
  intro accumulated
  simp [errorItem, absorb, Value.get?, codes]

/-- Of the items, the loop has taken all or only some of the tokens. -/
theorem told_taken {mark words : List Nat} {item : Value} (ends : Ends repr mark item words)
    {before : List StreamEvent} (usual : ∀ e ∈ before, e.Usual) {taken : List Value}
    (front : taken <+: before.filterMap StreamEvent.delta? ++ [item]) :
    (taken = before.filterMap StreamEvent.delta? ++ [item] ∧
      told repr mark [] taken = (answer before ++ words, some item)) ∨
    ∃ events, events <+: before ∧ taken = events.filterMap StreamEvent.delta? ∧
      told repr mark [] taken = (answer events, none) := by
  rcases List.prefix_concat_iff.mp front with rfl | tokens
  · refine .inl ⟨rfl, ?_⟩
    rw [told_deltas (plain_deltas usual), told, ends]
    rfl
  · obtain ⟨events, part, rfl⟩ := List.prefix_filterMap_iff.mp tokens
    refine .inr ⟨events, part, rfl, ?_⟩
    have deltas := plain_deltas fun e he => usual e (part.subset he)
    rw [← List.append_nil (events.filterMap StreamEvent.delta?), told_deltas deltas]
    rfl

/-! ## From the gateway to the chat -/

/-- A task was queued. -/
def SubmitReply.Accepts (r : SubmitReply) (taskId : Value) : Prop :=
  r.status = 202 ∧ ∃ payload streamUrl streamToken, r.json = some payload ∧
    payload.get? (codes "task_id") = some taskId ∧
    payload.get? (codes "stream_url") = some streamUrl ∧
    payload.get? (codes "stream_token") = some streamToken

theorem runTask_accepted {r : SubmitReply} {taskId : Value} (accepts : r.Accepts taskId)
    (events : List StreamEvent) (ending : Ending) :
    runTask repr (some r) events ending = forward repr taskId ending events := by
  obtain ⟨status, payload, url, token, json, id, has_url, has_token⟩ := accepts
  rw [runTask, if_neg (by simp [status]), json]
  simp only [id, has_url, has_token]

theorem value_obj (e : SentEvent) : ∃ ms, e.received.data = .obj ms := by
  obtain ⟨ms, -, means⟩ := Option.map_eq_some_iff.mp e.means
  exact ⟨ms, means.symm⟩

/-- No delta of these events is an object. -/
def PlainDeltas (events : List StreamEvent) : Prop :=
  ∀ e ∈ events, ∀ v, e.delta? = some v → ∀ ms, v ≠ .obj ms

theorem usual_sent {messages : List ServerMessage} (plain : PlainDeltas (eventsOf messages)) :
    ∀ e ∈ eventsOf messages, e.Usual := by
  intro e he
  obtain ⟨m, -, sent⟩ := List.mem_filterMap.mp he
  refine ⟨?_, plain e he⟩
  cases m with
  | event s =>
    cases sent
    exact value_obj s
  | ping => cases sent

theorem usual_terminal {e : SentEvent} (terminal : e.received.terminal = true) :
    e.received.Usual := by
  refine ⟨value_obj e, fun v found => ?_⟩
  have other : e.received.event ≠ "token" := by
    intro token
    simp [StreamEvent.terminal, token] at terminal
  rw [StreamEvent.delta?, if_neg other] at found
  cases found

/-- The items that a connector puts of what it has received. -/
def SseEnv.itemsOf (env : SseEnv) (repr : Value → List Nat) (r : SubmitReply)
    (received : List Char) (ending : Ending) : List Value :=
  (runTask repr (some r) (env.consumeSse .start (env.aiterLines received)) ending).items

/-- The items of a stream whose terminal event has arrived. -/
theorem items_of_stream {env : SseEnv} (doc : env.Documented) {before : List ServerMessage}
    {last : SentEvent} {received : List Char}
    (arrived : env.body (before ++ [.event last]) <+: received)
    (running : ∀ e ∈ eventsOf before, e.terminal = false) (plain : PlainDeltas (eventsOf before))
    (terminal : last.received.terminal = true) {r : SubmitReply} {taskId : Value}
    (accepts : r.Accepts taskId) (ending : Ending) :
    env.itemsOf repr r received ending =
      (eventsOf before).filterMap StreamEvent.delta? ++ [closing repr taskId last.received] := by
  obtain ⟨rest, rfl⟩ := arrived
  have events : eventsOf (before ++ [.event last]) = eventsOf before ++ [last.received] := by
    rw [eventsOf, List.filterMap_append]
    rfl
  rw [SseEnv.itemsOf, runTask_accepted accepts, consume_arrived doc, events, List.append_assoc,
    List.singleton_append,
    forward_split (usual_sent plain) (usual_terminal terminal) running terminal]

end

end

/-- The reply of a chat ends with the text of the tokens up to the terminal event, in the
order they were sent, and the words of that event; or with the text of the first few, if the
queue was silent for a minute. Neither the clock nor the edits that failed make a difference,
nor what else was received. -/
theorem reply_of_stream (env : SseEnv) (doc : env.Documented) (repr : Value → List Nat)
    {before : List ServerMessage} {last : SentEvent} {received : List Char}
    (arrived : env.body (before ++ [.event last]) <+: received)
    (running : ∀ e ∈ eventsOf before, e.terminal = false) (plain : PlainDeltas (eventsOf before))
    (terminal : last.received.terminal = true) {r : SubmitReply} {taskId : Value}
    (accepts : r.Accepts taskId) (ending : Ending) (interval : Nat) {arrivals : List Arrival}
    (taken : arrivals.map (·.item) <+: env.itemsOf repr r received ending) :
    (arrivals.map (·.item) = env.itemsOf repr r received ending →
      (editLoop repr interval [] 0 arrivals).2 =
        answer (eventsOf before) ++ lastWords repr (warning ++ [32]) last.received) ∧
    (arrivals.map (·.item) ≠ env.itemsOf repr r received ending →
      ∃ events, events <+: eventsOf before ∧
        (editLoop repr interval [] 0 arrivals).2 = answer events) := by
  have sent : env.itemsOf repr r received ending = _ :=
    items_of_stream doc arrived running plain terminal accepts ending
  rw [sent] at taken ⊢
  rw [editLoop_told]
  rcases told_taken (ends_closing _ taskId last.received) (usual_sent plain) taken with
    ⟨all, whole⟩ | ⟨events, part, some_, whole⟩
  · exact ⟨fun _ => by rw [whole], fun other => absurd all other⟩
  · refine ⟨fun all => ?_, fun _ => ⟨events, part, by rw [whole]⟩⟩
    have shorter := (part.filterMap StreamEvent.delta?).length_le
    rw [← some_, all] at shorter
    simp only [List.length_append, List.length_singleton] at shorter
    omega

/-! ## A short task -/

def sampleTaskId : Value := .str (codes "t1")

def sampleSubmit : SubmitReply where
  status := 202
  text := []
  json := some (.obj [(codes "task_id", sampleTaskId), (codes "stream_url", .str []),
    (codes "stream_token", .str [])])

theorem sampleSubmit_accepts : sampleSubmit.Accepts sampleTaskId :=
  ⟨rfl, _, _, _, rfl, rfl, rfl, rfl⟩

def sampleRow (status : String) : StreamedRow where
  taskId := "t1"
  status
  result := ⟨.str "Hi", .str (codes "Hi"), rfl⟩
  tokens := ⟨.null, .null, rfl⟩
  error := ⟨.str "No", .str (codes "No"), rfl⟩

def sampleRepr (_ : Value) : List Nat := []

theorem hello_running : ∀ e ∈ eventsOf [.event hello], e.terminal = false := by
  intro e he
  rw [List.mem_singleton.mp he]
  rfl

theorem hello_plain : PlainDeltas (eventsOf [.event hello]) := by
  intro e he v found ms object
  rw [List.mem_singleton.mp he] at found
  cases found
  cases object

/-- The two items of a short stream, five seconds apart -/
def helloArrivals (last : SentEvent) : List Arrival :=
  [⟨.str (codes "Hi"), 5, true⟩, ⟨closing sampleRepr sampleTaskId last.received, 10, true⟩]

def helloBody (last : SentEvent) : List Char :=
  sampleSse.body ([.event hello] ++ [.event last])

theorem hello_items (last : SentEvent) (terminal : last.received.terminal = true) :
    (helloArrivals last).map (·.item) =
      sampleSse.itemsOf sampleRepr sampleSubmit (helloBody last) .closed :=
  (items_of_stream sampleSse_documented (List.prefix_refl _) hello_running hello_plain terminal
    sampleSubmit_accepts .closed).symm

theorem hello_replied :
    (editLoop sampleRepr 2 [] 0 (helloArrivals (sampleRow "").complete)).2 = codes "Hi" := by
  have items := hello_items (sampleRow "").complete rfl
  have taken : (helloArrivals (sampleRow "").complete).map (·.item) <+:
      sampleSse.itemsOf sampleRepr sampleSubmit (helloBody (sampleRow "").complete) .closed := by
    rw [← items]
  have text := (reply_of_stream sampleSse sampleSse_documented sampleRepr (List.prefix_refl _)
    hello_running hello_plain rfl sampleSubmit_accepts .closed 2 taken).1 items
  have words : answer (eventsOf [.event hello]) ++
      lastWords sampleRepr (warning ++ [32]) (sampleRow "").complete.received = codes "Hi" := by
    decide
  exact text.trans words

/-! ## The mark -/

theorem infix_append {a b : Nat} {xs ys : List Nat} (absent : b ∉ ys)
    (found : [a, b] <:+: xs ++ ys) : [a, b] <:+: xs := by
  obtain ⟨s, t, same⟩ := found
  rcases List.append_eq_append_iff.mp same with ⟨u, whole, -⟩ | ⟨u, whole, rest⟩
  · exact ⟨s, u, whole.symm⟩
  · rcases List.eq_nil_or_concat u with rfl | ⟨v, c, rfl⟩
    · exact ⟨s, [], by simpa using whole⟩
    · have last : b = c := by
        have ends := congrArg List.getLast? whole
        simpa using ends
      rw [rest, last] at absent
      simp at absent

/-- The words of a failure -/
def failure (error : List Nat) : List Nat := codes "\n\n" ++ (warning ++ [32]) ++ error

theorem warning_cut {text error : List Nat} (unmarked : ¬ warning <:+: text) {n : Nat} :
    warning <:+: (text ++ failure error).take n ++ codes "..." ↔ text.length + 4 ≤ n := by
  have parts : text ++ failure error =
      (text ++ [10, 10]) ++ (warning ++ ([32] ++ error)) := by
    simp [failure, codes]
  rw [parts]
  constructor
  · intro shown
    by_contra short
    have within : (text ++ [10, 10] ++ (warning ++ ([32] ++ error))).take n <+:
        text ++ [10, 10, 0x26A0] := by
      have front : text ++ [10, 10] ++ (warning ++ ([32] ++ error)) =
          (text ++ [10, 10, 0x26A0]) ++ (0xFE0F :: ([32] ++ error)) := by simp [warning]
      rw [front, List.take_append_of_le_length (by simp; omega)]
      exact List.take_prefix _ _
    have before := infix_append (by decide) shown
    exact unmarked (infix_append (by decide) (before.trans within.isInfix))
  · intro room
    have taken : (text ++ [10, 10] ++ (warning ++ ([32] ++ error))).take n =
        text ++ [10, 10] ++ (warning ++ ([32] ++ error).take (n - (text.length + 4))) := by
      rw [List.take_append, List.take_of_length_le (by simp; omega), List.take_append,
        List.take_of_length_le (by simp [warning]; omega)]
      simp [warning, Nat.sub_sub]
    rw [taken]
    exact ⟨text ++ [10, 10], ([32] ++ error).take (n - (text.length + 4)) ++ codes "...", by simp⟩

theorem warning_sign (shown : List Nat) :
    (warning <:+: sign shown ↔ warning <:+: shown) ∧
      (¬ warning <:+: shown → sign shown = shown ++ [10, 0x2705]) := by
  by_cases marked : warning <:+: shown
  · rw [sign, if_pos marked]
    exact ⟨Iff.rfl, fun unmarked => absurd marked unmarked⟩
  · rw [sign, if_neg marked]
    exact ⟨⟨infix_append (by decide), fun found => absurd found marked⟩, fun _ => rfl⟩

theorem warning_shown (ch : Channel) {text error : List Nat} (unmarked : ¬ warning <:+: text) :
    warning <:+: ch.cut (text ++ failure error) ↔
      text.length + 4 ≤ ch.limit - 13 ∨ text.length + error.length + 5 ≤ ch.limit - 10 := by
  have length : (text ++ failure error).length = text.length + error.length + 5 := by
    simp [failure, warning, codes]
    omega
  unfold Channel.cut
  rw [length]
  split
  · next long =>
    rw [warning_cut unmarked]
    refine ⟨.inl, fun room => ?_⟩
    rcases room with room | fits
    · exact room
    · omega
  · next fits =>
    refine ⟨fun _ => .inr (by omega), fun _ => ?_⟩
    exact ⟨text ++ [10, 10], [32] ++ error, by simp [failure, codes]⟩

/-- A task that fails is shown to have failed exactly if the tokens leave room for the mark,
or there is room for all. Otherwise its reply ends with a check mark. -/
theorem failure_shown_iff (env : SseEnv) (doc : env.Documented) (repr : Value → List Nat)
    (ch : Channel) {before : List ServerMessage} {last : SentEvent} {received : List Char}
    (arrived : env.body (before ++ [.event last]) <+: received)
    (running : ∀ e ∈ eventsOf before, e.terminal = false) (plain : PlainDeltas (eventsOf before))
    (failed : last.event = "task_error" ∨ last.event = "task_cancelled") {r : SubmitReply}
    {taskId : Value} (accepts : r.Accepts taskId) (ending : Ending) (interval : Nat)
    {arrivals : List Arrival}
    (taken : arrivals.map (·.item) = env.itemsOf repr r received ending)
    (unmarked : ¬ warning <:+: answer (eventsOf before)) :
    (warning <:+: ch.final (editLoop repr interval [] 0 arrivals).2 ↔
      (answer (eventsOf before)).length + 4 ≤ ch.limit - 13 ∨
        (answer (eventsOf before)).length + (format repr last.received.error).length + 5 ≤
          ch.limit - 10) ∧
    (warning <:+: ch.final (editLoop repr interval [] 0 arrivals).2 ∨
      ∃ shown, ch.final (editLoop repr interval [] 0 arrivals).2 = shown ++ [10, 0x2705]) := by
  have other : last.received.event ≠ "task_complete" := by
    rcases failed with same | same <;> simp [SentEvent.received, same]
  have terminal : last.received.terminal = true := by
    rcases failed with same | same <;> simp [SentEvent.received, StreamEvent.terminal, same]
  have sent : env.itemsOf repr r received ending = _ :=
    items_of_stream doc arrived running plain terminal accepts ending
  have words : lastWords repr (warning ++ [32]) last.received =
      failure (format repr last.received.error) := by
    rw [lastWords, if_neg other, failure]
  have text : (editLoop repr interval [] 0 arrivals).2 =
      answer (eventsOf before) ++ failure (format repr last.received.error) := by
    rw [editLoop_told, taken, sent, told_deltas (plain_deltas (usual_sent plain)), told,
      ends_closing, words]
    rfl
  have filled : answer (eventsOf before) ++ failure (format repr last.received.error) ≠ [] := by
    simp [failure, codes]
  rw [text, Channel.final, if_neg filled, (warning_sign _).1, warning_shown ch unmarked]
  refine ⟨Iff.rfl, ?_⟩
  by_cases marked : warning <:+: ch.cut
      (answer (eventsOf before) ++ failure (format repr last.received.error))
  · exact .inl ((warning_shown ch unmarked).mp marked)
  · exact .inr ⟨_, (warning_sign _).2 marked⟩

theorem hello_failed : warning <:+:
    telegram.final (editLoop sampleRepr 2 [] 0 (helloArrivals (sampleRow "").failed)).2 := by
  have items := hello_items (sampleRow "").failed rfl
  have unmarked : ¬ warning <:+: answer (eventsOf [.event hello]) := by decide
  exact (failure_shown_iff sampleSse sampleSse_documented sampleRepr telegram (List.prefix_refl _)
    hello_running hello_plain (.inl rfl) sampleSubmit_accepts .closed 2 items unmarked).1.mpr
    (.inl (by decide))

/-! ## A task that is done already -/

/-- Whatever the result of a task that was complete before its stream was opened, the chat is
told that there is none. -/
theorem late_reply (env : SseEnv) (doc : env.Documented) (repr : Value → List Nat) {ch : Channel}
    (known : ch ∈ [telegram, slack, discord]) {row : StreamedRow}
    (complete : row.status = "complete") (live : List SentEvent)
    {before after : List ServerMessage} {e : SentEvent}
    (generated : eventsOf (before ++ .event e :: after) =
      (eventGenerator row live).map SentEvent.received)
    {received : List Char} (arrived : env.body (before ++ [.event e]) <+: received)
    {r : SubmitReply} {taskId : Value} (accepts : r.Accepts taskId) (ending : Ending)
    (interval : Nat) {arrivals : List Arrival}
    (taken : arrivals.map (·.item) <+: env.itemsOf repr r received ending) :
    ch.final (editLoop repr interval [] 0 arrivals).2 = ch.noResponse ++ [10, 0x2705] := by
  have events : eventsOf before ++ e.received :: eventsOf after = [row.complete.received] := by
    rw [eventGenerator, if_pos complete] at generated
    simpa [eventsOf, List.filterMap_append, ServerMessage.event?] using generated
  obtain ⟨none, same⟩ : eventsOf before = [] ∧ e.received = row.complete.received := by
    cases before_events : eventsOf before with
    | nil =>
      rw [before_events] at events
      exact ⟨rfl, (List.cons.inj events).1⟩
    | cons b more =>
      rw [before_events] at events
      have lengths := congrArg List.length events
      simp at lengths
  have terminal : e.received.terminal = true := by
    rw [same]
    rfl
  have plain : PlainDeltas (eventsOf before) := by simp [PlainDeltas, none]
  have sent : env.itemsOf repr r received ending = _ :=
    items_of_stream doc arrived (by simp [none]) plain terminal accepts ending
  have silent : (editLoop repr interval [] 0 arrivals).2 = [] := by
    rw [sent] at taken
    rw [editLoop_told]
    have words : lastWords repr (warning ++ [32]) e.received = [] := by
      rw [same]
      rfl
    rcases told_taken (ends_closing _ taskId e.received) (usual_sent plain) taken with
      ⟨-, whole⟩ | ⟨events, part, -, whole⟩
    · rw [whole, words, none]
      rfl
    · rw [none] at part
      rw [whole, List.prefix_nil.mp part]
      rfl
  rw [silent]
  simp only [List.mem_cons, List.not_mem_nil, or_false] at known
  rcases known with rfl | rfl | rfl <;> decide

theorem hello_late : ∃ arrivals : List Arrival,
    arrivals.map (·.item) =
      [closing sampleRepr sampleTaskId (sampleRow "complete").complete.received] ∧
    slack.final (editLoop sampleRepr 2 [] 0 arrivals).2 = slack.noResponse ++ [10, 0x2705] := by
  let row := sampleRow "complete"
  have generated : eventsOf ([] ++ .event row.complete :: []) =
      (eventGenerator row []).map SentEvent.received := rfl
  have arrived := List.prefix_refl (sampleSse.body ([] ++ [.event row.complete]))
  have taken : [closing sampleRepr sampleTaskId row.complete.received] <+:
      sampleSse.itemsOf sampleRepr sampleSubmit (sampleSse.body ([] ++ [.event row.complete]))
        .closed := by
    rw [items_of_stream sampleSse_documented arrived (by simp [eventsOf])
      (by simp [PlainDeltas, eventsOf]) rfl sampleSubmit_accepts .closed]
    exact List.prefix_refl _
  exact ⟨[⟨_, 5, true⟩], rfl, late_reply sampleSse sampleSse_documented sampleRepr (by simp)
    (rfl : row.status = "complete") [] generated arrived sampleSubmit_accepts .closed 2 taken⟩

/-! ## The edits -/

/-- A text that is cut, with three dots. -/
theorem length_shorten (limit room : Nat) (dots : room + 3 ≤ limit) (text : List Nat) :
    (if limit < text.length then text.take room ++ codes "..." else text).length ≤ limit := by
  split
  · simp [codes]
    omega
  · omega

theorem length_cursorThenCut {limit : Nat} (room : 3 ≤ limit) (working : List Nat) (done : Bool)
    (accumulated : List Nat) : (cursorThenCut limit working done accumulated).length ≤ limit :=
  length_shorten limit (limit - 3) (by omega) _

theorem length_final {ch : Channel} (room : 13 ≤ ch.limit) (accumulated : List Nat) :
    (ch.final accumulated).length ≤ ch.limit := by
  have cut := length_shorten (ch.limit - 10) (ch.limit - 13) (by omega)
    (if accumulated = [] then ch.noResponse else accumulated)
  rw [← Channel.cut] at cut
  by_cases marked : warning <:+: ch.cut (if accumulated = [] then ch.noResponse else accumulated)
  · rw [Channel.final, sign, if_pos marked]
    omega
  · rw [Channel.final, sign, if_neg marked, List.length_append, List.length_cons,
      List.length_singleton]
    omega

theorem length_discord (done : Bool) (accumulated : List Nat) :
    2000 < (discord.display done accumulated).length ↔
      done = false ∧ 1999 ≤ accumulated.length := by
  show 2000 < (cutThenCursor 2000 (codes "*(working...)*") done accumulated).length ↔ _
  unfold cutThenCursor
  by_cases long : 2000 < accumulated.length
  · have cut : (accumulated.take (2000 - 3) ++ codes "...").length = 2000 := by
      simp [codes]
      omega
    rw [if_pos long]
    cases done with
    | true =>
      have filled : accumulated.take (2000 - 3) ++ codes "..." ≠ [] := by simp [codes]
      simp only [if_true, if_neg filled, cut]
      simp
    | false =>
      have filled : accumulated.take (2000 - 3) ++ codes "..." ++ cursor ≠ [] := by simp [codes]
      have length : (accumulated.take (2000 - 3) ++ codes "..." ++ cursor).length = 2002 := by
        rw [List.length_append, cut]
        rfl
      simp only [Bool.false_eq_true, if_false, if_neg filled, length]
      simp
      omega
  · rw [if_neg long]
    cases done with
    | true =>
      by_cases empty : accumulated = []
      · simp [empty, codes]
      · simp [empty]
        omega
    | false =>
      have filled : accumulated ++ cursor ≠ [] := by simp [cursor]
      have length : (accumulated ++ cursor).length = accumulated.length + 2 :=
        List.length_append
      simp only [Bool.false_eq_true, if_false, if_neg filled, length]
      simp
      omega

/-- An edit, and one that is not the last and comes after it. -/
def Spaced (interval : Nat) (a b : Edit) : Prop :=
  a.accepted = true → b.done = false → a.now + interval ≤ b.now

theorem editLoop_spaced (repr : Value → List Nat) (interval : Nat) (arrivals : List Arrival)
    (accumulated : List Nat) (lastEdit : Nat) :
    (∀ e ∈ (editLoop repr interval accumulated lastEdit arrivals).1,
      e.done = false → lastEdit + interval ≤ e.now) ∧
    (editLoop repr interval accumulated lastEdit arrivals).1.Pairwise (Spaced interval) := by
  induction arrivals generalizing accumulated lastEdit with
  | nil => exact ⟨fun e he => absurd he List.not_mem_nil, List.Pairwise.nil⟩
  | cons a arrivals ih =>
    rw [editLoop]
    obtain ⟨text, done⟩ := absorb repr (warning ++ [32]) accumulated a.item
    cases done with
    | true =>
      refine ⟨fun e he => ?_, List.pairwise_singleton _ _⟩
      rw [List.mem_singleton.mp he]
      exact nofun
    | false =>
      dsimp only
      rw [if_neg Bool.false_ne_true]
      split
      · next due =>
        obtain ⟨later, spaced⟩ := ih text (if a.accepted then a.now else lastEdit)
        have clock : lastEdit ≤ if a.accepted then a.now else lastEdit := by
          split <;> omega
        refine ⟨List.forall_mem_cons.mpr ⟨fun _ => due.1, fun e he interim => ?_⟩,
          List.Pairwise.cons (fun e he accepted interim => ?_) spaced⟩
        · have := later e he interim
          omega
        · have after := later e he interim
          simp only [show a.accepted = true from accepted, if_true] at after
          exact after
      · exact ih text lastEdit

/-- Every text that Telegram or Slack is sent is within its limit. Discord is sent a longer
one at each edit from the 1999th character on, but for those at the end. Between an edit that
was accepted and a later one, the last apart, the interval has passed. -/
theorem edits_within_limits (repr : Value → List Nat) (interval : Nat) (arrivals : List Arrival) :
    (∀ ch ∈ [telegram, slack],
      (∀ e ∈ (editLoop repr interval [] 0 arrivals).1,
        (ch.display e.done e.accumulated).length ≤ ch.limit) ∧
      (ch.final (editLoop repr interval [] 0 arrivals).2).length ≤ ch.limit) ∧
    (∀ e ∈ (editLoop repr interval [] 0 arrivals).1,
      discord.limit < (discord.display e.done e.accumulated).length ↔
        e.done = false ∧ 1999 ≤ e.accumulated.length) ∧
    (discord.final (editLoop repr interval [] 0 arrivals).2).length ≤ discord.limit ∧
    (editLoop repr interval [] 0 arrivals).1.Pairwise (Spaced interval) := by
  refine ⟨fun ch known => ?_, fun e _ => length_discord e.done e.accumulated,
    length_final (by decide) _, (editLoop_spaced repr interval arrivals [] 0).2⟩
  simp only [List.mem_cons, List.not_mem_nil, or_false] at known
  rcases known with rfl | rfl
  · exact ⟨fun e _ => length_cursorThenCut (by decide) _ _ _, length_final (by decide) _⟩
  · exact ⟨fun e _ => length_cursorThenCut (by decide) _ _ _, length_final (by decide) _⟩

/-! ## The callback -/

section
variable {repr : Value → List Nat}

/-- Without a terminal event the items are those of the tokens and of the end of the stream. -/
theorem forward_open {taskId : Value} {ending : Ending} {events : List StreamEvent}
    (usual : ∀ e ∈ events, e.Usual) (running : ∀ e ∈ events, e.terminal = false) :
    forward repr taskId ending events =
      ⟨events.filterMap StreamEvent.delta? ++ (forward repr taskId ending []).items, false⟩ := by
  induction events with
  | nil => cases ending <;> rfl
  | cons e events ih =>
    have tail := ih (fun e he => usual e (List.mem_cons_of_mem _ he))
      (fun e he => running e (List.mem_cons_of_mem _ he))
    rw [forward_running (usual e List.mem_cons_self) (running e List.mem_cons_self), tail,
      List.filterMap_cons]
    cases e.delta? <;> rfl

/-- What came of the request: an exception, one item, or a stream. -/
theorem runTask_cases (repr : Value → List Nat) (r : Option SubmitReply)
    (events : List StreamEvent) (ending : Ending) :
    (∃ reply taskId, r = some reply ∧ reply.Accepts taskId ∧
      runTask repr r events ending = forward repr taskId ending events) ∨
    ((∀ reply taskId, r = some reply → ¬ reply.Accepts taskId) ∧
      ((runTask repr r events ending).raised = true ∨
        ∃ text, runTask repr r events ending = ⟨[errorItem text], false⟩)) := by
  cases r with
  | none =>
    refine .inr ⟨fun _ _ same => ?_, .inl rfl⟩
    cases same
  | some reply =>
    by_cases queued : reply.status = 202
    · by_cases accepts : ∃ taskId, reply.Accepts taskId
      · obtain ⟨taskId, accepts⟩ := accepts
        exact .inl ⟨reply, taskId, rfl, accepts, runTask_accepted accepts events ending⟩
      · refine .inr ⟨fun _ taskId same refused => ?_, .inl ?_⟩
        · cases same
          exact accepts ⟨taskId, refused⟩
        · rw [runTask, if_neg (by simp [queued])]
          cases json : reply.json with
          | none => rfl
          | some payload =>
            dsimp only
            split
            · next taskId url token id has_url has_token =>
              exact absurd ⟨taskId, queued, payload, url, token, json, id, has_url, has_token⟩
                accepts
            · rfl
    · refine .inr ⟨fun _ taskId same accepts => ?_, .inr ?_⟩
      · cases same
        exact queued accepts.1
      · exact ⟨_, by rw [runTask, if_pos queued]⟩

/-- What ends the loop of a callback with the status "complete". -/
theorem complete_iff {raised text : List Nat} {f : Forwarded} {taken : List Value} :
    callbackPayload repr raised f taken = ("complete", text) ↔ f.raised = false ∧
      ∃ item, told repr [] [] taken = (text, some item) ∧
        (item.get? (codes "done")).any Value.truthy = true := by
  unfold callbackPayload
  cases f.raised with
  | true => simp
  | false =>
    rw [if_neg Bool.false_ne_true, collect_told]
    obtain ⟨result, last⟩ := told repr [] [] taken
    cases last with
    | none => simp
    | some item =>
      cases done : (item.get? (codes "done")).any Value.truthy <;> simp [done]

theorem done_closing {taskId : Value} {e : StreamEvent} :
    ((closing repr taskId e).get? (codes "done")).any Value.truthy = true ↔
      e.event = "task_complete" := by
  unfold closing
  split
  · next complete => simp [doneItem, Value.get?, codes, Value.truthy, complete]
  · next other => simp [errorItem, Value.get?, codes, other]

theorem done_error (text : Value) :
    ((errorItem text).get? (codes "done")).any Value.truthy = false := by
  simp [errorItem, Value.get?, codes]

/-- Items of tokens and an error are not complete. -/
theorem not_complete {events : List StreamEvent} (usual : ∀ e ∈ events, e.Usual) {error : Value}
    {taken : List Value}
    (front : taken <+: events.filterMap StreamEvent.delta? ++ [errorItem error])
    {text : List Nat} {item : Value} (last : told repr [] [] taken = (text, some item)) :
    (item.get? (codes "done")).any Value.truthy = false := by
  rcases told_taken (ends_error [] error) usual front with ⟨-, whole⟩ | ⟨_, -, -, whole⟩
  · cases whole.symm.trans last
    exact done_error error
  · cases whole.symm.trans last

end

/-- A callback says "complete" exactly if the task was queued, its first terminal event is
`task_complete`, and all items were taken before five minutes without one; and then its
result is the text of the tokens up to there. -/
theorem callback_complete_iff (repr : Value → List Nat) (raised : List Nat)
    {events : List StreamEvent} (usual : ∀ e ∈ events, e.Usual) (r : Option SubmitReply)
    (ending : Ending) {taken : List Value}
    (front : taken <+: (runTask repr r events ending).items) (text : List Nat) :
    callbackPayload repr raised (runTask repr r events ending) taken = ("complete", text) ↔
      ∃ reply taskId before last rest, r = some reply ∧ reply.Accepts taskId ∧
        events = before ++ last :: rest ∧ (∀ e ∈ before, e.terminal = false) ∧
        last.event = "task_complete" ∧ taken = (runTask repr r events ending).items ∧
        text = answer before := by
  rw [complete_iff]
  constructor
  · rintro ⟨returned, item, last_item, done⟩
    rcases runTask_cases repr r events ending with
      ⟨reply, taskId, rfl, accepts, same⟩ | ⟨-, failed | ⟨error, same⟩⟩
    · cases first : events.find? StreamEvent.terminal with
      | none =>
        have running : ∀ e ∈ events, e.terminal = false := by
          simpa using List.find?_eq_none.mp first
        rw [same, forward_open usual running] at front
        cases ending with
        | closed =>
          have quiet : forward repr taskId .closed [] = ⟨[], false⟩ := rfl
          have whole : taken <+: events.filterMap StreamEvent.delta? ++ [errorItem .null] :=
            front.trans (by simp [quiet])
          exact absurd done (by simp [not_complete usual whole last_item])
        | httpError text => exact absurd done (by simp [not_complete usual front last_item])
      | some last =>
        obtain ⟨terminal, before, rest, rfl, running⟩ := List.find?_eq_some_iff_append.mp first
        have running : ∀ e ∈ before, e.terminal = false := by simpa using running
        have usual_before : ∀ e ∈ before, e.Usual := fun e he => usual e (by simp [he])
        rw [same, forward_split usual_before (usual last (by simp)) running terminal] at front ⊢
        rcases told_taken (ends_closing [] taskId last) usual_before front with
          ⟨all, whole⟩ | ⟨_, -, -, whole⟩
        · cases whole.symm.trans last_item
          have ended := done_closing.mp done
          have words : lastWords repr [] last = [] := by rw [lastWords, if_pos ended]
          exact ⟨reply, taskId, before, last, rest, rfl, accepts, rfl, running, ended, all,
            by rw [words, List.append_nil]⟩
        · cases whole.symm.trans last_item
    · rw [failed] at returned
      cases returned
    · rw [same] at front
      have none_usual : ∀ e ∈ ([] : List StreamEvent), e.Usual := by simp
      exact absurd done (by simp [not_complete none_usual front last_item])
  · rintro ⟨reply, taskId, before, last, rest, rfl, accepts, rfl, running, ended, all, rfl⟩
    have usual_before : ∀ e ∈ before, e.Usual := fun e he => usual e (by simp [he])
    have terminal : last.terminal = true := by simp [StreamEvent.terminal, ended]
    rw [runTask_accepted accepts,
      forward_split usual_before (usual last (by simp)) running terminal] at all ⊢
    refine ⟨rfl, closing repr taskId last, ?_, done_closing.mpr ended⟩
    have words : lastWords repr [] last = [] := by rw [lastWords, if_pos ended]
    rw [all, told_deltas (plain_deltas usual_before), told, ends_closing, words, List.append_nil]
    rfl

theorem hello_complete : ∃ events taken,
    callbackPayload sampleRepr [] (runTask sampleRepr (some sampleSubmit) events .closed) taken =
      ("complete", codes "Hi") := by
  let events := [hello.received, (sampleRow "").complete.received]
  have usual : ∀ e ∈ events, e.Usual := by
    refine List.forall_mem_cons.mpr ⟨?_, List.forall_mem_singleton.mpr (usual_terminal rfl)⟩
    exact usual_sent hello_plain hello.received (List.mem_singleton.mpr rfl)
  have complete := callback_complete_iff sampleRepr [] usual (some sampleSubmit) .closed
    (List.prefix_refl _) (codes "Hi")
  refine ⟨_, _, complete.mpr ⟨_, _, [hello.received], _, [], rfl, sampleSubmit_accepts, rfl,
    hello_running, rfl, rfl, ?_⟩⟩
  decide

end LegionForge.Connectors
