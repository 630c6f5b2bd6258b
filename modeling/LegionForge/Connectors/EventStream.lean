import LegionForge.Lib.JsonRound
import LegionForge.Lib.Lines
import LegionForge.Security.Sanitize

/-!
# The event stream of a task, between the gateway and a connector

The gateway writes its events as JSON into frames of lines, with comments in between that
keep the connection alive. A connector reads lines off the connection, which can break
anywhere. It gets the events back as they were sent: none that was not sent, none out of
order, and none missing whose frame has arrived (`consumed_between`).
-/

namespace LegionForge.Connectors

open JsonRead (Value loads valueOf codes)
open JsonText (Json render)
open Security TextLines

/-- An event as the gateway sends it: its name in visible ASCII, its `data` an object. -/
structure SentEvent where
  event : String
  data : List (String × Json)
  value : Value
  visible : ∀ c ∈ event.toList, 33 ≤ c.toNat ∧ c.toNat ≤ 126
  means : valueOf (.obj data) = some value

/-- What the response is made of. -/
inductive ServerMessage where
  | event (e : SentEvent)
  /-- The comment that `EventSourceResponse` sends every fifteen seconds. -/
  | ping (comment : List Char) (plain : Plain comment)

/-- What a connector takes from a frame. -/
structure StreamEvent where
  event : String
  data : Value

structure SseEnv where
  unicode : Unicode
  /-- `ServerSentEvent.encode` of an event and its data -/
  encode : String → List Char → List Char
  /-- `ServerSentEvent.encode` of a comment -/
  encodeComment : List Char → List Char
  /-- `Response.aiter_lines` -/
  aiterLines : List Char → List (List Char)

/-- The documented behaviour of what is used: a frame of lines ends with a blank one, and
the reader splits where `str.splitlines` does. -/
structure SseEnv.Documented (env : SseEnv) : Prop where
  space : ∀ c : Char, c.toNat < 128 → env.unicode.space c = Unicode.ascii.space c
  encode : ∀ event data, Plain event.toList → Plain data →
    env.encode event data = wire ["event: ".toList ++ event.toList, "data: ".toList ++ data, []]
  comment : ∀ comment, Plain comment →
    env.encodeComment comment = wire [": ".toList ++ comment, []]
  aiterLines : ∀ text, env.aiterLines text = splitLines text

/-- The variables of the loop -/
structure SseState where
  eventType : String
  dataLines : List (List Char)

def SseState.start : SseState := ⟨"message", []⟩

section
variable (env : SseEnv)

def SseEnv.strip (text : List Char) : List Char := (env.unicode.strip (String.ofList text)).toList

/-- `json.loads(raw) if raw else {}` -/
def readData (raw : List Char) : Value :=
  if raw = [] then .obj []
  else
    match loads raw with
    | some v => v
    | none => .obj [(codes "raw", .str (raw.map Char.toNat))]

def SseState.close (s : SseState) : List StreamEvent :=
  if s.dataLines = [] then []
  else [⟨s.eventType, readData (List.intercalate [' '] s.dataLines)⟩]

/-- `_consume_sse` -/
def SseEnv.consumeSse : SseState → List (List Char) → List StreamEvent
  | _, [] => []
  | s, line :: lines =>
    if "event:".toList.isPrefixOf line then
      consumeSse { s with eventType := String.ofList (env.strip (line.drop "event:".length)) } lines
    else if "data:".toList.isPrefixOf line then
      consumeSse { s with dataLines := s.dataLines ++ [env.strip (line.drop "data:".length)] } lines
    else if line = [] then s.close ++ consumeSse .start lines
    else consumeSse s lines

/-! ## The gateway's side -/

/-- A column of a row as JSON -/
structure Column where
  json : Json
  value : Value
  means : valueOf json = some value

/-- What `event_generator` reads of the row of its task. -/
structure StreamedRow where
  taskId : String
  status : String
  result : Column
  tokens : Column
  error : Column

def StreamedRow.complete (row : StreamedRow) : SentEvent where
  event := "task_complete"
  data := [("task_id", .str row.taskId), ("status", .str "complete"),
    ("result_url", .str ("/tasks/" ++ row.taskId)), ("result", row.result.json),
    ("tokens", row.tokens.json)]
  value := .obj [(codes "task_id", .str (codes row.taskId)),
    (codes "status", .str (codes "complete")),
    (codes "result_url", .str (codes ("/tasks/" ++ row.taskId))),
    (codes "result", row.result.value), (codes "tokens", row.tokens.value)]
  visible := by decide
  means := by simp [valueOf, JsonRead.membersOf, row.result.means, row.tokens.means]

def StreamedRow.failed (row : StreamedRow) : SentEvent where
  event := "task_error"
  data := [("task_id", .str row.taskId), ("status", .str "failed"), ("error", row.error.json)]
  value := .obj [(codes "task_id", .str (codes row.taskId)),
    (codes "status", .str (codes "failed")),
    (codes "error", row.error.value)]
  visible := by decide
  means := by simp [valueOf, JsonRead.membersOf, row.error.means]

def StreamedRow.cancelled (row : StreamedRow) : SentEvent where
  event := "task_cancelled"
  data := [("task_id", .str row.taskId), ("status", .str "cancelled")]
  value := .obj [(codes "task_id", .str (codes row.taskId)),
    (codes "status", .str (codes "cancelled"))]
  visible := by decide
  means := by simp [valueOf, JsonRead.membersOf]

/-- `event_generator`; `live` is what the subscription yields while the client is there. -/
def eventGenerator (row : StreamedRow) (live : List SentEvent) : List SentEvent :=
  if row.status = "complete" then [row.complete]
  else if row.status = "failed" then [row.failed]
  else if row.status = "cancelled" then [row.cancelled]
  else live

def ServerMessage.text : ServerMessage → List Char
  | .event e => env.encode e.event (render (.obj e.data))
  | .ping comment _ => env.encodeComment comment

/-- The body of the response -/
def SseEnv.body (messages : List ServerMessage) : List Char := messages.flatMap (·.text env)

def SentEvent.received (e : SentEvent) : StreamEvent := ⟨e.event, e.value⟩

def ServerMessage.event? : ServerMessage → Option StreamEvent
  | .event e => some e.received
  | .ping _ _ => none

def eventsOf (messages : List ServerMessage) : List StreamEvent :=
  messages.filterMap ServerMessage.event?

def ServerMessage.lines : ServerMessage → List (List Char)
  | .event e => ["event: ".toList ++ e.event.toList, "data: ".toList ++ render (.obj e.data)]
  | .ping comment _ => [": ".toList ++ comment]

end

/-! ## Lines -/

theorem isBreak_visible {c : Char} (low : 32 ≤ c.toNat) (high : c.toNat ≤ 126) :
    isBreak c = false := by
  rw [Bool.eq_false_iff]
  intro broken
  simp only [isBreak, Bool.or_eq_true, decide_eq_true_eq] at broken
  rcases broken with ((((((((rfl | rfl) | rfl) | rfl) | rfl) | rfl) | rfl) | rfl) | rfl) | rfl <;>
    revert low high <;> decide

theorem plain_event (e : SentEvent) : Plain e.event.toList := fun c hc =>
  isBreak_visible (by have := (e.visible c hc).1; omega) (e.visible c hc).2

theorem plain_render (j : Json) : Plain (render j) := fun c hc => by
  have printed := JsonRead.printable_render j c hc
  simp only [JsonRead.printable, Bool.and_eq_true, decide_eq_true_eq] at printed
  exact isBreak_visible printed.1 printed.2

theorem plain_append {l r : List Char} (left : Plain l) (right : Plain r) : Plain (l ++ r) :=
  fun c hc => (List.mem_append.mp hc).elim (left c) (right c)

section
variable {env : SseEnv}

theorem message_lines (m : ServerMessage) : ∀ l ∈ m.lines, Plain l ∧ l ≠ [] := by
  cases m with
  | event e =>
    refine List.forall_mem_cons.mpr ⟨⟨plain_append (by decide) (plain_event e), by simp⟩, ?_⟩
    exact List.forall_mem_singleton.mpr ⟨plain_append (by decide) (plain_render _), by simp⟩
  | ping comment plain =>
    exact List.forall_mem_singleton.mpr ⟨plain_append (by decide) plain, by simp⟩

theorem message_text (doc : env.Documented) (m : ServerMessage) :
    m.text env = wire (m.lines ++ [[]]) := by
  cases m with
  | event e => exact doc.encode e.event _ (plain_event e) (plain_render _)
  | ping comment plain => exact doc.comment comment plain

def linesOf (messages : List ServerMessage) : List (List Char) :=
  messages.flatMap (·.lines ++ [[]])

theorem body_eq_wire (doc : env.Documented) (messages : List ServerMessage) :
    env.body messages = wire (linesOf messages) := by
  induction messages with
  | nil => rfl
  | cons m messages ih =>
    have front : env.body (m :: messages) = m.text env ++ env.body messages := rfl
    have lines : linesOf (m :: messages) = (m.lines ++ [[]]) ++ linesOf messages := rfl
    rw [front, lines, wire_append, message_text doc, ih]

theorem plain_linesOf (messages : List ServerMessage) : ∀ l ∈ linesOf messages, Plain l := by
  intro l hl
  obtain ⟨m, -, hl⟩ := List.mem_flatMap.mp hl
  rcases List.mem_append.mp hl with line | blank
  · exact (message_lines m l line).1
  · rw [List.mem_singleton.mp blank]
    exact fun c hc => absurd hc List.not_mem_nil

/-! ## A frame -/

theorem space_ascii (doc : env.Documented) : env.unicode.space ' ' = true :=
  doc.space ' ' (by decide)

theorem space_visible (doc : env.Documented) {c : Char} (low : 33 ≤ c.toNat)
    (high : c.toNat ≤ 126) : env.unicode.space c = false := by
  rw [doc.space c (by omega), Bool.eq_false_iff]
  intro white
  have mem : c ∈ " \t\n\r\x0b\x0c\x1c\x1d\x1e\x1f".toList := by simpa [Unicode.ascii] using white
  have small : (" \t\n\r\x0b\x0c\x1c\x1d\x1e\x1f".toList.all fun d => d.toNat ≤ 32) = true := by
    decide
  have below := of_decide_eq_true (List.all_eq_true.mp small c mem)
  omega

/-- The space behind the colon goes. -/
theorem strip_space (doc : env.Documented) {text : List Char}
    (first : ∀ c ∈ text.head?, env.unicode.space c = false)
    (last : ∀ c ∈ text.getLast?, env.unicode.space c = false) :
    env.strip (' ' :: text) = text := by
  have left : (' ' :: text).dropWhile env.unicode.space = text := by
    rw [List.dropWhile_cons_of_pos (space_ascii doc)]
    cases text with
    | nil => rfl
    | cons c text => rw [List.dropWhile_cons_of_neg (by simp [first c rfl])]
  have right : text.reverse.dropWhile env.unicode.space = text.reverse := by
    cases reversed : text.reverse with
    | nil => rfl
    | cons c rest =>
      have at_end : text.getLast? = some c := by
        rw [← List.head?_reverse, reversed]
        rfl
      rw [List.dropWhile_cons_of_neg (by simp [last c at_end])]
  simp [SseEnv.strip, Unicode.strip, left, right]

theorem strip_event (doc : env.Documented) (e : SentEvent) :
    env.strip (' ' :: e.event.toList) = e.event.toList :=
  strip_space doc
    (fun c hc => by
      obtain ⟨low, high⟩ := e.visible c (List.mem_of_mem_head? hc)
      exact space_visible doc low high)
    (fun c hc => by
      obtain ⟨low, high⟩ := e.visible c (List.mem_of_getLast? hc)
      exact space_visible doc low high)

theorem strip_data (doc : env.Documented) (data : List (String × Json)) :
    env.strip (' ' :: render (.obj data)) = render (.obj data) := by
  obtain ⟨l, braces⟩ := JsonRead.render_obj data
  rw [braces]
  refine strip_space doc (fun c hc => ?_) (fun c hc => ?_)
  · cases hc
    exact space_visible doc (by decide) (by decide)
  · rw [← List.cons_append, List.getLast?_concat] at hc
    cases hc
    exact space_visible doc (by decide) (by decide)

theorem readData_render (e : SentEvent) : readData (render (.obj e.data)) = e.value := by
  obtain ⟨l, braces⟩ := JsonRead.render_obj e.data
  rw [readData, if_neg (by simp [braces]), JsonRead.loads_render e.means]

/-- A frame is read for its event, and the loop stands where it began. -/
theorem consume_message (doc : env.Documented) (m : ServerMessage) (rest : List (List Char)) :
    env.consumeSse .start (m.lines ++ [[]] ++ rest) =
      m.event?.toList ++ env.consumeSse .start rest := by
  cases m with
  | event e =>
    have name : env.strip (("event: ".toList ++ e.event.toList).drop "event:".length) =
        e.event.toList := strip_event doc e
    have data : env.strip (("data: ".toList ++ render (.obj e.data)).drop "data:".length) =
        render (.obj e.data) := strip_data doc e.data
    have first : "event:".toList.isPrefixOf ("event: ".toList ++ e.event.toList) = true := rfl
    have second : "data:".toList.isPrefixOf ("data: ".toList ++ render (.obj e.data)) = true := rfl
    have other : "event:".toList.isPrefixOf ("data: ".toList ++ render (.obj e.data)) = false := rfl
    simp only [ServerMessage.lines, List.cons_append, List.nil_append]
    rw [SseEnv.consumeSse, if_pos first, name, SseEnv.consumeSse, other, if_neg (by simp),
      if_pos second, data, SseEnv.consumeSse, if_neg (by simp), if_neg (by simp), if_pos rfl]
    simp [SseState.close, SseState.start, readData_render, ServerMessage.event?,
      SentEvent.received]
  | ping comment =>
    simp only [ServerMessage.lines, List.cons_append, List.nil_append]
    rw [SseEnv.consumeSse, if_neg (by simp), if_neg (by simp), if_neg (by simp),
      SseEnv.consumeSse, if_neg (by simp), if_neg (by simp), if_pos rfl]
    rfl

theorem consume_linesOf (doc : env.Documented) (messages : List ServerMessage)
    (rest : List (List Char)) :
    env.consumeSse .start (linesOf messages ++ rest) =
      eventsOf messages ++ env.consumeSse .start rest := by
  induction messages with
  | nil => rfl
  | cons m messages ih =>
    have lines : linesOf (m :: messages) ++ rest =
        m.lines ++ [[]] ++ (linesOf messages ++ rest) := by simp [linesOf]
    rw [lines, consume_message doc, ih, ← List.append_assoc]
    cases m <;> rfl

/-! ## What is cut off -/

/-- Nothing is given without a blank line. -/
theorem consume_open {lines : List (List Char)} (filled : ∀ l ∈ lines, l ≠ []) (s : SseState) :
    env.consumeSse s lines = [] := by
  induction lines generalizing s with
  | nil => rfl
  | cons l lines ih =>
    have more := fun l hl => filled l (List.mem_cons_of_mem _ hl)
    rw [SseEnv.consumeSse]
    split
    · exact ih more _
    · split
      · exact ih more _
      · rw [if_neg (filled l List.mem_cons_self)]
        exact ih more _

theorem consume_piece {piece : List Char} (filled : piece ≠ []) (lines : List (List Char))
    (s : SseState) : env.consumeSse s (lines ++ [piece]) = env.consumeSse s lines := by
  induction lines generalizing s with
  | nil => exact consume_open (List.forall_mem_singleton.mpr filled) s
  | cons l lines ih =>
    rw [List.cons_append, SseEnv.consumeSse, SseEnv.consumeSse]
    simp only [ih]

theorem consume_front (doc : env.Documented) {messages : List ServerMessage}
    {front : List (List Char)} (part : front <+: linesOf messages) :
    env.consumeSse .start front <+: eventsOf messages := by
  induction messages generalizing front with
  | nil =>
    obtain rfl : front = [] := List.prefix_nil.mp part
    exact List.nil_prefix
  | cons m messages ih =>
    have events : eventsOf (m :: messages) = m.event?.toList ++ eventsOf messages := by
      cases m <;> rfl
    rw [events]
    have lines : linesOf (m :: messages) = (m.lines ++ [[]]) ++ linesOf messages := rfl
    rw [lines] at part
    rcases prefix_of_append part with within | ⟨more, rfl, behind⟩
    · rcases List.prefix_concat_iff.mp within with rfl | open_
      · have whole := consume_message doc m []
        rw [List.append_nil] at whole
        rw [whole]
        exact ⟨eventsOf messages, by simp [SseEnv.consumeSse]⟩
      · rw [consume_open fun l hl => (message_lines m l (open_.subset hl)).2]
        exact List.nil_prefix
    · rw [consume_message doc]
      exact (List.prefix_append_right_inj _).mpr (ih behind)

/-- What has arrived in whole frames is read. -/
theorem consume_arrived (doc : env.Documented) (front : List ServerMessage) (rest : List Char) :
    env.consumeSse .start (env.aiterLines (env.body front ++ rest)) =
      eventsOf front ++ env.consumeSse .start (splitLines rest) := by
  rw [doc.aiterLines, body_eq_wire doc, splitLines_wire (plain_linesOf front), consume_linesOf doc]

end

/-- Wherever the connection breaks, the events that come out are the first of those that
were sent, and at least those whose frames have arrived. -/
theorem consumed_between (env : SseEnv) (doc : env.Documented) (sent : List ServerMessage)
    {received : List Char} (cut : received <+: env.body sent) :
    env.consumeSse .start (env.aiterLines received) <+: eventsOf sent ∧
      ∀ front, env.body front <+: received →
        eventsOf front <+: env.consumeSse .start (env.aiterLines received) := by
  refine ⟨?_, ?_⟩
  · rw [body_eq_wire doc] at cut
    rw [doc.aiterLines]
    obtain ⟨front, part, whole | ⟨piece, filled, whole⟩⟩ := splitLines_cut (plain_linesOf sent) cut
    · rw [whole]
      exact consume_front doc part
    · rw [whole, consume_piece filled]
      exact consume_front doc part
  · rintro front ⟨rest, rfl⟩
    rw [consume_arrived doc]
    exact List.prefix_append _ _

/-! ## A short stream -/

def sampleSse : SseEnv where
  unicode := .ascii
  encode event data := wire ["event: ".toList ++ event.toList, "data: ".toList ++ data, []]
  encodeComment comment := wire [": ".toList ++ comment, []]
  aiterLines := splitLines

theorem sampleSse_documented : sampleSse.Documented :=
  ⟨fun _ _ => rfl, fun _ _ _ _ => rfl, fun _ _ => rfl, fun _ => rfl⟩

def hello : SentEvent where
  event := "token"
  data := [("delta", .str "Hi")]
  value := .obj [(codes "delta", .str (codes "Hi"))]
  visible := by decide
  means := by simp [valueOf, JsonRead.membersOf]

/-- The connection breaks in the frame of the second token. -/
theorem hello_between : ∃ received,
    [hello.received] <+: sampleSse.consumeSse .start (sampleSse.aiterLines received) ∧
      sampleSse.consumeSse .start (sampleSse.aiterLines received) <+:
        [hello.received, hello.received] := by
  have sent : sampleSse.body [.ping "ping".toList (by decide), .event hello] ++
      "event: to".toList <+:
      sampleSse.body [.ping "ping".toList (by decide), .event hello, .event hello] := by
    decide +kernel
  have between := consumed_between sampleSse sampleSse_documented _ sent
  exact ⟨_, between.2 [.ping "ping".toList (by decide), .event hello] (List.prefix_append _ _),
    between.1⟩

end LegionForge.Connectors
