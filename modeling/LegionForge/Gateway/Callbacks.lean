import LegionForge.Connectors.Inbound
import LegionForge.Gateway.Events
import LegionForge.Gateway.TaskExport
import LegionForge.Lib.Grants
import LegionForge.Lib.Retry
import LegionForge.Lib.Table

/-!
# Callbacks and webhooks

Where a task ends the worker calls back: the address that came with the task, and every
webhook that its user has registered for the event. Each callback is a task of its own that
nobody waits for, and that tries again while the answer is an error of the server. The webhooks
are looked up by another such task, so they are those of that moment, not of the end.

A header of the request is the id of the task, which the worker has as a `uuid.UUID`. The
client library takes texts only and raises before it sends anything, so every try fails and
nothing is posted.

`called_iff` says which webhooks are called for an end, `never_posted` what is tried for whom,
how often and how far apart.
-/

namespace LegionForge.Gateway

open Connectors Security
open JsonText (Json)

/-! ## The registry -/

/-- `VALID_WEBHOOK_EVENTS` -/
inductive WebhookEvent where
  | taskComplete
  | taskFailed
  | all
  deriving DecidableEq

namespace WebhookEvent

def name : WebhookEvent → String
  | .taskComplete => "task_complete"
  | .taskFailed => "task_failed"
  | .all => "all"

def named (text : String) : Option WebhookEvent :=
  [taskComplete, taskFailed, all].find? (·.name = text)

end WebhookEvent

/-- What a user is shown of a webhook. -/
structure WebhookView where
  webhookId : String
  userId : String
  url : String
  events : List WebhookEvent
  isActive : Bool
  createdAt : Nat
  deriving DecidableEq

/-- A row of `webhooks` -/
structure Webhook extends WebhookView where
  secret : Option String
  deriving DecidableEq

abbrev WebhookTable := Table fun w : Webhook => w.webhookId

/-- The body of a registration; the address as the framework writes it. -/
structure WebhookCreate where
  url : String
  events : List String := ["task_complete", "task_failed"]
  secret : Option String := none

/-- `get_user_webhooks_for_event` -/
def Webhook.wants (userId : String) (event : WebhookEvent) (w : Webhook) : Bool :=
  w.userId = userId && w.isActive && (w.events.contains event || w.events.contains .all)

/-- `list_webhooks` -/
def listWebhooks (webhooks : WebhookTable) (userId : String) : List WebhookView :=
  ((webhooks.rows.filter (·.userId = userId)).map (·.toWebhookView)).mergeSort
    fun a b => decide (b.createdAt ≤ a.createdAt)

/-! ## A callback -/

inductive TaskOutcome where
  | complete (result : String)
  | failed (error : String)
  deriving DecidableEq

def TaskOutcome.event : TaskOutcome → WebhookEvent
  | .complete _ => .taskComplete
  | .failed _ => .taskFailed

/-- `_complete_payload`, `_failed_payload` -/
structure CallbackPayload where
  /-- Of the row of the task, and so a `uuid.UUID`; `json.dumps` writes its text. -/
  taskId : String
  outcome : TaskOutcome
  agentType : String
  completedAt : String
  deriving DecidableEq

def CallbackPayload.json (p : CallbackPayload) : Json :=
  let (status, result, error) := match p.outcome with
    | .complete result => ("complete", Json.str result, Json.null)
    | .failed error => ("failed", Json.null, Json.str error)
  .obj [("task_id", .str p.taskId), ("status", .str status), ("result", result), ("error", error),
    ("agent_type", .str p.agentType), ("completed_at", .str p.completedAt)]

/-- What `send_callback` is called with. -/
structure Callback where
  /-- A `uuid.UUID` -/
  taskId : String
  callbackUrl : String
  payload : CallbackPayload
  deriving DecidableEq

structure CallbackRequest where
  url : String
  body : List UInt8
  headers : List (String × UuidOrStr)
  deriving DecidableEq

/-- The library encodes headers that are texts. -/
def CallbackRequest.encodes (r : CallbackRequest) : Bool :=
  r.headers.all fun h =>
    match h.2 with
    | .str _ => true
    | .uuid _ => false

structure CallbackEnv where
  url : UrlEnv
  /-- `hmac.new(secret.encode(), body, hashlib.sha256).hexdigest()` -/
  hmacSha256 : String → List UInt8 → String

/-- `_get_hmac_secret`, of the environment variable and the store of credentials -/
def getHmacSecret (environ stored : Option String) : Option String :=
  ((environ.filter (· ≠ "")).or stored).filter (· ≠ "")

def CallbackEnv.signBody (env : CallbackEnv) (body : List UInt8) (secret : String) : String :=
  "sha256=" ++ env.hmacSha256 secret body

/-- `_is_valid_url` -/
def CallbackEnv.isValidUrl (env : CallbackEnv) (url : String) : Bool :=
  (urlparse env.url url.toList).any fun parsed =>
    ["http", "https"].any (·.toList = parsed.scheme) && parsed.netloc ≠ []

/-- What is to be posted, with the secret that was found -/
def CallbackEnv.request (env : CallbackEnv) (c : Callback) (secret : Option String) :
    CallbackRequest :=
  let body := (String.ofList (JsonText.render c.payload.json)).toUTF8.data.toList
  { url := c.callbackUrl
    body
    headers :=
      [("Content-Type", .str "application/json"), ("X-LegionForge-Task-ID", .uuid c.taskId)] ++
        secret.toList.map fun s => ("X-LegionForge-Signature-256", .str (env.signBody body s)) }

theorem request_encodes (env : CallbackEnv) (c : Callback) (secret : Option String) :
    (env.request c secret).encodes = false := by
  simp [CallbackRequest.encodes, CallbackEnv.request]

/-- In microseconds -/
def callbackSecond : Nat := 1000000

/-- `_MAX_RETRIES`, `_BACKOFF_BASE`; an exception is no status. -/
def callbackPolicy : Retry.Policy (Option Nat) where
  limit := 3
  wait attempt := 2 ^ attempt * callbackSecond
  failed status := !status.any (· < 500)

/-- A `send_callback` that has not returned -/
structure Delivery where
  callback : Callback
  /-- What it posts, once it has begun -/
  request : Option CallbackRequest
  phase : Retry.Phase

/-- A `_fire_user_webhooks` that has not looked yet -/
structure WebhookLookup where
  userId : Option String
  payload : CallbackPayload

/-! ## The system -/

/-- The tasks of the event loop have numbers, which go up. -/
structure CallbackState where
  now : Nat
  made : Nat
  webhooks : WebhookTable
  lookups : Nat → Option WebhookLookup
  deliveries : Nat → Option Delivery

def CallbackState.empty : CallbackState := ⟨0, 0, .empty, fun _ => none, fun _ => none⟩

inductive CallbackAction where
  | elapse (dt : Nat)
  /-- `register_webhook`, with the id that the database makes -/
  | register (userId webhookId : String) (body : WebhookCreate)
  | remove (userId webhookId : String)
  | list (userId : String)
  /-- A run of a task completes or fails. -/
  | taskEnded (userId callbackUrl : Option String) (payload : CallbackPayload)
  /-- The lookup with this number has its answer, or none. -/
  | lookUp (id : Nat) (answered : Bool)
  /-- The delivery with this number goes on; the secret is only read where it begins. -/
  | send (id : Nat) (environ stored : Option String)
  /-- Its request is answered with a status, or raises. -/
  | answer (id : Nat) (status : Option Nat)
  /-- A task of the event loop is gone. -/
  | lost (id : Nat)

inductive CallbackLabel where
  | quiet
  | raised
  | refused (status : Nat) (detail : String)
  | registered (w : WebhookView)
  | removed
  | listed (webhooks : List WebhookView)
  /-- The callbacks that are begun, with their numbers, and the number of the lookup -/
  | called (calls : List (Callback × Nat)) (lookup : Option Nat)
  | posted (request : CallbackRequest)
  /-- The library raises, and nothing is sent. -/
  | unsent (request : CallbackRequest)
  deriving DecidableEq

/-- `asyncio.create_task` for each -/
def CallbackState.create (s : CallbackState) (calls : List Callback) : CallbackState :=
  { s with
    made := s.made + calls.length
    deliveries := fun i =>
      if i < s.made then s.deliveries i
      else (calls[i - s.made]?).map fun c => ⟨c, none, .ready⟩ }

def CallbackState.setDelivery (s : CallbackState) (id : Nat) (d : Option Delivery) :
    CallbackState :=
  { s with deliveries := Function.update s.deliveries id d }

/-- Behind a try: the delivery waits for the next one, or is done. -/
def CallbackState.tried (s : CallbackState) (id : Nat) (d : Delivery) (number : Nat)
    (status : Option Nat) : CallbackState :=
  match Retry.Phase.behind callbackPolicy s.now number status with
  | .done => s.setDelivery id none
  | phase => s.setDelivery id (some { d with phase })

section
variable (env : CallbackEnv) (repr : String → String) (s : CallbackState)

def registerWebhook (userId webhookId : String) (body : WebhookCreate) :
    CallbackState × CallbackLabel :=
  match body.events.filter fun e => (WebhookEvent.named e).isNone with
  | [] =>
    let view : WebhookView :=
      ⟨webhookId, userId, body.url, body.events.filterMap WebhookEvent.named, true, s.now⟩
    match s.webhooks.insert ⟨view, body.secret⟩ with
    | none => (s, .raised)
    | some webhooks => ({ s with webhooks }, .registered view)
  | invalid => (s, .refused 400 ("Invalid event type(s): [" ++
      ", ".intercalate (invalid.map repr) ++ "]. Must be one of " ++
      listText ["all", "task_complete", "task_failed"]))

/-- `delete_webhook` and its route -/
def removeWebhook (userId webhookId : String) : CallbackState × CallbackLabel :=
  if (s.webhooks.get webhookId).any (·.userId = userId) then
    ({ s with
        webhooks := s.webhooks.discard fun w => w.webhookId = webhookId && w.userId = userId },
      .removed)
  else (s, .refused 404 ("Webhook " ++ repr webhookId ++ " not found"))

/-- The end of `run_task` -/
def endTask (userId callbackUrl : Option String) (payload : CallbackPayload) :
    CallbackState × CallbackLabel :=
  let calls := (callbackUrl.filter (· ≠ "")).toList.map fun url => ⟨payload.taskId, url, payload⟩
  let s' := s.create calls
  ({ s' with
      made := s'.made + 1
      lookups := Function.update s.lookups s'.made (some ⟨userId, payload⟩) },
    .called (calls.zipIdx s.made) (some s'.made))

/-- `_fire_user_webhooks` -/
def fireUserWebhooks (l : WebhookLookup) : List Callback :=
  match l.userId.filter (· ≠ "") with
  | none => []
  | some userId =>
    (s.webhooks.rows.filter (·.wants userId l.payload.outcome.event)).map fun w =>
      ⟨l.payload.taskId, w.url, l.payload⟩

/-- The next try of a delivery, or its end -/
def sendDelivery (id : Nat) (d : Delivery) (environ stored : Option String) :
    Option (CallbackState × CallbackLabel) :=
  if d.request.isNone && !env.isValidUrl d.callback.callbackUrl then
    some (s.setDelivery id none, .quiet)
  else
    (d.phase.next callbackPolicy s.now).map fun number =>
      let request := d.request.getD (env.request d.callback (getHmacSecret environ stored))
      if request.encodes then
        (s.setDelivery id (some { d with request := some request, phase := .sent number }),
          .posted request)
      -- inside of the `try`, as an error of the network would be
      else (s.tried id { d with request := some request } number none, .unsent request)

def answerDelivery (id : Nat) (d : Delivery) (status : Option Nat) :
    Option (CallbackState × CallbackLabel) :=
  match d.phase with
  | .sent number => some (s.tried id d number status, .quiet)
  | _ => none

def callbackStep : CallbackAction → Option (CallbackState × CallbackLabel)
  | .elapse dt => some ({ s with now := s.now + dt }, .quiet)
  | .register userId webhookId body => some (registerWebhook repr s userId webhookId body)
  | .remove userId webhookId => some (removeWebhook repr s userId webhookId)
  | .list userId => some (s, .listed (listWebhooks s.webhooks userId))
  | .taskEnded userId callbackUrl payload => some (endTask s userId callbackUrl payload)
  | .lookUp id answered =>
    (s.lookups id).map fun l =>
      let calls := if answered then fireUserWebhooks s l else []
      ({ s.create calls with lookups := Function.update s.lookups id none },
        .called (calls.zipIdx s.made) none)
  | .send id environ stored =>
    (s.deliveries id).bind fun d => sendDelivery env s id d environ stored
  | .answer id status => (s.deliveries id).bind fun d => answerDelivery s id d status
  | .lost id =>
    some ({ s.setDelivery id none with lookups := Function.update s.lookups id none }, .quiet)

end

def callbacks (env : CallbackEnv) (repr : String → String) :
    Machine CallbackState CallbackAction CallbackLabel where
  step s a := callbackStep env repr s a

abbrev CallbackStep := Machine.Entry CallbackState CallbackAction CallbackLabel

/-- What a step does. -/
inductive CallbackMove (env : CallbackEnv) (s : CallbackState) :
    CallbackAction → CallbackState → CallbackLabel → Prop
  | elapsed {dt : Nat} : CallbackMove env s (.elapse dt) { s with now := s.now + dt } .quiet
  | registered {userId webhookId : String} {body : WebhookCreate} {w : Webhook}
      {webhooks : WebhookTable} (insert : s.webhooks.insert w = some webhooks)
      (active : w.isActive = true) :
      CallbackMove env s (.register userId webhookId body) { s with webhooks }
        (.registered w.toWebhookView)
  | taken {userId webhookId : String} {body : WebhookCreate} :
      CallbackMove env s (.register userId webhookId body) s .raised
  | invalid {userId webhookId detail : String} {body : WebhookCreate} :
      CallbackMove env s (.register userId webhookId body) s (.refused 400 detail)
  | removed {userId webhookId : String} :
      CallbackMove env s (.remove userId webhookId)
        { s with
          webhooks := s.webhooks.discard fun w => w.webhookId = webhookId && w.userId = userId }
        .removed
  | notRemoved {userId webhookId detail : String}
      (other : (s.webhooks.get webhookId).any (·.userId = userId) = false) :
      CallbackMove env s (.remove userId webhookId) s (.refused 404 detail)
  | listed {userId : String} :
      CallbackMove env s (.list userId) s (.listed (listWebhooks s.webhooks userId))
  | ended {userId callbackUrl : Option String} {payload : CallbackPayload} :
      CallbackMove env s (.taskEnded userId callbackUrl payload)
        (endTask s userId callbackUrl payload).1 (endTask s userId callbackUrl payload).2
  | looked {id : Nat} {b : Bool} {l : WebhookLookup} {calls : List Callback}
      (found : s.lookups id = some l) (called : calls = if b then fireUserWebhooks s l else []) :
      CallbackMove env s (.lookUp id b)
        { s.create calls with lookups := Function.update s.lookups id none }
        (.called (calls.zipIdx s.made) none)
  | skipped {id : Nat} {environ stored : Option String} :
      CallbackMove env s (.send id environ stored) (s.setDelivery id none) .quiet
  | posted {id number : Nat} {environ stored : Option String} {d : Delivery}
      {request : CallbackRequest} (found : s.deliveries id = some d)
      (valid : d.request = none → env.isValidUrl d.callback.callbackUrl = true)
      (next : d.phase.next callbackPolicy s.now = some number)
      (built :
        request = d.request.getD (env.request d.callback (getHmacSecret environ stored)))
      (encodes : request.encodes = true) :
      CallbackMove env s (.send id environ stored)
        (s.setDelivery id (some { d with request := some request, phase := .sent number }))
        (.posted request)
  | unsent {id number : Nat} {environ stored : Option String} {d : Delivery}
      {request : CallbackRequest} {left : Option Delivery} (found : s.deliveries id = some d)
      (valid : d.request = none → env.isValidUrl d.callback.callbackUrl = true)
      (next : d.phase.next callbackPolicy s.now = some number)
      (built :
        request = d.request.getD (env.request d.callback (getHmacSecret environ stored)))
      (stays : ∀ d', left = some d' →
        d' = ⟨d.callback, some request, .behind callbackPolicy s.now number none⟩) :
      CallbackMove env s (.send id environ stored) (s.setDelivery id left) (.unsent request)
  | answered {id number : Nat} {status : Option Nat} {d : Delivery} {left : Option Delivery}
      (found : s.deliveries id = some d) (sent : d.phase = .sent number)
      (stays : ∀ d', left = some d' →
        d' = { d with phase := .behind callbackPolicy s.now number status }) :
      CallbackMove env s (.answer id status) (s.setDelivery id left) .quiet
  | lost {id : Nat} :
      CallbackMove env s (.lost id)
        { s.setDelivery id none with lookups := Function.update s.lookups id none } .quiet

theorem tried_spec (s : CallbackState) (id : Nat) (d : Delivery) (number : Nat)
    (status : Option Nat) : ∃ left, s.tried id d number status = s.setDelivery id left ∧
      ∀ d', left = some d' →
        d' = { d with phase := .behind callbackPolicy s.now number status } := by
  unfold CallbackState.tried
  split
  · exact ⟨none, rfl, nofun⟩
  · exact ⟨_, rfl, fun d' same => (Option.some.inj same).symm⟩

theorem callback_moves {env : CallbackEnv} {repr : String → String} {x : CallbackStep}
    (h : (callbacks env repr).Steps x) : CallbackMove env x.before x.input x.after x.label := by
  obtain ⟨s, a, label, s'⟩ := x
  have h : callbackStep env repr s a = some (s', label) := h
  cases a with
  | elapse dt =>
    cases h
    exact .elapsed
  | register userId webhookId body =>
    have h := Option.some.inj h
    unfold registerWebhook at h
    split at h
    · dsimp only at h
      split at h
      · cases h
        exact .taken
      · next webhooks insert =>
        cases h
        exact CallbackMove.registered (w := ⟨_, body.secret⟩) insert rfl
    · cases h
      exact .invalid
  | remove userId webhookId =>
    have h := Option.some.inj h
    unfold removeWebhook at h
    split at h
    · cases h
      exact .removed
    · next other =>
      cases h
      exact .notRemoved (Bool.eq_false_iff.mpr other)
  | list userId =>
    cases h
    exact .listed
  | taskEnded userId callbackUrl payload =>
    cases h
    exact .ended
  | lookUp id answered =>
    obtain ⟨l, found, same⟩ := Option.map_eq_some_iff.mp h
    cases same
    exact .looked found rfl
  | send id environ stored =>
    obtain ⟨d, found, h⟩ := Option.bind_eq_some_iff.mp h
    unfold sendDelivery at h
    split at h
    · cases h
      exact .skipped
    · next valid =>
      obtain ⟨number, next, same⟩ := Option.map_eq_some_iff.mp h
      have valid : d.request = none → env.isValidUrl d.callback.callbackUrl = true :=
        fun none => by simpa [none] using valid
      dsimp only at same
      split at same
      · next encodes =>
        cases same
        exact .posted found valid next rfl encodes
      · cases same
        obtain ⟨left, tried, stays⟩ := tried_spec s id { d with request := some _ } number none
        rw [tried]
        exact .unsent found valid next rfl stays
  | answer id status =>
    obtain ⟨d, found, h⟩ := Option.bind_eq_some_iff.mp h
    unfold answerDelivery at h
    split at h
    · next number sent =>
      cases h
      obtain ⟨left, tried, stays⟩ := tried_spec s id d number status
      rw [tried]
      exact .answered found sent stays
    · cases h
  | lost id =>
    cases h
    exact .lost

/-! ## The registry over a run -/

section
variable {env : CallbackEnv} {repr : String → String}

/-- What a step does to the registry. -/
inductive RegistryMove (s s' : CallbackState) : CallbackAction → CallbackLabel → Prop
  | registered {userId webhookId : String} {body : WebhookCreate} {w : Webhook}
      (insert : s.webhooks.insert w = some s'.webhooks) (active : w.isActive = true) :
      RegistryMove s s' (.register userId webhookId body) (.registered w.toWebhookView)
  | removed {userId webhookId : String}
      (gone : s'.webhooks =
        s.webhooks.discard fun w => w.webhookId = webhookId && w.userId = userId) :
      RegistryMove s s' (.remove userId webhookId) .removed
  | kept {a : CallbackAction} {label : CallbackLabel} (same : s'.webhooks = s.webhooks)
      (quiet : ∀ w, label ≠ .registered w)
      (other : ∀ userId webhookId, a = .remove userId webhookId →
        (s.webhooks.get webhookId).any (·.userId = userId) = false) : RegistryMove s s' a label

theorem registry_moves {x : CallbackStep} (h : (callbacks env repr).Steps x) :
    RegistryMove x.before x.after x.input x.label := by
  have moves := callback_moves h
  obtain ⟨s, a, label, s'⟩ := x
  dsimp only at moves ⊢
  cases moves with
  | registered insert active => exact .registered insert active
  | removed => exact .removed rfl
  | notRemoved other =>
    refine .kept rfl (by simp) fun u k same => ?_
    cases same
    exact other
  | ended => exact .kept rfl (fun _ h => nomatch h) (by simp)
  | elapsed | taken | invalid | listed | looked | skipped | posted | unsent | answered | lost =>
    exact .kept rfl (by simp) (by simp)

/-- Webhooks are registered for good. -/
def webhookKeeper :
    Machine.Keeper CallbackState CallbackAction CallbackLabel String WebhookView where
  clock _ := 0
  held s webhookId := (s.webhooks.get webhookId).map fun w => ⟨w.toWebhookView, none⟩
  issues x webhookId g :=
    x.label = .registered g.value ∧ g.value.webhookId = webhookId ∧ g.expiresAt = none
  withdraws x webhookId g := x.input = .remove g.value.userId webhookId

theorem webhook_held_iff {s : CallbackState} {webhookId : String} {g : Grant WebhookView} :
    webhookKeeper.held s webhookId = some g ↔
      ∃ w, s.webhooks.get webhookId = some w ∧ g = ⟨w.toWebhookView, none⟩ := by
  show Option.map _ _ = _ ↔ _
  rw [Option.map_eq_some_iff]
  exact ⟨fun ⟨w, found, same⟩ => ⟨w, found, same.symm⟩,
    fun ⟨w, found, same⟩ => ⟨w, found, same.symm⟩⟩

theorem keeps_webhooks :
    Machine.Keeps (callbacks env repr) webhookKeeper fun _ => True where
  clock _ := Nat.le_refl _
  issued {x k g} step _ issues := by
    obtain ⟨label, rfl, good⟩ := issues
    have moves := registry_moves step
    obtain ⟨s, a, l, s'⟩ := x
    dsimp only at label moves ⊢
    subst label
    obtain ⟨v, expiresAt⟩ := g
    cases good
    cases moves with
    | registered insert active =>
      exact webhook_held_iff.mpr ⟨_, Table.get_insert_self insert, rfl⟩
    | kept same quiet other => exact absurd rfl (quiet v)
  kept {x k g} step _ held stays _ := by
    obtain ⟨w, found, rfl⟩ := webhook_held_iff.mp held
    have moves := registry_moves step
    obtain ⟨s, a, l, s'⟩ := x
    dsimp only at found moves ⊢
    refine webhook_held_iff.mpr ⟨w, ?_, rfl⟩
    cases moves with
    | registered insert active => exact Table.get_insert_of_get insert found
    | @removed userId webhookId gone =>
      rw [gone, Table.get_discard, found, Option.filter_eq_some_iff]
      refine ⟨rfl, Bool.not_eq_true' _ |>.mpr (Bool.eq_false_iff.mpr fun both => stays ?_)⟩
      obtain ⟨id, user⟩ := Bool.and_eq_true_iff.mp both
      show CallbackAction.remove userId webhookId = .remove w.userId k
      rw [← of_decide_eq_true id, ← of_decide_eq_true user, (Table.get_mem found).2]
    | kept same quiet other => rw [same, found]
  entered {x k g} step _ held := by
    obtain ⟨w, found, rfl⟩ := webhook_held_iff.mp held
    have moves := registry_moves step
    obtain ⟨s, a, l, s'⟩ := x
    dsimp only at found moves ⊢
    cases moves with
    | @registered userId webhookId body v insert active =>
      rw [Table.get_insert insert] at found
      split at found
      · next same =>
        cases found
        exact .inl ⟨rfl, same, rfl⟩
      · refine .inr ⟨webhook_held_iff.mpr ⟨w, found, rfl⟩, fun input => ?_⟩
        cases (show CallbackAction.register userId webhookId body = .remove w.userId k from input)
    | @removed userId webhookId gone =>
      rw [gone, Table.get_discard] at found
      obtain ⟨present, stays⟩ := Option.filter_eq_some_iff.mp found
      refine .inr ⟨webhook_held_iff.mpr ⟨w, present, rfl⟩, fun input => ?_⟩
      cases (show CallbackAction.remove userId webhookId = .remove w.userId k from input)
      simp [(Table.get_mem present).2] at stays
    | kept same quiet other =>
      rw [same] at found
      refine .inr ⟨webhook_held_iff.mpr ⟨w, found, rfl⟩, fun input => ?_⟩
      have no := other _ _ input
      rw [found] at no
      simp at no

/-- Registered, and not removed by its owner since. -/
def Registered (past : List CallbackStep) (w : WebhookView) : Prop :=
  Machine.Pending (fun y => y.label = .registered w)
    (fun y => y.input = .remove w.userId w.webhookId) past

/-- The rows of the registry are what was registered and not removed, all of it active. -/
theorem mem_webhooks_iff {actions : List CallbackAction} {past later : List CallbackStep}
    {x : CallbackStep} (split : (callbacks env repr).run .empty actions = past ++ x :: later)
    (w : WebhookView) :
    (∃ row ∈ x.before.webhooks.rows, row.toWebhookView = w) ↔ Registered past w := by
  have held := keeps_webhooks.held_iff (fun _ => rfl) (fun _ _ => trivial) split
    (k := w.webhookId) (g := ⟨w, none⟩) rfl
  rw [webhook_held_iff] at held
  have granted : webhookKeeper.Granted past w.webhookId ⟨w, none⟩ ↔ Registered past w := by
    unfold Machine.Keeper.Granted Registered
    simp [webhookKeeper]
  rw [granted] at held
  rw [← held]
  constructor
  · rintro ⟨row, mem, rfl⟩
    exact ⟨row, Table.get_of_mem mem, rfl⟩
  · rintro ⟨row, found, same⟩
    cases same
    exact ⟨row, (Table.get_mem found).1, rfl⟩

/-- A user is shown their own. -/
theorem mem_listWebhooks_iff {actions : List CallbackAction} {past later : List CallbackStep}
    {x : CallbackStep} (split : (callbacks env repr).run .empty actions = past ++ x :: later)
    (userId : String) (w : WebhookView) :
    w ∈ listWebhooks x.before.webhooks userId ↔ w.userId = userId ∧ Registered past w := by
  rw [← mem_webhooks_iff split w, listWebhooks, List.mem_mergeSort, List.mem_map]
  constructor
  · rintro ⟨row, mem, rfl⟩
    obtain ⟨mem, owner⟩ := List.mem_filter.mp mem
    exact ⟨of_decide_eq_true owner, row, mem, rfl⟩
  · rintro ⟨rfl, row, mem, rfl⟩
    exact ⟨row, List.mem_filter.mpr ⟨mem, decide_eq_true rfl⟩, rfl⟩

end

/-! ## The deliveries over a run -/

namespace CallbackStep

/-- The callbacks that are begun, with their numbers -/
def calls (x : CallbackStep) : List (Callback × Nat) :=
  match x.label with
  | .called calls _ => calls
  | _ => []

/-- What is tried for the delivery with this number -/
def tries (i : Nat) (x : CallbackStep) : Option CallbackRequest :=
  match x.input, x.label with
  | .send j _ _, .posted request | .send j _ _, .unsent request =>
    if j = i then some request else none
  | _, _ => none

def events (i : Nat) (x : CallbackStep) : List (Retry.Event (Option Nat)) :=
  match x.input, x.label with
  | .send j _ _, .posted _ => if j = i then [.sent x.before.now] else []
  | .send j _ _, .unsent _ =>
    if j = i then [.sent x.before.now, .answered x.before.now none] else []
  | .answer j status, _ => if j = i then [.answered x.before.now status] else []
  | _, _ => []

end CallbackStep

/-- What happened to the delivery with this number -/
def eventsOf (i : Nat) (trace : List CallbackStep) : List (Retry.Event (Option Nat)) :=
  trace.flatMap (CallbackStep.events i)

section
variable {env : CallbackEnv} {repr : String → String}

/-- What a step does to the delivery with this number. -/
inductive DeliveryMove (env : CallbackEnv) (i : Nat) (x : CallbackStep) : Prop
  | kept (quiet : x.events i = []) (silent : x.tries i = none)
      (same : x.after.deliveries i = x.before.deliveries i)
  | gone (quiet : x.events i = []) (silent : x.tries i = none)
      (none : x.after.deliveries i = none)
  | made (quiet : x.events i = []) (silent : x.tries i = none) (c : Callback)
      (call : (c, i) ∈ x.calls) (fresh : x.before.made ≤ i) (old : i < x.after.made)
      (new : x.after.deliveries i = some ⟨c, none, .ready⟩)
  | unsent (d : Delivery) (number : Nat) (environ stored : Option String)
      (request : CallbackRequest) (input : x.input = .send i environ stored)
      (events : x.events i = [.sent x.before.now, .answered x.before.now none])
      (found : x.before.deliveries i = some d)
      (valid : d.request = none → env.isValidUrl d.callback.callbackUrl = true)
      (next : d.phase.next callbackPolicy x.before.now = some number)
      (built : request = d.request.getD (env.request d.callback (getHmacSecret environ stored)))
      (tries : x.tries i = some request)
      (new : ∀ d', x.after.deliveries i = some d' →
        d' = ⟨d.callback, some request, .behind callbackPolicy x.before.now number none⟩)
  | posted (d : Delivery) (secret : Option String) (found : x.before.deliveries i = some d)
      (encodes : (d.request.getD (env.request d.callback secret)).encodes = true)
  | answered (d : Delivery) (number : Nat) (found : x.before.deliveries i = some d)
      (sent : d.phase = .sent number)

theorem mem_numbered {calls : List Callback} {c : Callback} {i k : Nat} :
    (c, i) ∈ calls.zipIdx k ↔ k ≤ i ∧ calls[i - k]? = some c :=
  List.mk_mem_zipIdx_iff_le_and_getElem?_sub

/-- A delivery is as it was, or new, or there is none. -/
theorem deliveries_create (s : CallbackState) (calls : List Callback) (i : Nat) :
    (s.create calls).deliveries i = s.deliveries i ∨ (s.create calls).deliveries i = none ∨
      ∃ c, (c, i) ∈ calls.zipIdx s.made ∧ s.made ≤ i ∧ i < (s.create calls).made ∧
        (s.create calls).deliveries i = some ⟨c, none, .ready⟩ := by
  by_cases old : i < s.made
  · exact .inl (if_pos old)
  · have here : (s.create calls).deliveries i =
        (calls[i - s.made]?).map fun c => ⟨c, none, .ready⟩ := if_neg old
    rw [here]
    cases call : calls[i - s.made]? with
    | none => exact .inr (.inl rfl)
    | some c =>
      have fresh : s.made ≤ i := Nat.le_of_not_lt old
      have bound := (List.getElem?_eq_some_iff.mp call).1
      refine .inr (.inr ⟨c, mem_numbered.mpr ⟨fresh, call⟩, fresh, ?_, rfl⟩)
      show i < s.made + calls.length
      omega

theorem setDelivery_self (s : CallbackState) (i : Nat) (d : Option Delivery) :
    (s.setDelivery i d).deliveries i = d :=
  Function.update_self ..

theorem setDelivery_of_ne (s : CallbackState) {id i : Nat} (d : Option Delivery) (other : id ≠ i) :
    (s.setDelivery id d).deliveries i = s.deliveries i :=
  Function.update_of_ne (Ne.symm other) ..

theorem delivery_moves {x : CallbackStep} (h : (callbacks env repr).Steps x) (i : Nat) :
    DeliveryMove env i x := by
  have moves := callback_moves h
  obtain ⟨s, a, label, s'⟩ := x
  dsimp only at moves
  cases moves with
  | elapsed | registered | taken | invalid | removed | notRemoved | listed =>
    exact .kept rfl rfl rfl
  | @ended userId callbackUrl payload =>
    rcases deliveries_create s ((callbackUrl.filter (· ≠ "")).toList.map fun url =>
      ⟨payload.taskId, url, payload⟩) i with same | none | ⟨c, call, fresh, old, new⟩
    · exact .kept rfl rfl same
    · exact .gone rfl rfl none
    · exact .made rfl rfl c call fresh (Nat.lt_succ_of_lt old) new
  | @looked _ _ _ calls =>
    rcases deliveries_create s calls i with same | none | ⟨c, call, fresh, old, new⟩
    · exact .kept rfl rfl same
    · exact .gone rfl rfl none
    · exact .made rfl rfl c call fresh old new
  | @skipped id =>
    by_cases here : id = i
    · subst here
      exact .gone rfl rfl (setDelivery_self ..)
    · exact .kept rfl rfl (setDelivery_of_ne s _ here)
  | @unsent id number environ stored d request _ found valid next built stays =>
    by_cases here : id = i
    · subst here
      refine .unsent d number environ stored request rfl (if_pos rfl) found valid next built
        (if_pos rfl) fun d' new => stays d' ?_
      exact (setDelivery_self ..).symm.trans new
    · exact .kept (if_neg here) (if_neg here) (setDelivery_of_ne s _ here)
  | @posted id number environ stored d request found valid next built encodes =>
    by_cases here : id = i
    · subst here
      subst built
      exact .posted d _ found encodes
    · exact .kept (if_neg here) (if_neg here) (setDelivery_of_ne s _ here)
  | @answered id number status d _ found sent =>
    by_cases here : id = i
    · subst here
      exact .answered d number found sent
    · exact .kept (if_neg here) rfl (setDelivery_of_ne s _ here)
  | @lost id =>
    by_cases here : id = i
    · subst here
      exact .gone rfl rfl (setDelivery_self ..)
    · exact .kept rfl rfl (setDelivery_of_ne s _ here)

theorem made_le {x : CallbackStep} (h : (callbacks env repr).Steps x) :
    x.before.made ≤ x.after.made := by
  have moves := callback_moves h
  obtain ⟨s, a, label, s'⟩ := x
  dsimp only at moves ⊢
  cases moves with
  | ended => exact Nat.le_succ_of_le (Nat.le_add_right ..)
  | looked => exact Nat.le_add_right ..
  | elapsed | registered | taken | invalid | removed | notRemoved | listed | skipped | posted
  | unsent | answered | lost => exact Nat.le_refl _

/-- The delivery was begun where its callback is sent to an address, and the request is what
was built then. -/
def Begun (env : CallbackEnv) (i : Nat) (trace : List CallbackStep) (c : Callback)
    (r : CallbackRequest) : Prop :=
  ∃ front z back environ stored, trace = front ++ z :: back ∧ eventsOf i front = [] ∧
    z.input = .send i environ stored ∧ env.isValidUrl c.callbackUrl = true ∧
    r = env.request c (getHmacSecret environ stored)

theorem Begun.concat {i : Nat} {trace : List CallbackStep} {c : Callback} {r : CallbackRequest}
    (h : Begun env i trace c r) (x : CallbackStep) : Begun env i (trace ++ [x]) c r := by
  obtain ⟨front, z, back, environ, stored, rfl, rest⟩ := h
  exact ⟨front, z, back ++ [x], environ, stored, by simp, rest⟩

/-- What was seen of a delivery fits what is left of it, and none waits for an answer. -/
structure Sound (env : CallbackEnv) (i : Nat) (past : List CallbackStep) (s : CallbackState) :
    Prop where
  fresh : s.made ≤ i → s.deliveries i = none ∧ eventsOf i past = [] ∧ ∀ y ∈ past, y.tries i = none
  reached : ∃ phase, Retry.Reached callbackPolicy (eventsOf i past) phase ∧
    ∀ d, s.deliveries i = some d → d.phase = phase
  between : ∀ d, s.deliveries i = some d → ∀ number, d.phase ≠ .sent number
  tried : ∀ d, s.deliveries i = some d → ∀ y ∈ past, ∀ r, y.tries i = some r → d.request = some r
  idle : ∀ d, s.deliveries i = some d → d.request = none → eventsOf i past = []
  begun : ∀ d r, s.deliveries i = some d → d.request = some r → Begun env i past d.callback r
  called : ∀ d, s.deliveries i = some d →
    ∃ pre y mid, past = pre ++ y :: mid ∧ (d.callback, i) ∈ y.calls

theorem sound_empty (i : Nat) : Sound env i [] .empty where
  fresh _ := ⟨rfl, rfl, fun _ h => absurd h List.not_mem_nil⟩
  reached := ⟨.ready, .ready, fun _ h => nomatch h⟩
  between _ h := nomatch h
  tried _ h := nomatch h
  idle _ h := nomatch h
  begun _ _ h := nomatch h
  called _ h := nomatch h

theorem eventsOf_concat (i : Nat) (past : List CallbackStep) (x : CallbackStep) :
    eventsOf i (past ++ [x]) = eventsOf i past ++ x.events i := by
  simp [eventsOf]

theorem behind_ne_sent (now number : Nat) (status : Option Nat) (n : Nat) :
    Retry.Phase.behind callbackPolicy now number status ≠ .sent n := by
  unfold Retry.Phase.behind
  split <;> exact nofun

theorem called_concat {i : Nat} {past : List CallbackStep} {c : Callback}
    (h : ∃ pre y mid, past = pre ++ y :: mid ∧ (c, i) ∈ y.calls) (x : CallbackStep) :
    ∃ pre y mid, past ++ [x] = pre ++ y :: mid ∧ (c, i) ∈ y.calls := by
  obtain ⟨pre, y, mid, rfl, call⟩ := h
  exact ⟨pre, y, mid ++ [x], by simp, call⟩

theorem tries_concat {i : Nat} {past : List CallbackStep} {x : CallbackStep}
    {P : CallbackRequest → Prop} (old : ∀ y ∈ past, ∀ r, y.tries i = some r → P r)
    (new : ∀ r, x.tries i = some r → P r) : ∀ y ∈ past ++ [x], ∀ r, y.tries i = some r → P r :=
  List.forall_mem_append.mpr ⟨old, List.forall_mem_singleton.mpr new⟩

/-- A step that does not concern the delivery, or ends it without a try -/
theorem sound_quiet {i : Nat} {past : List CallbackStep} {x : CallbackStep}
    (step : (callbacks env repr).Steps x) (sound : Sound env i past x.before)
    (quiet : x.events i = []) (silent : x.tries i = none)
    (less : x.after.deliveries i = x.before.deliveries i ∨ x.after.deliveries i = none) :
    Sound env i (past ++ [x]) x.after := by
  have events : eventsOf i (past ++ [x]) = eventsOf i past := by
    rw [eventsOf_concat, quiet, List.append_nil]
  have before : ∀ d, x.after.deliveries i = some d → x.before.deliveries i = some d := by
    intro d h
    rcases less with same | none
    · rwa [same] at h
    · rw [none] at h
      cases h
  refine ⟨fun unmade => ?_, ?_, fun d h => sound.between d (before d h), fun d h => ?_,
    fun d h none => events.trans (sound.idle d (before d h) none),
    fun d r h request => (sound.begun d r (before d h) request).concat x,
    fun d h => called_concat (sound.called d (before d h)) x⟩
  · obtain ⟨none, nothing, no⟩ := sound.fresh (Nat.le_trans (made_le step) unmade)
    refine ⟨?_, events.trans nothing,
      List.forall_mem_append.mpr ⟨no, List.forall_mem_singleton.mpr silent⟩⟩
    rcases less with same | gone
    · rw [same, none]
    · exact gone
  · obtain ⟨phase, reached, here⟩ := sound.reached
    rw [events]
    exact ⟨phase, reached, fun d h => here d (before d h)⟩
  · refine tries_concat (sound.tried d (before d h)) fun r tries => ?_
    rw [silent] at tries
    cases tries

/-- A new delivery, of which nothing has been seen -/
theorem sound_new {i : Nat} {past : List CallbackStep} {x : CallbackStep} {c : Callback}
    (sound : Sound env i past x.before) (quiet : x.events i = []) (silent : x.tries i = none)
    (call : (c, i) ∈ x.calls) (fresh : x.before.made ≤ i) (old : i < x.after.made)
    (new : x.after.deliveries i = some ⟨c, none, .ready⟩) : Sound env i (past ++ [x]) x.after := by
  obtain ⟨-, nothing, no⟩ := sound.fresh fresh
  have events : eventsOf i (past ++ [x]) = [] := by
    rw [eventsOf_concat, quiet, nothing, List.append_nil]
  have only : ∀ d, x.after.deliveries i = some d → d = ⟨c, none, .ready⟩ :=
    fun d h => Option.some.inj (h.symm.trans new)
  refine ⟨fun unmade => absurd old (Nat.not_lt.mpr unmade), ?_, fun d h => ?_,
    fun d _ y hy r tries => ?_, fun _ _ _ => events, fun d r h request => ?_, fun d h => ?_⟩
  · rw [events]
    exact ⟨.ready, .ready, fun d h => by rw [only d h]⟩
  · rw [only d h]
    exact nofun
  · rw [List.forall_mem_append.mpr ⟨no, List.forall_mem_singleton.mpr silent⟩ y hy] at tries
    cases tries
  · rw [only d h] at request
    cases request
  · rw [only d h]
    exact ⟨past, x, [], rfl, call⟩

/-- What a delivery tries is what it has built at its first try. -/
theorem begun_of_unsent {i : Nat} {past : List CallbackStep} {x : CallbackStep} {d : Delivery}
    {environ stored : Option String} {request : CallbackRequest}
    (sound : Sound env i past x.before) (input : x.input = .send i environ stored)
    (found : x.before.deliveries i = some d)
    (valid : d.request = none → env.isValidUrl d.callback.callbackUrl = true)
    (built : request = d.request.getD (env.request d.callback (getHmacSecret environ stored))) :
    Begun env i (past ++ [x]) d.callback request := by
  cases first : d.request with
  | none =>
    rw [first, Option.getD_none] at built
    exact ⟨past, x, [], environ, stored, rfl, sound.idle d found first, input, valid first, built⟩
  | some r =>
    rw [first, Option.getD_some] at built
    rw [built]
    exact (sound.begun d r found first).concat x

/-- A delivery has tried once more, with the request that it was begun with. -/
theorem sound_unsent {i : Nat} {past : List CallbackStep} {x : CallbackStep} {d : Delivery}
    {number : Nat} {environ stored : Option String} {request : CallbackRequest}
    (step : (callbacks env repr).Steps x) (sound : Sound env i past x.before)
    (input : x.input = .send i environ stored)
    (events : x.events i = [.sent x.before.now, .answered x.before.now none])
    (found : x.before.deliveries i = some d)
    (valid : d.request = none → env.isValidUrl d.callback.callbackUrl = true)
    (next : d.phase.next callbackPolicy x.before.now = some number)
    (built : request = d.request.getD (env.request d.callback (getHmacSecret environ stored)))
    (tries : x.tries i = some request)
    (only : ∀ d', x.after.deliveries i = some d' →
      d' = ⟨d.callback, some request, .behind callbackPolicy x.before.now number none⟩) :
    Sound env i (past ++ [x]) x.after := by
  have old : i < x.before.made := by
    by_contra unmade
    rw [(sound.fresh (Nat.le_of_not_lt unmade)).1] at found
    cases found
  have begun := begun_of_unsent sound input found valid built
  have same : ∀ y ∈ past ++ [x], ∀ r, y.tries i = some r → r = request := by
    refine tries_concat (fun y hy r earlier => ?_) fun r now => ?_
    · rw [built, sound.tried d found y hy r earlier, Option.getD_some]
    · exact Option.some.inj (now.symm.trans tries)
  obtain ⟨phase, reached, here⟩ := sound.reached
  rw [here d found] at next
  refine ⟨fun unmade => absurd (Nat.lt_of_lt_of_le old (made_le step)) (Nat.not_lt.mpr unmade), ?_,
    fun d' h => ?_, fun d' h y hy r earlier => ?_, fun d' h none => ?_,
    fun d' r h mine => ?_, fun d' h => ?_⟩
  · rw [eventsOf_concat, events]
    refine ⟨_, ?_, fun d' h => by rw [only d' h]⟩
    simpa using (reached.sent x.before.now next).answered x.before.now none
  · rw [only d' h]
    exact behind_ne_sent _ _ _
  · rw [only d' h, same y hy r earlier]
  · rw [only d' h] at none
    cases none
  · rw [only d' h] at mine ⊢
    cases mine
    exact begun
  · rw [only d' h]
    exact called_concat (sound.called d found) x

/-- No request that a delivery has, or would have, can be sent. -/
theorem Sound.unencoded {i : Nat} {past : List CallbackStep} {s : CallbackState} {d : Delivery}
    (sound : Sound env i past s) (found : s.deliveries i = some d) (secret : Option String) :
    (d.request.getD (env.request d.callback secret)).encodes = false := by
  cases request : d.request with
  | none => exact request_encodes env d.callback secret
  | some r =>
    obtain ⟨_, _, _, environ, stored, -, -, -, -, rfl⟩ := sound.begun d r found request
    exact request_encodes env d.callback _

theorem sound_step {i : Nat} {past : List CallbackStep} {x : CallbackStep}
    (step : (callbacks env repr).Steps x) (sound : Sound env i past x.before) :
    Sound env i (past ++ [x]) x.after := by
  cases delivery_moves step i with
  | kept quiet silent same => exact sound_quiet step sound quiet silent (.inl same)
  | gone quiet silent none => exact sound_quiet step sound quiet silent (.inr none)
  | made quiet silent c call fresh old new =>
    exact sound_new sound quiet silent call fresh old new
  | unsent d number environ stored request input events found valid next built tries new =>
    exact sound_unsent step sound input events found valid next built tries new
  | posted d secret found encodes =>
    rw [sound.unencoded found secret] at encodes
    cases encodes
  | answered d number found sent => exact absurd sent (sound.between d found number)

/-- Before every step of a run -/
theorem sound_of_run {actions : List CallbackAction} {past later : List CallbackStep}
    {x : CallbackStep} (split : (callbacks env repr).run .empty actions = past ++ x :: later)
    (i : Nat) : (callbacks env repr).Steps x ∧ Sound env i past x.before :=
  Machine.history_invariant (fun _ _ step sound => sound_step step sound) (sound_empty i) past x
    later split

/-! ## Who is called -/

/-- The webhooks that a lookup finds -/
def CallbackState.found (s : CallbackState) (l : WebhookLookup) : List WebhookView :=
  match l.userId.filter (· ≠ "") with
  | none => []
  | some userId =>
    (s.webhooks.rows.filter (·.wants userId l.payload.outcome.event)).map (·.toWebhookView)

theorem fireUserWebhooks_eq (s : CallbackState) (l : WebhookLookup) :
    fireUserWebhooks s l =
      (s.found l).map fun w => ⟨l.payload.taskId, w.url, l.payload⟩ := by
  unfold fireUserWebhooks CallbackState.found
  split
  · rfl
  · rw [List.map_map]
    rfl

theorem nodup_found (s : CallbackState) (l : WebhookLookup) :
    ((s.found l).map (·.webhookId)).Nodup := by
  unfold CallbackState.found
  split
  · exact List.nodup_nil
  · rw [List.map_map]
    exact s.webhooks.keys.sublist (List.filter_sublist.map _)

/-- Every webhook stays active. -/
theorem active_of_run {actions : List CallbackAction} {past later : List CallbackStep}
    {x : CallbackStep} (split : (callbacks env repr).run .empty actions = past ++ x :: later) :
    ∀ row ∈ x.before.webhooks.rows, row.isActive = true := by
  refine (Machine.history_invariant (m := callbacks env repr)
    (I := fun _ s => ∀ row ∈ s.webhooks.rows, row.isActive = true) (fun _ x step before => ?_)
    (fun _ h => absurd h List.not_mem_nil) past x later split).2
  have moves := registry_moves step
  obtain ⟨s, a, l, s'⟩ := x
  dsimp only at before moves ⊢
  intro row mem
  cases moves with
  | registered insert active =>
    rcases Table.of_mem_insert insert mem with rfl | old
    · exact active
    · exact before row old
  | removed gone =>
    rw [gone] at mem
    exact before row (List.mem_filter.mp mem).1
  | kept same _ _ =>
    rw [same] at mem
    exact before row mem

theorem mem_found_iff {actions : List CallbackAction} {past later : List CallbackStep}
    {x : CallbackStep} (split : (callbacks env repr).run .empty actions = past ++ x :: later)
    (l : WebhookLookup) (w : WebhookView) :
    w ∈ x.before.found l ↔ Registered past w ∧ l.userId = some w.userId ∧ w.userId ≠ "" ∧
      (l.payload.outcome.event ∈ w.events ∨ .all ∈ w.events) := by
  rw [← mem_webhooks_iff split w]
  unfold CallbackState.found
  cases user : l.userId.filter (· ≠ "") with
  | none =>
    refine iff_of_false List.not_mem_nil ?_
    rintro ⟨-, same, named, -⟩
    rw [same] at user
    simp [named] at user
  | some userId =>
    obtain ⟨same, named⟩ := Option.filter_eq_some_iff.mp user
    have named : userId ≠ "" := of_decide_eq_true named
    dsimp only
    rw [List.mem_map, same, Option.some.injEq]
    constructor
    · rintro ⟨row, mem, rfl⟩
      obtain ⟨present, wants⟩ := List.mem_filter.mp mem
      simp only [Webhook.wants, Bool.and_eq_true, Bool.or_eq_true, decide_eq_true_eq,
        List.contains_iff_mem] at wants
      obtain ⟨⟨rfl, -⟩, wants⟩ := wants
      exact ⟨⟨row, present, rfl⟩, rfl, named, wants⟩
    · rintro ⟨⟨row, mem, rfl⟩, rfl, -, wants⟩
      refine ⟨row, List.mem_filter.mpr ⟨mem, ?_⟩, rfl⟩
      simp [Webhook.wants, active_of_run split row mem, wants]

/-- What a step does to the lookup with this number. -/
inductive LookupMove (k : Nat) (x : CallbackStep) : Prop
  | kept (other : ∀ b, x.input ≠ .lookUp k b)
      (less : x.after.lookups k = x.before.lookups k ∨ x.after.lookups k = none)
  | made (userId callbackUrl : Option String) (payload : CallbackPayload)
      (calls : List (Callback × Nat)) (input : x.input = .taskEnded userId callbackUrl payload)
      (label : x.label = .called calls (some k)) (fresh : x.before.made ≤ k)
      (old : k < x.after.made) (new : x.after.lookups k = some ⟨userId, payload⟩)
  | looked (b : Bool) (l : WebhookLookup) (input : x.input = .lookUp k b)
      (found : x.before.lookups k = some l) (none : x.after.lookups k = none)
      (calls : x.calls =
        (if b then fireUserWebhooks x.before l else []).zipIdx x.before.made)

theorem lookup_moves {x : CallbackStep} (h : (callbacks env repr).Steps x) (k : Nat) :
    LookupMove k x := by
  have moves := callback_moves h
  obtain ⟨s, a, label, s'⟩ := x
  dsimp only at moves
  cases moves with
  | @ended userId callbackUrl payload =>
    by_cases here : k = (s.create ((callbackUrl.filter (· ≠ "")).toList.map fun url =>
        ⟨payload.taskId, url, payload⟩)).made
    · subst here
      exact .made userId callbackUrl payload _ rfl rfl (Nat.le_add_right ..) (Nat.lt_succ_self _)
        (Function.update_self ..)
    · exact .kept (by simp) (.inl (Function.update_of_ne here ..))
  | @looked id b l _ found called =>
    subst called
    by_cases here : id = k
    · subst here
      exact .looked b l rfl found (Function.update_self ..) rfl
    · refine .kept (fun b => ?_) (.inl (Function.update_of_ne (Ne.symm here) ..))
      simp [here]
  | @lost id =>
    by_cases here : id = k
    · subst here
      exact .kept (by simp) (.inr (Function.update_self ..))
    · exact .kept (by simp) (.inl (Function.update_of_ne (Ne.symm here) ..))
  | elapsed | registered | taken | invalid | removed | notRemoved | listed | skipped | posted
  | unsent | answered => exact .kept (by simp) (.inl rfl)

/-- What was seen of a lookup fits what is left of it. -/
structure LookupSound (k : Nat) (past : List CallbackStep) (s : CallbackState) : Prop where
  fresh : s.made ≤ k → s.lookups k = none ∧ ∀ y ∈ past, ∀ b, y.input ≠ .lookUp k b
  waits : ∀ l, s.lookups k = some l → (∀ y ∈ past, ∀ b, y.input ≠ .lookUp k b) ∧
    ∃ z ∈ past, ∃ callbackUrl calls, z.input = .taskEnded l.userId callbackUrl l.payload ∧
      z.label = .called calls (some k)

theorem lookupSound_step {k : Nat} {past : List CallbackStep} {x : CallbackStep}
    (step : (callbacks env repr).Steps x) (sound : LookupSound k past x.before) :
    LookupSound k (past ++ [x]) x.after := by
  have mono := made_le step
  cases lookup_moves step k with
  | kept other less =>
    have no : (∀ y ∈ past, ∀ b, y.input ≠ .lookUp k b) →
        ∀ y ∈ past ++ [x], ∀ b, y.input ≠ .lookUp k b := by
      intro past y hy
      rcases List.mem_append.mp hy with old | new
      · exact past y old
      · rw [List.mem_singleton.mp new]
        exact other
    refine ⟨fun unmade => ?_, fun l h => ?_⟩
    · obtain ⟨none, unasked⟩ := sound.fresh (Nat.le_trans mono unmade)
      refine ⟨?_, no unasked⟩
      rcases less with same | gone
      · rw [same, none]
      · exact gone
    · rcases less with same | gone
      · rw [same] at h
        obtain ⟨unasked, z, hz, started⟩ := sound.waits l h
        exact ⟨no unasked, z, List.mem_append_left _ hz, started⟩
      · rw [gone] at h
        cases h
  | made userId callbackUrl payload calls input label fresh old new =>
    obtain ⟨-, unasked⟩ := sound.fresh fresh
    refine ⟨fun unmade => absurd old (Nat.not_lt.mpr unmade), fun l h => ?_⟩
    cases new.symm.trans h
    refine ⟨fun y hy b => ?_, x, by simp, callbackUrl, calls, input, label⟩
    rcases List.mem_append.mp hy with past | last
    · exact unasked y past b
    · rw [List.mem_singleton.mp last, input]
      simp
  | looked b l input found none calls =>
    refine ⟨fun unmade => ?_, fun l' h => ?_⟩
    · rw [(sound.fresh (Nat.le_trans mono unmade)).1] at found
      cases found
    · rw [none] at h
      cases h

theorem lookupSound_empty (k : Nat) : LookupSound k [] .empty where
  fresh _ := ⟨rfl, fun _ h => absurd h List.not_mem_nil⟩
  waits _ h := nomatch h

/-- A lookup is made once, for the end of a task. -/
theorem lookup_of_run {actions : List CallbackAction} {past later : List CallbackStep}
    {x : CallbackStep} (split : (callbacks env repr).run .empty actions = past ++ x :: later)
    {k : Nat} {b : Bool} (input : x.input = .lookUp k b) :
    ∃ l, x.calls = (if b then fireUserWebhooks x.before l else []).zipIdx x.before.made ∧
      (∀ y ∈ past, ∀ b, y.input ≠ .lookUp k b) ∧
      ∃ z ∈ past, ∃ callbackUrl calls, z.input = .taskEnded l.userId callbackUrl l.payload ∧
        z.label = .called calls (some k) := by
  have all := Machine.history_invariant (m := callbacks env repr) (I := LookupSound k)
    (fun _ _ step sound => lookupSound_step step sound) (lookupSound_empty k) past x later split
  obtain ⟨step, sound⟩ := all
  cases lookup_moves step k with
  | kept other _ => exact absurd input (other b)
  | made _ _ _ _ ended =>
    rw [ended] at input
    cases input
  | looked b' l same found _ calls =>
    cases same.symm.trans input
    exact ⟨l, calls, sound.waits l found⟩

/-- The callback is for the end of a task: to the address that came with it, or to a webhook
that its user had registered for the event when it was looked up. -/
def CalledFor (past : List CallbackStep) (y : CallbackStep) (c : Callback) : Prop :=
  c.taskId = c.payload.taskId ∧
    ((c.callbackUrl ≠ "" ∧ ∃ userId, y.input = .taskEnded userId (some c.callbackUrl) c.payload) ∨
      ∃ k w, y.input = .lookUp k true ∧ w.url = c.callbackUrl ∧ Registered past w ∧
        (c.payload.outcome.event ∈ w.events ∨ .all ∈ w.events) ∧
        ∃ z ∈ past, ∃ callbackUrl calls,
          z.input = .taskEnded (some w.userId) callbackUrl c.payload ∧
            z.label = .called calls (some k))

theorem calledFor_of_run {actions : List CallbackAction} {past later : List CallbackStep}
    {x : CallbackStep} (split : (callbacks env repr).run .empty actions = past ++ x :: later)
    {c : Callback} {i : Nat} (call : (c, i) ∈ x.calls) : CalledFor past x c := by
  have moves := callback_moves (Machine.steps_of_run split)
  cases input : x.input with
  | lookUp k b =>
    obtain ⟨l, calls, -, z, hz, callbackUrl, begun, ended, label⟩ := lookup_of_run split input
    rw [calls] at call
    have mem := List.fst_mem_of_mem_zipIdx call
    cases b with
    | false => cases mem
    | true =>
      rw [if_pos rfl, fireUserWebhooks_eq] at mem
      obtain ⟨w, found, rfl⟩ := List.mem_map.mp mem
      obtain ⟨registered, user, -, wants⟩ := (mem_found_iff split l w).mp found
      rw [user] at ended
      exact ⟨rfl, .inr ⟨k, w, input, rfl, registered, wants, z, hz, callbackUrl, begun, ended,
        label⟩⟩
  | taskEnded userId callbackUrl payload =>
    obtain ⟨s, a, label, s'⟩ := x
    dsimp only at moves input
    subst input
    cases moves
    have mem := List.fst_mem_of_mem_zipIdx call
    obtain ⟨url, given, rfl⟩ := List.mem_map.mp mem
    obtain ⟨rfl, named⟩ := Option.filter_eq_some_iff.mp (Option.mem_toList.mp given)
    exact ⟨rfl, .inl ⟨of_decide_eq_true named, userId, rfl⟩⟩
  | elapse _ | register _ _ _ | remove _ _ | list _ | send _ _ _ | answer _ _ | lost _ =>
    -- no callback is begun here
    obtain ⟨s, a, label, s'⟩ := x
    dsimp only at moves input
    subst input
    cases moves <;> cases call

/-- A lookup that has its answer is the only one for its end of a task, and calls, each once, the
webhooks that the user of the task has registered for the event and not removed. -/
theorem called_iff (actions : List CallbackAction) {past later : List CallbackStep}
    {x : CallbackStep} (split : (callbacks env repr).run .empty actions = past ++ x :: later)
    {k : Nat} (input : x.input = .lookUp k true) :
    (∀ y ∈ past, ∀ b, y.input ≠ .lookUp k b) ∧
      ∃ z ∈ past, ∃ userId callbackUrl payload calls,
        z.input = .taskEnded userId callbackUrl payload ∧ z.label = .called calls (some k) ∧
          ∃ found : List WebhookView, (found.map (·.webhookId)).Nodup ∧
            x.calls.map Prod.fst =
              found.map (fun w => ⟨payload.taskId, w.url, payload⟩) ∧
            ∀ w, w ∈ found ↔ Registered past w ∧ userId = some w.userId ∧ w.userId ≠ "" ∧
              (payload.outcome.event ∈ w.events ∨ .all ∈ w.events) := by
  obtain ⟨l, calls, once, z, hz, callbackUrl, begun, ended, label⟩ := lookup_of_run split input
  refine ⟨once, z, hz, l.userId, callbackUrl, l.payload, begun, ended, label, x.before.found l,
    nodup_found _ _, ?_, mem_found_iff split l⟩
  rw [calls, if_pos rfl, fireUserWebhooks_eq, List.zipIdx_map_fst]

/-- Nothing is ever posted. What is tried is for a callback that the end of a task has begun; it
is what was built at the first try, and it is tried three times at most, each time after a
longer wait. -/
theorem never_posted (actions : List CallbackAction) {past later : List CallbackStep}
    {x : CallbackStep} (split : (callbacks env repr).run .empty actions = past ++ x :: later) :
    (∀ r, x.label ≠ .posted r) ∧
      ∀ i r, x.tries i = some r →
        (∃ pre y mid c, past = pre ++ y :: mid ∧ (c, i) ∈ y.calls ∧ CalledFor pre y c ∧
          Begun env i (past ++ [x]) c r) ∧
        (∀ y ∈ past, ∀ r', y.tries i = some r' → r' = r) ∧
        ∃ tries : Retry.Tries (Option Nat),
          tries.events = eventsOf i (past ++ [x]) ∧ tries.Paced callbackPolicy := by
  refine ⟨fun r posted => ?_, fun i r tried => ?_⟩
  · have moves := callback_moves (Machine.steps_of_run split)
    have sound := fun i => (sound_of_run split i).2
    obtain ⟨s, a, label, s'⟩ := x
    dsimp only at moves posted sound
    subst posted
    cases moves with
    | posted found _ _ built encodes =>
      rw [built, (sound _).unencoded found] at encodes
      cases encodes
  · obtain ⟨step, sound⟩ := sound_of_run split i
    cases delivery_moves step i with
    | unsent d number environ stored request input events found valid next built tries new =>
      cases tries.symm.trans tried
      have after := sound_step step sound
      refine ⟨?_, fun y hy r' earlier => ?_, ?_⟩
      · obtain ⟨pre, y, mid, rfl, call⟩ := sound.called d found
        have begun : Begun env i ((pre ++ y :: mid) ++ [x]) d.callback r :=
          begun_of_unsent sound input found valid built
        rw [List.append_assoc, List.cons_append] at split
        exact ⟨pre, y, mid, d.callback, rfl, call, calledFor_of_run split call, begun⟩
      · rw [built, sound.tried d found y hy r' earlier, Option.getD_some]
      · obtain ⟨phase, reached, -⟩ := after.reached
        exact reached.exists_tries
    | posted d secret found encodes =>
      rw [sound.unencoded found secret] at encodes
      cases encodes
    | answered d number found sent => exact absurd sent (sound.between d found number)
    | kept _ silent _ | gone _ silent _ | made _ silent _ _ _ _ _ =>
      rw [silent] at tried
      cases tried

end

/-- What is signed here is accepted where the connectors check a signature. -/
theorem verifyHmac_signBody (env : CallbackEnv) (receiver : Env)
    (same : receiver.hmacSha256 = env.hmacSha256) (body : List UInt8) (secret : String) :
    verifyHmac receiver body (env.signBody body secret) secret = some true := by
  have signed : Signed receiver secret ⟨body, some (env.signBody body secret)⟩ := by
    show some (env.signBody body secret) = some ("sha256=" ++ receiver.hmacSha256 secret body)
    rw [same]
    rfl
  exact verifyHmac_iff.mpr signed

/-! ## A webhook that is called twice -/

def callbackEnv : CallbackEnv where
  url := { unicode := .ascii, netlocValid := fun _ => true }
  hmacSha256 _ _ := "000489277ac87a10ada80beadc775b92a6f508e8154fb4ac02b84ebc20f1da1f"

def quotedText (text : String) : String := "'" ++ text ++ "'"

def annsPayload : CallbackPayload where
  taskId := "8f14e45f-ceea-4672-9b0a-31ad5e0b1c2d"
  outcome := .complete "4"
  agentType := "base_agent"
  completedAt := "2026-01-05T10:00:00+00:00"

def annsWebhook : WebhookView :=
  ⟨"w1", "ann", "https://example.com/hook", [.taskComplete, .taskFailed], true, 0⟩

/-- The second try comes after the wait. -/
def calledTwice : List CallbackAction :=
  [.register "ann" "w1" { url := "https://example.com/hook" },
    .taskEnded (some "ann") none annsPayload, .lookUp 0 true, .send 1 none (some "configured"),
    .elapse 2000000, .send 1 none none]

def twiceRun : List CallbackStep := (callbacks callbackEnv quotedText).run .empty calledTwice

theorem twiceRun_long : 5 < twiceRun.length := by decide +kernel

theorem ann_called : ∃ past x later, twiceRun = past ++ x :: later ∧
    (∀ y ∈ past, ∀ b, y.input ≠ .lookUp 0 b) ∧
      ∃ z ∈ past, ∃ userId callbackUrl payload calls,
        z.input = .taskEnded userId callbackUrl payload ∧ z.label = .called calls (some 0) ∧
          ∃ found : List WebhookView, (found.map (·.webhookId)).Nodup ∧
            x.calls.map Prod.fst =
              found.map (fun w => ⟨payload.taskId, w.url, payload⟩) ∧
            ∀ w, w ∈ found ↔ Registered past w ∧ userId = some w.userId ∧ w.userId ≠ "" ∧
              (payload.outcome.event ∈ w.events ∨ .all ∈ w.events) := by
  have here := Machine.run_at 2 (Nat.lt_of_lt_of_le (by decide) twiceRun_long)
  exact ⟨_, _, _, here, called_iff calledTwice here rfl⟩

theorem ann_tried : ∃ past x later r, twiceRun = past ++ x :: later ∧ x.tries 1 = some r ∧
    (∀ r, x.label ≠ .posted r) ∧
      (∃ pre y mid c, past = pre ++ y :: mid ∧ (c, 1) ∈ y.calls ∧ CalledFor pre y c ∧
        Begun callbackEnv 1 (past ++ [x]) c r) ∧
      (∀ y ∈ past, ∀ r', y.tries 1 = some r' → r' = r) ∧
      ∃ tries : Retry.Tries (Option Nat),
        tries.events = eventsOf 1 (past ++ [x]) ∧ tries.Paced callbackPolicy := by
  have tried : (twiceRun.get ⟨5, twiceRun_long⟩).tries 1 = some (callbackEnv.request
      ⟨annsPayload.taskId, annsWebhook.url, annsPayload⟩ (some "configured")) := by
    decide +kernel
  have here := Machine.run_at 5 twiceRun_long
  have never := never_posted calledTwice here
  exact ⟨_, _, _, _, here, tried, never.1, never.2 1 _ tried⟩

end LegionForge.Gateway
