import LegionForge.Lib.JsonText
import LegionForge.Security.FetchUrl

/-!
# Inbound requests to the webhook and WhatsApp connectors

Both connectors check an HMAC of the raw body before they queue a task. The
generic webhook lets the body name the secret it is checked under; the WhatsApp
connector checks a signature only if one was sent. What each does behind its check
is a function of its own here, `admitTask` and `deliver`, so that
`signed_when_queued_iff` can say exactly which requests get past the check without
the signature they should carry.
-/

namespace LegionForge.Connectors

open JsonText Security

/-- `InboundRequest`, with its defaults filled in. -/
structure InboundRequest where
  task : String
  callbackUrl : String
  agentType : String
  secret : String

/-- How `json.loads` comes back: anything but a `JSONDecodeError` is not caught. -/
inductive Loaded where
  | decodeError
  | raised
  | value (data : Json)

/-- What the connectors take from elsewhere. -/
structure Env where
  url : UrlEnv
  getaddrinfo : String → DnsAnswer
  /-- `hmac.new(secret.encode(), body, hashlib.sha256).hexdigest()` -/
  hmacSha256 : String → List UInt8 → String
  hexdigest_ascii : ∀ secret body, (hmacSha256 secret body).toList.all (·.toNat < 128) = true
  /-- The body as an `InboundRequest`; `none` if it is refused before the route is called. -/
  parseInbound : List UInt8 → Option InboundRequest
  jsonLoads : List UInt8 → Loaded
  /-- `_download_media` -/
  downloadMedia : Json → Option (List UInt8)

/-- A request: its raw body and its `x-hub-signature-256` header. -/
structure Request where
  body : List UInt8
  signature : Option String

/-- The configuration of the WhatsApp connector. -/
structure WhatsAppConfig where
  apiToken : String
  phoneNumberId : String

/-- A text sent back to the sender. -/
structure Reply where
  phone : Json
  text : String

inductive Answer (α : Type) where
  /-- An exception nobody catches. -/
  | raised
  /-- The body is no `InboundRequest`. -/
  | unprocessable
  | refused (status : Nat) (detail : String)
  | status (status : String) (reply : Option Reply)
  | queued (task : α)

/-- What `_process_and_callback` is started with. -/
structure WebhookTask where
  taskText : String
  agentType : String
  callbackUrl : String

/-- What `_process_message` is started with; the image is base64-encoded there. -/
structure WhatsAppTask where
  phone : Json
  taskText : String
  imageData : Option (List UInt8)

def Answer.isQueued {α : Type} : Answer α → Bool
  | .queued _ => true
  | _ => false

section
variable (env : Env)

/-! ## The signature check -/

def taskMaxLen : Nat := 4000

/-- `_verify_hmac`; `compare_digest` raises for a text that is not ASCII. -/
def verifyHmac (body : List UInt8) (signatureHeader secret : String) : Option Bool :=
  if "sha256=".toList.isPrefixOf signatureHeader.toList then
    let expectedHex := signatureHeader.toList.drop "sha256=".length
    let computed := (env.hmacSha256 secret body).toList
    if expectedHex.all (·.toNat < 128) && computed.all (·.toNat < 128) then
      some (computed = expectedHex)
    else none
  else some false

/-- `request.headers.get("x-hub-signature-256", "")` -/
def Request.sig (r : Request) : String := r.signature.getD ""

/-! ## The generic webhook -/

/-- `POST /inbound` behind the signature check. -/
def admitTask (req : InboundRequest) : Answer WebhookTask :=
  let taskText := env.url.unicode.strip req.task
  if taskText = "" then .refused 422 "task must not be empty."
  else if taskText.length > taskMaxLen then
    .refused 422 s!"task exceeds {taskMaxLen} character limit."
  else
    let callbackUrl := env.url.unicode.strip req.callbackUrl
    if ["http://", "https://"].all fun scheme =>
        !scheme.toList.isPrefixOf callbackUrl.toList then
      .refused 422 "callback_url must start with http:// or https://"
    -- is_ssrf_url: any error of the URL check blocks
    else if (validateFetchUrl env.url env.getaddrinfo callbackUrl).isSome then
      .refused 422 "callback_url targets a private or internal address."
    else .queued { taskText, agentType := req.agentType, callbackUrl }

/-- `POST /inbound` -/
def inbound (inboundSecret : String) (r : Request) : Answer WebhookTask :=
  match env.parseInbound r.body with
  | none => .unprocessable
  | some req =>
    let effectiveSecret := if req.secret ≠ "" then req.secret else inboundSecret
    if effectiveSecret = "" then admitTask env req
    else match verifyHmac env r.body r.sig effectiveSecret with
      | none => .raised
      | some false => .refused 401 "HMAC signature verification failed."
      | some true => admitTask env req

/-! ## WhatsApp -/

/-- `value[key]`; `none` for the errors the route catches. -/
def subscript (key : String) : Json → Option Json
  | .obj members => members.reverse.lookup key
  | _ => none

/-- `value[0]` -/
def first : Json → Option Json
  | .arr items => items.head?
  | .str text => text.toList.head?.map fun c => .str (String.ofList [c])
  | _ => none

/-- `bool(value)`; a number is true if it has a digit other than zero. -/
def truthy : Json → Bool
  | .null => false
  | .bool b => b
  | .num t => (t.text.takeWhile (· ≠ 'e')).any fun c => '1' ≤ c && c ≤ '9'
  | .str text => text ≠ ""
  | .arr items => !items.isEmpty
  | .obj members => !members.isEmpty

/-- `value.get(key, default)`; `none` if there is no such method. -/
def get (key : String) (fallback : Json) : Json → Option Json
  | .obj members => some ((members.reverse.lookup key).getD fallback)
  | _ => none

inductive Payload where
  | raised
  | ignored
  | message (msg : Json)

/-- `data["entry"][0]["changes"][0]["value"]` and its first message. -/
def firstMessage (data : Json) : Payload :=
  match (subscript "entry" data).bind first |>.bind (subscript "changes") |>.bind first
      |>.bind (subscript "value") with
  | none => .ignored
  | some change =>
    match get "messages" .null change with
    | none => .raised
    | some messages =>
      if !truthy messages then .ignored
      else match first messages with
        | none => .ignored
        | some msg => .message msg

/-- `_phone_log_safe` iterates over the number and asks each item for `isdigit`. -/
def phoneLogSafe : Json → Bool
  | .str _ | .obj _ => true
  | .arr items => items.all fun
    | .str _ => true
    | _ => false
  | _ => false

/-- `msg.get(kind, {}).get(key, "").strip()` -/
def textOf (kind key : String) (msg : Json) : Option String :=
  ((get kind (.obj []) msg).bind (get key (.str ""))).bind fun
    | .str text => some (env.url.unicode.strip text)
    | _ => none

/-- The end of `POST /webhook`, once the message has been read. -/
def enqueue (config : WhatsAppConfig) (senderPhone : Json) (taskText : String)
    (imageData : Option (List UInt8)) : Answer WhatsAppTask :=
  if taskText = "" then .status "empty_message" none
  else if !truthy senderPhone || config.phoneNumberId = "" || config.apiToken = "" then
    .status "misconfigured" none
  else .queued
    { phone := senderPhone
      taskText := String.ofList (taskText.toList.take taskMaxLen)
      imageData }

/-- A message of the payload, by its type. -/
def deliverMessage (config : WhatsAppConfig) (msg : Json) : Answer WhatsAppTask :=
  match get "from" (.str "") msg, get "type" (.str "text") msg with
  | some senderPhone, some msgType =>
    if !phoneLogSafe senderPhone then .raised
    else
      let unsupported : Answer WhatsAppTask := .status "unsupported_type"
        (if truthy senderPhone && config.phoneNumberId ≠ "" && config.apiToken ≠ "" then
          some ⟨senderPhone, "Sorry, I only support text and image messages at the moment."⟩
        else none)
      match msgType with
      | .str kind =>
        if kind = "text" then
          match textOf env "text" "body" msg with
          | none => .raised
          | some taskText => enqueue config senderPhone taskText none
        else if kind = "image" then
          match textOf env "image" "caption" msg,
              (get "image" (.obj []) msg).bind (get "id" (.str "")) with
          | some caption, some mediaId =>
            let imageData := if truthy mediaId then
                (env.downloadMedia mediaId).filter (· ≠ [])
              else none
            enqueue config senderPhone
              (if caption = "" then "Describe this image." else caption) imageData
          | _, _ => .raised
        else unsupported
      | _ => unsupported
  | _, _ => .raised

/-- `POST /webhook` behind the signature check. -/
def deliver (config : WhatsAppConfig) (body : List UInt8) : Answer WhatsAppTask :=
  match env.jsonLoads body with
  | .decodeError => .refused 400 "Invalid JSON payload."
  | .raised => .raised
  | .value data =>
    match firstMessage data with
    | .raised => .raised
    | .ignored => .status "ignored" none
    | .message msg => deliverMessage env config msg

/-- `POST /webhook` -/
def webhookInbound (config : WhatsAppConfig) (r : Request) : Answer WhatsAppTask :=
  if config.apiToken = "" then deliver env config r.body
  -- without a header there is a line in the log and no check
  else if r.sig = "" then deliver env config r.body
  else match verifyHmac env r.body r.sig config.apiToken with
    | none => .raised
    | some false => .refused 403 "HMAC signature verification failed."
    | some true => deliver env config r.body

/-! ## Signed requests -/

/-- The header holds the HMAC of the raw body under the secret. -/
def Signed (secret : String) (r : Request) : Prop :=
  r.signature = some ("sha256=" ++ env.hmacSha256 secret r.body)

/-- A body that names a secret of its own does not get by with it: it is refused
for its task or its callback, it is not signed under that secret either, or the two
secrets sign it alike. -/
def OwnSecretIdle (inboundSecret : String) (r : Request) : Prop :=
  ∀ req, env.parseInbound r.body = some req → req.secret ≠ "" →
    (admitTask env req).isQueued = false ∨ ¬ Signed env req.secret r ∨
      env.hmacSha256 req.secret r.body = env.hmacSha256 inboundSecret r.body

variable {env}

theorem sig_of_signed {r : Request} {secret : String} (signed : Signed env secret r) :
    r.sig = "sha256=" ++ env.hmacSha256 secret r.body := by
  rw [Request.sig, signed, Option.getD_some]

/-- A signature starts with its scheme, so it is not the default of the header. -/
theorem signature_ne_empty (digest : String) : "sha256=" ++ digest ≠ "" := by
  intro empty
  have chars := congrArg String.toList empty
  rw [String.toList_append] at chars
  cases chars

theorem signed_of_sig {r : Request} {secret : String}
    (sig : r.sig = "sha256=" ++ env.hmacSha256 secret r.body) : Signed env secret r := by
  cases h : r.signature with
  | none =>
    rw [Request.sig, h, Option.getD_none] at sig
    exact absurd sig.symm (signature_ne_empty _)
  | some header =>
    rw [Request.sig, h, Option.getD_some] at sig
    rw [Signed, h, sig]

theorem verifyHmac_iff {r : Request} {secret : String} :
    verifyHmac env r.body r.sig secret = some true ↔ Signed env secret r := by
  have ascii := env.hexdigest_ascii secret r.body
  unfold verifyHmac
  dsimp only
  constructor
  · intro accepted
    split at accepted
    · next scheme =>
      split at accepted
      · have same := of_decide_eq_true (Option.some.inj accepted)
        obtain ⟨rest, hrest⟩ := List.isPrefixOf_iff_prefix.mp scheme
        refine signed_of_sig (String.toList_inj.mp ?_)
        rw [String.toList_append, same, ← hrest]
        rfl
      · cases accepted
    · cases Option.some.inj accepted
  · intro signed
    have sig : r.sig.toList = "sha256=".toList ++ (env.hmacSha256 secret r.body).toList := by
      rw [sig_of_signed signed, String.toList_append]
    have digest : r.sig.toList.drop "sha256=".length = (env.hmacSha256 secret r.body).toList := by
      rw [sig]
      rfl
    rw [if_pos (by rw [sig]; exact List.isPrefixOf_iff_prefix.mpr (List.prefix_append _ _)),
      digest, ascii]
    simp

/-! ## The routes, by their check -/

/-- With a secret configured a webhook task is queued if the body is signed under
the secret it names, or else under the configured one. -/
theorem inbound_queued_iff {inboundSecret : String} (configured : inboundSecret ≠ "")
    {r : Request} :
    (inbound env inboundSecret r).isQueued = true ↔
      ∃ req, env.parseInbound r.body = some req ∧ (admitTask env req).isQueued = true ∧
        Signed env (if req.secret ≠ "" then req.secret else inboundSecret) r := by
  unfold inbound
  cases parsed : env.parseInbound r.body with
  | none => simp [Answer.isQueued]
  | some req =>
    have keyed : (if req.secret ≠ "" then req.secret else inboundSecret) ≠ "" := by
      split
      · assumption
      · exact configured
    simp only [if_neg keyed, Option.some.injEq, exists_eq_left', ← verifyHmac_iff]
    split <;> simp_all [Answer.isQueued]

theorem webhookInbound_queued_iff {config : WhatsAppConfig} (configured : config.apiToken ≠ "")
    {r : Request} :
    (webhookInbound env config r).isQueued = true ↔
      (deliver env config r.body).isQueued = true ∧
        (r.sig = "" ∨ Signed env config.apiToken r) := by
  unfold webhookInbound
  rw [if_neg configured]
  by_cases header : r.sig = ""
  · simp [header]
  · rw [if_neg header, ← verifyHmac_iff]
    simp only [header, false_or]
    split <;> simp_all [Answer.isQueued]

/-- For every request to either connector with a secret configured: whether a task
is queued only under a signature of the raw body with the configured secret. For the
webhook that is so exactly when a secret named in the body is idle, for WhatsApp
exactly when there is a header or nothing to queue. -/
theorem signed_when_queued_iff {inboundSecret : String} {config : WhatsAppConfig}
    (secret : inboundSecret ≠ "") (token : config.apiToken ≠ "") (r : Request) :
    (((inbound env inboundSecret r).isQueued = true → Signed env inboundSecret r) ↔
        OwnSecretIdle env inboundSecret r) ∧
      (((webhookInbound env config r).isQueued = true → Signed env config.apiToken r) ↔
        r.sig ≠ "" ∨ (deliver env config r.body).isQueued = false) := by
  rw [inbound_queued_iff secret, webhookInbound_queued_iff token]
  refine ⟨⟨fun law req parsed own => ?_, ?_⟩, ⟨fun law => ?_, ?_⟩⟩
  · cases admitted : (admitTask env req).isQueued with
    | false => exact .inl rfl
    | true =>
      by_cases signed : Signed env req.secret r
      · have both := law ⟨req, parsed, admitted, by rwa [if_pos own]⟩
        rw [Signed, signed] at both
        have same := congrArg String.toList (Option.some.inj both)
        rw [String.toList_append, String.toList_append] at same
        exact .inr (.inr (String.toList_inj.mp (List.append_cancel_left same)))
      · exact .inr (.inl signed)
  · rintro idle ⟨req, parsed, admitted, signed⟩
    by_cases own : req.secret = ""
    · rwa [if_neg (not_not.mpr own)] at signed
    · rw [if_pos own] at signed
      rcases idle req parsed own with refused | unsigned | same
      · rw [refused] at admitted
        cases admitted
      · exact absurd signed unsigned
      · rw [Signed, ← same]
        exact signed
  · by_cases header : r.sig = ""
    · right
      by_contra queued
      rw [Bool.not_eq_false] at queued
      have sig := sig_of_signed (law ⟨queued, .inl header⟩)
      rw [header] at sig
      exact absurd sig.symm (signature_ne_empty _)
    · exact .inl header
  · rintro (header | nothing) ⟨queued, none | signed⟩
    · exact absurd none header
    · exact signed
    · rw [nothing] at queued
      cases queued
    · exact signed

end

/-! ## Two requests -/

def bytes (text : String) : List UInt8 := text.toList.map fun c => c.toNat.toUInt8

/-- `{"task":"hi","callback_url":"https://example.com/cb","secret":"mine"}` -/
def ownSecretBody : List UInt8 :=
  bytes "\x7b\"task\":\"hi\",\"callback_url\":\"https://example.com/cb\",\"secret\":\"mine\"\x7d"

/-- A text message as Meta sends it. -/
def messageBody : List UInt8 :=
  bytes ("\x7b\"entry\":[\x7b\"changes\":[\x7b\"value\":\x7b\"messages\":[\x7b\"from\":\"4915\"," ++
    "\"text\":\x7b\"body\":\"hi\"\x7d\x7d]\x7d\x7d]\x7d]\x7d")

def messageJson : Json :=
  .obj [("entry", .arr [.obj [("changes", .arr [.obj [("value", .obj [("messages", .arr
    [.obj [("from", .str "4915"), ("text", .obj [("body", .str "hi")])]])])]])]])]

/-- The digests of the first body under its own secret and the configured one. -/
def sampleHmac (secret : String) (body : List UInt8) : String :=
  if body = ownSecretBody && secret = "mine" then
    "1deeb61af1cc747206ca059634b249917b2de16491424935ce4fadcadd640812"
  else if body = ownSecretBody && secret = "configured" then
    "2a2bde39ec7e2fe0b9978ddc2cab65c9a8565385993cf3a3a8649d3d2ec82b2d"
  else "86963d9e6473f88fd983b2edb7e2efe4fb512dad99b13127dd53a433152f7a11"

def sampleEnv : Env where
  url := { unicode := .ascii, netlocValid := fun _ => true }
  getaddrinfo _ := .addresses ["93.184.215.14"]
  hmacSha256 := sampleHmac
  hexdigest_ascii secret body := by
    unfold sampleHmac
    split
    · decide
    · split <;> decide
  parseInbound body :=
    if body = ownSecretBody then some
      { task := "hi", callbackUrl := "https://example.com/cb", agentType := "orchestrator",
        secret := "mine" }
    else none
  jsonLoads body := if body = messageBody then .value messageJson else .decodeError
  downloadMedia _ := none

def sampleConfig : WhatsAppConfig where
  apiToken := "configured"
  phoneNumberId := "1234567890"

/-- Signed under the secret in its own body. -/
def ownSecretRequest : Request where
  body := ownSecretBody
  signature := some "sha256=1deeb61af1cc747206ca059634b249917b2de16491424935ce4fadcadd640812"

def unsignedMessage : Request where
  body := messageBody
  signature := none

def signedMessage : Request where
  body := messageBody
  signature := some "sha256=86963d9e6473f88fd983b2edb7e2efe4fb512dad99b13127dd53a433152f7a11"

/-- A message is queued under its signature, and no webhook request. -/
theorem signed_message_keeps_law :
    (webhookInbound sampleEnv sampleConfig signedMessage).isQueued = true ∧
      ((webhookInbound sampleEnv sampleConfig signedMessage).isQueued = true →
        Signed sampleEnv sampleConfig.apiToken signedMessage) ∧
      ((inbound sampleEnv "configured" signedMessage).isQueued = true →
        Signed sampleEnv "configured" signedMessage) := by
  have law := @signed_when_queued_iff sampleEnv "configured" sampleConfig (by decide)
    (by decide) signedMessage
  refine ⟨by decide +kernel, law.2.mpr (.inl (by decide)), law.1.mpr ?_⟩
  intro req parsed
  have none : sampleEnv.parseInbound signedMessage.body = none := by decide +kernel
  rw [none] at parsed
  cases parsed

/-- A secret of the caller's own, and no signature at all. -/
theorem unsigned_requests_queued :
    ((inbound sampleEnv "configured" ownSecretRequest).isQueued = true ∧
        ¬ Signed sampleEnv "configured" ownSecretRequest) ∧
      (webhookInbound sampleEnv sampleConfig unsignedMessage).isQueued = true ∧
        ¬ Signed sampleEnv sampleConfig.apiToken unsignedMessage := by
  refine ⟨⟨by decide +kernel, ?_⟩, by decide +kernel, nofun⟩
  unfold Signed
  decide +kernel

end LegionForge.Connectors
