import LegionForge.Lib.JsonText
import LegionForge.Security.Sanitize

/-!
# Messages, graph state and state updates

The part of `AgentState` that nodes, routers and safeguards read. A node
returns a dict of the keys it sets; here that is an `Update`, whose absent keys
are `none`. `Update.merge` is `dict.update` and `AgentState.apply` is what the
engine does with a returned dict: `messages` is appended to, every other key is
overwritten.
-/

namespace LegionForge.Agent

open JsonText Security

/-! ## Messages -/

/-- The content of a message: a text, or a list of parts known by its `str`. -/
inductive Content where
  | text (s : String)
  | parts (repr : String)
  deriving DecidableEq, Repr

/-- `str(message.content)` -/
def Content.str : Content → String
  | .text s => s
  | .parts repr => repr

/-- One entry of `tool_calls`. The key `id` may be missing, and its value may
be `None`. -/
structure ToolCall where
  id : Option (Option String)
  name : String
  args : List (String × Json)

/-- `tc.get("id", "")` -/
def ToolCall.tcId (tc : ToolCall) : Option String := tc.id.getD (some "")

structure ToolMessage where
  content : Content
  toolCallId : String
  name : String
  deriving DecidableEq, Repr

inductive Message where
  | system (content : Content)
  | human (content : Content)
  | ai (content : Content) (toolCalls : List ToolCall)
  | tool (msg : ToolMessage)

def Message.content : Message → Content
  | .system c | .human c | .ai c _ => c
  | .tool m => m.content

/-- `getattr(message, "tool_calls", None) or []` -/
def Message.toolCalls : Message → List ToolCall
  | .ai _ calls => calls
  | _ => []

/-! ## State -/

structure AgentState where
  messages : List Message
  stepCount : Nat
  maxSteps : Nat
  errorCount : Nat
  loopDetected : Bool
  forceEnd : Bool
  actionHistory : List String
  tokenCount : Nat
  runId : String
  task : String
  result : Option String
  sequenceSoFar : List String
  verifyRounds : Nat
  hitlPending : Bool
  hitlRunId : Option String
  hitlAction : Option String
  hitlCategories : List Category
  hitlRequestId : Option String

/-- The tool calls of the last message. -/
def AgentState.toolCalls (s : AgentState) : List ToolCall :=
  match s.messages.getLast? with
  | some m => m.toolCalls
  | none => []

/-- The keys a node may set. -/
structure Update where
  messages : Option (List Message) := none
  stepCount : Option Nat := none
  errorCount : Option Nat := none
  loopDetected : Option Bool := none
  forceEnd : Option Bool := none
  actionHistory : Option (List String) := none
  tokenCount : Option Nat := none
  result : Option String := none
  sequenceSoFar : Option (List String) := none
  verifyRounds : Option Nat := none
  hitlPending : Option Bool := none
  hitlRunId : Option String := none
  hitlAction : Option String := none
  hitlCategories : Option (List Category) := none
  hitlRequestId : Option String := none

/-- `u.update(w)`: the keys of `w` win. -/
def Update.merge (u w : Update) : Update where
  messages := w.messages.or u.messages
  stepCount := w.stepCount.or u.stepCount
  errorCount := w.errorCount.or u.errorCount
  loopDetected := w.loopDetected.or u.loopDetected
  forceEnd := w.forceEnd.or u.forceEnd
  actionHistory := w.actionHistory.or u.actionHistory
  tokenCount := w.tokenCount.or u.tokenCount
  result := w.result.or u.result
  sequenceSoFar := w.sequenceSoFar.or u.sequenceSoFar
  verifyRounds := w.verifyRounds.or u.verifyRounds
  hitlPending := w.hitlPending.or u.hitlPending
  hitlRunId := w.hitlRunId.or u.hitlRunId
  hitlAction := w.hitlAction.or u.hitlAction
  hitlCategories := w.hitlCategories.or u.hitlCategories
  hitlRequestId := w.hitlRequestId.or u.hitlRequestId

/-- A returned dict written to the state. -/
def AgentState.apply (s : AgentState) (u : Update) : AgentState where
  messages := s.messages ++ u.messages.getD []
  stepCount := u.stepCount.getD s.stepCount
  maxSteps := s.maxSteps
  errorCount := u.errorCount.getD s.errorCount
  loopDetected := u.loopDetected.getD s.loopDetected
  forceEnd := u.forceEnd.getD s.forceEnd
  actionHistory := u.actionHistory.getD s.actionHistory
  tokenCount := u.tokenCount.getD s.tokenCount
  runId := s.runId
  task := s.task
  result := u.result.or s.result
  sequenceSoFar := u.sequenceSoFar.getD s.sequenceSoFar
  verifyRounds := u.verifyRounds.getD s.verifyRounds
  hitlPending := u.hitlPending.getD s.hitlPending
  hitlRunId := u.hitlRunId.or s.hitlRunId
  hitlAction := u.hitlAction.or s.hitlAction
  hitlCategories := u.hitlCategories.getD s.hitlCategories
  hitlRequestId := u.hitlRequestId.or s.hitlRequestId

section
variable (s : AgentState) (u w : Update)

@[simp] theorem Update.merge_forceEnd :
    (u.merge w).forceEnd = w.forceEnd.or u.forceEnd := rfl

@[simp] theorem Update.merge_loopDetected :
    (u.merge w).loopDetected = w.loopDetected.or u.loopDetected := rfl

@[simp] theorem Update.merge_hitlPending :
    (u.merge w).hitlPending = w.hitlPending.or u.hitlPending := rfl

@[simp] theorem Update.merge_messages :
    (u.merge w).messages = w.messages.or u.messages := rfl

@[simp] theorem AgentState.apply_forceEnd :
    (s.apply u).forceEnd = u.forceEnd.getD s.forceEnd := rfl

@[simp] theorem AgentState.apply_loopDetected :
    (s.apply u).loopDetected = u.loopDetected.getD s.loopDetected := rfl

@[simp] theorem AgentState.apply_hitlPending :
    (s.apply u).hitlPending = u.hitlPending.getD s.hitlPending := rfl

@[simp] theorem AgentState.apply_messages :
    (s.apply u).messages = s.messages ++ u.messages.getD [] := rfl

@[simp] theorem AgentState.apply_actionHistory :
    (s.apply u).actionHistory = u.actionHistory.getD s.actionHistory := rfl

@[simp] theorem AgentState.apply_errorCount :
    (s.apply u).errorCount = u.errorCount.getD s.errorCount := rfl

@[simp] theorem AgentState.apply_hitlRequestId :
    (s.apply u).hitlRequestId = u.hitlRequestId.or s.hitlRequestId := rfl

end

end LegionForge.Agent
