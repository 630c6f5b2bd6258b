import LegionForge.Agent.State

/-!
# Safeguards

The guard helpers every graph shares: the step counter, loop detection over
the action history, the token budget, the error counter, the human approval
check and the routing decision `check_safeguards`. Each returns the update the
source returns; three of them write `force_end` whether or not they trip, so a
later one can clear what an earlier one set.
-/

namespace LegionForge.Agent

open JsonText Security

/-- What nodes take from the configuration and from Python's library. -/
structure Env where
  loopDetectionWindow : Nat
  loopDetectionThreshold : Nat
  defaultTokenBudget : Nat
  maxErrorsPerRun : Nat
  haltOnToolResultInjection : Bool
  unicode : Unicode
  /-- `str` of an argument dict. -/
  pyStr : List (String × Json) → String
  /-- `hashlib.sha256(text.encode()).hexdigest()` -/
  sha256Hex : String → String

/-- A row of `hitl_pending` as it is inserted. -/
structure HitlRow where
  requestId : String
  runId : String
  threadId : String
  action : String
  categories : List Category
  inputExcerpt : String
  deriving DecidableEq, Repr

section
variable (env : Env)

/-! ## Counters -/

def checkStepLimit (s : AgentState) : Bool := decide (s.stepCount ≥ s.maxSteps)

def incrementStep (s : AgentState) : Update :=
  { stepCount := some (s.stepCount + 1) }

/-- `l[-n:]`; a zero bound takes the whole list. -/
def lastItems {α : Type} (n : Nat) (l : List α) : List α :=
  if n = 0 then l else l.drop (l.length - n)

def actionSignature (toolName : String) (toolInput : List (String × Json)) : String :=
  String.ofList ((env.sha256Hex s!"{toolName}:{env.pyStr toolInput}").toList.take 12)

def detectActionLoop (s : AgentState) (toolName : String)
    (toolInput : List (String × Json)) : Update :=
  let window := env.loopDetectionWindow
  let sig := actionSignature env toolName toolInput
  let history := s.actionHistory ++ [sig]
  let history := if history.length > window * 2 then lastItems (window * 2) history
    else history
  let count := (lastItems window history).count sig
  let looped := decide (count ≥ env.loopDetectionThreshold)
  { actionHistory := some history
    loopDetected := some looped
    forceEnd := some looped }

def checkTokenBudget (s : AgentState) (tokensUsed : Nat) : Update :=
  let newTotal := s.tokenCount + tokensUsed
  { tokenCount := some newTotal
    forceEnd := some (decide (newTotal ≥ env.defaultTokenBudget)) }

def recordError (s : AgentState) : Update :=
  let count := s.errorCount + 1
  { errorCount := some count
    forceEnd := some (decide (count ≥ env.maxErrorsPerRun)) }

/-! ## Routing decision -/

inductive Route where
  | finish
  | hitl
  | proceed
  deriving DecidableEq, Repr

/-- `check_safeguards`: `"end"`, `"hitl"` or `"continue"`. -/
def checkSafeguards (s : AgentState) : Route :=
  if s.forceEnd then .finish
  else if s.loopDetected then .finish
  else if checkStepLimit s then .finish
  else if s.errorCount ≥ env.maxErrorsPerRun then .finish
  else if s.hitlPending then .hitl
  else .proceed

/-! ## Human approval -/

/-- `check_hitl_required`. `inserted` is the id `create_hitl_request` returns,
`none` when it raises; the row that was stored comes with the update. -/
def checkHitlRequired (action inputText : String) (s : AgentState)
    (threadId : Option String) (categories : List Category)
    (inserted : Option String) : Option HitlRow × Update :=
  let reviewCats := categories.filter (·.review)
  let forceEndCats := categories.filter (·.forceEnd)
  -- reached when nothing is to be reviewed, and when storing the request failed
  let unreviewed : Update := if forceEndCats.isEmpty then {} else { forceEnd := some true }
  if reviewCats.isEmpty then (none, unreviewed)
  else match inserted with
    | some requestId =>
      (some
        { requestId
          runId := s.runId
          threadId := (threadId.filter (· ≠ "")).getD "unknown"
          action
          categories := reviewCats
          inputExcerpt := String.ofList (inputText.toList.take 200) },
        { hitlPending := some true
          hitlRunId := some s.runId
          hitlAction := some action
          hitlCategories := some reviewCats
          hitlRequestId := some requestId })
    | none => (none, unreviewed)

variable {env}

/-! ## What a guard may write -/

@[simp] theorem incrementStep_forceEnd (s : AgentState) :
    (incrementStep s).forceEnd = none := rfl

@[simp] theorem incrementStep_hitlPending (s : AgentState) :
    (incrementStep s).hitlPending = none := rfl

@[simp] theorem incrementStep_messages (s : AgentState) :
    (incrementStep s).messages = none := rfl

@[simp] theorem checkTokenBudget_hitlPending (s : AgentState) (n : Nat) :
    (checkTokenBudget env s n).hitlPending = none := rfl

@[simp] theorem checkTokenBudget_messages (s : AgentState) (n : Nat) :
    (checkTokenBudget env s n).messages = none := rfl

@[simp] theorem recordError_forceEnd (s : AgentState) :
    (recordError env s).forceEnd =
      some (decide (s.errorCount + 1 ≥ env.maxErrorsPerRun)) := rfl

@[simp] theorem recordError_hitlPending (s : AgentState) :
    (recordError env s).hitlPending = none := rfl

@[simp] theorem recordError_messages (s : AgentState) :
    (recordError env s).messages = none := rfl

/-- Loop detection sets both flags to one value. -/
theorem detectActionLoop_flags (s : AgentState) (name : String)
    (input : List (String × Json)) :
    (detectActionLoop env s name input).forceEnd =
      (detectActionLoop env s name input).loopDetected := rfl

@[simp] theorem detectActionLoop_hitlPending (s : AgentState) (name : String)
    (input : List (String × Json)) :
    (detectActionLoop env s name input).hitlPending = none := rfl

@[simp] theorem detectActionLoop_messages (s : AgentState) (name : String)
    (input : List (String × Json)) :
    (detectActionLoop env s name input).messages = none := rfl

theorem checkSafeguards_of_forceEnd {s : AgentState} (h : s.forceEnd = true) :
    checkSafeguards env s = .finish := by
  rw [checkSafeguards, if_pos h]

private theorem isEmpty_filter {α : Type} (p : α → Bool) (l : List α) :
    (l.filter p).isEmpty = !l.any p := by
  induction l with
  | nil => rfl
  | cons a l ih => cases h : p a <;> simp [h, ih]

/-- The update that comes with a stored request: the run is to pause, and nothing
else ends. -/
structure Pauses (s : AgentState) (row : HitlRow) (u : Update) : Prop where
  pending : u.hitlPending = some true
  request : u.hitlRequestId = some row.requestId
  run : row.runId = s.runId
  forceEnd : u.forceEnd = none
  messages : u.messages = none

/-- The update of the approval check, by what was found and whether the
request could be stored. -/
theorem checkHitlRequired_cases (action text : String) (s : AgentState)
    (thread : Option String) (cats : List Category) (inserted : Option String) :
    (∃ row u, checkHitlRequired action text s thread cats inserted = (some row, u) ∧
        Pauses s row u) ∨
      (checkHitlRequired action text s thread cats inserted =
          (none, { forceEnd := some true }) ∧ cats.any (·.forceEnd) = true) ∨
      (checkHitlRequired action text s thread cats inserted = (none, {}) ∧
        cats.any (·.forceEnd) = false) := by
  simp only [checkHitlRequired, isEmpty_filter]
  cases force : cats.any (·.forceEnd) <;> cases review : cats.any (·.review) <;>
    cases inserted
  case false.true.some requestId => exact .inl ⟨_, _, rfl, ⟨rfl, rfl, rfl, rfl, rfl⟩⟩
  case true.true.some requestId => exact .inl ⟨_, _, rfl, ⟨rfl, rfl, rfl, rfl, rfl⟩⟩
  all_goals simp

end

end LegionForge.Agent
