import LegionForge.Lib.Machine
import LegionForge.Agent.ToolBatch

/-!
# The agent graphs

Six graphs share one shape: an agent node that calls the model, a router, and
for the specialised agents a tools node that leads back to the agent. What sets
them apart is data of the agent node (`AgentSpec`) and the routers.

A graph is a `Machine`: its state is the node to run next and the graph state,
an input is everything the outside answers during one node execution, and a
step is one node execution with the routing after it. A run is over at the end
of the graph, when a node raises, and before a node the graph was compiled to
interrupt at; the engine's own step limit is a run whose inputs end.
-/

namespace LegionForge.Agent

open JsonText Security

inductive AgentType where
  | base
  | researcher
  | orchestrator
  | observer
  | crystallizer
  | threatAnalyst
  deriving DecidableEq, Repr

inductive Node where
  | agent
  | tools
  | verify
  | hitlGate
  | finalize
  | done
  | failed
  deriving DecidableEq, Repr

/-! ## What the outside answers -/

/-- A model response; `usage` is `usage_metadata["total_tokens"]` where present. -/
structure LlmResponse where
  content : Content
  toolCalls : List ToolCall
  usage : Option Nat

/-- The answers one node execution meets. -/
structure NodeInput where
  /-- The agent node's code before the model call raises. -/
  preflightRaises : Bool
  /-- The model calls of the node in order, `none` for one that raises. -/
  llm : Nat → Option LlmResponse
  /-- The id of an injected tool call. -/
  fallbackId : String
  /-- `_describe_llm_error(e)` -/
  errorText : String
  verdicts : Verdicts
  /-- The inner tool node's answer, `none` if it raises. -/
  inner : Option (List ToolMessage)
  /-- The text a finalizer extracts, `none` if it raises. -/
  finalText : Option String

/-! ## Agent nodes -/

/-- How a step 1 without tool calls is answered: a second model call, then a call
of this tool made up from the state. -/
structure Enforcement where
  toolName : String
  argName : String
  argText : AgentState → String

/-- What sets one agent node apart from another. -/
structure AgentSpec where
  /-- With `force_end` set the node returns before the model call. -/
  guarded : Bool
  enforcement : Option Enforcement
  /-- An exception adds an `AIMessage` that describes it. -/
  describesErrors : Bool

section
variable (env : Env)

/-- The node's `except` branch, with the updates made so far. -/
def agentError (spec : AgentSpec) (s : AgentState) (inp : NodeInput) (updates : Update) :
    Update :=
  let updates := updates.merge (recordError env s)
  if spec.describesErrors then
    { updates with messages := some [.ai (.text inp.errorText) []] }
  else updates

/-- The updates for the tokens a response reports. -/
def recordUsage (s : AgentState) (response : LlmResponse) (updates : Update) : Update :=
  match response.usage with
  | some tokens => updates.merge (checkTokenBudget env s tokens)
  | none => updates

/-- The call injected when the model made none on step 1. -/
def injectedCall (e : Enforcement) (s : AgentState) (inp : NodeInput) : ToolCall :=
  { id := some (some inp.fallbackId)
    name := e.toolName
    args := [(e.argName, .str (e.argText s))] }

def agentNode (spec : AgentSpec) (s : AgentState) (inp : NodeInput) : NodeRun :=
  let updates := incrementStep s
  if spec.guarded && s.forceEnd then { events := [], outcome := .returned updates }
  else if inp.preflightRaises then
    { events := [], outcome := .returned (agentError env spec s inp updates) }
  else match inp.llm 0 with
    | none => { events := [.llm], outcome := .returned (agentError env spec s inp updates) }
    | some response =>
      let updates := recordUsage env s response updates
      let answered (m : Message) : Outcome :=
        .returned { updates with messages := some [m] }
      match spec.enforcement with
      | some e =>
        if s.stepCount + 1 ≤ 1 && response.toolCalls.isEmpty then
          match inp.llm 1 with
          | none =>
            { events := [.llm, .llm]
              outcome := .returned (agentError env spec s inp updates) }
          | some retry =>
            { events := [.llm, .llm]
              outcome :=
                if retry.toolCalls.isEmpty then
                  answered (.ai (.text "") [injectedCall e s inp])
                else answered (.ai retry.content retry.toolCalls) }
        else
          { events := [.llm], outcome := answered (.ai response.content response.toolCalls) }
      | none =>
        { events := [.llm], outcome := answered (.ai response.content response.toolCalls) }

/-- The last human message as the model gets to see it. -/
def lastHumanText (s : AgentState) : String :=
  let human : Option Content := s.messages.reverse.findSome? fun
    | .human c => some c
    | _ => none
  match human with
  | some (.text t) => (sanitizeText env.unicode t true true true).1
  | some (.parts repr) => repr
  | none => ""

/-- The agent node of each graph. -/
def agentSpec : AgentType → AgentSpec
  | .base => { guarded := true, enforcement := none, describesErrors := true }
  | .researcher =>
    { guarded := true
      enforcement := some
        { toolName := "web_search", argName := "query", argText := (·.task) }
      describesErrors := true }
  | .orchestrator =>
    { guarded := true
      enforcement := some
        { toolName := "spawn_researcher", argName := "sub_task",
          argText := lastHumanText env }
      describesErrors := false }
  | .observer | .crystallizer | .threatAnalyst =>
    { guarded := false, enforcement := none, describesErrors := false }

/-! ## Other nodes -/

/-- `needle in text` -/
def containsText (needle : String) (text : List Char) : Bool :=
  text.tails.any fun t => needle.toList.isPrefixOf t

def hitlGateText (s : AgentState) : String :=
  let action := s.hitlAction.getD "None"
  let categories := ", ".intercalate (s.hitlCategories.map (·.name))
  let requestId := s.hitlRequestId.getD "None"
  s!"[HITL PENDING] Action '{action}' requires operator approval " ++
  s!"before it can proceed (categories: {categories}). Request ID: {requestId}"

def hitlGateNode (s : AgentState) : NodeRun where
  events := []
  outcome := .returned { result := some (hitlGateText s) }

/-- A finalizer sets the result and nothing else. -/
def finalizerNode (inp : NodeInput) : NodeRun where
  events := []
  outcome := match inp.finalText with
    | some text => .returned { result := some text }
    | none => .raised

/-- `MAX_VERIFY_ROUNDS` -/
def maxVerifyRounds : Nat := 1

/-- The answer under review: the last message where that is a text. -/
def currentAnswer (s : AgentState) : String :=
  match s.messages.getLast?.map Message.content with
  | some (.text t) => t
  | _ => ""

def refinementText (feedback : String) : String :=
  s!"Your answer was incomplete. Reviewer feedback: {feedback}\n\n" ++
  "Please revise your answer to fully address the original task."

def verifyNode (s : AgentState) (inp : NodeInput) : NodeRun :=
  if s.verifyRounds ≥ maxVerifyRounds then { events := [], outcome := .returned {} }
  else if currentAnswer s = "" || s.task = "" then
    { events := [], outcome := .returned {} }
  else match inp.llm 0 with
    | none => { events := [.llm], outcome := .returned {} }
    | some response =>
      let feedback := response.content.str
      if containsText "VERIFIED" (env.unicode.upper feedback.toList) then
        { events := [.llm], outcome := .returned {} }
      else
        { events := [.llm]
          outcome := .returned
            { messages := some [.human (.text (refinementText feedback))]
              verifyRounds := some (s.verifyRounds + 1) } }

/-! ## Routers -/

def finalPhrases : List String := ["final answer:", "task complete", "done."]

/-- `route_after_agent` of the base graph. -/
def routeAfterAgent (s : AgentState) : Node :=
  match checkSafeguards env s with
  | .hitl => .hitlGate
  | .finish => .finalize
  | .proceed =>
    match s.messages.getLast? with
    | some (.ai content _) =>
      if finalPhrases.any fun p => containsText p (env.unicode.lower content.str.toList) then
        .finalize
      else .agent
    | _ => .agent

/-- The router of a graph with tools; without a tool call it goes to `otherwise`. -/
def routeToTools (otherwise : Node) (s : AgentState) : Node :=
  match checkSafeguards env s with
  | .finish => .finalize
  | _ => if s.toolCalls.isEmpty then otherwise else .tools

def routeAfterResearcher (s : AgentState) : Node := routeToTools env .finalize s
def routeAfterOrchestrator (s : AgentState) : Node := routeToTools env .verify s
def routeAfterObserver (s : AgentState) : Node := routeToTools env .finalize s
def routeAfterCrystallizer (s : AgentState) : Node := routeToTools env .finalize s
def routeAfterAnalyst (s : AgentState) : Node := routeToTools env .finalize s

def routeAfterVerify (s : AgentState) : Node :=
  match s.messages.getLast? with
  | some (.human _) => if s.verifyRounds > 0 then .agent else .finalize
  | _ => .finalize

def routeAfter : AgentType → AgentState → Node
  | .base => routeAfterAgent env
  | .researcher => routeAfterResearcher env
  | .orchestrator => routeAfterOrchestrator env
  | .observer => routeAfterObserver env
  | .crystallizer => routeAfterCrystallizer env
  | .threatAnalyst => routeAfterAnalyst env

/-! ## The graphs as machines -/

/-- The tools given to each graph's `SecureToolNode`. -/
def graphTools : AgentType → List String
  | .base => []
  | .researcher => ["web_search", "web_fetch", "web_fetch_js", "document_summarize",
      "memory_write", "memory_recall"]
  | .orchestrator => ["spawn_researcher", "fan_out_researchers"]
  | .observer => ["read_tool_call_history", "nominate_candidate"]
  | .crystallizer => ["read_crystallization_candidate", "submit_crystallization_package"]
  | .threatAnalyst => ["fetch_threat_events", "fetch_bom", "propose_rule", "store_digest"]

/-- The node to run next and the graph state, as a checkpoint holds them. -/
structure Config where
  node : Node
  state : AgentState

/-- What one node execution did: its events and, unless it raised, its update. -/
structure StepLabel where
  events : List Event
  update : Option Update

variable (agentType : AgentType) (threadId : Option String)

def runNode (node : Node) (s : AgentState) (inp : NodeInput) : NodeRun :=
  match node with
  | .agent => agentNode env (agentSpec env agentType) s inp
  | .tools => secureToolNode env (graphTools agentType) threadId inp.verdicts s inp.inner
  | .verify => verifyNode env s inp
  | .hitlGate => hitlGateNode s
  | .finalize | .done | .failed => finalizerNode inp

/-- The edges of the graph, taken on the state after the node. -/
def nextNode (node : Node) (s : AgentState) : Node :=
  match node with
  | .agent => routeAfter env agentType s
  | .tools => .agent
  | .verify => routeAfterVerify s
  | .hitlGate | .finalize | .done | .failed => .done

/-- One node execution with the routing after it. -/
def execute (c : Config) (inp : NodeInput) : Config × StepLabel :=
  let run := runNode env agentType threadId c.node c.state inp
  match run.outcome with
  | .raised => ({ c with node := .failed }, { events := run.events, update := none })
  | .returned u =>
    let s := c.state.apply u
    ({ node := nextNode env agentType c.node s, state := s },
      { events := run.events, update := some u })

/-- The compiled graph. -/
def graph (interruptBefore : List Node) : Machine Config NodeInput StepLabel where
  step c inp :=
    if c.node = .done || c.node = .failed || interruptBefore.contains c.node then none
    else some (execute env agentType threadId c inp)

end

abbrev AgentStep := Machine.Entry Config NodeInput StepLabel

/-- The step called no model and executed no tool. -/
def StepLabel.quiet (l : StepLabel) : Bool := l.events.all (·.isCheck)

/-- The state a run starts in: `SafeguardedState.initial` with the run's own
fields, written over what the thread's checkpoint holds. -/
def freshState (thread : AgentState) (maxSteps : Nat) (runId task : String)
    (messages : List Message) : AgentState :=
  { thread with
    messages := thread.messages ++ messages
    stepCount := 0
    maxSteps
    errorCount := 0
    loopDetected := false
    forceEnd := false
    actionHistory := []
    tokenCount := 0
    runId
    task
    verifyRounds := 0
    hitlPending := false
    hitlRunId := none
    hitlAction := none
    hitlCategories := []
    hitlRequestId := none }

section
variable {env : Env} {agentType : AgentType} {threadId : Option String}
  {interruptBefore : List Node}

/-! ## What a step can do -/

/-- A step executes its node: it raised and changed nothing, or its update was
written and the next node chosen. -/
theorem graph_steps {x : AgentStep}
    (h : (graph env agentType threadId interruptBefore).Steps x) :
    x.before.node ≠ .done ∧ x.before.node ≠ .failed ∧
      ((x.label.update = none ∧ x.after = { x.before with node := .failed } ∧
          (runNode env agentType threadId x.before.node x.before.state x.input).outcome =
            .raised) ∨
        ∃ u, x.label.update = some u ∧
          (runNode env agentType threadId x.before.node x.before.state x.input).outcome =
            .returned u ∧
          x.after = ⟨nextNode env agentType x.before.node (x.before.state.apply u),
            x.before.state.apply u⟩) ∧
      x.label.events =
        (runNode env agentType threadId x.before.node x.before.state x.input).events := by
  unfold Machine.Steps graph at h
  dsimp only at h
  split at h
  · cases h
  · next live =>
    simp only [Bool.or_eq_true, decide_eq_true_eq, not_or] at live
    refine ⟨live.1.1, live.1.2, ?_⟩
    have h := Option.some.inj h
    unfold execute at h
    dsimp only at h
    split at h
    · next raised =>
      have after := (Prod.mk.inj h).1
      have label := (Prod.mk.inj h).2
      rw [← after, ← label]
      exact ⟨.inl ⟨rfl, rfl, raised⟩, rfl⟩
    · next u returned =>
      have after := (Prod.mk.inj h).1
      have label := (Prod.mk.inj h).2
      rw [← after, ← label]
      exact ⟨.inr ⟨u, rfl, returned, rfl⟩, rfl⟩

/-! ## Agent nodes -/

/-- A guarded agent node with `force_end` set only counts the step. -/
theorem agentNode_of_guarded {spec : AgentSpec} {s : AgentState} {inp : NodeInput}
    (guarded : spec.guarded = true) (force : s.forceEnd = true) :
    agentNode env spec s inp = { events := [], outcome := .returned (incrementStep s) } := by
  rw [agentNode, guarded, force]
  rfl

/-- An agent node whose code before the model call raises records an error. -/
theorem agentNode_of_preflight {spec : AgentSpec} {s : AgentState} {inp : NodeInput}
    (free : (spec.guarded && s.forceEnd) = false) (raises : inp.preflightRaises = true) :
    agentNode env spec s inp =
      { events := []
        outcome := .returned (agentError env spec s inp (incrementStep s)) } := by
  rw [agentNode]
  simp only [free, raises, Bool.false_eq_true, if_false, if_true]

/-- Otherwise the model is called. -/
theorem agentNode_calls_llm {spec : AgentSpec} {s : AgentState} {inp : NodeInput}
    (free : (spec.guarded && s.forceEnd) = false) (passes : inp.preflightRaises = false) :
    ∃ later, (agentNode env spec s inp).events = .llm :: later := by
  rw [agentNode]
  simp only [free, passes, Bool.false_eq_true, if_false]
  split
  · exact ⟨_, rfl⟩
  · split
    · split
      · split
        · exact ⟨_, rfl⟩
        · exact ⟨_, rfl⟩
      · exact ⟨_, rfl⟩
    · exact ⟨_, rfl⟩

@[simp] theorem agentError_forceEnd (spec : AgentSpec) (s : AgentState) (inp : NodeInput)
    (u : Update) : (agentError env spec s inp u).forceEnd =
      some (decide (s.errorCount + 1 ≥ env.maxErrorsPerRun)) := by
  unfold agentError
  split <;> rfl

@[simp] theorem agentError_hitlPending (spec : AgentSpec) (s : AgentState)
    (inp : NodeInput) (u : Update) :
    (agentError env spec s inp u).hitlPending = u.hitlPending := by
  unfold agentError
  split <;> rfl

/-! ## Routing -/

/-- With `force_end` set every router goes to the finalizer. -/
theorem routeAfter_of_forceEnd {s : AgentState} (force : s.forceEnd = true) :
    routeAfter env agentType s = .finalize := by
  have finish := @checkSafeguards_of_forceEnd env s force
  cases agentType
  case base => rw [routeAfter, routeAfterAgent, finish]
  all_goals
    simp only [routeAfter, routeAfterResearcher, routeAfterOrchestrator,
      routeAfterObserver, routeAfterCrystallizer, routeAfterAnalyst, routeToTools, finish]

end

end LegionForge.Agent
