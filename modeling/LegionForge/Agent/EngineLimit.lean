import LegionForge.Agent.BoundedRuns

/-!
# The engine's limit against the step counter

Two numbers bound a run. `max_steps` counts executions of the agent node and leads to the
finalizer; `recursion_limit` counts executions of any node, and the engine raises when
that many have been made without reaching the end. The two `run_*` entry points pass one
value for both, the worker passes the configured default for the first and the task's own
`max_steps` for the second.

A run in which the model asks for a tool every time alternates between the agent and the
tools node, so it needs two node executions for each agent execution: `stops_gracefully_iff`
says that the engine's limit has to be twice the step limit, and that this is enough
whatever the model and the tools answer.
-/

namespace LegionForge.Agent

open JsonText Security

/-! ## The limits each entry point passes -/

/-- `value or fallback` -/
def orDefault (value : Option Int) (fallback : Int) : Int :=
  match value with
  | some n => if n = 0 then fallback else n
  | none => fallback

/-- Who starts the run, with the `max_steps` it was asked for. -/
inductive Launch where
  | runOrchestrator (maxSteps : Option Int)
  | runResearcher (maxSteps : Option Int)
  | workerOrchestrator (maxSteps : Option Int)
  | workerResearcher (maxSteps : Option Int)

def Launch.agentType : Launch → AgentType
  | .runOrchestrator _ | .workerOrchestrator _ => .orchestrator
  | .runResearcher _ | .workerResearcher _ => .researcher

/-- `SafeguardedState.initial(max_steps=...)`; the worker does not pass the task's. -/
def Launch.maxSteps (defaultRecursionLimit : Int) : Launch → Int
  | .runOrchestrator maxSteps | .runResearcher maxSteps =>
    orDefault maxSteps defaultRecursionLimit
  | .workerOrchestrator _ | .workerResearcher _ => orDefault none defaultRecursionLimit

/-- `config["recursion_limit"]` -/
def Launch.recursionLimit (defaultRecursionLimit : Int) : Launch → Int
  | .runOrchestrator maxSteps | .runResearcher maxSteps
  | .workerOrchestrator maxSteps | .workerResearcher maxSteps =>
    orDefault maxSteps defaultRecursionLimit

/-- The node executions the engine allows the run; a negative limit allows none, as a
negative `max_steps` is reached at once. -/
def engineRun (env : Env) (defaultRecursionLimit : Int) (launch : Launch)
    (threadId : Option String) (thread : AgentState) (runId task : String)
    (messages : List Message) (answers : Nat → NodeInput) : List AgentStep :=
  (graph env launch.agentType threadId []).run
    ⟨.agent, freshState thread (launch.maxSteps defaultRecursionLimit).toNat runId task
      messages⟩
    (firstAnswers answers (launch.recursionLimit defaultRecursionLimit).toNat)

/-- The run has gone through its finalizer, or a node of its own raised: the engine's
recursion error ends it in no other case. -/
def StopsGracefully (trace : List AgentStep) : Prop :=
  ∃ x ∈ trace, (x.before.node = .finalize ∧ x.after.node = .done) ∨ x.label.update = none

/-- The most node executions a run can make; an error limit of zero ends it after its
first agent execution. -/
def longestRun (env : Env) (maxSteps : Nat) : Nat :=
  if env.maxErrorsPerRun = 0 then 2 else 2 * max 1 maxSteps

section
variable {env : Env} {agentType : AgentType} {threadId : Option String}

theorem nodesLeft_start (thread : AgentState) (maxSteps : Nat) (runId task : String)
    (messages : List Message) :
    nodesLeft env ⟨.agent, freshState thread maxSteps runId task messages⟩ =
      longestRun env maxSteps := by
  unfold nodesLeft stepsLeft longestRun freshState
  dsimp only
  split
  · rfl
  · rfl

/-! ## Enough node executions end a run -/

/-- The run goes on, and not to a review node. -/
def Live (c : Config) : Prop := c.node ≠ .done ∧ c.node ≠ .failed ∧ c.node ≠ .hitlGate

theorem stops_of_over (specialised : agentType ≠ .base) {c : Config}
    {inputs : List NodeInput} (live : Live c)
    (ended : ¬ Live ((graph env agentType threadId []).final c inputs)) :
    StopsGracefully ((graph env agentType threadId []).run c inputs) := by
  induction inputs generalizing c with
  | nil => exact absurd live ended
  | cons inp inputs ih =>
    cases h : (graph env agentType threadId []).step c inp with
    | none =>
      rw [Machine.final_cons_of_stop h] at ended
      exact absurd live ended
    | some next =>
      rw [Machine.final_cons_of_step h] at ended
      rw [Machine.run_cons_of_step h]
      have goOn (goes : Live next.1) : StopsGracefully (⟨c, inp, next.2, next.1⟩ ::
          (graph env agentType threadId []).run next.1 inputs) := by
        obtain ⟨x, hx, stops⟩ := ih goes ended
        exact ⟨x, List.mem_cons_of_mem _ hx, stops⟩
      have moves := graph_moves (x := ⟨c, inp, next.2, next.1⟩) h
      cases moves with
      | raised node update after rounds => exact ⟨_, List.mem_cons_self, .inr update⟩
      | agent node left rounds after =>
        dsimp only at after
        rcases after with after | ⟨-, base⟩ | ⟨goes, -⟩
        · exact goOn (by rw [Live, after]; simp)
        · exact absurd base specialised
        · refine goOn ⟨?_, ?_, ?_⟩
          all_goals
            intro ends
            rw [ends] at goes
            exact goes
      | tools node left rounds after =>
        dsimp only at after
        exact goOn (by rw [Live, after]; simp)
      | verify node left rounds after =>
        dsimp only at after
        rcases after with after | after
        · exact goOn (by rw [Live, after]; simp)
        · exact goOn (by rw [Live, after]; simp)
      | concluded node rounds after =>
        rcases node with node | node
        · exact absurd node live.2.2
        · exact ⟨_, List.mem_cons_self, .inl ⟨node, after⟩⟩

/-! ## A tool call every time -/

def firstTool : AgentType → String
  | .orchestrator => "spawn_researcher"
  | _ => "web_search"

/-- The model asks for a tool, and the Guardian skips the call. -/
def skippedCall (agentType : AgentType) : ToolCall :=
  { id := some (some "call_0"), name := firstTool agentType, args := [] }

def asksAgain (agentType : AgentType) : NodeInput where
  preflightRaises := false
  llm _ := some
    { content := .text "", toolCalls := [skippedCall agentType], usage := none }
  fallbackId := ""
  errorText := ""
  verdicts := { skipSecond with
    guardian := fun _ _ => { allowed := false, tier := .sandbox, reason := "novel sequence" } }
  inner := some []
  finalText := some ""

/-- Nothing but the counters can end the run. -/
structure Clean (s : AgentState) : Prop where
  forceEnd : s.forceEnd = false
  loopDetected : s.loopDetected = false
  errorCount : s.errorCount = 0

theorem checkSafeguards_of_clean {s : AgentState} (clean : Clean s) :
    checkSafeguards env s = .finish ↔ stepsLeft env s = 0 := by
  refine ⟨fun finish => ?_, fun none => ?_⟩
  · by_contra left
    unfold checkSafeguards at finish
    rw [clean.forceEnd, clean.loopDetected, clean.errorCount] at finish
    unfold stepsLeft at left
    split at left
    · exact left rfl
    · next errors =>
      have below : checkStepLimit s = false := by
        rw [checkStepLimit, decide_eq_false_iff_not]
        omega
      rw [below, if_neg (by simp), if_neg (by simp), if_neg (by simp),
        if_neg (by omega)] at finish
      split at finish <;> cases finish
  · by_contra goes
    have := stepsLeft_pos goes
    omega

/-- The graphs with a tools node that the limits are passed for. -/
def Delegates (agentType : AgentType) : Prop :=
  agentType = .researcher ∨ agentType = .orchestrator

/-- The router sends a tool call to the tools node while steps are left. -/
theorem routeAfter_of_clean (kind : Delegates agentType) {s : AgentState} (clean : Clean s)
    {tc : ToolCall} (asked : s.toolCalls = [tc]) :
    routeAfter env agentType s = if stepsLeft env s = 0 then .finalize else .tools := by
  have route : routeAfter env agentType s = routeToTools env .finalize s ∨
      routeAfter env agentType s = routeToTools env .verify s := by
    rcases kind with rfl | rfl
    · exact .inl rfl
    · exact .inr rfl
  have finish := @checkSafeguards_of_clean env s clean
  split
  · next none =>
    have safe := finish.mpr none
    rcases route with route | route
    · rw [route, routeToTools, safe]
    · rw [route, routeToTools, safe]
  · next some =>
    have safe : checkSafeguards env s ≠ .finish := fun h => some (finish.mp h)
    have tools (otherwise : Node) : routeToTools env otherwise s = .tools := by
      unfold routeToTools
      split
      · next h => exact absurd h safe
      · rw [asked]
        rfl
    rcases route with route | route
    · rw [route, tools]
    · rw [route, tools]

/-- What the agent node answers when the model asks for a tool. -/
theorem agentNode_asksAgain (kind : Delegates agentType) {s : AgentState} (clean : Clean s) :
    (agentNode env (agentSpec env agentType) s (asksAgain agentType)).outcome =
      .returned { incrementStep s with
        messages := some [.ai (.text "") [skippedCall agentType]] } := by
  have guarded : (agentSpec env agentType).guarded = true := by
    rcases kind with rfl | rfl <;> rfl
  unfold agentNode
  rw [guarded, clean.forceEnd]
  simp only [Bool.and_false, Bool.false_eq_true, if_false, asksAgain, recordUsage,
    List.isEmpty_cons]
  split <;> rfl

/-- The tools node skips the call. -/
theorem secureToolNode_asksAgain {s : AgentState}
    (asked : s.toolCalls = [skippedCall agentType]) :
    ∃ messages, (secureToolNode env (graphTools agentType) threadId
      (asksAgain agentType).verdicts s (asksAgain agentType).inner).outcome =
        .returned { messages, sequenceSoFar := some s.sequenceSoFar } := by
  rw [secureToolNode, asked]
  exact ⟨_, rfl⟩

/-- Where such a run stands. -/
structure Busy (env : Env) (agentType : AgentType) (c : Config) : Prop where
  clean : Clean c.state
  place : c.node = .agent ∨ c.node = .finalize ∨
    (c.node = .tools ∧ 0 < stepsLeft env c.state ∧
      c.state.toolCalls = [skippedCall agentType])

/-- Until the finalizer every step takes exactly one off the measure. -/
theorem busy_step (kind : Delegates agentType) {c : Config}
    (busy : Busy env agentType c) (more : 1 < nodesLeft env c) :
    ∃ next, (graph env agentType threadId []).step c (asksAgain agentType) = some next ∧
      next.2.update ≠ none ∧ c.node ≠ .finalize ∧ Busy env agentType next.1 ∧
      nodesLeft env c = nodesLeft env next.1 + 1 := by
  obtain ⟨node, s⟩ := c
  obtain ⟨clean, place⟩ := busy
  dsimp only at clean place
  rcases place with rfl | rfl | ⟨rfl, some, asked⟩
  · -- the agent node asks for the tool
    let u : Update := { incrementStep s with
      messages := Option.some [.ai (.text "") [skippedCall agentType]] }
    have step : (graph env agentType threadId []).step ⟨.agent, s⟩ (asksAgain agentType) =
        Option.some (⟨routeAfter env agentType (s.apply u), s.apply u⟩,
          { events := (agentNode env (agentSpec env agentType) s (asksAgain agentType)).events
            update := Option.some u }) := by
      have returned := @agentNode_asksAgain env agentType kind s clean
      unfold graph execute
      simp only [runNode, returned]
      rfl
    have left : stepsLeft env (s.apply u) = stepsLeft env s - 1 := stepsLeft_of_counted rfl rfl
    have asks : (s.apply u).toolCalls = [skippedCall agentType] := by
      simp [AgentState.toolCalls, u, Message.toolCalls]
    have cleanAfter : Clean (s.apply u) := ⟨clean.forceEnd, clean.loopDetected, clean.errorCount⟩
    have route := @routeAfter_of_clean env agentType kind _ cleanAfter _ asks
    by_cases none : stepsLeft env (s.apply u) = 0
    · rw [if_pos none] at route
      refine ⟨_, step, by simp, by simp, ⟨cleanAfter, .inr (.inl route)⟩, ?_⟩
      simp only [nodesLeft, route]
      omega
    · rw [if_neg none] at route
      refine ⟨_, step, by simp, by simp,
        ⟨cleanAfter, .inr (.inr ⟨route, Nat.pos_of_ne_zero none, asks⟩)⟩, ?_⟩
      simp only [nodesLeft, route]
      omega
  · simp [nodesLeft] at more
  · obtain ⟨messages, returned⟩ :=
      @secureToolNode_asksAgain env agentType threadId s asked
    let u : Update := { messages, sequenceSoFar := Option.some s.sequenceSoFar }
    have step : (graph env agentType threadId []).step ⟨.tools, s⟩ (asksAgain agentType) =
        Option.some (⟨.agent, s.apply u⟩,
          { events := (secureToolNode env (graphTools agentType) threadId
              (asksAgain agentType).verdicts s (asksAgain agentType).inner).events
            update := Option.some u }) := by
      unfold graph execute
      simp only [runNode, returned]
      rfl
    refine ⟨_, step, by simp, by simp, ⟨⟨clean.forceEnd, clean.loopDetected,
      clean.errorCount⟩, .inl rfl⟩, ?_⟩
    have left : stepsLeft env (s.apply u) = stepsLeft env s := stepsLeft_congr rfl rfl
    unfold nodesLeft
    dsimp only
    omega

/-- As long as the run is one step short, it has neither finalized nor raised. -/
theorem busy_run (kind : Delegates agentType) (n : Nat) {c : Config}
    (busy : Busy env agentType c) (short : n < nodesLeft env c) :
    ¬ StopsGracefully ((graph env agentType threadId []).run c
      (List.replicate n (asksAgain agentType))) := by
  induction n generalizing c with
  | zero =>
    rintro ⟨x, hx, -⟩
    cases hx
  | succ n ih =>
    obtain ⟨next, step, returned, goes, busyNext, left⟩ :=
      @busy_step env agentType threadId kind c busy (by omega)
    rw [List.replicate_succ, Machine.run_cons_of_step step]
    rintro ⟨x, hx, stops⟩
    rcases List.mem_cons.mp hx with rfl | later
    · rcases stops with ⟨finalize, -⟩ | raised
      · exact goes finalize
      · exact returned raised
    · exact ih busyNext (by omega) ⟨x, later, stops⟩

theorem busy_start (thread : AgentState) (maxSteps : Nat) (runId task : String)
    (messages : List Message) :
    Busy env agentType ⟨.agent, freshState thread maxSteps runId task messages⟩ :=
  ⟨⟨rfl, rfl, rfl⟩, .inl rfl⟩

theorem Launch.delegates (launch : Launch) : Delegates launch.agentType := by
  cases launch with
  | runOrchestrator _ => exact .inr rfl
  | workerOrchestrator _ => exact .inr rfl
  | runResearcher _ => exact .inl rfl
  | workerResearcher _ => exact .inl rfl

/-- A model that asks for a tool every time takes the run to its full length. -/
theorem aborted_of_short {defaultRecursionLimit : Int} {launch : Launch}
    (short : (launch.recursionLimit defaultRecursionLimit).toNat <
      longestRun env (launch.maxSteps defaultRecursionLimit).toNat)
    (thread : AgentState) (runId task : String) (messages : List Message) :
    ¬ StopsGracefully (engineRun env defaultRecursionLimit launch threadId thread runId task
      messages fun _ => asksAgain launch.agentType) := by
  rw [engineRun, firstAnswers_const]
  refine busy_run launch.delegates _ (busy_start ..) ?_
  rw [nodesLeft_start]
  exact short

/-- Whoever starts the run and whatever the default is: every run stops by itself within
the engine's limit if and only if that limit covers two node executions for each agent
execution. -/
theorem stops_gracefully_iff (env : Env) (defaultRecursionLimit : Int) (launch : Launch) :
    (∀ threadId thread runId task messages answers,
        StopsGracefully (engineRun env defaultRecursionLimit launch threadId thread runId
          task messages answers)) ↔
      longestRun env (launch.maxSteps defaultRecursionLimit).toNat ≤
        (launch.recursionLimit defaultRecursionLimit).toNat := by
  refine ⟨fun graceful => ?_, fun enough threadId thread runId task messages answers => ?_⟩
  · by_contra short
    exact aborted_of_short (Nat.lt_of_not_le short) (sampleState []) "" "" []
      (graceful none _ _ _ _ _)
  · have specialised : launch.agentType ≠ .base := by
      rcases launch.delegates with kind | kind <;> rw [kind] <;> simp
    refine stops_of_over specialised ⟨by simp, by simp, by simp⟩ ?_
    have ended := @final_over env launch.agentType threadId []
      ⟨.agent, freshState thread (launch.maxSteps defaultRecursionLimit).toNat runId task
        messages⟩
      (firstAnswers answers (launch.recursionLimit defaultRecursionLimit).toNat)
      (belowLimit_start _) (by
        rw [nodesLeft_start, firstAnswers, List.length_map, List.length_range]
        exact enough)
    rintro ⟨notDone, notFailed, -⟩
    rcases ended with done | failed | interrupted
    · exact notDone done
    · exact notFailed failed
    · cases interrupted

/-- One value for both limits is never enough. -/
theorem short_of_same_limit (errors : env.maxErrorsPerRun ≠ 0) (limit : Int) :
    limit.toNat < longestRun env limit.toNat := by
  rw [longestRun, if_neg errors]
  omega

end

/-- With the default of 40 and a tool call every time, the researcher is stopped by the
engine in the middle. -/
theorem researcher_aborted : ¬ ∀ threadId thread runId task messages answers,
    StopsGracefully (engineRun sampleEnv 40 (.runResearcher none) threadId thread runId task
      messages answers) := by
  intro graceful
  have short := @short_of_same_limit sampleEnv (by decide) 40
  exact @aborted_of_short sampleEnv none 40 (.runResearcher none) short (sampleState [])
    "run-1" "report" [] (graceful none _ _ _ _ _)

end LegionForge.Agent
