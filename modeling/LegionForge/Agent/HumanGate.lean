import LegionForge.Agent.Graphs

/-!
# The human approval gate

A tools step that meets something reviewable stores a request and sets
`hitl_pending`. The base graph routes such a state to its gate node, but has no
tools and never stores a request. The graphs that do store one lead from the
tools node straight back to the agent, and their routers know no `"hitl"`.

Here a run is watched together with the operator: `awaiting` holds the requests
the run has stored and no decision has resolved, and a decision may come between
any two steps. `GateHolds` asks that no step taken while a request is awaiting
calls the model or executes a tool; `gate_holds_iff` reduces it to what the
nodes meet at such a step, and `agent_calls_after_request` says what that means:
the very next step calls the model unless it fails before.
-/

namespace LegionForge.Agent

open JsonText Security

/-! ## A run and its operator -/

/-- A run with the requests it stored and nobody decided. -/
structure Watched where
  config : Config
  awaiting : List String

inductive WatchedInput where
  | node (inp : NodeInput)
  | decision (requestId : String)

/-- The rows inserted into `hitl_pending`. -/
def storedRows (events : List Event) : List HitlRow :=
  events.filterMap fun
    | .hitlRow row => some row
    | _ => none

def storedRequests (events : List Event) : List String :=
  (storedRows events).map (·.requestId)

section
variable (env : Env) (agentType : AgentType) (threadId : Option String)
variable (interruptBefore : List Node)

def watched : Machine Watched WatchedInput StepLabel where
  step w
    | .node inp =>
      ((graph env agentType threadId interruptBefore).step w.config inp).map fun r =>
        (⟨r.1, w.awaiting ++ storedRequests r.2.events⟩, r.2)
    | .decision requestId =>
      some (⟨w.config, w.awaiting.filter (· ≠ requestId)⟩, { events := [], update := none })

abbrev WatchedStep := Machine.Entry Watched WatchedInput StepLabel

/-- `hitl_pending` is set and a request of the run awaits its decision. -/
def Watched.paused (w : Watched) : Bool :=
  w.config.state.hitlPending && !w.awaiting.isEmpty

/-- While the run is to be paused, no step calls the model or executes a tool. -/
def GateHolds (trace : List WatchedStep) : Prop :=
  ∀ x ∈ trace, x.before.paused = true → x.label.quiet = true

/-- What a node meets that makes it call neither the model nor a tool. -/
def HoldsBack (c : Config) (inp : NodeInput) : Prop :=
  match c.node with
  | .agent =>
    inp.preflightRaises = true ∨
      ((agentSpec env agentType).guarded = true ∧ c.state.forceEnd = true)
  | .tools =>
    let calls := batch (graphTools agentType) c.state
    batchGoesOn env (graphTools agentType) threadId inp.verdicts c.state 0 calls = false ∨
      approvedCalls env (graphTools agentType) threadId inp.verdicts c.state 0 calls = []
  | .verify =>
    c.state.verifyRounds ≥ maxVerifyRounds ∨ currentAnswer c.state = "" ∨
      c.state.task = ""
  | _ => True

/-- In a graph other than the base graph, a step taken while the run is to be
paused is held back by what its node meets. -/
def GateKept (x : WatchedStep) : Prop :=
  agentType ≠ .base → x.before.paused = true → ∀ inp, x.input = .node inp →
    HoldsBack env agentType threadId x.before.config inp

variable {env agentType threadId interruptBefore}

/-! ## Which nodes call out -/

theorem agentNode_quiet_iff {spec : AgentSpec} {s : AgentState} {inp : NodeInput} :
    (agentNode env spec s inp).events.all (·.isCheck) = true ↔
      inp.preflightRaises = true ∨ (spec.guarded = true ∧ s.forceEnd = true) := by
  cases free : spec.guarded && s.forceEnd with
  | true =>
    rw [Bool.and_eq_true] at free
    rw [agentNode_of_guarded free.1 free.2]
    simp [free]
  | false =>
    cases passes : inp.preflightRaises with
    | true =>
      rw [agentNode_of_preflight free passes]
      simp
    | false =>
      obtain ⟨later, called⟩ := @agentNode_calls_llm env _ _ _ free passes
      rw [called]
      simp only [List.all_cons, Event.isCheck, Bool.false_and, Bool.false_eq_true,
        false_or, false_iff]
      rintro ⟨guarded, force⟩
      rw [guarded, force] at free
      cases free

theorem verifyNode_quiet_iff {s : AgentState} {inp : NodeInput} :
    (verifyNode env s inp).events.all (·.isCheck) = true ↔
      s.verifyRounds ≥ maxVerifyRounds ∨ currentAnswer s = "" ∨ s.task = "" := by
  unfold verifyNode
  split
  · next rounds => simp [rounds]
  · next rounds =>
    split
    · next empty =>
      simp only [Bool.or_eq_true, decide_eq_true_eq] at empty
      simp [empty]
    · next answered =>
      simp only [Bool.or_eq_true, decide_eq_true_eq] at answered
      split
      · simp [Event.isCheck, rounds, answered]
      · dsimp only
        split <;> simp [Event.isCheck, rounds, answered]

/-- What a node meets decides whether it calls out. -/
theorem runNode_quiet_iff (c : Config) (inp : NodeInput) :
    (runNode env agentType threadId c.node c.state inp).events.all (·.isCheck) = true ↔
      HoldsBack env agentType threadId c inp := by
  unfold runNode HoldsBack
  cases c.node with
  | agent => exact agentNode_quiet_iff
  | tools => exact secureToolNode_quiet_iff inp.inner
  | verify => exact verifyNode_quiet_iff
  | _ => exact iff_of_true rfl trivial

/-! ## The base graph stores nothing -/

theorem agentNode_events {spec : AgentSpec} {s : AgentState} {inp : NodeInput} :
    ∀ e ∈ (agentNode env spec s inp).events, e = .llm := by
  intro e he
  unfold agentNode at he
  dsimp only at he
  split at he
  · cases he
  · split at he
    · cases he
    · split at he
      · exact List.mem_singleton.mp he
      · split at he
        · split at he
          · split at he
            · simpa using he
            · simpa using he
          · exact List.mem_singleton.mp he
        · exact List.mem_singleton.mp he

theorem storedRows_of_llm {events : List Event} (h : ∀ e ∈ events, e = .llm) :
    storedRows events = [] := by
  refine List.filterMap_eq_nil_iff.mpr fun e he => ?_
  rw [h e he]

/-- The base graph has no way to its tools or verify node. -/
theorem routeAfterAgent_nodes (s : AgentState) :
    routeAfterAgent env s ≠ .tools ∧ routeAfterAgent env s ≠ .verify := by
  unfold routeAfterAgent
  split
  · simp
  · simp
  · split
    · split <;> simp
    · simp

/-- A step of the watched run: a decision, or a step of the graph. -/
theorem watched_steps {x : WatchedStep}
    (h : (watched env agentType threadId interruptBefore).Steps x) :
    (∃ id, x.input = .decision id ∧ x.label.events = [] ∧
        x.after = ⟨x.before.config, x.before.awaiting.filter (· ≠ id)⟩) ∨
      ∃ inp, x.input = .node inp ∧
        (graph env agentType threadId interruptBefore).Steps
          ⟨x.before.config, inp, x.label, x.after.config⟩ ∧
        x.after.awaiting = x.before.awaiting ++ storedRequests x.label.events := by
  unfold Machine.Steps watched at h
  cases input : x.input with
  | decision id =>
    rw [input] at h
    have h := Option.some.inj h
    exact .inl ⟨id, rfl, by rw [← (Prod.mk.inj h).2], (Prod.mk.inj h).1.symm⟩
  | node inp =>
    rw [input] at h
    obtain ⟨r, step, h⟩ := Option.map_eq_some_iff.mp h
    obtain ⟨after, label⟩ := Prod.mk.inj h
    refine .inr ⟨inp, rfl, ?_, ?_⟩
    · rw [← after, ← label]
      exact step
    · rw [← after, ← label]

/-- A step of the base graph from a node its runs reach stores nothing and leads
to such a node. -/
theorem base_step_stores_nothing {x : AgentStep}
    (step : (graph env .base threadId interruptBefore).Steps x)
    (notTools : x.before.node ≠ .tools) (notVerify : x.before.node ≠ .verify) :
    storedRows x.label.events = [] ∧
      x.after.node ≠ .tools ∧ x.after.node ≠ .verify := by
  obtain ⟨-, -, outcome, events⟩ := graph_steps step
  refine ⟨?_, ?_⟩
  · rw [events]
    cases node : x.before.node with
    | agent => exact storedRows_of_llm agentNode_events
    | tools => exact absurd node notTools
    | verify => exact absurd node notVerify
    | _ => rfl
  · rcases outcome with ⟨-, after, -⟩ | ⟨u, -, -, after⟩
    · rw [after]
      exact ⟨by simp, by simp⟩
    · rw [after]
      cases node : x.before.node with
      | agent => exact routeAfterAgent_nodes _
      | tools => exact absurd node notTools
      | verify => exact absurd node notVerify
      | _ => exact ⟨by simp [nextNode], by simp [nextNode]⟩

/-- Where a run of the base graph can be. -/
def BaseIdle (w : Watched) : Prop :=
  w.awaiting = [] ∧ w.config.node ≠ .tools ∧ w.config.node ≠ .verify

theorem keeps_baseIdle {x : WatchedStep}
    (step : (watched env .base threadId interruptBefore).Steps x)
    (idle : BaseIdle x.before) : BaseIdle x.after := by
  obtain ⟨none, notTools, notVerify⟩ := idle
  rcases watched_steps step with ⟨id, -, -, after⟩ | ⟨inp, -, step, awaiting⟩
  · rw [after, none]
    exact ⟨rfl, notTools, notVerify⟩
  · obtain ⟨stored, nodes⟩ := base_step_stores_nothing step notTools notVerify
    exact ⟨by rw [awaiting, none, storedRequests, stored]; rfl, nodes⟩

/-! ## What storing a request leaves -/

theorem checkString_stored {v : Verdicts} {s : AgentState} {i : Nat}
    {toolId name text : String} {row : HitlRow}
    (h : .hitlRow row ∈ (checkString env threadId v s i toolId name text).1) :
    ∃ hitl, (checkString env threadId v s i toolId name text).2 = .stopped hitl ∧
      Pauses s row hitl := by
  have destructive :
      .hitlRow row ∈ (checkDestructive env threadId v s i toolId name text).1 →
      ∃ hitl, (checkDestructive env threadId v s i toolId name text).2 = .stopped hitl ∧
        Pauses s row hitl := fun mem => by
    rcases @checkDestructive_cases env threadId v s i toolId name text with
      ⟨row', hitl, eq, pauses⟩ | ⟨eq, -⟩ | ⟨eq, -⟩
    · rw [eq] at mem
      have same : row = row' := by simpa using mem
      exact ⟨hitl, by rw [eq], same ▸ pauses⟩
    · rw [eq] at mem
      simp at mem
    · rw [eq] at mem
      simp at mem
  rw [checkString_eq] at h ⊢
  dsimp only at h ⊢
  cases tier : tier1Injection env.unicode text <;> cases url : urlLike name <;>
    cases answer : v.url i name <;>
    simp only [tier, url, answer, Bool.false_eq_true, if_false, if_true, List.mem_cons,
      List.not_mem_nil, or_false, reduceCtorEq, false_or] at h ⊢
  all_goals exact destructive h

theorem checkArgs_stored {v : Verdicts} {s : AgentState} {i : Nat} {toolId : String}
    {row : HitlRow} : ∀ {args : List (String × Json)},
    .hitlRow row ∈ (checkArgs env threadId v s i toolId args).1 →
    ∃ hitl, (checkArgs env threadId v s i toolId args).2 = .stopped hitl ∧
      Pauses s row hitl := by
  intro args
  induction args with
  | nil => intro h; cases h
  | cons arg rest ih =>
    obtain ⟨name, value⟩ := arg
    cases value with
    | str text =>
      intro h
      rw [checkArgs] at h ⊢
      have first := @checkString_stored env threadId v s i toolId name text row
      rcases eq : checkString env threadId v s i toolId name text with ⟨events, verdict⟩
      rw [eq] at h first
      cases verdict with
      | pass =>
        rcases List.mem_append.mp h with h | h
        · obtain ⟨hitl, stopped, -⟩ := first h
          cases stopped
        · exact ih h
      | _ => exact first h
    | _ => exact ih

theorem checkCall_stored {toolNames : List String} {v : Verdicts} {s : AgentState}
    {i : Nat} {tc : ToolCall} {row : HitlRow}
    (h : .hitlRow row ∈ (checkCall env toolNames threadId v s i tc).1) :
    ∃ loop hitl, (checkCall env toolNames threadId v s i tc).2 = .stopped loop hitl ∧
      loop.forceEnd = some false ∧ Pauses s row hitl := by
  unfold checkCall at h ⊢
  dsimp only at h ⊢
  split at h
  · simp at h
  · next registry =>
    rw [if_neg registry]
    split at h
    · simp at h
    · next acl =>
      rw [if_neg acl]
      split at h
      · split at h <;> simp at h
      · next guardian =>
        rw [if_neg guardian]
        split at h
        · simp at h
        · next looped =>
          rw [if_neg looped]
          have flag : (detectActionLoop env s (canonicalName toolNames tc.name)
              tc.args).forceEnd = some false := by
            rw [detectActionLoop_flags]
            have some : ∃ b, (detectActionLoop env s (canonicalName toolNames tc.name)
              tc.args).loopDetected = some b := ⟨_, rfl⟩
            obtain ⟨b, eq⟩ := some
            rw [eq] at looped ⊢
            cases b
            · rfl
            · exact absurd rfl looped
          have stored := @checkArgs_stored env threadId v s i
            (canonicalName toolNames tc.name) row tc.args
          rcases eq : checkArgs env threadId v s i (canonicalName toolNames tc.name)
            tc.args with ⟨events, verdict⟩
          rw [eq] at h stored
          have scanned : .hitlRow row ∈ events := by cases verdict <;> simpa using h
          obtain ⟨hitl, same, pauses⟩ := stored scanned
          cases same
          exact ⟨_, hitl, rfl, flag, pauses⟩

/-- A stored request is where the loop returns. -/
theorem checkCalls_stored {toolNames : List String} {v : Verdicts} {s : AgentState}
    {calls : List ToolCall} {row : HitlRow} : ∀ {rest : List ToolCall} {i : Nat}
    {p : Progress},
    .hitlRow row ∈ (checkCalls env toolNames threadId v s calls i rest p).1 →
    ∃ u, (checkCalls env toolNames threadId v s calls i rest p).2 = .halted u ∧
      u.hitlPending = some true ∧ u.forceEnd = some false ∧ row.runId = s.runId := by
  intro rest
  induction rest with
  | nil => intro i p h; cases h
  | cons tc rest ih =>
    intro i p h
    rw [checkCalls] at h ⊢
    have first := @checkCall_stored env threadId toolNames v s i tc row
    rcases eq : checkCall env toolNames threadId v s i tc with ⟨events, verdict⟩
    rw [eq] at h first
    have here : .hitlRow row ∈ events → ∃ loop hitl, verdict = .stopped loop hitl ∧
        loop.forceEnd = some false ∧ Pauses s row hitl := first
    cases verdict with
    | stopped loop hitl =>
      obtain ⟨loop', hitl', same, flag, pauses⟩ := here h
      cases same
      refine ⟨_, rfl, ?_, ?_, pauses.run⟩
      · rw [Update.merge_hitlPending, pauses.pending]
        rfl
      · rw [Update.merge_forceEnd, pauses.forceEnd, Update.merge_forceEnd, flag]
        rfl
    | sandboxed =>
      cases msg : toolMessage (skippedText (canonicalName toolNames tc.name)) tc.tcId
          (canonicalName toolNames tc.name) with
      | none =>
        simp only [msg] at h
        obtain ⟨_, _, same, -⟩ := here h
        cases same
      | some m =>
        simp only [msg] at h ⊢
        rcases List.mem_append.mp h with h | h
        · obtain ⟨_, _, same, -⟩ := here h
          cases same
        · exact ih h
    | approved loop =>
      rcases List.mem_append.mp h with h | h
      · obtain ⟨_, _, same, -⟩ := here h
        cases same
      · exact ih h
    | _ => obtain ⟨_, _, same, -⟩ := here h; cases same

/-- A tools node that stored a request returns with the run to be paused and not
ended, and hands nothing on. -/
theorem secureToolNode_stored {toolNames : List String} {v : Verdicts} {s : AgentState}
    {inner : Option (List ToolMessage)} {row : HitlRow}
    (h : .hitlRow row ∈ (secureToolNode env toolNames threadId v s inner).events) :
    ∃ u, (secureToolNode env toolNames threadId v s inner).outcome = .returned u ∧
      u.hitlPending = some true ∧ u.forceEnd = some false ∧ row.runId = s.runId := by
  have stored := @checkCalls_stored env threadId toolNames v s (batch toolNames s) row
    (batch toolNames s) 0 { sequenceSoFar := s.sequenceSoFar }
  unfold secureToolNode at h ⊢
  dsimp only at h ⊢
  rw [show s.toolCalls.map (normaliseCall toolNames) = batch toolNames s from rfl] at h ⊢
  generalize checkCalls env toolNames threadId v s (batch toolNames s) 0
    (batch toolNames s) { sequenceSoFar := s.sequenceSoFar } = loop at stored h ⊢
  obtain ⟨events, checked⟩ := loop
  cases checked with
  | raised => obtain ⟨u, same, -⟩ := stored h; cases same
  | halted u =>
    obtain ⟨u', same, pauses⟩ := stored h
    cases same
    exact ⟨u, rfl, pauses⟩
  | done p =>
    rcases List.mem_append.mp h with h | h
    · obtain ⟨u, same, -⟩ := stored h
      cases same
    · rw [executeApproved_events] at h
      split at h <;> simp at h

theorem verifyNode_events {s : AgentState} {inp : NodeInput} :
    ∀ e ∈ (verifyNode env s inp).events, e = .llm := by
  intro e he
  unfold verifyNode at he
  dsimp only at he
  split at he
  · cases he
  · split at he
    · cases he
    · split at he
      · exact List.mem_singleton.mp he
      · split at he
        · exact List.mem_singleton.mp he
        · exact List.mem_singleton.mp he

/-- A step keeps the run's id, and what it stores carries it. -/
theorem graph_steps_runId {x : AgentStep}
    (step : (graph env agentType threadId interruptBefore).Steps x) :
    x.after.state.runId = x.before.state.runId ∧
      ∀ row ∈ storedRows x.label.events, row.runId = x.before.state.runId := by
  obtain ⟨-, -, outcome, events⟩ := graph_steps step
  refine ⟨?_, ?_⟩
  · rcases outcome with ⟨-, after, -⟩ | ⟨u, -, -, after⟩
    · rw [after]
    · rw [after]
      rfl
  · intro row stored
    rw [events] at stored
    cases node : x.before.node with
    | tools =>
      rw [node] at stored
      obtain ⟨e, mem, eq⟩ := List.mem_filterMap.mp stored
      have : e = .hitlRow row := by
        cases e with
        | hitlRow row' => exact congrArg _ (Option.some.inj eq)
        | _ => cases eq
      obtain ⟨-, -, -, -, run⟩ := secureToolNode_stored (this ▸ mem)
      exact run
    | agent =>
      rw [node, runNode, storedRows_of_llm agentNode_events] at stored
      cases stored
    | verify =>
      rw [node, runNode, storedRows_of_llm verifyNode_events] at stored
      cases stored
    | _ =>
      rw [node] at stored
      cases stored

/-- A step that stored a request goes to the agent node, and the next step there
calls the model unless its code before that call raises: no router knows the
request. -/
theorem agent_calls_after_request {x y : AgentStep} {row : HitlRow}
    (step : (graph env agentType threadId interruptBefore).Steps x)
    (next : (graph env agentType threadId interruptBefore).Steps y)
    (consecutive : y.before = x.after) (tools : x.before.node = .tools)
    (stored : .hitlRow row ∈ x.label.events) (passes : y.input.preflightRaises = false) :
    y.before.state.hitlPending = true ∧ .llm ∈ y.label.events := by
  obtain ⟨-, -, outcome, events⟩ := graph_steps step
  rw [tools] at outcome events
  rw [events] at stored
  obtain ⟨u, returned, pending, force, -⟩ := secureToolNode_stored stored
  rcases outcome with ⟨-, -, raised⟩ | ⟨u', -, returned', after⟩
  · rw [show runNode env agentType threadId .tools x.before.state x.input = secureToolNode env
      (graphTools agentType) threadId x.input.verdicts x.before.state x.input.inner from rfl,
      returned] at raised
    cases raised
  · rw [show runNode env agentType threadId .tools x.before.state x.input = secureToolNode env
      (graphTools agentType) threadId x.input.verdicts x.before.state x.input.inner from rfl,
      returned] at returned'
    cases returned'
    have agent : y.before.node = .agent := by rw [consecutive, after]; rfl
    have flag : y.before.state.forceEnd = false := by
      rw [consecutive, after, AgentState.apply_forceEnd, force]
      rfl
    have free : ((agentSpec env agentType).guarded && y.before.state.forceEnd) = false := by
      rw [flag, Bool.and_false]
    obtain ⟨later, called⟩ := @agentNode_calls_llm env _ _ _ free passes
    refine ⟨?_, ?_⟩
    · rw [consecutive, after, AgentState.apply_hitlPending, pending]
      rfl
    · rw [(graph_steps next).2.2.2, agent, runNode, called]
      exact List.mem_cons_self

/-! ## Runs -/

/-- Every graph, thread, model and operator: the gate holds in the run, if and only
if every step taken while it is to be paused is held back by what its node meets.
The base graph needs nothing of the kind. -/
theorem gate_holds_iff (env : Env) (agentType : AgentType) (threadId : Option String)
    (interruptBefore : List Node) (thread : AgentState) (maxSteps : Nat)
    (runId task : String) (messages : List Message) (inputs : List WatchedInput) :
    GateHolds ((watched env agentType threadId interruptBefore).run
        ⟨⟨.agent, freshState thread maxSteps runId task messages⟩, []⟩ inputs) ↔
      ∀ x ∈ (watched env agentType threadId interruptBefore).run
        ⟨⟨.agent, freshState thread maxSteps runId task messages⟩, []⟩ inputs,
        GateKept env agentType threadId x := by
  have steps := @Machine.run_invariant _ _ _ (watched env agentType threadId interruptBefore)
    (fun w => agentType = .base → BaseIdle w)
    (fun x step idle base => by subst base; exact keeps_baseIdle step (idle rfl))
    ⟨⟨.agent, freshState thread maxSteps runId task messages⟩, []⟩ inputs
    (fun _ => ⟨rfl, by simp, by simp⟩)
  refine forall₂_congr fun x hx => ?_
  obtain ⟨step, idle, -⟩ := steps x hx
  rcases watched_steps step with ⟨id, input, events, -⟩ | ⟨inp, input, step, -⟩
  · refine iff_of_true (fun _ => ?_) (fun _ _ inp node => ?_)
    · rw [StepLabel.quiet, events]
      rfl
    · rw [input] at node
      cases node
  · have events := (graph_steps step).2.2.2
    have quiet : x.label.quiet = true ↔
        HoldsBack env agentType threadId x.before.config inp := by
      rw [StepLabel.quiet, events]
      exact runNode_quiet_iff x.before.config inp
    refine ⟨?_, ?_⟩
    · intro holds _ paused inp' node
      rw [input] at node
      cases node
      exact quiet.mp (holds paused)
    · intro kept paused
      have specialised : agentType ≠ .base := fun base => by
        rw [Watched.paused, (idle base).1, Bool.and_eq_true] at paused
        cases paused.2
      exact quiet.mpr (kept specialised paused inp input)

end

/-! ## The researcher after a stored request -/

/-- The researcher searches for a credential word, which is put up for review, and
is asked again at once. -/
def reviewedInputs : List WatchedInput :=
  let asks : NodeInput :=
    { preflightRaises := false
      llm := fun _ => some
        { content := .text ""
          toolCalls :=
            [{ id := some (some "call_0"), name := "web_search",
               args := [("query", .str "password")] }]
          usage := some 700 }
      fallbackId := ""
      errorText := ""
      verdicts := { skipSecond with hitlInsert := fun _ _ => some "request-1" }
      inner := some []
      finalText := none }
  [.node asks, .node asks, .node asks]

/-- The model is called while the request is waiting. -/
theorem researcher_goes_on_while_waiting :
    ¬ GateHolds ((watched sampleEnv .researcher none []).run
      ⟨⟨.agent, freshState (sampleState []) 40 "run-1" "report" []⟩, []⟩
      reviewedInputs) := by
  unfold GateHolds
  decide +kernel

end LegionForge.Agent
