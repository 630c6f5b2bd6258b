import LegionForge.Agent.Graphs

/-!
# A forced halt is final where the agent node looks at it

A tools step that sets `force_end` leads back to the agent node: the halt is
only as final as that node makes it. The researcher's and the orchestrator's
return before the model call. The other three call the model, and what they
write afterwards (the budget check, the error record) overwrites the flag.

`halt_final_iff` is about whole runs, of any length and with any answers: no
step after a halt calls the model, executes a tool or takes the halt back, if
and only if no agent node without the guard is entered with `force_end` set,
except to fail before its model call with the error limit reached.
-/

namespace LegionForge.Agent

open JsonText Security

/-- A tools step that returned `force_end`. -/
def AgentStep.halts (x : AgentStep) : Bool :=
  x.before.node = .tools && x.label.update.any (·.forceEnd = some true)

/-- No model call, no execution, and `force_end` not set back. -/
def AgentStep.leavesHalt (x : AgentStep) : Bool :=
  x.label.quiet && x.label.update.all (·.forceEnd ≠ some false)

/-- In the run a halt is final. -/
def HaltFinal (trace : List AgentStep) : Prop :=
  Machine.Since (fun x : AgentStep => x.halts = true)
    (fun x : AgentStep => x.leavesHalt = true) trace

section
variable (env : Env) (agentType : AgentType)

/-- The step is not one of an unguarded agent node entered with `force_end` set,
unless that node fails before its model call and reaches the error limit. -/
def HaltKept (x : AgentStep) : Prop :=
  x.before.node = .agent → x.before.state.forceEnd = true →
    (agentSpec env agentType).guarded = false →
      x.input.preflightRaises = true ∧
        x.before.state.errorCount + 1 ≥ env.maxErrorsPerRun

variable {env agentType} {threadId : Option String} {interruptBefore : List Node}

/-! ## The halted part of a run -/

/-- Where a run stands after a halt. -/
def Halted (c : Config) : Prop :=
  c.state.forceEnd = true ∧ c.node ≠ .tools ∧ c.node ≠ .verify ∧ c.node ≠ .hitlGate

theorem halted_of_halts {x : AgentStep}
    (step : (graph env agentType threadId interruptBefore).Steps x)
    (halts : x.halts = true) : Halted x.after := by
  obtain ⟨-, -, outcome, -⟩ := graph_steps step
  rw [AgentStep.halts, Bool.and_eq_true, decide_eq_true_eq] at halts
  obtain ⟨tools, force⟩ := halts
  rcases outcome with ⟨update, -, -⟩ | ⟨u, update, -, after⟩
  · rw [update] at force
    cases force
  · rw [update] at force
    have force : u.forceEnd = some true := of_decide_eq_true force
    rw [after, tools]
    refine ⟨?_, by simp [nextNode], by simp [nextNode], by simp [nextNode]⟩
    rw [AgentState.apply_forceEnd, force]
    rfl

/-- An agent step from a halted state that keeps the halt: nothing is called,
`force_end` stays, and the finalizer is next. -/
theorem agent_keeps_halt {x : AgentStep} {s : AgentState} (agent : x.before = ⟨.agent, s⟩)
    (force : s.forceEnd = true) (kept : HaltKept env agentType x) :
    ∃ u, runNode env agentType threadId .agent s x.input =
        { events := [], outcome := .returned u } ∧
      u.forceEnd ≠ some false ∧ (s.apply u).forceEnd = true := by
  cases guarded : (agentSpec env agentType).guarded with
  | true =>
    refine ⟨incrementStep s, agentNode_of_guarded guarded force, by simp, ?_⟩
    rw [AgentState.apply_forceEnd, incrementStep_forceEnd]
    exact force
  | false =>
    unfold HaltKept at kept
    rw [agent] at kept
    obtain ⟨raises, limit⟩ := kept rfl force guarded
    have free : ((agentSpec env agentType).guarded && s.forceEnd) = false := by
      rw [guarded, Bool.false_and]
    refine ⟨_, agentNode_of_preflight free raises, ?_, ?_⟩
    · rw [agentError_forceEnd, decide_eq_true limit]
      simp
    · rw [AgentState.apply_forceEnd, agentError_forceEnd, decide_eq_true limit]
      rfl

theorem keeps_halted {x : AgentStep}
    (step : (graph env agentType threadId interruptBefore).Steps x)
    (halted : Halted x.before) (kept : HaltKept env agentType x) :
    x.leavesHalt = true ∧ Halted x.after := by
  obtain ⟨notDone, notFailed, outcome, events⟩ := graph_steps step
  obtain ⟨force, notTools, notVerify, notGate⟩ := halted
  cases node : x.before.node with
  | done => exact absurd node notDone
  | failed => exact absurd node notFailed
  | tools => exact absurd node notTools
  | verify => exact absurd node notVerify
  | hitlGate => exact absurd node notGate
  | agent =>
    have agent : x.before = ⟨.agent, x.before.state⟩ := by rw [← node]
    obtain ⟨u, run, flag, stays⟩ := @agent_keeps_halt env agentType threadId x _ agent force kept
    rw [node, run] at outcome events
    rcases outcome with ⟨-, -, raised⟩ | ⟨u', update, returned, after⟩
    · cases raised
    · cases returned
      refine ⟨?_, ?_⟩
      · rw [AgentStep.leavesHalt, StepLabel.quiet, events, update]
        simpa using flag
      · rw [after, nextNode, routeAfter_of_forceEnd stays]
        exact ⟨stays, by simp, by simp, by simp⟩
  | finalize =>
    rw [node] at outcome events
    cases text : x.input.finalText with
    | none =>
      rw [runNode, finalizerNode, text] at outcome events
      rcases outcome with ⟨update, after, -⟩ | ⟨u, -, returned, -⟩
      · refine ⟨?_, ?_⟩
        · rw [AgentStep.leavesHalt, StepLabel.quiet, events, update]
          rfl
        · rw [after]
          exact ⟨force, by simp, by simp, by simp⟩
      · cases returned
    | some text' =>
      rw [runNode, finalizerNode, text] at outcome events
      rcases outcome with ⟨-, -, raised⟩ | ⟨u, update, returned, after⟩
      · cases raised
      · cases returned
        refine ⟨?_, ?_⟩
        · rw [AgentStep.leavesHalt, StepLabel.quiet, events, update]
          rfl
        · rw [after]
          exact ⟨force, by simp [nextNode], by simp [nextNode], by simp [nextNode]⟩

/-! ## How the agent node is entered with the flag set -/

/-- The tools and verify nodes are entered without `force_end`. -/
def EnteredFree (c : Config) : Prop :=
  c.node = .tools ∨ c.node = .verify → c.state.forceEnd = false

theorem keeps_enteredFree {x : AgentStep}
    (step : (graph env agentType threadId interruptBefore).Steps x) :
    EnteredFree x.after := by
  obtain ⟨notDone, notFailed, outcome, -⟩ := graph_steps step
  rcases outcome with ⟨-, after, -⟩ | ⟨u, -, -, after⟩
  · rw [after]
    rintro (h | h) <;> cases h
  · rw [after]
    intro entered
    cases node : x.before.node with
    | agent =>
      rw [node, nextNode] at entered
      by_contra force
      rw [Bool.not_eq_false] at force
      rw [routeAfter_of_forceEnd force] at entered
      rcases entered with h | h <;> cases h
    | verify =>
      rw [node, nextNode, routeAfterVerify] at entered
      split at entered
      · split at entered
        · rcases entered with h | h <;> cases h
        · rcases entered with h | h <;> cases h
      · rcases entered with h | h <;> cases h
    | _ =>
      rw [node, nextNode] at entered
      rcases entered with h | h <;> cases h

/-- The verifier does not touch the flag. -/
theorem verifyNode_forceEnd {s : AgentState} {inp : NodeInput} {u : Update}
    (h : (verifyNode env s inp).outcome = .returned u) : u.forceEnd = none := by
  unfold verifyNode at h
  split at h
  · cases h; rfl
  · split at h
    · cases h; rfl
    · split at h
      · cases h; rfl
      · dsimp only at h
        split at h
        · cases h; rfl
        · cases h; rfl

/-- Only a halting tools step leads to the agent node with the flag set. -/
theorem halts_of_entered {x : AgentStep}
    (step : (graph env agentType threadId interruptBefore).Steps x)
    (free : EnteredFree x.before)
    (entered : x.after.state.forceEnd = true ∧ x.after.node = .agent) :
    x.halts = true := by
  obtain ⟨notDone, notFailed, outcome, -⟩ := graph_steps step
  obtain ⟨force, agent⟩ := entered
  rcases outcome with ⟨-, after, -⟩ | ⟨u, update, returned, after⟩
  · rw [after] at agent
    cases agent
  · rw [after] at force agent
    cases node : x.before.node with
    | done => exact absurd node notDone
    | failed => exact absurd node notFailed
    | agent =>
      rw [node, nextNode, routeAfter_of_forceEnd force] at agent
      cases agent
    | tools =>
      have before := free (.inl node)
      rw [AgentState.apply_forceEnd] at force
      rw [AgentStep.halts, node, update]
      cases flag : u.forceEnd with
      | none =>
        rw [flag] at force
        exact absurd force (by rw [Option.getD_none, before]; simp)
      | some b =>
        rw [flag, Option.getD_some] at force
        simp [flag, force]
    | verify =>
      have before := free (.inr node)
      rw [node] at returned
      rw [AgentState.apply_forceEnd, verifyNode_forceEnd returned, Option.getD_none,
        before] at force
      cases force
    | hitlGate => rw [node, nextNode] at agent; cases agent
    | finalize => rw [node, nextNode] at agent; cases agent

/-- Entered with the flag set, an agent node that leaves the halt alone is
guarded, or fails before the model call with the error limit reached. -/
theorem kept_of_leavesHalt {x : AgentStep}
    (step : (graph env agentType threadId interruptBefore).Steps x)
    (leaves : x.leavesHalt = true) : HaltKept env agentType x := by
  intro agent force guarded
  obtain ⟨-, -, outcome, events⟩ := graph_steps step
  rw [agent] at outcome events
  rw [AgentStep.leavesHalt, Bool.and_eq_true] at leaves
  obtain ⟨quiet, flag⟩ := leaves
  have free : ((agentSpec env agentType).guarded && x.before.state.forceEnd) = false := by
    rw [guarded, Bool.false_and]
  cases passes : x.input.preflightRaises with
  | false =>
    obtain ⟨later, called⟩ := @agentNode_calls_llm env _ _ _ free passes
    rw [StepLabel.quiet, events, runNode, called] at quiet
    cases quiet
  | true =>
    refine ⟨rfl, ?_⟩
    rw [runNode, agentNode_of_preflight free passes] at outcome
    rcases outcome with ⟨-, -, raised⟩ | ⟨u, update, returned, -⟩
    · cases raised
    · cases returned
      rw [update] at flag
      by_contra below
      have off := @agentError_forceEnd env (agentSpec env agentType) x.before.state
        x.input (incrementStep x.before.state)
      rw [decide_eq_false below] at off
      rw [Option.all_some, off] at flag
      cases flag

theorem start_enteredFree (thread : AgentState) (maxSteps : Nat) (runId task : String)
    (messages : List Message) :
    EnteredFree ⟨.agent, freshState thread maxSteps runId task messages⟩ := by
  rintro (h | h) <;> cases h

/-- A run whose steps keep halts leaves every halt final. -/
theorem halt_final_of_kept {thread : AgentState} {maxSteps : Nat} {runId task : String}
    {messages : List Message} {inputs : List NodeInput}
    (kept : ∀ x ∈ (graph env agentType threadId interruptBefore).run
      ⟨.agent, freshState thread maxSteps runId task messages⟩ inputs,
      HaltKept env agentType x) :
    HaltFinal ((graph env agentType threadId interruptBefore).run
      ⟨.agent, freshState thread maxSteps runId task messages⟩ inputs) :=
  @Machine.since_of_invariant _ _ _ _ EnteredFree Halted _ _ (HaltKept env agentType)
    (fun _ step _ => keeps_enteredFree step)
    (fun _ step _ halts => halted_of_halts step halts)
    (fun _ step _ halted ok => keeps_halted step halted ok) _ _
    (start_enteredFree thread maxSteps runId task messages) kept

/-- In the researcher and the orchestrator every halt is final. -/
theorem halt_final_of_guarded (guarded : (agentSpec env agentType).guarded = true)
    (thread : AgentState) (maxSteps : Nat) (runId task : String)
    (messages : List Message) (inputs : List NodeInput) :
    HaltFinal ((graph env agentType threadId interruptBefore).run
      ⟨.agent, freshState thread maxSteps runId task messages⟩ inputs) :=
  halt_final_of_kept fun _ _ _ _ unguarded => by
    rw [guarded] at unguarded
    cases unguarded

/-- For every graph, thread and sequence of answers: in the run a forced halt is
final, if and only if every step keeps it. -/
theorem halt_final_iff (env : Env) (agentType : AgentType) (threadId : Option String)
    (interruptBefore : List Node) (thread : AgentState) (maxSteps : Nat)
    (runId task : String) (messages : List Message) (inputs : List NodeInput) :
    HaltFinal ((graph env agentType threadId interruptBefore).run
        ⟨.agent, freshState thread maxSteps runId task messages⟩ inputs) ↔
      ∀ x ∈ (graph env agentType threadId interruptBefore).run
        ⟨.agent, freshState thread maxSteps runId task messages⟩ inputs,
        HaltKept env agentType x := by
  have start := start_enteredFree thread maxSteps runId task messages
  refine ⟨fun final x hx agent force guarded => ?_, halt_final_of_kept⟩
  have leaves := Machine.of_since
    (K := fun c : Config => c.state.forceEnd = true ∧ c.node = .agent)
    (fun x step _ => keeps_enteredFree step)
    (fun x step free _ k => halts_of_entered step free k)
    start (fun k => absurd k.1 (by simp [freshState])) final x hx ⟨force, agent⟩
  have step := (Machine.run_invariant (I := EnteredFree)
    (fun x step _ => keeps_enteredFree step) start x hx).1
  exact kept_of_leavesHalt step leaves agent force guarded

end

/-! ## The observer after a blocked call -/

/-- The observer asks for the call history, the registry refuses the tool, and
the observer is asked again. -/
def blockedInputs : List NodeInput :=
  let asks : NodeInput :=
    { preflightRaises := false
      llm := fun _ => some
        { content := .text ""
          toolCalls :=
            [{ id := some (some "call_0"), name := "read_tool_call_history", args := [] }]
          usage := some 700 }
      fallbackId := ""
      errorText := ""
      verdicts := { skipSecond with registry := fun _ _ => false }
      inner := some []
      finalText := none }
  [asks, asks, asks]

/-- After the halt the model is called and `force_end` is set back. -/
theorem observer_goes_on_after_halt :
    ¬ HaltFinal ((graph sampleEnv .observer none []).run
      ⟨.agent, freshState (sampleState []) 40 "run-1" "report" []⟩ blockedInputs) := by
  unfold HaltFinal Machine.Since
  decide +kernel

end LegionForge.Agent
