import LegionForge.Agent.Graphs

/-!
# Runs are bounded by the step counter

Two loops share the counter `step_count`: agent to tools and back, and in the
orchestrator agent to verifier and back. Only the agent node counts, and only the
router behind it looks at the limit; neither the way back from the tools node nor
`route_after_verify` does. Still every cycle passes both, so a measure falls on every
step: twice what the counter has left, and one more between the agent node and its
return.

`bounded_run` reads the bound on agent executions and on refinement requests off that
measure, for whatever the model and the tools answer, and what a run comes to: its
finalizer, its review node, or an exception in the tools node, which no graph catches.
-/

namespace LegionForge.Agent

open JsonText Security

/-! ## What is counted -/

/-- Executions of the agent node. -/
def agentRuns (trace : List AgentStep) : Nat :=
  trace.countP fun x => x.before.node = .agent

/-- The verifier asked for a better answer. -/
def AgentStep.refines (x : AgentStep) : Bool :=
  x.before.node = .verify && x.label.update.any (·.verifyRounds.isSome)

def refinements (trace : List AgentStep) : Nat := trace.countP AgentStep.refines

/-- The run came to its finalizer or to its review node. -/
def Concludes (trace : List AgentStep) : Prop :=
  ∃ x ∈ trace, x.after.node = .finalize ∨ x.after.node = .hitlGate

/-- The tools node raised, which ends the run. -/
def ToolsRaise (trace : List AgentStep) : Prop :=
  ∃ x ∈ trace, x.before.node = .tools ∧ x.label.update = none

/-- What a graph is compiled to interrupt at: the gate when a base run starts, nothing
when it is resumed and in the other graphs. -/
def interruptNodes (gated : Bool) : List Node := if gated then [.hitlGate] else []

/-- What the first `n` node executions meet. -/
def firstAnswers (answers : Nat → NodeInput) (n : Nat) : List NodeInput :=
  (List.range n).map answers

section
variable {env : Env} {agentType : AgentType} {threadId : Option String}
  {interruptBefore : List Node}

/-! ## Which updates count -/

/-- The update leaves both counters alone. -/
structure Update.Uncounted (u : Update) : Prop where
  stepCount : u.stepCount = none
  verifyRounds : u.verifyRounds = none

theorem Update.Uncounted.merge {u w : Update} (hu : u.Uncounted) (hw : w.Uncounted) :
    (u.merge w).Uncounted := by
  refine ⟨?_, ?_⟩
  · rw [Update.merge, hu.stepCount, hw.stepCount]
    rfl
  · rw [Update.merge, hu.verifyRounds, hw.verifyRounds]
    rfl

theorem checkHitlRequired_uncounted (action text : String) (s : AgentState)
    (thread : Option String) (cats : List Category) (inserted : Option String) :
    (checkHitlRequired action text s thread cats inserted).2.Uncounted := by
  simp only [checkHitlRequired]
  cases (cats.filter (·.review)).isEmpty <;> cases (cats.filter (·.forceEnd)).isEmpty <;>
    cases inserted
  all_goals exact ⟨rfl, rfl⟩

/-- An argument check that stops the call leaves the counters alone. -/
def ArgVerdict.Uncounted (verdict : ArgVerdict) : Prop :=
  ∀ hitl, verdict = .stopped hitl → hitl.Uncounted

theorem checkDestructive_uncounted {v : Verdicts} {s : AgentState} (i : Nat)
    (toolId name text : String) :
    (checkDestructive env threadId v s i toolId name text).2.Uncounted := by
  unfold checkDestructive
  cases found : (detectDestructivePattern env.unicode (cleanCopy env.unicode text)).1 with
  | false =>
    simp only [found]
    intro hitl stopped
    cases stopped
  | true =>
    have uncounted := checkHitlRequired_uncounted s!"{toolId}.{name}"
      (String.ofList ((cleanCopy env.unicode text).toList.take 200)) s threadId
      (detectDestructivePattern env.unicode (cleanCopy env.unicode text)).2
      (v.hitlInsert i name)
    rcases eq : checkHitlRequired s!"{toolId}.{name}"
      (String.ofList ((cleanCopy env.unicode text).toList.take 200)) s threadId
      (detectDestructivePattern env.unicode (cleanCopy env.unicode text)).2
      (v.hitlInsert i name) with ⟨row, u⟩
    rw [eq] at uncounted
    simp only [found, eq, if_true]
    split
    · intro hitl stopped
      cases stopped
      exact uncounted
    · intro hitl stopped
      cases stopped

theorem checkString_uncounted {v : Verdicts} {s : AgentState} (i : Nat)
    (toolId name text : String) :
    (checkString env threadId v s i toolId name text).2.Uncounted := by
  have destructive := @checkDestructive_uncounted env threadId v s i toolId name text
  rw [checkString_eq]
  generalize checkDestructive env threadId v s i toolId name text = checked at destructive ⊢
  cases tier1Injection env.unicode text <;> cases urlLike name <;> cases v.url i name <;>
    simp only [Bool.false_eq_true, if_false, if_true]
  all_goals first
    | exact destructive
    | (intro hitl stopped; cases stopped)

theorem checkArgs_uncounted {v : Verdicts} {s : AgentState} (i : Nat) (toolId : String)
    (args : List (String × Json)) :
    (checkArgs env threadId v s i toolId args).2.Uncounted := by
  induction args with
  | nil =>
    intro hitl stopped
    cases stopped
  | cons arg rest ih =>
    obtain ⟨name, value⟩ := arg
    cases value with
    | str text =>
      rw [checkArgs]
      have first := @checkString_uncounted env threadId v s i toolId name text
      rcases eq : checkString env threadId v s i toolId name text with ⟨events, verdict⟩
      rw [eq] at first
      cases verdict with
      | pass => exact ih
      | _ => exact first
    | _ => exact ih

/-- What the checks of one call hand on leaves the counters alone. -/
def Verdict.Uncounted : Verdict → Prop
  | .looped loop | .approved loop => loop.Uncounted
  | .stopped loop hitl => loop.Uncounted ∧ hitl.Uncounted
  | _ => True

theorem checkCall_uncounted {toolNames : List String} {v : Verdicts} {s : AgentState}
    (i : Nat) (tc : ToolCall) :
    (checkCall env toolNames threadId v s i tc).2.Uncounted := by
  have loop (name : String) : (detectActionLoop env s name tc.args).Uncounted := ⟨rfl, rfl⟩
  unfold checkCall
  dsimp only
  split
  · trivial
  · split
    · trivial
    · split
      · split <;> trivial
      · split
        · exact loop _
        · have args := @checkArgs_uncounted env threadId v s i
            (canonicalName toolNames tc.name) tc.args
          rcases eq : checkArgs env threadId v s i (canonicalName toolNames tc.name)
            tc.args with ⟨events, verdict⟩
          rw [eq] at args
          cases verdict with
          | stopped hitl => exact ⟨loop _, args hitl rfl⟩
          | pass => exact loop _
          | _ => trivial

/-- What the loop over the batch hands on leaves the counters alone. -/
def Checked.Uncounted : Checked → Prop
  | .raised => True
  | .halted u => u.Uncounted
  | .done p => p.result.Uncounted

theorem Checked.uncounted_ofMessages {msgs : Option (List ToolMessage)}
    {u : List ToolMessage → Update} (h : ∀ m, (u m).Uncounted) :
    (Checked.ofMessages msgs u).Uncounted := by
  unfold Checked.ofMessages
  split
  · exact h _
  · trivial

theorem checkCalls_uncounted {toolNames : List String} {v : Verdicts} {s : AgentState}
    (calls : List ToolCall) : ∀ (rest : List ToolCall) (i : Nat) (p : Progress),
    p.result.Uncounted →
      (checkCalls env toolNames threadId v s calls i rest p).2.Uncounted := by
  intro rest
  induction rest with
  | nil => intro i p start; exact start
  | cons tc rest ih =>
    intro i p start
    rw [checkCalls]
    have call := @checkCall_uncounted env threadId toolNames v s i tc
    rcases eq : checkCall env toolNames threadId v s i tc with ⟨events, verdict⟩
    rw [eq] at call
    cases verdict with
    | registryBlocked =>
      exact Checked.uncounted_ofMessages fun _ => ⟨start.stepCount, start.verifyRounds⟩
    | aclDenied => exact Checked.uncounted_ofMessages fun _ => ⟨rfl, rfl⟩
    | guardianHalt reason => exact Checked.uncounted_ofMessages fun _ => ⟨rfl, rfl⟩
    | sandboxed =>
      dsimp only
      split
      · trivial
      · exact ih _ _ start
    | looped loop => exact start.merge call
    | argHalt => exact ⟨rfl, rfl⟩
    | stopped loop hitl => exact (start.merge call.1).merge call.2
    | raised => trivial
    | approved loop => exact ih _ _ (start.merge call)

theorem executeApproved_uncounted {calls : List ToolCall} {p : Progress}
    {inner : Option (List ToolMessage)} {u : Update} (start : p.result.Uncounted)
    (h : (executeApproved env calls p inner).outcome = .returned u) : u.Uncounted := by
  unfold executeApproved at h
  dsimp only at h
  split at h
  · cases h
    exact ⟨start.stepCount, start.verifyRounds⟩
  · split at h
    · cases h
    · split at h
      · cases h
        exact ⟨rfl, rfl⟩
      · split at h
        · cases h
          exact ⟨start.stepCount, start.verifyRounds⟩
        · dsimp only at h
          split at h
          · cases h
          · cases h
            exact ⟨rfl, rfl⟩

/-- The tools node does not count. -/
theorem secureToolNode_uncounted {toolNames : List String} {v : Verdicts} {s : AgentState}
    {inner : Option (List ToolMessage)} {u : Update}
    (h : (secureToolNode env toolNames threadId v s inner).outcome = .returned u) :
    u.Uncounted := by
  unfold secureToolNode at h
  dsimp only at h
  have checked := @checkCalls_uncounted env threadId toolNames v s
    (s.toolCalls.map (normaliseCall toolNames)) (s.toolCalls.map (normaliseCall toolNames)) 0
    { sequenceSoFar := s.sequenceSoFar } ⟨rfl, rfl⟩
  split at h
  · cases h
  · next eq =>
    rw [eq] at checked
    cases h
    exact checked
  · next eq =>
    rw [eq] at checked
    exact executeApproved_uncounted checked h

/-- The agent node returns, counts itself, and leaves the verifier's counter alone. -/
theorem agentNode_counts (spec : AgentSpec) (s : AgentState) (inp : NodeInput) :
    ∃ u, (agentNode env spec s inp).outcome = .returned u ∧
      u.stepCount = some (s.stepCount + 1) ∧ u.verifyRounds = none := by
  have error : ∀ u : Update, u.stepCount = some (s.stepCount + 1) → u.verifyRounds = none →
      (agentError env spec s inp u).stepCount = some (s.stepCount + 1) ∧
        (agentError env spec s inp u).verifyRounds = none := by
    intro u steps rounds
    unfold agentError
    dsimp only
    split
    · exact ⟨steps, rounds⟩
    · exact ⟨steps, rounds⟩
  have usage : ∀ response, (recordUsage env s response (incrementStep s)).stepCount =
        some (s.stepCount + 1) ∧
      (recordUsage env s response (incrementStep s)).verifyRounds = none := by
    intro response
    unfold recordUsage
    split
    · exact ⟨rfl, rfl⟩
    · exact ⟨rfl, rfl⟩
  unfold agentNode
  dsimp only
  split
  · exact ⟨_, rfl, rfl, rfl⟩
  · split
    · exact ⟨_, rfl, error _ rfl rfl⟩
    · split
      · exact ⟨_, rfl, error _ rfl rfl⟩
      · next response _ =>
        split
        · split
          · split
            · exact ⟨_, rfl, error _ (usage response).1 (usage response).2⟩
            · dsimp only
              split
              · exact ⟨_, rfl, usage response⟩
              · exact ⟨_, rfl, usage response⟩
          · exact ⟨_, rfl, usage response⟩
        · exact ⟨_, rfl, usage response⟩

/-- The verifier returns without touching the step counter; a request for a refinement is
counted, and only made below the maximum. -/
theorem verifyNode_counts (s : AgentState) (inp : NodeInput) :
    ∃ u, (verifyNode env s inp).outcome = .returned u ∧ u.stepCount = none ∧
      (u.verifyRounds = none ∨
        u.verifyRounds = some (s.verifyRounds + 1) ∧ s.verifyRounds < maxVerifyRounds) := by
  unfold verifyNode
  split
  · exact ⟨_, rfl, rfl, .inl rfl⟩
  · next below =>
    split
    · exact ⟨_, rfl, rfl, .inl rfl⟩
    · split
      · exact ⟨_, rfl, rfl, .inl rfl⟩
      · dsimp only
        split
        · exact ⟨_, rfl, rfl, .inl rfl⟩
        · exact ⟨_, rfl, rfl, .inr ⟨rfl, Nat.lt_of_not_le below⟩⟩

/-! ## What the router lets through -/

/-- The agent executions the counter still allows; with an error limit of zero the
router never goes on. -/
def stepsLeft (env : Env) (s : AgentState) : Nat :=
  if env.maxErrorsPerRun = 0 then 0 else s.maxSteps - s.stepCount

theorem stepsLeft_le (s : AgentState) : stepsLeft env s ≤ s.maxSteps - s.stepCount := by
  unfold stepsLeft
  split
  · exact Nat.zero_le _
  · exact Nat.le_refl _

theorem stepsLeft_of_counted {s t : AgentState} (limit : t.maxSteps = s.maxSteps)
    (counted : t.stepCount = s.stepCount + 1) : stepsLeft env t = stepsLeft env s - 1 := by
  unfold stepsLeft
  rw [limit, counted]
  split <;> omega

theorem stepsLeft_congr {s t : AgentState} (limit : t.maxSteps = s.maxSteps)
    (counted : t.stepCount = s.stepCount) : stepsLeft env t = stepsLeft env s := by
  rw [stepsLeft, stepsLeft, limit, counted]

theorem stepsLeft_pos {s : AgentState} (h : checkSafeguards env s ≠ .finish) :
    0 < stepsLeft env s := by
  have below : ¬ checkStepLimit s = true := by
    intro limit
    refine h ?_
    unfold checkSafeguards
    rw [limit]
    split
    · rfl
    · split <;> rfl
  have errors : env.maxErrorsPerRun ≠ 0 := by
    intro none
    refine h ?_
    unfold checkSafeguards
    have reached : s.errorCount ≥ env.maxErrorsPerRun := by omega
    rw [if_pos reached]
    repeat' split
    all_goals rfl
  rw [checkStepLimit, decide_eq_true_iff] at below
  rw [stepsLeft, if_neg errors]
  omega

/-- The nodes a run goes through before it concludes. -/
def Node.Loops : Node → Prop
  | .agent | .tools | .verify => True
  | _ => False

/-- The router finalizes, opens the gate (in the base graph), or goes on with steps
left. -/
theorem routeAfter_cases (s : AgentState) :
    routeAfter env agentType s = .finalize ∨
      (routeAfter env agentType s = .hitlGate ∧ agentType = .base) ∨
      ((routeAfter env agentType s).Loops ∧ 0 < stepsLeft env s) := by
  have tools (otherwise : Node) (last : otherwise = .finalize ∨ otherwise.Loops) :
      routeToTools env otherwise s = .finalize ∨
        ((routeToTools env otherwise s).Loops ∧ 0 < stepsLeft env s) := by
    unfold routeToTools
    split
    · exact .inl rfl
    · next goes =>
      have left := stepsLeft_pos goes
      split
      · rcases last with last | last
        · exact .inl last
        · exact .inr ⟨last, left⟩
      · exact .inr ⟨trivial, left⟩
  cases agentType with
  | base =>
    rw [routeAfter, routeAfterAgent]
    split
    · exact .inr (.inl ⟨rfl, rfl⟩)
    · exact .inl rfl
    · next goes =>
      have left : 0 < stepsLeft env s := stepsLeft_pos (by rw [goes]; simp)
      split
      · split
        · exact .inl rfl
        · exact .inr (.inr ⟨trivial, left⟩)
      · exact .inr (.inr ⟨trivial, left⟩)
  | orchestrator => exact (tools .verify (.inr trivial)).imp id .inr
  | _ => exact (tools .finalize (.inl rfl)).imp id .inr

/-! ## What a step does to the counters -/

/-- A step counts once at the agent node, leaves the counter alone elsewhere, and ends
the run where its node raises. -/
inductive Moves (env : Env) (agentType : AgentType) (x : AgentStep) : Prop
  | raised (node : x.before.node = .tools ∨ x.before.node = .finalize)
      (update : x.label.update = none) (after : x.after.node = .failed)
      (rounds : x.after.state.verifyRounds = x.before.state.verifyRounds)
  | agent (node : x.before.node = .agent)
      (left : stepsLeft env x.after.state = stepsLeft env x.before.state - 1)
      (rounds : x.after.state.verifyRounds = x.before.state.verifyRounds)
      (after : x.after.node = .finalize ∨
        (x.after.node = .hitlGate ∧ agentType = .base) ∨
        (x.after.node.Loops ∧ 0 < stepsLeft env x.after.state))
  | tools (node : x.before.node = .tools)
      (left : stepsLeft env x.after.state = stepsLeft env x.before.state)
      (rounds : x.after.state.verifyRounds = x.before.state.verifyRounds)
      (after : x.after.node = .agent)
  | verify (node : x.before.node = .verify)
      (left : stepsLeft env x.after.state = stepsLeft env x.before.state)
      (rounds : (x.refines = false ∧
          x.after.state.verifyRounds = x.before.state.verifyRounds) ∨
        (x.after.state.verifyRounds = x.before.state.verifyRounds + 1 ∧
          x.before.state.verifyRounds < maxVerifyRounds))
      (after : x.after.node = .agent ∨ x.after.node = .finalize)
  | concluded (node : x.before.node = .hitlGate ∨ x.before.node = .finalize)
      (rounds : x.after.state.verifyRounds = x.before.state.verifyRounds)
      (after : x.after.node = .done)

theorem graph_moves {x : AgentStep}
    (step : (graph env agentType threadId interruptBefore).Steps x) :
    Moves env agentType x := by
  obtain ⟨notDone, notFailed, outcome, -⟩ := graph_steps step
  cases node : x.before.node with
  | done => exact absurd node notDone
  | failed => exact absurd node notFailed
  | agent =>
    rw [node] at outcome
    obtain ⟨u, returned, steps, rounds⟩ :=
      @agentNode_counts env (agentSpec env agentType) x.before.state x.input
    rcases outcome with ⟨-, -, raised⟩ | ⟨w, -, same, after⟩
    · rw [runNode, returned] at raised
      cases raised
    · rw [runNode, returned] at same
      cases same
      refine .agent node ?_ ?_ ?_
      · rw [after]
        exact stepsLeft_of_counted rfl (by simp [AgentState.apply, steps])
      · rw [after]
        simp [AgentState.apply, rounds]
      · rw [after]
        exact routeAfter_cases _
  | tools =>
    rw [node] at outcome
    rcases outcome with ⟨update, after, -⟩ | ⟨u, -, returned, after⟩
    · exact .raised (.inl node) update (by rw [after]) (by rw [after])
    · have counted := secureToolNode_uncounted returned
      refine .tools node ?_ ?_ (by rw [after]; rfl)
      · rw [after]
        exact stepsLeft_congr rfl (by simp [AgentState.apply, counted.stepCount])
      · rw [after]
        simp [AgentState.apply, counted.verifyRounds]
  | verify =>
    rw [node] at outcome
    obtain ⟨u, returned, steps, rounds⟩ := @verifyNode_counts env x.before.state x.input
    rcases outcome with ⟨-, -, raised⟩ | ⟨w, update, same, after⟩
    · rw [runNode, returned] at raised
      cases raised
    · rw [runNode, returned] at same
      cases same
      refine .verify node ?_ ?_ ?_
      · rw [after]
        exact stepsLeft_congr rfl (by simp [AgentState.apply, steps])
      · rw [after]
        rcases rounds with rounds | ⟨rounds, below⟩
        · refine .inl ⟨?_, by simp [AgentState.apply, rounds]⟩
          rw [AgentStep.refines, update, Option.any_some, rounds]
          exact Bool.and_false _
        · exact .inr ⟨by simp [AgentState.apply, rounds], below⟩
      · rw [after, nextNode, routeAfterVerify]
        split
        · split
          · exact .inl rfl
          · exact .inr rfl
        · exact .inr rfl
  | hitlGate =>
    rw [node] at outcome
    rcases outcome with ⟨-, -, raised⟩ | ⟨u, -, returned, after⟩
    · cases raised
    · cases returned
      exact .concluded (.inl node) (by rw [after]; rfl) (by rw [after]; rfl)
  | finalize =>
    rw [node] at outcome
    rcases outcome with ⟨update, after, -⟩ | ⟨u, -, returned, after⟩
    · exact .raised (.inr node) update (by rw [after]) (by rw [after])
    · rw [runNode, finalizerNode] at returned
      refine .concluded (.inr node) ?_ (by rw [after]; rfl)
      cases text : x.input.finalText with
      | none =>
        rw [text] at returned
        cases returned
      | some t =>
        rw [text] at returned
        cases returned
        rw [after]
        rfl

/-! ## The measures -/

/-- The agent executions a run can still make. -/
def agentsLeft (env : Env) (c : Config) : Nat :=
  match c.node with
  | .agent => max 1 (stepsLeft env c.state)
  | .tools | .verify => stepsLeft env c.state
  | _ => 0

/-- The node executions a run can still make. -/
def nodesLeft (env : Env) (c : Config) : Nat :=
  match c.node with
  | .agent => 2 * max 1 (stepsLeft env c.state)
  | .tools | .verify => 2 * stepsLeft env c.state + 1
  | .hitlGate | .finalize => 1
  | .done | .failed => 0

/-- Between the agent node and its return steps are left. -/
def BelowLimit (env : Env) (c : Config) : Prop :=
  c.node = .tools ∨ c.node = .verify → 0 < stepsLeft env c.state

theorem belowLimit_start (s : AgentState) : BelowLimit env ⟨.agent, s⟩ := by
  rintro (h | h) <;> cases h

/-- Every step keeps the invariant and lowers the measure; an agent execution lowers the
count of those left. -/
theorem keeps_belowLimit {x : AgentStep} (moves : Moves env agentType x)
    (below : BelowLimit env x.before) :
    BelowLimit env x.after ∧ nodesLeft env x.after < nodesLeft env x.before ∧
      agentsLeft env x.after + (if x.before.node = .agent then 1 else 0) ≤
        agentsLeft env x.before := by
  unfold BelowLimit nodesLeft agentsLeft
  cases moves with
  | raised node update after rounds =>
    rcases node with node | node
    · simp [node, after]
    · simp [node, after]
  | agent node left rounds after =>
    rw [if_pos node]
    rcases after with after | ⟨after, -⟩ | ⟨loops, some⟩
    · simp only [node, after]
      exact ⟨by simp, by omega, by omega⟩
    · simp only [node, after]
      exact ⟨by simp, by omega, by omega⟩
    · cases next : x.after.node with
      | agent =>
        simp only [node]
        exact ⟨by simp, by omega, by omega⟩
      | tools =>
        simp only [node]
        exact ⟨fun _ => some, by omega, by omega⟩
      | verify =>
        simp only [node]
        exact ⟨fun _ => some, by omega, by omega⟩
      | _ =>
        rw [next] at loops
        exact loops.elim
  | tools node left rounds after =>
    have some := below (.inl node)
    rw [if_neg (by simp [node])]
    simp only [node, after, left]
    exact ⟨by simp, by omega, by omega⟩
  | verify node left rounds after =>
    have some := below (.inr node)
    rw [if_neg (by simp [node])]
    rcases after with after | after
    · simp only [node, after, left]
      exact ⟨by simp, by omega, by omega⟩
    · simp only [node, after]
      exact ⟨by simp, by omega, by omega⟩
  | concluded node rounds after =>
    rcases node with node | node
    · simp [node, after]
    · simp [node, after]

/-! ## Whole runs -/

theorem agentRuns_le {c : Config} (below : BelowLimit env c) (inputs : List NodeInput) :
    agentRuns ((graph env agentType threadId interruptBefore).run c inputs) ≤
      agentsLeft env c := by
  have count := Machine.countP_run_le (m := graph env agentType threadId interruptBefore)
    (I := BelowLimit env) (μ := agentsLeft env) (p := fun x => x.before.node = .agent)
    (fun x step below => by
      have kept := keeps_belowLimit (graph_moves step) below
      refine ⟨kept.1, ?_⟩
      simpa using kept.2.2) inputs below
  exact Nat.le_of_add_right_le count

/-- Each refinement raises the verifier's counter, which stops it at the maximum. -/
theorem refines_uses_round {x : AgentStep} (moves : Moves env agentType x) :
    maxVerifyRounds - x.after.state.verifyRounds + (if x.refines then 1 else 0) ≤
      maxVerifyRounds - x.before.state.verifyRounds := by
  have elsewhere (node : x.before.node ≠ .verify) : x.refines = false := by
    rw [AgentStep.refines, decide_eq_false node]
    rfl
  cases moves with
  | raised node update after rounds =>
    rw [rounds, elsewhere (by rcases node with node | node <;> simp [node])]
    exact Nat.le_refl _
  | agent node left rounds after =>
    rw [rounds, elsewhere (by simp [node])]
    exact Nat.le_refl _
  | tools node left rounds after =>
    rw [rounds, elsewhere (by simp [node])]
    exact Nat.le_refl _
  | verify node left rounds after =>
    rcases rounds with ⟨quiet, rounds⟩ | ⟨rounds, some⟩
    · rw [rounds, quiet]
      exact Nat.le_refl _
    · rw [rounds]
      split <;> omega
  | concluded node rounds after =>
    rw [rounds, elsewhere (by rcases node with node | node <;> simp [node])]
    exact Nat.le_refl _

theorem refinements_le (c : Config) (inputs : List NodeInput) :
    refinements ((graph env agentType threadId interruptBefore).run c inputs) ≤
      maxVerifyRounds - c.state.verifyRounds := by
  have count := Machine.countP_run_le (m := graph env agentType threadId interruptBefore)
    (I := fun _ => True) (μ := fun c => maxVerifyRounds - c.state.verifyRounds)
    (p := AgentStep.refines)
    (fun _ step _ => ⟨trivial, refines_uses_round (graph_moves step)⟩) (s := c) inputs trivial
  exact Nat.le_of_add_right_le count

theorem graph_stuck {c : Config} {inp : NodeInput}
    (h : (graph env agentType threadId interruptBefore).step c inp = none) :
    c.node = .done ∨ c.node = .failed ∨ c.node ∈ interruptBefore := by
  unfold graph at h
  dsimp only at h
  split at h
  · next ended =>
    simpa [or_assoc] using ended
  · cases h

/-- With enough answers a run ends at the end of its graph, at an exception, or before a
node it was to interrupt at. -/
theorem final_over {c : Config} {inputs : List NodeInput} (below : BelowLimit env c)
    (enough : nodesLeft env c ≤ inputs.length) :
    let last := ((graph env agentType threadId interruptBefore).final c inputs).node
    last = .done ∨ last = .failed ∨ last ∈ interruptBefore := by
  rcases Machine.final_stuck (m := graph env agentType threadId interruptBefore)
    (I := BelowLimit env) (μ := nodesLeft env)
    (fun x step below => by
      have kept := keeps_belowLimit (graph_moves step) below
      exact ⟨kept.1, kept.2.1⟩) below enough with used | ⟨i, stuck⟩
  · dsimp only
    unfold nodesLeft at used
    split at used
    · omega
    · omega
    · omega
    · omega
    · omega
    · next last => exact .inl last
    · next last => exact .inr (.inl last)
  · exact graph_stuck stuck

/-- A run that leaves the loops does so into its finalizer, its review node or an
exception of the tools node. -/
theorem concludes_of_over {c : Config} {inputs : List NodeInput} (loops : c.node.Loops)
    (ended : ¬ ((graph env agentType threadId interruptBefore).final c inputs).node.Loops) :
    let trace := (graph env agentType threadId interruptBefore).run c inputs
    Concludes trace ∨ ToolsRaise trace := by
  induction inputs generalizing c with
  | nil => exact absurd loops ended
  | cons inp inputs ih =>
    cases h : (graph env agentType threadId interruptBefore).step c inp with
    | none =>
      rw [Machine.final_cons_of_stop h] at ended
      exact absurd loops ended
    | some next =>
      rw [Machine.final_cons_of_step h] at ended
      rw [Machine.run_cons_of_step h]
      have first (here : next.1.node = .finalize ∨ next.1.node = .hitlGate) (rest) :
          Concludes (⟨c, inp, next.2, next.1⟩ :: rest) := ⟨_, List.mem_cons_self, here⟩
      have later (goes : next.1.node.Loops) := ih goes ended
      have goOn (goes : next.1.node.Loops) :
          let trace := ⟨c, inp, next.2, next.1⟩ ::
            (graph env agentType threadId interruptBefore).run next.1 inputs
          Concludes trace ∨ ToolsRaise trace := by
        rcases later goes with ⟨x, hx, at_⟩ | ⟨x, hx, raises⟩
        · exact .inl ⟨x, List.mem_cons_of_mem _ hx, at_⟩
        · exact .inr ⟨x, List.mem_cons_of_mem _ hx, raises⟩
      have moves := graph_moves (x := ⟨c, inp, next.2, next.1⟩) h
      cases moves with
      | raised node update after rounds =>
        rcases node with node | node
        · exact .inr ⟨_, List.mem_cons_self, node, update⟩
        · rw [node] at loops
          exact loops.elim
      | agent node left rounds after =>
        rcases after with after | ⟨after, -⟩ | ⟨goes, -⟩
        · exact .inl (first (.inl after) _)
        · exact .inl (first (.inr after) _)
        · exact goOn goes
      | tools node left rounds after =>
        refine goOn ?_
        dsimp only at after
        rw [after]
        trivial
      | verify node left rounds after =>
        rcases after with after | after
        · refine goOn ?_
          dsimp only at after
          rw [after]
          trivial
        · exact .inl (first (.inl after) _)
      | concluded node rounds after =>
        dsimp only at node
        rcases node with node | node
        · rw [node] at loops
          exact loops.elim
        · rw [node] at loops
          exact loops.elim

theorem interruptNodes_end {gated : Bool} {node : Node} (h : node ∈ interruptNodes gated) :
    ¬ node.Loops := by
  unfold interruptNodes at h
  split at h
  · rw [List.mem_singleton.mp h]
    exact id
  · cases h

/-- For every graph, start and sequence of answers: a run executes its agent node at most
as often as the counter allows, within twice as many node executions it has come to its
finalizer or its review node unless the tools node raised, and the verifier asks for at
most `MAX_VERIFY_ROUNDS` refinements. -/
theorem bounded_run (env : Env) (agentType : AgentType) (threadId : Option String)
    (gated : Bool) (s : AgentState) (answers : Nat → NodeInput) :
    let trace := fun n => (graph env agentType threadId (interruptNodes gated)).run
      ⟨.agent, s⟩ (firstAnswers answers n)
    let bound := max 1 (s.maxSteps - s.stepCount)
    (∀ n, agentRuns (trace n) ≤ bound) ∧
      (Concludes (trace (2 * bound)) ∨ ToolsRaise (trace (2 * bound))) ∧
      ∀ n, refinements (trace n) ≤ maxVerifyRounds := by
  dsimp only
  have left := @stepsLeft_le env s
  refine ⟨fun n => ?_, ?_, fun n => ?_⟩
  · have count := @agentRuns_le env agentType threadId (interruptNodes gated) _
      (belowLimit_start s) (firstAnswers answers n)
    rw [agentsLeft] at count
    dsimp only at count
    omega
  · refine concludes_of_over trivial ?_
    have ended := @final_over env agentType threadId (interruptNodes gated) _
      (firstAnswers answers (2 * max 1 (s.maxSteps - s.stepCount))) (belowLimit_start s) (by
        rw [firstAnswers, List.length_map, List.length_range, nodesLeft]
        dsimp only
        omega)
    dsimp only at ended
    rcases ended with last | last | last
    · rw [last]
      exact id
    · rw [last]
      exact id
    · exact interruptNodes_end last
  · exact Nat.le_trans (refinements_le _ _) (Nat.sub_le _ _)

theorem firstAnswers_const (inp : NodeInput) (n : Nat) :
    firstAnswers (fun _ => inp) n = List.replicate n inp := by
  rw [firstAnswers, List.map_const', List.length_range]

end

/-! ## A call without an id -/

/-- The researcher searches under no id, and the Guardian skips the call: the message
that says so cannot be built. -/
def unnamedSearch : NodeInput where
  preflightRaises := false
  llm _ := some
    { content := .text ""
      toolCalls := [{ id := some none, name := "web_search", args := [] }]
      usage := some 700 }
  fallbackId := ""
  errorText := ""
  verdicts := { skipSecond with
    guardian := fun _ _ => { allowed := false, tier := .sandbox, reason := "novel sequence" } }
  inner := some []
  finalText := some ""

/-- The run ends in the tools node, however long it is given. -/
theorem researcher_never_concludes :
    ¬ ∃ n, Concludes ((graph sampleEnv .researcher none (interruptNodes false)).run
      ⟨.agent, freshState (sampleState []) 40 "run-1" "report" []⟩
      (firstAnswers (fun _ => unnamedSearch) n)) := by
  rintro ⟨n, x, hx, concluded⟩
  rw [firstAnswers_const] at hx
  let c₀ : Config := ⟨.agent, freshState (sampleState []) 40 "run-1" "report" []⟩
  let c₁ := (execute sampleEnv .researcher none c₀ unnamedSearch).1
  have tools : c₁.node = .tools := by decide +kernel
  have failed : (execute sampleEnv .researcher none c₁ unnamedSearch).1.node = .failed := by
    decide +kernel
  -- the run is at its start, in the tools node, or has failed
  let I : Config → Prop := fun c => c = c₀ ∨ c = c₁ ∨ c.node = .failed
  have keep (y : AgentStep)
      (step : (graph sampleEnv .researcher none (interruptNodes false)).Steps y)
      (same : y.input = unnamedSearch) (here : I y.before) : I y.after := by
    have live := (graph_steps step).2.1
    unfold Machine.Steps at step
    rcases here with start | second | ended
    · rw [start, same] at step
      have first : (graph sampleEnv .researcher none (interruptNodes false)).step c₀
          unnamedSearch = some (execute sampleEnv .researcher none c₀ unnamedSearch) := rfl
      rw [first] at step
      exact .inr (.inl (congrArg Prod.fst (Option.some.inj step)).symm)
    · rw [second, same, graph] at step
      simp only [tools, interruptNodes, Bool.false_eq_true, if_false, List.contains_nil,
        reduceCtorEq, decide_false, Bool.or_self, Option.some.injEq] at step
      rw [step] at failed
      exact .inr (.inr failed)
    · exact absurd ended live
  have after := (Machine.run_invariant_of_ok (I := I) keep (.inl rfl)
    (fun y hy => List.eq_of_mem_replicate (Machine.input_mem_of_run hy)) x hx).2.2
  rcases after with start | second | ended
  · rw [start] at concluded
    simp [c₀] at concluded
  · rw [second, tools] at concluded
    simp at concluded
  · rw [ended] at concluded
    simp at concluded

end LegionForge.Agent
