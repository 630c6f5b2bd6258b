import LegionForge.Agent.HumanGate

/-!
# Approving and rejecting a request

The two operator routes and the table they work on. Both look the request up,
refuse one that is not pending, and resolve the row; approving then invokes a
graph on the request's thread.

What that invocation does is the engine's: `Invocation.start` says where a
graph called with an input picks up from the thread's checkpoint, `None` being
the way to resume the node the checkpoint was taken before.
`ResumesPausedRun` is what resuming a paused run means, and
`approval_resumes_nothing` shows that no approval of a request that a run really
stored has it.
-/

namespace LegionForge.Gateway

open Agent Security

/-! ## The table of requests -/

inductive HitlStatus where
  | pending
  | approved
  | rejected
  deriving DecidableEq, Repr

/-- A row of `hitl_pending`. -/
structure HitlRequest where
  row : HitlRow
  status : HitlStatus
  deriving DecidableEq, Repr

abbrev HitlTable := List HitlRequest

/-- `get_hitl_request` -/
def getHitlRequest (table : HitlTable) (requestId : String) : Option HitlRequest :=
  table.find? (·.row.requestId = requestId)

/-- `resolve_hitl_request`: the row is updated if it is still pending. -/
def resolveHitlRequest (table : HitlTable) (requestId : String) (decision : HitlStatus) :
    HitlTable × Bool :=
  (table.map fun r =>
      if r.row.requestId = requestId && r.status = .pending then { r with status := decision }
      else r,
    table.any fun r => r.row.requestId = requestId && r.status = .pending)

/-! ## Invoking a graph -/

/-- `graph.ainvoke(input, config)` on a compiled graph; an input is the dict of
keys it holds. -/
structure Invocation where
  graph : AgentType
  interruptBefore : List Node
  input : Option Update
  threadId : String

/-- Where the engine picks up: `None` resumes the checkpoint's node, a dict
starts at the entry point on the checkpointed state. -/
def Invocation.start (inv : Invocation) (checkpoint : Config) : Config :=
  match inv.input with
  | none => checkpoint
  | some u => ⟨.agent, checkpoint.state.apply u⟩

/-- `resume_run_config`: the input and the thread to resume a run with. -/
def resumeRunConfig (threadId : String) : Option Update × String := (none, threadId)

/-! ## The routes -/

inductive RouteResult where
  | notFound
  | conflict
  | approved (inv : Invocation)
  | rejected
  deriving Inhabited

/-- What `approve_hitl_request` runs for a request on the thread. The input that
`resume_run_config` gives is not used. -/
def resumeInvocation (threadId : String) : Invocation :=
  let (_, threadId) := resumeRunConfig threadId
  { graph := .base
    interruptBefore := []
    input := some { hitlPending := some false }
    threadId }

def approveHitlRequest (table : HitlTable) (requestId : String) : HitlTable × RouteResult :=
  match getHitlRequest table requestId with
  | none => (table, .notFound)
  | some req =>
    if req.status ≠ .pending then (table, .conflict)
    else
      let (table, updated) := resolveHitlRequest table requestId .approved
      if !updated then (table, .conflict)
      else (table, .approved (resumeInvocation req.row.threadId))

def rejectHitlRequest (table : HitlTable) (requestId : String) : HitlTable × RouteResult :=
  match getHitlRequest table requestId with
  | none => (table, .notFound)
  | some req =>
    if req.status ≠ .pending then (table, .conflict)
    else
      let (table, updated) := resolveHitlRequest table requestId .rejected
      if !updated then (table, .conflict) else (table, .rejected)

/-! ## The table under the routes -/

theorem getHitlRequest_mem {table : HitlTable} {requestId : String} {req : HitlRequest}
    (h : getHitlRequest table requestId = some req) :
    req ∈ table ∧ req.row.requestId = requestId := by
  have found := List.find?_some h
  exact ⟨List.mem_of_find?_eq_some h, of_decide_eq_true found⟩

/-- A pending request is approved, with the invocation of `resumeInvocation`. -/
theorem approveHitlRequest_pending {table : HitlTable} {requestId : String}
    {req : HitlRequest} (found : getHitlRequest table requestId = some req)
    (pending : req.status = .pending) :
    (approveHitlRequest table requestId).2 =
      .approved (resumeInvocation req.row.threadId) := by
  obtain ⟨mem, id⟩ := getHitlRequest_mem found
  have updated : (resolveHitlRequest table requestId .approved).2 = true :=
    List.any_eq_true.mpr ⟨req, mem, by simp [id, pending]⟩
  rw [approveHitlRequest, found]
  simp only [pending, ne_eq, not_true_eq_false, if_false, updated, Bool.not_true,
    Bool.false_eq_true]

/-- Resolving leaves pending only what was. -/
theorem resolveHitlRequest_fewer (table : HitlTable) (requestId : String)
    {decision : HitlStatus} (resolves : decision ≠ .pending) :
    ∀ req ∈ (resolveHitlRequest table requestId decision).1, req.status = .pending →
      req ∈ table := by
  intro req mem pending
  obtain ⟨r, hr, rfl⟩ := List.mem_map.mp mem
  split at pending
  · exact absurd pending resolves
  · next other =>
    rw [if_neg other]
    exact hr

/-- Approving leaves pending only what was, and invokes the base graph. -/
theorem approveHitlRequest_cases (table : HitlTable) (requestId : String) :
    (∀ req ∈ (approveHitlRequest table requestId).1, req.status = .pending →
        req ∈ table) ∧
      ∀ inv, (approveHitlRequest table requestId).2 = .approved inv →
        ∃ threadId, inv = resumeInvocation threadId := by
  unfold approveHitlRequest
  cases getHitlRequest table requestId with
  | none => exact ⟨fun _ mem _ => mem, fun _ h => by cases h⟩
  | some req =>
    dsimp only
    split
    · exact ⟨fun _ mem _ => mem, fun _ h => by cases h⟩
    · have fewer := @resolveHitlRequest_fewer table requestId .approved (by decide)
      split
      · exact ⟨fewer, fun _ h => by cases h⟩
      · exact ⟨fewer, fun _ h => ⟨_, (RouteResult.approved.inj h).symm⟩⟩

theorem rejectHitlRequest_fewer (table : HitlTable) (requestId : String) :
    ∀ req ∈ (rejectHitlRequest table requestId).1, req.status = .pending →
      req ∈ table := by
  unfold rejectHitlRequest
  cases getHitlRequest table requestId with
  | none => exact fun _ mem _ => mem
  | some req =>
    dsimp only
    split
    · exact fun _ mem _ => mem
    · have fewer := @resolveHitlRequest_fewer table requestId .rejected (by decide)
      split
      · exact fewer
      · exact fewer

/-! ## What resuming a paused run means -/

section
variable (env : Env)

/-- The step stored a request. -/
def AgentStep.stores (x : AgentStep) : Bool := !(storedRequests x.label.events).isEmpty

/-- The invocation goes on with the paused run: the graph that raised the request,
from the checkpoint's own node and with its counters, and a request the run stores
later stops it again. -/
structure ResumesPausedRun (raisedBy : AgentType) (threadId : String)
    (checkpoint : Config) (inv : Invocation) : Prop where
  graph : inv.graph = raisedBy
  thread : inv.threadId = threadId
  pausePoint : (inv.start checkpoint).node = checkpoint.node
  stepCount : (inv.start checkpoint).state.stepCount = checkpoint.state.stepCount
  tokenCount : (inv.start checkpoint).state.tokenCount = checkpoint.state.tokenCount
  actionHistory :
    (inv.start checkpoint).state.actionHistory = checkpoint.state.actionHistory
  pausesAgain : ∀ inputs : List NodeInput,
    Machine.Since (fun x : Agent.AgentStep => AgentStep.stores x = true)
      (fun x : Agent.AgentStep => x.label.quiet = true)
      ((Agent.graph env inv.graph (some inv.threadId) inv.interruptBefore).run
        (inv.start checkpoint) inputs)

variable {env}

/-- Only a run of a specialised graph stores a request. -/
theorem specialised_of_stored {agentType : AgentType} {threadId : Option String}
    {interruptBefore : List Node} {thread : AgentState} {maxSteps : Nat}
    {runId task : String} {messages : List Message} {inputs : List WatchedInput}
    {x : WatchedStep}
    (hx : x ∈ (watched env agentType threadId interruptBefore).run
      ⟨⟨.agent, freshState thread maxSteps runId task messages⟩, []⟩ inputs)
    (stored : storedRows x.label.events ≠ []) : agentType ≠ .base := by
  rintro rfl
  obtain ⟨step, -, idle⟩ := Machine.run_invariant (I := BaseIdle)
    (fun _ step idle => keeps_baseIdle step idle) ⟨rfl, by simp, by simp⟩ x hx
  rcases watched_steps step with ⟨id, -, events, -⟩ | ⟨inp, -, -, awaiting⟩
  · rw [events] at stored
    exact stored rfl
  · rw [idle.1] at awaiting
    exact stored (List.map_eq_nil_iff.mp (List.append_eq_nil_iff.mp awaiting.symm).2)

/-- For every graph, every run of it, every request that run stored and every
checkpoint: approving the request while it is pending does not go on with the run. -/
theorem approval_resumes_nothing (env : Env) (agentType : AgentType)
    (threadId : Option String) (interruptBefore : List Node) (thread : AgentState)
    (maxSteps : Nat) (runId task : String) (messages : List Message)
    (inputs : List WatchedInput) (x : WatchedStep)
    (hx : x ∈ (watched env agentType threadId interruptBefore).run
      ⟨⟨.agent, freshState thread maxSteps runId task messages⟩, []⟩ inputs)
    (row : HitlRow) (stored : row ∈ storedRows x.label.events) (table : HitlTable)
    (found : getHitlRequest table row.requestId = some ⟨row, .pending⟩)
    (checkpoint : Config) :
    ∃ inv, (approveHitlRequest table row.requestId).2 = .approved inv ∧
      ¬ ResumesPausedRun env agentType row.threadId checkpoint inv := by
  refine ⟨_, approveHitlRequest_pending found rfl, fun resumes => ?_⟩
  have specialised := specialised_of_stored hx (List.ne_nil_of_mem stored)
  exact specialised resumes.graph.symm

end

/-! ## Approving the researcher's request -/

/-- The run of `reviewedInputs`, on a thread of its own. -/
def reviewedRun : List WatchedStep :=
  (watched sampleEnv .researcher (some "run-1") []).run
    ⟨⟨.agent, freshState (sampleState []) 40 "run-1" "report" []⟩, []⟩ reviewedInputs

def reviewedRow : HitlRow where
  requestId := "request-1"
  runId := "run-1"
  threadId := "run-1"
  action := "web_search.query"
  categories := [.credentialProbe]
  inputExcerpt := "password"

theorem reviewedRow_stored : ∃ x ∈ reviewedRun, reviewedRow ∈ storedRows x.label.events := by
  decide +kernel

theorem approval_resumes_nothing_researcher :
    ∃ inv, (approveHitlRequest [⟨reviewedRow, .pending⟩] "request-1").2 = .approved inv ∧
      ¬ ResumesPausedRun sampleEnv .researcher "run-1" ⟨.agent, sampleState []⟩ inv := by
  obtain ⟨x, hx, stored⟩ := reviewedRow_stored
  exact approval_resumes_nothing sampleEnv .researcher (some "run-1") [] (sampleState []) 40
    "run-1" "report" [] reviewedInputs x hx reviewedRow stored [⟨reviewedRow, .pending⟩] rfl _

/-- The researcher stored the request, and approving it runs the base graph. -/
theorem researcher_not_resumed :
    (∃ x ∈ reviewedRun, reviewedRow ∈ storedRows x.label.events) ∧
      ∀ inv, (approveHitlRequest [⟨reviewedRow, .pending⟩] "request-1").2 = .approved inv →
        ¬ ResumesPausedRun sampleEnv .researcher "run-1" ⟨.agent, sampleState []⟩ inv := by
  refine ⟨reviewedRow_stored, ?_⟩
  intro inv approved resumes
  rw [show "request-1" = reviewedRow.requestId from rfl,
    @approveHitlRequest_pending _ _ ⟨reviewedRow, .pending⟩ rfl rfl] at approved
  injection approved with same
  rw [← same] at resumes
  cases resumes.graph

end LegionForge.Gateway
