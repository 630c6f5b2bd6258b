import LegionForge.Agent.Safeguards

/-!
# `SecureToolNode`

One execution of the tool node: the batch of calls is checked one by one, the
first violation returns, sandboxed calls are skipped, and what was approved is
handed to the inner `ToolNode`, whose answers are vetted and sanitised.

What lies outside the node answers from a `Verdicts`: the registry, the task
token and the Guardian for each position of the batch and the tool name they are
asked about, the request insert, and the URL check, which may also raise something
other than a `SecurityError`. The inner node's answer is arbitrary. Besides its
outcome an execution leaves a list of events, the externally visible things it did
in order.
-/

namespace LegionForge.Agent

open JsonText Security

/-! ## What the outside answers -/

inductive Tier where
  | allow
  | sandbox
  | halt
  deriving DecidableEq, Repr

structure GuardianCheckResponse where
  allowed : Bool
  tier : Tier
  reason : String

/-- How `validate_fetch_url_async` comes back. -/
inductive UrlAnswer where
  | accepted
  | securityError
  | raised
  deriving DecidableEq, Repr

/-- The answers of the checks outside the node, by position in the batch and the
name asked about: that of a tool, or of an argument. -/
structure Verdicts where
  registry : Nat → String → Bool
  acl : Nat → String → Bool
  guardian : Nat → String → GuardianCheckResponse
  url : Nat → String → UrlAnswer
  hitlInsert : Nat → String → Option String

/-! ## What a node execution leaves behind -/

/-- One step down from the arguments of a call to a value inside them. -/
inductive PathStep where
  | key (k : String)
  | index (n : Nat)
  deriving DecidableEq, Repr

/-- The checks of a call that are asked about a tool by its name -/
inductive ToolCheck where
  | registry
  | acl
  | guardian
  deriving DecidableEq, Repr

/-- A check of a call is recorded with the name it is asked about, one of an argument
with its place and its text; the URL check and the destructive scan read the redacted
copy of that text. -/
inductive Event where
  | llm
  | toolCheck (check : ToolCheck) (call : Nat) (toolId : String)
  | injectionScan (call : Nat) (path : List PathStep) (text : String)
  | urlCheck (call : Nat) (path : List PathStep) (text : String)
  | destructiveScan (call : Nat) (path : List PathStep) (text : String)
  | hitlRow (row : HitlRow)
  /-- The inner `ToolNode` is given these calls. -/
  | exec (calls : List ToolCall)

inductive Outcome where
  | raised
  | returned (u : Update)

structure NodeRun where
  events : List Event
  outcome : Outcome

section
variable (env : Env) (toolNames : List String) (threadId : Option String)

/-! ## Tool names -/

/-- `name.replace("_", "")` -/
def stripUnderscores (name : String) : String :=
  String.ofList (name.toList.filter (· ≠ '_'))

/-- `_alias_map.get(name, name)`; of two tools with one stripped name the map
keeps the one entered last. -/
def canonicalName (name : String) : String :=
  (toolNames.reverse.find? fun n => stripUnderscores n = name).getD name

def normaliseCall (tc : ToolCall) : ToolCall :=
  { tc with name := canonicalName toolNames tc.name }

/-! ## Tool messages -/

/-- `ToolMessage(...)`, which rejects `None` as an id. -/
def toolMessage (content : String) (tcId : Option String) (name : String) :
    Option ToolMessage :=
  tcId.map fun id => { content := .text content, toolCallId := id, name }

/-- One message for every call of the batch, under one text. -/
def haltMessages (calls : List ToolCall) (text : String → String) :
    Option (List ToolMessage) :=
  calls.mapM fun tc => toolMessage (text tc.name) tc.tcId tc.name

def blockedText (toolId : String) : String :=
  s!"[TOOL BLOCKED] '{toolId}' could not execute — security registry check failed " ++
  "(tool integrity hash mismatch).\n" ++
  "Follow these rules exactly:\n" ++
  "1. If another available tool can accomplish the same goal, call it now instead.\n" ++
  "2. If no alternative tool is available, you MUST write the exact text " ++
  "'[UNVERIFIED DATA]' on its own line before your response, then clearly state you " ++
  "cannot verify the information and why.\n" ++
  "3. NEVER state unverified information as fact.\n" ++
  "4. Tell the user which tool failed. An administrator can restore it with: " ++
  "make verify-tool-registry"

def skippedText (toolId : String) : String :=
  s!"[TOOL SKIPPED] '{toolId}' was skipped — the call sequence requires approval.\n" ++
  "Follow these rules:\n" ++
  "1. If another available tool can accomplish the same goal, call it now instead.\n" ++
  "2. If no alternative is available, write '[UNVERIFIED DATA]' before your response " ++
  "and clearly state you cannot verify the information."

def aclHaltText (name : String) : String :=
  s!"[SECURITY HALT] Tool '{name}' blocked: task token does not grant access to this tool."

def guardianHaltText (reason name : String) : String :=
  s!"[SECURITY HALT] Tool '{name}' blocked by security policy: {reason}"

def resultHaltText (name : String) : String :=
  s!"[SECURITY HALT] Tool result from '{name}' blocked: Tier 1 injection pattern " ++
  "detected in tool output. Content redacted."

/-! ## Checking one call -/

/-- Where the checks of one call end. -/
inductive Verdict where
  | registryBlocked
  | aclDenied
  | guardianHalt (reason : String)
  | sandboxed
  | looped (loop : Update)
  /-- Tier 1 injection or a blocked URL in an argument. -/
  | argHalt
  /-- `check_hitl_required` ended the run or stored a request. -/
  | stopped (loop hitl : Update)
  | raised
  | approved (loop : Update)

def urlLike (name : String) : Bool :=
  ["url", "uri", "endpoint", "href", "src"].contains name

inductive ArgVerdict where
  | argHalt
  | stopped (hitl : Update)
  | raised
  | pass

variable (v : Verdicts) (s : AgentState)

/-- Step 4c, on the redacted copy of the argument. -/
def checkDestructive (i : Nat) (toolId name text : String) : List Event × ArgVerdict :=
  let clean := cleanCopy env.unicode text
  let (requiresHitl, categories) := detectDestructivePattern env.unicode clean
  if requiresHitl then
    let (row, hitl) := checkHitlRequired s!"{toolId}.{name}"
      (String.ofList (clean.toList.take 200)) s threadId categories (v.hitlInsert i name)
    let events := .destructiveScan i [.key name] text :: row.toList.map .hitlRow
    -- the call's own loop update has just set force_end to false
    if hitl.forceEnd = some true || hitl.hitlPending = some true then
      (events, .stopped hitl)
    else (events, .pass)
  else ([.destructiveScan i [.key name] text], .pass)

/-- Steps 4a to 4c for one string argument. -/
def checkString (i : Nat) (toolId name text : String) : List Event × ArgVerdict :=
  let (_, info) := sanitizeToolInput env.unicode text
  let scan : Event := .injectionScan i [.key name] text
  let urlCheck : Event := .urlCheck i [.key name] text
  if info.injectionDetected && hasHaltWorthyInjection info.injectionPatterns then
    ([scan], .argHalt)
  else if urlLike name then
    match v.url i name with
    | .raised => ([scan, urlCheck], .raised)
    | .securityError => ([scan, urlCheck], .argHalt)
    | .accepted =>
      let (events, verdict) := checkDestructive env threadId v s i toolId name text
      (scan :: urlCheck :: events, verdict)
  else
    let (events, verdict) := checkDestructive env threadId v s i toolId name text
    (scan :: events, verdict)

/-- Step 4 over the arguments of a call; only strings are looked at. -/
def checkArgs (i : Nat) (toolId : String) :
    List (String × Json) → List Event × ArgVerdict
  | [] => ([], .pass)
  | (name, .str text) :: rest =>
    match checkString env threadId v s i toolId name text with
    | (events, .pass) =>
      let (later, verdict) := checkArgs i toolId rest
      (events ++ later, verdict)
    | stop => stop
  | _ :: rest => checkArgs i toolId rest

/-- All checks of the call at position `i`. -/
def checkCall (i : Nat) (tc : ToolCall) : List Event × Verdict :=
  let toolId := canonicalName toolNames tc.name
  let registry : Event := .toolCheck .registry i toolId
  let acl : Event := .toolCheck .acl i toolId
  let guardian : Event := .toolCheck .guardian i toolId
  if !v.registry i toolId then ([registry], .registryBlocked)
  else if !v.acl i toolId then ([registry, acl], .aclDenied)
  else if !(v.guardian i toolId).allowed then
    if (v.guardian i toolId).tier = .sandbox then ([registry, acl, guardian], .sandboxed)
    else ([registry, acl, guardian], .guardianHalt (v.guardian i toolId).reason)
  else
    let loop := detectActionLoop env s toolId tc.args
    if loop.loopDetected = some true then ([registry, acl, guardian], .looped loop)
    else
      match checkArgs env threadId v s i toolId tc.args with
      | (events, .argHalt) => (registry :: acl :: guardian :: events, .argHalt)
      | (events, .stopped hitl) => (registry :: acl :: guardian :: events, .stopped loop hitl)
      | (events, .raised) => (registry :: acl :: guardian :: events, .raised)
      | (events, .pass) => (registry :: acl :: guardian :: events, .approved loop)

variable {env toolNames threadId v s}

/-- The destructive check stores a request, ends the run, or lets the argument
through; it ends the run exactly when nothing is stored and the copy holds a
pattern that cannot be approved. -/
theorem checkDestructive_cases (i : Nat) (toolId name text : String) :
    (∃ row hitl, checkDestructive env threadId v s i toolId name text =
        ([.destructiveScan i [.key name] text, .hitlRow row], .stopped hitl) ∧
        Pauses s row hitl) ∨
      (checkDestructive env threadId v s i toolId name text =
          ([.destructiveScan i [.key name] text], .stopped { forceEnd := some true }) ∧
        forceEndText env.unicode (cleanCopy env.unicode text) = true) ∨
      (checkDestructive env threadId v s i toolId name text =
          ([.destructiveScan i [.key name] text], .pass) ∧
        forceEndText env.unicode (cleanCopy env.unicode text) = false) := by
  unfold checkDestructive
  cases found : (detectDestructivePattern env.unicode (cleanCopy env.unicode text)).1 with
  | false =>
    refine .inr (.inr ⟨by simp only [found]; rfl, ?_⟩)
    by_contra force
    rw [Bool.not_eq_false] at force
    rw [forceEndText_detected force] at found
    exact absurd found (by decide)
  | true =>
    simp only [found, if_true]
    rcases checkHitlRequired_cases s!"{toolId}.{name}"
      (String.ofList ((cleanCopy env.unicode text).toList.take 200)) s threadId
      (detectDestructivePattern env.unicode (cleanCopy env.unicode text)).2
      (v.hitlInsert i name) with
      ⟨row, hitl, eq, pauses⟩ | ⟨eq, force⟩ | ⟨eq, force⟩
    · exact .inl ⟨row, hitl, by simp [eq, pauses.pending], pauses⟩
    · exact .inr (.inl ⟨by simp [eq], force⟩)
    · exact .inr (.inr ⟨by simp [eq], force⟩)

/-- How a string argument is checked, in terms of what it holds. -/
theorem checkString_eq (i : Nat) (toolId name text : String) :
    checkString env threadId v s i toolId name text =
      let destructive := checkDestructive env threadId v s i toolId name text
      let scan : Event := .injectionScan i [.key name] text
      let urlCheck : Event := .urlCheck i [.key name] text
      if tier1Injection env.unicode text then ([scan], .argHalt)
      else if urlLike name then
        match v.url i name with
        | .raised => ([scan, urlCheck], .raised)
        | .securityError => ([scan, urlCheck], .argHalt)
        | .accepted => (scan :: urlCheck :: destructive.1, destructive.2)
      else (scan :: destructive.1, destructive.2) := by
  simp only [checkString, sanitizeToolInput_halts]

/-! ## Checking the batch -/

variable (env toolNames threadId v s)

/-- What the loop over the calls carries. `approved` are the calls that passed;
the source keeps their ids (`approved_tc_ids`) and names (`approved_snapshot`). -/
structure Progress where
  result : Update := {}
  sequenceSoFar : List String
  approved : List ToolCall := []
  sandboxMessages : List ToolMessage := []

/-- `approved_tc_ids` -/
def Progress.approvedTcIds (p : Progress) : List (Option String) :=
  p.approved.map (·.tcId)

inductive Checked where
  | raised
  | halted (u : Update)
  | done (p : Progress)

/-- A return whose messages could not be built raises instead. -/
def Checked.ofMessages (msgs : Option (List ToolMessage))
    (u : List ToolMessage → Update) : Checked :=
  match msgs with
  | some msgs => .halted (u msgs)
  | none => .raised

/-- The loop over the calls of the batch `calls`, from position `i` on. -/
def checkCalls (calls : List ToolCall) :
    Nat → List ToolCall → Progress → List Event × Checked
  | _, [], p => ([], .done p)
  | i, tc :: rest, p =>
    let toolId := canonicalName toolNames tc.name
    match checkCall env toolNames threadId v s i tc with
    | (events, .registryBlocked) =>
      (events, .ofMessages
        ((toolMessage (blockedText toolId) tc.tcId toolId).map (p.sandboxMessages ++ [·]))
        fun msgs => { p.result with
          messages := some (msgs.map .tool)
          forceEnd := some true
          loopDetected := some false })
    | (events, .aclDenied) =>
      (events, .ofMessages (haltMessages calls aclHaltText) fun msgs =>
        { messages := some (msgs.map .tool)
          forceEnd := some true
          loopDetected := some false
          result := some "Halted: task token does not grant access to this tool." })
    | (events, .guardianHalt reason) =>
      (events, .ofMessages (haltMessages calls (guardianHaltText reason)) fun msgs =>
        { messages := some (msgs.map .tool)
          forceEnd := some true
          loopDetected := some false
          result := some s!"Halted: {reason}" })
    | (events, .sandboxed) =>
      match toolMessage (skippedText toolId) tc.tcId toolId with
      | none => (events, .raised)
      | some msg =>
        let (later, checked) := checkCalls calls (i + 1) rest
          { p with sandboxMessages := p.sandboxMessages ++ [msg] }
        (events ++ later, checked)
    | (events, .looped loop) => (events, .halted (p.result.merge loop))
    | (events, .argHalt) =>
      (events, .halted { forceEnd := some true, loopDetected := some false })
    | (events, .stopped loop hitl) =>
      (events, .halted ((p.result.merge loop).merge hitl))
    | (events, .raised) => (events, .raised)
    | (events, .approved loop) =>
      let (later, checked) := checkCalls calls (i + 1) rest
        { p with
          result := p.result.merge loop
          sequenceSoFar := p.sequenceSoFar ++ [toolId]
          approved := p.approved ++ [tc] }
      (events ++ later, checked)

/-! ## Executing what was approved -/

/-- The calls the inner node is given: all of the batch, or, when some were
sandboxed, those whose id is one of the approved ids. -/
def handedCalls (calls : List ToolCall) (p : Progress) : List ToolCall :=
  if p.sandboxMessages.isEmpty then calls
  else calls.filter fun tc => p.approvedTcIds.contains tc.tcId

/-- An answer under an id that was neither approved nor sandboxed. -/
def unexpectedId (p : Progress) (m : ToolMessage) : Bool :=
  m.toolCallId ≠ "" && !p.approvedTcIds.contains (some m.toolCallId) &&
    !(p.sandboxMessages.map (·.toolCallId)).contains m.toolCallId

/-- Step 6 over the messages; `none` when the run is to be halted. -/
def sanitizeResults (sandboxMessages : List ToolMessage) :
    List ToolMessage → Option (List ToolMessage)
  | [] => some []
  | m :: rest =>
    if sandboxMessages.contains m then
      (sanitizeResults sandboxMessages rest).map (m :: ·)
    else match m.content with
      | .parts _ => (sanitizeResults sandboxMessages rest).map (m :: ·)
      | .text text =>
        let (clean, info) := sanitizeOutput env.unicode text
        if info.injectionDetected && hasHaltWorthyInjection info.injectionPatterns &&
            env.haltOnToolResultInjection then none
        else (sanitizeResults sandboxMessages rest).map
          ({ m with content := .text clean } :: ·)

/-- Steps 5 and 6. `inner` is the answer of the inner node, `none` if it
raises. -/
def executeApproved (calls : List ToolCall) (p : Progress)
    (inner : Option (List ToolMessage)) : NodeRun :=
  let result := { p.result with sequenceSoFar := some p.sequenceSoFar }
  if p.approved.isEmpty then
    { events := []
      outcome := .returned { result with
        messages := some (p.sandboxMessages.map .tool) } }
  else
    let events := [.exec (handedCalls calls p)]
    match inner with
    | none => { events, outcome := .raised }
    | some answers =>
      if answers.any (unexpectedId p) then
        { events
          outcome := .returned { forceEnd := some true, loopDetected := some false } }
      else match sanitizeResults env p.sandboxMessages (answers ++ p.sandboxMessages) with
        | some msgs =>
          { events
            outcome := .returned { result with messages := some (msgs.map .tool) } }
        | none =>
          { events
            outcome := match haltMessages calls resultHaltText with
              | none => .raised
              | some msgs => .returned
                { messages := some (msgs.map .tool)
                  forceEnd := some true
                  result := some "Halted: Tier 1 injection detected in tool result" } }

/-- `SecureToolNode.__call__` -/
def secureToolNode (inner : Option (List ToolMessage)) : NodeRun :=
  let calls := s.toolCalls.map (normaliseCall toolNames)
  match checkCalls env toolNames threadId v s calls 0 calls
      { sequenceSoFar := s.sequenceSoFar } with
  | (events, .raised) => { events, outcome := .raised }
  | (events, .halted u) => { events, outcome := .returned u }
  | (events, .done p) =>
    let run := executeApproved env calls p inner
    { run with events := events ++ run.events }

end

end LegionForge.Agent
