import LegionForge.Agent.SecureToolNode
import Mathlib.Data.List.TakeWhile

/-!
# The batch: what is approved and what is handed on

The loop of the tool node decides each call by `checkCall`, and what it carries
along never feeds back into that decision. So a batch is described by the
verdicts at its positions: it goes through when every call is approved or
sandboxed, and then the calls it approves are those `checkCall` approves
(`checkCalls_spec`).

What the inner node is given is another matter. The node remembers approved
calls by id, so with a sandboxed call in the batch a call is handed on when its
id is one of the approved ids. `handed_only_approved_iff` says exactly when that
is the list of approved calls.
-/

namespace LegionForge.Agent

open JsonText Security

def Verdict.isApproved : Verdict → Bool
  | .approved _ => true
  | _ => false

def Verdict.isSandboxed : Verdict → Bool
  | .sandboxed => true
  | _ => false

/-- The calls an execution gave to the inner node. -/
def NodeRun.handed (run : NodeRun) : List ToolCall :=
  run.events.flatMap fun
    | .exec calls => calls
    | _ => []

section
variable (env : Env) (toolNames : List String) (threadId : Option String)
variable (v : Verdicts) (s : AgentState)

def verdictAt (i : Nat) (tc : ToolCall) : Verdict :=
  (checkCall env toolNames threadId v s i tc).2

/-- The loop goes on after the call: it passed, or it was skipped with a
message (which needs an id). -/
def goesOn (i : Nat) (tc : ToolCall) : Bool :=
  (verdictAt env toolNames threadId v s i tc).isApproved ||
    ((verdictAt env toolNames threadId v s i tc).isSandboxed && tc.tcId.isSome)

def batchGoesOn (i : Nat) (calls : List ToolCall) : Bool :=
  (calls.zipIdx i).all fun c => goesOn env toolNames threadId v s c.2 c.1

/-- The calls that pass all checks as individual calls, in order. -/
def approvedCalls (i : Nat) (calls : List ToolCall) : List ToolCall :=
  ((calls.zipIdx i).filter fun c =>
    (verdictAt env toolNames threadId v s c.2 c.1).isApproved).map (·.1)

def sandboxedCalls (i : Nat) (calls : List ToolCall) : List ToolCall :=
  ((calls.zipIdx i).filter fun c =>
    (verdictAt env toolNames threadId v s c.2 c.1).isSandboxed).map (·.1)

/-- The calls of the batch under an approved id. -/
def underApprovedId (calls : List ToolCall) : List ToolCall :=
  calls.filter fun tc =>
    ((approvedCalls env toolNames threadId v s 0 calls).map (·.tcId)).contains tc.tcId

/-- The calls of the last message under the tools' own names. -/
def batch : List ToolCall := s.toolCalls.map (normaliseCall toolNames)

variable {env toolNames threadId v s}

/-! ## Checks have no effect of their own -/

/-- Neither a model call nor an execution. -/
def Event.isCheck : Event → Bool
  | .llm | .exec _ => false
  | _ => true

/-- A check of an argument of the call at position `i`, not of a value inside one. -/
def Event.checksOf (i : Nat) : Event → Bool
  | .llm | .toolCheck .. | .exec _ => false
  | .hitlRow _ => true
  | .injectionScan j path _ | .urlCheck j path _ | .destructiveScan j path _ =>
    j = i && path.length = 1

theorem isCheck_of_checksOf {i : Nat} {e : Event} (h : e.checksOf i = true) :
    e.isCheck = true := by
  cases e <;> first | rfl | cases h

theorem checkDestructive_checksOf (i : Nat) (toolId name text : String) :
    ∀ e ∈ (checkDestructive env threadId v s i toolId name text).1,
      e.checksOf i = true := by
  rcases checkDestructive_cases i toolId name text with
    ⟨row, hitl, eq, -⟩ | ⟨eq, -⟩ | ⟨eq, -⟩
  all_goals rw [eq]; simp [Event.checksOf]

theorem checkString_checksOf (i : Nat) (toolId name text : String) :
    ∀ e ∈ (checkString env threadId v s i toolId name text).1, e.checksOf i = true := by
  have destructive := @checkDestructive_checksOf env threadId v s i toolId name text
  rw [checkString_eq]
  dsimp only
  split
  · simp [Event.checksOf]
  · split
    · split
      · simp [Event.checksOf]
      · simp [Event.checksOf]
      · simpa [Event.checksOf] using destructive
    · simpa [Event.checksOf] using destructive

theorem checkArgs_checksOf (i : Nat) (toolId : String) (args : List (String × Json)) :
    ∀ e ∈ (checkArgs env threadId v s i toolId args).1, e.checksOf i = true := by
  induction args with
  | nil => intro e he; cases he
  | cons arg rest ih =>
    obtain ⟨name, value⟩ := arg
    cases value with
    | str text =>
      have first := @checkString_checksOf env threadId v s i toolId name text
      intro e he
      rw [checkArgs] at he
      split at he
      · next events heq =>
        rw [heq] at first
        rcases List.mem_append.mp he with h | h
        · exact first e h
        · exact ih e h
      · exact first e he
    | _ => exact ih

/-- The outer checks of a call, in their order -/
def outerChecks (i : Nat) (toolId : String) : List Event :=
  [.toolCheck .registry i toolId, .toolCheck .acl i toolId, .toolCheck .guardian i toolId]

/-- A call is put to the outer checks under its canonical name, up to the one that refuses
it; the scans after them are of its own arguments, whatever its verdict. -/
theorem checkCall_events (i : Nat) (tc : ToolCall) :
    (checkCall env toolNames threadId v s i tc).1 <+:
        outerChecks i (canonicalName toolNames tc.name) ∨
      (checkCall env toolNames threadId v s i tc).1 =
        outerChecks i (canonicalName toolNames tc.name) ++
          (checkArgs env threadId v s i (canonicalName toolNames tc.name) tc.args).1 := by
  unfold checkCall
  dsimp only
  split
  · exact .inl ⟨_, rfl⟩
  · split
    · exact .inl ⟨_, rfl⟩
    · split
      · split <;> exact .inl ⟨[], rfl⟩
      · split
        · exact .inl ⟨[], rfl⟩
        · right
          split
          all_goals next heq => rw [heq]; rfl

theorem checkCall_checksOf (i : Nat) (tc : ToolCall) :
    ∀ e ∈ (checkCall env toolNames threadId v s i tc).1,
      e ∈ outerChecks i (canonicalName toolNames tc.name) ∨ e.checksOf i = true := by
  intro e he
  rcases @checkCall_events env toolNames threadId v s i tc with front | all
  · exact .inl (front.subset he)
  · rw [all] at he
    exact (List.mem_append.mp he).imp_right (checkArgs_checksOf i _ tc.args e)

theorem mem_outerChecks {i : Nat} {toolId : String} {e : Event} :
    e ∈ outerChecks i toolId ↔ ∃ check, e = .toolCheck check i toolId := by
  simp only [outerChecks, List.mem_cons, List.not_mem_nil, or_false]
  constructor
  · rintro (rfl | rfl | rfl) <;> exact ⟨_, rfl⟩
  · rintro ⟨check, rfl⟩
    cases check <;> simp

/-! ## The loop -/

theorem approvedCalls_cons (i : Nat) (tc : ToolCall) (rest : List ToolCall) :
    approvedCalls env toolNames threadId v s i (tc :: rest) =
      (if (verdictAt env toolNames threadId v s i tc).isApproved then [tc] else []) ++
        approvedCalls env toolNames threadId v s (i + 1) rest := by
  unfold approvedCalls
  rw [List.zipIdx_cons, List.filter_cons]
  split <;> simp_all

theorem sandboxedCalls_cons (i : Nat) (tc : ToolCall) (rest : List ToolCall) :
    sandboxedCalls env toolNames threadId v s i (tc :: rest) =
      (if (verdictAt env toolNames threadId v s i tc).isSandboxed then [tc] else []) ++
        sandboxedCalls env toolNames threadId v s (i + 1) rest := by
  unfold sandboxedCalls
  rw [List.zipIdx_cons, List.filter_cons]
  split <;> simp_all

theorem batchGoesOn_cons (i : Nat) (tc : ToolCall) (rest : List ToolCall) :
    batchGoesOn env toolNames threadId v s i (tc :: rest) =
      (goesOn env toolNames threadId v s i tc &&
        batchGoesOn env toolNames threadId v s (i + 1) rest) := by
  rw [batchGoesOn, List.zipIdx_cons, List.all_cons]
  rfl

variable (env toolNames threadId v s) in
/-- What the loop reports about the calls from position `i` on. -/
inductive LoopSpec (i : Nat) (rest : List ToolCall) (p : Progress) : Checked → Prop
  | done {p' : Progress}
      (on : batchGoesOn env toolNames threadId v s i rest = true)
      (approved : p'.approved =
        p.approved ++ approvedCalls env toolNames threadId v s i rest)
      (sandboxed : p'.sandboxMessages.map (fun m => some m.toolCallId) =
        p.sandboxMessages.map (fun m => some m.toolCallId) ++
          (sandboxedCalls env toolNames threadId v s i rest).map (·.tcId)) :
      LoopSpec i rest p (.done p')
  | stopped {c : Checked} (off : batchGoesOn env toolNames threadId v s i rest = false)
      (h : ∀ p', c ≠ .done p') : LoopSpec i rest p c

theorem Checked.ofMessages_ne_done (msgs : Option (List ToolMessage))
    (u : List ToolMessage → Update) (p : Progress) : Checked.ofMessages msgs u ≠ .done p := by
  cases msgs <;> intro h <;> cases h

theorem Checked.halted_ne_done (u : Update) (p : Progress) :
    Checked.halted u ≠ .done p := by
  intro h
  cases h

theorem Checked.raised_ne_done (p : Progress) : Checked.raised ≠ .done p := by
  intro h
  cases h

/-- A call the loop returns at. -/
theorem loopSpec_of_stop {i : Nat} {tc : ToolCall} {rest : List ToolCall} {p : Progress}
    {c : Checked} (stop : goesOn env toolNames threadId v s i tc = false)
    (h : ∀ p', c ≠ .done p') :
    LoopSpec env toolNames threadId v s i (tc :: rest) p c :=
  .stopped (by rw [batchGoesOn_cons, stop, Bool.false_and]) h

/-- A call the loop goes past with what it carries changed from `p` to `q`. -/
theorem loopSpec_of_go {i : Nat} {tc : ToolCall} {rest : List ToolCall} {p q : Progress}
    {c : Checked} (go : goesOn env toolNames threadId v s i tc = true)
    (approved : q.approved = p.approved ++
      if (verdictAt env toolNames threadId v s i tc).isApproved then [tc] else [])
    (sandboxed : q.sandboxMessages.map (fun m => some m.toolCallId) =
      p.sandboxMessages.map (fun m => some m.toolCallId) ++
        (if (verdictAt env toolNames threadId v s i tc).isSandboxed then [tc]
          else []).map (·.tcId))
    (later : LoopSpec env toolNames threadId v s (i + 1) rest q c) :
    LoopSpec env toolNames threadId v s i (tc :: rest) p c := by
  cases later with
  | done on laterApproved laterSandboxed =>
    refine .done (by rw [batchGoesOn_cons, go, on, Bool.and_self]) ?_ ?_
    · rw [laterApproved, approved, approvedCalls_cons, List.append_assoc]
    · rw [laterSandboxed, sandboxed, sandboxedCalls_cons, List.append_assoc,
        ← List.map_append]
  | stopped off h => exact .stopped (by rw [batchGoesOn_cons, off, Bool.and_false]) h

theorem goesOn_of_verdict {i : Nat} {tc : ToolCall} {w : Verdict}
    (h : verdictAt env toolNames threadId v s i tc = w) :
    goesOn env toolNames threadId v s i tc =
      (w.isApproved || (w.isSandboxed && tc.tcId.isSome)) := by
  rw [goesOn, h]

theorem checkCalls_spec (calls : List ToolCall) : ∀ (rest : List ToolCall) (i : Nat)
    (p : Progress), LoopSpec env toolNames threadId v s i rest p
      (checkCalls env toolNames threadId v s calls i rest p).2 := by
  intro rest
  induction rest with
  | nil =>
    intro i p
    exact .done rfl (List.append_nil _).symm (List.append_nil _).symm
  | cons tc rest ih =>
    intro i p
    rw [checkCalls]
    rcases h : checkCall env toolNames threadId v s i tc with ⟨events, verdict⟩
    have at_ : verdictAt env toolNames threadId v s i tc = verdict := by
      rw [verdictAt, h]
    have go := goesOn_of_verdict at_
    cases verdict with
    | registryBlocked => exact loopSpec_of_stop go (Checked.ofMessages_ne_done _ _)
    | aclDenied => exact loopSpec_of_stop go (Checked.ofMessages_ne_done _ _)
    | guardianHalt reason => exact loopSpec_of_stop go (Checked.ofMessages_ne_done _ _)
    | looped loop => exact loopSpec_of_stop go (Checked.halted_ne_done _)
    | argHalt => exact loopSpec_of_stop go (Checked.halted_ne_done _)
    | stopped loop hitl => exact loopSpec_of_stop go (Checked.halted_ne_done _)
    | raised => exact loopSpec_of_stop go Checked.raised_ne_done
    | sandboxed =>
      cases id : tc.tcId with
      | none =>
        simp only [toolMessage, Option.map_none]
        exact loopSpec_of_stop (by rw [go, id]; rfl) Checked.raised_ne_done
      | some tcId =>
        simp only [toolMessage, Option.map_some]
        exact loopSpec_of_go (by rw [go, id]; rfl) (by simp [at_, Verdict.isApproved])
          (by simp [at_, Verdict.isSandboxed, id]) (ih (i + 1) _)
    | approved loop =>
      exact loopSpec_of_go go (by simp [at_, Verdict.isApproved])
        (by simp [at_, Verdict.isSandboxed]) (ih (i + 1) _)

/-! ## What is handed on -/

/-- The loop leaves what the checks of its calls leave. -/
theorem mem_checkCalls_events (calls : List ToolCall) : ∀ (rest : List ToolCall)
    (i : Nat) (p : Progress),
    ∀ e ∈ (checkCalls env toolNames threadId v s calls i rest p).1,
      ∃ c ∈ rest.zipIdx i, e ∈ (checkCall env toolNames threadId v s c.2 c.1).1 := by
  intro rest
  induction rest with
  | nil => intro i p e he; cases he
  | cons tc rest ih =>
    intro i p e he
    rw [List.zipIdx_cons]
    have here : e ∈ (checkCall env toolNames threadId v s i tc).1 →
        ∃ c ∈ (tc, i) :: rest.zipIdx (i + 1),
          e ∈ (checkCall env toolNames threadId v s c.2 c.1).1 :=
      fun h => ⟨(tc, i), List.mem_cons_self, h⟩
    have there : ∀ q, e ∈ (checkCalls env toolNames threadId v s calls (i + 1) rest q).1 →
        ∃ c ∈ (tc, i) :: rest.zipIdx (i + 1),
          e ∈ (checkCall env toolNames threadId v s c.2 c.1).1 := fun q h => by
      obtain ⟨c, hc, he⟩ := ih (i + 1) q e h
      exact ⟨c, List.mem_cons_of_mem _ hc, he⟩
    rw [checkCalls] at he
    rcases h : checkCall env toolNames threadId v s i tc with ⟨events, verdict⟩
    rw [h] at he here
    cases verdict with
    | sandboxed =>
      cases msg : toolMessage (skippedText (canonicalName toolNames tc.name)) tc.tcId
          (canonicalName toolNames tc.name) with
      | none =>
        simp only [msg] at he
        exact here he
      | some m =>
        simp only [msg] at he
        exact (List.mem_append.mp he).elim here (there _)
    | approved loop => exact (List.mem_append.mp he).elim here (there _)
    | _ => exact here he

/-- A loop that goes past all calls leaves all their checks. -/
theorem checkCalls_events_of_on (calls : List ToolCall) : ∀ (rest : List ToolCall)
    (i : Nat) (p : Progress), batchGoesOn env toolNames threadId v s i rest = true →
    ∀ c ∈ rest.zipIdx i, ∀ e ∈ (checkCall env toolNames threadId v s c.2 c.1).1,
      e ∈ (checkCalls env toolNames threadId v s calls i rest p).1 := by
  intro rest
  induction rest with
  | nil => intro i p on c hc; cases hc
  | cons tc rest ih =>
    intro i p on c hc e he
    rw [batchGoesOn_cons, Bool.and_eq_true] at on
    obtain ⟨go, on⟩ := on
    rw [List.zipIdx_cons] at hc
    rw [checkCalls]
    rcases h : checkCall env toolNames threadId v s i tc with ⟨events, verdict⟩
    have at_ : verdictAt env toolNames threadId v s i tc = verdict := by
      rw [verdictAt, h]
    rw [goesOn_of_verdict at_] at go
    have split : ∀ q, e ∈ events ++
        (checkCalls env toolNames threadId v s calls (i + 1) rest q).1 := fun q => by
      rcases List.mem_cons.mp hc with rfl | hc
      · rw [h] at he
        exact List.mem_append_left _ he
      · exact List.mem_append_right _ (ih (i + 1) q on c hc e he)
    cases verdict with
    | sandboxed =>
      cases id : tc.tcId with
      | none => rw [id] at go; cases go
      | some tcId =>
        simp only [toolMessage, Option.map_some]
        exact split _
    | approved loop => exact split _
    | _ => cases go

theorem checkCalls_isCheck (calls rest : List ToolCall) (i : Nat) (p : Progress) :
    ∀ e ∈ (checkCalls env toolNames threadId v s calls i rest p).1,
      e.isCheck = true := by
  intro e he
  obtain ⟨c, -, hc⟩ := mem_checkCalls_events calls rest i p e he
  rcases checkCall_checksOf c.2 c.1 e hc with outer | own
  · obtain ⟨check, rfl⟩ := mem_outerChecks.mp outer
    rfl
  · exact isCheck_of_checksOf own

theorem handed_of_isCheck {events : List Event} (h : ∀ e ∈ events, e.isCheck = true) :
    events.flatMap (fun | .exec calls => calls | _ => []) = ([] : List ToolCall) := by
  refine List.flatMap_eq_nil_iff.mpr fun e he => ?_
  have check := h e he
  cases e <;> first | rfl | cases check

/-- The batch split by its verdicts: a call the loop goes past is approved or
sandboxed. -/
theorem approved_or_sandboxed (on : batchGoesOn env toolNames threadId v s i calls = true) :
    ∀ c ∈ calls.zipIdx i,
      (verdictAt env toolNames threadId v s c.2 c.1).isApproved = true ∨
        (verdictAt env toolNames threadId v s c.2 c.1).isSandboxed = true := by
  intro c hc
  have go := List.all_eq_true.mp on c hc
  rw [goesOn, Bool.or_eq_true, Bool.and_eq_true] at go
  exact go.imp_right And.left

theorem not_approved_of_sandboxed {w : Verdict} (h : w.isSandboxed = true) :
    w.isApproved = false := by
  cases w <;> first | rfl | cases h

theorem approvedCalls_of_no_sandboxed {i : Nat} {calls : List ToolCall}
    (on : batchGoesOn env toolNames threadId v s i calls = true)
    (none : sandboxedCalls env toolNames threadId v s i calls = []) :
    approvedCalls env toolNames threadId v s i calls = calls := by
  have all : (calls.zipIdx i).filter (fun c =>
      (verdictAt env toolNames threadId v s c.2 c.1).isApproved) = calls.zipIdx i := by
    refine List.filter_eq_self.mpr fun c hc => ?_
    rcases approved_or_sandboxed on c hc with h | h
    · exact h
    · have mem : c.1 ∈ sandboxedCalls env toolNames threadId v s i calls :=
        List.mem_map.mpr ⟨c, List.mem_filter.mpr ⟨hc, h⟩, rfl⟩
      rw [none] at mem
      cases mem
  rw [approvedCalls, all, List.zipIdx_map_fst]

theorem handed_of_done {calls : List ToolCall} {p : Progress}
    (on : batchGoesOn env toolNames threadId v s 0 calls = true)
    (approved : p.approved = approvedCalls env toolNames threadId v s 0 calls)
    (sandboxed : p.sandboxMessages.map (fun m => some m.toolCallId) =
      (sandboxedCalls env toolNames threadId v s 0 calls).map (·.tcId)) :
    handedCalls calls p =
      underApprovedId env toolNames threadId v s calls := by
  have ids : p.approvedTcIds =
      (approvedCalls env toolNames threadId v s 0 calls).map (·.tcId) := by
    rw [Progress.approvedTcIds, approved]
  unfold handedCalls underApprovedId
  split
  · next none =>
    have none : sandboxedCalls env toolNames threadId v s 0 calls = [] := by
      rw [List.isEmpty_iff.mp none] at sandboxed
      exact List.map_eq_nil_iff.mp sandboxed.symm
    rw [approvedCalls_of_no_sandboxed on none]
    refine (List.filter_eq_self.mpr fun tc htc => ?_).symm
    exact List.contains_iff_mem.mpr (List.mem_map_of_mem htc)
  · rw [ids]

theorem underApprovedId_of_none {calls : List ToolCall}
    (none : approvedCalls env toolNames threadId v s 0 calls = []) :
    underApprovedId env toolNames threadId v s calls = [] := by
  rw [underApprovedId, none]
  exact List.filter_eq_nil_iff.mpr fun _ _ h => by cases h

/-- Whatever the inner node answers, it was given the handed calls or, with
nothing approved, was not called. -/
theorem executeApproved_events (calls : List ToolCall) (p : Progress)
    (inner : Option (List ToolMessage)) :
    (executeApproved env calls p inner).events =
      if p.approved.isEmpty then [] else [.exec (handedCalls calls p)] := by
  unfold executeApproved
  dsimp only
  split
  · rfl
  · split
    · rfl
    · split
      · rfl
      · split <;> rfl

theorem executeApproved_handed (calls : List ToolCall) (p : Progress)
    (inner : Option (List ToolMessage)) :
    (executeApproved env calls p inner).handed =
      if p.approved.isEmpty then [] else handedCalls calls p := by
  rw [NodeRun.handed, executeApproved_events]
  split
  · rfl
  · exact List.append_nil _

/-- The events of one execution: the checks of the loop and, if the loop came to its end, what
the approved calls make of it. -/
theorem secureToolNode_events (inner : Option (List ToolMessage)) :
    ∃ events, events = (checkCalls env toolNames threadId v s (batch toolNames s) 0
        (batch toolNames s) { sequenceSoFar := s.sequenceSoFar }).1 ∧
      (∀ e ∈ events, e.isCheck = true) ∧
      (batchGoesOn env toolNames threadId v s 0 (batch toolNames s) = false ∧
          (secureToolNode env toolNames threadId v s inner).events = events ∨
        ∃ p, batchGoesOn env toolNames threadId v s 0 (batch toolNames s) = true ∧
          p.approved = approvedCalls env toolNames threadId v s 0 (batch toolNames s) ∧
          p.sandboxMessages.map (fun m => some m.toolCallId) =
            (sandboxedCalls env toolNames threadId v s 0 (batch toolNames s)).map (·.tcId) ∧
          (secureToolNode env toolNames threadId v s inner).events =
            events ++ (executeApproved env (batch toolNames s) p inner).events) := by
  have spec := @checkCalls_spec env toolNames threadId v s (batch toolNames s)
    (batch toolNames s) 0 { sequenceSoFar := s.sequenceSoFar }
  have checks := @checkCalls_isCheck env toolNames threadId v s (batch toolNames s)
    (batch toolNames s) 0 { sequenceSoFar := s.sequenceSoFar }
  refine ⟨_, rfl, checks, ?_⟩
  unfold secureToolNode
  dsimp only
  rw [show s.toolCalls.map (normaliseCall toolNames) = batch toolNames s from rfl]
  generalize checkCalls env toolNames threadId v s (batch toolNames s) 0
    (batch toolNames s) { sequenceSoFar := s.sequenceSoFar } = loop at spec ⊢
  obtain ⟨events, checked⟩ := loop
  cases spec with
  | stopped off h =>
    cases checked with
    | done p => exact absurd rfl (h p)
    | raised => exact .inl ⟨off, rfl⟩
    | halted u => exact .inl ⟨off, rfl⟩
  | @done p on approved sandboxed => exact .inr ⟨p, on, approved, sandboxed, rfl⟩

/-- The loop over the batch, as the node runs it. -/
theorem secureToolNode_beforeExec (inner : Option (List ToolMessage)) :
    (secureToolNode env toolNames threadId v s inner).events.takeWhile Event.isCheck =
      (checkCalls env toolNames threadId v s (batch toolNames s) 0 (batch toolNames s)
        { sequenceSoFar := s.sequenceSoFar }).1 := by
  obtain ⟨events, loop, checks, ⟨-, out⟩ | ⟨p, -, -, -, out⟩⟩ :=
    @secureToolNode_events env toolNames threadId v s inner
  · rw [out, ← loop]
    exact List.takeWhile_eq_self_iff.mpr checks
  · rw [out, ← loop, executeApproved_events, List.takeWhile_append_of_pos checks]
    split <;> simp [Event.isCheck]

/-- What one execution hands to the inner node, whatever that node answers. -/
theorem secureToolNode_handed (inner : Option (List ToolMessage)) :
    (secureToolNode env toolNames threadId v s inner).handed =
      if batchGoesOn env toolNames threadId v s 0 (batch toolNames s) then
        underApprovedId env toolNames threadId v s (batch toolNames s)
      else [] := by
  obtain ⟨events, -, checks, ⟨off, out⟩ | ⟨p, on, approved, sandboxed, out⟩⟩ :=
    @secureToolNode_events env toolNames threadId v s inner
  · rw [NodeRun.handed, out, off]
    exact handed_of_isCheck checks
  · have later := @executeApproved_handed env (batch toolNames s) p inner
    have handed : (executeApproved env (batch toolNames s) p inner).handed =
        underApprovedId env toolNames threadId v s (batch toolNames s) := by
      rw [later, handed_of_done on approved sandboxed]
      split
      · next empty =>
        refine (underApprovedId_of_none ?_).symm
        exact approved.symm.trans (List.isEmpty_iff.mp empty)
      · rfl
    rw [if_pos on, ← handed, NodeRun.handed, out, List.flatMap_append,
      handed_of_isCheck checks, List.nil_append]
    rfl

/-- The inner node is left alone exactly when the batch stops or approves
nothing. -/
theorem secureToolNode_quiet_iff (inner : Option (List ToolMessage)) :
    (secureToolNode env toolNames threadId v s inner).events.all (·.isCheck) = true ↔
      batchGoesOn env toolNames threadId v s 0 (batch toolNames s) = false ∨
        approvedCalls env toolNames threadId v s 0 (batch toolNames s) = [] := by
  obtain ⟨events, -, checks, ⟨off, out⟩ | ⟨p, on, approved, -, out⟩⟩ :=
    @secureToolNode_events env toolNames threadId v s inner
  · rw [out]
    exact ⟨fun _ => .inl off, fun _ => List.all_eq_true.mpr checks⟩
  · have all : events.all (·.isCheck) = true := List.all_eq_true.mpr checks
    rw [out, List.all_append, all, executeApproved_events, approved, on, Bool.true_and]
    split
    · next empty => simp [List.isEmpty_iff.mp empty]
    · next some => simpa [Event.isCheck] using some

/-! ## Only approved calls run -/

/-- Filtering by a weaker test gives as many items only when the weaker test
admits nothing more. -/
private theorem filter_length_eq_iff {α : Type} {p q : α → Bool} {l : List α}
    (weaker : ∀ a ∈ l, q a = true → p a = true) :
    (l.filter p).length = (l.filter q).length ↔ ∀ a ∈ l, p a = true → q a = true := by
  have same : l.filter q = (l.filter p).filter q := by
    rw [List.filter_filter]
    refine List.filter_congr fun a ha => ?_
    cases h : q a with
    | false => rfl
    | true => rw [weaker a ha h]; rfl
  rw [same, eq_comm, List.length_filter_eq_length_iff]
  simp only [List.mem_filter, and_imp]

variable (env toolNames threadId v s)

/-- The inner node is given exactly the calls that passed all checks as
individual calls, and nothing when the loop returned at a call. -/
def OnlyApprovedHanded (inner : Option (List ToolMessage)) : Prop :=
  (secureToolNode env toolNames threadId v s inner).handed =
    if batchGoesOn env toolNames threadId v s 0 (batch toolNames s) then
      approvedCalls env toolNames threadId v s 0 (batch toolNames s)
    else []

/-- The batch is halted, or no skipped call has the id of an approved one. -/
def SandboxedIdsApart : Prop :=
  batchGoesOn env toolNames threadId v s 0 (batch toolNames s) = true →
    ∀ skipped ∈ sandboxedCalls env toolNames threadId v s 0 (batch toolNames s),
      ∀ passed ∈ approvedCalls env toolNames threadId v s 0 (batch toolNames s),
        skipped.tcId ≠ passed.tcId

variable {env toolNames threadId v s}

theorem underApprovedId_eq_iff {calls : List ToolCall}
    (on : batchGoesOn env toolNames threadId v s 0 calls = true) :
    underApprovedId env toolNames threadId v s calls =
        approvedCalls env toolNames threadId v s 0 calls ↔
      ∀ skipped ∈ sandboxedCalls env toolNames threadId v s 0 calls,
        ∀ passed ∈ approvedCalls env toolNames threadId v s 0 calls,
          skipped.tcId ≠ passed.tcId := by
  have byPosition : underApprovedId env toolNames threadId v s calls =
      ((calls.zipIdx 0).filter fun c =>
        ((approvedCalls env toolNames threadId v s 0 calls).map (·.tcId)).contains
          c.1.tcId).map (·.1) := by
    rw [underApprovedId]
    generalize (approvedCalls env toolNames threadId v s 0 calls).map (·.tcId) = ids
    conv_lhs => rw [← List.zipIdx_map_fst 0 calls, List.filter_map]
    rfl
  have approvedId : ∀ c ∈ calls.zipIdx 0,
      (verdictAt env toolNames threadId v s c.2 c.1).isApproved = true →
        ((approvedCalls env toolNames threadId v s 0 calls).map (·.tcId)).contains
          c.1.tcId = true := fun c hc h =>
    List.contains_iff_mem.mpr (List.mem_map_of_mem
      (List.mem_map.mpr ⟨c, List.mem_filter.mpr ⟨hc, h⟩, rfl⟩))
  refine ⟨?_, ?_⟩
  · intro eq skipped hs passed hp id
    obtain ⟨c, hc, rfl⟩ := List.mem_map.mp hs
    obtain ⟨hc, sandboxed⟩ := List.mem_filter.mp hc
    have lengths := congrArg List.length eq
    rw [byPosition, List.length_map] at lengths
    conv_rhs at lengths => rw [approvedCalls, List.length_map]
    have approved := (filter_length_eq_iff approvedId).mp lengths c hc
      (List.contains_iff_mem.mpr (id ▸ List.mem_map_of_mem hp))
    rw [not_approved_of_sandboxed sandboxed] at approved
    cases approved
  · intro apart
    rw [byPosition]
    conv_rhs => rw [approvedCalls]
    refine congrArg _ (List.filter_congr fun c hc => ?_)
    rcases approved_or_sandboxed on c hc with approved | sandboxed
    · rw [approved, approvedId c hc approved]
    · rw [not_approved_of_sandboxed sandboxed, ← Bool.not_eq_true, List.contains_iff_mem]
      intro mem
      obtain ⟨passed, hp, id⟩ := List.mem_map.mp mem
      exact apart c.1 (List.mem_map.mpr ⟨c, List.mem_filter.mpr ⟨hc, sandboxed⟩, rfl⟩)
        passed hp id.symm

/-- For every batch, every answer of the checks and every answer of the inner
node: only approved calls are executed, and all of them in a batch that is not
halted, if and only if no skipped call carries the id of an approved one. -/
theorem handed_only_approved_iff (inner : Option (List ToolMessage)) :
    OnlyApprovedHanded env toolNames threadId v s inner ↔
      SandboxedIdsApart env toolNames threadId v s := by
  rw [OnlyApprovedHanded, SandboxedIdsApart, secureToolNode_handed]
  cases on : batchGoesOn env toolNames threadId v s 0 (batch toolNames s) with
  | false => simp
  | true => simpa using underApprovedId_eq_iff on

end

/-! ## A batch with one id twice -/

mutual

/-- `repr` of a JSON value whose strings hold neither quotes nor escapes. -/
def plainRepr : Json → String
  | .null => "None"
  | .bool b => if b then "True" else "False"
  | .num t => String.ofList t.text
  | .str t => s!"'{t}'"
  | .arr xs => "[" ++ ", ".intercalate (plainReprItems xs) ++ "]"
  | .obj ms => "\x7b" ++ ", ".intercalate (plainReprMembers ms) ++ "\x7d"

def plainReprItems : List Json → List String
  | [] => []
  | x :: xs => plainRepr x :: plainReprItems xs

def plainReprMembers : List (String × Json) → List String
  | [] => []
  | (k, x) :: ms => s!"'{k}': {plainRepr x}" :: plainReprMembers ms

end

/-- The SHA-256 digests of the calls used as examples. -/
def sampleDigests : List (String × String) :=
  [("read_tool_call_history:\x7b\x7d",
      "fdcbe23999ae76601aa7aaf21ea04b6b2ef6672c8f5bb56e7624d0741b1cbf7f"),
    ("fan_out_researchers:\x7b'sub_tasks_json': ['jailbreak']\x7d",
      "26bc1ac7b4cca417e5ed45a5855bc4213ae9d0ad114498896818d98935e08243"),
    ("web_search:\x7b'query': 'password'\x7d",
      "842ad4abfec00f4dbfd6e01c6025b268a589edc1908ce95ae55e6087a7cf3376")]

/-- The limits of a shipped profile. -/
def sampleEnv : Env where
  loopDetectionWindow := 5
  loopDetectionThreshold := 3
  defaultTokenBudget := 50000
  maxErrorsPerRun := 3
  haltOnToolResultInjection := true
  unicode := .ascii
  pyStr args := plainRepr (.obj args)
  sha256Hex text := (sampleDigests.lookup text).getD ""

def sampleState (calls : List ToolCall) : AgentState where
  messages := [.human (.text "report"), .ai (.text "") calls]
  stepCount := 1
  maxSteps := 40
  errorCount := 0
  loopDetected := false
  forceEnd := false
  actionHistory := []
  tokenCount := 0
  runId := "run-1"
  task := "report"
  result := none
  sequenceSoFar := []
  verifyRounds := 0
  hitlPending := false
  hitlRunId := none
  hitlAction := none
  hitlCategories := []
  hitlRequestId := none

/-- The Guardian skips the call at position 1, everything else is allowed. -/
def skipSecond : Verdicts where
  registry _ _ := true
  acl _ _ := true
  guardian i _ :=
    if i = 1 then { allowed := false, tier := .sandbox, reason := "novel sequence" }
    else { allowed := true, tier := .allow, reason := "" }
  url _ _ := .accepted
  hitlInsert _ _ := some "request-1"

/-- Two calls of the observer under one id. -/
def twinCalls : List ToolCall :=
  [{ id := some (some "call_0"), name := "read_tool_call_history", args := [] },
    { id := some (some "call_0"), name := "nominate_candidate", args := [] }]

/-- The skipped call is handed on under the approved call's id. -/
theorem skipped_twin_handed :
    ¬ OnlyApprovedHanded sampleEnv ["read_tool_call_history", "nominate_candidate"]
      none skipSecond (sampleState twinCalls) (some []) := by
  intro only
  exact absurd (congrArg List.length only) (by decide +kernel)

end LegionForge.Agent
