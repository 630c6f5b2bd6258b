import LegionForge.Agent.ToolBatch
import Mathlib.Data.List.Nodup

/-!
# One reply for every tool call

The conversation stays well formed when each call of the last message is
answered by one `ToolMessage`. The return paths of the tool node differ: a token
or Guardian halt and a halted result answer the whole batch, a failed registry
check answers the call it stopped at and the skipped ones before it, and a loop,
an injection, a blocked URL, a destructive pattern and an unexpected id answer
nothing.

`Carried` is the invariant of the loop: the approved and the skipped calls so far
are, by id, the calls it went past. `answered_once_iff` reads off each return
path from it.
-/

namespace LegionForge.Agent

open JsonText Security

/-! ## What is asked of a return -/

/-- The ids an update answers. -/
def Update.replyIds (u : Update) : List String :=
  (u.messages.getD []).filterMap fun
    | .tool m => some m.toolCallId
    | _ => none

/-- Every call is answered exactly once. -/
def AnsweredOnce (calls : List ToolCall) (u : Update) : Prop :=
  ∀ tc ∈ calls, ∀ id, tc.tcId = some id → u.replyIds.count id = 1

/-- Every call has an id, and no two the same. -/
def DistinctIds (calls : List ToolCall) : Prop :=
  ∃ ids : List String, calls.map (·.tcId) = ids.map some ∧ ids.Nodup

section
variable (env : Env) (toolNames : List String) (threadId : Option String)
variable (v : Verdicts) (s : AgentState)

/-- The message a skipped call is answered with. -/
def skippedMessage (tc : ToolCall) : Option ToolMessage :=
  toolMessage (skippedText (canonicalName toolNames tc.name)) tc.tcId
    (canonicalName toolNames tc.name)

def skippedMessages (calls : List ToolCall) : List ToolMessage :=
  (sandboxedCalls env toolNames threadId v s 0 calls).filterMap (skippedMessage toolNames)

/-- The batch stops at a call of it, from position `i` on, whose halt answers all
of `approvedBefore`, the calls before and the calls behind. -/
def stopAnswers : Bool → Nat → List ToolCall → Bool
  | _, _, [] => false
  | approvedBefore, i, tc :: rest =>
    match verdictAt env toolNames threadId v s i tc with
    | .aclDenied | .guardianHalt _ => true
    | .registryBlocked => !approvedBefore && rest.isEmpty
    | .sandboxed => stopAnswers approvedBefore (i + 1) rest
    | .approved _ => stopAnswers true (i + 1) rest
    | .looped _ | .argHalt | .stopped _ _ | .raised => false

/-- What the inner node answers closes the batch: no id is foreign, and either the
results are replaced by a halt, or each approved id is answered once and no
skipped one. -/
def InnerCloses (calls : List ToolCall) (answers : List ToolMessage) : Prop :=
  let approved := (approvedCalls env toolNames threadId v s 0 calls).map (·.tcId)
  let skipped := skippedMessages env toolNames threadId v s calls
  let ids := answers.map (·.toolCallId)
  (∀ id ∈ ids, id ≠ "" → some id ∈ approved ∨ id ∈ skipped.map (·.toolCallId)) ∧
    (sanitizeResults env skipped (answers ++ skipped) = none ∨
      (∀ id, some id ∈ approved → ids.count id = 1) ∧
        ∀ id ∈ skipped.map (·.toolCallId), ids.count id = 0)

/-- The batch as a whole is closed by what it meets. -/
def BatchCloses (inner : Option (List ToolMessage)) : Prop :=
  let calls := batch toolNames s
  if batchGoesOn env toolNames threadId v s 0 calls then
    approvedCalls env toolNames threadId v s 0 calls = [] ∨
      ∀ answers, inner = some answers →
        InnerCloses env toolNames threadId v s calls answers
  else stopAnswers env toolNames threadId v s false 0 calls = true

variable {env toolNames threadId v s}

/-! ## Replies -/

theorem replyIds_of_tools {u : Update} {msgs : List ToolMessage}
    (h : u.messages = some (msgs.map .tool)) : u.replyIds = msgs.map (·.toolCallId) := by
  rw [Update.replyIds, h, Option.getD_some, List.filterMap_map]
  exact congrFun List.filterMap_eq_map msgs

theorem not_answeredOnce_of_silent {calls : List ToolCall} {u : Update}
    (distinct : DistinctIds calls) (some : calls ≠ []) (silent : u.messages = none) :
    ¬ AnsweredOnce calls u := by
  intro answered
  obtain ⟨ids, same, -⟩ := distinct
  cases calls with
  | nil => exact some rfl
  | cons tc rest =>
    cases ids with
    | nil => cases same
    | cons id ids =>
      have once := answered tc List.mem_cons_self id (List.cons.inj same).1
      rw [Update.replyIds, silent] at once
      cases once

/-- A halt that answers the batch answers it once. -/
theorem answeredOnce_of_haltMessages {calls : List ToolCall} {text : String → String}
    {u : Update} {msgs : List ToolMessage} (distinct : DistinctIds calls)
    (halt : haltMessages calls text = some msgs)
    (replies : u.messages = some (msgs.map .tool)) : AnsweredOnce calls u := by
  obtain ⟨ids, same, nodup⟩ := distinct
  have answered : msgs.map (·.toolCallId) = ids := by
    clear replies nodup
    induction calls generalizing msgs ids with
    | nil =>
      cases halt
      exact (List.map_eq_nil_iff.mp same.symm).symm
    | cons tc rest ih =>
      cases ids with
      | nil => cases same
      | cons id ids =>
        obtain ⟨here, there⟩ := List.cons.inj same
        rw [haltMessages, List.mapM_cons] at halt
        obtain ⟨m, first, halt⟩ := Option.bind_eq_some_iff.mp halt
        obtain ⟨rest', later, halt⟩ := Option.bind_eq_some_iff.mp halt
        cases halt
        dsimp only at here
        rw [toolMessage, here] at first
        cases first
        rw [List.map_cons, ih later ids there]
  intro tc htc id at_tc
  rw [replyIds_of_tools replies, answered]
  refine List.count_eq_one_of_mem nodup ?_
  have mem : some id ∈ ids.map some := same ▸ at_tc ▸ List.mem_map_of_mem htc
  obtain ⟨_, h, eq⟩ := List.mem_map.mp mem
  exact Option.some.inj eq ▸ h

/-! ## What the loop carries -/

/-- The updates a verdict comes with. -/
def Verdict.updates : Verdict → List Update
  | .looped loop | .approved loop => [loop]
  | .stopped loop hitl => [loop, hitl]
  | _ => []

theorem checkString_silent {i : Nat} {toolId name text : String} {hitl : Update}
    (h : (checkString env threadId v s i toolId name text).2 = .stopped hitl) :
    hitl.messages = none := by
  have destructive :
      (checkDestructive env threadId v s i toolId name text).2 = .stopped hitl →
        hitl.messages = none := fun stopped => by
    rcases @checkDestructive_cases env threadId v s i toolId name text with
      ⟨row, hitl', eq, pauses⟩ | ⟨eq, -⟩ | ⟨eq, -⟩
    · rw [eq] at stopped
      cases stopped
      exact pauses.messages
    · rw [eq] at stopped
      cases stopped
      rfl
    · rw [eq] at stopped
      cases stopped
  rw [checkString_eq] at h
  dsimp only at h
  cases tier : tier1Injection env.unicode text <;> cases url : urlLike name <;>
    cases answer : v.url i name <;>
    simp only [tier, url, answer, Bool.false_eq_true, if_false, if_true,
      reduceCtorEq] at h
  all_goals exact destructive h

theorem checkArgs_silent {i : Nat} {toolId : String} {args : List (String × Json)}
    {hitl : Update} (h : (checkArgs env threadId v s i toolId args).2 = .stopped hitl) :
    hitl.messages = none := by
  induction args with
  | nil => cases h
  | cons arg rest ih =>
    obtain ⟨name, value⟩ := arg
    cases value with
    | str text =>
      rw [checkArgs] at h
      have first := @checkString_silent env threadId v s i toolId name text hitl
      rcases eq : checkString env threadId v s i toolId name text with ⟨events, verdict⟩
      rw [eq] at h first
      cases verdict with
      | pass => exact ih h
      | _ => exact first h
    | _ => exact ih h

/-- No check of a call writes a message. -/
theorem verdict_silent {i : Nat} {tc : ToolCall} :
    ∀ u ∈ (verdictAt env toolNames threadId v s i tc).updates, u.messages = none := by
  unfold verdictAt checkCall
  dsimp only
  split
  · simp [Verdict.updates]
  · split
    · simp [Verdict.updates]
    · split
      · split <;> simp [Verdict.updates]
      · split
        · simp [Verdict.updates]
        · split
          · simp [Verdict.updates]
          · next events hitl eq =>
            have silent := @checkArgs_silent env threadId v s i
              (canonicalName toolNames tc.name) tc.args hitl (by rw [eq])
            simp [Verdict.updates, silent]
          · simp [Verdict.updates]
          · simp [Verdict.updates]

/-- The loop has gone past `past`: it wrote no message, and the approved and the
skipped calls are those, by id. -/
structure Carried (past : List ToolCall) (p : Progress) : Prop where
  silent : p.result.messages = none
  ids : (p.approved.map (·.tcId) ++ p.sandboxMessages.map (some ·.toolCallId)).Perm
    (past.map (·.tcId))

theorem Carried.approve {past : List ToolCall} {p : Progress} (carried : Carried past p)
    {tc : ToolCall} {loop : Update} {sequence : List String} (silent : loop.messages = none) :
    Carried (past ++ [tc])
      { p with
        result := p.result.merge loop
        sequenceSoFar := sequence
        approved := p.approved ++ [tc] } := by
  refine ⟨by simp [carried.silent, silent], ?_⟩
  simp only [List.map_append, List.map_cons, List.map_nil, List.append_assoc]
  have ids := carried.ids.append_right [tc.tcId]
  rw [List.append_assoc] at ids
  exact (List.perm_append_comm.append_left _).trans ids

theorem Carried.skip {past : List ToolCall} {p : Progress} (carried : Carried past p)
    {tc : ToolCall} {m : ToolMessage} (id : tc.tcId = some m.toolCallId) :
    Carried (past ++ [tc]) { p with sandboxMessages := p.sandboxMessages ++ [m] } := by
  refine ⟨carried.silent, ?_⟩
  simp only [List.map_append, List.map_cons, List.map_nil, id]
  rw [← List.append_assoc]
  exact carried.ids.append_right _

/-! ## Counting replies -/

theorem DistinctIds.nodup {calls : List ToolCall} (distinct : DistinctIds calls) :
    (calls.map (·.tcId)).Nodup := by
  obtain ⟨ids, same, nodup⟩ := distinct
  rw [same]
  exact nodup.map fun _ _ => Option.some.inj

theorem DistinctIds.id {calls : List ToolCall} (distinct : DistinctIds calls)
    {tc : ToolCall} (h : tc ∈ calls) : ∃ id, tc.tcId = some id := by
  obtain ⟨ids, same, -⟩ := distinct
  have mem : tc.tcId ∈ ids.map some := same ▸ List.mem_map_of_mem h
  obtain ⟨id, -, eq⟩ := List.mem_map.mp mem
  exact ⟨id, eq.symm⟩

/-- Replies to all of `seen` but `open_` answer a batch once, if nothing is open
and nothing follows. -/
theorem answeredOnce_iff_of_perm {seen rest : List ToolCall} {u : Update}
    {open_ : List (Option String)} (distinct : DistinctIds (seen ++ rest))
    (replies : (open_ ++ u.replyIds.map some).Perm (seen.map (·.tcId))) :
    AnsweredOnce (seen ++ rest) u ↔ open_ = [] ∧ rest = [] := by
  have nodup := distinct.nodup
  rw [List.map_append] at nodup
  obtain ⟨seenNodup, -, apart⟩ := List.nodup_append.mp nodup
  have split := List.nodup_append.mp (replies.nodup_iff.mpr seenNodup)
  refine ⟨?_, ?_⟩
  · intro answered
    have replied : ∀ tc ∈ seen ++ rest, tc.tcId ∈ u.replyIds.map some := fun tc htc => by
      obtain ⟨id, at_tc⟩ := distinct.id htc
      have once := answered tc htc id at_tc
      rw [at_tc]
      exact List.mem_map_of_mem (List.count_pos_iff.mp (by omega))
    refine ⟨?_, ?_⟩
    · refine List.eq_nil_iff_forall_not_mem.mpr fun x hx => ?_
      obtain ⟨tc, htc, rfl⟩ :=
        List.mem_map.mp (replies.mem_iff.mp (List.mem_append_left _ hx))
      exact split.2.2 _ hx _ (replied tc (List.mem_append_left _ htc)) rfl
    · refine List.eq_nil_iff_forall_not_mem.mpr fun tc htc => ?_
      have before := replies.mem_iff.mp
        (List.mem_append_right open_ (replied tc (List.mem_append_right _ htc)))
      exact apart _ before _ (List.mem_map_of_mem htc) rfl
  · rintro ⟨rfl, rfl⟩ tc htc id at_tc
    rw [List.append_nil] at htc
    have mem : some id ∈ u.replyIds.map some :=
      replies.mem_iff.mpr (at_tc ▸ List.mem_map_of_mem htc)
    obtain ⟨_, h, eq⟩ := List.mem_map.mp mem
    cases eq
    exact List.count_eq_one_of_mem (List.Nodup.of_map _ split.2.1) h

/-! ## The loop -/

variable (env toolNames threadId v s) in
/-- What the loop over `rest`, the end of the batch `calls`, leaves to say about
replies. -/
inductive Closes (calls : List ToolCall) (i : Nat) (rest : List ToolCall) (p : Progress) :
    Checked → Prop
  | raised : Closes calls i rest p .raised
  | halted {u : Update} (answered : AnsweredOnce calls u ↔
        stopAnswers env toolNames threadId v s (!p.approved.isEmpty) i rest = true) :
      Closes calls i rest p (.halted u)
  | done {p' : Progress} (carried : Carried calls p')
      (skipped : p'.sandboxMessages = p.sandboxMessages ++
        (sandboxedCalls env toolNames threadId v s i rest).filterMap
          (skippedMessage toolNames)) :
      Closes calls i rest p (.done p')

theorem closes_of_haltMessages {calls : List ToolCall} {i : Nat} {tc : ToolCall}
    {rest : List ToolCall} {p : Progress} (distinct : DistinctIds calls)
    (text : String → String) (u : List ToolMessage → Update)
    (replies : ∀ msgs, (u msgs).messages = some (msgs.map .tool))
    (answers : stopAnswers env toolNames threadId v s (!p.approved.isEmpty) i (tc :: rest) =
      true) :
    Closes env toolNames threadId v s calls i (tc :: rest) p
      (.ofMessages (haltMessages calls text) u) := by
  cases halt : haltMessages calls text with
  | none => exact .raised
  | some msgs =>
    exact .halted (iff_of_true
      (answeredOnce_of_haltMessages distinct halt (replies msgs)) answers)

theorem closes_of_silent {calls : List ToolCall} {i : Nat} {tc : ToolCall}
    {rest : List ToolCall} {p : Progress} {u : Update} (distinct : DistinctIds calls)
    (mem : tc ∈ calls) (silent : u.messages = none)
    (off : stopAnswers env toolNames threadId v s (!p.approved.isEmpty) i (tc :: rest) =
      false) :
    Closes env toolNames threadId v s calls i (tc :: rest) p (.halted u) :=
  .halted (iff_of_false
    (not_answeredOnce_of_silent distinct (List.ne_nil_of_mem mem) silent)
    (by rw [off]; exact Bool.false_ne_true))

/-- A call the loop goes past with what it carries changed from `p` to `q`. -/
theorem Closes.of_go {calls : List ToolCall} {i : Nat} {tc : ToolCall}
    {rest : List ToolCall} {p q : Progress} {c : Checked}
    (later : Closes env toolNames threadId v s calls (i + 1) rest q c)
    (stop : stopAnswers env toolNames threadId v s (!p.approved.isEmpty) i (tc :: rest) =
      stopAnswers env toolNames threadId v s (!q.approved.isEmpty) (i + 1) rest)
    (skipped : q.sandboxMessages = p.sandboxMessages ++
      (if (verdictAt env toolNames threadId v s i tc).isSandboxed then [tc]
        else []).filterMap (skippedMessage toolNames)) :
    Closes env toolNames threadId v s calls i (tc :: rest) p c := by
  cases later with
  | raised => exact .raised
  | halted answered => exact .halted (by rw [stop]; exact answered)
  | done carried later =>
    refine .done carried ?_
    rw [later, skipped, sandboxedCalls_cons, List.filterMap_append, List.append_assoc]

/-- A failed registry check answers the call and the skipped ones before it. -/
theorem answeredOnce_of_registry {past rest : List ToolCall} {tc : ToolCall}
    {p : Progress} {m : ToolMessage} {u : Update}
    (distinct : DistinctIds (past ++ [tc] ++ rest)) (carried : Carried past p)
    (id : tc.tcId = some m.toolCallId)
    (replies : u.messages = some ((p.sandboxMessages ++ [m]).map .tool)) :
    AnsweredOnce (past ++ [tc] ++ rest) u ↔ p.approved = [] ∧ rest = [] := by
  have perm : (p.approved.map (·.tcId) ++ u.replyIds.map some).Perm
      ((past ++ [tc]).map (·.tcId)) := by
    rw [replyIds_of_tools replies]
    simp only [List.map_append, List.map_map, List.map_cons, List.map_nil, id]
    rw [← List.append_assoc]
    exact carried.ids.append_right _
  rw [answeredOnce_iff_of_perm distinct perm, List.map_eq_nil_iff]

/-- Induction over the calls ahead; what lies behind is carried. -/
theorem checkCalls_closes {calls : List ToolCall} (distinct : DistinctIds calls) :
    ∀ (rest past : List ToolCall) (i : Nat) (p : Progress), calls = past ++ rest →
      Carried past p → Closes env toolNames threadId v s calls i rest p
        (checkCalls env toolNames threadId v s calls i rest p).2 := by
  intro rest
  induction rest with
  | nil =>
    intro past i p all carried
    rw [List.append_nil] at all
    exact .done (all ▸ carried) (List.append_nil _).symm
  | cons tc rest ih =>
    intro past i p all carried
    have mem : tc ∈ calls := all ▸ List.mem_append_right _ List.mem_cons_self
    have ahead : calls = (past ++ [tc]) ++ rest := by
      rw [all, List.append_assoc]
      rfl
    obtain ⟨id, at_tc⟩ := distinct.id mem
    have silent := @verdict_silent env toolNames threadId v s i tc
    rw [checkCalls]
    rcases h : checkCall env toolNames threadId v s i tc with ⟨events, verdict⟩
    have at_ : verdictAt env toolNames threadId v s i tc = verdict := by
      rw [verdictAt, h]
    rw [at_] at silent
    cases verdict with
    | raised => exact .raised
    | aclDenied =>
      exact closes_of_haltMessages distinct aclHaltText _ (fun _ => rfl)
        (by rw [stopAnswers, at_])
    | guardianHalt reason =>
      exact closes_of_haltMessages distinct (guardianHaltText reason) _ (fun _ => rfl)
        (by rw [stopAnswers, at_])
    | argHalt => exact closes_of_silent distinct mem rfl (by rw [stopAnswers, at_])
    | looped loop =>
      refine closes_of_silent distinct mem ?_ (by rw [stopAnswers, at_])
      rw [Update.merge_messages, carried.silent, silent loop (by simp [Verdict.updates])]
      rfl
    | stopped loop hitl =>
      refine closes_of_silent distinct mem ?_ (by rw [stopAnswers, at_])
      rw [Update.merge_messages, Update.merge_messages, carried.silent,
        silent loop (by simp [Verdict.updates]), silent hitl (by simp [Verdict.updates])]
      rfl
    | registryBlocked =>
      simp only [toolMessage, at_tc, Option.map_some, Checked.ofMessages]
      refine .halted ?_
      rw [ahead, answeredOnce_of_registry (ahead ▸ distinct) carried at_tc rfl, stopAnswers,
        at_]
      cases p.approved <;> cases rest <;> simp
    | sandboxed =>
      simp only [toolMessage, at_tc, Option.map_some]
      exact (ih (past ++ [tc]) (i + 1) _ ahead (carried.skip at_tc)).of_go
        (by rw [stopAnswers, at_])
        (by simp [at_, Verdict.isSandboxed, skippedMessage, toolMessage, at_tc])
    | approved loop =>
      refine (ih (past ++ [tc]) (i + 1) _ ahead
        (carried.approve (silent loop (by simp [Verdict.updates])))).of_go ?_ ?_
      · rw [stopAnswers, at_]
        cases p.approved <;> rfl
      · simp [at_, Verdict.isSandboxed]

/-! ## The node -/

theorem batch_ids : (batch toolNames s).map (·.tcId) = s.toolCalls.map (·.tcId) := by
  rw [batch, List.map_map]
  rfl

theorem distinctIds_batch (distinct : DistinctIds s.toolCalls) :
    DistinctIds (batch toolNames s) := by
  rw [DistinctIds, batch_ids]
  exact distinct

/-- Renaming the tools leaves the ids to answer. -/
theorem answeredOnce_batch {u : Update} :
    AnsweredOnce s.toolCalls u ↔ AnsweredOnce (batch toolNames s) u := by
  refine ⟨?_, ?_⟩
  · intro answered tc htc id at_tc
    obtain ⟨tc', htc', rfl⟩ := List.mem_map.mp htc
    exact answered tc' htc' id at_tc
  · intro answered tc htc id at_tc
    exact answered (normaliseCall toolNames tc) (List.mem_map_of_mem htc) id at_tc

/-- Sanitising keeps the ids. -/
theorem sanitizeResults_ids {skipped : List ToolMessage} : ∀ {answers msgs : List ToolMessage},
    sanitizeResults env skipped answers = some msgs →
      msgs.map (·.toolCallId) = answers.map (·.toolCallId) := by
  intro answers
  induction answers with
  | nil =>
    intro msgs h
    cases h
    rfl
  | cons m rest ih =>
    intro msgs h
    rw [sanitizeResults] at h
    split at h
    · obtain ⟨later, inner, rfl⟩ := Option.map_eq_some_iff.mp h
      rw [List.map_cons, List.map_cons, ih inner]
    · split at h
      · obtain ⟨later, inner, rfl⟩ := Option.map_eq_some_iff.mp h
        rw [List.map_cons, List.map_cons, ih inner]
      · dsimp only at h
        split at h
        · cases h
        · obtain ⟨later, inner, rfl⟩ := Option.map_eq_some_iff.mp h
          rw [List.map_cons, List.map_cons, ih inner]

/-- The answers and the messages for skipped calls close a batch. -/
theorem answeredOnce_of_results {calls : List ToolCall} {p : Progress}
    {answers msgs : List ToolMessage} {u : Update} (distinct : DistinctIds calls)
    (carried : Carried calls p)
    (ids : msgs.map (·.toolCallId) = (answers ++ p.sandboxMessages).map (·.toolCallId))
    (replies : u.messages = some (msgs.map .tool)) :
    AnsweredOnce calls u ↔
      (∀ id, some id ∈ p.approvedTcIds → (answers.map (·.toolCallId)).count id = 1) ∧
        ∀ id ∈ p.sandboxMessages.map (·.toolCallId),
          (answers.map (·.toolCallId)).count id = 0 := by
  have nodup := carried.ids.nodup_iff.mpr distinct.nodup
  obtain ⟨-, skippedNodup, apart⟩ := List.nodup_append.mp nodup
  have skippedIds : (p.sandboxMessages.map (·.toolCallId)).Nodup := by
    have same : p.sandboxMessages.map (some ·.toolCallId) =
        (p.sandboxMessages.map (·.toolCallId)).map some := by rw [List.map_map]; rfl
    rw [same] at skippedNodup
    exact skippedNodup.of_map _
  have total : ∀ id, u.replyIds.count id = (answers.map (·.toolCallId)).count id +
      (p.sandboxMessages.map (·.toolCallId)).count id := fun id => by
    rw [replyIds_of_tools replies, ids, List.map_append, List.count_append]
  have ofSkipped : ∀ id ∈ p.sandboxMessages.map (·.toolCallId),
      (p.sandboxMessages.map (·.toolCallId)).count id = 1 := fun id h =>
    List.count_eq_one_of_mem skippedIds h
  have some_skipped : ∀ id ∈ p.sandboxMessages.map (·.toolCallId),
      some id ∈ p.sandboxMessages.map (some ·.toolCallId) := fun id h => by
    obtain ⟨m, hm, rfl⟩ := List.mem_map.mp h
    exact List.mem_map_of_mem hm
  have ofApproved : ∀ id, some id ∈ p.approvedTcIds →
      (p.sandboxMessages.map (·.toolCallId)).count id = 0 := fun id h =>
    List.count_eq_zero.mpr fun mem => apart _ h _ (some_skipped id mem) rfl
  have call_of : ∀ x, x ∈ p.approved.map (·.tcId) ++ p.sandboxMessages.map (some ·.toolCallId) →
      ∃ tc ∈ calls, tc.tcId = x := fun x h => List.mem_map.mp (carried.ids.mem_iff.mp h)
  refine ⟨?_, ?_⟩
  · intro answered
    refine ⟨?_, ?_⟩
    · intro id approved
      obtain ⟨tc, htc, at_tc⟩ := call_of _ (List.mem_append_left _ approved)
      have once := answered tc htc id at_tc
      rw [total, ofApproved id approved] at once
      exact once
    · intro id skipped
      obtain ⟨tc, htc, at_tc⟩ :=
        call_of _ (List.mem_append_right _ (some_skipped id skipped))
      have once := answered tc htc id at_tc
      rw [total, ofSkipped id skipped] at once
      omega
  · rintro ⟨approved, skipped⟩ tc htc id at_tc
    rw [total]
    have mem : some id ∈ p.approved.map (·.tcId) ++ p.sandboxMessages.map (some ·.toolCallId) :=
      carried.ids.mem_iff.mpr (at_tc ▸ List.mem_map_of_mem htc)
    rcases List.mem_append.mp mem with h | h
    · rw [approved id h, ofApproved id h]
    · obtain ⟨m, hm, eq⟩ := List.mem_map.mp h
      have h : id ∈ p.sandboxMessages.map (·.toolCallId) :=
        List.mem_map.mpr ⟨m, hm, Option.some.inj eq⟩
      rw [skipped id h, ofSkipped id h]

theorem any_unexpectedId {p : Progress} {answers : List ToolMessage} :
    answers.any (unexpectedId p) = false ↔
      ∀ id ∈ answers.map (·.toolCallId), id ≠ "" →
        some id ∈ p.approvedTcIds ∨ id ∈ p.sandboxMessages.map (·.toolCallId) := by
  rw [List.any_eq_false]
  simp only [List.mem_map, forall_exists_index, and_imp, forall_apply_eq_imp_iff₂]
  refine forall₂_congr fun m _ => ?_
  simp only [unexpectedId, ne_eq, Bool.and_eq_true, decide_eq_true_eq, Bool.not_eq_true',
    List.contains_eq_mem, decide_eq_false_iff_not, not_and, not_not]
  simp only [List.mem_map]
  tauto

/-- What executing leaves answered, by what the loop carried to it. -/
theorem executeApproved_answered {calls : List ToolCall} {p : Progress}
    {inner : Option (List ToolMessage)} {u : Update} (distinct : DistinctIds calls)
    (carried : Carried calls p)
    (returned : (executeApproved env calls p inner).outcome = .returned u) :
    AnsweredOnce calls u ↔ p.approved = [] ∨ ∀ answers, inner = some answers →
      (∀ id ∈ answers.map (·.toolCallId), id ≠ "" →
          some id ∈ p.approvedTcIds ∨ id ∈ p.sandboxMessages.map (·.toolCallId)) ∧
        (sanitizeResults env p.sandboxMessages (answers ++ p.sandboxMessages) = none ∨
          (∀ id, some id ∈ p.approvedTcIds → (answers.map (·.toolCallId)).count id = 1) ∧
            ∀ id ∈ p.sandboxMessages.map (·.toolCallId),
              (answers.map (·.toolCallId)).count id = 0) := by
  unfold executeApproved at returned
  dsimp only at returned
  split at returned
  · next none =>
    -- every call was skipped
    have none := List.isEmpty_iff.mp none
    have perm : (p.approved.map (·.tcId) ++ u.replyIds.map some).Perm
        (calls.map (·.tcId)) := by
      cases returned
      rw [replyIds_of_tools rfl, List.map_map]
      exact carried.ids
    have all := answeredOnce_iff_of_perm (by rw [List.append_nil]; exact distinct) perm
    rw [List.append_nil] at all
    exact iff_of_true (all.mpr ⟨by rw [none]; rfl, rfl⟩) (.inl none)
  · next someApproved =>
    have someApproved : p.approved ≠ [] := fun none => someApproved (by rw [none]; rfl)
    have someCall : calls ≠ [] := fun none => by
      have ids := carried.ids
      rw [none] at ids
      exact someApproved
        (List.map_eq_nil_iff.mp (List.append_eq_nil_iff.mp ids.eq_nil).1)
    rw [or_iff_right someApproved]
    split at returned
    · cases returned
    · next answers =>
      simp only [Option.some.injEq, forall_eq']
      split at returned
      · next foreign =>
        -- an unexpected id: nothing is answered
        cases returned
        refine iff_of_false (not_answeredOnce_of_silent distinct someCall rfl) fun h => ?_
        rw [any_unexpectedId.mpr h.1] at foreign
        cases foreign
      · next known =>
        rw [Bool.not_eq_true, any_unexpectedId] at known
        rw [and_iff_right known]
        split at returned
        · next msgs sanitized =>
          cases returned
          rw [answeredOnce_of_results distinct carried (sanitizeResults_ids sanitized) rfl,
            sanitized]
          simp only [reduceCtorEq, false_or]
        · next halt =>
          split at returned
          · cases returned
          · next msgs replaced =>
            cases returned
            exact iff_of_true (answeredOnce_of_haltMessages distinct replaced rfl)
              (.inl halt)

/-- For every batch of distinct ids, every combination of verdicts and every answer
of the inner node: a return answers each call exactly once, if and only if what the
batch meets closes it. A pause for review is one of the returns that do not. -/
theorem answered_once_iff (env : Env) (toolNames : List String) (threadId : Option String)
    (v : Verdicts) (s : AgentState) (inner : Option (List ToolMessage)) (u : Update)
    (distinct : DistinctIds s.toolCalls)
    (returned : (secureToolNode env toolNames threadId v s inner).outcome = .returned u) :
    AnsweredOnce s.toolCalls u ↔ BatchCloses env toolNames threadId v s inner := by
  have distinct := @distinctIds_batch toolNames s distinct
  have closes := @checkCalls_closes env toolNames threadId v s _ distinct
    (batch toolNames s) [] 0 { sequenceSoFar := s.sequenceSoFar } rfl ⟨rfl, .refl _⟩
  have spec := @checkCalls_spec env toolNames threadId v s (batch toolNames s)
    (batch toolNames s) 0 { sequenceSoFar := s.sequenceSoFar }
  rw [@answeredOnce_batch toolNames]
  unfold secureToolNode at returned
  dsimp only at returned
  rw [show s.toolCalls.map (normaliseCall toolNames) = batch toolNames s from rfl] at returned
  unfold BatchCloses
  dsimp only
  generalize checkCalls env toolNames threadId v s (batch toolNames s) 0
    (batch toolNames s) { sequenceSoFar := s.sequenceSoFar } = loop at closes spec returned
  obtain ⟨events, checked⟩ := loop
  cases closes with
  | raised => cases returned
  | halted answered =>
    cases returned
    cases spec with
    | stopped off =>
      rw [answered, if_neg (by rw [off]; exact Bool.false_ne_true)]
      rfl
  | @done p carried skipped =>
    cases spec with
    | stopped _ h => exact absurd rfl (h p)
    | done on approved _ =>
      rw [List.nil_append] at approved skipped
      rw [if_pos on, executeApproved_answered distinct carried returned,
        Progress.approvedTcIds, approved, skipped]
      exact Iff.rfl

end

/-! ## Two calls of the observer -/

def pairedCalls : List ToolCall :=
  [{ id := some (some "call_0"), name := "read_tool_call_history", args := [] },
    { id := some (some "call_1"), name := "nominate_candidate", args := [] }]

def tokenDenies : Verdicts := { skipSecond with acl := fun _ _ => false }

/-- The task token denies the first call. -/
theorem answered_once_denied :
    ∃ u, (secureToolNode sampleEnv ["read_tool_call_history", "nominate_candidate"] none
        tokenDenies (sampleState pairedCalls) (some [])).outcome = .returned u ∧
      (AnsweredOnce (sampleState pairedCalls).toolCalls u ↔
        BatchCloses sampleEnv ["read_tool_call_history", "nominate_candidate"] none
          tokenDenies (sampleState pairedCalls) (some [])) :=
  ⟨_, rfl, answered_once_iff _ _ _ _ _ _ _ ⟨["call_0", "call_1"], rfl, by decide⟩ rfl⟩

def firstFails : Verdicts := { skipSecond with registry := fun i _ => i != 0 }

/-- The registry fails the first of two calls, which alone is answered. -/
theorem second_call_unanswered :
    DistinctIds (sampleState pairedCalls).toolCalls ∧
      ∃ u, (secureToolNode sampleEnv ["read_tool_call_history", "nominate_candidate"] none
          firstFails (sampleState pairedCalls) (some [])).outcome = .returned u ∧
        u.hitlPending ≠ some true ∧ ¬ AnsweredOnce (sampleState pairedCalls).toolCalls u := by
  refine ⟨⟨["call_0", "call_1"], rfl, by decide⟩, _, rfl, by decide, fun answered => ?_⟩
  have once := answered _ (List.mem_cons_of_mem _ List.mem_cons_self) "call_1" rfl
  revert once
  decide +kernel

end LegionForge.Agent
