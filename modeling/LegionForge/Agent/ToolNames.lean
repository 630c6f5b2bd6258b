import LegionForge.Agent.ArgumentScan
import Mathlib.Data.List.Nodup

/-!
# The name that is checked and the name that is executed

A model may drop the underscores of a tool's name, so the node looks names up in
a map from stripped names to tools: once when it rewrites the message it hands
on, and once more for every call before the registry, the task token and the
Guardian are asked. The two lookups read different copies of the call. Where the
stripped names of the tools are distinct the lookup fixes what it returns, so the
outer checks are asked about the names of the message that the inner node gets and
about no others (`checked_name_is_executed`), and a call that uses a tool's own name
keeps it.
-/

namespace LegionForge.Agent

open JsonText Security

section
variable (env : Env) (toolNames : List String) (threadId : Option String)
variable (v : Verdicts) (s : AgentState)

/-! ## The rewrite -/

/-- `name in self._alias_map` -/
def inAliasMap (name : String) : Bool :=
  toolNames.any fun n => stripUnderscores n = name

/-- The calls of the last message as they are handed on; the message is left
alone when none of its names is in the map (`needs_rewrite`). -/
def rewrittenCalls (calls : List ToolCall) : List ToolCall :=
  if calls.any fun tc => inAliasMap toolNames tc.name then
    calls.map (normaliseCall toolNames)
  else calls

variable {toolNames}

theorem stripUnderscores_idem (name : String) :
    stripUnderscores (stripUnderscores name) = stripUnderscores name := by
  simp [stripUnderscores, List.filter_filter]

theorem canonicalName_of_not_alias {name : String} (h : inAliasMap toolNames name = false) :
    canonicalName toolNames name = name := by
  have none : toolNames.reverse.find? (fun n => stripUnderscores n = name) = none := by
    rw [List.find?_eq_none]
    intro n mem
    exact List.any_eq_false.mp h n (List.mem_reverse.mp mem)
  rw [canonicalName, none, Option.getD_none]

theorem canonicalName_of_alias {name : String} (h : inAliasMap toolNames name = true) :
    canonicalName toolNames name ∈ toolNames ∧
      stripUnderscores (canonicalName toolNames name) = name := by
  obtain ⟨n, mem, strip⟩ := List.any_eq_true.mp h
  have found : (toolNames.reverse.find? fun n => stripUnderscores n = name).isSome = true :=
    List.find?_isSome.mpr ⟨n, List.mem_reverse.mpr mem, strip⟩
  obtain ⟨m, hm⟩ := Option.isSome_iff_exists.mp found
  have eq : canonicalName toolNames name = m := by
    rw [canonicalName, hm, Option.getD_some]
  rw [eq]
  have strip : decide (stripUnderscores m = name) = true :=
    @List.find?_some _ (fun n => decide (stripUnderscores n = name)) m _ hm
  exact ⟨List.mem_reverse.mp (List.mem_of_find?_eq_some hm), of_decide_eq_true strip⟩

/-- The rewrite would change nothing about a message it skips. -/
theorem rewrittenCalls_eq (calls : List ToolCall) :
    rewrittenCalls toolNames calls = calls.map (normaliseCall toolNames) := by
  unfold rewrittenCalls
  split
  · rfl
  · next h =>
    rw [Bool.not_eq_true] at h
    have same : ∀ tc ∈ calls, normaliseCall toolNames tc = tc := by
      intro tc mem
      have free : inAliasMap toolNames tc.name = false := by
        simpa using List.any_eq_false.mp h tc mem
      rw [normaliseCall, canonicalName_of_not_alias free]
    rw [List.map_congr_left same, List.map_id']

/-! ## Distinct stripped names -/

section
variable (distinct : (toolNames.map stripUnderscores).Nodup)
include distinct

theorem eq_of_strip_eq {m n : String} (hm : m ∈ toolNames) (hn : n ∈ toolNames)
    (h : stripUnderscores m = stripUnderscores n) : m = n :=
  List.inj_on_of_nodup_map distinct hm hn h

/-- A tool's own name is not taken for another tool's. -/
theorem canonicalName_of_mem {name : String} (mem : name ∈ toolNames) :
    canonicalName toolNames name = name := by
  cases known : inAliasMap toolNames name with
  | false => exact canonicalName_of_not_alias known
  | true =>
    obtain ⟨tool, strip⟩ := canonicalName_of_alias known
    refine eq_of_strip_eq distinct tool mem ?_
    -- the name has no underscores, being another name stripped of them
    calc stripUnderscores (canonicalName toolNames name) = name := strip
      _ = stripUnderscores (canonicalName toolNames name) := strip.symm
      _ = stripUnderscores (stripUnderscores (canonicalName toolNames name)) :=
        (stripUnderscores_idem _).symm
      _ = stripUnderscores name := by rw [strip]

/-- Looking a name up again finds what the first lookup found. -/
theorem canonicalName_idem (name : String) :
    canonicalName toolNames (canonicalName toolNames name) =
      canonicalName toolNames name := by
  cases known : inAliasMap toolNames name with
  | false => rw [canonicalName_of_not_alias known, canonicalName_of_not_alias known]
  | true => exact canonicalName_of_mem distinct (canonicalName_of_alias known).1

/-- The second lookup finds the name that the first one has put into the message. -/
theorem canonicalName_of_batch {tc : ToolCall} (mem : tc ∈ batch toolNames s) :
    canonicalName toolNames tc.name = tc.name := by
  obtain ⟨raw, -, rfl⟩ := List.mem_map.mp mem
  exact canonicalName_idem distinct raw.name

end

/-! ## What the node asks -/

/-- The outside answers alike about every call of the message under the name it has
there, and possibly otherwise about other names. -/
structure Verdicts.AgreeOn (v v' : Verdicts) (message : List ToolCall) : Prop where
  registry : ∀ i tc, message[i]? = some tc → v'.registry i tc.name = v.registry i tc.name
  acl : ∀ i tc, message[i]? = some tc → v'.acl i tc.name = v.acl i tc.name
  guardian : ∀ i tc, message[i]? = some tc → v'.guardian i tc.name = v.guardian i tc.name
  url : v'.url = v.url
  hitlInsert : v'.hitlInsert = v.hitlInsert

/-- No outer check refuses the name at this position; the Guardian may have it skipped. -/
structure Verdicts.Admits (v : Verdicts) (i : Nat) (name : String) : Prop where
  registry : v.registry i name = true
  acl : v.acl i name = true
  guardian : (v.guardian i name).allowed = true ∨ (v.guardian i name).tier = .sandbox

variable {env threadId v s} {v' : Verdicts}

/-- The arguments are none of the outer checks' business. -/
theorem checkArgs_congr (url : v'.url = v.url) (hitlInsert : v'.hitlInsert = v.hitlInsert)
    (i : Nat) (toolId : String) (args : List (String × Json)) :
    checkArgs env threadId v' s i toolId args = checkArgs env threadId v s i toolId args := by
  have string (name text : String) : checkString env threadId v' s i toolId name text =
      checkString env threadId v s i toolId name text := by
    simp only [checkString, checkDestructive, url, hitlInsert]
  induction args with
  | nil => rfl
  | cons arg rest ih =>
    obtain ⟨name, value⟩ := arg
    cases value with
    | str text => simp only [checkArgs, string, ih]
    | _ => exact ih

theorem checkCall_congr {message : List ToolCall} (agree : v.AgreeOn v' message) {i : Nat}
    {tc : ToolCall} (at_ : message[i]? = some tc)
    (named : canonicalName toolNames tc.name = tc.name) :
    checkCall env toolNames threadId v' s i tc = checkCall env toolNames threadId v s i tc := by
  unfold checkCall
  dsimp only
  rw [named, agree.registry i tc at_, agree.acl i tc at_, agree.guardian i tc at_]
  simp only [checkArgs_congr agree.url agree.hitlInsert]

/-- The loop asks about nothing but the names in the message. -/
theorem checkCalls_congr {message : List ToolCall} (agree : v.AgreeOn v' message)
    (named : ∀ tc ∈ message, canonicalName toolNames tc.name = tc.name)
    (calls : List ToolCall) : ∀ (rest : List ToolCall) (i : Nat) (p : Progress),
    (∀ c ∈ rest.zipIdx i, message[c.2]? = some c.1) →
    checkCalls env toolNames threadId v' s calls i rest p =
      checkCalls env toolNames threadId v s calls i rest p := by
  intro rest
  induction rest with
  | nil => intro i p _; rfl
  | cons tc rest ih =>
    intro i p placed
    rw [List.zipIdx_cons] at placed
    have at_ := placed (tc, i) List.mem_cons_self
    have later := fun q => ih (i + 1) q fun c hc => placed c (List.mem_cons_of_mem _ hc)
    rw [checkCalls, checkCalls, checkCall_congr agree at_ (named tc (List.mem_of_getElem? at_))]
    simp only [later]

/-- A call that the loop goes past was put to all outer checks, under its canonical name,
and none refused it. -/
theorem asked_of_goesOn {i : Nat} {tc : ToolCall}
    (on : goesOn env toolNames threadId v s i tc = true) :
    outerChecks i (canonicalName toolNames tc.name) ⊆
        (checkCall env toolNames threadId v s i tc).1 ∧
      v.Admits i (canonicalName toolNames tc.name) := by
  have went : (verdictAt env toolNames threadId v s i tc).isApproved = true ∨
      (verdictAt env toolNames threadId v s i tc).isSandboxed = true := by
    rw [goesOn, Bool.or_eq_true, Bool.and_eq_true] at on
    exact on.imp_right And.left
  unfold verdictAt at went
  unfold checkCall at went ⊢
  dsimp only at went ⊢
  split at went
  · rcases went with h | h <;> cases h
  · next registry =>
    rw [if_neg registry]
    split at went
    · rcases went with h | h <;> cases h
    · next acl =>
      rw [if_neg acl]
      simp only [Bool.not_eq_true, Bool.not_eq_false'] at registry acl
      split at went
      · next refused =>
        rw [if_pos refused]
        split at went
        · next skipped =>
          rw [if_pos skipped]
          exact ⟨List.Subset.refl _, registry, acl, .inr skipped⟩
        · rcases went with h | h <;> cases h
      · next guardian =>
        rw [if_neg guardian]
        rw [Bool.not_eq_true, Bool.not_eq_false'] at guardian
        refine ⟨?_, registry, acl, .inl guardian⟩
        split
        · exact List.Subset.refl _
        · split <;> exact List.subset_append_left (outerChecks i _) _

/-- Every question that is asked is one about a call of the batch under its canonical
name. -/
theorem asked_in_batch {inner : Option (List ToolMessage)} {check : ToolCheck} {i : Nat}
    {name : String}
    (mem : .toolCheck check i name ∈ (secureToolNode env toolNames threadId v s inner).events) :
    ∃ c : ToolCall × Nat, (batch toolNames s)[c.2]? = some c.1 ∧
      (i, name) = (c.2, canonicalName toolNames c.1.name) := by
  have inLoop : .toolCheck check i name ∈
      (checkCalls env toolNames threadId v s (batch toolNames s) 0 (batch toolNames s)
        { sequenceSoFar := s.sequenceSoFar }).1 := by
    obtain ⟨events, loop, -, ⟨-, out⟩ | ⟨p, -, -, -, out⟩⟩ :=
      @secureToolNode_events env toolNames threadId v s inner
    · rwa [out, loop] at mem
    · rw [out, executeApproved_events, loop] at mem
      refine (List.mem_append.mp mem).resolve_right fun executed => ?_
      split at executed <;> simp at executed
  obtain ⟨c, hc, he⟩ := mem_checkCalls_events _ _ _ _ _ inLoop
  refine ⟨c, List.mem_zipIdx_iff_getElem?.mp hc, ?_⟩
  rcases checkCall_checksOf c.2 c.1 _ he with outer | own
  · obtain ⟨check', same⟩ := mem_outerChecks.mp outer
    cases same
    rfl
  · cases own

/-- What is handed on comes out of a batch that went through, in its order. -/
theorem handed_of_batch {inner : Option (List ToolMessage)} :
    (secureToolNode env toolNames threadId v s inner).handed.Sublist (batch toolNames s) ∧
      ((secureToolNode env toolNames threadId v s inner).handed ≠ [] →
        batchGoesOn env toolNames threadId v s 0 (batch toolNames s) = true) := by
  rw [secureToolNode_handed]
  split
  · next on => exact ⟨List.filter_sublist, fun _ => on⟩
  · exact ⟨List.nil_sublist _, fun some => absurd rfl some⟩

/-- For every tool set whose names stay distinct without their underscores and every
batch: each name that the registry, the task token or the Guardian is asked about is the
name of that call in the message the inner node gets, and what they would answer about
any other name makes no difference; the calls executed are calls of that message, each
call of which has been put to all three under its name there before, and none has refused
it; and a call under a tool's own name is not redirected. -/
theorem checked_name_is_executed (distinct : (toolNames.map stripUnderscores).Nodup)
    (inner : Option (List ToolMessage)) :
    let message := rewrittenCalls toolNames s.toolCalls
    let run := secureToolNode env toolNames threadId v s inner
    (∀ check i name, .toolCheck check i name ∈ run.events →
        ∃ tc, message[i]? = some tc ∧ tc.name = name) ∧
      (∀ v' : Verdicts, v.AgreeOn v' message →
        secureToolNode env toolNames threadId v' s inner = run) ∧
      run.handed.Sublist message ∧
      (run.handed ≠ [] → ∀ i tc, message[i]? = some tc →
        v.Admits i tc.name ∧
          ∀ check, .toolCheck check i tc.name ∈ run.events.takeWhile Event.isCheck) ∧
      ∀ (i : Nat) (tc : ToolCall), s.toolCalls[i]? = some tc → tc.name ∈ toolNames →
        message[i]? = some tc := by
  dsimp only
  rw [rewrittenCalls_eq]
  have named : ∀ tc ∈ batch toolNames s, canonicalName toolNames tc.name = tc.name :=
    fun tc mem => canonicalName_of_batch s distinct mem
  refine ⟨fun check i name mem => ?_, fun v' agree => ?_, handed_of_batch.1,
    fun handed i tc at_ => ?_, fun i tc at_ tool => ?_⟩
  · obtain ⟨c, hc, asked⟩ := asked_in_batch mem
    cases asked
    exact ⟨c.1, hc, (named c.1 (List.mem_of_getElem? hc)).symm⟩
  · have same : checkCalls env toolNames threadId v' s (batch toolNames s) 0 (batch toolNames s)
          { sequenceSoFar := s.sequenceSoFar } =
        checkCalls env toolNames threadId v s (batch toolNames s) 0 (batch toolNames s)
          { sequenceSoFar := s.sequenceSoFar } :=
      checkCalls_congr agree named _ _ 0 _ fun c hc => List.mem_zipIdx_iff_getElem?.mp hc
    unfold batch at same
    simp only [secureToolNode, same]
  · have on := handed_of_batch.2 handed
    have hc : (tc, i) ∈ (batch toolNames s).zipIdx := List.mem_zipIdx_iff_getElem?.mpr at_
    obtain ⟨asked, admits⟩ := asked_of_goesOn (List.all_eq_true.mp on (tc, i) hc)
    rw [named tc (List.mem_of_getElem? at_)] at asked admits
    refine ⟨admits, fun check => ?_⟩
    rw [secureToolNode_beforeExec]
    exact checkCalls_events_of_on _ _ 0 _ on (tc, i) hc _
      (asked (mem_outerChecks.mpr ⟨check, rfl⟩))
  · rw [List.getElem?_map, at_, Option.map_some, normaliseCall,
      canonicalName_of_mem distinct tool]

end

def strippedCalls : List ToolCall :=
  [{ id := some (some "call_0"), name := "readtoolcallhistory", args := [] },
    { id := some (some "call_1"), name := "nominate_candidate", args := [] }]

/-- A call that lost its underscores beside one that kept them: the Guardian is asked about
the tool's own name, under which the call is executed. -/
theorem stripped_call_checked_and_executed :
    let run := secureToolNode sampleEnv ["read_tool_call_history", "nominate_candidate"] none
      allowAll (sampleState strippedCalls) (some [])
    run.handed.map (·.name) = ["read_tool_call_history", "nominate_candidate"] ∧
      run.handed.Sublist
        (rewrittenCalls ["read_tool_call_history", "nominate_candidate"] strippedCalls) ∧
      .toolCheck .guardian 0 "read_tool_call_history" ∈ run.events.takeWhile Event.isCheck := by
  have names := @checked_name_is_executed sampleEnv
    ["read_tool_call_history", "nominate_candidate"] none allowAll (sampleState strippedCalls)
    (by decide) (some [])
  have first : canonicalName ["read_tool_call_history", "nominate_candidate"]
      "readtoolcallhistory" = "read_tool_call_history" := by decide +kernel
  refine ⟨by decide +kernel, names.2.2.1, ?_⟩
  refine (names.2.2.2.1 (by decide +kernel) 0
    { id := some (some "call_0"), name := "read_tool_call_history", args := [] } ?_).2 .guardian
  rw [rewrittenCalls_eq, ← first]
  rfl

end LegionForge.Agent
