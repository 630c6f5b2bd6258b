import LegionForge.Agent.FanOut
import LegionForge.Lib.Table

/-!
# The orchestrator's master token

The tools of the orchestrator read its master token, and the run id, from two
references of their module. `run_orchestrator` sets both when a run starts; the
worker starts runs without a token and sets neither. So a tool call derives from
the token of the run that was started last by `run_orchestrator`, whichever run
makes the call, and `master_isolation_iff` says when that is right.
-/

namespace LegionForge.Agent

open Security

section
variable (cfg : TokenSettings)

/-! ## Tokens -/

def orchestratorTools : List String := ["spawn_researcher", "fan_out_researchers"]

def researcherTools : List String :=
  ["web_search", "web_fetch", "document_summarize", "web_fetch_js", "memory_write",
    "memory_recall"]

/-- `_issue_master_token`: without the signing secret the run gets no token. `none`
where an expiry out of range raises. -/
def issueMasterToken (runId : String) (draw : IssueDraw) : Option (Option Jwt) :=
  if !draw.secretFound then some none
  else
    (issueTaskToken cfg "orchestrator" runId (some (orchestratorTools ++ researcherTools))
      (some ["documents"]) (some ["public", "internal"]) none none "deny" draw).map some

/-- What a researcher is derived a token for. -/
def researcherRequest : DeriveRequest where
  grantedTools := some researcherTools
  grantedDataClasses := some ["public"]
  ttlSeconds := none

/-- `_derive_researcher_token` -/
def deriveResearcherToken (masterJwt : Jwt) (draw : DeriveDraw) : Option Jwt :=
  deriveTaskToken cfg masterJwt researcherRequest draw

/-! ## Spawning -/

/-- What `_spawn_researcher_sub_agent` is called with. -/
structure Spawn where
  subTask : String
  derivedToken : Option Jwt

/-- What `run_researcher` comes back with. -/
inductive ResearcherAnswer where
  | dict (result : Option String) (sources steps errors : Nat)
  | raised (errorClass message : String)

/-- `s[:n]` -/
def firstChars (n : Nat) (s : String) : String := String.ofList (s.toList.take n)

/-- The text a researcher's answer is handed back as; `none` where slicing a
`None` raises. -/
def researchSummary : ResearcherAnswer → Option String
  | .dict result sources steps errors =>
    result.map fun result =>
      s!"Research complete ({steps} steps, {sources} sources" ++
        (if errors = 0 then "" else s!", {errors} errors") ++ "):\n" ++ firstChars 800 result
  | .raised errorClass message =>
    some (s!"[RESEARCHER ERROR] Sub-agent failed ({errorClass}): " ++
      firstChars 300 message ++ "\nThe orchestrator should report this error to the user " ++
      "and note that real-time data for this sub-task is unavailable.")

/-- The tool `spawn_researcher`, with what `_master_token_ref` holds. -/
def spawnResearcher (masterJwt : Option Jwt) (subTask : String) (draw : DeriveDraw)
    (answer : ResearcherAnswer) : List Spawn × Option String :=
  let derived :=
    match masterJwt with
    | none | some (.text "") => none
    | some master => deriveResearcherToken cfg master draw
  ([⟨subTask, derived⟩], researchSummary answer)

/-- `sub_tasks_json` as it is parsed, the entries by their `str`. -/
inductive SubTasksJson where
  | invalid (exc : String)
  | notArray
  | array (tasks : List String)

/-- The sub-tasks of a batch, or what the tool answers instead. -/
def SubTasksJson.branches : SubTasksJson → Except String (List SubTask)
  | .invalid exc => .error s!"[fan_out_researchers] Invalid JSON: {exc}"
  | .notArray | .array [] =>
    .error "[fan_out_researchers] Expected a non-empty JSON array of task strings."
  | .array tasks =>
    if 10 < tasks.length then
      .error "[fan_out_researchers] Maximum 10 tasks per fan-out batch."
    else .ok (tasks.mapIdx fun i task =>
      { taskId := s!"branch_{i}", task, grantedTools := researcherTools,
        grantedDataClasses := ["public"] })

def SubTaskResult.lines (r : SubTaskResult) : String :=
  if r.success then
    s!"\n[✓ {r.taskId}] " ++ firstChars 60 r.task ++ "\n  → " ++
      (firstChars 400 r.result).map fun c => if c = '\n' then ' ' else c
  else
    s!"\n[✗ {r.taskId}] " ++ firstChars 60 r.task ++ "\n  ERROR: " ++ r.error.getD "None"

def aggregateResults (results : List SubTaskResult) : String :=
  let n := results.length
  let ok := results.countP (·.success)
  let header := s!"Fan-out complete: {n} branches" ++
    (if ok < n then s!" ({ok} succeeded, {n - ok} failed)" else s!" ({ok} succeeded)")
  "\n".intercalate (header :: results.map (·.lines))

/-- The tool `fan_out_researchers`, with what the two references hold. -/
def fanOutResearchers (masterJwt : Option Jwt) (runId : String) (subTasks : SubTasksJson)
    (answers : Nat → RunnerCall → RunnerAnswer) (draws : Nat → DeriveDraw) :
    List Spawn × Option String :=
  match subTasks.branches with
  | .error message => ([], some message)
  | .ok tasks =>
    let results := fanOut cfg tasks masterJwt runId answers draws
    (results.map fun r => ⟨r.1.task, r.1.token⟩, some (aggregateResults (results.map (·.2))))

/-! ## Runs in one process -/

structure OrchestratorRun where
  runId : String
  masterToken : Option Jwt

/-- `_master_token_ref`, `_run_id_ref`, and the runs that were started. -/
structure OrchestratorProcess where
  masterTokenRef : Option Jwt
  runIdRef : String
  runs : Table OrchestratorRun.runId

def OrchestratorProcess.start : OrchestratorProcess := ⟨none, "unknown", .empty⟩

/-- A run is started, or a tool call of a run is made. A call reads the references
before it suspends, and its branches derive from what it read. -/
inductive OrchestratorAction where
  | runOrchestrator (runId : String) (draw : IssueDraw)
  | streamAgent (runId : String)
  | spawnResearcher (runId subTask : String) (draw : DeriveDraw) (answer : ResearcherAnswer)
  | fanOutResearchers (runId : String) (subTasks : SubTasksJson)
      (answers : Nat → RunnerCall → RunnerAnswer) (draws : Nat → DeriveDraw)

def OrchestratorAction.runId : OrchestratorAction → String
  | .runOrchestrator runId _ | .streamAgent runId | .spawnResearcher runId ..
  | .fanOutResearchers runId .. => runId

/-- What each derivation of a tool call meets. -/
def OrchestratorAction.draws : OrchestratorAction → List DeriveDraw
  | .spawnResearcher _ _ draw _ => [draw]
  | .fanOutResearchers _ subTasks _ draws =>
    match subTasks.branches with
    | .error _ => []
    | .ok tasks => tasks.zipIdx.map fun t => draws t.2
  | _ => []

/-- The run's tools are called with what the references hold; `uuid4` draws no run
id that is taken. -/
def OrchestratorProcess.step (s : OrchestratorProcess) :
    OrchestratorAction → Option (OrchestratorProcess × List Spawn × Option String)
  | .runOrchestrator runId draw =>
    (issueMasterToken cfg runId draw).bind fun masterToken =>
      (s.runs.insert ⟨runId, masterToken⟩).map fun runs =>
        (⟨masterToken, runId, runs⟩, [], none)
  | .streamAgent runId =>
    (s.runs.insert ⟨runId, none⟩).map fun runs => ({ s with runs }, [], none)
  | .spawnResearcher runId subTask draw answer =>
    (s.runs.get runId).map fun _ =>
      (s, spawnResearcher cfg s.masterTokenRef subTask draw answer)
  | .fanOutResearchers runId subTasks answers draws =>
    (s.runs.get runId).map fun _ =>
      (s, fanOutResearchers cfg s.masterTokenRef s.runIdRef subTasks answers draws)

def orchestrators :
    Machine OrchestratorProcess OrchestratorAction (List Spawn × Option String) where
  step s a := s.step cfg a

abbrev OrchestratorStep :=
  Machine.Entry OrchestratorProcess OrchestratorAction (List Spawn × Option String)

/-! ## Isolation -/

/-- The token is one that some request gets from the master. -/
def DerivedFrom (master child : Jwt) : Prop :=
  ∃ request draw, deriveTaskToken cfg master request draw = some child

/-- The token is derived from the master token of the run, and from no other's. -/
def OfRun (runs : Table OrchestratorRun.runId) (runId : String) (child : Jwt) : Prop :=
  (∃ run ∈ runs.rows, run.runId = runId ∧
      ∃ master, run.masterToken = some master ∧ DerivedFrom cfg master child) ∧
    ∀ other ∈ runs.rows, other.runId ≠ runId →
      ∀ master, other.masterToken = some master → ¬ DerivedFrom cfg master child

/-- Every token that the call spawns with is its own run's. -/
def Isolated (x : OrchestratorStep) : Prop :=
  ∀ spawn ∈ x.label.1, ∀ child, spawn.derivedToken = some child →
    OfRun cfg x.before.runs x.input.runId child

/-- The token passes at the call, and has a second left. -/
def Usable (master : Jwt) (draw : DeriveDraw) : Prop :=
  ∃ parent ttl, validateTaskToken cfg draw.secretFound draw.validatedAt master = some parent ∧
    childTtl cfg parent.expiresAt none draw.now = some ttl ∧ 0 < ttl ∧
    draw.issueSecretFound = true ∧ (addSeconds draw.issuedAt ttl).isSome = true

/-- The references are those of the calling run, or hold no token that can be used. -/
def ReadsOwn (x : OrchestratorStep) : Prop :=
  x.before.runIdRef = x.input.runId ∨
    ∀ master, x.before.masterTokenRef = some master →
      ∀ draw ∈ x.input.draws, ¬ Usable cfg master draw

variable {cfg}

/-! ## What is derived -/

/-- What `_issue_master_token` signs for a run. -/
structure MasterOf (cfg : TokenSettings) (runId : String) (master : Jwt) (p : Payload) :
    Prop where
  signed : master = .signed p cfg.secret
  runId : p.runId = runId
  tools : p.grantedTools = some (orchestratorTools ++ researcherTools)
  classes : p.grantedDataClasses = ["public", "internal"]

theorem issueMasterToken_eq_some {runId : String} {draw : IssueDraw} {master : Jwt}
    (h : issueMasterToken cfg runId draw = some (some master)) :
    ∃ p, MasterOf cfg runId master p := by
  unfold issueMasterToken at h
  split at h
  · cases h
  · next found =>
    obtain ⟨token, issued, same⟩ := Option.map_eq_some_iff.mp h
    cases same
    rw [issueTaskToken, if_neg found] at issued
    obtain ⟨_, -, rfl⟩ := Option.map_eq_some_iff.mp issued
    exact ⟨_, rfl, rfl, rfl, rfl⟩

/-- A child keeps the run id of its master, which tells the masters apart. -/
theorem DerivedFrom.runId_eq {runId otherId : String} {master other child : Jwt}
    {p q : Payload} (at_p : MasterOf cfg runId master p) (at_q : MasterOf cfg otherId other q)
    (of_p : DerivedFrom cfg master child) (of_q : DerivedFrom cfg other child) :
    runId = otherId := by
  obtain ⟨_, _, derived⟩ := of_p
  obtain ⟨_, _, derived'⟩ := of_q
  obtain ⟨p', c, same, rfl, narrows, -⟩ := deriveTaskToken_spec derived
  obtain ⟨q', c', same', sameChild, narrows', -⟩ := deriveTaskToken_spec derived'
  rw [at_p.signed] at same
  rw [at_q.signed] at same'
  cases same
  cases same'
  cases sameChild
  calc runId = p.runId := at_p.runId.symm
    _ = c.runId := narrows.runId.symm
    _ = q.runId := narrows'.runId
    _ = otherId := at_q.runId

/-- A researcher's token is derived exactly while the master token can be used. -/
theorem derive_iff_usable {runId : String} {master : Jwt} {p : Payload}
    (of_ : MasterOf cfg runId master p) (draw : DeriveDraw) :
    (∃ child, deriveResearcherToken cfg master draw = some child) ↔
      Usable cfg master draw := by
  unfold deriveResearcherToken deriveTaskToken Usable
  refine ⟨?_, ?_⟩
  · rintro ⟨child, h⟩
    obtain ⟨parent, valid, h⟩ := Option.bind_eq_some_iff.mp h
    split at h
    · cases h
    · split at h
      · cases h
      · obtain ⟨ttl, capped, h⟩ := Option.bind_eq_some_iff.mp h
        split at h
        · cases h
        · next left =>
          unfold issueTaskToken at h
          split at h
          · cases h
          · next found =>
            obtain ⟨expiresAt, sum, -⟩ := Option.map_eq_some_iff.mp h
            exact ⟨parent, ttl, valid, capped, by omega, by simpa using found,
              Option.isSome_iff_exists.mpr ⟨expiresAt, sum⟩⟩
  · rintro ⟨parent, ttl, valid, capped, left, found, sum⟩
    obtain ⟨payload, -, decoded, -, rfl⟩ := validateTaskToken_eq_some valid
    obtain ⟨same, -⟩ := decode_eq_some decoded
    rw [of_.signed] at same
    cases same
    obtain ⟨expiresAt, sum⟩ := Option.isSome_iff_exists.mp sum
    have tools : withinScope researcherRequest.grantedTools p.token.grantedTools = true := by
      rw [show p.token.grantedTools = _ from of_.tools]
      decide
    have classes : withinScope researcherRequest.grantedDataClasses
        (some p.token.grantedDataClasses) = true := by
      rw [show p.token.grantedDataClasses = _ from of_.classes]
      decide
    have capped : childTtl cfg p.token.expiresAt researcherRequest.ttlSeconds draw.now =
        some ttl := capped
    rw [valid, Option.bind_some, tools, classes, capped, Option.bind_some]
    simp [issueTaskToken, found, sum, show ttl ≠ 0 by omega]

theorem branches_request {subTasks : SubTasksJson} {tasks : List SubTask}
    (h : subTasks.branches = .ok tasks) {t : SubTask} (ht : t ∈ tasks) :
    t.request = researcherRequest := by
  unfold SubTasksJson.branches at h
  split at h
  · cases h
  · cases h
  · cases h
  · split at h
    · cases h
    · cases h
      obtain ⟨i, _, rfl⟩ := List.mem_mapIdx.mp ht
      rfl

/-- The tokens of a tool call are those its derivations get from the reference. -/
theorem spawned_iff {x : OrchestratorStep} (h : (orchestrators cfg).Steps x) {child : Jwt} :
    (∃ spawn ∈ x.label.1, spawn.derivedToken = some child) ↔
      ∃ master, x.before.masterTokenRef = some master ∧
        ∃ draw ∈ x.input.draws, deriveResearcherToken cfg master draw = some child := by
  obtain ⟨s, a, label, s'⟩ := x
  have h : s.step cfg a = some (s', label) := h
  cases a with
  | runOrchestrator runId draw =>
    obtain ⟨_, -, h⟩ := Option.bind_eq_some_iff.mp h
    obtain ⟨_, -, same⟩ := Option.map_eq_some_iff.mp h
    cases same
    simp [OrchestratorAction.draws]
  | streamAgent runId =>
    obtain ⟨_, -, same⟩ := Option.map_eq_some_iff.mp h
    cases same
    simp [OrchestratorAction.draws]
  | spawnResearcher runId subTask draw answer =>
    obtain ⟨_, -, same⟩ := Option.map_eq_some_iff.mp h
    cases same
    simp only [spawnResearcher, List.mem_singleton, exists_eq_left, OrchestratorAction.draws]
    split
    · next none => simp [none]
    · next text => simp [text, deriveResearcherToken, deriveTaskToken, validateTaskToken, decode]
    · next master _ at_ => simp [at_]
  | fanOutResearchers runId subTasks answers draws =>
    obtain ⟨_, -, same⟩ := Option.map_eq_some_iff.mp h
    cases same
    simp only [fanOutResearchers, OrchestratorAction.draws]
    split
    · simp
    · next tasks accepted =>
      have asks : ∀ t ∈ tasks.zipIdx, t.1.request = researcherRequest := fun t ht =>
        branches_request accepted (List.fst_mem_of_mem_zipIdx ht)
      refine ⟨?_, ?_⟩
      · rintro ⟨spawn, hspawn, derived⟩
        obtain ⟨branch, hbranch, rfl⟩ := List.mem_map.mp hspawn
        obtain ⟨t, ht, rfl⟩ := List.mem_map.mp hbranch
        obtain ⟨master, at_, derived⟩ := Option.bind_eq_some_iff.mp derived
        rw [asks t ht] at derived
        exact ⟨master, at_, draws t.2, List.mem_map.mpr ⟨t, ht, rfl⟩, derived⟩
      · rintro ⟨master, at_, draw, hdraw, derived⟩
        obtain ⟨t, ht, rfl⟩ := List.mem_map.mp hdraw
        refine ⟨_, List.mem_map.mpr ⟨_, List.mem_map.mpr ⟨t, ht, rfl⟩, rfl⟩, ?_⟩
        refine Option.bind_eq_some_iff.mpr ⟨master, at_, ?_⟩
        rw [asks t ht]
        exact derived

/-! ## Whose token the reference holds -/

structure MasterConsistent (cfg : TokenSettings) (s : OrchestratorProcess) : Prop where
  /-- The token in the reference is that of the run in the other. -/
  ref : ∀ master, s.masterTokenRef = some master →
    ⟨s.runIdRef, some master⟩ ∈ s.runs.rows
  issued : ∀ run ∈ s.runs.rows, ∀ master, run.masterToken = some master →
    ∃ p, MasterOf cfg run.runId master p

theorem masterConsistent_of_step {x : OrchestratorStep} (h : (orchestrators cfg).Steps x)
    (c : MasterConsistent cfg x.before) : MasterConsistent cfg x.after := by
  obtain ⟨s, a, label, s'⟩ := x
  have h : s.step cfg a = some (s', label) := h
  cases a with
  | runOrchestrator runId draw =>
    obtain ⟨masterToken, issued, h⟩ := Option.bind_eq_some_iff.mp h
    obtain ⟨runs, inserted, same⟩ := Option.map_eq_some_iff.mp h
    cases same
    refine ⟨fun master at_ => ?_, fun run hrun master at_ => ?_⟩
    · cases at_
      exact Table.mem_insert_self inserted
    · rcases Table.of_mem_insert inserted hrun with rfl | old
      · cases at_
        exact issueMasterToken_eq_some issued
      · exact c.issued run old master at_
  | streamAgent runId =>
    obtain ⟨runs, inserted, same⟩ := Option.map_eq_some_iff.mp h
    cases same
    refine ⟨fun master at_ => ?_, fun run hrun master at_ => ?_⟩
    · exact Table.mem_insert_of_mem inserted (c.ref master at_)
    · rcases Table.of_mem_insert inserted hrun with rfl | old
      · cases at_
      · exact c.issued run old master at_
  | spawnResearcher runId subTask draw answer =>
    obtain ⟨_, -, same⟩ := Option.map_eq_some_iff.mp h
    cases same
    exact c
  | fanOutResearchers runId subTasks answers draws =>
    obtain ⟨_, -, same⟩ := Option.map_eq_some_iff.mp h
    cases same
    exact c

theorem masterConsistent_start : MasterConsistent cfg .start where
  ref := nofun
  issued := nofun

/-- A tool call spawns with tokens of its own run exactly when the reference is that
run's or its token cannot be used. -/
theorem isolated_iff_of_step {x : OrchestratorStep} (h : (orchestrators cfg).Steps x)
    (c : MasterConsistent cfg x.before) : Isolated cfg x ↔ ReadsOwn cfg x := by
  refine ⟨?_, ?_⟩
  · intro isolated
    by_cases own : x.before.runIdRef = x.input.runId
    · exact .inl own
    · refine .inr fun master at_ draw hdraw usable => own ?_
      obtain ⟨p, ofRef⟩ := c.issued _ (c.ref master at_) master rfl
      obtain ⟨child, derived⟩ := (derive_iff_usable ofRef draw).mpr usable
      obtain ⟨spawn, hspawn, carries⟩ :=
        (spawned_iff h).mpr ⟨master, at_, draw, hdraw, derived⟩
      obtain ⟨⟨run, hrun, same, own, at_own, ofOwn⟩, -⟩ :=
        isolated spawn hspawn child carries
      obtain ⟨q, ofRun⟩ := c.issued run hrun own at_own
      rw [← same]
      exact DerivedFrom.runId_eq ofRef ofRun ⟨_, _, derived⟩ ofOwn
  · intro reads spawn hspawn child carries
    obtain ⟨master, at_, draw, hdraw, derived⟩ :=
      (spawned_iff h).mp ⟨spawn, hspawn, carries⟩
    obtain ⟨p, ofRef⟩ := c.issued _ (c.ref master at_) master rfl
    rcases reads with own | stale
    · refine ⟨⟨_, c.ref master at_, own, master, rfl, _, _, derived⟩, ?_⟩
      intro other hother differs otherMaster at_other ofOther
      obtain ⟨q, ofRun⟩ := c.issued other hother otherMaster at_other
      refine differs ?_
      rw [← own]
      exact (DerivedFrom.runId_eq ofRef ofRun ⟨_, _, derived⟩ ofOther).symm
    · exact absurd ((derive_iff_usable ofRef draw).mp ⟨child, derived⟩)
        (stale master at_ draw hdraw)

/-- In every run of the process, every tool call spawns with tokens derived from its
own run's master token, and from no other run's, exactly when the references are
those of the calling run or hold no token that can be used. -/
theorem master_isolation_iff (cfg : TokenSettings) (actions : List OrchestratorAction) :
    ∀ x ∈ (orchestrators cfg).run .start actions, Isolated cfg x ↔ ReadsOwn cfg x := by
  intro x hx
  obtain ⟨step, c, -⟩ := Machine.run_invariant
    (fun _ step c => masterConsistent_of_step step c) masterConsistent_start x hx
  exact isolated_iff_of_step step c

/-- A run spawns with its own token. -/
theorem lone_run_isolated :
    ∃ x ∈ (orchestrators sampleSettings).run .start
        [.runOrchestrator "run-1" ⟨true, "token-1", 0⟩,
          .spawnResearcher "run-1" "report"
            { secretFound := true, validatedAt := second, toNow := 0, issueSecretFound := true,
              jti := "token-2", toIssue := 0 } (.raised "TimeoutError" "")],
      (∃ spawn ∈ x.label.1, spawn.derivedToken.isSome = true) ∧ Isolated sampleSettings x := by
  refine ⟨_, List.mem_cons_of_mem _ (List.mem_singleton_self _), by decide +kernel, ?_⟩
  refine (master_isolation_iff sampleSettings
    [.runOrchestrator "run-1" ⟨true, "token-1", 0⟩,
      .spawnResearcher "run-1" "report"
        { secretFound := true, validatedAt := second, toNow := 0, issueSecretFound := true,
          jti := "token-2", toIssue := 0 } (.raised "TimeoutError" "")] _
    (List.mem_cons_of_mem _ (List.mem_singleton_self _))).mpr ?_
  exact .inl (by decide +kernel)

/-- Two runs are started, and the first one's tool call spawns with the other's token. -/
def overlappingRuns : List OrchestratorAction :=
  let issue (jti : String) (now : Nat) : IssueDraw := ⟨true, jti, now⟩
  [.runOrchestrator "run-1" (issue "token-1" 0), .runOrchestrator "run-2" (issue "token-2" second),
    .spawnResearcher "run-1" "report"
      { secretFound := true, validatedAt := 2 * second, toNow := 0, issueSecretFound := true,
        jti := "token-3", toIssue := 0 } (.raised "TimeoutError" "")]

theorem spawned_under_other_run :
    ∃ x ∈ (orchestrators sampleSettings).run .start overlappingRuns,
      x.input.runId = "run-1" ∧ ¬ Isolated sampleSettings x := by
  have spawns : ∃ x ∈ (orchestrators sampleSettings).run .start overlappingRuns,
      x.input.runId = "run-1" ∧ x.before.runIdRef = "run-2" ∧
        ∃ spawn ∈ x.label.1, spawn.derivedToken.isSome = true := by
    decide +kernel
  obtain ⟨x, hx, caller, reads, spawn, hspawn, carries⟩ := spawns
  refine ⟨x, hx, caller, fun isolated => ?_⟩
  obtain ⟨step, c, -⟩ := Machine.run_invariant
    (fun _ step c => masterConsistent_of_step step c) masterConsistent_start x hx
  obtain ⟨child, carries⟩ := Option.isSome_iff_exists.mp carries
  obtain ⟨master, at_, draw, hdraw, derived⟩ :=
    (spawned_iff step).mp ⟨spawn, hspawn, carries⟩
  rcases (isolated_iff_of_step step c).mp isolated with own | stale
  · rw [caller, reads] at own
    exact absurd own (by decide)
  · obtain ⟨p, ofRef⟩ := c.issued _ (c.ref master at_) master rfl
    exact stale master at_ draw hdraw ((derive_iff_usable ofRef draw).mp ⟨child, derived⟩)

end

end LegionForge.Agent
