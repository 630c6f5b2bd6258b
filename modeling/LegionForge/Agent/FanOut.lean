import LegionForge.Security.Derivation

/-!
# Fan-out

`fan_out` runs every branch with a token derived from the parent's for that
branch. A derivation that raises is logged and the branch is run without a token,
which `validate_acl_token` lets pass for any tool; `fan_out_tokens` says that this
is the only way a branch gets anything but a part of the parent's scope.
-/

namespace LegionForge.Agent

open Security

structure SubTask where
  taskId : String
  task : String
  grantedTools : List String
  grantedDataClasses : List String

structure SubTaskResult where
  taskId : String
  task : String
  result : String
  success : Bool
  error : Option String

/-- A call of the agent runner. -/
structure RunnerCall where
  task : String
  token : Option Jwt
  branchRunId : String

/-- What the runner comes back with: a dict, of which `result` is read, another
value, known by its `str`, or an exception. -/
inductive RunnerAnswer where
  | dict (result : Option String)
  | value (repr : String)
  | raised (error : String)

section
variable (cfg : TokenSettings)

/-- What a branch asks of the parent token. -/
def SubTask.request (sub : SubTask) : DeriveRequest where
  grantedTools := some sub.grantedTools
  grantedDataClasses := some sub.grantedDataClasses
  ttlSeconds := none

/-- `_derive_branch_token`: `None` for no parent and for a derivation that raises. -/
def deriveBranchToken (parentJwt : Option Jwt) (sub : SubTask) (draw : DeriveDraw) :
    Option Jwt :=
  parentJwt.bind fun parent => deriveTaskToken cfg parent sub.request draw

/-- `_run_branch` -/
def runBranch (parentJwt : Option Jwt) (runId : String)
    (runner : RunnerCall → RunnerAnswer) (draw : DeriveDraw) (sub : SubTask) :
    RunnerCall × SubTaskResult :=
  let call : RunnerCall :=
    { task := sub.task
      token := deriveBranchToken cfg parentJwt sub draw
      branchRunId := s!"{runId}:" ++ sub.taskId }
  let done (result : String) : SubTaskResult :=
    { taskId := sub.taskId, task := sub.task, result, success := true, error := none }
  (call, match runner call with
    | .dict result => done (result.getD "")
    | .value repr => done repr
    | .raised error =>
      { taskId := sub.taskId, task := sub.task, result := "", success := false,
        error := some error })

/-- The calls of the runner and the results, in the order of the branches; `draws`
and `runner` answer for each branch by its position. -/
def fanOut (tasks : List SubTask) (parentJwt : Option Jwt) (runId : String)
    (runner : Nat → RunnerCall → RunnerAnswer) (draws : Nat → DeriveDraw) :
    List (RunnerCall × SubTaskResult) :=
  tasks.zipIdx.map fun t => runBranch cfg parentJwt runId (runner t.2) (draws t.2) t.1

variable {cfg}

/-- A derived token attenuates the parent. -/
theorem attenuates_of_derive {parent child : Jwt} {request : DeriveRequest}
    {draw : DeriveDraw} (h : deriveTaskToken cfg parent request draw = some child) :
    parent.Attenuates cfg child := by
  obtain ⟨p, c, before, after, narrows, -⟩ := deriveTaskToken_spec h
  exact ⟨p, c, before, after, narrows⟩

/-- Every call of the runner has a token that attenuates the parent's, or, where the
derivation for its branch raises, none. -/
theorem fan_out_tokens (cfg : TokenSettings) (tasks : List SubTask) (parent : Jwt)
    (runId : String) (runner : Nat → RunnerCall → RunnerAnswer)
    (draws : Nat → DeriveDraw) :
    ∀ run ∈ fanOut cfg tasks (some parent) runId runner draws,
      ∃ branch ∈ tasks.zipIdx, run.1.task = branch.1.task ∧
        ((∃ child, run.1.token = some child ∧ parent.Attenuates cfg child) ∨
          (run.1.token = none ∧
            deriveTaskToken cfg parent branch.1.request (draws branch.2) = none)) := by
  intro run hrun
  obtain ⟨branch, mem, rfl⟩ := List.mem_map.mp hrun
  refine ⟨branch, mem, rfl, ?_⟩
  show (∃ child, deriveTaskToken cfg parent branch.1.request (draws branch.2) = some child ∧
      parent.Attenuates cfg child) ∨
    (deriveTaskToken cfg parent branch.1.request (draws branch.2) = none ∧
      deriveTaskToken cfg parent branch.1.request (draws branch.2) = none)
  cases derived : deriveTaskToken cfg parent branch.1.request (draws branch.2) with
  | none => exact .inr ⟨rfl, rfl⟩
  | some child => exact .inl ⟨child, rfl, attenuates_of_derive derived⟩

/-- A branch that asks for what the parent grants is run with a derived token. -/
theorem granted_branch_attenuated :
    ∃ run ∈ fanOut sampleSettings
        [{ taskId := "branch_0", task := "report", grantedTools := ["web_search"],
           grantedDataClasses := ["public"] }]
        (some (.signed samplePayload "secret")) "run-1" (fun _ _ => .dict none)
        (fun _ => slowDerivation.2),
      ∃ child, run.1.token = some child ∧
        Jwt.Attenuates sampleSettings (.signed samplePayload "secret") child := by
  refine ⟨_, List.mem_singleton_self _, ?_⟩
  obtain ⟨_, -, -, derived | ⟨absent, -⟩⟩ := fan_out_tokens sampleSettings
    [{ taskId := "branch_0", task := "report", grantedTools := ["web_search"],
       grantedDataClasses := ["public"] }]
    (.signed samplePayload "secret") "run-1" (fun _ _ => .dict none)
    (fun _ => slowDerivation.2) _ (List.mem_singleton_self _)
  · exact derived
  · exact absurd absent (by decide +kernel)

/-- A branch that asks for a tool the parent does not grant is run without a token. -/
theorem escalating_branch_unconstrained :
    ∃ run ∈ fanOut sampleSettings
        [{ taskId := "branch_0", task := "report", grantedTools := ["web_fetch"],
           grantedDataClasses := ["public"] }]
        (some (.signed samplePayload "secret")) "run-1" (fun _ _ => .dict none)
        (fun _ => slowDerivation.2),
      run.1.token = none ∧
        validateAclToken sampleSettings true 900500000 run.1.token "web_fetch" = some true := by
  decide +kernel

end

end LegionForge.Agent
