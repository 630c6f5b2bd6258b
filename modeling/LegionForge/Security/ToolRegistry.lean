import LegionForge.Audit.Log
import LegionForge.Lib.Machine
import LegionForge.Lib.Table

/-!
# The tool registry

A tool is registered twice: in the memory of the process, which is what
`verify_tool_before_invocation` looks at first, and in the table
`tool_registry`, from which a process loads a tool it does not know. Revoking a
tool sets the status in the table and nothing else.

`register_tool` runs at every start and sets the status back to `APPROVED`;
a process that has the tool in memory never looks at the status again.
`revocation_lasts_iff` says that these are the ways, and the only ones, in which
a revocation is lost.
-/

namespace LegionForge.Security

open Audit (PyVal PyKey Platform)
open JsonText (Json render)

/-! ## Manifests and their hashes -/

/-- The source of the entrypoint is what `inspect.getsource` finds. -/
structure ToolManifest where
  toolId : String
  description : String
  inputSchema : PyVal
  declaredSideEffects : List String
  source : String
  version : String
  entrypointSource : Option String

structure FastHash where
  descriptionHash : String
  schemaHash : String

structure ToolHashes extends FastHash where
  entrypointHash : Option String

mutual

/-- The tree `json.dumps` writes for a value, its keys in their order. -/
def tree : PyVal → Json
  | .none => .null
  | .bool b => .bool b
  | .int n => .num (Audit.intToken n)
  | .float f => .num f.token
  | .str s => .str s
  | .list xs => .arr (treeList xs)
  | .dict items => .obj (treeItems items)

def treeList : List PyVal → List Json
  | [] => []
  | x :: xs => tree x :: treeList xs

def treeItems : List (PyKey × PyVal) → List (String × Json)
  | [] => []
  | (k, v) :: items => (k.text, tree v) :: treeItems items

end

/-- `json.dumps(schema)` -/
def schemaText (schema : PyVal) : String := String.ofList (render (tree schema))

inductive ToolStatus where
  | approved
  | pending
  | revoked
  deriving DecidableEq, Repr

/-- A row of `tool_registry`. -/
structure RegistryRow where
  toolId : String
  source : String
  version : String
  description : String
  hashes : ToolHashes
  declaredSideEffects : List String
  approvedBy : String
  approvalNotes : String
  status : ToolStatus
  inputSchema : Option String
  revokedBy : Option String
  revocationReason : Option String

/-- An entry of `_TOOL_REGISTRY` and of `_TOOL_HASHES`. -/
structure LoadedTool where
  manifest : ToolManifest
  hashes : ToolHashes

def LoadedTool.toolId (t : LoadedTool) : String := t.manifest.toolId

abbrev Registry := Table RegistryRow.toolId

/-- The registry in the memory of a process. -/
abbrev Memory := Table LoadedTool.toolId

section
variable (P : Platform)

/-- `_compute_fast_hash`, `none` for the `TypeError` of `json.dumps`. -/
def computeFastHash (manifest : ToolManifest) : Option FastHash :=
  (Audit.dumps P.floatVal manifest.inputSchema).map fun schemaJson =>
    { descriptionHash := P.sha256 manifest.description
      schemaHash := P.sha256 schemaJson }

/-- `_compute_tool_hash` -/
def computeToolHash (manifest : ToolManifest) : Option ToolHashes :=
  (computeFastHash P manifest).map fun hashes =>
    { hashes with entrypointHash := manifest.entrypointSource.map P.sha256 }

/-- `stored_hashes.get(k) and stored_hashes.get(k) != current_hashes.get(k)` -/
def mismatch (stored current : String) : Bool := stored ≠ "" && stored ≠ current

/-- The hashes of the manifest are the stored ones; `none` where hashing raises. -/
def LoadedTool.intact (t : LoadedTool) : Option Bool :=
  (computeFastHash P t.manifest).map fun current =>
    !(mismatch t.hashes.descriptionHash current.descriptionHash ||
      mismatch t.hashes.schemaHash current.schemaHash)

/-! ## Registering, loading, verifying -/

/-- The row `register_tool` inserts. -/
def registryRow (manifest : ToolManifest) (hashes : ToolHashes)
    (approvedBy approvalNotes : String) : RegistryRow where
  toolId := manifest.toolId
  source := manifest.source
  version := manifest.version
  description := manifest.description
  hashes
  declaredSideEffects := manifest.declaredSideEffects
  approvedBy
  approvalNotes
  status := .approved
  inputSchema := some (schemaText manifest.inputSchema)
  revokedBy := none
  revocationReason := none

/-- On a conflict all of it is set but the two columns of the revocation. -/
def RegistryRow.updated (new old : RegistryRow) : RegistryRow :=
  { new with
    toolId := old.toolId
    revokedBy := old.revokedBy
    revocationReason := old.revocationReason }

def RegistryRow.persist (row : RegistryRow) (registry : Registry) : Registry :=
  registry.upsert row row.updated fun _ => rfl

def Memory.set (memory : Memory) (tool : LoadedTool) : Memory :=
  memory.upsert tool
    (fun old => if old.toolId = tool.toolId then tool else old)
    fun old => by
      split
      · next same => exact same.symm
      · rfl

/-- The manifest and the hashes a process makes of a row. -/
def RegistryRow.load (row : RegistryRow) : LoadedTool where
  manifest :=
    { toolId := row.toolId
      description := row.description
      inputSchema := (row.inputSchema.bind P.jsonLoads).getD (.dict [])
      declaredSideEffects := []
      source := row.source
      version := "0.7.1-alpha"
      entrypointSource := none }
  hashes := row.hashes

/-- `k.replace("_", "")` -/
def stripped (k : String) : String := String.ofList (k.toList.filter (· ≠ '_'))

/-- The tool the memory has for an id: the one registered under it, or else the first
one the id is the underscore-free spelling of. -/
def Memory.held (memory : Memory) (toolId : String) : Option LoadedTool :=
  (memory.get toolId).or
    (memory.rows.reverse.find? fun t => stripped t.toolId = toolId)

/-- `verify_tool_before_invocation`, given what `get_tool_registry_entry` returns. -/
def verifyToolBeforeInvocation (memory : Memory) (row : Option RegistryRow)
    (toolId : String) : Memory × Option Bool :=
  match memory.get toolId, row with
  | some tool, _ => (memory, tool.intact P)
  | none, some row => (memory.set (row.load P), (row.load P).intact P)
  | none, none =>
    match memory.held toolId with
    | some canonical => (memory, canonical.intact P)
    | none => (memory, some false)

/-! ## Calls of any number of processes -/

/-- The table, and the memory of each process. -/
structure ToolWorld where
  registry : Registry
  memory : Nat → Memory

/-- The calls, in the order they are made. The flag says whether the database
answers; a call that it does not answer goes on without it. -/
inductive ToolCall where
  | registerTool (pid : Nat) (manifest : ToolManifest) (approvedBy approvalNotes : String)
      (answers : Bool)
  | verifyTool (pid : Nat) (toolId : String) (answers : Bool)
  | revokeTool (toolId revokedBy reason : String) (answers : Bool)
  /-- `PUT /tools/{tool_id}/status` -/
  | setToolStatus (toolId : String) (status : ToolStatus) (notes : String) (answers : Bool)
  | restart (pid : Nat)

inductive ToolAnswer where
  | done
  | raised
  | verified (passed : Bool)
  | revoked (found : Bool)
  deriving DecidableEq

/-- `get_tool_registry_entry` -/
def getToolRegistryEntry (registry : Registry) (answers : Bool) (toolId : String) :
    Option RegistryRow :=
  if answers then (registry.get toolId).filter (·.status = .approved) else none

def ToolWorld.setMemory (w : ToolWorld) (pid : Nat) (memory : Memory) : ToolWorld :=
  { w with memory := fun other => if other = pid then memory else w.memory other }

/-- `revoke_tool`: whether a row was updated. -/
def revokeTool (registry : Registry) (toolId revokedBy reason : String) : Registry × Bool :=
  match registry.get toolId with
  | none => (registry, false)
  | some row =>
    if row.status = .revoked then (registry, false)
    else
      (registry.modify toolId (fun row =>
        { row with status := .revoked, revokedBy := some revokedBy,
                   revocationReason := some reason }) fun _ => rfl, true)

def ToolWorld.step (w : ToolWorld) : ToolCall → ToolWorld × ToolAnswer
  | .registerTool pid manifest approvedBy approvalNotes answers =>
    match computeToolHash P manifest with
    | none => (w, .raised)
    | some hashes =>
      let w := w.setMemory pid ((w.memory pid).set ⟨manifest, hashes⟩)
      (if answers then
        { w with
          registry := (registryRow manifest hashes approvedBy approvalNotes).persist w.registry }
      else w, .done)
  | .verifyTool pid toolId answers =>
    let r := verifyToolBeforeInvocation P (w.memory pid)
      (getToolRegistryEntry w.registry answers toolId) toolId
    (w.setMemory pid r.1, match r.2 with
      | none => .raised
      | some passed => .verified passed)
  | .revokeTool toolId revokedBy reason answers =>
    if answers then
      let r := revokeTool w.registry toolId revokedBy reason
      ({ w with registry := r.1 }, .revoked r.2)
    else (w, .revoked false)
  | .setToolStatus toolId status notes answers =>
    (if answers then
      { w with
        registry := w.registry.modify toolId
          (fun row => { row with status, approvalNotes := notes }) fun _ => rfl }
    else w, .done)
  | .restart pid => (w.setMemory pid .empty, .done)

def toolRegistry : Machine ToolWorld ToolCall ToolAnswer where
  step w call := some (w.step P call)

abbrev ToolStep := Machine.Entry ToolWorld ToolCall ToolAnswer

/-! ## What a revocation is to last through -/

def Approved (registry : Registry) (toolId : String) : Prop :=
  ∃ row ∈ registry.rows, row.toolId = toolId ∧ row.status = .approved

/-- An administrator approves the tool again. -/
def Reapproves (toolId : String) (call : ToolCall) : Prop :=
  ∃ notes, call = .setToolStatus toolId .approved notes true

/-- The step leaves the tool without approval, and a verification of it fails. -/
def KeepsRevoked (toolId : String) (x : ToolStep) : Prop :=
  ¬ Approved x.after.registry toolId ∧
    ∀ pid answers, x.input = .verifyTool pid toolId answers → x.label = .verified false

/-- No registration of the tool reaches the table, and the tool is verified only where
the memory does not have it with its hashes. -/
def StaysOut (toolId : String) (x : ToolStep) : Prop :=
  match x.input with
  | .registerTool _ manifest _ _ true =>
    (computeToolHash P manifest).isSome = true → manifest.toolId ≠ toolId
  | .verifyTool pid id _ =>
    id = toolId → ∀ tool, (x.before.memory pid).held toolId = some tool →
      tool.intact P = some false
  | _ => True

variable {P}

/-! ## What a call does to the approval -/

/-- A registration approves the tool it is of. -/
theorem approved_persist_iff {registry : Registry} {manifest : ToolManifest}
    {hashes : ToolHashes} {approvedBy notes toolId : String} :
    Approved ((registryRow manifest hashes approvedBy notes).persist registry) toolId ↔
      manifest.toolId = toolId ∨ Approved registry toolId := by
  unfold RegistryRow.persist
  refine ⟨?_, ?_⟩
  · rintro ⟨row, hrow, rfl, approved⟩
    rcases Table.of_mem_upsert _ hrow with ⟨same, -⟩ | ⟨old, -⟩
    · exact .inl same.symm
    · exact .inr ⟨row, old, rfl, approved⟩
  · by_cases same : manifest.toolId = toolId
    · intro _
      obtain ⟨row, hrow, key, written⟩ := Table.exists_mem_upsert registry
        (registryRow manifest hashes approvedBy notes)
        (f := (registryRow manifest hashes approvedBy notes).updated) fun _ => rfl
      refine ⟨row, hrow, key.trans same, ?_⟩
      rcases written with rfl | ⟨_, rfl⟩ <;> rfl
    · rintro (self | ⟨row, hrow, rfl, approved⟩)
      · exact absurd self same
      · exact ⟨row, Table.mem_upsert_of_ne _ hrow (Ne.symm same), rfl, approved⟩

/-- A statement that rewrites rows without approving them approves nothing. -/
theorem not_approved_modify {registry : Registry} {k toolId : String}
    {f : RegistryRow → RegistryRow} (keeps : ∀ a, (f a).toolId = a.toolId)
    (h : ¬ Approved registry toolId) (sets : k = toolId → ∀ row, (f row).status ≠ .approved) :
    ¬ Approved (registry.modify k f keeps) toolId := by
  rintro ⟨row, hrow, rfl, approved⟩
  obtain ⟨old, hold, rfl⟩ := List.mem_map.mp hrow
  split at approved
  · next same =>
    rw [if_pos same, keeps] at sets
    exact sets same.symm old approved
  · next other =>
    rw [if_neg other] at h
    exact h ⟨old, hold, rfl, approved⟩

theorem not_approved_revokeTool {registry : Registry} {k revokedBy reason toolId : String}
    (h : ¬ Approved registry toolId) :
    ¬ Approved (revokeTool registry k revokedBy reason).1 toolId := by
  unfold revokeTool
  split
  · exact h
  · split
    · exact h
    · refine not_approved_modify (fun _ => ?_) h fun _ _ => ?_
      · rfl
      · exact ToolStatus.noConfusion

/-- A tool that was found and revoked is not approved. -/
theorem not_approved_of_revoked {registry : Registry} {toolId revokedBy reason : String}
    (h : (revokeTool registry toolId revokedBy reason).2 = true) :
    ¬ Approved (revokeTool registry toolId revokedBy reason).1 toolId := by
  unfold revokeTool at h ⊢
  split at h
  · cases h
  · split at h
    · cases h
    · next live =>
      rw [if_neg live]
      rintro ⟨row, hrow, same, approved⟩
      obtain ⟨old, -, rfl⟩ := List.mem_map.mp hrow
      by_cases hit : old.toolId = toolId
      · rw [if_pos hit] at approved
        cases approved
      · rw [if_neg hit] at same
        exact hit same

theorem getToolRegistryEntry_eq_none {registry : Registry} {answers : Bool}
    {toolId : String} (h : ¬ Approved registry toolId) :
    getToolRegistryEntry registry answers toolId = none := by
  unfold getToolRegistryEntry
  split
  · rw [Option.filter_eq_none_iff]
    intro row found approved
    obtain ⟨mem, same⟩ := Table.get_mem found
    exact h ⟨row, mem, same, of_decide_eq_true approved⟩
  · rfl

/-- Without a row to load, the verification goes by what the memory has. -/
theorem verify_without_row (memory : Memory) (toolId : String) :
    verifyToolBeforeInvocation P memory none toolId =
      (memory, match memory.held toolId with
        | some tool => tool.intact P
        | none => some false) := by
  unfold verifyToolBeforeInvocation
  cases found : memory.get toolId with
  | none => dsimp only; split <;> rfl
  | some tool => simp [Memory.held, found]

/-- Of a tool that is not approved, a call keeps that, and fails a verification,
exactly when it stays out. -/
theorem keepsRevoked_iff_of_step {toolId : String} {x : ToolStep}
    (h : (toolRegistry P).Steps x) (revoked : ¬ Approved x.before.registry toolId)
    (ok : ¬ Reapproves toolId x.input) : KeepsRevoked toolId x ↔ StaysOut P toolId x := by
  obtain ⟨w, call, label, w'⟩ := x
  have h : w.step P call = (w', label) := Option.some.inj h
  unfold KeepsRevoked StaysOut
  dsimp only at revoked ok ⊢
  cases call with
  | registerTool pid manifest approvedBy notes answers =>
    rw [ToolWorld.step] at h
    split at h
    · next raises =>
      cases h
      cases answers <;> simp [revoked, raises]
    · next hashes computed =>
      cases h
      cases answers with
      | false => simpa [ToolWorld.setMemory] using revoked
      | true => simp [ToolWorld.setMemory, approved_persist_iff, revoked, computed]
  | verifyTool pid id answers =>
    rw [ToolWorld.step] at h
    by_cases same : id = toolId
    · subst same
      rw [getToolRegistryEntry_eq_none revoked, verify_without_row] at h
      cases h
      cases found : (w.memory pid).held id with
      | none => simp [ToolWorld.setMemory, revoked, found]
      | some tool =>
        cases passes : tool.intact P <;>
          simp [ToolWorld.setMemory, revoked, found, passes]
    · cases h
      simp [ToolWorld.setMemory, revoked, same]
  | revokeTool id revokedBy reason answers =>
    rw [ToolWorld.step] at h
    split at h
    · cases h
      simp [not_approved_revokeTool revoked]
    · cases h
      simp [revoked]
  | setToolStatus id status notes answers =>
    cases h
    cases answers with
    | false => simpa using revoked
    | true =>
      have set : ¬ Approved (w.registry.modify id
          (fun row => { row with status, approvalNotes := notes }) fun _ => rfl) toolId :=
        by
          refine not_approved_modify (fun _ => ?_) revoked fun same _ approves => ?_
          · rfl
          · exact ok ⟨notes, by rw [same, ← show status = .approved from approves]⟩
      simpa using set
  | restart pid =>
    cases h
    simpa [ToolWorld.setMemory] using revoked

/-- After `revoke_tool` has found and revoked a tool, and until an administrator
approves it again: through every sequence of calls it stays without approval and its
verifications fail exactly when all the calls stay out. -/
theorem revocation_lasts_iff (P : Platform) (toolId revokedBy reason : String)
    (w : ToolWorld) (calls : List ToolCall)
    (revoked : (w.step P (.revokeTool toolId revokedBy reason true)).2 = .revoked true)
    (noReapproval : ∀ call ∈ calls, ¬ Reapproves toolId call) :
    let later := (toolRegistry P).run
      (w.step P (.revokeTool toolId revokedBy reason true)).1 calls
    (∀ x ∈ later, KeepsRevoked toolId x) ↔ ∀ x ∈ later, StaysOut P toolId x := by
  have found : (revokeTool w.registry toolId revokedBy reason).2 = true := by
    simpa [ToolWorld.step] using revoked
  have start : ¬ Approved (w.step P (.revokeTool toolId revokedBy reason true)).1.registry
      toolId := not_approved_of_revoked found
  exact Machine.run_iff_of_ok (I := fun w => ¬ Approved w.registry toolId)
    (R := fun x => ¬ Reapproves toolId x.input)
    (fun x step revoked ok => keepsRevoked_iff_of_step step revoked ok)
    (fun x _ _ _ keeps => keeps.1) start
    fun x hx => noReapproval x.input (Machine.input_mem_of_run hx)

/-! ## A start after a revocation -/

def sampleManifest : ToolManifest where
  toolId := "web_search"
  description := "Search the web using DuckDuckGo"
  inputSchema := .dict [(.str "query", .str "str")]
  declaredSideEffects := []
  source := "local"
  version := "0.7.1-alpha"
  entrypointSource := none

/-- The tool is registered by two processes. -/
def sampleWorld : ToolWorld :=
  let register (pid : Nat) : ToolCall :=
    .registerTool pid sampleManifest "operator" "" true
  let start : ToolWorld := ⟨.empty, fun _ => .empty⟩
  ((start.step .sample (register 0)).1.step .sample (register 1)).1

theorem revocation_lasts_without_registration :
    ∃ x ∈ (toolRegistry .sample).run
        (sampleWorld.step .sample (.revokeTool "web_search" "operator" "" true)).1
        [.restart 0, .verifyTool 0 "web_search" true],
      x.label = .verified false ∧ KeepsRevoked "web_search" x := by
  refine ⟨_, List.mem_cons_of_mem _ (List.mem_singleton_self _), by decide +kernel, ?_⟩
  refine (revocation_lasts_iff .sample "web_search" "operator" "" sampleWorld
    [.restart 0, .verifyTool 0 "web_search" true] (by decide +kernel) ?_).mpr ?_ _
    (List.mem_cons_of_mem _ (List.mem_singleton_self _))
  · intro call hcall again
    obtain ⟨notes, rfl⟩ := again
    simp at hcall
  · intro x hx
    simp only [Machine.run, toolRegistry, List.mem_cons, List.not_mem_nil, or_false] at hx
    rcases hx with rfl | rfl
    · trivial
    · intro _ tool found
      cases found

/-- The start of a process approves a revoked tool again, and one that runs has it
verified. -/
theorem revocation_lost :
    let revoked := sampleWorld.step .sample (.revokeTool "web_search" "operator" "" true)
    revoked.2 = .revoked true ∧
      (∃ x ∈ (toolRegistry .sample).run revoked.1
          [.restart 0, .registerTool 0 sampleManifest "operator" "" true],
        Approved x.after.registry "web_search") ∧
      ∃ x ∈ (toolRegistry .sample).run revoked.1 [.verifyTool 1 "web_search" true],
        x.label = .verified true := by
  unfold Approved
  decide +kernel

end

end LegionForge.Security
