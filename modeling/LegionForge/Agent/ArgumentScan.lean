import LegionForge.Agent.ToolBatch

/-!
# Which strings of a call are checked

The arguments of a call are JSON of any depth, the argument scan looks at the
top level. `leaves` lists every string inside the arguments with its place;
`ArgumentsCovered` asks that each of them was checked before the call was handed
to the inner node and holds nothing that ends a run. That holds exactly when
everything handed on is of the shape the scan was written for
(`arguments_covered_iff`): no string below the top level, nothing that redaction
hides from the destructive scan, and nothing handed on that was never scanned.
-/

namespace LegionForge.Agent

open JsonText Security

/-! ## The strings of a call -/

structure Leaf where
  path : List PathStep
  text : String

mutual

/-- The strings of a value standing at `path`. -/
def leaves (path : List PathStep) : Json → List Leaf
  | .str text => [⟨path, text⟩]
  | .arr xs => leavesOfItems path 0 xs
  | .obj ms => leavesOfMembers path ms
  | _ => []

def leavesOfItems (path : List PathStep) (n : Nat) : List Json → List Leaf
  | [] => []
  | x :: xs => leaves (path ++ [.index n]) x ++ leavesOfItems path (n + 1) xs

def leavesOfMembers (path : List PathStep) : List (String × Json) → List Leaf
  | [] => []
  | (k, x) :: ms => leaves (path ++ [.key k]) x ++ leavesOfMembers path ms

end

def argLeaves (args : List (String × Json)) : List Leaf := leavesOfMembers [] args

/-- The closest key above the string. -/
def Leaf.key? (leaf : Leaf) : Option String :=
  leaf.path.reverse.findSome? fun
    | .key k => some k
    | .index _ => none

/-- The string went through the checks of the call at position `i`, the URL
check included under a URL-like key, and holds nothing that ends a run. -/
structure Leaf.Cleared (u : Unicode) (events : List Event) (i : Nat) (leaf : Leaf) :
    Prop where
  injectionScan : .injectionScan i leaf.path leaf.text ∈ events
  destructiveScan : .destructiveScan i leaf.path leaf.text ∈ events
  urlCheck : leaf.key?.any urlLike = true → .urlCheck i leaf.path leaf.text ∈ events
  noInjection : tier1Injection u leaf.text = false
  noForceEnd : forceEndText u leaf.text = false

/-- What redaction and truncation keep the destructive scan from seeing. -/
def redactionHides (u : Unicode) (text : String) : Bool :=
  forceEndText u text && !forceEndText u (cleanCopy u text)

section
variable (env : Env) (toolNames : List String) (threadId : Option String)
variable (v : Verdicts) (s : AgentState)

/-- Every string anywhere in a call that is handed to the inner node was cleared
before. -/
def ArgumentsCovered (inner : Option (List ToolMessage)) : Prop :=
  let run := secureToolNode env toolNames threadId v s inner
  ∀ c ∈ (batch toolNames s).zipIdx, c.1 ∈ run.handed →
    ∀ leaf ∈ argLeaves c.1.args,
      leaf.Cleared env.unicode (run.events.takeWhile Event.isCheck) c.2

/-- The shape the scan covers: of the calls that are handed on, the approved ones
have strings at the top level only and none that redaction hides, and the
sandboxed ones, which were not scanned, have none. -/
def ScanReaches : Prop :=
  batchGoesOn env toolNames threadId v s 0 (batch toolNames s) = true →
    ∀ c ∈ (batch toolNames s).zipIdx,
      c.1 ∈ underApprovedId env toolNames threadId v s (batch toolNames s) →
      if (verdictAt env toolNames threadId v s c.2 c.1).isApproved then
        ∀ leaf ∈ argLeaves c.1.args,
          leaf.path.length = 1 ∧ redactionHides env.unicode leaf.text = false
      else argLeaves c.1.args = []

variable {env toolNames threadId v s}

/-! ## A scanned argument -/

theorem checkDestructive_pass {i : Nat} {toolId name text : String}
    (h : (checkDestructive env threadId v s i toolId name text).2 = .pass) :
    forceEndText env.unicode (cleanCopy env.unicode text) = false ∧
      (checkDestructive env threadId v s i toolId name text).1 =
        [.destructiveScan i [.key name] text] := by
  rcases @checkDestructive_cases env threadId v s i toolId name text with
    ⟨row, hitl, eq, -⟩ | ⟨eq, -⟩ | ⟨eq, clean⟩
  · rw [eq] at h
    exact absurd h (by simp)
  · rw [eq] at h
    exact absurd h (by simp)
  · rw [eq]
    exact ⟨clean, rfl⟩

/-- A string argument the checks let through. -/
theorem checkString_pass {i : Nat} {toolId name text : String}
    (h : (checkString env threadId v s i toolId name text).2 = .pass) :
    tier1Injection env.unicode text = false ∧
      forceEndText env.unicode (cleanCopy env.unicode text) = false ∧
      .injectionScan i [.key name] text ∈
        (checkString env threadId v s i toolId name text).1 ∧
      .destructiveScan i [.key name] text ∈
        (checkString env threadId v s i toolId name text).1 ∧
      (urlLike name = true → .urlCheck i [.key name] text ∈
        (checkString env threadId v s i toolId name text).1) := by
  rw [checkString_eq] at h ⊢
  cases tier : tier1Injection env.unicode text with
  | true =>
    rw [tier] at h
    cases h
  | false =>
    refine ⟨rfl, ?_⟩
    cases url : urlLike name with
    | false =>
      simp only [tier, url, Bool.false_eq_true, if_false] at h ⊢
      obtain ⟨clean, scan⟩ := checkDestructive_pass h
      rw [scan]
      exact ⟨clean, by simp, by simp, nofun⟩
    | true =>
      cases answer : v.url i name with
      | raised =>
        simp only [tier, url, answer, Bool.false_eq_true, if_false, if_true] at h
        cases h
      | securityError =>
        simp only [tier, url, answer, Bool.false_eq_true, if_false, if_true] at h
        cases h
      | accepted =>
        simp only [tier, url, answer, Bool.false_eq_true, if_false, if_true] at h ⊢
        obtain ⟨clean, scan⟩ := checkDestructive_pass h
        rw [scan]
        exact ⟨clean, by simp, by simp, fun _ => by simp⟩

theorem checkArgs_pass {i : Nat} {toolId : String} : ∀ {args : List (String × Json)},
    (checkArgs env threadId v s i toolId args).2 = .pass →
    ∀ name text, (name, Json.str text) ∈ args →
      tier1Injection env.unicode text = false ∧
        forceEndText env.unicode (cleanCopy env.unicode text) = false ∧
        .injectionScan i [.key name] text ∈
          (checkArgs env threadId v s i toolId args).1 ∧
        .destructiveScan i [.key name] text ∈
          (checkArgs env threadId v s i toolId args).1 ∧
        (urlLike name = true → .urlCheck i [.key name] text ∈
          (checkArgs env threadId v s i toolId args).1) := by
  intro args
  induction args with
  | nil => intro _ name text mem; cases mem
  | cons arg rest ih =>
    obtain ⟨key, value⟩ := arg
    cases value with
    | str t =>
      intro pass name text mem
      rw [checkArgs] at pass ⊢
      rcases eq : checkString env threadId v s i toolId key t with ⟨events, verdict⟩
      rw [eq] at pass
      have here : verdict = .pass := by
        cases verdict <;> first | rfl | cases pass
      subst here
      rcases List.mem_cons.mp mem with same | mem
      · cases same
        have first := @checkString_pass env threadId v s i toolId key t (by rw [eq])
        rw [eq] at first
        obtain ⟨tier, clean, scan, destructive, url⟩ := first
        exact ⟨tier, clean, List.mem_append_left _ scan,
          List.mem_append_left _ destructive, fun h => List.mem_append_left _ (url h)⟩
      · obtain ⟨tier, clean, scan, destructive, url⟩ := ih pass name text mem
        exact ⟨tier, clean, List.mem_append_right _ scan,
          List.mem_append_right _ destructive, fun h => List.mem_append_right _ (url h)⟩
    | _ =>
      intro pass name text mem
      rcases List.mem_cons.mp mem with same | mem
      · cases same
      · exact ih pass name text mem

/-- The arguments of an approved call passed. -/
theorem checkCall_approved {i : Nat} {tc : ToolCall}
    (h : (verdictAt env toolNames threadId v s i tc).isApproved = true) :
    (checkArgs env threadId v s i (canonicalName toolNames tc.name) tc.args).2 = .pass ∧
      (checkCall env toolNames threadId v s i tc).1 =
        outerChecks i (canonicalName toolNames tc.name) ++
          (checkArgs env threadId v s i (canonicalName toolNames tc.name) tc.args).1 := by
  unfold verdictAt at h
  unfold checkCall at h ⊢
  dsimp only at h ⊢
  split at h
  · cases h
  · next registry =>
    rw [if_neg registry]
    split at h
    · cases h
    · next acl =>
      rw [if_neg acl]
      split at h
      · split at h <;> cases h
      · next guardian =>
        rw [if_neg guardian]
        split at h
        · cases h
        · next looped =>
          rw [if_neg looped]
          split at h
          · cases h
          · cases h
          · cases h
          · next events eq => rw [eq]; exact ⟨rfl, rfl⟩

/-- A skipped call was not scanned at all, only put to the outer checks. -/
theorem checkCall_sandboxed {i : Nat} {tc : ToolCall}
    (h : (verdictAt env toolNames threadId v s i tc).isSandboxed = true) :
    (checkCall env toolNames threadId v s i tc).1 =
      outerChecks i (canonicalName toolNames tc.name) := by
  unfold verdictAt at h
  unfold checkCall at h ⊢
  dsimp only at h ⊢
  split at h
  · cases h
  · next registry =>
    rw [if_neg registry]
    split at h
    · cases h
    · next acl =>
      rw [if_neg acl]
      split at h
      · next guardian =>
        rw [if_pos guardian]
        split <;> rfl
      · split at h
        · cases h
        · split at h <;> cases h

/-! ## Places of strings -/

mutual

theorem leaves_length {path : List PathStep} : ∀ {j : Json} {leaf : Leaf},
    leaf ∈ leaves path j → path.length ≤ leaf.path.length
  | .str _, _, h => by
    rw [leaves, List.mem_singleton] at h
    exact h ▸ Nat.le_refl _
  | .arr _, _, h => Nat.le_of_succ_le (leavesOfItems_length h)
  | .obj _, _, h => Nat.le_of_succ_le (leavesOfMembers_length h)
  | .null, _, h | .bool _, _, h | .num _, _, h => by cases h

theorem leavesOfItems_length {path : List PathStep} : ∀ {xs : List Json} {n : Nat}
    {leaf : Leaf}, leaf ∈ leavesOfItems path n xs → path.length + 1 ≤ leaf.path.length
  | [], _, _, h => by cases h
  | x :: xs, n, leaf, h => by
    rw [leavesOfItems] at h
    rcases List.mem_append.mp h with h | h
    · have here := leaves_length h
      rwa [List.length_append] at here
    · exact leavesOfItems_length h

theorem leavesOfMembers_length {path : List PathStep} :
    ∀ {ms : List (String × Json)} {leaf : Leaf},
      leaf ∈ leavesOfMembers path ms → path.length + 1 ≤ leaf.path.length
  | [], _, h => by cases h
  | (k, x) :: ms, leaf, h => by
    rw [leavesOfMembers] at h
    rcases List.mem_append.mp h with h | h
    · have here := leaves_length h
      rwa [List.length_append] at here
    · exact leavesOfMembers_length h

end

theorem mem_leavesOfMembers {path : List PathStep} {leaf : Leaf} :
    ∀ {ms : List (String × Json)}, leaf ∈ leavesOfMembers path ms →
      ∃ m ∈ ms, leaf ∈ leaves (path ++ [.key m.1]) m.2
  | [], h => by cases h
  | m :: ms, h => by
    rw [leavesOfMembers] at h
    rcases List.mem_append.mp h with h | h
    · exact ⟨m, List.mem_cons_self, h⟩
    · obtain ⟨m', hm, h⟩ := mem_leavesOfMembers h
      exact ⟨m', List.mem_cons_of_mem _ hm, h⟩

/-- A string at the top level is an argument of its own. -/
theorem topLevel_leaf {args : List (String × Json)} {leaf : Leaf}
    (mem : leaf ∈ argLeaves args) (top : leaf.path.length = 1) :
    ∃ name, (name, Json.str leaf.text) ∈ args ∧ leaf.path = [.key name] := by
  obtain ⟨⟨name, value⟩, hm, h⟩ := mem_leavesOfMembers mem
  rw [List.nil_append] at h
  cases value with
  | str text =>
    rw [leaves, List.mem_singleton] at h
    rw [h]
    exact ⟨name, hm, rfl⟩
  | arr xs =>
    have deep := leavesOfItems_length h
    rw [top] at deep
    exact absurd deep (by simp)
  | obj ms =>
    have deep := leavesOfMembers_length h
    rw [top] at deep
    exact absurd deep (by simp)
  | _ => cases h

/-! ## Coverage -/

/-- In a batch that goes through, a check belongs to the call it names, stands
at the top level of its arguments, and that call was not skipped. -/
theorem injectionScan_source {inner : Option (List ToolMessage)} {c : ToolCall × Nat}
    (hc : c ∈ (batch toolNames s).zipIdx) {path : List PathStep} {text : String}
    (mem : .injectionScan c.2 path text ∈
      (secureToolNode env toolNames threadId v s inner).events.takeWhile Event.isCheck) :
    path.length = 1 ∧
      (verdictAt env toolNames threadId v s c.2 c.1).isSandboxed = false := by
  rw [secureToolNode_beforeExec] at mem
  obtain ⟨c', hc', he⟩ := mem_checkCalls_events _ _ _ _ _ mem
  have own : Event.checksOf c'.2 (.injectionScan c.2 path text) = true := by
    refine (checkCall_checksOf c'.2 c'.1 _ he).resolve_left fun outer => ?_
    obtain ⟨check, same⟩ := mem_outerChecks.mp outer
    cases same
  rw [Event.checksOf, Bool.and_eq_true, decide_eq_true_eq, decide_eq_true_eq] at own
  obtain ⟨position, top⟩ := own
  have same : c'.1 = c.1 := by
    have h := List.mem_zipIdx_iff_getElem?.mp hc
    have h' := List.mem_zipIdx_iff_getElem?.mp hc'
    rw [← position, h] at h'
    exact (Option.some.inj h').symm
  refine ⟨top, ?_⟩
  by_contra sandboxed
  rw [Bool.not_eq_false, position, ← same] at sandboxed
  rw [checkCall_sandboxed sandboxed] at he
  simp [outerChecks] at he

/-- The scan of an approved call clears its top-level strings, up to what
redaction hides. -/
theorem cleared_of_approved {inner : Option (List ToolMessage)} {c : ToolCall × Nat}
    (on : batchGoesOn env toolNames threadId v s 0 (batch toolNames s) = true)
    (hc : c ∈ (batch toolNames s).zipIdx)
    (approved : (verdictAt env toolNames threadId v s c.2 c.1).isApproved = true)
    {leaf : Leaf} (mem : leaf ∈ argLeaves c.1.args) (top : leaf.path.length = 1)
    (seen : redactionHides env.unicode leaf.text = false) :
    leaf.Cleared env.unicode
      ((secureToolNode env toolNames threadId v s inner).events.takeWhile
        Event.isCheck) c.2 := by
  obtain ⟨name, arg, path⟩ := topLevel_leaf mem top
  obtain ⟨pass, events⟩ := checkCall_approved approved
  obtain ⟨tier, clean, scan, destructive, url⟩ := checkArgs_pass pass name leaf.text arg
  have within : (checkArgs env threadId v s c.2 (canonicalName toolNames c.1.name)
      c.1.args).1 ⊆ (checkCall env toolNames threadId v s c.2 c.1).1 := by
    rw [events]
    exact List.subset_append_right _ _
  have before := @checkCalls_events_of_on env toolNames threadId v s (batch toolNames s)
    (batch toolNames s) 0 { sequenceSoFar := s.sequenceSoFar } on c hc
  rw [secureToolNode_beforeExec]
  refine ⟨?_, ?_, fun key => ?_, tier, ?_⟩
  · rw [path]
    exact before _ (within scan)
  · rw [path]
    exact before _ (within destructive)
  · rw [Leaf.key?, path] at key
    rw [path]
    exact before _ (within (url key))
  · rw [redactionHides, clean, Bool.not_false, Bool.and_true] at seen
    exact seen

/-- For every batch with arguments of any depth and every answer of the checks:
every string in every call that is handed on was checked before and none of them
ends a run, if and only if what is handed on has the shape the scan covers. -/
theorem arguments_covered_iff (inner : Option (List ToolMessage)) :
    ArgumentsCovered env toolNames threadId v s inner ↔
      ScanReaches env toolNames threadId v s := by
  unfold ArgumentsCovered ScanReaches
  dsimp only
  rw [secureToolNode_handed]
  refine ⟨?_, ?_⟩
  · intro covered on c hc handed
    rw [if_pos on] at covered
    have cleared := covered c hc handed
    split
    · intro leaf mem
      have h := cleared leaf mem
      refine ⟨(injectionScan_source hc h.injectionScan).1, ?_⟩
      rw [redactionHides, h.noForceEnd, Bool.false_and]
    · next skipped =>
      have sandboxed := (approved_or_sandboxed on c hc).resolve_left skipped
      refine List.eq_nil_iff_forall_not_mem.mpr fun leaf mem => ?_
      have source := (injectionScan_source hc (cleared leaf mem).injectionScan).2
      rw [sandboxed] at source
      cases source
  · intro reaches c hc handed leaf mem
    cases on : batchGoesOn env toolNames threadId v s 0 (batch toolNames s) with
    | false =>
      rw [on] at handed
      cases handed
    | true =>
      rw [on, if_pos rfl] at handed
      have shape := reaches on c hc handed
      split at shape
      · next approved =>
        obtain ⟨top, seen⟩ := shape leaf mem
        exact cleared_of_approved on hc approved mem top seen
      · rw [shape] at mem
        cases mem

end

/-! ## A list of tasks -/

def fanOutCall : ToolCall where
  id := some (some "call_0")
  name := "fan_out_researchers"
  args := [("sub_tasks_json", .arr [.str "jailbreak"])]

/-- Nothing is skipped. -/
def allowAll : Verdicts := { skipSecond with
  guardian := fun _ _ => { allowed := true, tier := .allow, reason := "" } }

/-- A task inside a list is handed on although it holds a halting pattern. -/
theorem listed_task_not_scanned :
    ¬ ArgumentsCovered sampleEnv ["spawn_researcher", "fan_out_researchers"] none
      allowAll (sampleState [fanOutCall]) (some []) := by
  intro covered
  have handed : (secureToolNode sampleEnv ["spawn_researcher", "fan_out_researchers"]
      none allowAll (sampleState [fanOutCall]) (some [])).handed = [fanOutCall] := by
    rfl
  have cleared := covered (fanOutCall, 0) (by exact List.mem_cons_self)
    (by rw [handed]; exact List.mem_cons_self)
    ⟨[.key "sub_tasks_json", .index 0], "jailbreak"⟩ (by exact List.mem_cons_self)
  exact absurd cleared.noInjection (by decide)

end LegionForge.Agent
