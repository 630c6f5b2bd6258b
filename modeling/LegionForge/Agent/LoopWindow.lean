import LegionForge.Agent.ArgumentScan

/-!
# Loop detection over one message and over several

The detector appends one signature to the history it is given. The tool node
gives it the history of the graph state for every call of a message and merges
the updates outside, so of a message with several calls only the last signature
is recorded, and no call of it is counted against another one
(`loopChecks_history`). Spread over several messages the same calls are recorded
one by one.

`BatchingUnseen` asks that the two come to the same, for every way to spread a
batch over messages; `loop_detection_batching_iff` says when they do.
-/

namespace LegionForge.Agent

open JsonText Security

section
variable (env : Env) (toolNames : List String) (threadId : Option String)
variable (v : Verdicts) (s : AgentState)

/-! ## Processing messages -/

/-- The loop check over the calls of one message: every call is held against the
state `s`, the updates are merged, a looped call ends the message. One flag for
every call that was looked at. -/
def loopChecks : List ToolCall → Update → Update × List Bool
  | [], result => (result, [])
  | tc :: rest, result =>
    let loopUpdates := detectActionLoop env s (canonicalName toolNames tc.name) tc.args
    let result := result.merge loopUpdates
    if result.loopDetected = some true then (result, [true])
    else
      let (result, flags) := loopChecks rest result
      (result, false :: flags)

/-- One message after the other; the update of a message is in the state before
the next, and after a loop there is no next. -/
def processMessages : List (List ToolCall) → AgentState → AgentState × List Bool
  | [], s => (s, [])
  | calls :: more, s =>
    let (update, flags) := loopChecks env toolNames s calls {}
    if flags.contains true then (s.apply update, flags)
    else
      let (s', later) := processMessages more (s.apply update)
      (s', flags ++ later)

def callSignature (tc : ToolCall) : String :=
  actionSignature env (canonicalName toolNames tc.name) tc.args

/-- The history cut as the detector cuts it, at twice the window. -/
def cutHistory (history : List String) : List String :=
  if history.length > env.loopDetectionWindow * 2 then
    lastItems (env.loopDetectionWindow * 2) history
  else history

/-- The detector's answer for the call. -/
def looped (tc : ToolCall) : Bool :=
  let sig := callSignature env toolNames tc
  decide ((lastItems env.loopDetectionWindow
    (cutHistory env (s.actionHistory ++ [sig]))).count sig ≥ env.loopDetectionThreshold)

/-- However the calls are spread over messages, the history afterwards is the one
before followed by the signatures of the calls that were processed, and a loop is
flagged at the call at which it is flagged when each has a message of its own. -/
def BatchingUnseen (calls : List ToolCall) : Prop :=
  ∀ messages : List (List ToolCall), messages.flatten = calls →
    let run := processMessages env toolNames messages s
    run.1.actionHistory = cutHistory env
        (s.actionHistory ++ (calls.take run.2.length).map (callSignature env toolNames)) ∧
      run.2 = (processMessages env toolNames (calls.map ([·])) s).2

/-- Everything but the loop check lets the call at position `i` pass. -/
structure OtherwiseApproved (i : Nat) (tc : ToolCall) : Prop where
  registry : v.registry i (canonicalName toolNames tc.name) = true
  acl : v.acl i (canonicalName toolNames tc.name) = true
  guardian : (v.guardian i (canonicalName toolNames tc.name)).allowed = true
  args : (checkArgs env threadId v s i (canonicalName toolNames tc.name) tc.args).2 = .pass

variable {env toolNames threadId v s}

/-! ## What the detector writes -/

theorem detectActionLoop_eq (tc : ToolCall) :
    detectActionLoop env s (canonicalName toolNames tc.name) tc.args =
      { actionHistory :=
          some (cutHistory env (s.actionHistory ++ [callSignature env toolNames tc]))
        loopDetected := some (looped env toolNames s tc)
        forceEnd := some (looped env toolNames s tc) } := rfl

theorem loopChecks_cons (tc : ToolCall) (rest : List ToolCall) (result : Update) :
    loopChecks env toolNames s (tc :: rest) result =
      let result := result.merge
        (detectActionLoop env s (canonicalName toolNames tc.name) tc.args)
      if looped env toolNames s tc then (result, [true])
      else
        ((loopChecks env toolNames s rest result).1,
          false :: (loopChecks env toolNames s rest result).2) := by
  rw [loopChecks]
  simp only [Update.merge_loopDetected, detectActionLoop_eq, Option.some_or,
    Option.some.injEq]

/-- Of a message only the call looked at last is recorded. -/
theorem loopChecks_history (rest : List ToolCall) : ∀ (tc : ToolCall) (result : Update),
    ∃ last, (loopChecks env toolNames s (tc :: rest) result).1.actionHistory =
      some (cutHistory env (s.actionHistory ++ [callSignature env toolNames last])) := by
  induction rest with
  | nil =>
    intro tc result
    refine ⟨tc, ?_⟩
    rw [loopChecks_cons]
    dsimp only
    split <;> rfl
  | cons next rest ih =>
    intro tc result
    rw [loopChecks_cons]
    dsimp only
    split
    · exact ⟨tc, rfl⟩
    · exact ih next _

/-- In the tool node the loop check goes through the calls in just this way, as
long as nothing else stops the batch. -/
theorem checkCalls_loopChecks (calls rest : List ToolCall) : ∀ (i : Nat) (p : Progress),
    (∀ c ∈ rest.zipIdx i, OtherwiseApproved env toolNames threadId v s c.2 c.1) →
    let checked := loopChecks env toolNames s rest p.result
    if checked.2.contains true then
      (checkCalls env toolNames threadId v s calls i rest p).2 = .halted checked.1
    else ∃ p', (checkCalls env toolNames threadId v s calls i rest p).2 = .done p' ∧
      p'.result = checked.1 := by
  induction rest with
  | nil => intro i p _; exact ⟨p, rfl, rfl⟩
  | cons tc rest ih =>
    intro i p pass
    rw [List.zipIdx_cons] at pass
    have here := pass (tc, i) List.mem_cons_self
    have later := fun c mem => pass c (List.mem_cons_of_mem _ mem)
    have verdict : (checkCall env toolNames threadId v s i tc).2 =
        let loop := detectActionLoop env s (canonicalName toolNames tc.name) tc.args
        if looped env toolNames s tc then .looped loop else .approved loop := by
      unfold checkCall
      simp only [here.registry, here.acl, here.guardian, Bool.not_true, Bool.false_eq_true,
        if_false, detectActionLoop_eq, Option.some.injEq]
      split
      · rfl
      · rcases args : checkArgs env threadId v s i (canonicalName toolNames tc.name)
          tc.args with ⟨events, verdict⟩
        have passed := here.args
        rw [args] at passed
        subst passed
        rfl
    rw [loopChecks_cons, checkCalls]
    rcases call : checkCall env toolNames threadId v s i tc with ⟨events, outcome⟩
    rw [call] at verdict
    cases flag : looped env toolNames s tc with
    | true =>
      rw [flag] at verdict
      subst verdict
      rfl
    | false =>
      rw [flag] at verdict
      subst verdict
      have go := ih (i + 1)
        { p with
          result := p.result.merge
            (detectActionLoop env s (canonicalName toolNames tc.name) tc.args)
          sequenceSoFar := p.sequenceSoFar ++ [canonicalName toolNames tc.name]
          approved := p.approved ++ [tc] } later
      simp only [Bool.false_eq_true, if_false]
      exact go

/-! ## Cutting the history -/

theorem cutHistory_eq (history : List String) :
    cutHistory env history =
      if env.loopDetectionWindow = 0 then history
      else history.drop (history.length - env.loopDetectionWindow * 2) := by
  unfold cutHistory lastItems
  split_ifs <;> first | rfl | omega | skip
  next _ short => rw [Nat.sub_eq_zero_of_le (by omega), List.drop_zero]

theorem length_cutHistory (history : List String) :
    (cutHistory env history).length =
      if env.loopDetectionWindow = 0 then history.length
      else min history.length (env.loopDetectionWindow * 2) := by
  rw [cutHistory_eq]
  split
  · rfl
  · rw [List.length_drop]
    omega

/-- What a later cut removes need not be there before. -/
theorem cutHistory_append (history more : List String) :
    cutHistory env (cutHistory env history ++ more) = cutHistory env (history ++ more) := by
  simp only [cutHistory_eq]
  split
  · rfl
  · rw [List.length_append, List.length_drop, List.length_append, List.drop_append,
      List.drop_drop, List.drop_append, List.length_drop]
    congr 2 <;> omega

theorem mem_lastItems_append (n : Nat) (l : List String) (a : String) :
    a ∈ lastItems n (l ++ [a]) := by
  unfold lastItems
  split
  · exact List.mem_append_right l List.mem_cons_self
  · rw [List.drop_append, List.length_append]
    have none : l.length + [a].length - n - l.length = 0 := by
      rw [List.length_singleton]
      omega
    rw [none, List.drop_zero]
    exact List.mem_append_right _ List.mem_cons_self

/-- A call is at least counted itself. -/
theorem looped_of_threshold (low : env.loopDetectionThreshold ≤ 1) (tc : ToolCall) :
    looped env toolNames s tc = true := by
  unfold looped
  dsimp only
  refine decide_eq_true (Nat.le_trans low (List.count_pos_iff.mpr ?_))
  rw [cutHistory_eq]
  split
  · exact mem_lastItems_append _ _ _
  · rw [List.drop_append_of_le_length (by rw [List.length_append, List.length_singleton]; omega)]
    exact mem_lastItems_append _ _ _

/-- With nothing before it that is all there is to count. -/
theorem looped_of_empty (empty : s.actionHistory = []) (tc : ToolCall) :
    looped env toolNames s tc = decide (env.loopDetectionThreshold ≤ 1) := by
  have one : ∀ n (sig : String), lastItems n [sig] = [sig] := by
    intro n sig
    unfold lastItems
    split
    · rfl
    · next some =>
      rw [List.length_singleton, Nat.sub_eq_zero_of_le (Nat.pos_of_ne_zero some)]
      rfl
  have cut : ∀ sig, cutHistory env [sig] = [sig] := by
    intro sig
    unfold cutHistory
    split
    · exact one _ sig
    · rfl
  unfold looped
  dsimp only
  rw [empty, List.nil_append, cut, one, List.count_singleton_self]

/-! ## One message after the other -/

theorem apply_nothing : s.apply {} = s := by
  cases s
  simp [AgentState.apply]

theorem processMessages_nil_cons (more : List (List ToolCall)) :
    processMessages env toolNames ([] :: more) s = processMessages env toolNames more s := by
  rw [processMessages]
  simp only [loopChecks, List.contains_nil, Bool.false_eq_true, if_false, apply_nothing,
    List.nil_append]

/-- A message that starts with a looped call ends there. -/
theorem processMessages_looped {first : ToolCall} {rest : List ToolCall}
    (loop : looped env toolNames s first = true) : ∀ {messages : List (List ToolCall)},
    messages.flatten = first :: rest →
    processMessages env toolNames messages s =
      (s.apply (Update.merge {}
        (detectActionLoop env s (canonicalName toolNames first.name) first.args)), [true])
  | [], eq => by cases eq
  | [] :: more, eq => by
    rw [processMessages_nil_cons]
    exact processMessages_looped loop eq
  | (tc :: calls) :: more, eq => by
    rw [List.flatten_cons, List.cons_append] at eq
    obtain ⟨rfl, -⟩ := List.cons.inj eq
    rw [processMessages, loopChecks_cons, loop]
    rfl

/-- A message of one call. -/
theorem processMessages_single (tc : ToolCall) (more : List (List ToolCall)) :
    processMessages env toolNames ([tc] :: more) s =
      let s' := s.apply (Update.merge {}
        (detectActionLoop env s (canonicalName toolNames tc.name) tc.args))
      if looped env toolNames s tc then (s', [true])
      else
        ((processMessages env toolNames more s').1,
          false :: (processMessages env toolNames more s').2) := by
  rw [processMessages, loopChecks_cons]
  cases looped env toolNames s tc <;> rfl

theorem flatten_singles (calls : List ToolCall) : (calls.map ([·])).flatten = calls := by
  induction calls with
  | nil => rfl
  | cons tc rest ih => rw [List.map_cons, List.flatten_cons, ih, List.singleton_append]

/-- All calls in one message. -/
theorem processMessages_whole (calls : List ToolCall) :
    processMessages env toolNames [calls] s =
      (s.apply (loopChecks env toolNames s calls {}).1,
        (loopChecks env toolNames s calls {}).2) := by
  rcases checked : loopChecks env toolNames s calls {} with ⟨update, flags⟩
  rw [processMessages, checked]
  dsimp only
  split
  · rfl
  · rw [processMessages, List.append_nil]

/-- Messages of at most one call are as good as one message a call. -/
theorem processMessages_singles : ∀ {messages : List (List ToolCall)} {s : AgentState},
    (∀ calls ∈ messages, calls.length ≤ 1) →
    processMessages env toolNames messages s =
      processMessages env toolNames (messages.flatten.map ([·])) s
  | [], _, _ => rfl
  | [] :: more, s, short => by
    rw [processMessages_nil_cons]
    exact processMessages_singles fun calls mem => short calls (List.mem_cons_of_mem _ mem)
  | [tc] :: more, s, short => by
    have later : ∀ s, processMessages env toolNames more s =
        processMessages env toolNames (more.flatten.map ([·])) s := fun s =>
      processMessages_singles fun calls mem => short calls (List.mem_cons_of_mem _ mem)
    rw [List.flatten_cons, List.singleton_append, List.map_cons, processMessages_single,
      processMessages_single]
    simp only [later]
  | (a :: b :: calls) :: more, _, short => by
    have two := short (a :: b :: calls) List.mem_cons_self
    simp at two

/-- Call by call everything is recorded. -/
theorem processMessages_history (rest : List ToolCall) : ∀ (first : ToolCall)
    (s : AgentState),
    let run := processMessages env toolNames ((first :: rest).map ([·])) s
    run.1.actionHistory = cutHistory env (s.actionHistory ++
      ((first :: rest).take run.2.length).map (callSignature env toolNames)) := by
  induction rest with
  | nil =>
    intro first s
    rw [List.map_cons, processMessages_single]
    cases looped env toolNames s first <;> rfl
  | cons next rest ih =>
    intro first s
    rw [List.map_cons, processMessages_single]
    cases looped env toolNames s first with
    | true => rfl
    | false =>
      have later := ih next (s.apply (Update.merge {}
        (detectActionLoop env s (canonicalName toolNames first.name) first.args)))
      dsimp only at later ⊢
      rw [if_neg (by decide)]
      refine later.trans ?_
      have recorded : (s.apply (Update.merge {}
          (detectActionLoop env s (canonicalName toolNames first.name)
            first.args))).actionHistory =
          cutHistory env (s.actionHistory ++ [callSignature env toolNames first]) := rfl
      rw [recorded, cutHistory_append, List.append_assoc]
      rfl

/-! ## When batching goes unseen -/

/-- The next two signatures still fit. -/
def HistoryHasRoom (env : Env) (s : AgentState) : Prop :=
  env.loopDetectionWindow = 0 ∨ s.actionHistory.length + 2 ≤ env.loopDetectionWindow * 2

theorem batchingUnseen_of_looped {first : ToolCall} (rest : List ToolCall)
    (loop : looped env toolNames s first = true) :
    BatchingUnseen env toolNames s (first :: rest) := by
  intro messages eq
  rw [processMessages_looped loop eq,
    processMessages_looped loop (flatten_singles _)]
  exact ⟨rfl, rfl⟩

theorem batchingUnseen_single (tc : ToolCall) : BatchingUnseen env toolNames s [tc] := by
  intro messages eq
  have short : ∀ calls ∈ messages, calls.length ≤ 1 := by
    intro calls mem
    have part := (List.sublist_flatten_of_mem mem).length_le
    rwa [eq] at part
  rw [processMessages_singles short, eq]
  exact ⟨processMessages_history [] tc s, rfl⟩

/-- In one message the second signature takes the place of the first. -/
theorem not_batchingUnseen {first second : ToolCall} {rest : List ToolCall}
    (room : HistoryHasRoom env s) (quiet : looped env toolNames s first = false) :
    ¬ BatchingUnseen env toolNames s (first :: second :: rest) := by
  intro unseen
  obtain ⟨recorded, -⟩ := unseen [first :: second :: rest] (List.append_nil _)
  rw [processMessages_whole] at recorded
  dsimp only at recorded
  obtain ⟨last, history⟩ := @loopChecks_history env toolNames s (second :: rest) first {}
  rw [AgentState.apply_actionHistory, history, Option.getD_some] at recorded
  have looked : 2 ≤ (loopChecks env toolNames s (first :: second :: rest) {}).2.length := by
    rw [loopChecks_cons, quiet]
    simp only [Bool.false_eq_true, if_false, List.length_cons, loopChecks_cons]
    split <;> simp
  have lengths := congrArg List.length recorded
  rw [length_cutHistory, length_cutHistory, List.length_append, List.length_append,
    List.length_map, List.length_take, List.length_singleton, List.length_cons,
    List.length_cons] at lengths
  rcases room with none | room
  · rw [if_pos none, if_pos none] at lengths
    omega
  · have window : env.loopDetectionWindow ≠ 0 := by omega
    rw [if_neg window, if_neg window] at lengths
    omega

/-- For every batch: processing it does not depend on how it is spread over
messages, for every history, if and only if it has one call or the first call is
already a loop whatever went before; and for a history with room for two more, if
and only if it has one call or its first call is a loop. Messages of one call each
record everything. -/
theorem loop_detection_batching_iff (env : Env) (toolNames : List String)
    (first : ToolCall) (rest : List ToolCall) :
    ((∀ s, BatchingUnseen env toolNames s (first :: rest)) ↔
        rest = [] ∨ env.loopDetectionThreshold ≤ 1) ∧
      ∀ s, HistoryHasRoom env s →
        (BatchingUnseen env toolNames s (first :: rest) ↔
          rest = [] ∨ looped env toolNames s first = true) := by
  have exact_ : ∀ s, HistoryHasRoom env s →
      (BatchingUnseen env toolNames s (first :: rest) ↔
        rest = [] ∨ looped env toolNames s first = true) := by
    intro s room
    constructor
    · intro unseen
      cases rest with
      | nil => exact .inl rfl
      | cons second rest =>
        right
        by_contra quiet
        exact not_batchingUnseen room (Bool.eq_false_iff.mpr quiet) unseen
    · rintro (rfl | loop)
      · exact batchingUnseen_single first
      · exact batchingUnseen_of_looped rest loop
  refine ⟨⟨fun unseen => ?_, ?_⟩, exact_⟩
  · -- at the start of a run the history is empty and has room
    have empty : (sampleState []).actionHistory = [] := rfl
    have room : HistoryHasRoom env (sampleState []) := by
      unfold HistoryHasRoom
      rw [empty, List.length_nil]
      omega
    rw [← decide_eq_true_iff (p := env.loopDetectionThreshold ≤ 1), ← looped_of_empty empty first]
    exact (exact_ _ room).mp (unseen _)
  · rintro (rfl | low) s
    · exact batchingUnseen_single first
    · exact batchingUnseen_of_looped rest (looped_of_threshold low first)

/-- Three calls in one message that would be a loop in three. -/
def repeatedCalls : List ToolCall :=
  List.replicate 3 { id := some (some "call_0"), name := "read_tool_call_history", args := [] }

theorem repeated_calls_unseen :
    ¬ BatchingUnseen sampleEnv ["read_tool_call_history"] (sampleState []) repeatedCalls := by
  intro unseen
  exact absurd (unseen [repeatedCalls] (List.append_nil _)).2 (by decide +kernel)

end

end LegionForge.Agent
