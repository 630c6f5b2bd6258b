import LegionForge.Gateway.Hitl
import LegionForge.Lib.RowLocks

/-!
# Who resolves a request

Any number of clients approve and reject a request at the same time. Each call reads the
row, and only one that it found pending makes the call go on to the `UPDATE` of
`resolve_hitl_request`, which asks for a pending row once more and under the row's lock.
So the first of these that commits has decided, and the call it belongs to is the only
one that can succeed or invoke the graph: `hitl_resolved_once`.
-/

namespace LegionForge.Gateway

open Agent

/-! ## The statement -/

inductive Decision where
  | approve
  | reject
  deriving DecidableEq, Repr

def Decision.status : Decision → HitlStatus
  | .approve => .approved
  | .reject => .rejected

def HitlRequest.id (r : HitlRequest) : String := r.row.requestId

/-- The `UPDATE` of `resolve_hitl_request` -/
structure ResolveStatement where
  requestId : String
  decision : Decision

def ResolveStatement.meaning (stmt : ResolveStatement) (_ : List HitlRequest) :
    Update HitlRequest.id where
  guard := fun r => r.id = stmt.requestId && r.status = .pending
  set := fun r => { r with status := stmt.decision.status }
  keeps := fun _ => rfl
  order := id
  skipLocked := false
  single := false

abbrev HitlStore := Store HitlRequest.id ResolveStatement

/-! ## The two routes, await by await -/

inductive HitlReply where
  | notFound
  | alreadyResolved (status : HitlStatus)
  | concurrentUpdate
  | failed
  | approved (threadId : String) (resumed : Bool)
  | rejected (threadId : String)
  deriving DecidableEq

def HitlReply.succeeds : HitlReply → Bool
  | .approved .. | .rejected .. => true
  | _ => false

/-- What a call does next; from the row it has the thread. -/
inductive HitlPhase where
  | reading
  | resolving (threadId : String)
  | updating (threadId : String)
  | resuming (threadId : String)
  | answered (reply : HitlReply)

/-- The call has written the decision, as far as it knows. -/
def HitlPhase.holds : HitlPhase → Bool
  | .resuming _ => true
  | .answered reply => reply.succeeds
  | _ => false

def HitlPhase.isResuming : HitlPhase → Bool
  | .resuming _ => true
  | _ => false

structure HitlCall where
  id : Nat
  decision : Decision
  requestId : String
  phase : HitlPhase

def HitlCall.stmt (c : HitlCall) : ResolveStatement := ⟨c.requestId, c.decision⟩

structure HitlService where
  store : HitlStore
  calls : Table HitlCall.id

inductive HitlCallAction where
  | get
  | start
  | visit
  /-- The `UPDATE` commits; the client may be told, or lose the connection before. -/
  | commit (told : Bool)
  /-- The graph is invoked, and may raise. -/
  | resume (finished : Bool)
  /-- What is awaited raises before it has had an effect. -/
  | raise

inductive HitlAction where
  | createHitlRequest (row : HitlRow)
  | call (id : Nat) (decision : Decision) (requestId : String)
  | run (id : Nat) (a : HitlCallAction)

inductive HitlEvent where
  | wrote (requestId : String) (status : HitlStatus)
  | invoked (requestId : String) (inv : Invocation)

/-- Where a call goes on after its `UPDATE`, `updated` being `cur.rowcount == 1`. -/
def HitlCall.afterUpdate (c : HitlCall) (threadId : String) (told updated : Bool) : HitlPhase :=
  if !told then .answered .failed
  else if !updated then .answered .concurrentUpdate
  else match c.decision with
    | .approve => .resuming threadId
    | .reject => .answered (.rejected threadId)

def HitlService.move (s : HitlService) (c : HitlCall) (phase : HitlPhase) : HitlService :=
  { s with calls := s.calls.modify c.id ({ · with phase }) fun _ => rfl }

/-- One step of `approve_hitl_request` or `reject_hitl_request`. -/
def HitlService.runCall (s : HitlService) (c : HitlCall) :
    HitlCallAction → Option (HitlService × Option HitlEvent)
  | .get =>
    match c.phase with
    | .reading =>
      match s.store.rows.get c.requestId with
      | none => some (s.move c (.answered .notFound), none)
      | some req =>
        if req.status ≠ .pending then
          some (s.move c (.answered (.alreadyResolved req.status)), none)
        else some (s.move c (.resolving req.row.threadId), none)
    | _ => none
  | .start =>
    match c.phase with
    | .resolving threadId =>
      (s.store.start ResolveStatement.meaning c.id c.stmt).map fun store =>
        ({ s with store }.move c (.updating threadId), none)
    | _ => none
  | .visit =>
    match c.phase with
    | .updating _ =>
      (s.store.visit ResolveStatement.meaning c.id false).map fun store =>
        ({ s with store }, none)
    | _ => none
  | .commit told =>
    match c.phase with
    | .updating threadId =>
      (s.store.commit c.id).map fun r =>
        ({ s with store := r.1 }.move c
            (c.afterUpdate threadId told (r.2.writes.length = 1)),
          if r.2.writes.isEmpty then none else some (.wrote c.requestId c.decision.status))
    | _ => none
  | .resume finished =>
    match c.phase with
    | .resuming threadId =>
      some (s.move c (.answered (.approved threadId finished)),
        some (.invoked c.requestId (resumeInvocation threadId)))
    | _ => none
  | .raise =>
    match c.phase with
    | .reading | .resolving _ => some (s.move c (.answered .failed), none)
    | .updating _ =>
      some ({ s with store := s.store.abort c.id }.move c (.answered .failed), none)
    | .resuming threadId => some (s.move c (.answered (.approved threadId false)), none)
    | .answered _ => none

def HitlService.step (s : HitlService) : HitlAction → Option (HitlService × Option HitlEvent)
  | .createHitlRequest row =>
    (s.store.insert ⟨row, .pending⟩).map fun store => ({ s with store }, none)
  | .call id decision requestId =>
    (s.calls.insert ⟨id, decision, requestId, .reading⟩).map fun calls => ({ s with calls }, none)
  | .run id a => (s.calls.get id).bind fun c => s.runCall c a

def resolution : Machine HitlService HitlAction (Option HitlEvent) where
  step s a := s.step a

abbrev HitlStep := Machine.Entry HitlService HitlAction (Option HitlEvent)

/-- The requests as they are stored, and no call yet. -/
def HitlService.idle (requests : Table HitlRequest.id) : HitlService :=
  ⟨⟨requests, .empty⟩, .empty⟩

/-! ## What has happened to a request -/

/-- The statuses that were written to the request, in order. -/
def writesOf (requestId : String) (past : List HitlStep) : List HitlStatus :=
  past.filterMap fun x => match x.label with
    | some (.wrote k status) => if k = requestId then some status else none
    | _ => none

/-- The invocations its approvals have made. -/
def invocationsOf (requestId : String) (past : List HitlStep) : List Invocation :=
  past.filterMap fun x => match x.label with
    | some (.invoked k inv) => if k = requestId then some inv else none
    | _ => none

def HitlCall.succeeded (c : HitlCall) : Bool :=
  match c.phase with
  | .answered reply => reply.succeeds
  | _ => false

structure ResolvedOnce (requestId : String) (past : List HitlStep) (s : HitlService) :
    Prop where
  oneSucceeds : ∀ c ∈ s.calls.rows, ∀ c' ∈ s.calls.rows, c.requestId = requestId →
    c'.requestId = requestId → c.succeeded = true → c'.succeeded = true → c = c'
  writtenOnce : (writesOf requestId past).length ≤ 1
  stored : ∃ r ∈ s.store.rows.rows, r.id = requestId ∧
    r.status = (writesOf requestId past).getLast?.getD .pending
  decided : ∀ c ∈ s.calls.rows, c.requestId = requestId → c.succeeded = true →
    writesOf requestId past = [c.decision.status]
  resumedOnce : (invocationsOf requestId past).length ≤ 1
  approved : invocationsOf requestId past ≠ [] → writesOf requestId past = [.approved]

/-! ## What a step can do -/

section
variable {s s' : HitlService} {requestId : String}

inductive HitlMove (s : HitlService) : HitlService → Option HitlEvent → Prop
  | created {row : HitlRow} {store : HitlStore}
      (insert : s.store.insert ⟨row, .pending⟩ = some store) : HitlMove s { s with store } none
  | called {c : HitlCall} {calls : Table HitlCall.id} (fresh : c.phase = .reading)
      (insert : s.calls.insert c = some calls) : HitlMove s { s with calls } none
  | moved {c : HitlCall} {phase : HitlPhase} (found : s.calls.get c.id = some c)
      (holds : phase.holds = true → c.phase.holds = true) (resuming : phase.isResuming = false) :
      HitlMove s (s.move c phase) none
  | started {c : HitlCall} {threadId : String} {store : HitlStore}
      (found : s.calls.get c.id = some c)
      (start : s.store.start ResolveStatement.meaning c.id c.stmt = some store) :
      HitlMove s ({ s with store }.move c (.updating threadId)) none
  | visited {id : Nat} {store : HitlStore}
      (visit : s.store.visit ResolveStatement.meaning id false = some store) :
      HitlMove s { s with store } none
  | aborted {c : HitlCall} (found : s.calls.get c.id = some c) :
      HitlMove s ({ s with store := s.store.abort c.id }.move c (.answered .failed)) none
  | committed {c : HitlCall} {threadId : String} {told : Bool} {store : HitlStore}
      {t : Session String HitlRequest ResolveStatement} (found : s.calls.get c.id = some c)
      (commit : s.store.commit c.id = some (store, t)) :
      HitlMove s
        ({ s with store }.move c (c.afterUpdate threadId told (t.writes.length = 1)))
        (if t.writes.isEmpty then none else some (.wrote c.requestId c.decision.status))
  | invoked {c : HitlCall} {threadId : String} {finished : Bool}
      (found : s.calls.get c.id = some c) (resuming : c.phase = .resuming threadId) :
      HitlMove s (s.move c (.answered (.approved threadId finished)))
        (some (.invoked c.requestId (resumeInvocation threadId)))

theorem hitl_moves {x : HitlStep} (h : resolution.Steps x) :
    HitlMove x.before x.after x.label := by
  obtain ⟨s, a, label, s'⟩ := x
  have h : s.step a = some (s', label) := h
  cases a with
  | createHitlRequest row =>
    obtain ⟨store, insert, same⟩ := Option.map_eq_some_iff.mp h
    cases same
    exact .created insert
  | call id decision requestId =>
    obtain ⟨calls, insert, same⟩ := Option.map_eq_some_iff.mp h
    cases same
    exact .called rfl insert
  | run id a =>
    obtain ⟨c, found, ran⟩ := Option.bind_eq_some_iff.mp h
    obtain ⟨-, rfl⟩ := Table.get_mem found
    clear h
    cases at_phase : c.phase with
    | reading =>
      cases a with
      | get =>
        simp only [HitlService.runCall, at_phase] at ran
        split at ran
        · cases ran
          exact .moved found (fun holds => by cases holds) rfl
        · split at ran
          · cases ran
            exact .moved found (fun holds => by cases holds) rfl
          · cases ran
            exact .moved found (fun holds => by cases holds) rfl
      | raise =>
        simp only [HitlService.runCall, at_phase] at ran
        cases ran
        exact .moved found (fun holds => by cases holds) rfl
      | _ => simp [HitlService.runCall, at_phase] at ran
    | resolving threadId =>
      cases a with
      | start =>
        simp only [HitlService.runCall, at_phase] at ran
        obtain ⟨store, start, same⟩ := Option.map_eq_some_iff.mp ran
        cases same
        exact .started found start
      | raise =>
        simp only [HitlService.runCall, at_phase] at ran
        cases ran
        exact .moved found (fun holds => by cases holds) rfl
      | _ => simp [HitlService.runCall, at_phase] at ran
    | updating threadId =>
      cases a with
      | visit =>
        simp only [HitlService.runCall, at_phase] at ran
        obtain ⟨store, visit, same⟩ := Option.map_eq_some_iff.mp ran
        cases same
        exact .visited visit
      | commit told =>
        simp only [HitlService.runCall, at_phase] at ran
        obtain ⟨⟨store, t⟩, commit, same⟩ := Option.map_eq_some_iff.mp ran
        cases same
        exact .committed found commit
      | raise =>
        simp only [HitlService.runCall, at_phase] at ran
        cases ran
        exact .aborted found
      | _ => simp [HitlService.runCall, at_phase] at ran
    | resuming threadId =>
      cases a with
      | resume finished =>
        simp only [HitlService.runCall, at_phase] at ran
        cases ran
        exact .invoked found at_phase
      | raise =>
        simp only [HitlService.runCall, at_phase] at ran
        cases ran
        exact .moved found (fun _ => by rw [at_phase]; rfl) rfl
      | _ => simp [HitlService.runCall, at_phase] at ran
    | answered reply => cases a <;> simp [HitlService.runCall, at_phase] at ran

/-- A call after a step of one call is that call in its new phase, or another one. -/
theorem of_mem_move {c b : HitlCall} {phase : HitlPhase} (found : s.calls.get c.id = some c)
    (hb : b ∈ (s.move c phase).calls.rows) :
    b = { c with phase } ∨ (b ∈ s.calls.rows ∧ b.id ≠ c.id) :=
  Table.of_mem_modify found (fun _ => by rfl) hb

structure HitlService.Consistent (s : HitlService) : Prop where
  store : s.store.Consistent ResolveStatement.meaning
  stmts : ∀ t ∈ s.store.sessions.rows, ∃ c ∈ s.calls.rows, c.id = t.id ∧ t.stmt = c.stmt
  approving : ∀ c ∈ s.calls.rows, c.phase.isResuming = true → c.decision = .approve

/-- What a statement is stays known while its call moves. -/
theorem stmts_of_move {store : HitlStore} {c : HitlCall} {phase : HitlPhase}
    (found : s.calls.get c.id = some c)
    (stmts : ∀ t ∈ store.sessions.rows, ∃ b ∈ s.calls.rows, b.id = t.id ∧ t.stmt = b.stmt) :
    ∀ t ∈ store.sessions.rows, ∃ b ∈ ({ s with store }.move c phase).calls.rows,
      b.id = t.id ∧ t.stmt = b.stmt := by
  intro t ht
  obtain ⟨b, hb, at_id, stmt⟩ := stmts t ht
  by_cases same : b.id = c.id
  · obtain ⟨mem, -⟩ := Table.get_mem found
    cases s.calls.eq_of_key hb mem same
    exact ⟨_, Table.mem_modify_self found fun _ => by rfl, at_id, stmt⟩
  · exact ⟨b, Table.mem_modify_of_ne (fun _ => by rfl) hb same, at_id, stmt⟩

theorem approving_of_move {store : HitlStore} {c : HitlCall} {phase : HitlPhase}
    (found : s.calls.get c.id = some c) (k : s.Consistent)
    (approves : phase.isResuming = true → c.decision = .approve) :
    ∀ b ∈ ({ s with store }.move c phase).calls.rows, b.phase.isResuming = true →
      b.decision = .approve := by
  intro b hb resuming
  rcases Table.of_mem_modify found (fun _ => by rfl) hb with rfl | ⟨old, -⟩
  · exact approves resuming
  · exact k.approving b old resuming

theorem isResuming_afterUpdate {c : HitlCall} {threadId : String} {told updated : Bool}
    (h : (c.afterUpdate threadId told updated).isResuming = true) : c.decision = .approve := by
  unfold HitlCall.afterUpdate at h
  split at h
  · cases h
  · split at h
    · cases h
    · split at h
      · assumption
      · cases h

theorem hitl_consistent_of_step {x : HitlStep} (h : resolution.Steps x)
    (k : x.before.Consistent) : x.after.Consistent := by
  have moves := hitl_moves h
  obtain ⟨s, a, label, s'⟩ := x
  dsimp only at k moves ⊢
  cases moves with
  | @created row store insert =>
    refine ⟨Store.consistent_insert insert k.store, ?_, k.approving⟩
    obtain ⟨rows, -, rfl⟩ := Option.map_eq_some_iff.mp insert
    exact k.stmts
  | called fresh insert =>
    refine ⟨k.store, fun t ht => ?_, fun b hb resuming => ?_⟩
    · obtain ⟨b, hb, at_id⟩ := k.stmts t ht
      exact ⟨b, Table.mem_insert_of_mem insert hb, at_id⟩
    · rcases Table.of_mem_insert insert hb with rfl | old
      · rw [fresh] at resuming
        cases resuming
      · exact k.approving b old resuming
  | moved found holds resuming =>
    exact ⟨k.store, stmts_of_move found k.stmts,
      approving_of_move found k fun h => by rw [resuming] at h; cases h⟩
  | started found start =>
    refine ⟨Store.consistent_start start k.store, stmts_of_move found fun t ht => ?_,
      approving_of_move found k nofun⟩
    obtain ⟨sessions, inserted, rfl⟩ := Option.map_eq_some_iff.mp start
    rcases Table.of_mem_insert inserted ht with rfl | old
    · exact ⟨_, (Table.get_mem found).1, rfl, rfl⟩
    · exact k.stmts t old
  | visited visit =>
    refine ⟨Store.consistent_visit visit k.store, fun u hu => ?_, k.approving⟩
    rcases Store.of_mem_visit visit hu with ⟨old, -⟩ | ⟨t, ht, -, _, _, -, ⟨-, rfl⟩ | rfl⟩
    · exact k.stmts u old
    · exact k.stmts t ht
    · obtain ⟨b, hb, at_id, stmt⟩ := k.stmts t ht
      obtain ⟨same, same_stmt, -⟩ := Store.visited_same _ t
      exact ⟨b, hb, at_id.trans same.symm, same_stmt.trans stmt⟩
  | aborted found =>
    exact ⟨Store.consistent_abort _ k.store,
      stmts_of_move found fun t ht => k.stmts t (Store.mem_discard ht).1,
      approving_of_move found k nofun⟩
  | @committed _ _ _ store _ found commit =>
    refine ⟨Store.consistent_commit commit k.store, stmts_of_move found fun t ht => ?_,
      approving_of_move found k isResuming_afterUpdate⟩
    have ht : t ∈ store.sessions.rows := ht
    rw [(Store.commit_sessions commit).2.2.2] at ht
    exact k.stmts t (Store.mem_discard ht).1
  | invoked found resuming =>
    exact ⟨k.store, stmts_of_move found k.stmts, approving_of_move found k nofun⟩

/-! ## The fate of a request -/

/-- Nothing has been decided, or one call has decided. -/
inductive Fate (requestId : String) (past : List HitlStep) (s : HitlService) : Prop
  | undecided
      (row : ∃ r ∈ s.store.rows.rows, r.id = requestId ∧ r.status = .pending)
      (writes : writesOf requestId past = [])
      (invocations : invocationsOf requestId past = [])
      (open_ : ∀ c ∈ s.calls.rows, c.requestId = requestId → c.phase.holds = false)
  | decided (d : Decision) (winner : Nat)
      (row : ∃ r ∈ s.store.rows.rows, r.id = requestId ∧ r.status = d.status)
      (writes : writesOf requestId past = [d.status])
      (won : ∀ c ∈ s.calls.rows, c.requestId = requestId → c.phase.holds = true →
        c.id = winner ∧ c.decision = d)
      (invocations : invocationsOf requestId past = [] ∨
        (d = .approve ∧ (invocationsOf requestId past).length = 1 ∧
          ∀ c ∈ s.calls.rows, c.requestId = requestId → c.phase.isResuming = false))

theorem writesOf_concat (past : List HitlStep) (x : HitlStep) :
    writesOf requestId (past ++ [x]) = writesOf requestId past ++ writesOf requestId [x] :=
  List.filterMap_append

theorem invocationsOf_concat (past : List HitlStep) (x : HitlStep) :
    invocationsOf requestId (past ++ [x]) =
      invocationsOf requestId past ++ invocationsOf requestId [x] :=
  List.filterMap_append

/-- The step says nothing of the request. -/
def Aloof (requestId : String) : Option HitlEvent → Prop
  | some (.wrote k _) | some (.invoked k _) => k ≠ requestId
  | none => True

theorem events_of_aloof {x : HitlStep} (aloof : Aloof requestId x.label) :
    writesOf requestId [x] = [] ∧ invocationsOf requestId [x] = [] := by
  obtain ⟨s, a, label, s'⟩ := x
  rcases label with _ | ⟨k, status⟩ | ⟨k, inv⟩
  · exact ⟨rfl, rfl⟩
  · have other : k ≠ requestId := aloof
    exact ⟨by simp [writesOf, other], rfl⟩
  · have other : k ≠ requestId := aloof
    exact ⟨rfl, by simp [invocationsOf, other]⟩

theorem holds_of_isResuming {phase : HitlPhase} (h : phase.isResuming = true) :
    phase.holds = true := by
  cases phase <;> first | rfl | cases h

/-- A step that leaves the row and lets no further call hold the request changes nothing. -/
theorem fate_of_aloof {past : List HitlStep} {x : HitlStep} (aloof : Aloof requestId x.label)
    (fate : Fate requestId past x.before)
    (rows : ∀ r ∈ x.before.store.rows.rows, r.id = requestId → r ∈ x.after.store.rows.rows)
    (calls : ∀ b ∈ x.after.calls.rows, b.requestId = requestId → b.phase.holds = true →
      ∃ c ∈ x.before.calls.rows, c.requestId = requestId ∧ c.phase.holds = true ∧
        c.id = b.id ∧ c.decision = b.decision ∧
        (b.phase.isResuming = true → c.phase.isResuming = true)) :
    Fate requestId (past ++ [x]) x.after := by
  obtain ⟨noWrites, noInvocations⟩ := events_of_aloof aloof
  have writes : writesOf requestId (past ++ [x]) = writesOf requestId past := by
    rw [writesOf_concat, noWrites, List.append_nil]
  have invocations : invocationsOf requestId (past ++ [x]) = invocationsOf requestId past := by
    rw [invocationsOf_concat, noInvocations, List.append_nil]
  cases fate with
  | undecided row none noInv open_ =>
    obtain ⟨r, hr, at_id, status⟩ := row
    refine .undecided ⟨r, rows r hr at_id, at_id, status⟩ (writes.trans none)
      (invocations.trans noInv) fun b hb at_b => ?_
    rw [← Bool.not_eq_true]
    intro holds
    obtain ⟨c, hc, at_c, had, -⟩ := calls b hb at_b holds
    rw [open_ c hc at_c] at had
    cases had
  | decided d winner row one won inv =>
    obtain ⟨r, hr, at_id, status⟩ := row
    refine .decided d winner ⟨r, rows r hr at_id, at_id, status⟩ (writes.trans one)
      (fun b hb at_b holds => ?_) ?_
    · obtain ⟨c, hc, at_c, had, same, decision, -⟩ := calls b hb at_b holds
      obtain ⟨at_winner, its⟩ := won c hc at_c had
      exact ⟨same.symm.trans at_winner, decision.symm.trans its⟩
    · rw [invocations]
      rcases inv with none | ⟨approve, once, done⟩
      · exact .inl none
      · refine .inr ⟨approve, once, fun b hb at_b => ?_⟩
        rw [← Bool.not_eq_true]
        intro resuming
        obtain ⟨c, hc, at_c, -, -, -, had⟩ := calls b hb at_b (holds_of_isResuming resuming)
        rw [done c hc at_c] at had
        cases had resuming

/-- The calls before a step that only moves one call, which held what it holds after. -/
theorem calls_of_move {c : HitlCall} {phase : HitlPhase} (found : s.calls.get c.id = some c)
    (holds : c.requestId = requestId → phase.holds = true → c.phase.holds = true)
    (resuming : c.requestId = requestId → phase.isResuming = false) :
    ∀ b ∈ (s.move c phase).calls.rows, b.requestId = requestId → b.phase.holds = true →
      ∃ c ∈ s.calls.rows, c.requestId = requestId ∧ c.phase.holds = true ∧ c.id = b.id ∧
        c.decision = b.decision ∧ (b.phase.isResuming = true → c.phase.isResuming = true) := by
  intro b hb at_b held
  rcases of_mem_move found hb with rfl | ⟨old, -⟩
  · refine ⟨c, (Table.get_mem found).1, at_b, holds at_b held, rfl, rfl, fun h => ?_⟩
    have h : phase.isResuming = true := h
    rw [resuming at_b] at h
    cases h
  · exact ⟨b, old, at_b, held, rfl, rfl, id⟩

/-- A call that was not told that its statement wrote a row holds nothing. -/
theorem holds_afterUpdate {c : HitlCall} {threadId : String} {told updated : Bool}
    (h : (c.afterUpdate threadId told updated).holds = true) : updated = true := by
  cases told <;> cases updated <;> first | rfl | cases h

/-- The rows a commit leaves alone: all but the one the statement is about. -/
theorem mem_commit_of_other {store : HitlStore} {c : HitlCall} {r : HitlRequest}
    {t : Session String HitlRequest ResolveStatement} (k : s.Consistent)
    (commit : s.store.commit c.id = some (store, t)) (stmt : t.stmt = c.stmt)
    (hr : r ∈ s.store.rows.rows) (apart : r.id ≠ c.requestId ∨ t.writes = []) :
    r ∈ store.rows.rows := by
  refine Store.mem_commit_of_not_written commit k.store hr fun written => ?_
  rcases apart with other | none
  · have guard := (Store.commit_rows commit k.store).2 r hr written
    simp only [Store.update, ResolveStatement.meaning, stmt, HitlCall.stmt, Bool.and_eq_true,
      decide_eq_true_eq] at guard
    exact other guard.1
  · rw [none] at written
    cases written

/-- The commit that writes the request finds it undecided and decides it. -/
theorem fate_of_commit {past : List HitlStep} {a : HitlAction} {c : HitlCall}
    {threadId : String} {told : Bool} {store : HitlStore}
    {t : Session String HitlRequest ResolveStatement} (k : s.Consistent)
    (found : s.calls.get c.id = some c) (commit : s.store.commit c.id = some (store, t))
    (stmt : t.stmt = c.stmt) (at_k : c.requestId = requestId) (wrote : t.writes ≠ [])
    (fate : Fate requestId past s) :
    let after := { s with store }.move c (c.afterUpdate threadId told (t.writes.length = 1))
    Fate requestId
      (past ++ [⟨s, a, some (.wrote c.requestId c.decision.status), after⟩]) after := by
  intro after
  subst at_k
  obtain ⟨mem, -⟩ := Store.commit_sessions commit
  obtain ⟨w, hw⟩ := List.exists_mem_of_ne_nil _ wrote
  obtain ⟨r, hr, guard, rfl⟩ := k.store.writes t mem w hw
  have written : r.id ∈ t.writes.map HitlRequest.id := by
    rw [← (Store.update ResolveStatement.meaning t).keeps r]
    exact List.mem_map_of_mem hw
  have stored := Store.mem_commit_of_written commit k.store hr written
  simp only [Store.update, ResolveStatement.meaning, stmt, HitlCall.stmt, Bool.and_eq_true,
    decide_eq_true_eq] at guard stored
  obtain ⟨at_id, pending⟩ := guard
  cases fate with
  | decided d winner row one won inv =>
    -- a row that is decided is not pending
    obtain ⟨r', hr', at_id', status⟩ := row
    cases s.store.rows.eq_of_key hr hr' (at_id.trans at_id'.symm)
    rw [pending] at status
    cases d <;> cases status
  | undecided row none noInv open_ =>
    refine .decided c.decision c.id ⟨_, stored, at_id, rfl⟩ ?_ (fun b hb at_b holds => ?_)
      (.inl ?_)
    · rw [writesOf_concat, none]
      simp [writesOf]
    · rcases Table.of_mem_modify found (fun _ => by rfl) hb with rfl | ⟨old, -⟩
      · exact ⟨rfl, rfl⟩
      · rw [open_ b old at_b] at holds
        cases holds
    · rw [invocationsOf_concat, noInv]
      rfl

theorem fate_of_step {past : List HitlStep} {x : HitlStep} (h : resolution.Steps x)
    (k : x.before.Consistent) (fate : Fate requestId past x.before) :
    Fate requestId (past ++ [x]) x.after := by
  have moves := hitl_moves h
  have same (b : HitlCall) (hb : b ∈ x.before.calls.rows) (at_b : b.requestId = requestId)
      (holds : b.phase.holds = true) :
      ∃ c ∈ x.before.calls.rows, c.requestId = requestId ∧ c.phase.holds = true ∧
        c.id = b.id ∧ c.decision = b.decision ∧
        (b.phase.isResuming = true → c.phase.isResuming = true) :=
    ⟨b, hb, at_b, holds, rfl, rfl, id⟩
  obtain ⟨s, a, label, s'⟩ := x
  dsimp only at k moves fate same
  cases moves with
  | created insert =>
    obtain ⟨rows, inserted, rfl⟩ := Option.map_eq_some_iff.mp insert
    exact fate_of_aloof trivial fate (fun r hr _ => Table.mem_insert_of_mem inserted hr) same
  | called fresh insert =>
    refine fate_of_aloof trivial fate (fun r hr _ => hr) fun b hb at_b holds => ?_
    rcases Table.of_mem_insert insert hb with rfl | old
    · rw [fresh] at holds
      cases holds
    · exact same b old at_b holds
  | moved found holds resuming =>
    exact fate_of_aloof trivial fate (fun r hr _ => hr)
      (calls_of_move found (fun _ => holds) fun _ => resuming)
  | started found start =>
    obtain ⟨_, -, rfl⟩ := Option.map_eq_some_iff.mp start
    exact fate_of_aloof trivial fate (fun r hr _ => hr)
      (calls_of_move (s := { s with store := _ }) found nofun fun _ => rfl)
  | @visited _ store visit =>
    refine fate_of_aloof trivial fate (fun r hr _ => ?_) same
    show r ∈ store.rows.rows
    rw [Store.visit_rows visit]
    exact hr
  | aborted found =>
    exact fate_of_aloof trivial fate (fun r hr _ => hr)
      (calls_of_move (s := { s with store := _ }) found nofun fun _ => rfl)
  | @committed c threadId told store t found commit =>
    obtain ⟨mem, at_id, -⟩ := Store.commit_sessions commit
    have stmt : t.stmt = c.stmt := by
      obtain ⟨b, hb, at_b, stmt⟩ := k.stmts t mem
      cases s.calls.eq_of_key hb (Table.get_mem found).1 (at_b.trans at_id)
      exact stmt
    by_cases wrote : t.writes = []
    · refine fate_of_aloof (by rw [wrote]; trivial) fate
        (fun r hr _ => mem_commit_of_other k commit stmt hr (.inr wrote))
        (calls_of_move (s := { s with store := _ }) found (fun _ holds => ?_) fun _ => ?_)
      · have updated := holds_afterUpdate holds
        simp [wrote] at updated
      · rw [← Bool.not_eq_true]
        intro resuming
        have updated := holds_afterUpdate (holds_of_isResuming resuming)
        simp [wrote] at updated
    · have label : (if t.writes.isEmpty then none
          else some (HitlEvent.wrote c.requestId c.decision.status)) =
          some (.wrote c.requestId c.decision.status) := by
        rw [if_neg (by simpa using wrote)]
      rw [label]
      by_cases at_k : c.requestId = requestId
      · exact fate_of_commit k found commit stmt at_k wrote fate
      · refine fate_of_aloof at_k fate
          (fun r hr at_r => mem_commit_of_other k commit stmt hr (.inl ?_))
          (calls_of_move (s := { s with store := _ }) found (fun at_c => absurd at_c at_k)
            fun at_c => absurd at_c at_k)
        rw [at_r]
        exact Ne.symm at_k
  | @invoked c threadId finished found resuming =>
    by_cases at_k : c.requestId = requestId
    · subst at_k
      have mem := (Table.get_mem found).1
      have holds : c.phase.holds = true := by rw [resuming]; rfl
      cases fate with
      | undecided row none noInv open_ =>
        rw [open_ c mem rfl] at holds
        cases holds
      | decided d winner row one won inv =>
        obtain ⟨at_winner, its⟩ := won c mem rfl holds
        have approve := k.approving c mem (by rw [resuming]; rfl)
        have before : invocationsOf c.requestId past = [] := by
          rcases inv with none | ⟨-, -, done⟩
          · exact none
          · have done := done c mem rfl
            rw [resuming] at done
            cases done
        refine .decided d winner row ?_ (fun b hb at_b held => ?_)
          (.inr ⟨its ▸ approve, ?_, fun b hb at_b => ?_⟩)
        · rw [writesOf_concat, one]
          rfl
        · rcases of_mem_move found hb with rfl | ⟨old, -⟩
          · exact ⟨at_winner, its⟩
          · exact won b old at_b held
        · rw [invocationsOf_concat, before]
          simp [invocationsOf]
        · rcases of_mem_move found hb with rfl | ⟨old, other⟩
          · rfl
          · rw [← Bool.not_eq_true]
            intro stays
            exact other ((won b old at_b (holds_of_isResuming stays)).1.trans at_winner.symm)
    · exact fate_of_aloof at_k fate (fun r hr _ => hr)
        (calls_of_move found (fun at_c => absurd at_c at_k) fun _ => rfl)

theorem resolvedOnce_of_fate {past : List HitlStep} (fate : Fate requestId past s) :
    ResolvedOnce requestId past s := by
  have holds {c : HitlCall} (h : c.succeeded = true) : c.phase.holds = true := by
    unfold HitlCall.succeeded at h
    split at h
    · next at_phase =>
      rw [at_phase]
      exact h
    · cases h
  cases fate with
  | undecided row none noInv open_ =>
    obtain ⟨r, hr, at_id, status⟩ := row
    have no (c : HitlCall) (hc : c ∈ s.calls.rows) (at_c : c.requestId = requestId)
        (h : c.succeeded = true) : False := by
      have held := holds h
      rw [open_ c hc at_c] at held
      cases held
    exact
      { oneSucceeds := fun c hc _ _ at_c _ h _ => (no c hc at_c h).elim
        writtenOnce := by simp [none]
        stored := ⟨r, hr, at_id, by simp [none, status]⟩
        decided := fun c hc at_c h => (no c hc at_c h).elim
        resumedOnce := by simp [noInv]
        approved := fun h => absurd noInv h }
  | decided d winner row one won inv =>
    obtain ⟨r, hr, at_id, status⟩ := row
    exact
      { oneSucceeds := fun c hc c' hc' at_c at_c' h h' =>
          s.calls.eq_of_key hc hc'
            ((won c hc at_c (holds h)).1.trans (won c' hc' at_c' (holds h')).1.symm)
        writtenOnce := by simp [one]
        stored := ⟨r, hr, at_id, by simp [one, status]⟩
        decided := fun c hc at_c h => by rw [one, (won c hc at_c (holds h)).2]
        resumedOnce := by
          rcases inv with none | ⟨-, once, -⟩
          · simp [none]
          · exact once.le
        approved := fun some => by
          rcases inv with none | ⟨approve, -, -⟩
          · exact absurd none some
          · rw [one, approve]
            rfl }

end

/-- For every table of requests, every pending request in it, and every interleaving of
calls by any clients: at most one call on the request succeeds, its status is written at
most once, and is then the decision of the call that succeeds, and a graph is invoked for
it at most once, and only where the decision is to approve. -/
theorem hitl_resolved_once (requests : Table HitlRequest.id) (req : HitlRequest)
    (stored : req ∈ requests.rows) (pending : req.status = .pending)
    (actions : List HitlAction) :
    ResolvedOnce req.id (resolution.run (.idle requests) actions)
      (resolution.final (.idle requests) actions) := by
  have consistent : (HitlService.idle requests).Consistent :=
    ⟨⟨nofun, nofun⟩, nofun, nofun⟩
  have fate : Fate req.id [] (HitlService.idle requests) :=
    .undecided ⟨req, stored, rfl, pending⟩ rfl rfl nofun
  have last := @Machine.history_final _ _ _ resolution
    (fun past s => s.Consistent ∧ Fate req.id past s)
    (fun past x h both => ⟨hitl_consistent_of_step h both.1, fate_of_step h both.1 both.2⟩)
    (.idle requests) actions ⟨consistent, fate⟩
  exact resolvedOnce_of_fate last.2

/-! ## Two operators at once -/

def oneRequest : Table HitlRequest.id := ⟨[⟨reviewedRow, .pending⟩], List.nodup_singleton _⟩

/-- Both calls have read the row before either writes it. -/
def operatorRace : List HitlAction :=
  [.call 0 .reject "request-1", .call 1 .approve "request-1", .run 0 .get, .run 1 .get,
    .run 0 .start, .run 1 .start, .run 1 .visit, .run 1 (.commit true), .run 0 .visit,
    .run 0 (.commit true), .run 1 (.resume true)]

theorem hitl_resolved_once_race :
    ResolvedOnce "request-1" (resolution.run (.idle oneRequest) operatorRace)
        (resolution.final (.idle oneRequest) operatorRace) ∧
      writesOf "request-1" (resolution.run (.idle oneRequest) operatorRace) = [.approved] ∧
      (resolution.final (.idle oneRequest) operatorRace).calls.rows.map (·.succeeded) =
        [true, false] :=
  ⟨hitl_resolved_once oneRequest ⟨reviewedRow, .pending⟩ List.mem_cons_self rfl operatorRace,
    by decide +kernel, by decide +kernel⟩

end LegionForge.Gateway
