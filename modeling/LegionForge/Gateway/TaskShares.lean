import LegionForge.Lib.Grants
import LegionForge.Lib.Table

/-!
# Shared tasks

The owner of a task can give out a text under which anyone reads seven of the task's columns,
for some hours or for good, and can take it back. The check that the task is the caller's and
the `INSERT` are two statements, and the task can be gone in between. Whoever deletes a task
deletes its shares with it.

A share is a grant, and `shared_task_iff` says who sees what under which text without the
table of shares.
-/

namespace LegionForge.Gateway

/-! ## The tables -/

/-- The columns of a task that `get_shared_task` returns. -/
structure SharedTask where
  taskId : String
  agentType : String
  status : String
  result : Option String
  steps : Option Int
  createdAt : Nat
  completedAt : Option Nat
  deriving DecidableEq

structure OwnedRecord where
  shown : SharedTask
  userId : String

def OwnedRecord.taskId (r : OwnedRecord) : String := r.shown.taskId

/-- The statements of the worker write to the columns, and not to key and owner. -/
def OwnedRecord.write (f : SharedTask → SharedTask) (r : OwnedRecord) : OwnedRecord :=
  { r with shown := { f r.shown with taskId := r.shown.taskId } }

theorem OwnedRecord.write_taskId (f : SharedTask → SharedTask) (r : OwnedRecord) :
    (r.write f).taskId = r.taskId := rfl

/-- A row of `task_shares` -/
structure ShareRow where
  shareToken : String
  taskId : String
  userId : String
  expiresAt : Option Nat

/-- A `create_task_share` whose first statement has found the task. -/
structure SharingCall where
  id : Nat
  taskId : String
  userId : String
  expiresAt : Option Nat

structure Sharing where
  now : Nat
  tasks : Table OwnedRecord.taskId
  shares : Table ShareRow.shareToken
  calls : Table SharingCall.id

def Sharing.empty : Sharing := ⟨0, .empty, .empty, .empty⟩

/-- `expires_hours`: none, or from an hour to a year -/
structure ExpiresHours where
  hours : Option Nat
  range : ∀ h ∈ hours, 1 ≤ h ∧ h ≤ 8760

/-- An hour, in microseconds -/
def hour : Nat := 3600 * 1000000

def ExpiresHours.expiresAt (e : ExpiresHours) (now : Nat) : Option Nat :=
  e.hours.map fun h => now + h * hour

inductive SharingAction where
  | elapse (dt : Nat)
  | createTask (row : OwnedRecord)
  | writeTask (taskId : String) (f : SharedTask → SharedTask)
  | deleteTasks (gone : OwnedRecord → Bool)
  /-- `share_task` up to the `SELECT` of `create_task_share` -/
  | shareTask (id : Nat) (taskId userId : String) (expires : ExpiresHours)
  /-- The `INSERT`, with the text that was generated -/
  | insertShare (id : Nat) (token : String)
  | revokeTaskShare (shareToken userId : String)
  | getSharedTask (shareToken : String)

inductive SharingLabel where
  | quiet
  | notFound
  | raised
  | created (shareToken : String)
  | revoked
  | shown (task : SharedTask)
  deriving DecidableEq

section
variable (asUuid : String → Option String)

/-- The `JOIN` of `get_shared_task` -/
def Sharing.getSharedTask (s : Sharing) (shareToken : String) : Option SharedTask :=
  (((s.shares.get shareToken).filter fun r =>
      match r.expiresAt with
      | none => true
      | some t => s.now < t).bind fun r => s.tasks.get r.taskId).map (·.shown)

/-- `revoke_task_share` -/
def Sharing.revokes (shareToken userId : String) (r : ShareRow) : Bool :=
  r.shareToken = shareToken && r.userId = userId

/-- The tasks are deleted, and their shares with them. -/
def Sharing.deleteTasks (s : Sharing) (gone : OwnedRecord → Bool) : Sharing :=
  { s with
    tasks := s.tasks.discard gone
    shares := s.shares.discard fun r => (s.tasks.get r.taskId).any gone }

def Sharing.step (s : Sharing) : SharingAction → Option (Sharing × SharingLabel)
  | .elapse dt => some ({ s with now := s.now + dt }, .quiet)
  | .createTask row => (s.tasks.insert row).map fun tasks => ({ s with tasks }, .quiet)
  | .writeTask taskId f =>
    some ({ s with tasks := s.tasks.modify taskId (.write f) (OwnedRecord.write_taskId f) }, .quiet)
  | .deleteTasks gone => some (s.deleteTasks gone, .quiet)
  | .shareTask id taskId userId expires =>
    match asUuid taskId with
    | none => some (s, .raised)
    | some key =>
      match (s.tasks.get key).filter (·.userId = userId) with
      | none => some (s, .notFound)
      | some _ => (s.calls.insert ⟨id, key, userId, expires.expiresAt s.now⟩).map fun calls =>
        ({ s with calls }, .quiet)
  | .insertShare id token =>
    (s.calls.get id).map fun c =>
      let s' := { s with calls := s.calls.discard (·.id = id) }
      -- the foreign key
      if (s.tasks.get c.taskId).isNone then (s', .raised)
      else match s.shares.insert ⟨token, c.taskId, c.userId, c.expiresAt⟩ with
        | none => (s', .raised)
        | some shares => ({ s' with shares }, .created token)
  | .revokeTaskShare shareToken userId =>
    if (s.shares.get shareToken).any (Sharing.revokes shareToken userId) then
      some ({ s with shares := s.shares.discard (Sharing.revokes shareToken userId) }, .revoked)
    else some (s, .notFound)
  | .getSharedTask shareToken =>
    match s.getSharedTask shareToken with
    | none => some (s, .notFound)
    | some task => some (s, .shown task)

def sharing : Machine Sharing SharingAction SharingLabel where
  step s a := s.step asUuid a

end

abbrev SharingStep := Machine.Entry Sharing SharingAction SharingLabel

/-! ## What a step does -/

section
variable {asUuid : String → Option String}

inductive SharingMove (asUuid : String → Option String) (s : Sharing) :
    SharingAction → Sharing → SharingLabel → Prop
  | elapsed {dt : Nat} : SharingMove asUuid s (.elapse dt) { s with now := s.now + dt } .quiet
  | taskCreated {row : OwnedRecord} {tasks : Table OwnedRecord.taskId}
      (insert : s.tasks.insert row = some tasks) :
      SharingMove asUuid s (.createTask row) { s with tasks } .quiet
  | taskWritten {taskId : String} {f : SharedTask → SharedTask} :
      SharingMove asUuid s (.writeTask taskId f)
        { s with tasks := s.tasks.modify taskId (.write f) (OwnedRecord.write_taskId f) } .quiet
  | tasksDeleted {gone : OwnedRecord → Bool} :
      SharingMove asUuid s (.deleteTasks gone) (s.deleteTasks gone) .quiet
  | checked {id : Nat} {taskId key userId : String} {expires : ExpiresHours} {row : OwnedRecord}
      {calls : Table SharingCall.id} (uuid : asUuid taskId = some key)
      (found : s.tasks.get key = some row) (owner : row.userId = userId)
      (insert : s.calls.insert ⟨id, key, userId, expires.expiresAt s.now⟩ = some calls) :
      SharingMove asUuid s (.shareTask id taskId userId expires) { s with calls } .quiet
  | refused {id : Nat} {taskId userId : String} {expires : ExpiresHours} {l : SharingLabel} :
      SharingMove asUuid s (.shareTask id taskId userId expires) s l
  | failed {id : Nat} {token : String} :
      SharingMove asUuid s (.insertShare id token)
        { s with calls := s.calls.discard (·.id = id) } .raised
  | created {id : Nat} {token : String} {c : SharingCall} {row : OwnedRecord}
      {shares : Table ShareRow.shareToken} (place : s.calls.get id = some c)
      (found : s.tasks.get c.taskId = some row)
      (insert : s.shares.insert ⟨token, c.taskId, c.userId, c.expiresAt⟩ = some shares) :
      SharingMove asUuid s (.insertShare id token)
        { s with calls := s.calls.discard (·.id = id), shares } (.created token)
  | revoked {shareToken userId : String} :
      SharingMove asUuid s (.revokeTaskShare shareToken userId)
        { s with shares := s.shares.discard (Sharing.revokes shareToken userId) } .revoked
  | notRevoked {shareToken userId : String}
      (other : (s.shares.get shareToken).any (Sharing.revokes shareToken userId) = false) :
      SharingMove asUuid s (.revokeTaskShare shareToken userId) s .notFound
  | absent {shareToken : String} (none : s.getSharedTask shareToken = none) :
      SharingMove asUuid s (.getSharedTask shareToken) s .notFound
  | shown {shareToken : String} {task : SharedTask}
      (found : s.getSharedTask shareToken = some task) :
      SharingMove asUuid s (.getSharedTask shareToken) s (.shown task)

theorem sharing_moves {x : SharingStep} (h : (sharing asUuid).Steps x) :
    SharingMove asUuid x.before x.input x.after x.label := by
  obtain ⟨s, a, label, s'⟩ := x
  have h : s.step asUuid a = some (s', label) := h
  cases a with
  | elapse dt =>
    cases h
    exact .elapsed
  | createTask row =>
    obtain ⟨tasks, insert, same⟩ := Option.map_eq_some_iff.mp h
    cases same
    exact .taskCreated insert
  | writeTask taskId f =>
    cases h
    exact .taskWritten
  | deleteTasks gone =>
    cases h
    exact .tasksDeleted
  | shareTask id taskId userId expires =>
    simp only [Sharing.step] at h
    split at h
    · cases h
      exact .refused
    · next key uuid =>
      split at h
      · cases h
        exact .refused
      · next row found =>
        obtain ⟨found, owner⟩ := Option.filter_eq_some_iff.mp found
        obtain ⟨calls, insert, same⟩ := Option.map_eq_some_iff.mp h
        cases same
        exact .checked uuid found (of_decide_eq_true owner) insert
  | insertShare id token =>
    obtain ⟨c, place, same⟩ := Option.map_eq_some_iff.mp h
    cases found : s.tasks.get c.taskId with
    | none =>
      simp only [found, Option.isNone_none, if_true] at same
      cases same
      exact .failed
    | some row =>
      simp only [found, Option.isNone_some, Bool.false_eq_true, if_false] at same
      cases insert : s.shares.insert ⟨token, c.taskId, c.userId, c.expiresAt⟩ with
      | none =>
        simp only [insert] at same
        cases same
        exact .failed
      | some shares =>
        simp only [insert] at same
        cases same
        exact .created place found insert
  | revokeTaskShare shareToken userId =>
    simp only [Sharing.step] at h
    split at h
    · cases h
      exact .revoked
    · next other =>
      cases h
      exact .notRevoked (Bool.eq_false_iff.mpr other)
  | getSharedTask shareToken =>
    simp only [Sharing.step] at h
    split at h
    · next none =>
      cases h
      exact .absent none
    · next task found =>
      cases h
      exact .shown found

/-! ## Shares are grants -/

/-- A row of a share for a task of its owner -/
def SharingStep.Issues (x : SharingStep) (k : String) (g : Grant (String × String)) : Prop :=
  x.label = .created k ∧ ∃ id c, x.input = .insertShare id k ∧ x.before.calls.get id = some c ∧
    g = ⟨(c.taskId, c.userId), c.expiresAt⟩

/-- Its user takes it back, or the task is deleted. -/
def SharingStep.Withdraws (x : SharingStep) (k : String) (g : Grant (String × String)) : Prop :=
  x.input = .revokeTaskShare k g.value.2 ∨
    ∃ gone row, x.input = .deleteTasks gone ∧ x.before.tasks.get g.value.1 = some row ∧
      gone row = true

def taskShares : Machine.Keeper Sharing SharingAction SharingLabel String (String × String) where
  clock := Sharing.now
  held s k := (s.shares.get k).map fun r => ⟨(r.taskId, r.userId), r.expiresAt⟩
  issues := SharingStep.Issues
  withdraws := SharingStep.Withdraws

theorem held_eq_some_iff {s : Sharing} {k : String} {g : Grant (String × String)} :
    taskShares.held s k = some g ↔
      s.shares.get k = some ⟨k, g.value.1, g.value.2, g.expiresAt⟩ := by
  show ((s.shares.get k).map fun r => (⟨(r.taskId, r.userId), r.expiresAt⟩ : Grant _)) = _ ↔ _
  rw [Option.map_eq_some_iff]
  constructor
  · rintro ⟨r, found, rfl⟩
    obtain ⟨-, rfl⟩ := Table.get_mem found
    exact found
  · intro found
    exact ⟨_, found, rfl⟩

/-- A row stays unless it is withdrawn. -/
theorem held_discard {s : Sharing} {gone : ShareRow → Bool} {k : String}
    {g : Grant (String × String)} :
    (s.shares.discard gone).get k = some ⟨k, g.value.1, g.value.2, g.expiresAt⟩ ↔
      taskShares.held s k = some g ∧ gone ⟨k, g.value.1, g.value.2, g.expiresAt⟩ = false := by
  rw [Table.get_discard, Option.filter_eq_some_iff, held_eq_some_iff, Bool.not_eq_true']

theorem keeps_task_shares : Machine.Keeps (sharing asUuid) taskShares fun _ => True where
  clock {x} step := by
    have moves := sharing_moves step
    obtain ⟨s, a, label, s'⟩ := x
    show s.now ≤ s'.now
    dsimp only at moves
    cases moves with
    | elapsed => exact Nat.le_add_right _ _
    | _ => exact Nat.le_refl _
  issued {x k g} step _ issue := by
    have moves := sharing_moves step
    obtain ⟨label, id, c, input, place, rfl⟩ := issue
    obtain ⟨s, a, _, s'⟩ := x
    dsimp only at moves label input place
    subst label input
    cases moves with
    | created place' found insert =>
      cases place.symm.trans place'
      exact held_eq_some_iff.mpr (Table.get_insert_self insert)
  kept {x k g} step _ old stays _ := by
    have moves := sharing_moves step
    obtain ⟨s, a, label, s'⟩ := x
    dsimp only at moves old
    have stays : ¬ SharingStep.Withdraws ⟨s, a, label, s'⟩ k g := stays
    cases moves with
    | created place found insert =>
      exact held_eq_some_iff.mpr (Table.get_insert_of_get insert (held_eq_some_iff.mp old))
    | @tasksDeleted gone =>
      refine held_eq_some_iff.mpr (held_discard.mpr ⟨old, ?_⟩)
      rw [Bool.eq_false_iff]
      intro deleted
      obtain ⟨row, found, hit⟩ := (Option.any_eq_true _ _).mp deleted
      exact stays (.inr ⟨gone, row, rfl, found, hit⟩)
    | @revoked shareToken userId =>
      refine held_eq_some_iff.mpr (held_discard.mpr ⟨old, ?_⟩)
      rw [Bool.eq_false_iff]
      intro revoked
      obtain ⟨rfl, rfl⟩ : k = shareToken ∧ g.value.2 = userId := by
        simpa [Sharing.revokes] using revoked
      exact stays (.inl rfl)
    | _ => exact old
  entered {x k g} step _ after := by
    have moves := sharing_moves step
    obtain ⟨s, a, label, s'⟩ := x
    dsimp only at moves after ⊢
    show SharingStep.Issues _ k g ∨ (_ ∧ ¬ SharingStep.Withdraws _ k g)
    cases moves with
    | @created id token c row shares place found insert =>
      obtain ⟨⟨taskId, userId⟩, expiresAt⟩ := g
      have row' := held_eq_some_iff.mp after
      rcases Table.of_mem_insert insert (Table.get_mem row').1 with new | old
      · cases new
        exact .inl ⟨rfl, id, c, rfl, place, rfl⟩
      · refine .inr ⟨held_eq_some_iff.mpr (Table.get_of_mem old), ?_⟩
        simp [SharingStep.Withdraws]
    | @tasksDeleted gone =>
      obtain ⟨old, stays⟩ := held_discard.mp (held_eq_some_iff.mp after)
      refine .inr ⟨old, ?_⟩
      rintro (input | ⟨gone', row, input, found, hit⟩)
      · cases input
      · cases input
        simp [found, hit] at stays
    | @revoked shareToken userId =>
      obtain ⟨old, stays⟩ := held_discard.mp (held_eq_some_iff.mp after)
      refine .inr ⟨old, ?_⟩
      rintro (input | ⟨gone', row, input, found, hit⟩)
      · cases input
        simp [Sharing.revokes] at stays
      · cases input
    | @notRevoked shareToken userId other =>
      refine .inr ⟨after, ?_⟩
      rintro (input | ⟨gone', row, input, found, hit⟩)
      · cases input
        simp [held_eq_some_iff.mp after, Sharing.revokes] at other
      · cases input
    | _ =>
      refine .inr ⟨after, ?_⟩
      simp [SharingStep.Withdraws]

/-- The foreign key: the task of a share exists. -/
theorem task_of_share (actions : List SharingAction) {past later : List SharingStep}
    {x : SharingStep} (split : (sharing asUuid).run .empty actions = past ++ x :: later) :
    ∀ r ∈ x.before.shares.rows, ∃ row, x.before.tasks.get r.taskId = some row := by
  refine (Machine.history_invariant (m := sharing asUuid)
    (I := fun _ s => ∀ r ∈ s.shares.rows, ∃ row, s.tasks.get r.taskId = some row)
    (fun _ y step known => ?_) (fun r hr => absurd hr List.not_mem_nil) past x later split).2
  intro r hr
  have moves := sharing_moves step
  obtain ⟨s, a, label, s'⟩ := y
  dsimp only at moves hr known ⊢
  cases moves with
  | taskCreated insert =>
    obtain ⟨row, found⟩ := known r hr
    exact ⟨row, Table.get_insert_of_get insert found⟩
  | taskWritten =>
    obtain ⟨row, found⟩ := known r hr
    rw [Table.get_modify, found]
    split <;> exact ⟨_, rfl⟩
  | @tasksDeleted gone =>
    obtain ⟨old, stays⟩ := List.mem_filter.mp hr
    obtain ⟨row, found⟩ := known r old
    refine ⟨row, ?_⟩
    show (s.tasks.discard gone).get r.taskId = some row
    rw [Table.get_discard, found, Option.filter_eq_some_iff]
    exact ⟨rfl, by simpa [found] using stays⟩
  | created place found insert =>
    rcases Table.of_mem_insert insert hr with rfl | old
    · exact ⟨_, found⟩
    · exact known r old
  | revoked => exact known r (List.mem_filter.mp hr).1
  | _ => exact known r hr

/-! ## Who sees a task -/

/-- The user owned the task when the share was asked for. -/
def AskedByOwner (asUuid : String → Option String) (past : List SharingStep)
    (owned : String × String) (expiresAt : Option Nat) : Prop :=
  ∃ w ∈ past, ∃ id taskId expires row, w.input = .shareTask id taskId owned.2 expires ∧
    asUuid taskId = some owned.1 ∧ w.before.tasks.get owned.1 = some row ∧
    row.userId = owned.2 ∧ expiresAt = expires.expiresAt w.before.now

def Checked (s : Sharing) (c : SharingCall) : Prop := c ∈ s.calls.rows

theorem checked_of_step {x : SharingStep} (h : (sharing asUuid).Steps x) (c : SharingCall)
    (after : Checked x.after c) :
    (∃ taskId expires row, x.input = .shareTask c.id taskId c.userId expires ∧
      asUuid taskId = some c.taskId ∧ x.before.tasks.get c.taskId = some row ∧
      row.userId = c.userId ∧ c.expiresAt = expires.expiresAt x.before.now) ∨
      Checked x.before c := by
  have moves := sharing_moves h
  obtain ⟨s, a, label, s'⟩ := x
  have hc : c ∈ s'.calls.rows := after
  show _ ∨ c ∈ s.calls.rows
  dsimp only at moves ⊢
  cases moves with
  | checked uuid found owner insert =>
    rcases Table.of_mem_insert insert hc with rfl | old
    · exact .inl ⟨_, _, _, rfl, uuid, found, owner, rfl⟩
    · exact .inr old
  | failed => exact .inr (List.mem_filter.mp hc).1
  | created place found insert => exact .inr (List.mem_filter.mp hc).1
  | _ => exact .inr hc

theorem asked_of_granted (actions : List SharingAction) {past later : List SharingStep}
    {x : SharingStep} (split : (sharing asUuid).run .empty actions = past ++ x :: later)
    {k : String} {g : Grant (String × String)} (granted : taskShares.Granted past k g) :
    AskedByOwner asUuid past g.value g.expiresAt := by
  obtain ⟨pre, z, mid, rfl, issue, -⟩ := granted
  obtain ⟨-, id, c, input, place, rfl⟩ := issue
  rw [List.append_assoc, List.cons_append] at split
  have none : ∀ c, ¬ Checked .empty c := fun c hc => absurd hc List.not_mem_nil
  obtain ⟨a, w, b, rfl, taskId, expires, row, asked, uuid, found, owner, until_⟩ :=
    Machine.history_entered (fun _ h => checked_of_step h) none split (Table.get_mem place).1
  exact ⟨w, by simp, c.id, taskId, expires, row, asked, uuid, found, owner, until_⟩

theorem getSharedTask_eq_some_iff {s : Sharing} {k : String} {task : SharedTask} :
    s.getSharedTask k = some task ↔ ∃ g row, taskShares.held s k = some g ∧
      g.isOpen s.now = true ∧ s.tasks.get g.value.1 = some row ∧ row.shown = task := by
  unfold Sharing.getSharedTask
  rw [Option.map_eq_some_iff]
  constructor
  · rintro ⟨row, joined, columns⟩
    obtain ⟨r, share, found⟩ := Option.bind_eq_some_iff.mp joined
    obtain ⟨share, open_⟩ := Option.filter_eq_some_iff.mp share
    refine ⟨⟨(r.taskId, r.userId), r.expiresAt⟩, row, ?_, open_, found, columns⟩
    obtain ⟨-, rfl⟩ := Table.get_mem share
    exact held_eq_some_iff.mpr share
  · rintro ⟨g, row, held, open_, found, columns⟩
    have share := held_eq_some_iff.mp held
    refine ⟨row, ?_, columns⟩
    exact Option.bind_eq_some_iff.mpr ⟨_, Option.filter_eq_some_iff.mpr ⟨share, open_⟩, found⟩

/-- In every run, what is seen under a text are the columns that the task has now, exactly
if the text was given out for the task, to someone who owned it when asking, and has been
neither taken back by them nor outlived, and the task was not deleted. -/
theorem shared_task_iff (asUuid : String → Option String) (actions : List SharingAction)
    {past later : List SharingStep} {x : SharingStep}
    (split : (sharing asUuid).run .empty actions = past ++ x :: later) {shareToken : String}
    (input : x.input = .getSharedTask shareToken) {task : SharedTask} :
    x.label = .shown task ↔ ∃ g row, taskShares.Granted past shareToken g ∧
      AskedByOwner asUuid past g.value g.expiresAt ∧ g.isOpen x.before.now = true ∧
      x.before.tasks.get g.value.1 = some row ∧ row.shown = task := by
  have step := Machine.steps_of_run split
  have label : x.label = .shown task ↔ x.before.getSharedTask shareToken = some task := by
    have moves := sharing_moves step
    obtain ⟨s, a, label, s'⟩ := x
    dsimp only at moves input ⊢
    subst input
    cases moves with
    | absent none => simp [none]
    | shown found => simp [found]
  have agree {g : Grant (String × String)} (open_ : g.isOpen x.before.now = true) :=
    keeps_task_shares.held_iff (fun _ => rfl) (fun _ _ => trivial) split (k := shareToken) open_
  rw [label, getSharedTask_eq_some_iff]
  constructor
  · rintro ⟨g, row, held, open_, found, columns⟩
    have granted := (agree open_).mp held
    exact ⟨g, row, granted, asked_of_granted actions split granted, open_, found, columns⟩
  · rintro ⟨g, row, granted, -, open_, found, columns⟩
    exact ⟨g, row, (agree open_).mpr granted, open_, found, columns⟩

end

/-! ## A result for a day -/

def report : SharedTask := ⟨"task-1", "researcher", "complete", some "42", some 3, 0, some 9⟩

def sharedForADay : List SharingAction :=
  [.createTask ⟨report, "ann"⟩, .shareTask 0 "task-1" "ann" ⟨some 24, by simp⟩,
    .insertShare 0 "text-1", .revokeTaskShare "text-1" "bob", .getSharedTask "text-1",
    .elapse (24 * hour), .getSharedTask "text-1"]

/-- Nobody else can take it back, and it ends with the day. -/
theorem report_shared : ((sharing some).run .empty sharedForADay).map (·.label) =
      [.quiet, .quiet, .created "text-1", .notFound, .shown report, .quiet, .notFound] ∧
    ∃ past x later, (sharing some).run .empty sharedForADay = past ++ x :: later ∧
      ∃ g row, taskShares.Granted past "text-1" g ∧ AskedByOwner some past g.value g.expiresAt ∧
        g.isOpen x.before.now = true ∧ x.before.tasks.get g.value.1 = some row ∧
        row.shown = report := by
  have long : 4 < ((sharing some).run .empty sharedForADay).length := by decide +kernel
  refine ⟨by decide +kernel, _, _, _, Machine.run_at 4 long, ?_⟩
  exact (shared_task_iff some sharedForADay (Machine.run_at 4 long) rfl).mp rfl

end LegionForge.Gateway
