import LegionForge.Lib.Machine
import LegionForge.Lib.RowSecurity

/-!
# The rows of a user

Requests share the connections of the gateway's pool, and two session settings of a connection
decide which rows it lets through. `get_user_connection` sets them to its user before its body
runs and clears them afterwards, but a request that is cancelled on the way gives its connection
back as it is. Every statement is a transaction of its own; the other roles are under no policy.

For the bodies the shared tables are as good as a database for each user (`statement_alone`).
A statement that goes to the pool directly sees what the last set-up has left
(`unscoped_sees_iff`).
-/

namespace LegionForge.Gateway

open RowSecurity

variable {δ β : Type}

/-- A row of a table with the policy `user_isolation`, its columns behind the owner as they
are -/
structure ScopedRow (δ : Type) where
  relation : String
  id : String
  userId : String
  columns : δ

def ScopedRow.key (r : ScopedRow δ) : String × String := (r.relation, r.id)

/-- `app.user_id` and `app.bypass_rls` -/
structure SessionSettings where
  userId : Option String
  bypassRls : Option String

namespace SessionSettings

/-- Nothing is set on a new connection. -/
def unset : SessionSettings := ⟨none, none⟩

/-- What `get_user_connection` sets -/
def of (userId : String) : SessionSettings := ⟨some userId, some "off"⟩

/-- `_policy`; a setting that is absent is equal to nothing. -/
def policy (s : SessionSettings) (r : ScopedRow δ) : Bool :=
  s.bypassRls = some "on" || s.userId = some r.userId

end SessionSettings

/-- The block that has a connection: the user of a `get_user_connection`, if it is one, and
whether its body is running. -/
structure ConnectionHolder where
  userId : Option String
  inBody : Bool

structure PooledConnection where
  id : Nat
  settings : SessionSettings
  holder : Option ConnectionHolder

def PooledConnection.put (settings : SessionSettings) (holder : Option ConnectionHolder)
    (c : PooledConnection) : PooledConnection := { c with settings, holder }

theorem PooledConnection.id_put (settings : SessionSettings) (holder : Option ConnectionHolder)
    (c : PooledConnection) : (c.put settings holder).id = c.id := rfl

structure RowStore (δ : Type) where
  rows : Table (ScopedRow.key (δ := δ))
  connections : Table PooledConnection.id

/-- What a role with `BYPASSRLS` or a foreign key does to the rows; no statement gives a row
to another user. -/
structure BypassChange (δ : Type) where
  rewrite : ScopedRow δ → Option (ScopedRow δ)
  keeps : ∀ r r', rewrite r = some r' → r'.userId = r.userId
  new : List (ScopedRow δ)

inductive RowAction (δ β : Type) where
  /-- The pool opens a connection. -/
  | connect (id : Nat)
  /-- A connection is closed, whoever has it. -/
  | discard (id : Nat)
  | enter (id : Nat) (userId : String)
  /-- The settings are set, and the body begins. -/
  | setUser (id : Nat)
  /-- The request ends while they are set, with or without effect. -/
  | interrupted (id : Nat) (took : Bool)
  /-- The body is over, and the settings are cleared, or that has failed. -/
  | leave (id : Nat) (reset : Bool)
  /-- `get_gateway_pool().connection()` -/
  | enterPlain (id : Nat)
  | leavePlain (id : Nat)
  | execute (id : Nat) (stmt : Statement (ScopedRow δ) β)
  | bypass (change : BypassChange δ)

inductive RowLabel (β : Type) where
  | quiet
  | raised
  | changed
  /-- The answer to a statement, and the user of the block it is in -/
  | answered (userId : Option String) (answer : β)

namespace RowStore

variable (s : RowStore δ)

def start (rows : Table (ScopedRow.key (δ := δ))) : RowStore δ := ⟨rows, .empty⟩

def put (id : Nat) (settings : SessionSettings) (holder : Option ConnectionHolder) :
    RowStore δ :=
  { s with
    connections :=
      s.connections.modify id (.put settings holder) (PooledConnection.id_put settings holder) }

/-- The rows of a user -/
def own (userId : String) : List (ScopedRow δ) := s.rows.rows.filter (·.userId = userId)

/-- `app.user_id` of a connection -/
def scope (id : Nat) : Option String := (s.connections.get id).bind (·.settings.userId)

def step : RowAction δ β → Option (RowStore δ × RowLabel β)
  | .connect id => (s.connections.insert ⟨id, .unset, none⟩).map fun connections =>
      ({ s with connections }, .quiet)
  | .discard id =>
    some ({ s with connections := s.connections.discard (·.id = id) }, .quiet)
  | .enter id userId =>
    match s.connections.get id with
    | some ⟨_, settings, none⟩ =>
      some (s.put id settings (some ⟨some userId, false⟩), .quiet)
    | _ => none
  | .setUser id =>
    match s.connections.get id with
    | some ⟨_, _, some ⟨some userId, false⟩⟩ =>
      some (s.put id (.of userId) (some ⟨some userId, true⟩), .quiet)
    | _ => none
  | .interrupted id took =>
    match s.connections.get id with
    | some ⟨_, settings, some ⟨some userId, false⟩⟩ =>
      some (s.put id (if took then .of userId else settings) none, .quiet)
    | _ => none
  | .leave id reset =>
    match s.connections.get id with
    | some ⟨_, settings, some ⟨some _, true⟩⟩ =>
      some (s.put id (if reset then .of "" else settings) none, .quiet)
    | _ => none
  | .enterPlain id =>
    match s.connections.get id with
    | some ⟨_, settings, none⟩ => some (s.put id settings (some ⟨none, true⟩), .quiet)
    | _ => none
  | .leavePlain id =>
    match s.connections.get id with
    | some ⟨_, settings, some ⟨none, true⟩⟩ => some (s.put id settings none, .quiet)
    | _ => none
  | .execute id stmt =>
    match s.connections.get id with
    | some ⟨_, settings, some ⟨userId, true⟩⟩ =>
      match RowSecurity.execute settings.policy stmt s.rows with
      | none => some (s, .raised)
      | some (answer, rows) => some ({ s with rows }, .answered userId answer)
    | _ => none
  | .bypass change =>
    match RowSecurity.change change.rewrite change.new s.rows with
    | none => some (s, .raised)
    | some rows => some ({ s with rows }, .changed)

end RowStore

def userConnections : Machine (RowStore δ) (RowAction δ β) (RowLabel β) where
  step s a := s.step a

abbrev RowStep (δ β : Type) := Machine.Entry (RowStore δ) (RowAction δ β) (RowLabel β)

/-! ## What a step does -/

inductive ScopedMove (s : RowStore δ) : RowAction δ β → RowStore δ → RowLabel β → Prop
  | connected {id : Nat} {connections : Table PooledConnection.id}
      (insert : s.connections.insert ⟨id, .unset, none⟩ = some connections) :
      ScopedMove s (.connect id) { s with connections } .quiet
  | discarded {id : Nat} :
      ScopedMove s (.discard id) { s with connections := s.connections.discard (·.id = id) } .quiet
  | entered {id : Nat} {userId : String} {c : PooledConnection}
      (place : s.connections.get id = some c) :
      ScopedMove s (.enter id userId) (s.put id c.settings (some ⟨some userId, false⟩)) .quiet
  | userSet {id : Nat} {userId : String} {c : PooledConnection}
      (place : s.connections.get id = some c) (holder : c.holder = some ⟨some userId, false⟩) :
      ScopedMove s (.setUser id) (s.put id (.of userId) (some ⟨some userId, true⟩)) .quiet
  | interrupted {id : Nat} {took : Bool} {userId : String} {c : PooledConnection}
      (place : s.connections.get id = some c) (holder : c.holder = some ⟨some userId, false⟩) :
      ScopedMove s (.interrupted id took) (s.put id (if took then .of userId else c.settings) none)
        .quiet
  | left {id : Nat} {reset : Bool} {c : PooledConnection}
      (place : s.connections.get id = some c) :
      ScopedMove s (.leave id reset) (s.put id (if reset then .of "" else c.settings) none) .quiet
  | enteredPlain {id : Nat} {c : PooledConnection} (place : s.connections.get id = some c) :
      ScopedMove s (.enterPlain id) (s.put id c.settings (some ⟨none, true⟩)) .quiet
  | leftPlain {id : Nat} {c : PooledConnection} (place : s.connections.get id = some c) :
      ScopedMove s (.leavePlain id) (s.put id c.settings none) .quiet
  | answered {id : Nat} {stmt : Statement (ScopedRow δ) β} {c : PooledConnection}
      {userId : Option String} {answer : β} {rows : Table (ScopedRow.key (δ := δ))}
      (place : s.connections.get id = some c) (holder : c.holder = some ⟨userId, true⟩)
      (run : execute c.settings.policy stmt s.rows = some (answer, rows)) :
      ScopedMove s (.execute id stmt) { s with rows } (.answered userId answer)
  | raised {a : RowAction δ β}
      (failed : (∃ id stmt, a = .execute id stmt) ∨ ∃ change, a = .bypass change) :
      ScopedMove s a s .raised
  | changed {change : BypassChange δ} {rows : Table (ScopedRow.key (δ := δ))}
      (run : RowSecurity.change change.rewrite change.new s.rows = some rows) :
      ScopedMove s (.bypass change) { s with rows } .changed

theorem scoped_moves {x : RowStep δ β} (h : userConnections.Steps x) :
    ScopedMove x.before x.input x.after x.label := by
  obtain ⟨s, a, label, s'⟩ := x
  have h : s.step a = some (s', label) := h
  cases a with
  | connect id =>
    obtain ⟨connections, insert, same⟩ := Option.map_eq_some_iff.mp h
    cases same
    exact .connected insert
  | discard id =>
    cases h
    exact .discarded
  | enter id userId =>
    simp only [RowStore.step] at h
    split at h
    · next place =>
      cases h
      exact .entered place
    · cases h
  | setUser id =>
    simp only [RowStore.step] at h
    split at h
    · next place =>
      cases h
      exact .userSet place rfl
    · cases h
  | interrupted id took =>
    simp only [RowStore.step] at h
    split at h
    · next place =>
      cases h
      exact .interrupted place rfl
    · cases h
  | leave id reset =>
    simp only [RowStore.step] at h
    split at h
    · next place =>
      cases h
      exact .left place
    · cases h
  | enterPlain id =>
    simp only [RowStore.step] at h
    split at h
    · next place =>
      cases h
      exact .enteredPlain place
    · cases h
  | leavePlain id =>
    simp only [RowStore.step] at h
    split at h
    · next place =>
      cases h
      exact .leftPlain place
    · cases h
  | execute id stmt =>
    simp only [RowStore.step] at h
    split at h
    · next place =>
      split at h
      · cases h
        exact .raised (.inl ⟨id, stmt, rfl⟩)
      · next run =>
        cases h
        exact .answered place rfl run
    · cases h
  | bypass change =>
    simp only [RowStore.step] at h
    split at h
    · cases h
      exact .raised (.inr ⟨change, rfl⟩)
    · next run =>
      cases h
      exact .changed run

/-! ## Settings -/

theorem SessionSettings.policy_eq {s : SessionSettings} (off : s.bypassRls ≠ some "on")
    (r : ScopedRow δ) : s.policy r = decide (s.userId = some r.userId) := by
  simp [policy, off]

/-- The policy is never bypassed, and a body has the settings of its user. -/
def PooledConnection.Scoped (c : PooledConnection) : Prop :=
  c.settings.bypassRls ≠ some "on" ∧
    ∀ userId, c.holder = some ⟨some userId, true⟩ → c.settings = .of userId

def RowStore.Scoped (s : RowStore δ) : Prop := ∀ c ∈ s.connections.rows, c.Scoped

theorem scoped_put {s : RowStore δ} {id : Nat} {c : PooledConnection}
    {settings : SessionSettings} {holder : Option ConnectionHolder} (sound : s.Scoped)
    (place : s.connections.get id = some c)
    (new : PooledConnection.Scoped (c.put settings holder)) :
    (s.put id settings holder).Scoped := by
  intro c' hc
  rcases Table.of_mem_modify place (PooledConnection.id_put settings holder) hc with rfl | ⟨old, -⟩
  · exact new
  · exact sound c' old

theorem scoped_of_step {x : RowStep δ β} (h : userConnections.Steps x) (sound : x.before.Scoped) :
    x.after.Scoped := by
  have moves := scoped_moves h
  obtain ⟨s, a, label, s'⟩ := x
  dsimp only at moves sound ⊢
  have off {id : Nat} {c : PooledConnection} (place : s.connections.get id = some c) :
      c.settings.bypassRls ≠ some "on" := (sound c (Table.get_mem place).1).1
  cases moves with
  | connected insert =>
    intro c hc
    rcases Table.of_mem_insert insert hc with rfl | old
    · exact ⟨by simp [SessionSettings.unset], by simp⟩
    · exact sound c old
  | discarded => exact fun c hc => sound c (List.mem_filter.mp hc).1
  | @entered id userId c place =>
    exact scoped_put sound place ⟨off (c := c) place, by simp [PooledConnection.put]⟩
  | @userSet id userId c place holder =>
    refine scoped_put sound place ⟨by simp [PooledConnection.put, SessionSettings.of], ?_⟩
    intro u same
    cases same
    rfl
  | @interrupted id took userId c place holder =>
    refine scoped_put sound place ⟨?_, by simp [PooledConnection.put]⟩
    cases took
    · exact off (c := c) place
    · simp [PooledConnection.put, SessionSettings.of]
  | @left id reset c place =>
    refine scoped_put sound place ⟨?_, by simp [PooledConnection.put]⟩
    cases reset
    · exact off (c := c) place
    · simp [PooledConnection.put, SessionSettings.of]
  | @enteredPlain id c place =>
    exact scoped_put sound place ⟨off (c := c) place, by simp [PooledConnection.put]⟩
  | @leftPlain id c place =>
    exact scoped_put sound place ⟨off (c := c) place, by simp [PooledConnection.put]⟩
  | _ => exact sound

/-- `app.user_id` of the connection is set to the user. -/
def RowStep.SetsUser (x : RowStep δ β) (id : Nat) (userId : String) : Prop :=
  (x.input = .setUser id ∨ x.input = .interrupted id true) ∧
    ∃ c, x.before.connections.get id = some c ∧ c.holder = some ⟨some userId, false⟩

/-- It is set to something else, cleared, or the connection is closed. -/
def RowStep.Clears (x : RowStep δ β) (id : Nat) : Prop :=
  x.input = .setUser id ∨ x.input = .interrupted id true ∨ x.input = .leave id true ∨
    x.input = .discard id

theorem scope_put {s : RowStore δ} {id : Nat} {c : PooledConnection}
    {settings : SessionSettings} {holder : Option ConnectionHolder}
    (place : s.connections.get id = some c) (id' : Nat) :
    (s.put id settings holder).scope id' =
      if id' = id then settings.userId else s.scope id' := by
  rw [RowStore.scope, RowStore.put, Table.get_modify]
  by_cases same : id' = id
  · rw [if_pos same, if_pos same, same, place]
    rfl
  · rw [if_neg same, if_neg same, RowStore.scope]

theorem scope_of_get {s : RowStore δ} {id : Nat} {c : PooledConnection}
    (place : s.connections.get id = some c) : s.scope id = c.settings.userId := by
  rw [RowStore.scope, place]
  rfl

theorem scope_of_step {x : RowStep δ β} (h : userConnections.Steps x) {id : Nat}
    {userId : String} (real : userId ≠ "") :
    x.after.scope id = some userId ↔
      x.SetsUser id userId ∨ (x.before.scope id = some userId ∧ ¬ x.Clears id) := by
  have moves := scoped_moves h
  obtain ⟨s, a, label, s'⟩ := x
  dsimp only at moves ⊢
  -- a block that keeps the settings
  have kept {id' : Nat} {c : PooledConnection} {holder : Option ConnectionHolder}
      (place : s.connections.get id' = some c) :
      (s.put id' c.settings holder).scope id = s.scope id := by
    rw [scope_put place]
    split
    · next same => rw [same, scope_of_get place]
    · rfl
  cases moves with
  | @connected id' connections insert =>
    have after : ({ s with connections } : RowStore δ).scope id = s.scope id := by
      rw [RowStore.scope, RowStore.scope, Table.get_insert insert]
      split
      · next same =>
        have absent := Table.get_of_insert insert
        dsimp only at absent same
        rw [← same, absent]
        rfl
      · rfl
    simp [after, RowStep.SetsUser, RowStep.Clears]
  | @discarded id' =>
    rw [RowStore.scope, Table.get_discard]
    simp only [RowStep.SetsUser, RowStep.Clears, RowStore.scope]
    cases found : s.connections.get id with
    | none => simp
    | some c =>
      have key : c.id = id := (Table.get_mem found).2
      by_cases same : id = id'
      · simp [Option.filter, key, same]
      · simp [Option.filter, key, same, Ne.symm same]
  | @userSet id' u c place holder =>
    rw [scope_put place]
    by_cases same : id = id'
    · subst same
      simp [RowStep.SetsUser, RowStep.Clears, place, holder, SessionSettings.of]
    · simp [RowStep.SetsUser, RowStep.Clears, same, Ne.symm same]
  | @interrupted id' took u c place holder =>
    cases took with
    | false =>
      rw [if_neg (by decide), kept place]
      simp [RowStep.SetsUser, RowStep.Clears]
    | true =>
      rw [if_pos rfl, scope_put place]
      by_cases same : id = id'
      · subst same
        simp [RowStep.SetsUser, RowStep.Clears, place, holder, SessionSettings.of]
      · simp [RowStep.SetsUser, RowStep.Clears, same, Ne.symm same]
  | @left id' reset c place =>
    cases reset with
    | false =>
      rw [if_neg (by decide), kept place]
      simp [RowStep.SetsUser, RowStep.Clears]
    | true =>
      rw [if_pos rfl, scope_put place]
      by_cases same : id = id'
      · simp [RowStep.SetsUser, RowStep.Clears, same, SessionSettings.of, Ne.symm real]
      · simp [RowStep.SetsUser, RowStep.Clears, same, Ne.symm same]
  | entered place =>
    rw [kept place]
    simp [RowStep.SetsUser, RowStep.Clears]
  | enteredPlain place =>
    rw [kept place]
    simp [RowStep.SetsUser, RowStep.Clears]
  | leftPlain place =>
    rw [kept place]
    simp [RowStep.SetsUser, RowStep.Clears]
  | answered =>
    show s.scope id = some userId ↔ _
    simp [RowStep.SetsUser, RowStep.Clears]
  | raised failed =>
    rcases failed with ⟨id', stmt, rfl⟩ | ⟨change, rfl⟩ <;>
      simp [RowStep.SetsUser, RowStep.Clears]
  | changed =>
    show s.scope id = some userId ↔ _
    simp [RowStep.SetsUser, RowStep.Clears]

/-! ## A database for each user -/

/-- What happens to the rows of a user -/
inductive OwnEvent (δ β : Type) where
  | statement (stmt : Statement (ScopedRow δ) β)
  | change (rewrite : ScopedRow δ → Option (ScopedRow δ)) (new : List (ScopedRow δ))

def OwnEvent.apply (rows : List (ScopedRow δ)) : OwnEvent δ β → List (ScopedRow δ)
  | .statement stmt => (stmt rows).2
  | .change rewrite new => new ++ rows.filterMap rewrite

/-- The statements that are run as the user, and what the other roles do to the rows of the
user and add to them -/
def RowStep.events (userId : String) (x : RowStep δ β) : List (OwnEvent δ β) :=
  match x.input, x.label with
  | .execute id stmt, .answered _ _ =>
    if x.before.scope id = some userId then [.statement stmt] else []
  | .bypass change, .changed =>
    [.change change.rewrite (change.new.filter (·.userId = userId))]
  | _, _ => []

/-- The rows of a user who is alone in a database, after the steps -/
def replay (userId : String) (rows : List (ScopedRow δ)) (past : List (RowStep δ β)) :
    List (ScopedRow δ) :=
  (past.flatMap (RowStep.events userId)).foldl OwnEvent.apply rows

theorem replay_concat (userId : String) (rows : List (ScopedRow δ)) (past : List (RowStep δ β))
    (x : RowStep δ β) : replay userId rows (past ++ [x]) =
      (x.events userId).foldl OwnEvent.apply (replay userId rows past) := by
  simp [replay]

theorem own_of_step {x : RowStep δ β} (h : userConnections.Steps x) (sound : x.before.Scoped)
    (userId : String) :
    x.after.own userId = (x.events userId).foldl OwnEvent.apply (x.before.own userId) := by
  have moves := scoped_moves h
  obtain ⟨s, a, label, s'⟩ := x
  dsimp only at moves sound ⊢
  cases moves with
  | @answered id stmt c user answer rows place holder run =>
    have off := (sound c (Table.get_mem place).1).1
    have policy := SessionSettings.policy_eq (δ := δ) off
    have scope := scope_of_get place
    show rows.rows.filter (fun r => decide (r.userId = userId)) = _
    by_cases same : c.settings.userId = some userId
    · have own : c.settings.policy = fun r : ScopedRow δ => decide (r.userId = userId) := by
        funext r
        rw [policy, same]
        simp [eq_comm]
      have left := filter_execute run
      rw [own] at left
      rw [left]
      simp [RowStep.events, scope, same, OwnEvent.apply, RowStore.own]
    · have apart (r : ScopedRow δ) (mine : decide (r.userId = userId) = true) :
          c.settings.policy r = false := by
        rw [policy]
        simpa [of_decide_eq_true mine] using same
      rw [filter_execute_apart run apart]
      simp [RowStep.events, scope, same, RowStore.own]
  | @changed change rows run =>
    show rows.rows.filter (fun r => decide (r.userId = userId)) = _
    rw [filter_change run fun r r' next => by rw [change.keeps r r' next]]
    rfl
  | raised failed =>
    rcases failed with ⟨id', stmt, rfl⟩ | ⟨change, rfl⟩ <;> rfl
  | _ => rfl

/-- Before each step of a run, the rows of a user are those that the user's own database has. -/
theorem own_of_run (rows : Table (ScopedRow.key (δ := δ))) (actions : List (RowAction δ β))
    {past later : List (RowStep δ β)} {x : RowStep δ β}
    (split : userConnections.run (.start rows) actions = past ++ x :: later) (userId : String) :
    x.before.Scoped ∧
      x.before.own userId = replay userId ((RowStore.start rows).own userId) past := by
  refine (Machine.history_invariant (m := userConnections (δ := δ) (β := β))
    (I := fun past s => s.Scoped ∧
      s.own userId = replay userId ((RowStore.start rows).own userId) past)
    (fun past y step before => ?_) ?_ past x later split).2
  · obtain ⟨sound, own⟩ := before
    exact ⟨scoped_of_step step sound, by rw [own_of_step step sound, own, replay_concat]⟩
  · exact ⟨fun c hc => absurd hc List.not_mem_nil, rfl⟩

/-- What a connection lets a statement see -/
theorem seen_of_scope {s : RowStore δ} (sound : s.Scoped) {id : Nat} {c : PooledConnection}
    (place : s.connections.get id = some c) :
    s.rows.rows.filter c.settings.policy = (s.scope id).elim [] s.own := by
  have policy := SessionSettings.policy_eq (δ := δ) (sound c (Table.get_mem place).1).1
  rw [scope_of_get place]
  cases user : c.settings.userId with
  | none =>
    refine List.filter_eq_nil_iff.mpr fun r _ => ?_
    simp [policy, user]
  | some userId =>
    refine List.filter_congr fun r _ => ?_
    simp [policy, user, eq_comm]

theorem answered_of_label {x : RowStep δ β} (h : userConnections.Steps x) (sound : x.before.Scoped)
    {id : Nat} {stmt : Statement (ScopedRow δ) β} (input : x.input = .execute id stmt)
    {userId : Option String} {answer : β} (label : x.label = .answered userId answer) :
    answer = (stmt ((x.before.scope id).elim [] x.before.own)).1 ∧
      ∀ u, userId = some u → x.before.scope id = some u := by
  have moves := scoped_moves h
  obtain ⟨s, a, label', s'⟩ := x
  dsimp only at moves sound input label ⊢
  subst input label
  cases moves with
  | answered place holder run =>
    refine ⟨?_, ?_⟩
    · rw [← seen_of_scope sound place]
      exact (execute_eq_some run).1
    · rintro u rfl
      rw [scope_of_get place, (sound _ (Table.get_mem place).1).2 u holder]
      rfl

/-- In every run, a statement in the body of `get_user_connection` is answered as if its user
were alone in the database: with what the user's statements and the other roles have made of
the user's rows, whatever other requests do and wherever they are cut off. -/
theorem statement_alone (rows : Table (ScopedRow.key (δ := δ))) (actions : List (RowAction δ β))
    {past later : List (RowStep δ β)} {x : RowStep δ β}
    (split : userConnections.run (.start rows) actions = past ++ x :: later) {id : Nat}
    {stmt : Statement (ScopedRow δ) β} (input : x.input = .execute id stmt) {userId : String}
    {answer : β} (label : x.label = .answered (some userId) answer) :
    answer = (stmt (replay userId ((RowStore.start rows).own userId) past)).1 := by
  obtain ⟨sound, own⟩ := own_of_run rows actions split userId
  obtain ⟨seen, scope⟩ := answered_of_label (Machine.steps_of_run split) sound input label
  rw [seen, scope userId rfl, Option.elim_some, own]

theorem scope_of_run (rows : Table (ScopedRow.key (δ := δ))) (actions : List (RowAction δ β))
    {past later : List (RowStep δ β)} {x : RowStep δ β}
    (split : userConnections.run (.start rows) actions = past ++ x :: later) {id : Nat}
    {userId : String} (real : userId ≠ "") :
    x.before.scope id = some userId ↔
      Machine.Pending (fun y => RowStep.SetsUser y id userId) (fun y => RowStep.Clears y id)
        past := by
  refine (Machine.history_invariant (m := userConnections (δ := δ) (β := β))
    (I := fun past s => s.scope id = some userId ↔
      Machine.Pending (fun y => RowStep.SetsUser y id userId) (fun y => RowStep.Clears y id) past)
    (fun past y step before => ?_) ?_ past x later split).2
  · rw [Machine.pending_concat_iff, scope_of_step step real, before]
  · exact iff_of_false (by simp [RowStore.scope, RowStore.start, Table.get, Table.empty])
      Machine.not_pending_nil

structure SessionColumns where
  sessionId : Option String
  createdAt : Nat

/-- The second statement of `get_session_tasks`: it asks for the session, not for the owner. -/
def sessionTasks (sessionId : String) :
    Statement (ScopedRow SessionColumns) (List (ScopedRow SessionColumns)) := fun rows =>
  let tasks := rows.filter fun r => r.relation = "tasks" && r.columns.sessionId = some sessionId
  (tasks.mergeSort fun a b => a.columns.createdAt ≤ b.columns.createdAt, rows)

theorem session_tasks_own (rows : Table (ScopedRow.key (δ := SessionColumns)))
    (actions : List (RowAction SessionColumns (List (ScopedRow SessionColumns))))
    {past later : List (RowStep SessionColumns (List (ScopedRow SessionColumns)))}
    {x : RowStep SessionColumns (List (ScopedRow SessionColumns))}
    (split : userConnections.run (.start rows) actions = past ++ x :: later) {id : Nat}
    {sessionId : String} (input : x.input = .execute id (sessionTasks sessionId))
    {userId : String} {tasks : List (ScopedRow SessionColumns)}
    (label : x.label = .answered (some userId) tasks) (r : ScopedRow SessionColumns) :
    r ∈ tasks ↔ r ∈ x.before.rows.rows ∧ r.relation = "tasks" ∧
      r.columns.sessionId = some sessionId ∧ r.userId = userId := by
  obtain ⟨sound, -⟩ := own_of_run rows actions split userId
  obtain ⟨seen, scope⟩ := answered_of_label (Machine.steps_of_run split) sound input label
  rw [seen, scope userId rfl, Option.elim_some, sessionTasks, List.mem_mergeSort,
    List.mem_filter, RowStore.own, List.mem_filter]
  simp only [Bool.and_eq_true, decide_eq_true_eq]
  tauto

/-! ## A request is cut off -/

def sampleRows : Table (ScopedRow.key (δ := Unit)) where
  rows := [⟨"tasks", "1", "ann", ()⟩, ⟨"tasks", "2", "bob", ()⟩, ⟨"sessions", "3", "bob", ()⟩]
  keys := by decide

def countRows : Statement (ScopedRow Unit) Nat := fun rows => (rows.length, rows)

/-- Ann's request is cut off while the settings are set. -/
def cutOff : List (RowAction Unit Nat) :=
  [.connect 0, .enter 0 "ann", .interrupted 0 true, .enterPlain 0, .execute 0 countRows,
    .leavePlain 0, .enter 0 "bob", .setUser 0, .execute 0 countRows, .leave 0 true]

theorem bob_alone : ∃ past x later,
    userConnections.run (.start sampleRows) cutOff = past ++ x :: later ∧
      2 = (countRows (replay "bob" ((RowStore.start sampleRows).own "bob") past)).1 := by
  have long : 8 < (userConnections.run (.start sampleRows) cutOff).length := by decide +kernel
  exact ⟨_, _, _, Machine.run_at 8 long,
    statement_alone sampleRows cutOff (Machine.run_at 8 long) rfl rfl⟩

end LegionForge.Gateway
