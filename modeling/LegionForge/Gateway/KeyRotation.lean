import LegionForge.Gateway.StreamAccess

/-!
# After a rotation of the API key

The new hash counts from the `UPDATE` of a rotation on, and its `DELETE` takes the stream
tokens of the user that it finds in the table. A request that the old key has let in before
may still be given a token, and if that is after the `DELETE` has looked, it is not among the
rows that were found. What Redis holds is left to its expiry.
-/

namespace LegionForge.Gateway

section
variable {env : AccessEnv}

/-! ## The accounts -/

theorem get_update (t : UserTable) {f : GatewayUser → GatewayUser}
    (keys : ∀ r, (f r).userId = r.userId) (names : ∀ r, (f r).username = r.username)
    (userId : String) : (t.update f keys names).get userId = (t.get userId).map f :=
  Table.get_mapRows t.table keys userId

theorem get_rotateKey (t : UserTable) (userId newKeyHash : String) {row : GatewayUser}
    (found : t.get userId = some row) :
    (t.rotateKey userId newKeyHash).get userId = some { row with apiKeyHash := newKeyHash } := by
  have key : row.userId = userId := (Table.get_mem found).2
  rw [UserTable.rotateKey, get_update, found, Option.map_some, if_pos key]

theorem get_rotateKey_of_ne (t : UserTable) {userId other newKeyHash : String}
    {row : GatewayUser} (found : t.get userId = some row) (ne : userId ≠ other) :
    (t.rotateKey other newKeyHash).get userId = some row := by
  have key : row.userId = userId := (Table.get_mem found).2
  rw [UserTable.rotateKey, get_update, found, Option.map_some, if_neg (key ▸ ne)]

theorem hash_deactivate (t : UserTable) (username : String) {userId : String}
    {row : GatewayUser} (found : t.get userId = some row) :
    ∃ row', (t.deactivate username).get userId = some row' ∧
      row'.apiKeyHash = row.apiKeyHash := by
  rw [UserTable.deactivate, get_update, found, Option.map_some]
  refine ⟨_, rfl, ?_⟩
  split <;> rfl

theorem get_insert_getD {t : UserTable} {user row : GatewayUser} {userId : String}
    (found : t.get userId = some row) : ((t.insert user).getD t).get userId = some row := by
  cases insert : t.insert user with
  | none => exact found
  | some t' =>
    unfold UserTable.insert at insert
    split at insert
    · cases insert
    · next table inserted =>
      split at insert
      · cases insert
      · cases insert
        exact Table.get_insert_of_get inserted found

/-- The hash of the user's key is rewritten. -/
def AccessStep.Rotates (x : AccessStep) (userId keyHash : String) : Prop :=
  ∃ id, x.input = .rotateUpdate id userId keyHash

/-- An account stays, and only a rotation changes its hash. -/
theorem hash_of_step {x : AccessStep} (h : (streamGate env).Steps x) {userId : String}
    {row : GatewayUser} (found : x.before.users.get userId = some row) :
    ∃ row', x.after.users.get userId = some row' ∧
      (row'.apiKeyHash = row.apiKeyHash ∨ x.Rotates userId row'.apiKeyHash) := by
  have moves := access_moves h
  obtain ⟨s, a, label, s'⟩ := x
  dsimp only at moves found ⊢
  cases moves with
  | userCreated => exact ⟨row, get_insert_getD found, .inl rfl⟩
  | deactivated =>
    obtain ⟨row', found', same⟩ := hash_deactivate s.users _ found
    exact ⟨row', found', .inl same⟩
  | @rotating id userId' newKeyHash _ _ _ =>
    by_cases same : userId = userId'
    · subst same
      exact ⟨_, get_rotateKey s.users userId newKeyHash found, .inr ⟨id, rfl⟩⟩
    · exact ⟨row, get_rotateKey_of_ne s.users found same, .inl rfl⟩
  | _ => exact ⟨row, found, .inl rfl⟩

/-- A rotation of this number is at work for the user. -/
def Rotating (s : StreamGate) (call : Nat × String) : Prop :=
  ∃ r ∈ s.rotations.rows, r.id = call.1 ∧ r.userId = call.2

theorem rotating_of_step {x : AccessStep} (h : (streamGate env).Steps x) (call : Nat × String)
    (after : Rotating x.after call) :
    (∃ keyHash, x.input = .rotateUpdate call.1 call.2 keyHash ∧
      ∃ row, x.after.users.get call.2 = some row ∧ row.apiKeyHash = keyHash) ∨
        Rotating x.before call := by
  have moves := access_moves h
  obtain ⟨s, a, label, s'⟩ := x
  obtain ⟨id, userId⟩ := call
  obtain ⟨r, hr, rfl, rfl⟩ := after
  dsimp only at moves hr ⊢
  cases moves with
  | @rotating _ userId keyHash _ known insert =>
    rcases Table.of_mem_insert insert hr with rfl | old
    · obtain ⟨row, account⟩ := Option.isSome_iff_exists.mp (by simpa using known)
      exact .inl ⟨keyHash, rfl, _, get_rotateKey s.users userId keyHash account, rfl⟩
    · exact .inr ⟨r, old, rfl, rfl⟩
  | @rowsDeleted _ r' place _ =>
    rcases Table.of_mem_modify (f := .find _) place (fun _ => rfl) hr with rfl | ⟨old, -⟩
    · exact .inr ⟨r', (Table.get_mem place).1, rfl, rfl⟩
    · exact .inr ⟨r, old, rfl, rfl⟩
  | rotated => exact .inr ⟨r, (List.mem_filter.mp hr).1, rfl, rfl⟩
  | aborted => exact .inr ⟨r, (List.mem_filter.mp hr).1, rfl, rfl⟩
  | _ => exact .inr ⟨r, hr, rfl, rfl⟩

/-- From an `UPDATE` on, the hash of the user is that of a rotation since. -/
theorem hash_since {s : StreamGate} {actions : List AccessAction} {u x : AccessStep}
    {mid later : List AccessStep} (split : (streamGate env).run s actions = mid ++ x :: later)
    (start : s = u.after) {userId : String}
    (known : ∃ row, u.after.users.get userId = some row ∧ u.Rotates userId row.apiKeyHash) :
    ∃ row, x.before.users.get userId = some row ∧
      ∃ w ∈ u :: mid, w.Rotates userId row.apiKeyHash := by
  subst start
  refine (Machine.history_invariant (m := streamGate env)
    (I := fun past s => ∃ row, s.users.get userId = some row ∧
      ∃ w ∈ u :: past, AccessStep.Rotates w userId row.apiKeyHash)
    (fun past y step before => ?_) ?_ mid x later split).2
  · obtain ⟨row, found, w, hw, rotates⟩ := before
    obtain ⟨row', found', same | again⟩ := hash_of_step step found
    · refine ⟨row', found', w, ?_, same ▸ rotates⟩
      rw [← List.cons_append]
      exact List.mem_append_left _ hw
    · exact ⟨row', found', y, by simp, again⟩
  · obtain ⟨row, found, rotates⟩ := known
    exact ⟨row, found, u, List.mem_cons_self, rotates⟩

/-- Who is let in by a key has an account with a hash that the key fits. -/
theorem row_of_authenticate {s : StreamGate} {key userId : String}
    (h : s.authenticate env key = some userId) :
    ∃ row, s.users.get userId = some row ∧ env.checkpw key row.apiKeyHash = true := by
  obtain ⟨user, accepted, rfl⟩ := Option.map_eq_some_iff.mp h
  unfold apiKeyAuthenticate at accepted
  split at accepted
  · cases accepted
  · obtain ⟨row, found, rfl⟩ := Option.map_eq_some_iff.mp accepted
    have fits := List.find?_some found
    rw [Bool.and_eq_true] at fits
    obtain ⟨mem, -⟩ := List.mem_filter.mp (List.mem_of_find?_eq_some found)
    exact ⟨row, Table.get_of_mem mem, fits.2⟩

/-! ## The tokens -/

/-- The tokens of a user that a `DELETE` finds -/
def StreamGate.rowsOf (s : StreamGate) (userId : String) : List String :=
  (s.tokens.rows.rows.filter (·.userId = userId)).map (·.token)

theorem mem_rowsOf {s : StreamGate} {token taskId userId : String} {expiresAt : Option Nat}
    (held : s.tokens.held (false, token) = some ⟨(taskId, userId), expiresAt⟩) :
    token ∈ s.rowsOf userId := by
  rw [TokenStores.held_row] at held
  obtain ⟨r, found, same⟩ := Option.map_eq_some_iff.mp held
  obtain ⟨mem, rfl⟩ := Table.get_mem found
  cases same
  exact List.mem_map_of_mem (List.mem_filter.mpr ⟨mem, decide_eq_true rfl⟩)

def Deleting (s : StreamGate) (r : KeyRotation) : Prop :=
  r ∈ s.rotations.rows ∧ r.deleted ≠ none

theorem deleting_of_step {x : AccessStep} (h : (streamGate env).Steps x) (r : KeyRotation)
    (after : Deleting x.after r) :
    (x.input = .rotateDelete r.id ∧ r.deleted = some (x.before.rowsOf r.userId) ∧
      Rotating x.before (r.id, r.userId)) ∨ Deleting x.before r := by
  obtain ⟨hr, found⟩ := after
  have moves := access_moves h
  obtain ⟨s, a, label, s'⟩ := x
  dsimp only at moves hr ⊢
  cases moves with
  | rotating known insert =>
    rcases Table.of_mem_insert insert hr with rfl | old
    · exact absurd rfl found
    · exact .inr ⟨old, found⟩
  | @rowsDeleted id r' place first =>
    rcases Table.of_mem_modify (f := .find _) place (fun _ => rfl) hr with rfl | ⟨old, -⟩
    · obtain ⟨mem, rfl⟩ := Table.get_mem place
      exact .inl ⟨rfl, rfl, r', mem, rfl, rfl⟩
    · exact .inr ⟨old, found⟩
  | rotated place _ => exact .inr ⟨(List.mem_filter.mp hr).1, found⟩
  | aborted => exact .inr ⟨(List.mem_filter.mp hr).1, found⟩
  | _ => exact .inr ⟨hr, found⟩

theorem now_le {s : StreamGate} {actions : List AccessAction} {pre mid later : List AccessStep}
    {d x : AccessStep} (split : (streamGate env).run s actions = pre ++ d :: (mid ++ x :: later)) :
    d.before.now ≤ x.before.now := by
  obtain ⟨rest, run, -⟩ := Machine.run_split split
  have here := (token_moves (Machine.steps_of_run split)).2
  have later := (Machine.history_invariant (m := streamGate env)
    (I := fun _ s => d.after.now ≤ s.now)
    (fun _ _ step le => Nat.le_trans le (token_moves step).2) (Nat.le_refl _) mid x later run).2
  omega

theorem expiresAt_of_issues {z : AccessStep} {k : Bool × String} {g : Grant (String × String)}
    (h : z.Issues k g) : g.expiresAt = some (z.before.now + streamTokenTtl) := by
  obtain ⟨_, _, _, _, _, _, _, _, _, _, rfl⟩ := h
  rfl

/-- A commit has an `UPDATE` and then a `DELETE` before it, and withdraws what the latter
found: the tokens of the user in the table that were in force. -/
theorem delete_of_commit (actions : List AccessAction)
    (new : ∀ x ∈ (streamGate env).run .empty actions, AccessStep.NewToken x)
    {pre later : List AccessStep} {c : AccessStep}
    (split : (streamGate env).run .empty actions = pre ++ c :: later) {userId : String}
    (rotated : c.label = .rotated userId) :
    ∃ id keyHash a u b d e, pre = a ++ u :: (b ++ d :: e) ∧
      u.input = .rotateUpdate id userId keyHash ∧ d.input = .rotateDelete id ∧
      c.input = .rotateCommit id ∧
      (∃ row, u.after.users.get userId = some row ∧ row.apiKeyHash = keyHash) ∧
      ∀ token g, g.value.2 = userId → g.isOpen d.before.now = true →
        streamTokens.Granted (a ++ u :: b) (false, token) g →
          AccessStep.Withdraws c (false, token) g := by
  have moves := access_moves (Machine.steps_of_run split)
  obtain ⟨s, a, label, s'⟩ := c
  dsimp only at moves rotated ⊢
  subst rotated
  cases moves with
  | @rotated id r deleted place found =>
    obtain ⟨mem, rfl⟩ := Table.get_mem place
    have start : ∀ r, ¬ Deleting .empty r := fun r hr => absurd hr.1 List.not_mem_nil
    obtain ⟨front, d, e, rfl, delete, rows, rotating⟩ := Machine.history_entered
      (fun _ h => deleting_of_step h) start split ⟨mem, by simp [found]⟩
    rw [List.append_assoc, List.cons_append] at split
    have none : ∀ call, ¬ Rotating .empty call := by
      rintro call ⟨r, hr, -⟩
      cases hr
    obtain ⟨a, u, b, rfl, keyHash, update, account⟩ :=
      Machine.history_entered (fun _ h => rotating_of_step h) none split rotating
    refine ⟨r.id, keyHash, a, u, b, d, e, by simp, update, delete, rfl, account, ?_⟩
    intro token g value open_ granted
    have held : d.before.tokens.held (false, token) = some g :=
      (keeps_stream_tokens.held_iff no_tokens_held new split open_).mpr granted
    obtain ⟨⟨taskId, user⟩, expiresAt⟩ := g
    cases value
    have hit : token ∈ deleted := by
      rw [rows] at found
      rw [← Option.some.inj found]
      exact mem_rowsOf held
    exact .inr ⟨r.id, r, deleted, rfl, place, found, rfl, hit⟩
  | notOpened closed => simp at closed

/-! ## Who still gets in -/

/-- What a request for a stream shows: a token that was given out after the `DELETE` has
looked, or before by a process with Redis, and less than thirty minutes ago. -/
def LateToken (before since : List AccessStep) (s : StreamGate) (p : Nat) (taskId : String)
    (streamToken : Option String) (userId : String) : Prop :=
  ∃ token g z, streamToken = some token ∧ g.value = (taskId, userId) ∧
    AccessStep.Issues z (s.redisMode p, token) g ∧ s.now < z.before.now + streamTokenTtl ∧
    (z ∈ since ∨ (s.redisMode p = true ∧ z ∈ before))

/-- Or a key that fits the hash of this rotation or a later one. -/
def LateKey (env : AccessEnv) (since : List AccessStep) (authorization : Option String)
    (userId : String) : Prop :=
  ∃ key keyHash w, extractBearerToken env authorization = some key ∧ w ∈ since ∧
    AccessStep.Rotates w userId keyHash ∧ env.checkpw key keyHash = true

/-- A token in force after the commit was given out after the `DELETE` has looked, or is in
Redis. -/
theorem lateToken_of_byToken (actions : List AccessAction)
    {before between mid later : List AccessStep} {d c x : AccessStep}
    (split : (streamGate env).run .empty actions =
      before ++ d :: (between ++ c :: (mid ++ x :: later)))
    {userId taskId : String} {p : Nat} {streamToken : Option String}
    (withdraws : ∀ token g, g.value.2 = userId → g.isOpen d.before.now = true →
      streamTokens.Granted before (false, token) g → AccessStep.Withdraws c (false, token) g)
    (shown : ByToken (before ++ (d :: between ++ c :: mid)) x.before p taskId streamToken userId) :
    LateToken before (d :: between ++ c :: mid) x.before p taskId streamToken userId := by
  obtain ⟨token, g, rfl, -, value, open_, front, z, back, history, issue, stays⟩ := shown
  have fresh : x.before.now < z.before.now + streamTokenTtl := by
    have expires := expiresAt_of_issues issue
    simpa [Grant.isOpen, expires] using open_
  refine ⟨token, g, z, rfl, value, issue, fresh, ?_⟩
  rcases List.append_eq_append_iff.mp history with ⟨t, -, since⟩ | ⟨t, rfl, since⟩
  · exact .inl (by simp [since])
  · cases t with
    | nil =>
      have first : d :: between ++ c :: mid = z :: back := since.symm
      exact .inl (by simp [first])
    | cons z' t =>
      obtain ⟨rfl, rfl⟩ : z = z' ∧ back = t ++ (d :: between ++ c :: mid) := List.cons.inj since
      cases mode : x.before.redisMode p with
      | true => exact .inr ⟨rfl, by simp⟩
      | false =>
        -- the token was in force when the `DELETE` looked, so the commit has withdrawn it
        rw [mode] at issue stays
        have late : (streamGate env).run .empty actions =
            (front ++ z :: t) ++ d :: ((between ++ c :: mid) ++ x :: later) := by
          simpa using split
        have clock := now_le late
        have in_force : streamTokens.Granted (front ++ z :: t) (false, token) g :=
          ⟨front, z, t, rfl, issue, fun w hw => stays w (List.mem_append_left _ hw)⟩
        have gone := withdraws token g (by rw [value]) (Grant.isOpen_of_le clock open_) in_force
        exact absurd gone (stays c (by simp))

/-- In every run whose generated texts are new: a rotation that is done has had its `UPDATE`
and then its `DELETE`, and a stream request for the user after it shows a token of after the
`DELETE`, one that is still in Redis, or a key of this rotation or a later one. -/
theorem rotation_shuts_out (env : AccessEnv) (actions : List AccessAction)
    (new : ∀ x ∈ (streamGate env).run .empty actions, AccessStep.NewToken x)
    {pre mid later : List AccessStep} {c x : AccessStep}
    (split : (streamGate env).run .empty actions = pre ++ c :: (mid ++ x :: later))
    {userId taskId : String} (rotated : c.label = .rotated userId) {id p : Nat}
    {streamToken authorization : Option String}
    (input : x.input = .resolveUser id p taskId streamToken authorization)
    (user : x.label = .user userId) :
    ∃ n keyHash a u b d e, pre = a ++ u :: (b ++ d :: e) ∧
      u.input = .rotateUpdate n userId keyHash ∧ d.input = .rotateDelete n ∧
      c.input = .rotateCommit n ∧
      (LateToken (a ++ u :: b) (d :: e ++ c :: mid) x.before p taskId streamToken userId ∨
        LateKey env (u :: b ++ d :: e ++ c :: mid) authorization userId) := by
  obtain ⟨n, keyHash, a, u, b, d, e, rfl, update, delete, commit, account, withdraws⟩ :=
    delete_of_commit actions new split rotated
  refine ⟨n, keyHash, a, u, b, d, e, rfl, update, delete, commit, ?_⟩
  have split_x : (streamGate env).run .empty actions =
      ((a ++ u :: b) ++ (d :: e ++ c :: mid)) ++ x :: later := by simpa using split
  rcases (stream_user_iff env actions new split_x input).mp user with shown | ⟨-, key, found, fits⟩
  · have split_d : (streamGate env).run .empty actions =
        (a ++ u :: b) ++ d :: (e ++ c :: (mid ++ x :: later)) := by simpa using split
    exact .inl (lateToken_of_byToken actions split_d withdraws shown)
  · have split_u : (streamGate env).run .empty actions =
        a ++ u :: ((b ++ d :: e ++ c :: mid) ++ x :: later) := by simpa using split
    obtain ⟨rest, run, -⟩ := Machine.run_split split_u
    obtain ⟨row, account', fits⟩ := row_of_authenticate fits
    obtain ⟨row', found', hash⟩ := account
    obtain ⟨row'', account'', w, hw, rotates⟩ :=
      hash_since run rfl ⟨row', found', n, by rw [hash]; exact update⟩
    cases account'.symm.trans account''
    exact .inr ⟨key, row.apiKeyHash, w, found, by simpa using hw, rotates, fits⟩

end

/-! ## A token after the `DELETE` has looked -/

def rotatingWhileWatching : List AccessAction :=
  watching ++ [.rotateUpdate 0 "ann" "key-2", .rotateDelete 0, .createTask 0 "task-2" (by simp),
    .createStreamToken 0 0 "token-2", .rotateCommit 0,
    .resolveUser 2 0 "task-1" (some "token-1") none,
    .resolveUser 3 0 "task-2" (some "token-2") none]

theorem rotating_new : ∀ x ∈ (streamGate sampleGate).run .empty rotatingWhileWatching,
    AccessStep.NewToken x := by
  have created (s : StreamGate) (p : Nat) (token : String)
      (fresh : s.tokens.held (s.redisMode p, token) = none) (label : AccessLabel)
      (s' : StreamGate) : AccessStep.NewToken ⟨s, .createStreamToken 0 p token, label, s'⟩ := by
    intro id p token same
    cases same
    exact fresh
  refine Machine.forall_run_cons rfl (by simp [AccessStep.NewToken]) ?_
  refine Machine.forall_run_cons rfl (by simp [AccessStep.NewToken]) ?_
  refine Machine.forall_run_cons rfl (by simp [AccessStep.NewToken]) ?_
  refine Machine.forall_run_cons rfl (created _ _ _ rfl _ _) ?_
  refine Machine.forall_run_cons rfl (by simp [AccessStep.NewToken]) ?_
  refine Machine.forall_run_cons rfl (by simp [AccessStep.NewToken]) ?_
  refine Machine.forall_run_cons rfl (by simp [AccessStep.NewToken]) ?_
  refine Machine.forall_run_cons rfl (by simp [AccessStep.NewToken]) ?_
  refine Machine.forall_run_cons rfl (by simp [AccessStep.NewToken]) ?_
  refine Machine.forall_run_cons rfl (by simp [AccessStep.NewToken]) ?_
  refine Machine.forall_run_cons rfl (created _ _ _ rfl _ _) ?_
  refine Machine.forall_run_cons rfl (by simp [AccessStep.NewToken]) ?_
  refine Machine.forall_run_cons rfl (by simp [AccessStep.NewToken]) ?_
  refine Machine.forall_run_cons rfl (by simp [AccessStep.NewToken]) ?_
  exact fun x hx => absurd hx List.not_mem_nil

/-- The token that was given out in between still lets its user in. -/
theorem rotating_lets_in : ∃ pre c mid x later,
    (streamGate sampleGate).run .empty rotatingWhileWatching = pre ++ c :: (mid ++ x :: later) ∧
      ∃ n keyHash a u b d e, pre = a ++ u :: (b ++ d :: e) ∧
        u.input = .rotateUpdate n "ann" keyHash ∧ d.input = .rotateDelete n ∧
        c.input = .rotateCommit n ∧
        (LateToken (a ++ u :: b) (d :: e ++ c :: mid) x.before 0 "task-2" (some "token-2") "ann" ∨
          LateKey sampleGate (u :: b ++ d :: e ++ c :: mid) none "ann") := by
  have long : 13 < ((streamGate sampleGate).run .empty rotatingWhileWatching).length := by
    decide +kernel
  have split : (streamGate sampleGate).run .empty rotatingWhileWatching =
      _ ++ _ :: ([_] ++ _ :: []) :=
    (Machine.run_at 11 (by omega)).trans rfl
  exact ⟨_, _, _, _, _, split, rotation_shuts_out sampleGate _ rotating_new split rfl rfl rfl⟩

end LegionForge.Gateway
