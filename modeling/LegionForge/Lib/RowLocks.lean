import LegionForge.Lib.Table

/-!
# Statements under row locks

Any number of sessions run `UPDATE` statements on one table, each a transaction
of its own, under READ COMMITTED. A statement finds its rows in a snapshot and
visits them one after the other: it locks the row and looks at the `WHERE` clause
once more, on the row as it is then. A row that another statement has locked is
waited for or, with `SKIP LOCKED`, passed over. What was written is seen by others
from the commit on.

However the statements are interleaved, a commit rewrites rows every one of which
satisfies the `WHERE` clause at the commit: this is `commit_rows`.
-/

/-- An `UPDATE`, with its snapshot looked at. -/
structure Update {κ α : Type} (key : α → κ) where
  guard : α → Bool
  set : α → α
  keeps : ∀ a, key (set a) = key a
  order : List α → List α
  skipLocked : Bool
  single : Bool

/-- A statement in progress: the keys it has still to visit, the rows it has locked as
they will be, and the keys it has locked for nothing. -/
structure Session (κ α σ : Type) where
  id : Nat
  stmt : σ
  snapshot : List α
  todo : List κ
  writes : List α
  passed : List κ

/-- The table as it is committed, and the statements in progress. -/
structure Store {κ α : Type} (key : α → κ) (σ : Type) where
  rows : Table key
  sessions : Table (Session.id (κ := κ) (α := α) (σ := σ))

namespace Store

variable {κ α σ : Type} [DecidableEq κ] {key : α → κ}

def locks (key : α → κ) (t : Session κ α σ) : List κ := t.writes.map key ++ t.passed

/-- Another session than this one holds a lock on the row. -/
def locked (s : Store key σ) (id : Nat) (k : κ) : Bool :=
  s.sessions.rows.any fun t => t.id ≠ id && (locks key t).contains k

section
variable (meaning : σ → List α → Update key)

def update (t : Session κ α σ) : Update key := meaning t.stmt t.snapshot

def start (s : Store key σ) (id : Nat) (stmt : σ) : Option (Store key σ) :=
  let u := meaning stmt s.rows.rows
  (s.sessions.insert
    { id, stmt, snapshot := s.rows.rows
      todo := (u.order (s.rows.rows.filter u.guard)).map key
      writes := [], passed := [] }).map fun sessions => { s with sessions }

/-- The session with its next row locked, which is the given one or has been deleted. -/
def visited (row : Option α) (t : Session κ α σ) : Session κ α σ :=
  match row with
  | none => { t with todo := t.todo.tail }
  | some a =>
    if (update meaning t).guard a then
      { t with
        todo := if (update meaning t).single then [] else t.todo.tail
        writes := (update meaning t).set a :: t.writes }
    else { t with todo := t.todo.tail, passed := key a :: t.passed }

/-- The next row is visited. It may be under a lock of another kind, such as a foreign
key takes; an `UPDATE` does not wait for it, but `SKIP LOCKED` heeds it. -/
def visit (s : Store key σ) (id : Nat) (shared : Bool) : Option (Store key σ) :=
  (s.sessions.get id).bind fun t =>
    match t.todo with
    | [] => none
    | k :: rest =>
      if (update meaning t).skipLocked && (shared || s.locked id k) then
        some { s with
          sessions := s.sessions.modify id (fun t => { t with todo := rest }) fun _ => rfl }
      else if s.locked id k then none
      else some { s with
        sessions := s.sessions.modify id (visited meaning (s.rows.get k)) fun t => by
          unfold visited
          split
          · rfl
          · split <;> rfl }

end

/-- The rows under the keys of the new versions are replaced. -/
def overwrite (rows : Table key) (writes : List α) : Table key :=
  rows.mapRows (fun a => (writes.find? fun w => key w = key a).getD a) fun a => by
    cases found : writes.find? fun w => key w = key a with
    | none => rfl
    | some w => exact of_decide_eq_true (List.find?_some found :)

/-- The statement has visited its rows and commits. -/
def commit (s : Store key σ) (id : Nat) : Option (Store key σ × Session κ α σ) :=
  (s.sessions.get id).bind fun t =>
    if t.todo.isEmpty then
      some (⟨overwrite s.rows t.writes, s.sessions.discard (·.id = id)⟩, t)
    else none

def abort (s : Store key σ) (id : Nat) : Store key σ :=
  { s with sessions := s.sessions.discard (·.id = id) }

def insert (s : Store key σ) (a : α) : Option (Store key σ) :=
  (s.rows.insert a).map fun rows => { s with rows }

/-- The rows are deleted and those that refer to them are set free, when no statement
holds a lock on any of either. -/
def delete (s : Store key σ) (gone refers : α → Bool) (free : α → α)
    (keeps : ∀ a, key (free a) = key a) : Option (Store key σ) :=
  if s.rows.rows.any fun a =>
      (gone a || refers a) && s.sessions.rows.any fun t => (locks key t).contains (key a)
  then none
  else some { s with
    rows := (s.rows.discard gone).mapRows (fun a => if refers a then free a else a) fun a => by
      split
      · exact keeps a
      · rfl }

/-! ## What holds of every store -/

structure Consistent (meaning : σ → List α → Update key) (s : Store key σ) : Prop where
  /-- What is to be written comes of a row that is there and matches. -/
  writes : ∀ t ∈ s.sessions.rows, ∀ w ∈ t.writes, ∃ a ∈ s.rows.rows,
    (update meaning t).guard a = true ∧ w = (update meaning t).set a
  exclusive : ∀ t ∈ s.sessions.rows, ∀ t' ∈ s.sessions.rows,
    ∀ k ∈ locks key t, k ∈ locks key t' → t = t'

variable {meaning : σ → List α → Update key} {s s' : Store key σ}

theorem not_locked_iff {id : Nat} {k : κ} :
    s.locked id k = false ↔ ∀ t ∈ s.sessions.rows, k ∈ locks key t → t.id = id := by
  rw [locked, List.any_eq_false]
  refine forall₂_congr fun t _ => ?_
  simp only [Bool.and_eq_true, decide_eq_true_eq, List.contains_iff_mem]
  exact ⟨fun h mem => by_contra fun other => h ⟨other, mem⟩, fun h both => both.1 (h both.2)⟩

omit [DecidableEq κ] in
theorem consistent_start {id : Nat} {stmt : σ} (h : s.start meaning id stmt = some s')
    (c : s.Consistent meaning) : s'.Consistent meaning := by
  obtain ⟨sessions, inserted, rfl⟩ := Option.map_eq_some_iff.mp h
  refine ⟨?_, ?_⟩
  · intro t ht w hw
    rcases Table.of_mem_insert inserted ht with rfl | old
    · cases hw
    · exact c.writes t old w hw
  · intro t ht t' ht' k hk hk'
    rcases Table.of_mem_insert inserted ht with rfl | old
    · cases hk
    · rcases Table.of_mem_insert inserted ht' with rfl | old'
      · cases hk'
      · exact c.exclusive t old t' old' k hk hk'

/-- A session may change as long as its writes match and a lock it gains is free. -/
theorem consistent_modify {id : Nat} {t : Session κ α σ}
    {f : Session κ α σ → Session κ α σ} (keeps : ∀ t, (f t).id = t.id)
    (found : s.sessions.get id = some t) (c : s.Consistent meaning)
    (writes : ∀ w ∈ (f t).writes, ∃ a ∈ s.rows.rows,
      (update meaning (f t)).guard a = true ∧ w = (update meaning (f t)).set a)
    (gains : ∀ k ∈ locks key (f t), k ∈ locks key t ∨ s.locked id k = false) :
    Consistent meaning { s with sessions := s.sessions.modify id f keeps } := by
  obtain ⟨mem, at_id⟩ := Table.get_mem found
  -- a session that is not the one that changed holds none of its locks
  have apart : ∀ u ∈ s.sessions.rows, u.id ≠ id → ∀ k ∈ locks key (f t),
      k ∉ locks key u := by
    intro u hu other k hk hk'
    rcases gains k hk with had | free
    · rw [c.exclusive t mem u hu k had hk'] at at_id
      exact other at_id
    · exact other (not_locked_iff.mp free u hu hk')
  refine ⟨?_, ?_⟩
  · intro u hu w hw
    rcases Table.of_mem_modify found keeps hu with rfl | ⟨old, -⟩
    · exact writes w hw
    · exact c.writes u old w hw
  · intro u hu u' hu' k hk hk'
    rcases Table.of_mem_modify found keeps hu with rfl | ⟨old, other⟩
    · rcases Table.of_mem_modify found keeps hu' with rfl | ⟨old', other'⟩
      · rfl
      · exact absurd hk' (apart u' old' other' k hk)
    · rcases Table.of_mem_modify found keeps hu' with rfl | ⟨old', -⟩
      · exact absurd hk (apart u old other k hk')
      · exact c.exclusive u old u' old' k hk hk'

theorem consistent_visit {id : Nat} {shared : Bool}
    (h : s.visit meaning id shared = some s') (c : s.Consistent meaning) :
    s'.Consistent meaning := by
  obtain ⟨t, found, h⟩ := Option.bind_eq_some_iff.mp h
  obtain ⟨mem, at_id⟩ := Table.get_mem found
  split at h
  · cases h
  · next k rest todo =>
    split at h
    · cases h
      exact consistent_modify _ found c (c.writes t mem) fun k hk => .inl hk
    · split at h
      · cases h
      · next free =>
        cases h
        rw [Bool.not_eq_true] at free
        refine consistent_modify _ found c ?_ ?_
        · unfold visited
          split
          · exact c.writes t mem
          · next a at_k =>
            obtain ⟨mem_a, -⟩ := Table.get_mem at_k
            split
            · next matches_ =>
              intro w hw
              rcases List.mem_cons.mp hw with rfl | old
              · exact ⟨a, mem_a, matches_, rfl⟩
              · exact c.writes t mem w old
            · exact c.writes t mem
        · unfold visited
          split
          · exact fun k hk => .inl hk
          · next a at_k =>
            obtain ⟨-, same⟩ := Table.get_mem at_k
            intro k' hk'
            by_cases new : k' = k
            · rw [new]
              exact .inr free
            · refine .inl ?_
              split at hk'
              · simpa [locks, (update meaning t).keeps, same, new] using hk'
              · simpa [locks, same, new] using hk'

omit [DecidableEq κ] in
/-- A visit leaves the statement of the session and its snapshot. -/
theorem visited_same (row : Option α) (t : Session κ α σ) :
    (visited meaning row t).id = t.id ∧ (visited meaning row t).stmt = t.stmt ∧
      (visited meaning row t).snapshot = t.snapshot := by
  unfold visited
  split
  · exact ⟨rfl, rfl, rfl⟩
  · split <;> exact ⟨rfl, rfl, rfl⟩

/-- A session after a visit is one of another id, or it has passed over its next row or
visited it. -/
theorem of_mem_visit {id : Nat} {shared : Bool} {u : Session κ α σ}
    (h : s.visit meaning id shared = some s') (hu : u ∈ s'.sessions.rows) :
    (u ∈ s.sessions.rows ∧ u.id ≠ id) ∨
      ∃ t ∈ s.sessions.rows, t.id = id ∧ ∃ k rest, t.todo = k :: rest ∧
        (((update meaning t).skipLocked = true ∧ u = { t with todo := rest }) ∨
          u = visited meaning (s.rows.get k) t) := by
  obtain ⟨t, found, h⟩ := Option.bind_eq_some_iff.mp h
  obtain ⟨mem, at_id⟩ := Table.get_mem found
  split at h
  · cases h
  · next k rest todo =>
    split at h
    · next skips =>
      cases h
      rcases Table.of_mem_modify found (fun _ => by rfl) hu with same | old
      · exact .inr ⟨t, mem, at_id, k, rest, todo, .inl ⟨(Bool.and_eq_true _ _ ▸ skips).1, same⟩⟩
      · exact .inl old
    · split at h
      · cases h
      · cases h
        rcases Table.of_mem_modify found (fun t => (visited_same _ t).1) hu with same | old
        · exact .inr ⟨t, mem, at_id, k, rest, todo, .inr same⟩
        · exact .inl old

/-- The statement has the row still to visit, or is to write it. -/
def due (key : α → κ) (t : Session κ α σ) (a : α) : Prop :=
  key a ∈ t.todo ∨ key a ∈ t.writes.map key

/-- A visit of its next row loses no row that matches, where there is no limit. -/
theorem due_visited {t : Session κ α σ} {k : κ} {rest : List κ} {a : α}
    (todo : t.todo = k :: rest) (all : (update meaning t).single = false)
    (ha : a ∈ s.rows.rows) (guard : (update meaning t).guard a = true)
    (is_due : due key t a) :
    due key (visited meaning (s.rows.get k) t) a := by
  unfold due at is_due
  rw [todo, List.mem_cons] at is_due
  unfold due visited
  split
  · next absent =>
    rcases is_due with (here | later) | written
    · rw [← here, Table.get_of_mem ha] at absent
      cases absent
    · exact .inl (by rwa [todo])
    · exact .inr written
  · next a' found =>
    rcases is_due with (here | later) | written
    · rw [← here, Table.get_of_mem ha] at found
      cases found
      rw [if_pos guard]
      exact .inr (List.mem_map.mpr
        ⟨_, List.mem_cons_self, (update meaning t).keeps a⟩)
    · refine .inl ?_
      split <;> simpa [all, todo] using later
    · refine .inr ?_
      split
      · exact List.mem_cons_of_mem _ written
      · exact written

theorem exists_due_visit {id : Nat} {shared : Bool} {t : Session κ α σ} {a : α}
    (h : s.visit meaning id shared = some s') (ht : t ∈ s.sessions.rows)
    (waits : (update meaning t).skipLocked = false) (all : (update meaning t).single = false)
    (ha : a ∈ s.rows.rows) (guard : (update meaning t).guard a = true)
    (is_due : due key t a) :
    ∃ u ∈ s'.sessions.rows, u.stmt = t.stmt ∧ due key u a := by
  obtain ⟨t', found, h⟩ := Option.bind_eq_some_iff.mp h
  obtain ⟨mem, at_id⟩ := Table.get_mem found
  by_cases same : t.id = id
  · cases s.sessions.eq_of_key ht mem (same.trans at_id.symm)
    split at h
    · cases h
    · next k rest todo =>
      rw [waits, Bool.false_and, if_neg Bool.false_ne_true] at h
      split at h
      · cases h
      · cases h
        have keeps (u : Session κ α σ) : (visited meaning (s.rows.get k) u).id = u.id :=
          (visited_same _ u).1
        exact ⟨_, Table.mem_modify_self found keeps, (visited_same _ t).2.1,
          due_visited todo all ha guard is_due⟩
  · split at h
    · cases h
    · split at h
      · cases h
        exact ⟨t, Table.mem_modify_of_ne (fun _ => by rfl) ht same, rfl, is_due⟩
      · split at h
        · cases h
        · cases h
          exact ⟨t, Table.mem_modify_of_ne (fun u => (visited_same _ u).1) ht same, rfl, is_due⟩

theorem visit_rows {id : Nat} {shared : Bool} (h : s.visit meaning id shared = some s') :
    s'.rows = s.rows := by
  obtain ⟨t, -, h⟩ := Option.bind_eq_some_iff.mp h
  split at h
  · cases h
  · split at h
    · cases h
      rfl
    · split at h
      · cases h
      · cases h
        rfl

/-- What a commit does to the rows: it rewrites those it has locked, and all of
these match. -/
theorem commit_rows {id : Nat} {t : Session κ α σ} (h : s.commit id = some (s', t))
    (c : s.Consistent meaning) :
    s'.rows.rows = (s.rows.rows.map fun a =>
        if key a ∈ t.writes.map key then (update meaning t).set a else a) ∧
      ∀ a ∈ s.rows.rows, key a ∈ t.writes.map key →
        (update meaning t).guard a = true := by
  obtain ⟨t, found, h⟩ := Option.bind_eq_some_iff.mp h
  obtain ⟨-, h⟩ := Option.ite_none_right_eq_some.mp h
  cases h
  obtain ⟨mem, -⟩ := Table.get_mem found
  -- the version that replaces a row is made of the row itself
  have ofRow : ∀ a ∈ s.rows.rows, ∀ w ∈ t.writes, key w = key a →
      (update meaning t).guard a = true ∧ w = (update meaning t).set a := by
    intro a ha w hw same
    obtain ⟨a', ha', matches_, rfl⟩ := c.writes t mem w hw
    rw [(update meaning t).keeps] at same
    rw [s.rows.eq_of_key ha ha' same.symm]
    exact ⟨matches_, rfl⟩
  refine ⟨?_, ?_⟩
  · refine List.map_congr_left fun a ha => ?_
    split
    · next written =>
      obtain ⟨w, hw, same⟩ := List.mem_map.mp written
      cases hit : t.writes.find? fun w => key w = key a with
      | none => simpa [same] using List.find?_eq_none.mp hit w hw
      | some w' =>
        have same' : key w' = key a := of_decide_eq_true (List.find?_some hit :)
        exact (ofRow a ha w' (List.mem_of_find?_eq_some hit) same').2
    · next not =>
      cases hit : t.writes.find? fun w => key w = key a with
      | none => rfl
      | some w' =>
        have same' : key w' = key a := of_decide_eq_true (List.find?_some hit :)
        exact absurd (List.mem_map.mpr ⟨w', List.mem_of_find?_eq_some hit, same'⟩) not
  · intro a ha written
    obtain ⟨w, hw, same⟩ := List.mem_map.mp written
    exact (ofRow a ha w hw same).1

theorem commit_sessions {id : Nat} {t : Session κ α σ} (h : s.commit id = some (s', t)) :
    t ∈ s.sessions.rows ∧ t.id = id ∧ t.todo = [] ∧
      s'.sessions = s.sessions.discard (·.id = id) := by
  obtain ⟨t, found, h⟩ := Option.bind_eq_some_iff.mp h
  obtain ⟨done, h⟩ := Option.ite_none_right_eq_some.mp h
  cases h
  obtain ⟨mem, at_id⟩ := Table.get_mem found
  exact ⟨mem, at_id, List.isEmpty_iff.mp done, rfl⟩

/-- Every row after a commit is one that was not written, or is written from one that
matches. -/
theorem of_mem_commit {id : Nat} {t : Session κ α σ} {b : α}
    (h : s.commit id = some (s', t)) (c : s.Consistent meaning) (hb : b ∈ s'.rows.rows) :
    (b ∈ s.rows.rows ∧ key b ∉ t.writes.map key) ∨
      ∃ a ∈ s.rows.rows, key a ∈ t.writes.map key ∧
        (update meaning t).guard a = true ∧ b = (update meaning t).set a := by
  obtain ⟨rows, matches_⟩ := commit_rows h c
  rw [rows] at hb
  obtain ⟨a, ha, rfl⟩ := List.mem_map.mp hb
  split
  · next written => exact .inr ⟨a, ha, written, matches_ a ha written, rfl⟩
  · next not => exact .inl ⟨ha, not⟩

theorem mem_commit_of_not_written {id : Nat} {t : Session κ α σ} {a : α}
    (h : s.commit id = some (s', t)) (c : s.Consistent meaning) (ha : a ∈ s.rows.rows)
    (not : key a ∉ t.writes.map key) : a ∈ s'.rows.rows := by
  rw [(commit_rows h c).1]
  exact List.mem_map.mpr ⟨a, ha, if_neg not⟩

theorem mem_commit_of_written {id : Nat} {t : Session κ α σ} {a : α}
    (h : s.commit id = some (s', t)) (c : s.Consistent meaning) (ha : a ∈ s.rows.rows)
    (written : key a ∈ t.writes.map key) : (update meaning t).set a ∈ s'.rows.rows := by
  rw [(commit_rows h c).1]
  exact List.mem_map.mpr ⟨a, ha, if_pos written⟩

omit [DecidableEq κ] in
/-- Sessions that are gone take their locks with them. -/
theorem mem_discard {id : Nat} {u : Session κ α σ}
    (hu : u ∈ (s.sessions.discard (·.id = id)).rows) : u ∈ s.sessions.rows ∧ u.id ≠ id := by
  obtain ⟨mem, stays⟩ := List.mem_filter.mp hu
  exact ⟨mem, by simpa using stays⟩

theorem consistent_commit {id : Nat} {t : Session κ α σ} (h : s.commit id = some (s', t))
    (c : s.Consistent meaning) : s'.Consistent meaning := by
  obtain ⟨mem, at_id, -, sessions⟩ := commit_sessions h
  refine ⟨?_, ?_⟩
  · intro u hu w hw
    rw [sessions] at hu
    obtain ⟨hu, other⟩ := mem_discard hu
    obtain ⟨a, ha, matches_, rfl⟩ := c.writes u hu w hw
    refine ⟨a, mem_commit_of_not_written h c ha fun written => other ?_, matches_, rfl⟩
    have held : key a ∈ locks key u := by
      rw [← (update meaning u).keeps a]
      exact List.mem_append_left _ (List.mem_map_of_mem hw)
    rw [c.exclusive u hu t mem (key a) held (List.mem_append_left _ written), at_id]
  · intro u hu u' hu' k hk hk'
    rw [sessions] at hu hu'
    exact c.exclusive u (mem_discard hu).1 u' (mem_discard hu').1 k hk hk'

omit [DecidableEq κ] in
theorem consistent_abort (id : Nat) (c : s.Consistent meaning) :
    (s.abort id).Consistent meaning where
  writes u hu := c.writes u (mem_discard hu).1
  exclusive u hu u' hu' := c.exclusive u (mem_discard hu).1 u' (mem_discard hu').1

theorem consistent_insert {a : α} (h : s.insert a = some s') (c : s.Consistent meaning) :
    s'.Consistent meaning := by
  obtain ⟨rows, inserted, rfl⟩ := Option.map_eq_some_iff.mp h
  refine ⟨fun t ht w hw => ?_, c.exclusive⟩
  obtain ⟨b, hb, made⟩ := c.writes t ht w hw
  exact ⟨b, Table.mem_insert_of_mem inserted hb, made⟩

theorem delete_eq_some {gone refers : α → Bool} {free : α → α}
    {keeps : ∀ a, key (free a) = key a} (h : s.delete gone refers free keeps = some s') :
    s'.sessions = s.sessions ∧
      s'.rows.rows = (s.rows.rows.filter fun a => !gone a).map
        (fun a => if refers a then free a else a) ∧
      ∀ a ∈ s.rows.rows, (gone a = true ∨ refers a = true) →
        ∀ t ∈ s.sessions.rows, key a ∉ locks key t := by
  unfold delete at h
  split at h
  · cases h
  · next unlocked =>
    cases h
    refine ⟨rfl, rfl, fun a ha hit t ht held => unlocked ?_⟩
    rw [List.any_eq_true]
    refine ⟨a, ha, ?_⟩
    rw [Bool.and_eq_true, Bool.or_eq_true, List.any_eq_true]
    exact ⟨hit, t, ht, List.contains_iff_mem.mpr held⟩

theorem consistent_delete {gone refers : α → Bool} {free : α → α}
    {keeps : ∀ a, key (free a) = key a} (h : s.delete gone refers free keeps = some s')
    (c : s.Consistent meaning) : s'.Consistent meaning := by
  obtain ⟨sessions, rows, unlocked⟩ := delete_eq_some h
  refine ⟨?_, ?_⟩
  · intro t ht w hw
    rw [sessions] at ht
    obtain ⟨a, ha, matches_, rfl⟩ := c.writes t ht w hw
    have held : key a ∈ locks key t := by
      rw [← (update meaning t).keeps a]
      exact List.mem_append_left _ (List.mem_map_of_mem hw)
    have stays : gone a = false := by
      rw [← Bool.not_eq_true]
      exact fun hit => unlocked a ha (.inl hit) t ht held
    have keeps : refers a ≠ true := fun hit => unlocked a ha (.inr hit) t ht held
    refine ⟨a, ?_, matches_, rfl⟩
    rw [rows]
    refine List.mem_map.mpr ⟨a, List.mem_filter.mpr ⟨ha, ?_⟩, if_neg keeps⟩
    rw [stays]
    rfl
  · intro t ht t' ht'
    rw [sessions] at ht ht'
    exact c.exclusive t ht t' ht'

end Store
