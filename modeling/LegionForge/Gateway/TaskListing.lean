import LegionForge.Audit.Time
import LegionForge.Gateway.Intake
import LegionForge.Gateway.TaskQueue
import LegionForge.Lib.Base64
import LegionForge.Lib.JsonRead
import LegionForge.Lib.Keyset
import LegionForge.Lib.Utf8
import Mathlib.Algebra.Order.Ring.Rat
import Mathlib.Data.Prod.Lex
import Mathlib.Data.String.Basic

/-!
# The task list, page by page

`list_tasks` orders by creation time and id and takes a page up behind the row its cursor
names. A cursor is that row's time and id, written as JSON in base64; what the client sends
back is decoded, and a cursor that does not decode is no cursor.

`listing_complete`: whoever follows the cursors gets every task of the filters once and in
order, on one page more than there are full ones. Two things carry the times and ids from
the row to the comparison in the database: `decode_encode_cursor`, and that the database
reads a time back that the driver wrote.
-/

namespace LegionForge.Gateway

open LegionForge.Audit (Instant SessionTz isoformat not_mem_isoformat)
open JsonRead (Value codes loads)
open Keyset (below follow page nextAfter sortDown Descending Serves)

/-! ## Cursors -/

def encodeTaskCursor (createdAt taskId : String) : String :=
  let payload := String.ofList (JsonText.render
    (.obj ([("ts", createdAt), ("id", taskId)].map fun m => (m.1, .str m.2))))
  String.ofList (Base64.encode payload.toByteArray.data.toList)

/-- `decode_task_cursor`; null stands for `None`. -/
def decodeTaskCursor (cursor : String) : Value × Value :=
  let found := do
    let bytes ← Base64.decode cursor.toList
    let text ← String.fromUTF8? ⟨bytes.toArray⟩
    let payload ← loads text.toList
    let ts ← payload.get? (codes "ts")
    let id ← payload.get? (codes "id")
    some (ts, id)
  found.getD (.null, .null)

/-! ## What the database does -/

/-- `collate` is the place of a text in the order of the column's collation, `searches` the
text search of an input, `timestamptz` the cast from text, on the scale of `created_at`,
and `tz` the time zone of the session. -/
structure ListingDb (κ : Type) where
  collate : String → κ
  searches : String → String → Bool
  timestamptz : String → Option Int
  tz : SessionTz

/-- The text form of a `uuid`. -/
def uuidText (s : String) : Bool :=
  (s.toList.splitOn '-').map List.length = [8, 4, 4, 4, 12] &&
    s.toList.all fun c => c = '-' || c.isDigit || (97 ≤ c.toNat && c.toNat ≤ 102)

/-- The table `tasks`: its ids are the primary key and of type `uuid`. -/
structure TaskTable extends Table TaskRow.taskId where
  uuids : ∀ t ∈ rows, uuidText t.taskId = true

/-- The columns `list_tasks` selects. -/
structure ListedTask where
  taskId : String
  userId : String
  status : TaskStatus
  agentType : String
  input : String
  result : Option String
  error : Option String
  steps : Option Int
  tokens : Option String
  tags : List String
  createdAt : Nat
  updatedAt : Nat
  completedAt : Option Nat
  deriving DecidableEq, Repr

def TaskRow.selected (t : TaskRow) : ListedTask :=
  ⟨t.taskId, t.userId, t.status, t.agentType, t.input, t.result, t.error, t.steps, t.tokens,
    t.tags, t.createdAt, t.updatedAt, t.completedAt⟩

/-- Rows count their instants from the first one that has a local time everywhere. -/
def rowInstant (micros : Nat) : Instant := ⟨micros + 86400000000, Nat.le_add_left _ _⟩

section Listing

variable {κ : Type} [LinearOrder κ] (db : ListingDb κ)

/-- `isoformat` of a column the driver has read. -/
def ListingDb.iso (micros : Nat) : String :=
  String.ofList (isoformat (rowInstant micros) (db.tz (rowInstant micros)))

/-- Where a row stands in `ORDER BY created_at DESC, task_id DESC`, from the end. The name
`task_id` is that of the output column there, the text. -/
def ListingDb.place (t : ListedTask) : Int ×ₗ κ := toLex ((t.createdAt : Int), db.collate t.taskId)

/-- The cursor of a row -/
def ListingDb.cursor (t : ListedTask) : String := encodeTaskCursor (db.iso t.createdAt) t.taskId

/-! ## `list_tasks` -/

structure TaskFilters where
  status : Option String
  q : Option String
  tags : Option (List String)
  label : Option String

def validTaskStatuses : List String := ["queued", "running", "complete", "failed", "cancelled"]

/-- A text that `if` takes for given -/
def given (s : Option String) : Option String := s.filter (· ≠ "")

/-- The `WHERE` of the filters. -/
def TaskFilters.holds (f : TaskFilters) (userId : String) (t : TaskRow) : Bool :=
  t.userId = userId &&
    (given f.status).all (fun s => t.status.text = s) &&
    (given f.q).all (fun q => db.searches t.input q) &&
    (f.tags.getD []).all (fun tag => t.tags.contains tag) &&
    (given f.label).all (fun l => t.labels.contains l)

/-- The texts among the parameters of the statement. -/
def TaskFilters.params (f : TaskFilters) (userId : String) : List String :=
  userId :: ((given f.status).toList ++ (given f.q).toList ++ f.tags.getD [] ++
    (given f.label).toList)

inductive ListError where
  /-- `ValueError: Invalid status filter` -/
  | invalidStatus (status : String)
  /-- The driver or the database refuses the statement. -/
  | database
  /-- `task_dicts[-1]` of an empty page -/
  | indexError

/-- The driver refuses a text with a null character. -/
def nulFree (s : String) : Bool := !s.toList.contains '\x00'

/-- The `if` of Python on a decoded value. A number whose size a float cannot tell from
zero is zero. -/
def truthy : Value → Bool
  | .null => false
  | .bool b => b
  | .int n => n ≠ 0
  | .float _ digits power => (1 : ℚ) / 2 ^ 1075 < digits * (10 : ℚ) ^ power
  | .constant _ => true
  | .str codes => codes ≠ []
  | .arr xs => !xs.isEmpty
  | .obj ms => !ms.isEmpty

/-- The parameter a decoded value makes. A number, a boolean, a list, a dict or half a
surrogate pair goes into no comparison with a text. -/
def textParam : Value → Option String
  | .str codes =>
    if codes.all fun n => n.isValidChar then
      let text := String.ofList (codes.map Char.ofNat)
      if nulFree text then some text else none
    else none
  | _ => none

/-- What the cursor compares the rows with, if it does. -/
def ListingDb.bound (cursor : Option String) : Except ListError (Option (Int × String)) :=
  let (ts, id) := ((given cursor).map decodeTaskCursor).getD (.null, .null)
  if truthy ts && truthy id then
    match (textParam ts).bind db.timestamptz, textParam id with
    | some t, some id => .ok (some (t, id))
    | _, _ => .error .database
  else .ok none

structure TaskPage where
  tasks : List ListedTask
  total : Nat
  limit : Nat
  offset : Nat
  nextCursor : Option String

def listTasks (tasks : List TaskRow) (userId : String) (limit offset : Nat) (f : TaskFilters)
    (cursor : Option String) : Except ListError TaskPage :=
  match f.status.filter fun s => !validTaskStatuses.contains s with
  | some status => .error (.invalidStatus status)
  | none =>
    match db.bound cursor with
    | .error e => .error e
    | .ok bound =>
      if (f.params userId).all nulFree then
        let found := tasks.filter fun t => f.holds db userId t &&
          bound.all fun (ts, id) => db.place t.selected < toLex (ts, db.collate id)
        let effectiveOffset := if bound.isSome then 0 else offset
        let rows := ((sortDown db.place (found.map TaskRow.selected)).drop effectiveOffset).take
          limit
        if rows.length = limit then
          match rows.getLast? with
          | some last => .ok ⟨rows, found.length, limit, offset, some (db.cursor last)⟩
          | none => .error .indexError
        else .ok ⟨rows, found.length, limit, offset, none⟩
      else .error .database

end Listing

/-! ## The way of a cursor -/

theorem decode_encode_cursor (createdAt taskId : String) :
    decodeTaskCursor (encodeTaskCursor createdAt taskId) =
      (.str (codes createdAt), .str (codes taskId)) := by
  let payload := String.ofList (JsonText.render
    (.obj ([("ts", createdAt), ("id", taskId)].map fun m => (m.1, .str m.2))))
  have bytes : Base64.decode (encodeTaskCursor createdAt taskId).toList =
      some payload.toByteArray.data.toList := by
    rw [encodeTaskCursor, String.toList_ofList, Base64.decode_encode]
  have text : String.fromUTF8? ⟨payload.toByteArray.data.toList.toArray⟩ = some payload :=
    Utf8.fromUTF8_toByteArray payload
  have value : loads payload.toList =
      some (.obj [(codes "ts", .str (codes createdAt)), (codes "id", .str (codes taskId))]) := by
    rw [String.toList_ofList]
    exact JsonRead.loads_render_strings [("ts", createdAt), ("id", taskId)]
  rw [decodeTaskCursor, bytes]
  simp only [Option.bind_eq_bind, Option.bind_some, text, value]
  rfl

theorem textParam_codes {s : String} (clean : nulFree s = true) :
    textParam (.str (codes s)) = some s := by
  have valid : (codes s).all (fun n => n.isValidChar) = true := by
    simp only [codes, List.all_map, List.all_eq_true, Function.comp]
    intro c _
    exact decide_eq_true c.valid
  have back : (codes s).map Char.ofNat = s.toList := by
    rw [codes, List.map_map]
    exact (List.map_congr_left fun c _ => Char.ofNat_toNat c).trans (List.map_id _)
  rw [textParam, if_pos valid, back, String.ofList_toList]
  simp only [if_pos clean]

theorem truthy_codes {s : String} (some_text : s ≠ "") : truthy (.str (codes s)) = true := by
  have : s.toList ≠ [] := by simpa using some_text
  simpa [truthy, codes] using this

theorem uuidText_text {s : String} (uuid : uuidText s = true) : s ≠ "" ∧ nulFree s = true := by
  obtain ⟨groups, chars⟩ := Bool.and_eq_true_iff.mp uuid
  constructor
  · rintro rfl
    exact absurd groups (by decide)
  · have clean : '\x00' ∉ s.toList := fun nul =>
      absurd (List.all_eq_true.mp chars _ nul) (by decide)
    simpa [nulFree] using clean

theorem encode_ne_empty (createdAt taskId : String) : encodeTaskCursor createdAt taskId ≠ "" := by
  intro empty
  have read := decode_encode_cursor createdAt taskId
  rw [empty] at read
  have nothing : decodeTaskCursor "" = (.null, .null) := by rfl
  rw [nothing] at read
  cases (Prod.mk.inj read).1

theorem iso_text {κ : Type} (db : ListingDb κ) (micros : Nat) :
    db.iso micros ≠ "" ∧ nulFree (db.iso micros) = true := by
  constructor
  · intro empty
    have chars := congrArg String.toList empty
    rw [ListingDb.iso, String.toList_ofList, isoformat] at chars
    exact absurd chars (by simp)
  · have clean : '\x00' ∉ (db.iso micros).toList := by
      rw [ListingDb.iso, String.toList_ofList]
      exact not_mem_isoformat (by decide) (by decide) _ _
    simpa [nulFree] using clean

/-- A row's cursor comes back as the row's time and id. -/
theorem bound_cursor {κ : Type} {db : ListingDb κ} {t : ListedTask}
    (uuid : uuidText t.taskId = true)
    (reads : db.timestamptz (db.iso t.createdAt) = some (t.createdAt : Int)) :
    db.bound (some (db.cursor t)) = .ok (some ((t.createdAt : Int), t.taskId)) := by
  have id := uuidText_text uuid
  have ts := iso_text db t.createdAt
  have text : given (some (db.cursor t)) = some (db.cursor t) := by
    simp [given, ListingDb.cursor, encode_ne_empty]
  rw [ListingDb.bound, text, Option.map_some, ListingDb.cursor, decode_encode_cursor]
  simp only [Option.getD_some, truthy_codes ts.1, truthy_codes id.1, textParam_codes ts.2,
    textParam_codes id.2, Option.bind_some, reads, Bool.and_self, if_true]

/-- The tasks the filters ask for. -/
def TaskTable.matching {κ : Type} (table : TaskTable) (db : ListingDb κ) (userId : String)
    (f : TaskFilters) : List TaskRow :=
  table.rows.filter fun t => f.holds db userId t

theorem distinct_places {κ : Type} {db : ListingDb κ}
    (injective : Function.Injective db.collate) (table : TaskTable) (userId : String)
    (f : TaskFilters) :
    (((table.matching db userId f).map TaskRow.selected).map db.place).Nodup := by
  have ids : ((table.matching db userId f).map TaskRow.taskId).Nodup :=
    table.keys.sublist (List.filter_sublist.map _)
  rw [List.map_map]
  refine List.pairwise_map.mpr ((List.pairwise_map.mp ids).imp fun {a b} apart same => ?_)
  exact apart (injective (Prod.mk.inj (toLex.injective same)).2)

/-! ## A page -/

section Listing

variable {κ : Type} [LinearOrder κ] {db : ListingDb κ}

/-- Neither the status nor a null character is in the way. -/
def TaskFilters.accepted (f : TaskFilters) (userId : String) : Bool :=
  (f.status.filter fun s => !validTaskStatuses.contains s) = none &&
    (f.params userId).all nulFree

theorem listTasks_ok {tasks : List TaskRow} {userId : String} {limit : Nat} {f : TaskFilters}
    {cursor : Option String} {bound : Option (Int × String)}
    (accepted : f.accepted userId = true) (pos : 0 < limit)
    (stands : db.bound cursor = .ok bound) :
    let found := tasks.filter fun t => f.holds db userId t &&
      bound.all fun (ts, id) => db.place t.selected < toLex (ts, db.collate id)
    let rows := (sortDown db.place (found.map TaskRow.selected)).take limit
    listTasks db tasks userId limit 0 f cursor =
      .ok ⟨rows, found.length, limit, 0, (nextAfter limit rows).map db.cursor⟩ := by
  obtain ⟨status, texts⟩ := Bool.and_eq_true_iff.mp accepted
  intro found rows
  have start : (if bound.isSome then 0 else 0) = 0 := ite_self 0
  rw [listTasks, of_decide_eq_true status]
  simp only [stands, if_pos texts, start, List.drop_zero]
  show (if rows.length = limit then _ else _) = _
  by_cases full : rows.length = limit
  · have some_rows : rows ≠ [] := List.ne_nil_of_length_pos (by omega)
    have last := List.getLast?_eq_some_getLast some_rows
    rw [nextAfter, if_pos full, if_pos full, last]
    rfl
  · rw [nextAfter, if_neg full, if_neg full]
    rfl

/-- The refusals do not look at the tasks. -/
theorem listTasks_refused {tasks : List TaskRow} {userId : String} {limit offset : Nat}
    {f : TaskFilters} {cursor : Option String} (refused : f.accepted userId = false) :
    ∃ e, listTasks db tasks userId limit offset f cursor = .error e := by
  rw [listTasks]
  cases status : f.status.filter fun s => !validTaskStatuses.contains s with
  | some s => exact ⟨_, rfl⟩
  | none =>
    have texts : ¬ (f.params userId).all nulFree = true := by
      intro clean
      rw [TaskFilters.accepted, status, clean] at refused
      cases refused
    cases db.bound cursor with
    | error e => exact ⟨e, rfl⟩
    | ok bound => exact ⟨.database, if_neg texts⟩

/-! ## All pages -/

/-- What the pages are cut from. -/
def TaskTable.listed (table : TaskTable) (db : ListingDb κ) (userId : String)
    (f : TaskFilters) : List ListedTask :=
  sortDown db.place ((table.matching db userId f).map TaskRow.selected)

/-- One more condition on the rows leaves the listing without the others. -/
theorem listed_filter (injective : Function.Injective db.collate) (table : TaskTable)
    (userId : String) (f : TaskFilters) (p : ListedTask → Bool) :
    sortDown db.place ((table.rows.filter fun t => f.holds db userId t && p t.selected).map
        TaskRow.selected) =
      (table.listed db userId f).filter p := by
  have both : (table.rows.filter fun t => f.holds db userId t && p t.selected).map
      TaskRow.selected = ((table.matching db userId f).map TaskRow.selected).filter p := by
    rw [List.filter_map, TaskTable.matching, List.filter_filter]
    refine congrArg (List.map _) (List.filter_congr fun t _ => ?_)
    exact Bool.and_comm _ _
  rw [both]
  exact Keyset.sortDown_filter (distinct_places injective table userId f) p

theorem row_of_listed {table : TaskTable} {userId : String} {f : TaskFilters} {r : ListedTask}
    (member : r ∈ table.listed db userId f) : ∃ t ∈ table.rows, t.selected = r := by
  have found := (Keyset.sortDown_perm _).mem_iff.mp member
  obtain ⟨t, asked, same⟩ := List.mem_map.mp found
  exact ⟨t, (List.mem_filter.mp asked).1, same⟩

/-- What a client does with a cursor. -/
def fetchPage (db : ListingDb κ) (table : TaskTable) (userId : String) (limit : Nat)
    (f : TaskFilters) (cursor : Option String) :
    Except ListError (List ListedTask × Option String) :=
  (listTasks db table.rows userId limit 0 f cursor).map fun page => (page.tasks, page.nextCursor)

theorem fetchPage_serves (injective : Function.Injective db.collate) {table : TaskTable}
    (reads : ∀ t ∈ table.rows, db.timestamptz (db.iso t.createdAt) = some (t.createdAt : Int))
    {userId : String} {limit : Nat} {f : TaskFilters} (accepted : f.accepted userId = true)
    (pos : 0 < limit) :
    Serves db.place db.cursor limit (table.listed db userId f)
      (fetchPage db table userId limit f) := by
  intro after member
  have stands : db.bound (after.map db.cursor) =
      .ok (after.map fun r => ((r.createdAt : Int), r.taskId)) := by
    cases after with
    | none => rfl
    | some r =>
      obtain ⟨t, row, rfl⟩ := row_of_listed (member r rfl)
      exact bound_cursor (table.uuids t row) (reads t row)
  have answer := @listTasks_ok _ _ db table.rows userId limit f _ _ accepted pos stands
  have rows : sortDown db.place ((table.rows.filter fun t => f.holds db userId t &&
        (after.map fun r => ((r.createdAt : Int), r.taskId)).all fun (ts, id) =>
          db.place t.selected < toLex (ts, db.collate id)).map TaskRow.selected) =
      (table.listed db userId f).filter (below db.place after) := by
    rw [← listed_filter injective]
    cases after <;> rfl
  simp only [rows] at answer
  rw [fetchPage, answer]
  rfl

/-- Whatever is listed, under whatever filters the call accepts: whoever follows the cursors
from the first page on is through after one page more than there are full ones, and has
every matching task once, the last created first and those of one time by their ids. A
cursor says the time and the id it was made of. -/
theorem listing_complete (db : ListingDb κ) (injective : Function.Injective db.collate)
    (table : TaskTable)
    (reads : ∀ t ∈ table.rows, db.timestamptz (db.iso t.createdAt) = some (t.createdAt : Int))
    (userId : String) (limit : Nat) (pos : 0 < limit) (f : TaskFilters) :
    (if f.accepted userId then
      ∃ pages,
        (∀ fuel, (table.matching db userId f).length / limit < fuel →
          follow (fetchPage db table userId limit f) fuel none = some pages) ∧
        pages.length = (table.matching db userId f).length / limit + 1 ∧
        pages.flatten.Perm ((table.matching db userId f).map TaskRow.selected) ∧
        pages.flatten.Nodup ∧ Descending db.place pages.flatten
    else ∀ tasks offset cursor, ∃ e, listTasks db tasks userId limit offset f cursor = .error e) ∧
    ∀ createdAt taskId, decodeTaskCursor (encodeTaskCursor createdAt taskId) =
      (.str (codes createdAt), .str (codes taskId)) := by
  refine ⟨?_, decode_encode_cursor⟩
  by_cases accepted : f.accepted userId = true
  · rw [if_pos accepted]
    have sorted : Descending db.place (table.listed db userId f) :=
      Keyset.descending_sortDown (distinct_places injective table userId f)
    have same : (table.listed db userId f).Perm
        ((table.matching db userId f).map TaskRow.selected) := Keyset.sortDown_perm _
    have size : (table.listed db userId f).length = (table.matching db userId f).length := by
      rw [same.length_eq, List.length_map]
    obtain ⟨pages, followed, whole, number⟩ :=
      Keyset.follow_keyset pos sorted (fetchPage_serves injective reads accepted pos)
    rw [size] at followed number
    refine ⟨pages, followed, number, whole ▸ same, ?_, whole ▸ sorted⟩
    rw [whole]
    refine sorted.imp fun {a b} less same => ?_
    rw [same] at less
    exact lt_irrefl _ less
  · rw [if_neg accepted]
    intro tasks offset cursor
    exact listTasks_refused (by simpa using accepted)

end Listing

/-! Two tasks of one time, listed one by one: two full pages, and an empty one. -/

def twinTask (taskId : String) : TaskRow :=
  ⟨taskId, "u", .complete, "orchestrator", "sum up", some "done", none, none, some 3, none, none,
    0, [], ["daily"], none, 63934380000000000, 63934380000000000, some 63934380000000000⟩

def twinTable : TaskTable where
  rows := [twinTask "aaaaaaaa-bbbb-cccc-dddd-eeeeeeeeeeee",
    twinTask "aaaaaaaa-bbbb-cccc-dddd-eeeeeeeeeeef"]
  keys := by decide
  uuids := by decide

/-- A session at UTC, and the cast of one time. -/
def twinDb : ListingDb String where
  collate := id
  searches := fun input q => (input.splitOn " ").contains q
  timestamptz := fun s => if s = "2026-03-02T06:00:00+00:00" then some 63934380000000000 else none
  tz := fun _ => .utc

theorem twins_listed : ∃ pages,
    follow (fetchPage twinDb twinTable "u" 1 ⟨some "complete", none, some ["daily"], none⟩) 3 none =
      some pages ∧ pages.length = 3 ∧ pages.flatten.length = 2 := by
  have iso : twinDb.iso 63934380000000000 = "2026-03-02T06:00:00+00:00" := by
    have chars : isoformat (rowInstant 63934380000000000) .utc =
        "2026-03-02T06:00:00+00:00".toList := by decide +kernel
    rw [ListingDb.iso]
    show String.ofList (isoformat (rowInstant 63934380000000000) .utc) = _
    rw [chars, String.ofList_toList]
  have reads : ∀ t ∈ twinTable.rows,
      twinDb.timestamptz (twinDb.iso t.createdAt) = some (t.createdAt : Int) := by
    intro t row
    have time : t.createdAt = 63934380000000000 := by
      simp only [twinTable, List.mem_cons, List.not_mem_nil, or_false] at row
      rcases row with rfl | rfl <;> rfl
    rw [time, iso]
    show (if "2026-03-02T06:00:00+00:00" = "2026-03-02T06:00:00+00:00" then
      some (63934380000000000 : Int) else none) = _
    rw [if_pos rfl]
    rfl
  have whole := listing_complete twinDb Function.injective_id twinTable reads "u" 1 (by decide)
    ⟨some "complete", none, some ["daily"], none⟩
  have two : (twinTable.matching twinDb "u"
      ⟨some "complete", none, some ["daily"], none⟩).length = 2 := by decide
  rw [if_pos (by decide), two] at whole
  obtain ⟨⟨pages, followed, number, same, -⟩, -⟩ := whole
  refine ⟨pages, followed 3 (by decide), number, ?_⟩
  rw [same.length_eq, List.length_map, two]

end LegionForge.Gateway
