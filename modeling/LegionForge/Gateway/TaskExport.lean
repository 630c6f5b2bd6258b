import LegionForge.Audit.Value
import LegionForge.Gateway.TaskListing
import LegionForge.Lib.Csv
import LegionForge.Lib.Lines

/-!
# The export of tasks

`GET /tasks/export` writes what `list_tasks` answers as JSON, as comma-separated values or as
Markdown. A reader of the second gets the tasks back column by column, whatever their inputs
and results are (`export_csv_reads`).
-/

namespace LegionForge.Gateway

open LegionForge.Audit (intText intToken)
open JsonText (Json)

/-! ## The request -/

/-- The query, as the framework lets it through -/
structure ExportQuery where
  format : String := "json"
  limit : Nat := 500
  status : Option String := none
  q : Option String := none
  tags : Option (List String) := none
  limits : 1 ≤ limit ∧ limit ≤ 5000 := by decide
  short : ∀ text ∈ q, text.length ≤ 200 := by simp

def ExportQuery.filters (query : ExportQuery) : TaskFilters :=
  ⟨query.status, query.q, query.tags, none⟩

structure ExportFile where
  content : List Char
  mediaType : String
  /-- `Content-Disposition` -/
  disposition : String
  /-- `X-Export-Count` -/
  count : Nat

inductive ExportAnswer where
  | badRequest (detail : String)
  /-- `list_tasks` raises. -/
  | failed (e : ListError)
  | file (f : ExportFile)

structure ExportEnv (κ : Type) where
  db : ListingDb κ
  unicode : Security.Unicode
  /-- What the driver makes of a JSON column -/
  jsonb : String → Json
  /-- Whether the writer of the standard library quotes a carriage return, whatever ends its
  lines, as all but early releases do -/
  quotesReturn : Bool
  /-- `strftime` of the time -/
  generated : List Char

section
variable {κ : Type} (env : ExportEnv κ)

/-- `str` of a time, which has a blank where `isoformat` has a letter -/
def ExportEnv.timeText (micros : Nat) : List Char :=
  (env.db.iso micros).toList.map fun c => if c = 'T' then ' ' else c

/-! ## Comma-separated values -/

/-- `_EXPORT_CSV_FIELDS` -/
def exportCsvFields : List String :=
  ["task_id", "status", "agent_type", "priority", "input", "result", "error", "steps",
    "created_at", "completed_at", "tags"]

/-- What is written for a field of a row, if the row has it -/
def ExportEnv.cell (t : ListedTask) : String → Option (List Char)
  | "task_id" => some t.taskId.toList
  | "status" => some t.status.text.toList
  | "agent_type" => some t.agentType.toList
  | "input" => some t.input.toList
  | "result" => some ((t.result.map String.toList).getD [])
  | "error" => some ((t.error.map String.toList).getD [])
  | "steps" => some ((t.steps.map intText).getD [])
  | "created_at" => some (env.timeText t.createdAt)
  | "completed_at" => some ((t.completedAt.map env.timeText).getD [])
  | "tags" => some ([';'].intercalate (t.tags.map String.toList))
  | _ => none

/-- `writerow`: what the row has not is left empty. -/
def ExportEnv.csvRow (t : ListedTask) : List (List Char) :=
  exportCsvFields.map fun field => (env.cell t field).getD []

/-- What a field with one of these characters is quoted for -/
def ExportEnv.special (c : Char) : Bool :=
  c = ',' || c = '"' || c = '\n' || (env.quotesReturn && c = '\r')

def ExportEnv.csv (rows : List ListedTask) : List Char :=
  CsvText.write env.special (exportCsvFields.map String.toList :: rows.map env.csvRow)

/-! ## Markdown -/

/-- `str(…)[:19] or "—"`, where `None` has a text, too -/
def ExportEnv.shortTime (micros : Option Nat) : List Char :=
  let text := ((micros.map env.timeText).getD "None".toList).take 19
  if text = [] then ['—'] else text

def joinedOr (texts : List String) : List Char :=
  if texts = [] then ['—'] else [',', ' '].intercalate (texts.map String.toList)

def ExportEnv.markdownTask (t : ListedTask) : List (List Char) :=
  let input := (env.unicode.strip t.input).toList
  let result := (env.unicode.strip (t.result.getD "")).toList
  [[], "## Task ".toList ++ '\x60' :: t.taskId.toList.take 8 ++ ['…', '\x60'], [],
    "**Status:** ".toList ++ t.status.text.toList ++ "  **Agent:** ".toList ++
      t.agentType.toList ++ [' ', ' '],
    "**Created:** ".toList ++ (env.timeText t.createdAt).take 19 ++ "  **Completed:** ".toList ++
      env.shortTime t.completedAt ++ [' ', ' '],
    "**Tags:** ".toList ++ joinedOr t.tags ++ "  **Labels:** ".toList ++ joinedOr [] ++ [' ', ' '],
    [], "**Input:**".toList, []] ++
  ((TextLines.splitLines input).take 20).map (['>', ' '] ++ ·) ++
  (if result = [] then [] else [[], "**Result:**".toList, [], result.take 2000]) ++
  [[], "---".toList]

def ExportEnv.markdown (rows : List ListedTask) : List Char :=
  ['\n'].intercalate
    (["# LegionForge Task Export".toList, [], "Generated: ".toList ++ env.generated ++ [' ', ' '],
      "Total: ".toList ++ intText rows.length ++ " task(s)  ".toList, [], "---".toList] ++
      rows.flatMap env.markdownTask)

/-! ## JSON -/

def optionJson {α : Type} (json : α → Json) : Option α → Json
  | none => .null
  | some a => json a

/-- A time is written as `str` of it. -/
def ExportEnv.taskJson (t : ListedTask) : Json :=
  let time := fun micros => Json.str (String.ofList (env.timeText micros))
  .obj [("task_id", .str t.taskId), ("user_id", .str t.userId), ("status", .str t.status.text),
    ("agent_type", .str t.agentType), ("input", .str t.input),
    ("result", optionJson .str t.result), ("error", optionJson .str t.error),
    ("steps", optionJson (fun n => .num (intToken n)) t.steps),
    ("tokens", optionJson env.jsonb t.tokens), ("tags", .arr (t.tags.map .str)),
    ("created_at", time t.createdAt), ("updated_at", time t.updatedAt),
    ("completed_at", optionJson time t.completedAt)]

def ExportEnv.json (rows : List ListedTask) : Json :=
  .obj [("count", .num (intToken rows.length)), ("tasks", .arr (rows.map env.taskJson))]

/-! ## `export_tasks` -/

def validExportFormats : List String := ["csv", "json", "markdown"]

/-- `sorted` of a set of texts, as it is written -/
def listText (texts : List String) : String :=
  "[" ++ ", ".intercalate (texts.map fun s => "'" ++ s ++ "'") ++ "]"

variable [LinearOrder κ]

def exportTasks (tasks : List TaskRow) (userId : String) (query : ExportQuery) : ExportAnswer :=
  if !validExportFormats.contains query.format then
    .badRequest ("format must be one of " ++ listText validExportFormats)
  else if ((given query.status).any fun s => !validTaskStatuses.contains s) then
    .badRequest ("status must be one of " ++
      listText ["cancelled", "complete", "failed", "queued", "running"])
  else
    match listTasks env.db tasks userId query.limit 0 query.filters none with
    | .error e => .failed e
    | .ok page =>
      if query.format = "csv" then
        .file ⟨env.csv page.tasks, "text/csv", "attachment; filename=\"tasks_export.csv\"",
          page.tasks.length⟩
      else if query.format = "markdown" then
        .file ⟨env.markdown page.tasks, "text/markdown",
          "attachment; filename=\"tasks_export.md\"", page.tasks.length⟩
      else
        .file ⟨JsonText.render (env.json page.tasks), "application/json",
          "attachment; filename=\"tasks_export.json\"", page.tasks.length⟩

end

/-! ## What a reader gets -/

section
variable {κ : Type} [LinearOrder κ] {env : ExportEnv κ}

/-- A call that `list_tasks` accepts is not refused before. -/
theorem status_of_accepted {query : ExportQuery} {userId : String}
    (accepted : query.filters.accepted userId = true) :
    ((given query.status).any fun s => !validTaskStatuses.contains s) = false := by
  have valid := of_decide_eq_true (Bool.and_eq_true_iff.mp accepted).1
  cases status : query.status with
  | none => rfl
  | some s =>
    have listed : ¬ (!validTaskStatuses.contains s) = true := by
      intro other
      have one : (query.filters.status.filter fun s => !validTaskStatuses.contains s) = some s := by
        rw [ExportQuery.filters, status, Option.filter_some, if_pos other]
      rw [one] at valid
      cases valid
    by_cases empty : s = ""
    · simp [given, empty]
    · simpa [given, empty] using listed

omit [LinearOrder κ] in
theorem csvRow_ne_nil (t : ListedTask) : env.csvRow t ≠ [] := List.cons_ne_nil _ _

/-- Whatever texts the tasks hold, a reader of the exported values gets the names of the columns
and then, column by column, the first tasks of the user that the filters ask for, as many as
the limit allows; the priority is not among what was selected and stays empty. -/
theorem export_csv_reads (env : ExportEnv κ) {ends : Char → Bool}
    (agree : CsvText.Agree env.special ends) (table : TaskTable) (userId : String)
    (query : ExportQuery) (csv : query.format = "csv")
    (accepted : query.filters.accepted userId = true) :
    ∃ f, exportTasks env table.rows userId query = .file f ∧
      CsvText.read ends f.content = exportCsvFields.map String.toList ::
        ((table.listed env.db userId query.filters).take query.limit).map env.csvRow ∧
      f.count = min query.limit (table.matching env.db userId query.filters).length ∧
      ∀ row ∈ (CsvText.read ends f.content).tail, row[3]? = some [] := by
  have known : validExportFormats.contains query.format = true := by rw [csv]; decide
  have page := @listTasks_ok _ _ env.db table.rows userId query.limit query.filters none none
    accepted query.limits.1 rfl
  simp only [Option.all_none, Bool.and_true] at page
  have answer : exportTasks env table.rows userId query = .file
      ⟨env.csv ((table.listed env.db userId query.filters).take query.limit), "text/csv",
        "attachment; filename=\"tasks_export.csv\"",
        ((table.listed env.db userId query.filters).take query.limit).length⟩ := by
    rw [exportTasks, known, status_of_accepted accepted, page]
    exact if_pos csv
  have read : CsvText.read ends (env.csv ((table.listed env.db userId query.filters).take
      query.limit)) = exportCsvFields.map String.toList ::
        ((table.listed env.db userId query.filters).take query.limit).map env.csvRow := by
    refine CsvText.read_write agree fun row hrow => ?_
    rcases List.mem_cons.mp hrow with rfl | task
    · exact List.cons_ne_nil _ _
    · obtain ⟨t, -, rfl⟩ := List.mem_map.mp task
      exact csvRow_ne_nil t
  refine ⟨_, answer, read, ?_, ?_⟩
  · rw [List.length_take, TaskTable.listed, (Keyset.sortDown_perm _).length_eq, List.length_map]
  · rw [read, List.tail_cons]
    intro row hrow
    obtain ⟨t, -, rfl⟩ := List.mem_map.mp hrow
    rfl

end

/-! Two tasks, one of which has a quote, a comma and a line of its own in its input. -/

def quotedTask : TaskRow :=
  { twinTask "aaaaaaaa-bbbb-cccc-dddd-eeeeeeeeeeee" with input := "say \"a, b\"\nthen end" }

def exportTable : TaskTable where
  rows := [quotedTask, twinTask "aaaaaaaa-bbbb-cccc-dddd-eeeeeeeeeeef"]
  keys := by decide
  uuids := by decide

def twinEnv : ExportEnv String where
  db := twinDb
  unicode := .ascii
  jsonb _ := .null
  quotesReturn := true
  generated := "2026-03-02T06:00:00Z".toList

/-- Both kinds of line ends -/
def lineEnd (c : Char) : Bool := c = '\n' || c = '\r'

theorem agree_lineEnd : CsvText.Agree twinEnv.special lineEnd where
  newline := rfl
  quoted c h := by
    rcases h with rfl | rfl | stop
    · rfl
    · rfl
    · rcases Bool.or_eq_true_iff.mp stop with h | h <;> simp [ExportEnv.special, twinEnv] at h ⊢ <;>
        simp [h]
  comma := rfl
  quote := rfl

theorem twins_exported : ∃ f,
    exportTasks twinEnv exportTable.rows "u" { format := "csv" } = .file f ∧
      CsvText.read lineEnd f.content = exportCsvFields.map String.toList ::
        ((exportTable.listed twinDb "u" ⟨none, none, none, none⟩).take 500).map twinEnv.csvRow ∧
      f.count = 2 := by
  obtain ⟨f, answer, read, count, -⟩ := export_csv_reads twinEnv agree_lineEnd exportTable "u"
    { format := "csv" } rfl (by decide)
  exact ⟨f, answer, read, count.trans (by decide)⟩

end LegionForge.Gateway
