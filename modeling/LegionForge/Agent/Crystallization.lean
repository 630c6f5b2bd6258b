import LegionForge.Lib.Machine
import LegionForge.Lib.RowLocks

/-!
# Crystallization packages

A package is analysed by a job and decided by an operator, and both write its status.
The operator's three statements ask for the status they leave. `create_analysis` inserts
its report and then updates the package, in two statements that commit apart, and the
`UPDATE` asks for the id only. So an analysis that comes to its package after the decision
takes it out of it again, and one that comes after the report of another makes it ready
though it was found wanting.

`decisions_last_iff` says where a decision lasts, and where a package that is approved has
been found ready by the analysis stored last.
-/

namespace LegionForge.Agent

/-! ## Analysis -/

inductive PackageStatus where
  | pendingAnalysis
  | readyForReview
  | rejectedByAnalysis
  | approved
  | rejected
  deriving DecidableEq, Repr

inductive Recommendation where
  | approve
  | needsRevision
  | reject
  deriving DecidableEq, Repr

/-- What the checks of `analyze_package` have found. -/
structure PackageChecks where
  forbiddenConstructs : List String
  undeclaredDependencies : List String
  securityFindings : List String
  testCasesPassed : Nat
  testCasesFailed : Nat
  deriving DecidableEq

/-- `pass_rate < _MIN_PASS_RATE`, which is 0.80 -/
def PackageChecks.passRateTooLow (c : PackageChecks) : Bool :=
  5 * c.testCasesPassed < 4 * (c.testCasesPassed + c.testCasesFailed)

/-- `pass_rate >= 0.95`, where the rate without tests is zero -/
def PackageChecks.passRateHigh (c : PackageChecks) : Bool :=
  0 < c.testCasesPassed + c.testCasesFailed &&
    19 * (c.testCasesPassed + c.testCasesFailed) ≤ 20 * c.testCasesPassed

structure AnalysisReport where
  packageId : String
  checks : PackageChecks
  recommendation : Recommendation
  status : PackageStatus
  deriving DecidableEq

/-- The decision of `analyze_package` -/
def analyzePackage (packageId : String) (checks : PackageChecks) : AnalysisReport :=
  if checks.forbiddenConstructs ≠ [] ∨ checks.undeclaredDependencies ≠ [] ∨
      checks.securityFindings ≠ [] ∨ checks.passRateTooLow = true then
    { packageId, checks, recommendation := .reject, status := .rejectedByAnalysis }
  else
    { packageId, checks
      recommendation :=
        if checks.passRateHigh && checks.securityFindings.isEmpty then .approve
        else .needsRevision
      status := .readyForReview }

/-! ## The tables -/

structure PackageRow where
  packageId : String
  toolName : String
  functionCode : String
  status : PackageStatus
  revisionNotes : Option String
  deriving DecidableEq

/-- A stored report. -/
structure AnalysisRow where
  id : Nat
  report : AnalysisReport
  analyzedAt : Nat
  deriving DecidableEq

/-- The statements on `crystallization_packages`. The first is the second one of
`create_analysis`, which has stored the report. -/
inductive PackageStatement where
  | createAnalysis (analysis : AnalysisRow)
  | approvePackage (packageId : String)
  | rejectPackage (packageId reason : String)
  | revisePackage (packageId revisionNotes : String)

/-- An update of the package with the id, if it is in one of the statuses. -/
def packageUpdate (packageId : String) (reviewable : PackageStatus → Bool)
    (set : PackageRow → PackageRow) (keeps : ∀ p, (set p).packageId = p.packageId) :
    Update PackageRow.packageId where
  guard := fun p => p.packageId = packageId && reviewable p.status
  set
  keeps
  order := id
  skipLocked := false
  single := false

def PackageStatement.meaning :
    PackageStatement → List PackageRow → Update PackageRow.packageId
  | .createAnalysis analysis, _ =>
    packageUpdate analysis.report.packageId (fun _ => true)
      (fun p => { p with status := analysis.report.status }) fun _ => rfl
  | .approvePackage packageId, _ =>
    packageUpdate packageId (· = .readyForReview)
      (fun p => { p with status := .approved }) fun _ => rfl
  | .rejectPackage packageId reason, _ =>
    packageUpdate packageId (fun s => s = .readyForReview || s = .pendingAnalysis)
      (fun p => { p with status := .rejected, revisionNotes := some reason }) fun _ => rfl
  | .revisePackage packageId revisionNotes, _ =>
    packageUpdate packageId (· = .readyForReview)
      (fun p => { p with status := .pendingAnalysis, revisionNotes := some revisionNotes })
      fun _ => rfl

abbrev PackageStore := Store PackageRow.packageId PackageStatement

abbrev PackageSession := Session String PackageRow PackageStatement

/-- The packages, and the reports of which the one stored last is first. -/
structure PackageDb where
  store : PackageStore
  analyses : List AnalysisRow
  /-- Those whose calls have not begun to update their package -/
  storing : List AnalysisRow
  /-- Those that have come to their package -/
  applied : List Nat

def PackageDb.empty : PackageDb := ⟨⟨.empty, .empty⟩, [], [], []⟩

def PackageDb.packages (db : PackageDb) : List PackageRow := db.store.rows.rows

/-- `create_package` inserts a row with the default status. -/
def newPackage (packageId toolName functionCode : String) : PackageRow where
  packageId
  toolName
  functionCode
  status := .pendingAnalysis
  revisionNotes := none

inductive PackageAction where
  | createPackage (packageId toolName functionCode : String)
  /-- The first statement of `create_analysis`, at `now` -/
  | insertAnalysis (report : AnalysisReport) (now : Nat)
  | start (session : Nat) (stmt : PackageStatement)
  | visit (session : Nat)
  | commit (session : Nat)
  | abort (session : Nat)

/-- The `CHECK` constraint on the status of a report -/
def AnalysisReport.checked (report : AnalysisReport) : Bool :=
  report.status = .readyForReview || report.status = .rejectedByAnalysis

/-- A report can be inserted if it passes its constraint and refers to a package. -/
def PackageDb.inserts (db : PackageDb) (report : AnalysisReport) : Bool :=
  report.checked && db.packages.any (·.packageId = report.packageId)

/-- A call updates its package once. What it leaves behind are the calls that have still to. -/
def PackageDb.begins (db : PackageDb) : PackageStatement → Option (List AnalysisRow)
  | .createAnalysis a => if a ∈ db.storing then some (db.storing.erase a) else none
  | _ => some db.storing

def PackageStatement.applies (applied : List Nat) : PackageStatement → List Nat
  | .createAnalysis a => a.id :: applied
  | _ => applied

/-- The label of a commit is whether a row was updated. -/
def PackageDb.step (db : PackageDb) : PackageAction → Option (PackageDb × Bool)
  | .createPackage packageId toolName functionCode =>
    (db.store.insert (newPackage packageId toolName functionCode)).map fun store =>
      ({ db with store }, true)
  | .insertAnalysis report now =>
    if db.inserts report then
      let a : AnalysisRow := ⟨db.analyses.length, report, now⟩
      some ({ db with analyses := a :: db.analyses, storing := a :: db.storing }, true)
    else none
  | .start session stmt =>
    (db.begins stmt).bind fun storing =>
      (db.store.start PackageStatement.meaning session stmt).map fun store =>
        ({ db with store, storing }, false)
  | .visit session =>
    (db.store.visit PackageStatement.meaning session false).map fun store =>
      ({ db with store }, false)
  | .commit session =>
    (db.store.commit session).map fun r =>
      ({ db with store := r.1, applied := r.2.stmt.applies db.applied }, !r.2.writes.isEmpty)
  | .abort session => some ({ db with store := db.store.abort session }, false)

def packageDb : Machine PackageDb PackageAction Bool where
  step db a := db.step a

abbrev PackageStep := Machine.Entry PackageDb PackageAction Bool

/-! ## What a step can do -/

/-- The analysis stored last for a package -/
def PackageDb.storedLast (db : PackageDb) (packageId : String) : Option AnalysisRow :=
  db.analyses.find? (·.report.packageId = packageId)

@[simp] theorem set_packageId {stmt : PackageStatement} {snapshot : List PackageRow}
    {p : PackageRow} : ((stmt.meaning snapshot).set p).packageId = p.packageId :=
  (stmt.meaning snapshot).keeps p

inductive PackageMove (db : PackageDb) : PackageAction → PackageDb → Prop
  | created {packageId toolName functionCode : String} {store : PackageStore}
      (insert : db.store.insert (newPackage packageId toolName functionCode) = some store) :
      PackageMove db (.createPackage packageId toolName functionCode) { db with store }
  | inserted {report : AnalysisReport} {now : Nat} (checked : report.checked = true)
      (refers : ∃ p ∈ db.packages, p.packageId = report.packageId) :
      PackageMove db (.insertAnalysis report now)
        { db with
          analyses := ⟨db.analyses.length, report, now⟩ :: db.analyses
          storing := ⟨db.analyses.length, report, now⟩ :: db.storing }
  | started {session : Nat} {stmt : PackageStatement} {store : PackageStore}
      {storing : List AnalysisRow} (owed : ∀ a, stmt = .createAnalysis a → a ∈ db.storing)
      (fewer : ∀ a ∈ storing, a ∈ db.storing)
      (start : db.store.start PackageStatement.meaning session stmt = some store) :
      PackageMove db (.start session stmt) { db with store, storing }
  | visited {session : Nat} {store : PackageStore}
      (visit : db.store.visit PackageStatement.meaning session false = some store) :
      PackageMove db (.visit session) { db with store }
  | committed {session : Nat} {store : PackageStore} {t : PackageSession}
      (commit : db.store.commit session = some (store, t)) :
      PackageMove db (.commit session) { db with store, applied := t.stmt.applies db.applied }
  | aborted {session : Nat} :
      PackageMove db (.abort session) { db with store := db.store.abort session }

theorem begins_spec {db : PackageDb} {stmt : PackageStatement} {storing : List AnalysisRow}
    (h : db.begins stmt = some storing) : (∀ a, stmt = .createAnalysis a → a ∈ db.storing) ∧
      ∀ a ∈ storing, a ∈ db.storing := by
  cases stmt with
  | createAnalysis a =>
    obtain ⟨owed, same⟩ := Option.ite_none_right_eq_some.mp h
    cases same
    refine ⟨fun b here => ?_, fun b hb => List.mem_of_mem_erase hb⟩
    cases here
    exact owed
  | approvePackage | rejectPackage | revisePackage =>
    cases h
    exact ⟨nofun, fun _ hb => hb⟩

theorem package_moves {x : PackageStep} (h : packageDb.Steps x) :
    PackageMove x.before x.input x.after := by
  obtain ⟨db, a, label, db'⟩ := x
  have h : db.step a = some (db', label) := h
  cases a with
  | createPackage packageId toolName functionCode =>
    obtain ⟨store, insert, same⟩ := Option.map_eq_some_iff.mp h
    cases same
    exact .created insert
  | insertAnalysis report now =>
    obtain ⟨inserts, same⟩ := Option.ite_none_right_eq_some.mp h
    cases same
    simp only [PackageDb.inserts, Bool.and_eq_true, List.any_eq_true, decide_eq_true_eq] at inserts
    exact .inserted inserts.1 inserts.2
  | start session stmt =>
    obtain ⟨storing, begins, h⟩ := Option.bind_eq_some_iff.mp h
    obtain ⟨store, start, same⟩ := Option.map_eq_some_iff.mp h
    cases same
    obtain ⟨owed, fewer⟩ := begins_spec begins
    exact .started owed fewer start
  | visit session =>
    obtain ⟨store, visit, same⟩ := Option.map_eq_some_iff.mp h
    cases same
    exact .visited visit
  | commit session =>
    obtain ⟨⟨store, t⟩, commit, same⟩ := Option.map_eq_some_iff.mp h
    cases same
    exact .committed commit
  | abort session =>
    cases h
    exact .aborted

/-- The statement of an analysis is of a report that is stored and of a package that is there,
and will write it. -/
def Owes (db : PackageDb) (t : PackageSession) : Prop :=
  ∀ a, t.stmt = .createAnalysis a → a ∈ db.analyses ∧
    ∃ p ∈ db.packages, p.packageId = a.report.packageId ∧ Store.due PackageRow.packageId t p

structure PackageDb.Consistent (db : PackageDb) : Prop where
  store : db.store.Consistent PackageStatement.meaning
  owes : ∀ t ∈ db.store.sessions.rows, Owes db t
  stored : ∀ a ∈ db.storing, a ∈ db.analyses
  checked : ∀ a ∈ db.analyses, a.report.checked = true ∧
    ∃ p ∈ db.packages, p.packageId = a.report.packageId
  /-- The ids of the reports go up. -/
  numbered : ∀ a ∈ db.analyses, a.id < db.analyses.length
  distinct : ∀ a ∈ db.analyses, ∀ b ∈ db.analyses, a.id = b.id → a = b
  old : ∀ n ∈ db.applied, n < db.analyses.length

/-- An analysis that commits has written its package. -/
theorem written_of_commit {db : PackageDb} {t : PackageSession} {a : AnalysisRow}
    (c : db.Consistent) (session : t ∈ db.store.sessions.rows) (done : t.todo = [])
    (stmt : t.stmt = .createAnalysis a) :
    a ∈ db.analyses ∧ a.report.packageId ∈ t.writes.map (·.packageId) := by
  obtain ⟨mem, p, -, same, visit | written⟩ := c.owes t session a stmt
  · rw [done] at visit
    cases visit
  · exact ⟨mem, same ▸ written⟩

theorem checked_cases {report : AnalysisReport} (h : report.checked = true) :
    report.status = .readyForReview ∨ report.status = .rejectedByAnalysis := by
  simpa [AnalysisReport.checked] using h

/-- Packages are not deleted. -/
theorem exists_package_after {x : PackageStep} (h : packageDb.Steps x)
    (c : x.before.Consistent) {p : PackageRow} (hp : p ∈ x.before.packages) :
    ∃ b ∈ x.after.packages, b.packageId = p.packageId := by
  obtain ⟨db, a, label, db'⟩ := x
  have moves : PackageMove db a db' := package_moves h
  cases moves with
  | created insert =>
    obtain ⟨rows, inserted, rfl⟩ := Option.map_eq_some_iff.mp insert
    exact ⟨p, Table.mem_insert_of_mem inserted hp, rfl⟩
  | inserted => exact ⟨p, hp, rfl⟩
  | started _ _ start =>
    obtain ⟨_, -, rfl⟩ := Option.map_eq_some_iff.mp start
    exact ⟨p, hp, rfl⟩
  | @visited _ store visit =>
    refine ⟨p, ?_, rfl⟩
    show p ∈ store.rows.rows
    rw [Store.visit_rows visit]
    exact hp
  | @committed _ _ t commit =>
    by_cases written : p.packageId ∈ t.writes.map (·.packageId)
    · exact ⟨_, Store.mem_commit_of_written commit c.store hp written, set_packageId⟩
    · exact ⟨p, Store.mem_commit_of_not_written commit c.store hp written, rfl⟩
  | aborted => exact ⟨p, hp, rfl⟩

/-- And reports are not either. -/
theorem mem_analyses_after {x : PackageStep} (h : packageDb.Steps x) {a : AnalysisRow}
    (ha : a ∈ x.before.analyses) : a ∈ x.after.analyses := by
  obtain ⟨db, action, label, db'⟩ := x
  have moves : PackageMove db action db' := package_moves h
  cases moves with
  | inserted => exact List.mem_cons_of_mem _ ha
  | created | started | visited | committed | aborted => exact ha

/-- A session goes on owing what it owed, while the packages and reports stay. -/
theorem owes_of_due {db db' : PackageDb} {t u : PackageSession} (owes : Owes db t)
    (stmt : u.stmt = t.stmt) (reports : ∀ a ∈ db.analyses, a ∈ db'.analyses)
    (stays : ∀ p ∈ db.packages, ∃ b ∈ db'.packages, b.packageId = p.packageId)
    (due : ∀ p ∈ db.packages, (t.stmt.meaning t.snapshot).guard p = true →
      Store.due PackageRow.packageId t p → Store.due PackageRow.packageId u p) :
    Owes db' u := by
  intro a at_stmt
  rw [stmt] at at_stmt
  obtain ⟨mem, p, hp, same, is_due⟩ := owes a at_stmt
  obtain ⟨b, hb, same'⟩ := stays p hp
  have guard : (t.stmt.meaning t.snapshot).guard p = true := by
    rw [at_stmt]
    simp [PackageStatement.meaning, packageUpdate, same]
  have is_due := due p hp guard is_due
  unfold Store.due at is_due
  rw [← same'] at is_due
  exact ⟨reports a mem, b, hb, same'.trans same, is_due⟩

/-- The statements wait for their locks and take every row they find. -/
theorem package_waits (stmt : PackageStatement) (snapshot : List PackageRow) :
    (stmt.meaning snapshot).skipLocked = false ∧ (stmt.meaning snapshot).single = false := by
  cases stmt <;> exact ⟨rfl, rfl⟩

theorem owes_of_step {x : PackageStep} (h : packageDb.Steps x) (c : x.before.Consistent) :
    ∀ t ∈ x.after.store.sessions.rows, Owes x.after t := by
  have stays : ∀ p ∈ x.before.packages, ∃ b ∈ x.after.packages, b.packageId = p.packageId :=
    fun p hp => exists_package_after h c hp
  have reports : ∀ a ∈ x.before.analyses, a ∈ x.after.analyses :=
    fun _ ha => mem_analyses_after h ha
  have keeps : ∀ t ∈ x.before.store.sessions.rows, Owes x.after t := fun t ht =>
    owes_of_due (c.owes t ht) rfl reports stays fun _ _ _ is_due => is_due
  obtain ⟨db, a, label, db'⟩ := x
  have moves : PackageMove db a db' := package_moves h
  intro u hu
  cases moves with
  | created insert =>
    obtain ⟨_, -, rfl⟩ := Option.map_eq_some_iff.mp insert
    exact keeps u hu
  | inserted => exact keeps u hu
  | started owed _ start =>
    obtain ⟨sessions, inserted, rfl⟩ := Option.map_eq_some_iff.mp start
    rcases Table.of_mem_insert inserted hu with rfl | old
    · rintro a rfl
      have mem := c.stored a (owed a rfl)
      obtain ⟨-, p, hp, same⟩ := c.checked a mem
      refine ⟨mem, p, hp, same, .inl (List.mem_map_of_mem (List.mem_filter.mpr ⟨hp, ?_⟩))⟩
      simp [PackageStatement.meaning, packageUpdate, same]
    · exact keeps u old
  | visited visit =>
    rcases Store.of_mem_visit visit hu with ⟨old, -⟩ | ⟨t, ht, -, k, rest, todo, ⟨skips, -⟩ | rfl⟩
    · exact keeps u old
    · rw [Store.update, (package_waits _ _).1] at skips
      cases skips
    · exact owes_of_due (c.owes t ht) (Store.visited_same _ t).2.1 reports stays
        fun p hp guard is_due => Store.due_visited todo (package_waits _ _).2 hp guard is_due
  | committed commit =>
    have hu : u ∈ Table.rows _ := hu
    rw [(Store.commit_sessions commit).2.2.2] at hu
    exact keeps u (Store.mem_discard hu).1
  | aborted => exact keeps u (Store.mem_discard hu).1

theorem packageDb_consistent_of_step {x : PackageStep} (h : packageDb.Steps x)
    (c : x.before.Consistent) : x.after.Consistent := by
  have owes := owes_of_step h c
  have stays : ∀ p ∈ x.before.packages, ∃ b ∈ x.after.packages, b.packageId = p.packageId :=
    fun p hp => exists_package_after h c hp
  have refers : ∀ a ∈ x.before.analyses, a.report.checked = true ∧
      ∃ p ∈ x.after.packages, p.packageId = a.report.packageId := by
    intro a ha
    obtain ⟨checked, p, hp, same⟩ := c.checked a ha
    obtain ⟨b, hb, same'⟩ := stays p hp
    exact ⟨checked, b, hb, same'.trans same⟩
  obtain ⟨db, action, label, db'⟩ := x
  have moves : PackageMove db action db' := package_moves h
  have c : db.Consistent := c
  have owes : ∀ t ∈ db'.store.sessions.rows, Owes db' t := owes
  cases moves with
  | created insert =>
    exact ⟨Store.consistent_insert insert c.store, owes, c.stored, refers, c.numbered, c.distinct,
      c.old⟩
  | inserted checked package =>
    refine ⟨c.store, owes, fun a ha => ?_, fun a ha => ?_, fun a ha => ?_, fun a ha b hb same => ?_,
      fun n hn => ?_⟩
    · rcases List.mem_cons.mp ha with rfl | old
      · exact List.mem_cons_self
      · exact List.mem_cons_of_mem _ (c.stored a old)
    · rcases List.mem_cons.mp ha with rfl | old
      · exact ⟨checked, package⟩
      · exact refers a old
    · rcases List.mem_cons.mp ha with rfl | old
      · exact Nat.lt_succ_self _
      · exact Nat.lt_succ_of_lt (c.numbered a old)
    · rcases List.mem_cons.mp ha with rfl | old <;> rcases List.mem_cons.mp hb with rfl | old'
      · rfl
      · exact absurd same (Nat.ne_of_gt (c.numbered b old'))
      · exact absurd same (Nat.ne_of_lt (c.numbered a old))
      · exact c.distinct a old b old' same
    · exact Nat.lt_succ_of_lt (c.old n hn)
  | started _ fewer start =>
    exact ⟨Store.consistent_start start c.store, owes, fun a ha => c.stored a (fewer a ha), refers,
      c.numbered, c.distinct, c.old⟩
  | visited visit =>
    exact ⟨Store.consistent_visit visit c.store, owes, c.stored, refers, c.numbered, c.distinct,
      c.old⟩
  | @committed _ _ t commit =>
    refine ⟨Store.consistent_commit commit c.store, owes, c.stored, refers, c.numbered, c.distinct,
      fun n hn => ?_⟩
    have hn : n ∈ t.stmt.applies db.applied := hn
    cases stmt : t.stmt with
    | createAnalysis a =>
      rw [stmt] at hn
      rcases List.mem_cons.mp hn with rfl | old
      · exact c.numbered a (c.owes t (Store.commit_sessions commit).1 a stmt).1
      · exact c.old n old
    | approvePackage | rejectPackage | revisePackage =>
      rw [stmt] at hn
      exact c.old n hn
  | aborted =>
    exact ⟨Store.consistent_abort _ c.store, owes, c.stored, refers, c.numbered, c.distinct, c.old⟩

theorem packageDb_consistent_empty : PackageDb.empty.Consistent where
  store :=
    { writes := fun _ h => absurd h List.not_mem_nil
      exclusive := fun _ h => absurd h List.not_mem_nil }
  owes _ h := absurd h List.not_mem_nil
  stored _ h := absurd h List.not_mem_nil
  checked _ h := absurd h List.not_mem_nil
  numbered _ h := absurd h List.not_mem_nil
  distinct _ h := absurd h List.not_mem_nil
  old _ h := absurd h List.not_mem_nil

/-! ## Decisions -/

def PackageStatus.decided : PackageStatus → Bool
  | .approved | .rejected => true
  | _ => false

/-- The step leaves the decided packages as they are. -/
def KeepsDecided (x : PackageStep) : Prop :=
  ∀ p ∈ x.before.packages, p.status.decided = true →
    ∀ b ∈ x.after.packages, b.packageId = p.packageId → b.status = p.status

/-- No analysis comes to a package that is decided. -/
def AnalysesOpen (x : PackageStep) : Prop :=
  ∀ t ∈ x.before.store.sessions.rows, x.input = .commit t.id →
    ∀ a, t.stmt = .createAnalysis a →
      ∀ p ∈ x.before.packages, p.packageId = a.report.packageId → p.status.decided = false

/-- The statements of the operator leave decided packages alone. -/
theorem analysis_of_decided {stmt : PackageStatement} {snapshot : List PackageRow}
    {p : PackageRow} (guard : (stmt.meaning snapshot).guard p = true)
    (decided : p.status.decided = true) :
    ∃ a, stmt = .createAnalysis a ∧ p.packageId = a.report.packageId := by
  cases stmt with
  | createAnalysis a =>
    simp only [PackageStatement.meaning, packageUpdate, Bool.and_true, decide_eq_true_eq] at guard
    exact ⟨a, rfl, guard⟩
  | approvePackage | rejectPackage | revisePackage =>
    simp only [PackageStatement.meaning, packageUpdate, Bool.and_eq_true, Bool.or_eq_true,
      decide_eq_true_eq] at guard
    rcases p with ⟨_, _, _, status, _⟩
    cases status <;> simp_all [PackageStatus.decided]

theorem keepsDecided_iff_of_step {x : PackageStep} (h : packageDb.Steps x)
    (c : x.before.Consistent) : KeepsDecided x ↔ AnalysesOpen x := by
  refine ⟨?_, ?_⟩
  · intro keeps t session input a stmt p hp same
    obtain ⟨db, action, label, db'⟩ := x
    have moves : PackageMove db action db' := package_moves h
    cases moves with
    | @committed id store u commit =>
      obtain ⟨mem, at_id, done, -⟩ := Store.commit_sessions commit
      cases input
      have this : u = t := db.store.sessions.eq_of_key mem session at_id
      rw [this] at commit done
      obtain ⟨mem, written⟩ := written_of_commit c session done stmt
      rw [← same] at written
      by_contra decided
      rw [Bool.not_eq_false] at decided
      have after := keeps p hp decided _ (Store.mem_commit_of_written commit c.store hp written)
        set_packageId
      rw [Store.update, stmt] at after
      -- the package has the status of the report, which decides nothing
      have after : a.report.status = p.status := after
      rw [← after] at decided
      rcases checked_cases (c.checked a mem).1 with found | found <;> rw [found] at decided <;>
        cases decided
    | _ => cases input
  · intro opens p hp decided b hb same
    obtain ⟨db, a, label, db'⟩ := x
    have moves : PackageMove db a db' := package_moves h
    cases moves with
    | created insert =>
      obtain ⟨rows, inserted, rfl⟩ := Option.map_eq_some_iff.mp insert
      rw [rows.eq_of_key hb (Table.mem_insert_of_mem inserted hp) same]
    | inserted => rw [db.store.rows.eq_of_key hb hp same]
    | started _ _ start =>
      obtain ⟨_, -, rfl⟩ := Option.map_eq_some_iff.mp start
      rw [db.store.rows.eq_of_key hb hp same]
    | @visited _ store visit =>
      have hb : b ∈ store.rows.rows := hb
      rw [Store.visit_rows visit] at hb
      rw [db.store.rows.eq_of_key hb hp same]
    | @committed id store t commit =>
      obtain ⟨mem, rfl, -, -⟩ := Store.commit_sessions commit
      rcases Store.of_mem_commit commit c.store hb with ⟨old, -⟩ | ⟨p', hp', -, guard, rfl⟩
      · rw [db.store.rows.eq_of_key old hp same]
      · have here := db.store.rows.eq_of_key hp' hp (set_packageId.symm.trans same)
        rw [here] at guard
        obtain ⟨analysis, stmt, at_id⟩ := analysis_of_decided guard decided
        rw [opens t mem rfl analysis stmt p hp at_id] at decided
        cases decided
    | aborted => rw [db.store.rows.eq_of_key hb hp same]

/-! ## What was found of an approved package -/

/-- An approved package has been found ready by the analysis stored last. -/
def FoundReady (db : PackageDb) : Prop :=
  ∀ p ∈ db.packages, p.status = .approved →
    ∃ a, db.storedLast p.packageId = some a ∧ a.report.status = .readyForReview

/-- No report is stored that finds an approved package wanting. -/
def StoresReady (x : PackageStep) : Prop :=
  ∀ report now, x.input = .insertAnalysis report now → report.status ≠ .readyForReview →
    ∀ p ∈ x.before.packages, p.packageId = report.packageId → p.status ≠ .approved

/-- No package is approved while the report stored last, which finds it wanting, has not come
to it. -/
def ApprovesApplied (x : PackageStep) : Prop :=
  ∀ t ∈ x.before.store.sessions.rows, x.input = .commit t.id →
    ∀ packageId, t.stmt = .approvePackage packageId → packageId ∈ t.writes.map (·.packageId) →
      ∀ a, x.before.storedLast packageId = some a →
        a.report.status = .readyForReview ∨ a.id ∈ x.before.applied

/-- No report makes a package ready for review behind one that was stored later and finds it
wanting. -/
def AppliesLast (x : PackageStep) : Prop :=
  ∀ t ∈ x.before.store.sessions.rows, x.input = .commit t.id →
    ∀ a, t.stmt = .createAnalysis a → a.report.status = .readyForReview →
      ∀ b, x.before.storedLast a.report.packageId = some b → b.report.status = .readyForReview

/-- A package that is open for review has been found ready, or the report that finds it wanting
has still to come to it. -/
structure Reviewed (db : PackageDb) : Prop where
  approved : FoundReady db
  ready : ∀ p ∈ db.packages, p.status = .readyForReview →
    ∃ a, db.storedLast p.packageId = some a ∧
      (a.report.status = .readyForReview ∨ a.id ∉ db.applied)

theorem mem_of_storedLast {db : PackageDb} {packageId : String} {a : AnalysisRow}
    (last : db.storedLast packageId = some a) :
    a ∈ db.analyses ∧ a.report.packageId = packageId :=
  ⟨List.mem_of_find?_eq_some last, of_decide_eq_true (List.find?_some last :)⟩

theorem exists_storedLast {db : PackageDb} {a : AnalysisRow} (ha : a ∈ db.analyses) :
    ∃ b, db.storedLast a.report.packageId = some b := by
  refine Option.isSome_iff_exists.mp (List.find?_isSome.mpr ⟨a, ha, decide_eq_true rfl⟩)

/-- A report that is stored is the last of its package, and no other's. -/
theorem storedLast_inserted (db : PackageDb) (a : AnalysisRow) (storing : List AnalysisRow)
    (packageId : String) :
    PackageDb.storedLast { db with analyses := a :: db.analyses, storing } packageId =
      if a.report.packageId = packageId then some a else db.storedLast packageId := by
  unfold PackageDb.storedLast
  rw [List.find?_cons]
  split <;> simp_all

theorem reviewed_inserted {db : PackageDb} {report : AnalysisReport} {now : Nat}
    (c : db.Consistent) (reviewed : Reviewed db)
    (stores : report.status ≠ .readyForReview → ∀ p ∈ db.packages,
      p.packageId = report.packageId → p.status ≠ .approved) (storing : List AnalysisRow) :
    Reviewed { db with
      analyses := ⟨db.analyses.length, report, now⟩ :: db.analyses, storing } := by
  refine ⟨fun p hp approved => ?_, fun p hp ready => ?_⟩ <;> rw [storedLast_inserted] <;> split
  · next here =>
    refine ⟨_, rfl, ?_⟩
    by_contra wanting
    exact stores wanting p hp here.symm approved
  · exact reviewed.approved p hp approved
  · -- no report with the new number has come to a package
    exact ⟨_, rfl, .inr fun mem => absurd (c.old _ mem) (Nat.lt_irrefl _)⟩
  · exact reviewed.ready p hp ready

/-- Where a report comes to its package, the others wait as before. -/
theorem waits_of_applied {db : PackageDb} {a b : AnalysisRow} (c : db.Consistent)
    (ha : a ∈ db.analyses) (hb : b ∈ db.analyses)
    (other : a.report.packageId ≠ b.report.packageId) (waits : b.id ∉ db.applied) :
    b.id ∉ a.id :: db.applied := by
  intro mem
  rcases List.mem_cons.mp mem with same | old
  · exact other (by rw [c.distinct b hb a ha same])
  · exact waits old

theorem reviewed_committed {db : PackageDb} {store : PackageStore} {t : PackageSession}
    (c : db.Consistent) (reviewed : Reviewed db)
    (commit : db.store.commit t.id = some (store, t)) (session : t ∈ db.store.sessions.rows)
    (done : t.todo = [])
    (approves : ∀ packageId, t.stmt = .approvePackage packageId →
      packageId ∈ t.writes.map (·.packageId) → ∀ a, db.storedLast packageId = some a →
        a.report.status = .readyForReview ∨ a.id ∈ db.applied)
    (applies : ∀ a, t.stmt = .createAnalysis a → a.report.status = .readyForReview →
      ∀ b, db.storedLast a.report.packageId = some b → b.report.status = .readyForReview) :
    Reviewed { db with store, applied := t.stmt.applies db.applied } := by
  refine ⟨fun p hp approved => ?_, fun p hp ready => ?_⟩ <;>
    rcases Store.of_mem_commit commit c.store hp with ⟨old, not⟩ | ⟨b, hb, written, guard, rfl⟩
  · exact reviewed.approved p old approved
  · rw [Store.update] at guard approved ⊢
    show ∃ a, db.storedLast _ = some a ∧ _
    rw [set_packageId]
    cases stmt : t.stmt with
    | createAnalysis a =>
      -- a report never says that the package is approved
      rw [stmt] at approved
      have approved : a.report.status = .approved := approved
      have checked := (c.checked a (written_of_commit c session done stmt).1).1
      rcases checked_cases checked with found | found <;> rw [found] at approved <;> cases approved
    | approvePackage packageId =>
      rw [stmt] at guard
      simp only [PackageStatement.meaning, packageUpdate, Bool.and_eq_true,
        decide_eq_true_eq] at guard
      obtain ⟨a, last, found | waits⟩ := reviewed.ready b hb guard.2
      · exact ⟨a, last, found⟩
      · rw [guard.1] at last written ⊢
        exact ⟨a, last, (approves packageId stmt written a last).resolve_right waits⟩
    | rejectPackage | revisePackage =>
      rw [stmt] at approved
      cases approved
  · obtain ⟨a, last, found⟩ := reviewed.ready p old ready
    refine ⟨a, last, found.imp_right fun waits => ?_⟩
    show a.id ∉ t.stmt.applies db.applied
    cases stmt : t.stmt with
    | createAnalysis a' =>
      obtain ⟨mem, wrote⟩ := written_of_commit c session done stmt
      obtain ⟨mem', at_id⟩ := mem_of_storedLast last
      exact waits_of_applied c mem mem' (fun same => not (at_id ▸ same ▸ wrote)) waits
    | approvePackage | rejectPackage | revisePackage => exact waits
  · rw [Store.update] at guard ready ⊢
    cases stmt : t.stmt with
    | createAnalysis a =>
      rw [stmt] at guard ready
      simp only [PackageStatement.meaning, packageUpdate, Bool.and_true, decide_eq_true_eq] at guard
      have mem := (written_of_commit c session done stmt).1
      obtain ⟨last, found⟩ := exists_storedLast mem
      refine ⟨last, ?_, .inl (applies a stmt ready last found)⟩
      show db.storedLast b.packageId = some last
      rw [guard, found]
    | approvePackage | rejectPackage | revisePackage =>
      rw [stmt] at ready
      cases ready

theorem reviewed_of_step {x : PackageStep} (h : packageDb.Steps x) (c : x.before.Consistent)
    (reviewed : Reviewed x.before) (stores : StoresReady x) (approves : ApprovesApplied x)
    (applies : AppliesLast x) : Reviewed x.after := by
  obtain ⟨db, action, label, db'⟩ := x
  have moves : PackageMove db action db' := package_moves h
  have c : db.Consistent := c
  have reviewed : Reviewed db := reviewed
  cases moves with
  | created insert =>
    obtain ⟨rows, inserted, rfl⟩ := Option.map_eq_some_iff.mp insert
    refine ⟨fun p hp status => ?_, fun p hp status => ?_⟩ <;>
      rcases Table.of_mem_insert inserted hp with rfl | old
    · cases status
    · exact reviewed.approved p old status
    · cases status
    · exact reviewed.ready p old status
  | inserted _ _ => exact reviewed_inserted c reviewed (stores _ _ rfl) _
  | started _ _ start =>
    obtain ⟨_, -, rfl⟩ := Option.map_eq_some_iff.mp start
    exact ⟨reviewed.approved, reviewed.ready⟩
  | @visited _ store visit =>
    have rows : store.rows = db.store.rows := Store.visit_rows visit
    refine ⟨fun p hp => reviewed.approved p ?_, fun p hp => reviewed.ready p ?_⟩ <;>
      exact (congrArg Table.rows rows ▸ hp : p ∈ db.store.rows.rows)
  | @committed id store t commit =>
    obtain ⟨mem, rfl, done, -⟩ := Store.commit_sessions commit
    exact reviewed_committed c reviewed commit mem done (approves t mem rfl) (applies t mem rfl)
  | aborted => exact ⟨reviewed.approved, reviewed.ready⟩

theorem reviewed_empty : Reviewed .empty where
  approved _ h := absurd h List.not_mem_nil
  ready _ h := absurd h List.not_mem_nil

/-- A report that is stored against an approved package, or an approval that overtakes one, shows
in the state behind it. -/
theorem foundReady_needs {x : PackageStep} (h : packageDb.Steps x) (c : x.before.Consistent)
    (found : FoundReady x.after) : StoresReady x ∧ ApprovesApplied x := by
  refine ⟨fun report now input wanting p hp same approved => ?_,
    fun t session input packageId stmt written a last => ?_⟩ <;>
    obtain ⟨db, action, label, db'⟩ := x <;>
    have moves : PackageMove db action db' := package_moves h <;>
    cases input <;> cases moves
  · obtain ⟨a, last, ready⟩ := found p hp approved
    rw [storedLast_inserted, if_pos same.symm] at last
    cases last
    exact wanting ready
  · next store u commit =>
    obtain ⟨mem, at_id, -, -⟩ := Store.commit_sessions commit
    have this : u = t := db.store.sessions.eq_of_key mem session at_id
    subst this
    obtain ⟨w, hw, at_package⟩ := List.mem_map.mp written
    obtain ⟨p, hp, -, rfl⟩ := c.store.writes u session w hw
    have at_id : p.packageId = packageId := set_packageId.symm.trans at_package
    rw [← at_id] at written last
    have after := Store.mem_commit_of_written commit c.store hp written
    obtain ⟨b, last', ready⟩ := found _ after (by rw [Store.update, stmt]; rfl)
    rw [Store.update, set_packageId] at last'
    cases last.symm.trans last'
    exact .inl ready

/-! ## The report an operator sees -/

/-- `get_analysis` returns a report of the package with the latest `analyzed_at`. -/
def LatestAnalysis (db : PackageDb) (packageId : String) (a : AnalysisRow) : Prop :=
  a ∈ db.analyses ∧ a.report.packageId = packageId ∧
    ∀ b ∈ db.analyses, b.report.packageId = packageId → b.analyzedAt ≤ a.analyzedAt

/-- The step stores no report whose statement has begun before that of a stored one. -/
def StoresInOrder (x : PackageStep) : Prop :=
  ∀ report now, x.input = .insertAnalysis report now →
    ∀ b ∈ x.before.analyses, b.report.packageId = report.packageId → b.analyzedAt < now

/-- The reports of a package have been stored in the order of their statements. -/
def StoredInOrder (db : PackageDb) : Prop :=
  db.analyses.Pairwise fun a b =>
    a.report.packageId = b.report.packageId → b.analyzedAt < a.analyzedAt

theorem storedInOrder_of_step {x : PackageStep} (h : packageDb.Steps x)
    (inOrder : StoresInOrder x) (ordered : StoredInOrder x.before) : StoredInOrder x.after := by
  obtain ⟨db, a, label, db'⟩ := x
  have moves : PackageMove db a db' := package_moves h
  cases moves with
  | inserted =>
    exact List.pairwise_cons.mpr ⟨fun b hb same => inOrder _ _ rfl b hb same.symm, ordered⟩
  | created | started | visited | committed | aborted => exact ordered

theorem find?_latest {analyses : List AnalysisRow} (ordered : analyses.Pairwise fun a b =>
      a.report.packageId = b.report.packageId → b.analyzedAt < a.analyzedAt)
    {packageId : String} {a : AnalysisRow}
    (last : analyses.find? (·.report.packageId = packageId) = some a) :
    ∀ b ∈ analyses, b.report.packageId = packageId → b = a ∨ b.analyzedAt < a.analyzedAt := by
  induction ordered with
  | nil =>
    intro b hb
    cases hb
  | @cons c rest later _ ih =>
    intro b hb at_id
    rw [List.find?_cons] at last
    split at last
    · next hit =>
      cases last
      rcases List.mem_cons.mp hb with rfl | old
      · exact .inl rfl
      · exact .inr (later b old ((of_decide_eq_true hit).trans at_id.symm))
    · next miss =>
      rcases List.mem_cons.mp hb with rfl | old
      · rw [decide_eq_false_iff_not] at miss
        exact absurd at_id miss
      · exact ih last b old at_id

/-- Where reports are stored in order, the one stored last is the one that is seen. -/
theorem latestAnalysis_iff {db : PackageDb} (ordered : StoredInOrder db) {packageId : String}
    {a : AnalysisRow} :
    LatestAnalysis db packageId a ↔ db.storedLast packageId = some a := by
  refine ⟨?_, ?_⟩
  · rintro ⟨mem, at_id, latest⟩
    cases last : db.storedLast packageId with
    | none =>
      have absent := List.find?_eq_none.mp last a mem
      simp [at_id] at absent
    | some b =>
      obtain ⟨mem', at_id'⟩ := mem_of_storedLast last
      have before := latest b mem' at_id'
      rcases find?_latest ordered last a mem at_id with rfl | earlier
      · rfl
      · omega
  · intro last
    obtain ⟨mem, at_id⟩ := mem_of_storedLast last
    refine ⟨mem, at_id, fun b hb at_id => ?_⟩
    rcases find?_latest ordered last b hb at_id with rfl | earlier
    · exact Nat.le_refl _
    · exact Nat.le_of_lt earlier

/-- In every interleaving: a step leaves the decided packages as they are exactly when no
analysis comes to one, and where none does, a decision lasts. An approved package has been found
ready by the analysis stored last, which is the one an operator sees where reports are stored in
order, if no report that finds it wanting is stored against an approved package, is overtaken by
an approval, or has an earlier one come to its package behind it. Where the first or the second
of these happens, the package is one that was not. -/
theorem decisions_last_iff (actions : List PackageAction) :
    (∀ x ∈ packageDb.run .empty actions, KeepsDecided x ↔ AnalysesOpen x) ∧
      ((∀ x ∈ packageDb.run .empty actions, AnalysesOpen x) →
        ∀ packageId (s : PackageStatus), s.decided = true →
          Machine.Since
            (fun x => ∃ p ∈ x.after.packages, p.packageId = packageId ∧ p.status = s)
            (fun y => ∃ p ∈ y.after.packages, p.packageId = packageId ∧ p.status = s)
            (packageDb.run .empty actions)) ∧
      ((∀ x ∈ packageDb.run .empty actions, StoresReady x ∧ ApprovesApplied x ∧ AppliesLast x) →
        ∀ x ∈ packageDb.run .empty actions, FoundReady x.after ∧
          ((∀ x ∈ packageDb.run .empty actions, StoresInOrder x) →
            ∀ p ∈ x.after.packages, p.status = .approved →
              ∃ a, LatestAnalysis x.after p.packageId a ∧ a.report.status = .readyForReview ∧
                ∀ b, LatestAnalysis x.after p.packageId b → b = a)) ∧
      ∀ x ∈ packageDb.run .empty actions,
        FoundReady x.after → StoresReady x ∧ ApprovesApplied x := by
  refine ⟨?_, ?_, fun ok x hx => ?_, ?_⟩
  · intro x hx
    obtain ⟨step, c, -⟩ := Machine.run_invariant
      (fun _ step c => packageDb_consistent_of_step step c) packageDb_consistent_empty x hx
    exact keepsDecided_iff_of_step step c
  · intro opens packageId s decided
    refine Machine.since_of_invariant (R := AnalysesOpen)
      (J := fun db => ∃ p ∈ db.packages, p.packageId = packageId ∧ p.status = s)
      (fun _ step c => packageDb_consistent_of_step step c) (fun _ _ _ here => here) ?_
      packageDb_consistent_empty opens
    rintro x step c ⟨p, hp, rfl, rfl⟩ ok
    obtain ⟨b, hb, same⟩ := exists_package_after step c hp
    have keeps := (keepsDecided_iff_of_step step c).mpr ok p hp decided b hb same
    exact ⟨⟨b, hb, same, keeps⟩, ⟨b, hb, same, keeps⟩⟩
  · obtain ⟨-, -, -, reviewed⟩ := Machine.run_invariant_of_ok
      (I := fun db => db.Consistent ∧ Reviewed db)
      (R := fun x => StoresReady x ∧ ApprovesApplied x ∧ AppliesLast x)
      (fun x step ok inv => ⟨packageDb_consistent_of_step step inv.1,
        reviewed_of_step step inv.1 inv.2 ok.1 ok.2.1 ok.2.2⟩)
      ⟨packageDb_consistent_empty, reviewed_empty⟩ ok x hx
    refine ⟨reviewed.approved, fun inOrder p hp approved => ?_⟩
    obtain ⟨-, -, ordered⟩ := Machine.run_invariant_of_ok (I := StoredInOrder)
      (R := StoresInOrder) (fun x step ok inv => storedInOrder_of_step step ok inv)
      (show StoredInOrder .empty from List.Pairwise.nil) inOrder x hx
    obtain ⟨a, last, found⟩ := reviewed.approved p hp approved
    refine ⟨a, (latestAnalysis_iff ordered).mpr last, found, fun b latest => ?_⟩
    rw [(latestAnalysis_iff ordered).mp latest] at last
    exact Option.some.inj last
  · intro x hx found
    obtain ⟨step, c, -⟩ := Machine.run_invariant
      (fun _ step c => packageDb_consistent_of_step step c) packageDb_consistent_empty x hx
    exact foundReady_needs step c found

/-! ## An analysis after the decision -/

def passedChecks : PackageChecks :=
  { forbiddenConstructs := [], undeclaredDependencies := [], securityFindings := []
    testCasesPassed := 3, testCasesFailed := 0 }

def failedChecks : PackageChecks := { passedChecks with securityFindings := ["eval"] }

/-- A statement finds its package and commits. -/
def runPackageStatement (stmt : PackageStatement) : List PackageAction :=
  [.start 0 stmt, .visit 0, .commit 0]

/-- A package is rejected while it is being analysed. -/
def rejectedRun : List PackageAction :=
  [.createPackage "pkg_1" "slugify" "def slugify(text): ..."] ++
    runPackageStatement (.rejectPackage "pkg_1" "not wanted") ++
    [.insertAnalysis (analyzePackage "pkg_1" passedChecks) 1] ++
    runPackageStatement (.createAnalysis ⟨0, analyzePackage "pkg_1" passedChecks, 1⟩)

/-- Two analyses interleave: the later report finds the package wanting, and the earlier one
comes to the package last. -/
def overtakenRun : List PackageAction :=
  [.createPackage "pkg_1" "slugify" "def slugify(text): ...",
    .insertAnalysis (analyzePackage "pkg_1" passedChecks) 1,
    .insertAnalysis (analyzePackage "pkg_1" failedChecks) 2] ++
    runPackageStatement (.createAnalysis ⟨1, analyzePackage "pkg_1" failedChecks, 2⟩) ++
    runPackageStatement (.createAnalysis ⟨0, analyzePackage "pkg_1" passedChecks, 1⟩) ++
    runPackageStatement (.approvePackage "pkg_1")

theorem decision_overwritten :
    (∃ x ∈ packageDb.run .empty rejectedRun,
      (∃ p ∈ x.before.packages, p.packageId = "pkg_1" ∧ p.status = .rejected) ∧
        ∃ p ∈ x.after.packages, p.packageId = "pkg_1" ∧ p.status = .readyForReview) ∧
    ∃ x ∈ packageDb.run .empty overtakenRun, ∃ p ∈ x.after.packages, p.status = .approved ∧
      (x.after.storedLast p.packageId).map (·.report.status) = some .rejectedByAnalysis := by
  decide +kernel

end LegionForge.Agent
