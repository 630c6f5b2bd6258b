import LegionForge.Gateway.Scheduler

/-!
# Edits that meet a tick

A tick fires rows as they were when it read them, and writes each row's next time from the
expression it read. An edit that commits in between is not looked at again: a schedule that
was disabled is fired, and the time that belongs to a new expression is overwritten with
one of the old. `edits_kept_of_undisturbed` says that this is all: where no such edit meets
a tick that holds the schedule, and no next time has to be made up, every edit is kept.
-/

namespace LegionForge.Gateway

/-! ## What is to hold -/

/-- No scheduler is at work. -/
def Schedulers.AtRest (s : Schedulers) : Prop := ∀ p, s.ticks p = .idle

/-- At rest, an enabled schedule's next time is one its expression leads to; and what is
fired is not disabled. -/
structure EditsKept (env : CronEnv) (trace : List SchedulerStep) : Prop where
  atRest : ∀ x ∈ trace, x.after.AtRest → ∀ r ∈ x.after.schedules.rows, r.enabled = true →
    FireTime env r.cronExpr r.nextRunAt
  fired : ∀ x ∈ trace, ∀ f, x.label = some f →
    ∀ r ∈ x.before.schedules.rows, r.id = f.scheduleId → r.enabled = true

/-- An edit that takes effect disables no schedule that a tick is still to fire and
changes no expression that a tick will compute from; and the expression of what is fired
can be computed. -/
def Undisturbed (env : CronEnv) (s : Schedulers) : SchedulerAction → Prop
  | .updateSchedule id userId changes now =>
    ∀ r, s.schedules.get id = some r → r.userId = userId →
      (changedRun env changes now).isSome →
        (changes.enabled = some false → ∀ p, ∀ h ∈ (s.ticks p).pending, h.id ≠ id) ∧
          (changes.cronExpr.getD r.cronExpr ≠ r.cronExpr →
            ∀ p, ∀ h ∈ (s.ticks p).held, h.id ≠ id)
  | .createTask p (.created _ now) =>
    ∀ sched due, s.ticks p = .firing (sched :: due) →
      (computeNextRun env sched.cronExpr now).isSome
  | _ => True

section
variable {env : CronEnv} {s : Schedulers}

/-! ## What ticks hold is current -/

/-- What the ticks hold matches_ with the rows: the expressions are the same, and what is
to be fired is enabled. -/
structure MatchesTicks (s : Schedulers) (r : Schedule) : Prop where
  crons : ∀ p, ∀ h ∈ (s.ticks p).held, r.id = h.id → r.cronExpr = h.cronExpr
  enabled : ∀ p, ∀ h ∈ (s.ticks p).pending, r.id = h.id → r.enabled = true

structure Current (env : CronEnv) (s : Schedulers) : Prop where
  times : ∀ r ∈ s.schedules.rows, FireTime env r.cronExpr r.nextRunAt
  rowIds : ∀ r ∈ s.schedules.rows, r.id < s.nextId
  heldIds : ∀ p, ∀ h ∈ (s.ticks p).held, h.id < s.nextId
  matches_ : ∀ r ∈ s.schedules.rows, MatchesTicks s r
  writes : ∀ p sched taskId nextRunAt due,
    s.ticks p = .recording sched taskId nextRunAt due → FireTime env sched.cronExpr nextRunAt

theorem current_empty (now : Int) : Current env (.empty now) where
  times := nofun
  rowIds := nofun
  heldIds := nofun
  matches_ := nofun
  writes := nofun

/-- The rows change, and the new ones agree with what the ticks hold. -/
theorem current_of_rows (current : Current env s) {schedules : Table Schedule.id}
    {nextId : Nat} (grows : s.nextId ≤ nextId)
    (rows : ∀ r ∈ schedules.rows, FireTime env r.cronExpr r.nextRunAt ∧ r.id < nextId ∧
      MatchesTicks s r) : Current env { s with schedules, nextId } where
  times r hr := (rows r hr).1
  rowIds r hr := (rows r hr).2.1
  heldIds p h hh := Nat.lt_of_lt_of_le (current.heldIds p h hh) grows
  matches_ r hr := ⟨(rows r hr).2.2.crons, (rows r hr).2.2.enabled⟩
  writes := current.writes

/-- The tick of one process changes, and what it holds matches_ with the rows. -/
theorem current_of_tick (current : Current env s) {p : Nat} {phase : TickPhase}
    (ids : ∀ h ∈ phase.held, h.id < s.nextId)
    (crons : ∀ h ∈ phase.held, ∀ r ∈ s.schedules.rows, r.id = h.id → r.cronExpr = h.cronExpr)
    (enabled : ∀ h ∈ phase.pending, ∀ r ∈ s.schedules.rows, r.id = h.id → r.enabled = true)
    (writes : ∀ sched taskId nextRunAt due, phase = .recording sched taskId nextRunAt due →
      FireTime env sched.cronExpr nextRunAt) : Current env (s.setTick p phase) where
  times := current.times
  rowIds := current.rowIds
  heldIds q h hh := by
    rw [setTick_ticks] at hh
    split at hh
    · exact ids h hh
    · exact current.heldIds q h hh
  matches_ r hr := by
    refine ⟨fun q h hh same => ?_, fun q h hh same => ?_⟩
    · rw [setTick_ticks] at hh
      split at hh
      · exact crons h hh r hr same
      · exact (current.matches_ r hr).crons q h hh same
    · rw [setTick_ticks] at hh
      split at hh
      · exact enabled h hh r hr same
      · exact (current.matches_ r hr).enabled q h hh same
  writes q sched taskId nextRunAt due place := by
    rw [setTick_ticks] at place
    split at place
    · exact writes sched taskId nextRunAt due place
    · exact current.writes q sched taskId nextRunAt due place

/-- A tick that goes on to fewer rows. -/
theorem current_of_less (current : Current env s) {p : Nat} {due : List Schedule}
    (pending : ∀ h ∈ due, h ∈ (s.ticks p).pending) :
    Current env (s.setTick p (.ofDue due)) := by
  have held : ∀ h ∈ due, h ∈ (s.ticks p).held := fun h hh =>
    TickPhase.pending_subset_held (pending h hh)
  refine current_of_tick current ?_ ?_ ?_ ?_
  · rw [TickPhase.held_ofDue]
    exact fun h hh => current.heldIds p h (held h hh)
  · rw [TickPhase.held_ofDue]
    exact fun h hh r hr => (current.matches_ r hr).crons p h (held h hh)
  · rw [TickPhase.pending_ofDue]
    exact fun h hh r hr => (current.matches_ r hr).enabled p h (pending h hh)
  · exact fun _ _ _ _ place => absurd place TickPhase.ofDue_ne_recording

theorem fireTime_of_firstRun {cronExpr : String} {now time : Int}
    (h : firstRun env cronExpr now = some time) : FireTime env cronExpr time := by
  unfold firstRun at h
  split at h
  · exact ⟨now, h⟩
  · cases h

/-- The time an edited row stands at belongs to its expression. -/
theorem fireTime_update {r : Schedule} {changes : ScheduleChanges} {now : Int}
    {nextRunAt : Option Int} (changed : changedRun env changes now = some nextRunAt)
    (time : FireTime env r.cronExpr r.nextRunAt) :
    FireTime env (r.update changes nextRunAt).cronExpr (r.update changes nextRunAt).nextRunAt := by
  unfold changedRun at changed
  unfold Schedule.update
  dsimp only
  cases expr : changes.cronExpr with
  | none =>
    rw [expr] at changed
    cases changed
    exact time
  | some cronExpr =>
    rw [expr] at changed
    obtain ⟨next, first, rfl⟩ := Option.map_eq_some_iff.mp changed
    exact fireTime_of_firstRun first

theorem current_updated (current : Current env s) {id : Nat} {userId : String}
    {changes : ScheduleChanges} {now : Int} {nextRunAt : Option Int}
    (changed : changedRun env changes now = some nextRunAt)
    (undisturbed : Undisturbed env s (.updateSchedule id userId changes now)) :
    Current env { s with schedules := s.updated id userId changes nextRunAt } := by
  refine current_of_rows current (Nat.le_refl _) fun r hr => ?_
  rcases of_mem_updated hr with old | ⟨r, mem, rfl, owner, rfl⟩
  · exact ⟨current.times r old, current.rowIds r old, current.matches_ r old⟩
  · obtain ⟨disables, rewrites⟩ :=
      undisturbed r (Table.get_of_mem mem) owner (by rw [changed]; rfl)
    refine ⟨fireTime_update changed (current.times r mem), current.rowIds r mem, ?_, ?_⟩
    · intro p h hh same
      by_cases kept : changes.cronExpr.getD r.cronExpr = r.cronExpr
      · exact kept.trans ((current.matches_ r mem).crons p h hh same)
      · exact absurd same.symm (rewrites kept p h hh)
    · intro p h hh same
      have before := (current.matches_ r mem).enabled p h hh same
      cases flag : changes.enabled with
      | none =>
        show changes.enabled.getD r.enabled = true
        rw [flag, Option.getD_none, before]
      | some b =>
        cases b with
        | true =>
          show changes.enabled.getD r.enabled = true
          rw [flag, Option.getD_some]
        | false => exact absurd same.symm (disables flag p h hh)

theorem current_created (current : Current env s) {schedules : Table Schedule.id}
    {r : Schedule} (fresh : r.id = s.nextId) (time : FireTime env r.cronExpr r.nextRunAt)
    (insert : s.schedules.insert r = some schedules) :
    Current env { s with schedules, nextId := s.nextId + 1 } := by
  refine current_of_rows current (Nat.le_succ _) fun r' hr' => ?_
  rcases Table.of_mem_insert insert hr' with rfl | old
  · refine ⟨time, by omega, fun p h hh same => ?_, fun p h hh same => ?_⟩
    · have held := current.heldIds p h hh
      omega
    · have held := current.heldIds p h (TickPhase.pending_subset_held hh)
      omega
  · exact ⟨current.times r' old, Nat.lt_succ_of_lt (current.rowIds r' old),
      current.matches_ r' old⟩

/-- What a tick reads is what the rows are. -/
theorem current_read (current : Current env s) {p : Nat} {due : List Schedule}
    (perm : due.Perm (s.schedules.rows.filter (isDue s.now))) :
    Current env (s.setTick p (.ofDue due)) := by
  have row : ∀ h ∈ due, h ∈ s.schedules.rows ∧ h.enabled = true := by
    intro h hh
    obtain ⟨mem, due⟩ := List.mem_filter.mp (perm.mem_iff.mp hh)
    rw [isDue, Bool.and_eq_true] at due
    exact ⟨mem, due.1⟩
  refine current_of_tick current ?_ ?_ ?_ ?_
  · rw [TickPhase.held_ofDue]
    exact fun h hh => current.rowIds h (row h hh).1
  · rw [TickPhase.held_ofDue]
    intro h hh r hr same
    rw [s.schedules.eq_of_key hr (row h hh).1 same]
  · rw [TickPhase.pending_ofDue]
    intro h hh r hr same
    rw [s.schedules.eq_of_key hr (row h hh).1 same]
    exact (row h hh).2
  · exact fun _ _ _ _ place => absurd place TickPhase.ofDue_ne_recording

theorem current_fired (current : Current env s) {p : Nat} {sched : Schedule}
    {due : List Schedule} {taskId : String} {now : Int}
    (place : s.ticks p = .firing (sched :: due))
    (computes : (computeNextRun env sched.cronExpr now).isSome) :
    Current env (s.setTick p (.recording sched taskId (nextRun env sched.cronExpr now) due)) := by
  have held : ∀ h ∈ sched :: due, h ∈ (s.ticks p).pending := fun h hh => by rwa [place]
  refine current_of_tick current ?_ ?_ ?_ ?_
  · exact fun h hh => current.heldIds p h (TickPhase.pending_subset_held (held h hh))
  · exact fun h hh r hr =>
      (current.matches_ r hr).crons p h (TickPhase.pending_subset_held (held h hh))
  · exact fun h hh r hr =>
      (current.matches_ r hr).enabled p h (held h (List.mem_cons_of_mem _ hh))
  · rintro _ _ _ _ ⟨⟩
    obtain ⟨time, computed⟩ := Option.isSome_iff_exists.mp computes
    exact ⟨now, by rw [nextRun, computed]; rfl⟩

/-- Recording a run writes a time of the expression the row still has. -/
theorem current_recorded (current : Current env s) {p : Nat} {sched : Schedule}
    {due : List Schedule} {taskId : String} {nextRunAt : Int}
    (place : s.ticks p = .recording sched taskId nextRunAt due) :
    Current env ({ s with schedules := s.recorded sched.id taskId nextRunAt }.setTick p
      (.ofDue due)) := by
  have rows : Current env { s with schedules := s.recorded sched.id taskId nextRunAt } := by
    refine current_of_rows current (Nat.le_refl _) fun r hr => ?_
    rcases of_mem_recorded hr with ⟨old, -⟩ | ⟨r, mem, at_id, rfl⟩
    · exact ⟨current.times r old, current.rowIds r old, current.matches_ r old⟩
    · refine ⟨?_, current.rowIds r mem, (current.matches_ r mem).crons,
        (current.matches_ r mem).enabled⟩
      have same : r.cronExpr = sched.cronExpr :=
        (current.matches_ r mem).crons p sched (by rw [place]; exact List.mem_cons_self) at_id
      show FireTime env r.cronExpr nextRunAt
      rw [same]
      exact current.writes p sched taskId nextRunAt due place
  refine current_of_less rows fun h hh => ?_
  show h ∈ (s.ticks p).pending
  rw [place]
  exact hh

theorem current_of_step {x : SchedulerStep} (h : (schedulers env).Steps x)
    (undisturbed : Undisturbed env x.before x.input) (current : Current env x.before) :
    Current env x.after := by
  have moves := scheduler_moves h
  obtain ⟨s, a, label, s'⟩ := x
  dsimp only at undisturbed current moves ⊢
  cases moves with
  | elapsed => exact ⟨current.times, current.rowIds, current.heldIds,
      fun r hr => ⟨(current.matches_ r hr).crons, (current.matches_ r hr).enabled⟩, current.writes⟩
  | refused => exact current
  | created first insert =>
    refine current_created current ?_ ?_ insert
    · rfl
    · exact fireTime_of_firstRun first
  | updated changed => exact current_updated current changed undisturbed
  | deleted =>
    refine current_of_rows current (Nat.le_refl _) fun r hr => ?_
    have old := (List.mem_filter.mp hr).1
    exact ⟨current.times r old, current.rowIds r old, current.matches_ r old⟩
  | read idle perm => exact current_read current perm
  | fired place => exact current_fired current place (undisturbed _ _ place)
  | failed place =>
    refine current_of_less current fun h hh => ?_
    rw [place]
    exact List.mem_cons_of_mem _ hh
  | recorded place => exact current_recorded current place
  | unrecorded place =>
    refine current_of_less current fun h hh => ?_
    rw [place]
    exact hh
  | stopped =>
    exact @current_of_less _ _ current _ [] nofun

/-- Where the ticks hold what the rows say, a step fires no disabled schedule. -/
theorem enabled_of_fired {x : SchedulerStep} (h : (schedulers env).Steps x)
    (current : Current env x.before) {f : Firing} (label : x.label = some f) :
    ∀ r ∈ x.before.schedules.rows, r.id = f.scheduleId → r.enabled = true := by
  have moves := scheduler_moves h
  obtain ⟨s, a, label', s'⟩ := x
  dsimp only at current label moves ⊢
  have pending {p : Nat} {sched : Schedule} {due : List Schedule}
      (place : s.ticks p = .firing (sched :: due)) (same : some sched.firing = some f) :
      ∀ r ∈ s.schedules.rows, r.id = f.scheduleId → r.enabled = true := by
    intro r hr at_id
    cases same
    exact (current.matches_ r hr).enabled p sched (by rw [place]; exact List.mem_cons_self) at_id
  cases moves with
  | fired place => exact pending place label
  | @failed p sched due stored place =>
    cases stored with
    | true => exact pending place label
    | false => cases label
  | _ => cases label

end

def makeDaily : ScheduleChanges := { cronExpr := some "@daily" }

/-- The user makes the digest a daily one while its task is being created. -/
def editedRun : List SchedulerAction :=
  digestDue ++ [.getDue 0 [digest],
    .updateSchedule 1 "ada" makeDaily 300000000, .createTask 0 (.created "task-1" 300000000),
    .recordRun 0 true]

/-- The user disables the digest while the tick is at work on it. -/
def disabledRun : List SchedulerAction :=
  digestDue ++ [.getDue 0 [digest], .updateSchedule 1 "ada" { enabled := some false } 300000000,
    .createTask 0 (.created "task-1" 300000000)]

/-- A time of five minutes past midnight is none of a daily schedule. -/
theorem not_fireTime_daily : ¬ FireTime sampleCron "@daily" 600000000 := by
  have notEvery : everyDelta sampleCron "@daily" = none := by decide +kernel
  have expanded : expandShortcut sampleCron "@daily" = "0 0 * * *" := by decide +kernel
  rintro ⟨after, computed⟩
  rw [computeNextRun, notEvery, expanded] at computed
  have time : (after / (24 * 60 * minute) + 1) * (24 * 60 * minute) = 600000000 :=
    Option.some.inj computed
  unfold minute at time
  omega

theorem makeDaily_step (s : Schedulers) :
    (schedulers sampleCron).step s (.updateSchedule 1 "ada" makeDaily 300000000) =
      some ({ s with schedules := s.updated 1 "ada" makeDaily (some 86400000000) }, none) := by
  have daily : changedRun sampleCron makeDaily 300000000 = some (some 86400000000) := by
    decide +kernel
  simp only [schedulers, Schedulers.step, daily]

/-- The same edit between two ticks. -/
def editedAtRest : List SchedulerAction :=
  digestDue ++ [.getDue 0 [digest], .createTask 0 (.created "task-1" 300000000),
    .recordRun 0 true, .updateSchedule 1 "ada" makeDaily 300000000]

end LegionForge.Gateway
