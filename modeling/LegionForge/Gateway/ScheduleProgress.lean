import LegionForge.Gateway.Scheduler

/-!
# Whether schedules move forward

`validate_cron_expr` and `compute_next_run` read the same grammar, so what the one accepts
the other computes a time from, but not always a later one, nor always a time at all: an
`@every` of length zero leads nowhere, a long one leads past the last `datetime`, and there
are dates `croniter` accepts and never finds. `next_run_later_iff` says that this is all.

Only the first of these shows when a schedule is fired: where no time can be computed the
scheduler makes one up, an hour ahead.
-/

namespace LegionForge.Gateway

/-! ## What is to hold -/

/-- For an expression that it accepts, the time `croniter` returns is a later one. -/
def CronEnv.Advances (env : CronEnv) : Prop :=
  ∀ expr after time, env.croniterIsValid expr = true →
    env.croniterNext expr after = some time → after < time

/-- The interval is not empty and does not lead past the last time; of any other
expression, `croniter` finds a date. -/
def LeadsOn (env : CronEnv) (cronExpr : String) (after : Int) : Prop :=
  match everyDelta env cronExpr with
  | some delta => ∃ d, delta = some d ∧ 0 < d ∧ after + d ≤ maxTime
  | none => (env.croniterNext (expandShortcut env cronExpr) after).isSome

/-- The expression is an `@every` of no length. -/
def Standing (env : CronEnv) (cronExpr : String) : Prop := everyDelta env cronExpr = some (some 0)

section
variable {env : CronEnv} {s : Schedulers}

/-! ## Computing a time -/

theorem timedelta_nonneg {n : Nat} {unit d : Int} (unit_nonneg : 0 ≤ unit)
    (h : timedelta n unit = some d) : 0 ≤ d := by
  unfold timedelta at h
  split at h
  · cases h
    exact Int.mul_nonneg (Int.natCast_nonneg n) unit_nonneg
  · cases h

theorem unitLength_nonneg {c : Char} {length : Int} (h : unitLength c = some length) :
    0 ≤ length := by
  simp only [unitLength, minute] at h
  split at h <;> simp at h <;> omega

/-- No interval leads back. -/
theorem everyDelta_nonneg {cronExpr : String} {d : Int}
    (h : everyDelta env cronExpr = some (some d)) : 0 ≤ d := by
  simp only [everyDelta] at h
  split at h
  · split at h
    · cases h
    · split at h
      · next unit _ =>
        obtain ⟨length, ofUnit, made⟩ := Option.map_eq_some_iff.mp h
        obtain ⟨n, -, delta⟩ := Option.bind_eq_some_iff.mp made
        exact timedelta_nonneg (unitLength_nonneg ofUnit) delta
      · cases h
  · cases h

theorem computeNextRun_every {cronExpr : String} {delta : Option Int}
    (every : everyDelta env cronExpr = some delta) (after time : Int) :
    computeNextRun env cronExpr after = some time ↔
      ∃ d, delta = some d ∧ after + d ≤ maxTime ∧ after + d = time := by
  cases delta with
  | none => simp [computeNextRun, every]
  | some d => simp [computeNextRun, every]

theorem computeNextRun_cron {cronExpr : String} (cron : everyDelta env cronExpr = none)
    (after : Int) :
    computeNextRun env cronExpr after = env.croniterNext (expandShortcut env cronExpr) after := by
  simp only [computeNextRun, cron]

/-- Of an accepted expression and any time, a later time comes back unless one of these is
met: the interval is empty, it leads past the last time, `croniter` finds no date. -/
theorem exists_later_iff (advances : env.Advances) {cronExpr : String}
    (accepted : validateCronExpr env cronExpr = true) (after : Int) :
    (∃ time, computeNextRun env cronExpr after = some time ∧ after < time) ↔
      LeadsOn env cronExpr after := by
  unfold LeadsOn
  cases every : everyDelta env cronExpr with
  | none =>
    simp only [validateCronExpr, every] at accepted
    rw [computeNextRun_cron every, Option.isSome_iff_exists]
    refine ⟨fun ⟨time, found, _⟩ => ⟨time, found⟩, fun ⟨time, found⟩ => ?_⟩
    exact ⟨time, found, advances _ _ _ accepted found⟩
  | some delta =>
    simp only [computeNextRun_every every]
    refine ⟨?_, ?_⟩
    · rintro ⟨time, ⟨d, made, fits, rfl⟩, later⟩
      exact ⟨d, made, by omega, fits⟩
    · rintro ⟨d, made, positive, fits⟩
      exact ⟨after + d, ⟨d, made, fits, rfl⟩, by omega⟩

/-- The time `_fire` goes on with, made up or not, is later unless the interval is empty. -/
theorem lt_nextRun_iff (advances : env.Advances) {cronExpr : String}
    (accepted : validateCronExpr env cronExpr = true) {now : Int} (time : now ≤ maxTime) :
    now < nextRun env cronExpr now ↔ ¬ Standing env cronExpr := by
  have hour : now < now + 60 * minute := by
    unfold minute
    omega
  unfold nextRun Standing
  cases every : everyDelta env cronExpr with
  | none =>
    simp only [validateCronExpr, every] at accepted
    rw [computeNextRun_cron every]
    cases found : env.croniterNext (expandShortcut env cronExpr) now with
    | none => simpa using hour
    | some time => simpa using advances _ _ _ accepted found
  | some delta =>
    simp only [validateCronExpr, every] at accepted
    obtain ⟨d, rfl⟩ := Option.isSome_iff_exists.mp accepted
    have back := everyDelta_nonneg every
    simp only [Option.some.injEq]
    by_cases fits : now + d ≤ maxTime
    · rw [(computeNextRun_every every now (now + d)).mpr ⟨d, rfl, fits, rfl⟩, Option.getD_some]
      omega
    · have raises : computeNextRun env cronExpr now = none := by
        simp [computeNextRun, every, fits]
      rw [raises, Option.getD_none]
      omega

/-! ## Rows hold accepted expressions -/

/-- Every expression in the table and every one a tick holds has been accepted. -/
structure Validated (env : CronEnv) (s : Schedulers) : Prop where
  rows : ∀ r ∈ s.schedules.rows, validateCronExpr env r.cronExpr = true
  held : ∀ p, ∀ h ∈ (s.ticks p).held, validateCronExpr env h.cronExpr = true

theorem validated_empty (now : Int) : Validated env (.empty now) where
  rows := nofun
  held := nofun

theorem validated_of_rows (validated : Validated env s) {schedules : Table Schedule.id}
    {nextId : Nat} (rows : ∀ r ∈ schedules.rows, validateCronExpr env r.cronExpr = true) :
    Validated env { s with schedules, nextId } where
  rows := rows
  held := validated.held

theorem validated_of_tick (validated : Validated env s) {p : Nat} {phase : TickPhase}
    (held : ∀ h ∈ phase.held, validateCronExpr env h.cronExpr = true) :
    Validated env (s.setTick p phase) where
  rows := validated.rows
  held q h hh := by
    rw [setTick_ticks] at hh
    split at hh
    · exact held h hh
    · exact validated.held q h hh

theorem validated_of_firstRun {cronExpr : String} {now time : Int}
    (h : firstRun env cronExpr now = some time) : validateCronExpr env cronExpr = true := by
  unfold firstRun at h
  split at h
  · assumption
  · cases h

theorem validated_update {r : Schedule} {changes : ScheduleChanges} {now : Int}
    {nextRunAt : Option Int} (changed : changedRun env changes now = some nextRunAt)
    (before : validateCronExpr env r.cronExpr = true) :
    validateCronExpr env (r.update changes nextRunAt).cronExpr = true := by
  show validateCronExpr env (changes.cronExpr.getD r.cronExpr) = true
  cases expr : changes.cronExpr with
  | none => exact before
  | some cronExpr =>
    rw [changedRun, expr] at changed
    obtain ⟨time, first, -⟩ := Option.map_eq_some_iff.mp changed
    exact validated_of_firstRun first

theorem validated_of_step {x : SchedulerStep} (h : (schedulers env).Steps x)
    (validated : Validated env x.before) : Validated env x.after := by
  have moves := scheduler_moves h
  obtain ⟨s, a, label, s'⟩ := x
  dsimp only at validated moves ⊢
  cases moves with
  | elapsed => exact ⟨validated.rows, validated.held⟩
  | refused => exact validated
  | created first insert =>
    refine validated_of_rows validated fun r hr => ?_
    rcases Table.of_mem_insert insert hr with rfl | old
    · exact validated_of_firstRun first
    · exact validated.rows r old
  | updated changed =>
    refine validated_of_rows validated fun r hr => ?_
    rcases of_mem_updated hr with old | ⟨r, mem, -, -, rfl⟩
    · exact validated.rows r old
    · exact validated_update changed (validated.rows r mem)
  | deleted =>
    exact validated_of_rows validated fun r hr => validated.rows r (List.mem_filter.mp hr).1
  | read idle perm =>
    refine validated_of_tick validated fun h hh => ?_
    rw [TickPhase.held_ofDue] at hh
    exact validated.rows h (List.mem_filter.mp (perm.mem_iff.mp hh)).1
  | @fired p sched due taskId now place =>
    refine validated_of_tick validated fun h hh => validated.held p h ?_
    rw [place]
    exact hh
  | @failed p sched due stored place =>
    refine validated_of_tick validated fun h hh => validated.held p h ?_
    rw [TickPhase.held_ofDue] at hh
    rw [place]
    exact List.mem_cons_of_mem _ hh
  | @recorded p sched due taskId nextRunAt place =>
    have rows : ∀ r ∈ (s.recorded sched.id taskId nextRunAt).rows,
        validateCronExpr env r.cronExpr = true := by
      intro r hr
      rcases of_mem_recorded hr with ⟨old, -⟩ | ⟨r, mem, -, rfl⟩
      · exact validated.rows r old
      · exact validated.rows r mem
    refine validated_of_tick (validated_of_rows validated rows) fun h hh => validated.held p h ?_
    rw [TickPhase.held_ofDue] at hh
    rw [place]
    exact List.mem_cons_of_mem _ hh
  | @unrecorded p sched due taskId nextRunAt place =>
    refine validated_of_tick validated fun h hh => validated.held p h ?_
    rw [TickPhase.held_ofDue] at hh
    rw [place]
    exact List.mem_cons_of_mem _ hh
  | stopped => exact validated_of_tick validated nofun

/-- Once the run is recorded, an enabled row of the schedule is due again at its own firing
just if the time written is not a later one. -/
theorem recorded_due_iff {id : Nat} {taskId : String} {now nextRunAt : Int} :
    (∀ s : Schedulers, ∀ r ∈ (s.recorded id taskId nextRunAt).rows, r.id = id →
      isDue now r = false) ↔ now < nextRunAt := by
  refine ⟨fun never => ?_, fun later s r hr at_id => ?_⟩
  · let r : Schedule := ⟨id, "", "", "", "", "", nextRunAt, none, none, true⟩
    have row := never { Schedulers.empty 0 with schedules := ⟨[r], List.nodup_singleton _⟩ }
      { r with lastRunAt := some 0, lastTaskId := some taskId }
      (List.mem_map.mpr ⟨r, List.mem_singleton.mpr rfl, by simp [r, Schedulers.empty]⟩) rfl
    simpa [isDue, r] using row
  · rcases of_mem_recorded hr with ⟨-, other⟩ | ⟨r, -, -, rfl⟩
    · exact absurd at_id other
    · simp only [isDue, Bool.and_eq_false_imp, decide_eq_false_iff_not]
      omega

end

/-- For any expression that is accepted and any time, a later time is computed just if the
expression leads on from there. And in any run of any number of processes and users: of a
firing at a time `now`, the row as it is then recorded is not due at `now` again just if
the expression is not one that stands still. -/
theorem next_run_later_iff (env : CronEnv) (advances : env.Advances) :
    (∀ cronExpr after, validateCronExpr env cronExpr = true →
      ((∃ time, computeNextRun env cronExpr after = some time ∧ after < time) ↔
        LeadsOn env cronExpr after)) ∧
    ∀ (start : Int) (actions : List SchedulerAction),
      ∀ x ∈ (schedulers env).run (.empty start) actions,
        ∀ p taskId now sched due, x.input = .createTask p (.created taskId now) →
          x.before.ticks p = .firing (sched :: due) → now ≤ maxTime →
            ∃ nextRunAt, x.after.ticks p = .recording sched taskId nextRunAt due ∧
              ((∀ s : Schedulers, ∀ r ∈ (s.recorded sched.id taskId nextRunAt).rows,
                r.id = sched.id → isDue now r = false) ↔ ¬ Standing env sched.cronExpr) := by
  refine ⟨fun cronExpr after accepted => exists_later_iff advances accepted after, ?_⟩
  intro start actions x hx p taskId now sched due input place time
  obtain ⟨steps, validated, -⟩ := @Machine.run_invariant _ _ _ (schedulers env) (Validated env)
    (fun x h => validated_of_step h) (.empty start) actions (validated_empty start) x hx
  have accepted : validateCronExpr env sched.cronExpr = true := by
    refine validated.held p sched ?_
    rw [place]
    exact List.mem_cons_self
  refine ⟨nextRun env sched.cronExpr now, ?_,
    recorded_due_iff.trans (lt_nextRun_iff advances accepted time)⟩
  obtain ⟨s, a, label, s'⟩ := x
  dsimp only at input place ⊢
  subst input
  have fires : s.step env (.createTask p (.created taskId now)) = some (s', label) := steps
  simp only [Schedulers.step, place] at fires
  cases fires
  rw [setTick_ticks, if_pos rfl]

/-! ## Intervals of no length -/

theorem sampleCron_advances : sampleCron.Advances := by
  intro expr after time _ found
  simp only [sampleCron, minute] at found
  split at found
  · cases found
    omega
  · split at found
    · cases found
      omega
    · cases found

/-- The digest is fired at its time: the next one is five minutes later. -/
def digestFired : List SchedulerAction :=
  digestDue ++ [.getDue 0 [digest], .createTask 0 (.created "task-1" 300000000)]

theorem digest_moves_on :
    LeadsOn sampleCron "@every 5m" 300000000 ∧
      (∃ time, computeNextRun sampleCron "@every 5m" 300000000 = some time ∧ 300000000 < time) ∧
      ∀ x ∈ (schedulers sampleCron).run (.empty 0) digestFired,
        x.input = .createTask 0 (.created "task-1" 300000000) →
          x.before.ticks 0 = .firing [digest] →
            ∃ nextRunAt, x.after.ticks 0 = .recording digest "task-1" nextRunAt [] ∧
              ∀ s : Schedulers, ∀ r ∈ (s.recorded 1 "task-1" nextRunAt).rows, r.id = 1 →
                isDue 300000000 r = false := by
  have every : everyDelta sampleCron "@every 5m" = some (some 300000000) := by decide +kernel
  have leads : LeadsOn sampleCron "@every 5m" 300000000 := by
    rw [LeadsOn, every]
    exact ⟨300000000, rfl, by decide, by decide⟩
  obtain ⟨computes, runs⟩ := next_run_later_iff sampleCron sampleCron_advances
  refine ⟨leads, (computes "@every 5m" 300000000 (by decide +kernel)).mpr leads, ?_⟩
  intro x hx input place
  obtain ⟨nextRunAt, next, due⟩ :=
    runs 0 digestFired x hx 0 "task-1" 300000000 digest [] input place (by decide)
  refine ⟨nextRunAt, next, due.mpr fun standing => ?_⟩
  have moves : everyDelta sampleCron "@every 5m" = some (some 0) := standing
  rw [every] at moves
  cases moves

/-- Accepted, and due again at once. -/
theorem every_zero_stands :
    validateCronExpr sampleCron "@every 0m" = true ∧
      computeNextRun sampleCron "@every 0m" 300000000 = some 300000000 ∧
      ¬ (∃ time, computeNextRun sampleCron "@every 0m" 300000000 = some time ∧
        300000000 < time) ∧
      isDue 300000000 { digest with cronExpr := "@every 0m", nextRunAt := 300000000 } = true ∧
      validateCronExpr sampleCron "@every 999999999d" = true ∧
      computeNextRun sampleCron "@every 999999999d" 300000000 = none := by
  have same : computeNextRun sampleCron "@every 0m" 300000000 = some 300000000 := by
    decide +kernel
  refine ⟨by decide +kernel, same, ?_, by decide, by decide +kernel, by decide +kernel⟩
  rintro ⟨time, computed, later⟩
  rw [same] at computed
  cases computed
  omega

end LegionForge.Gateway
