import LegionForge.Gateway.Scheduler

/-!
# Does an occurrence create one task

A row that was read stands for an occurrence, the schedule with its due time. Nothing
claims an occurrence before its task is created, and the row goes on standing for it until
the next time is recorded: another tick can read it meanwhile, and where recording fails
the next tick will. `fires_once_of_timely` lists what has to be left out for every
occurrence to create at most one task.
-/

namespace LegionForge.Gateway

/-! ## What is to hold -/

/-- The tasks a run created, in order. -/
def firings (trace : List SchedulerStep) : List Firing := trace.filterMap (·.label)

def fired (trace : List SchedulerStep) : List Occurrence :=
  (firings trace).map (·.occurrence)

/-- No occurrence created two tasks. -/
def FiresOnce (trace : List SchedulerStep) : Prop := (fired trace).Nodup

/-- A tick reads no occurrence that a tick is still at work on; what was fired is recorded,
and no failure or stop comes between; and a time that is written lies in the future. -/
def Timely (env : CronEnv) (s : Schedulers) : SchedulerAction → Prop
  | .getDue _ due => ∀ r ∈ due, ∀ q, ∀ h ∈ (s.ticks q).held, h.occurrence ≠ r.occurrence
  | .createTask _ answer => answer ≠ .raised true
  | .recordRun p commits => ∀ sched taskId nextRunAt due,
    s.ticks p = .recording sched taskId nextRunAt due →
      commits = true ∧ ((s.schedules.get sched.id).isSome → s.now < nextRunAt)
  | .stop p => ∀ sched taskId nextRunAt due,
    s.ticks p ≠ .recording sched taskId nextRunAt due
  | .updateSchedule _ _ changes now =>
    ∀ nextRunAt, changedRun env changes now = some (some nextRunAt) → s.now < nextRunAt
  | _ => True

section
variable {env : CronEnv} {s : Schedulers}

/-! ## What has been fired -/

/-- Every occurrence that was fired is past and not to be fired again: no tick has it
before it, and a row that still stands for it is about to be written. -/
structure Settled (past : List Occurrence) (s : Schedulers) : Prop where
  once : past.Nodup
  due : ∀ o ∈ past, o.2 ≤ s.now ∧ o.1 < s.nextId
  numbered : ∀ r ∈ s.schedules.rows, r.id < s.nextId
  pending : ∀ p, ∀ r ∈ (s.ticks p).pending,
    r.nextRunAt ≤ s.now ∧ r.id < s.nextId ∧ r.occurrence ∉ past
  distinct : ∀ p, ((s.ticks p).held.map Schedule.occurrence).Nodup
  apart : ∀ p q, p ≠ q → ∀ a ∈ (s.ticks p).held, ∀ b ∈ (s.ticks q).held,
    a.occurrence ≠ b.occurrence
  waiting : ∀ r ∈ s.schedules.rows, r.occurrence ∈ past →
    ∃ p sched taskId nextRunAt due, s.ticks p = .recording sched taskId nextRunAt due ∧
      sched.occurrence = r.occurrence

theorem settled_empty (now : Int) : Settled [] (.empty now) where
  once := List.nodup_nil
  due := nofun
  numbered := nofun
  pending := nofun
  distinct _ := List.nodup_nil
  apart := nofun
  waiting := nofun

/-- The tick of one process changes, and it holds no more than it did. -/
theorem settled_of_less {past : List Occurrence} (settled : Settled past s) {p : Nat}
    {phase : TickPhase} (pending : ∀ r ∈ phase.pending, r ∈ (s.ticks p).pending)
    (held : phase.held.Sublist (s.ticks p).held)
    (waiting : ∀ r ∈ s.schedules.rows, r.occurrence ∈ past →
      ∃ q ≠ p, ∃ sched taskId nextRunAt due,
        s.ticks q = .recording sched taskId nextRunAt due ∧ sched.occurrence = r.occurrence) :
    Settled past (s.setTick p phase) where
  once := settled.once
  due := settled.due
  numbered := settled.numbered
  pending q r hr := by
    rw [setTick_ticks] at hr
    split at hr
    · next same => exact settled.pending p r (pending r hr)
    · exact settled.pending q r hr
  distinct q := by
    rw [setTick_ticks]
    split
    · exact (settled.distinct p).sublist (held.map _)
    · exact settled.distinct q
  apart q q' other a ha b hb := by
    have inHeld {k : Nat} {r : Schedule} (hr : r ∈ ((s.setTick p phase).ticks k).held) :
        r ∈ (s.ticks k).held := by
      rw [setTick_ticks] at hr
      split at hr
      · next same => exact same ▸ held.subset hr
      · exact hr
    exact settled.apart q q' other a (inHeld ha) b (inHeld hb)
  waiting r hr stands := by
    obtain ⟨q, other, sched, taskId, nextRunAt, due, place, same⟩ := waiting r hr stands
    exact ⟨q, sched, taskId, nextRunAt, due, by rw [setTick_ticks, if_neg other, place], same⟩

/-- The rows change, and one that stands for a fired occurrence did so before. -/
theorem settled_of_rows {past : List Occurrence} (settled : Settled past s)
    {schedules : Table Schedule.id} {nextId : Nat} (grows : s.nextId ≤ nextId)
    (rows : ∀ r ∈ schedules.rows, r.id < nextId ∧ (r.occurrence ∈ past →
      ∃ r' ∈ s.schedules.rows, r'.occurrence = r.occurrence)) :
    Settled past { s with schedules, nextId } where
  once := settled.once
  due o ho := ⟨(settled.due o ho).1, Nat.lt_of_lt_of_le (settled.due o ho).2 grows⟩
  numbered r hr := (rows r hr).1
  pending p r hr := by
    obtain ⟨due, numbered, open_⟩ := settled.pending p r hr
    exact ⟨due, Nat.lt_of_lt_of_le numbered grows, open_⟩
  distinct := settled.distinct
  apart := settled.apart
  waiting r hr stands := by
    obtain ⟨r', hr', same⟩ := (rows r hr).2 stands
    obtain ⟨p, sched, taskId, nextRunAt, due, place, at_r'⟩ :=
      settled.waiting r' hr' (same ▸ stands)
    exact ⟨p, sched, taskId, nextRunAt, due, place, at_r'.trans same⟩

/-- A time in the future has not been fired. -/
theorem not_fired_of_future {past : List Occurrence} (settled : Settled past s)
    {r : Schedule} (future : s.now < r.nextRunAt) : r.occurrence ∉ past := fun stands =>
  absurd (settled.due _ stands).1 (Int.not_le.mpr future)

theorem settled_elapsed {past : List Occurrence} (settled : Settled past s) (dt : Nat) :
    Settled past { s with now := s.now + dt } where
  once := settled.once
  due o ho := ⟨Int.le_trans (settled.due o ho).1 (by dsimp only; omega), (settled.due o ho).2⟩
  numbered := settled.numbered
  pending p r hr := by
    obtain ⟨due, rest⟩ := settled.pending p r hr
    exact ⟨Int.le_trans due (by dsimp only; omega), rest⟩
  distinct := settled.distinct
  apart := settled.apart
  waiting := settled.waiting

theorem settled_updated {past : List Occurrence} (settled : Settled past s) {id : Nat}
    {userId : String} {changes : ScheduleChanges} {nextRunAt : Option Int}
    (future : ∀ time, nextRunAt = some time → s.now < time) :
    Settled past { s with schedules := s.updated id userId changes nextRunAt } := by
  refine settled_of_rows settled (Nat.le_refl _) fun r hr => ?_
  rcases of_mem_updated hr with old | ⟨r', hr', -, -, rfl⟩
  · exact ⟨settled.numbered r old, fun _ => ⟨r, old, rfl⟩⟩
  · refine ⟨settled.numbered r' hr', fun stands => ?_⟩
    cases nextRunAt with
    | none => exact ⟨r', hr', rfl⟩
    | some time => exact absurd stands (not_fired_of_future settled (future time rfl))

theorem settled_created {past : List Occurrence} (settled : Settled past s)
    {schedules : Table Schedule.id} {r : Schedule} (fresh : r.id = s.nextId)
    (insert : s.schedules.insert r = some schedules) :
    Settled past { s with schedules, nextId := s.nextId + 1 } := by
  refine settled_of_rows settled (Nat.le_succ _) fun r' hr' => ?_
  rcases Table.of_mem_insert insert hr' with rfl | old
  · refine ⟨by omega, fun stands => ?_⟩
    -- no occurrence of this id has been fired
    have numbered : r'.id < s.nextId := (settled.due _ stands).2
    omega
  · exact ⟨Nat.lt_succ_of_lt (settled.numbered r' old), fun _ => ⟨r', old, rfl⟩⟩

theorem settled_deleted {past : List Occurrence} (settled : Settled past s)
    (gone : Schedule → Bool) :
    Settled past { s with schedules := s.schedules.discard gone } := by
  refine settled_of_rows settled (Nat.le_refl _) fun r hr => ?_
  have old := (List.mem_filter.mp hr).1
  exact ⟨settled.numbered r old, fun _ => ⟨r, old, rfl⟩⟩

/-- What a tick reads has not been fired, where no tick is still at work on it. -/
theorem settled_read {past : List Occurrence} (settled : Settled past s) {p : Nat}
    {due : List Schedule} (idle : s.ticks p = .idle)
    (perm : due.Perm (s.schedules.rows.filter (isDue s.now)))
    (free : ∀ r ∈ due, ∀ q, ∀ h ∈ (s.ticks q).held, h.occurrence ≠ r.occurrence) :
    Settled past (s.setTick p (.ofDue due)) where
  once := settled.once
  due := settled.due
  numbered := settled.numbered
  pending q r hr := by
    rw [setTick_ticks] at hr
    split at hr
    · rw [TickPhase.pending_ofDue] at hr
      obtain ⟨mem, isDue⟩ := List.mem_filter.mp (perm.mem_iff.mp hr)
      rw [Gateway.isDue, Bool.and_eq_true, decide_eq_true_eq] at isDue
      refine ⟨isDue.2, settled.numbered r mem, fun stands => ?_⟩
      obtain ⟨k, sched, taskId, nextRunAt, rest, place, same⟩ := settled.waiting r mem stands
      exact free r hr k sched (by rw [place]; exact List.mem_cons_self) same
    · exact settled.pending q r hr
  distinct q := by
    rw [setTick_ticks]
    split
    · rw [TickPhase.held_ofDue]
      have ids : (due.map Schedule.id).Nodup :=
        (perm.map _).nodup_iff.mpr (s.schedules.keys.sublist (List.filter_sublist.map _))
      exact List.Nodup.of_map Prod.fst (by rwa [List.map_map])
    · exact settled.distinct q
  apart q q' other a ha b hb := by
    rw [setTick_ticks] at ha hb
    split at ha
    · rw [TickPhase.held_ofDue] at ha
      split at hb
      · next same same' => exact absurd (same.trans same'.symm) other
      · exact (free a ha q' b hb).symm
    · split at hb
      · rw [TickPhase.held_ofDue] at hb
        exact free b hb q a ha
      · exact settled.apart q q' other a ha b hb
  waiting r hr stands := by
    obtain ⟨k, sched, taskId, nextRunAt, rest, place, same⟩ := settled.waiting r hr stands
    have other : k ≠ p := by
      rintro rfl
      rw [idle] at place
      cases place
    exact ⟨k, sched, taskId, nextRunAt, rest, by rw [setTick_ticks, if_neg other, place], same⟩

/-- Firing the next row makes its occurrence a fired one. -/
theorem settled_fired {past : List Occurrence} (settled : Settled past s) {p : Nat}
    {sched : Schedule} {due : List Schedule} {taskId : String} {nextRunAt : Int}
    (place : s.ticks p = .firing (sched :: due)) :
    Settled (past ++ [sched.occurrence])
      (s.setTick p (.recording sched taskId nextRunAt due)) := by
  have before := settled.pending p
  rw [place] at before
  obtain ⟨isPast, numbered, open_⟩ := before sched List.mem_cons_self
  have distinct := settled.distinct p
  rw [place] at distinct
  have distinct : sched.occurrence ∉ due.map Schedule.occurrence ∧
      (due.map Schedule.occurrence).Nodup := List.nodup_cons.mp distinct
  -- what p holds does not change
  have held (k : Nat) : ((s.setTick p (.recording sched taskId nextRunAt due)).ticks k).held =
      (s.ticks k).held := by
    rw [setTick_ticks]
    split
    · next same =>
      rw [same, place]
      rfl
    · rfl
  refine ⟨?_, ?_, settled.numbered, ?_, ?_, ?_, ?_⟩
  · rw [List.nodup_append]
    refine ⟨settled.once, List.nodup_singleton _, fun a ha b hb => ?_⟩
    rw [List.mem_singleton.mp hb]
    rintro rfl
    exact open_ ha
  · intro o ho
    rcases List.mem_append.mp ho with old | new
    · exact settled.due o old
    · rw [List.mem_singleton.mp new]
      exact ⟨isPast, numbered⟩
  · intro q r hr
    have mem : r ∈ (s.ticks q).pending ∧ r.occurrence ≠ sched.occurrence := by
      rw [setTick_ticks] at hr
      split at hr
      · next same =>
        rw [same, place]
        refine ⟨List.mem_cons_of_mem _ hr, fun same => ?_⟩
        exact distinct.1 (same ▸ List.mem_map_of_mem hr)
      · next other =>
        refine ⟨hr, fun same => ?_⟩
        exact settled.apart q p other r (TickPhase.pending_subset_held hr) sched
          (by rw [place]; exact List.mem_cons_self) same
    obtain ⟨isPast, numbered, open_⟩ := settled.pending q r mem.1
    refine ⟨isPast, numbered, fun stands => ?_⟩
    rcases List.mem_append.mp stands with old | new
    · exact open_ old
    · exact mem.2 (List.mem_singleton.mp new)
  · intro q
    rw [held]
    exact settled.distinct q
  · intro q q' other
    rw [held, held]
    exact settled.apart q q' other
  · intro r hr stands
    rcases List.mem_append.mp stands with old | new
    · obtain ⟨k, sched', taskId', nextRunAt', due', place', same⟩ := settled.waiting r hr old
      have other : k ≠ p := by
        rintro rfl
        rw [place] at place'
        cases place'
      exact ⟨k, sched', taskId', nextRunAt', due',
        by rw [setTick_ticks, if_neg other, place'], same⟩
    · exact ⟨p, sched, taskId, nextRunAt, due, by rw [setTick_ticks, if_pos rfl],
        (List.mem_singleton.mp new).symm⟩

/-- Recording a run moves the row's time out of the past. -/
theorem settled_recorded {past : List Occurrence} (settled : Settled past s) {p : Nat}
    {sched : Schedule} {due : List Schedule} {taskId : String} {nextRunAt : Int}
    (place : s.ticks p = .recording sched taskId nextRunAt due)
    (future : (s.schedules.get sched.id).isSome → s.now < nextRunAt) :
    Settled past ({ s with schedules := s.recorded sched.id taskId nextRunAt }.setTick p
      (.ofDue due)) := by
  have written : ∀ r ∈ (s.recorded sched.id taskId nextRunAt).rows, r.occurrence ∈ past →
      r ∈ s.schedules.rows ∧ r.id ≠ sched.id := by
    intro r hr stands
    rcases of_mem_recorded hr with old | ⟨r', hr', at_id, rfl⟩
    · exact old
    · have found := Table.get_of_mem hr'
      rw [at_id] at found
      have later := future (by rw [found]; rfl)
      exact absurd stands (not_fired_of_future settled later)
  have rows : Settled past { s with schedules := s.recorded sched.id taskId nextRunAt } := by
    refine settled_of_rows settled (Nat.le_refl _) fun r hr => ⟨?_, fun stands => ?_⟩
    · rcases of_mem_recorded hr with old | ⟨r', hr', -, rfl⟩
      · exact settled.numbered r old.1
      · exact settled.numbered r' hr'
    · exact ⟨r, (written r hr stands).1, rfl⟩
  refine settled_of_less rows ?_ ?_ fun r hr stands => ?_
  · intro r hr
    rw [TickPhase.pending_ofDue] at hr
    rw [place]
    exact hr
  · rw [TickPhase.held_ofDue, place]
    exact List.sublist_cons_self _ _
  · obtain ⟨k, sched', taskId', nextRunAt', due', place', same⟩ := rows.waiting r hr stands
    refine ⟨k, ?_, sched', taskId', nextRunAt', due', place', same⟩
    rintro rfl
    rw [place] at place'
    cases place'
    exact (written r hr stands).2 (congrArg Prod.fst same).symm

/-- A timely step keeps what was fired settled. -/
theorem settled_of_step {past : List Occurrence} {x : SchedulerStep}
    (h : (schedulers env).Steps x) (timely : Timely env x.before x.input)
    (settled : Settled past x.before) :
    Settled (past ++ (x.label.toList.map (·.occurrence))) x.after := by
  have moves := scheduler_moves h
  obtain ⟨s, a, label, s'⟩ := x
  dsimp only at timely settled moves ⊢
  -- the tick of a process that is not recording drops rows
  have dropped {p : Nat} {phase : TickPhase}
      (pending : ∀ r ∈ phase.pending, r ∈ (s.ticks p).pending)
      (held : phase.held.Sublist (s.ticks p).held)
      (recordless : ∀ sched taskId nextRunAt due,
        s.ticks p ≠ .recording sched taskId nextRunAt due) :
      Settled past (s.setTick p phase) := by
    refine settled_of_less settled pending held fun r hr stands => ?_
    obtain ⟨k, sched, taskId, nextRunAt, due, place, same⟩ := settled.waiting r hr stands
    refine ⟨k, ?_, sched, taskId, nextRunAt, due, place, same⟩
    rintro rfl
    exact recordless _ _ _ _ place
  have unfired {after : Schedulers} (kept : Settled past after) :
      Settled (past ++ (none : Option Firing).toList.map (·.occurrence)) after := by
    rw [Option.toList_none, List.map_nil, List.append_nil]
    exact kept
  cases moves with
  | @elapsed dt => exact unfired (settled_elapsed settled dt)
  | refused => exact unfired settled
  | created first insert =>
    exact unfired (settled_created settled rfl insert)
  | updated changed =>
    refine unfired (settled_updated settled fun time same => ?_)
    exact timely time (same ▸ changed)
  | deleted => exact unfired (settled_deleted settled _)
  | read idle perm => exact unfired (settled_read settled idle perm timely)
  | fired place => exact settled_fired settled place
  | @failed p sched due stored place =>
    cases stored with
    | true => exact absurd rfl timely
    | false =>
      refine unfired (dropped ?_ ?_ ?_)
      · intro r hr
        rw [TickPhase.pending_ofDue] at hr
        rw [place]
        exact List.mem_cons_of_mem _ hr
      · rw [TickPhase.held_ofDue, place]
        exact List.sublist_cons_self _ _
      · intro _ _ _ _ recording
        rw [place] at recording
        cases recording
  | @recorded p sched due taskId nextRunAt place =>
    have future := (timely sched taskId nextRunAt due place).2
    exact unfired (settled_recorded settled place future)
  | @unrecorded p sched due taskId nextRunAt place =>
    exact absurd (timely sched taskId nextRunAt due place).1 (by simp)
  | @stopped p =>
    refine unfired (dropped nofun ?_ timely)
    exact List.nil_sublist _

theorem fired_append (past : List SchedulerStep) (x : SchedulerStep) :
    fired (past ++ [x]) = fired past ++ x.label.toList.map (·.occurrence) := by
  unfold fired firings
  rw [List.filterMap_append, List.map_append]
  cases label : x.label <;> simp [label]

end

/-- For any number of processes, from an empty table on: a run whose steps are all timely
fires every occurrence at most once. -/
theorem fires_once_of_timely (env : CronEnv) (now : Int) (actions : List SchedulerAction)
    (timely : ∀ x ∈ (schedulers env).run (.empty now) actions, Timely env x.before x.input) :
    FiresOnce ((schedulers env).run (.empty now) actions) := by
  have last := @Machine.history_final _ _ _ (schedulers env)
    (fun past s => (∀ y ∈ past, Timely env y.before y.input) → Settled (fired past) s)
    (fun past x h settled ok => by
      rw [fired_append]
      exact settled_of_step h (ok x (by simp)) (settled fun y hy => ok y (by simp [hy])))
    (.empty now) actions (fun _ => settled_empty now)
  exact (last timely).once

/-! ## The digest, once and twice -/

def digestRecorded : List SchedulerAction :=
  digestDue ++ [.getDue 0 [digest], .createTask 0 (.created "task-1" 300000000),
    .recordRun 0 true, .elapse 30000000, .getDue 0 []]

theorem digest_fires_once :
    fired ((schedulers sampleCron).run (.empty 0) digestRecorded) = [(1, 300000000)] ∧
      FiresOnce ((schedulers sampleCron).run (.empty 0) digestRecorded) := by
  refine ⟨by decide +kernel, fires_once_of_timely sampleCron 0 digestRecorded ?_⟩
  have later : nextRun sampleCron "@every 5m" 300000000 = 600000000 := by decide +kernel
  refine Machine.forall_run_cons digest_created trivial ?_
  refine Machine.forall_run_cons rfl trivial ?_
  refine Machine.forall_run_cons rfl (fun _ _ _ h hh => absurd hh List.not_mem_nil) ?_
  refine Machine.forall_run_cons rfl (by simp [Timely]) ?_
  refine Machine.forall_run_cons rfl ?_ ?_
  · intro sched taskId nextRunAt due place
    cases place
    refine ⟨rfl, fun _ => ?_⟩
    show (300000000 : Int) < nextRun sampleCron "@every 5m" 300000000
    rw [later]
    decide
  refine Machine.forall_run_cons rfl trivial ?_
  refine Machine.forall_run_cons rfl (fun r hr => absurd hr List.not_mem_nil) ?_
  exact fun x hx => absurd hx List.not_mem_nil

/-- The run is not recorded, and the next tick fires the occurrence again. -/
def unrecordedRun : List SchedulerAction :=
  digestDue ++ [.getDue 0 [digest], .createTask 0 (.created "task-1" 300000000),
    .recordRun 0 false, .elapse 30000000, .getDue 0 [digest],
    .createTask 0 (.created "task-2" 330000000), .recordRun 0 true]

/-- Two processes read the row before either has recorded its run. -/
def twoSchedulers : List SchedulerAction :=
  digestDue ++ [.getDue 0 [digest], .getDue 1 [digest],
    .createTask 0 (.created "task-1" 300000000), .createTask 1 (.created "task-2" 300000000),
    .recordRun 0 true, .recordRun 1 true]

theorem digest_fires_twice :
    ¬ FiresOnce ((schedulers sampleCron).run (.empty 0) unrecordedRun) ∧
      ¬ FiresOnce ((schedulers sampleCron).run (.empty 0) twoSchedulers) := by
  unfold FiresOnce
  decide +kernel

end LegionForge.Gateway
