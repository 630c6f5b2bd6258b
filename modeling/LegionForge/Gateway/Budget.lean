import LegionForge.Audit.Time
import LegionForge.Lib.Machine
import LegionForge.Lib.Redis
import LegionForge.Lib.Table
import Mathlib.Algebra.Order.BigOperators.Group.List
import Mathlib.Algebra.Ring.Int.Defs

/-!
# The daily budget in Redis

A reservation adds its estimate to the user's counter of the day and looks at the sum
afterwards; one that is above the limit takes its estimate back. Each of the three or
four commands is atomic and the calls of all gateway instances interleave between them.
The counter holds the accepted estimates and those that are still to be taken back, so
what is accepted stays within the limit. But a call finds both in the sum: it is turned
away by an estimate that is about to be taken back, exactly when the accepted ones alone
leave it room and the two together do not.
-/

namespace LegionForge.Gateway

open LegionForge.Audit (Instant UtcOffset civilDate)
open Delimited (pad)

/-! ## The keys -/

def dayMicros : Nat := 86400000000

/-- `date.today()` on a host at this offset, by its number -/
def today (now : Instant) (tz : UtcOffset) : Nat := now.localMicros tz / dayMicros

/-- `date.isoformat()` -/
def dateIsoformat (day : Nat) : List Char :=
  let date := civilDate day
  pad 4 date.year ++ '-' :: (pad 2 date.month ++ '-' :: pad 2 date.day)

def utcDay (now : Instant) : Nat := now.micros / dayMicros

/-- `_tomorrow_midnight_unix` -/
def tomorrowMidnight (now : Instant) : Nat := (utcDay now + 1) * dayMicros

def budgetKey (userId : String) (date : Nat) : List Char :=
  "lf:budget:".toList ++ (userId.toList ++ ':' :: dateIsoformat date)

theorem budgetKey_user_inj {a b : String} {date : Nat}
    (h : budgetKey a date = budgetKey b date) : a = b :=
  String.toList_injective (List.append_cancel_right (List.append_cancel_left h))

/-! ## One call -/

/-- The command a call comes to next, with what `INCRBY` has answered. -/
inductive CallPhase where
  | incrby
  | ttl (newVal : Int)
  | expireat (newVal : Int)
  | decrby (newVal : Int)
  | reserved
  | rejected (newVal : Int)
  deriving DecidableEq, Repr

/-- A call of `redis_budget_check_and_reserve`, from the point where it has its key -/
structure ReserveCall where
  id : Nat
  userId : String
  estimatedTokens : Nat
  dailyLimit : Int
  key : List Char
  phase : CallPhase
  deriving DecidableEq

/-- A call that has read the date. -/
def newCall (id : Nat) (userId : String) (estimatedTokens : Nat) (dailyLimit : Int)
    (now : Instant) (tz : UtcOffset) : ReserveCall where
  id
  userId
  estimatedTokens
  dailyLimit
  key := budgetKey userId (today now tz)
  phase := .incrby

/-- After the expiry is set: roll back and reject, or go on. -/
def ReserveCall.compare (c : ReserveCall) (newVal : Int) : ReserveCall :=
  { c with phase := if newVal > c.dailyLimit then .decrby newVal else .reserved }

/-- The next command of the call -/
def ReserveCall.command (redis : Redis.Store (List Char)) (now : Instant)
    (c : ReserveCall) : Redis.Store (List Char) × ReserveCall :=
  match c.phase with
  | .incrby =>
    let reply := redis.incrby now.micros c.key c.estimatedTokens
    (reply.1, { c with phase := .ttl reply.2 })
  | .ttl newVal =>
    -- a negative answer: the key has no expiry yet
    if redis.ttl now.micros c.key < 0 then (redis, { c with phase := .expireat newVal })
    else (redis, c.compare newVal)
  | .expireat newVal =>
    (redis.expireat now.micros c.key (tomorrowMidnight now), c.compare newVal)
  | .decrby newVal =>
    ((redis.decrby now.micros c.key c.estimatedTokens).1, { c with phase := .rejected newVal })
  | .reserved | .rejected _ => (redis, c)

/-- The counter holds the estimate. -/
def ReserveCall.counted (c : ReserveCall) : Bool :=
  match c.phase with
  | .incrby | .rejected _ => false
  | .ttl _ | .expireat _ | .decrby _ | .reserved => true

/-- The call has been accepted, or its answer says that it will be. -/
def ReserveCall.accepts (c : ReserveCall) : Bool :=
  match c.phase with
  | .ttl newVal | .expireat newVal => newVal ≤ c.dailyLimit
  | .reserved => true
  | .incrby | .decrby _ | .rejected _ => false

/-- The counter holds the estimate, and the call will take it back. -/
def ReserveCall.overshoots (c : ReserveCall) : Bool :=
  match c.phase with
  | .ttl newVal | .expireat newVal => c.dailyLimit < newVal
  | .decrby _ => true
  | .incrby | .reserved | .rejected _ => false

def ReserveCall.done (c : ReserveCall) : Bool :=
  match c.phase with
  | .reserved | .rejected _ => true
  | .incrby | .ttl _ | .expireat _ | .decrby _ => false

/-- The estimate of a call, if it is one of those summed. -/
def ReserveCall.amount (c : ReserveCall) (summed : ReserveCall → Bool) : Int :=
  if summed c then c.estimatedTokens else 0

theorem amount_nonneg (c : ReserveCall) (summed : ReserveCall → Bool) :
    0 ≤ c.amount summed := by
  unfold ReserveCall.amount
  split <;> omega

theorem amount_counted (c : ReserveCall) :
    c.amount ReserveCall.counted =
      c.amount ReserveCall.accepts + c.amount ReserveCall.overshoots := by
  obtain ⟨_, _, _, limit, _, phase⟩ := c
  cases phase with
  | ttl newVal | expireat newVal =>
    by_cases h : newVal ≤ limit
    · have : ¬ limit < newVal := by omega
      simp [ReserveCall.amount, ReserveCall.counted, ReserveCall.accepts,
        ReserveCall.overshoots, h, this]
    · have : limit < newVal := by omega
      simp [ReserveCall.amount, ReserveCall.counted, ReserveCall.accepts,
        ReserveCall.overshoots, h, this]
  | _ =>
    simp [ReserveCall.amount, ReserveCall.counted, ReserveCall.accepts,
      ReserveCall.overshoots]

/-! ## Gateway instances on one day -/

/-- A day of the counters: the date in their keys, and the UTC day they expire after. -/
structure BudgetDay where
  date : Nat
  utcDay : Nat

/-- The stretch of time in Redis -/
def BudgetDay.has (day : BudgetDay) (now : Nat) : Prop := now / dayMicros = day.utcDay

/-- An instant of the day on a host. -/
structure Moment (day : BudgetDay) where
  now : Instant
  tz : UtcOffset
  date : today now tz = day.date
  utc : utcDay now = day.utcDay

theorem Moment.has {day : BudgetDay} (m : Moment day) : day.has m.now.micros := m.utc

structure BudgetState where
  redis : Redis.Store (List Char)
  calls : Table ReserveCall.id

inductive BudgetAction (day : BudgetDay) where
  | call (id : Nat) (userId : String) (estimatedTokens : Nat) (m : Moment day)
  | command (id : Nat) (m : Moment day)

variable {limit : String → Int} {day : BudgetDay}

theorem command_id (redis : Redis.Store (List Char)) (now : Instant) (c : ReserveCall) :
    (c.command redis now).2.id = c.id := by
  unfold ReserveCall.command
  split <;> try rfl
  split <;> rfl

/-- The label is the call as the step leaves it. -/
def BudgetState.step (limit : String → Int) (s : BudgetState) :
    BudgetAction day → Option (BudgetState × ReserveCall)
  | .call id userId estimatedTokens m =>
    let c := newCall id userId estimatedTokens (limit userId) m.now m.tz
    (s.calls.insert c).map fun calls => ({ s with calls }, c)
  | .command id m =>
    (s.calls.get id).map fun c =>
      let next := c.command s.redis m.now
      ({ redis := next.1
         calls := s.calls.modify id (fun c => (c.command s.redis m.now).2)
          (command_id s.redis m.now) }, next.2)

/-- The instances share their Redis server, and the limits of the users. -/
def budget (limit : String → Int) (day : BudgetDay) :
    Machine BudgetState (BudgetAction day) ReserveCall where
  step s a := s.step limit a

abbrev BudgetStep (day : BudgetDay) := Machine.Entry BudgetState (BudgetAction day) ReserveCall

/-- Before the first call of the day: no counter has its date, or it has expired. -/
structure DayStart (day : BudgetDay) where
  redis : Redis.Store (List Char)
  unused : ∀ userId, redis.Steady day.has (budgetKey userId day.date) none

def DayStart.state (start : DayStart day) : BudgetState := ⟨start.redis, .empty⟩

inductive BudgetMove (limit : String → Int) (s : BudgetState) :
    BudgetAction day → ReserveCall → BudgetState → Prop
  | called {id : Nat} {userId : String} {estimatedTokens : Nat} {m : Moment day}
      {calls : Table ReserveCall.id}
      (insert : s.calls.insert
        (newCall id userId estimatedTokens (limit userId) m.now m.tz) = some calls) :
      BudgetMove limit s (.call id userId estimatedTokens m)
        (newCall id userId estimatedTokens (limit userId) m.now m.tz) { s with calls }
  | commanded {id : Nat} {m : Moment day} {c : ReserveCall}
      (found : s.calls.get id = some c) :
      BudgetMove limit s (.command id m) (c.command s.redis m.now).2
        { redis := (c.command s.redis m.now).1
          calls := s.calls.modify id (fun c => (c.command s.redis m.now).2)
            (command_id s.redis m.now) }

theorem budget_moves {x : BudgetStep day} (h : (budget limit day).Steps x) :
    BudgetMove limit x.before x.input x.label x.after := by
  obtain ⟨s, a, label, s'⟩ := x
  have h : s.step limit a = some (s', label) := h
  cases a with
  | call id userId estimatedTokens m =>
    obtain ⟨calls, insert, same⟩ := Option.map_eq_some_iff.mp h
    cases same
    exact .called insert
  | command id m =>
    obtain ⟨c, found, same⟩ := Option.map_eq_some_iff.mp h
    cases same
    exact .commanded found


/-! ## What a command can do -/

inductive CallMove (redis : Redis.Store (List Char)) (now : Instant) (c : ReserveCall) :
    Redis.Store (List Char) × ReserveCall → Prop
  | incrby (at_phase : c.phase = .incrby) :
      CallMove redis now c ((redis.incrby now.micros c.key c.estimatedTokens).1,
        { c with phase := .ttl (redis.incrby now.micros c.key c.estimatedTokens).2 })
  | ttl {newVal : Int} (at_phase : c.phase = .ttl newVal) :
      CallMove redis now c (redis, { c with phase := .expireat newVal })
  | expires {newVal : Int} (at_phase : c.phase = .ttl newVal) :
      CallMove redis now c (redis, c.compare newVal)
  | expireat {newVal : Int} (at_phase : c.phase = .expireat newVal) :
      CallMove redis now c
        (redis.expireat now.micros c.key (tomorrowMidnight now), c.compare newVal)
  | decrby {newVal : Int} (at_phase : c.phase = .decrby newVal) :
      CallMove redis now c ((redis.decrby now.micros c.key c.estimatedTokens).1,
        { c with phase := .rejected newVal })
  | done (at_phase : c.done = true) : CallMove redis now c (redis, c)

theorem command_moves (redis : Redis.Store (List Char)) (now : Instant) (c : ReserveCall) :
    CallMove redis now c (c.command redis now) := by
  unfold ReserveCall.command
  split
  · next h => exact .incrby h
  · next newVal h =>
    split
    · exact .ttl h
    · exact .expires h
  · next newVal h => exact .expireat h
  · next newVal h => exact .decrby h
  · next h => exact .done (by simp [ReserveCall.done, h])
  · next newVal h => exact .done (by simp [ReserveCall.done, h])

/-- A command leaves all of a call but its phase. -/
theorem command_same (redis : Redis.Store (List Char)) (now : Instant) (c : ReserveCall) :
    ∃ phase, (c.command redis now).2 = { c with phase } := by
  have moves := command_moves redis now c
  generalize c.command redis now = next at moves
  cases moves <;> exact ⟨_, rfl⟩

theorem compare_amount (c : ReserveCall) (newVal : Int) :
    (c.compare newVal).amount ReserveCall.counted = c.estimatedTokens := by
  unfold ReserveCall.compare
  split <;> rfl

theorem compare_accepts (c : ReserveCall) (newVal : Int) :
    (c.compare newVal).accepts = decide (newVal ≤ c.dailyLimit) := by
  unfold ReserveCall.compare
  split
  · next h => simp [ReserveCall.accepts, h]
  · next h => simpa [ReserveCall.accepts] using h

/-- The counter changes by what the call has in it. -/
theorem command_counter {redis : Redis.Store (List Char)} {m : Moment day} {c : ReserveCall}
    {v : Option Redis.Value} (steady : redis.Steady day.has c.key v) :
    ∃ w, (c.command redis m.now).1.Steady day.has c.key w ∧
      Redis.count w + c.amount ReserveCall.counted =
        Redis.count v + (c.command redis m.now).2.amount ReserveCall.counted := by
  have moves := command_moves redis m.now c
  generalize c.command redis m.now = next at moves
  cases moves with
  | incrby at_phase =>
    refine ⟨_, Redis.Store.steady_incrby steady m.has, ?_⟩
    simp [ReserveCall.amount, ReserveCall.counted, at_phase, Redis.count]
  | ttl at_phase =>
    refine ⟨v, steady, ?_⟩
    simp [ReserveCall.amount, ReserveCall.counted, at_phase]
  | expires at_phase =>
    refine ⟨v, steady, ?_⟩
    rw [compare_amount]
    simp [ReserveCall.amount, ReserveCall.counted, at_phase]
  | expireat at_phase =>
    refine ⟨_, Redis.Store.steady_expireat steady m.has ?_, ?_⟩
    · intro now today
      have today : now / dayMicros = day.utcDay := today
      have utc : utcDay m.now = day.utcDay := m.utc
      rw [tomorrowMidnight, utc, ← today]
      exact Nat.lt_mul_of_div_lt (Nat.lt_succ_self _) (by decide)
    · rw [Redis.Store.count_expireat, compare_amount]
      simp [ReserveCall.amount, ReserveCall.counted, at_phase]
  | decrby at_phase =>
    refine ⟨_, Redis.Store.steady_incrby steady m.has, ?_⟩
    simp [ReserveCall.amount, ReserveCall.counted, at_phase, Redis.count]
  | done => exact ⟨v, steady, rfl⟩

/-- The counters of the other users stay. -/
theorem command_counter_of_ne {redis : Redis.Store (List Char)} {m : Moment day}
    {c : ReserveCall} {key : List Char} {v : Option Redis.Value}
    (steady : redis.Steady day.has key v) (other : key ≠ c.key) :
    (c.command redis m.now).1.Steady day.has key v := by
  have moves := command_moves redis m.now c
  generalize c.command redis m.now = next at moves
  cases moves with
  | incrby | decrby => exact Redis.Store.steady_incrby_of_ne steady other
  | expireat => exact Redis.Store.steady_expireat_of_ne steady other
  | ttl | expires | done => exact steady

/-- Whether a call will be accepted is decided by `INCRBY`. -/
theorem command_accepts {redis : Redis.Store (List Char)} {now : Instant} {c : ReserveCall}
    (later : c.phase ≠ .incrby) : (c.command redis now).2.accepts = c.accepts := by
  have moves := command_moves redis now c
  generalize c.command redis now = next at moves
  cases moves with
  | incrby at_phase => exact absurd at_phase later
  | expires at_phase | expireat at_phase =>
    rw [compare_accepts]
    simp [ReserveCall.accepts, at_phase]
  | ttl at_phase | decrby at_phase => simp [ReserveCall.accepts, at_phase]
  | done => rfl

theorem incrby_accepts {redis : Redis.Store (List Char)} {m : Moment day} {c : ReserveCall}
    {v : Option Redis.Value} (steady : redis.Steady day.has c.key v)
    (first : c.phase = .incrby) :
    (c.command redis m.now).2.accepts =
      decide (Redis.count v + c.estimatedTokens ≤ c.dailyLimit) := by
  unfold ReserveCall.command
  rw [first]
  simp only [ReserveCall.accepts]
  rw [Redis.Store.incrby_snd steady m.has]

/-! ## The counter and the calls -/

/-- The estimates of a user's calls that are of some kind, summed. -/
def BudgetState.sumOf (s : BudgetState) (userId : String) (summed : ReserveCall → Bool) : Int :=
  (s.calls.rows.map (·.amount fun c => c.userId = userId && summed c)).sum

theorem sumOf_nonneg (s : BudgetState) (userId : String) (summed : ReserveCall → Bool) :
    0 ≤ s.sumOf userId summed := by
  refine List.sum_nonneg fun n hn => ?_
  obtain ⟨c, -, rfl⟩ := List.mem_map.mp hn
  exact amount_nonneg c _

/-- What is counted is accepted or overshoots. -/
theorem sumOf_counted (s : BudgetState) (userId : String) :
    s.sumOf userId ReserveCall.counted =
      s.sumOf userId ReserveCall.accepts + s.sumOf userId ReserveCall.overshoots := by
  unfold BudgetState.sumOf
  rw [← List.sum_map_add]
  refine congrArg List.sum (List.map_congr_left fun c _ => ?_)
  by_cases h : c.userId = userId
  · simpa [ReserveCall.amount, h] using amount_counted c
  · simp [ReserveCall.amount, h]

/-- Kinds that agree on the user's calls have the same sum. -/
theorem sumOf_congr {s : BudgetState} {userId : String} {p q : ReserveCall → Bool}
    (same : ∀ c ∈ s.calls.rows, c.userId = userId → p c = q c) :
    s.sumOf userId p = s.sumOf userId q := by
  refine congrArg List.sum (List.map_congr_left fun c hc => ?_)
  by_cases h : c.userId = userId
  · simp [ReserveCall.amount, h, same c hc h]
  · simp [ReserveCall.amount, h]

theorem sumOf_called {s : BudgetState} {calls : Table ReserveCall.id} {c : ReserveCall}
    (insert : s.calls.insert c = some calls) (userId : String) {summed : ReserveCall → Bool}
    (not : summed c = false) :
    BudgetState.sumOf { s with calls } userId summed = s.sumOf userId summed := by
  unfold BudgetState.sumOf
  rw [Table.insert_rows insert]
  simp [ReserveCall.amount, not]

/-- A command changes the sums of the call's user by what it changes in the call. -/
theorem sumOf_commanded {s : BudgetState} {id : Nat} {m : Moment day} {c : ReserveCall}
    (found : s.calls.get id = some c) (userId : String) (summed : ReserveCall → Bool) :
    BudgetState.sumOf
          { redis := (c.command s.redis m.now).1
            calls := s.calls.modify id (fun c => (c.command s.redis m.now).2)
              (command_id s.redis m.now) } userId summed +
        (if c.userId = userId then c.amount summed else 0) =
      s.sumOf userId summed +
        if c.userId = userId then (c.command s.redis m.now).2.amount summed else 0 := by
  have moved := Table.sum_modify found (command_id s.redis m.now)
    (·.amount fun c => c.userId = userId && summed c)
  obtain ⟨phase, same⟩ := command_same s.redis m.now c
  by_cases h : c.userId = userId
  · simpa [BudgetState.sumOf, ReserveCall.amount, same, h] using moved
  · simpa [BudgetState.sumOf, ReserveCall.amount, same, h] using moved

structure BudgetState.Consistent (limit : String → Int) (day : BudgetDay) (s : BudgetState) :
    Prop where
  key : ∀ c ∈ s.calls.rows, c.key = budgetKey c.userId day.date
  dailyLimit : ∀ c ∈ s.calls.rows, c.dailyLimit = limit c.userId
  /-- A counter holds the accepted estimates and those to be taken back. -/
  counter : ∀ userId, ∃ v, s.redis.Steady day.has (budgetKey userId day.date) v ∧
    Redis.count v = s.sumOf userId ReserveCall.counted
  within : ∀ userId, s.sumOf userId ReserveCall.accepts ≤ max 0 (limit userId)

/-- A call after a step: it is new, or has the user, the limit and the key from before. -/
theorem of_mem_calls {x : BudgetStep day} (h : (budget limit day).Steps x) {c : ReserveCall}
    (hc : c ∈ x.after.calls.rows) :
    (c.key = budgetKey c.userId day.date ∧ c.dailyLimit = limit c.userId) ∨
      ∃ b ∈ x.before.calls.rows, ∃ phase, c = { b with phase } := by
  obtain ⟨s, a, label, s'⟩ := x
  have moves : BudgetMove limit s a label s' := budget_moves h
  cases moves with
  | @called id userId estimatedTokens m _ insert =>
    rcases Table.of_mem_insert insert hc with rfl | old
    · refine .inl ⟨?_, rfl⟩
      show budgetKey userId (today m.now m.tz) = budgetKey userId day.date
      rw [m.date]
    · exact .inr ⟨c, old, c.phase, rfl⟩
  | @commanded _ m b found =>
    rcases Table.of_mem_modify found (command_id s.redis m.now) hc with rfl | ⟨old, -⟩
    · obtain ⟨phase, same⟩ := command_same s.redis m.now b
      exact .inr ⟨b, (Table.get_mem found).1, phase, same⟩
    · exact .inr ⟨c, old, c.phase, rfl⟩

theorem counter_of_step {x : BudgetStep day} (h : (budget limit day).Steps x)
    (c : x.before.Consistent limit day) (userId : String) :
    ∃ v, x.after.redis.Steady day.has (budgetKey userId day.date) v ∧
      Redis.count v = x.after.sumOf userId ReserveCall.counted := by
  obtain ⟨s, a, label, s'⟩ := x
  have moves : BudgetMove limit s a label s' := budget_moves h
  have c : s.Consistent limit day := c
  show ∃ v, s'.redis.Steady day.has (budgetKey userId day.date) v ∧
    Redis.count v = s'.sumOf userId ReserveCall.counted
  obtain ⟨v, steady, count⟩ := c.counter userId
  cases moves with
  | called insert =>
    refine ⟨v, steady, ?_⟩
    rw [sumOf_called insert userId rfl]
    exact count
  | @commanded id m b found =>
    have sum := sumOf_commanded (m := m) found userId ReserveCall.counted
    have key := c.key b (Table.get_mem found).1
    by_cases own : b.userId = userId
    · rw [if_pos own, if_pos own] at sum
      rw [← own, ← key] at steady
      obtain ⟨w, steady', count'⟩ := command_counter (m := m) steady
      rw [key, own] at steady'
      refine ⟨w, steady', ?_⟩
      omega
    · rw [if_neg own, if_neg own, Int.add_zero, Int.add_zero] at sum
      have other : budgetKey userId day.date ≠ b.key := by
        rw [key]
        exact fun same => own (budgetKey_user_inj same).symm
      exact ⟨v, command_counter_of_ne steady other, count.trans sum.symm⟩

/-- A call that `INCRBY` accepts finds room beside what is accepted already. -/
theorem within_of_step {x : BudgetStep day} (h : (budget limit day).Steps x)
    (c : x.before.Consistent limit day) (userId : String) :
    x.after.sumOf userId ReserveCall.accepts ≤ max 0 (limit userId) := by
  obtain ⟨s, a, label, s'⟩ := x
  have moves : BudgetMove limit s a label s' := budget_moves h
  have c : s.Consistent limit day := c
  show s'.sumOf userId ReserveCall.accepts ≤ max 0 (limit userId)
  have before := c.within userId
  obtain ⟨v, steady, count⟩ := c.counter userId
  cases moves with
  | called insert =>
    rw [sumOf_called insert userId rfl]
    exact before
  | @commanded id m b found =>
    have sum := sumOf_commanded (m := m) found userId ReserveCall.accepts
    have mem := (Table.get_mem found).1
    by_cases own : b.userId = userId
    · rw [if_pos own, if_pos own] at sum
      by_cases first : b.phase = .incrby
      · rw [← own, ← c.key b mem] at steady
        have answer := incrby_accepts (m := m) steady first
        have split := sumOf_counted s userId
        have overshoot := sumOf_nonneg s userId ReserveCall.overshoots
        rw [c.dailyLimit b mem, own] at answer
        obtain ⟨phase, same⟩ := command_same s.redis m.now b
        have estimate : (b.command s.redis m.now).2.estimatedTokens = b.estimatedTokens := by
          rw [same]
        have none_before : b.amount ReserveCall.accepts = 0 := by
          simp [ReserveCall.amount, ReserveCall.accepts, first]
        rw [none_before] at sum
        unfold ReserveCall.amount at sum
        rw [answer, estimate] at sum
        split at sum
        · next fits =>
          have fits := of_decide_eq_true fits
          omega
        · omega
      · have same : (b.command s.redis m.now).2.accepts = b.accepts := command_accepts first
        obtain ⟨phase, at_phase⟩ := command_same s.redis m.now b
        have estimate : (b.command s.redis m.now).2.estimatedTokens = b.estimatedTokens := by
          rw [at_phase]
        unfold ReserveCall.amount at sum
        rw [same, estimate] at sum
        omega
    · rw [if_neg own, if_neg own, Int.add_zero, Int.add_zero] at sum
      rw [sum]
      exact before

theorem budget_consistent_of_step {x : BudgetStep day} (h : (budget limit day).Steps x)
    (c : x.before.Consistent limit day) : x.after.Consistent limit day where
  counter := counter_of_step h c
  within := within_of_step h c
  key b hb := by
    rcases of_mem_calls h hb with ⟨key, -⟩ | ⟨old, mem, phase, rfl⟩
    · exact key
    · exact c.key old mem
  dailyLimit b hb := by
    rcases of_mem_calls h hb with ⟨-, at_limit⟩ | ⟨old, mem, phase, rfl⟩
    · exact at_limit
    · exact c.dailyLimit old mem

theorem budget_consistent_start (start : DayStart day) :
    start.state.Consistent limit day where
  key _ hc := absurd hc List.not_mem_nil
  dailyLimit _ hc := absurd hc List.not_mem_nil
  counter userId := ⟨none, start.unused userId, rfl⟩
  within userId := Int.le_max_left 0 (limit userId)

theorem budget_run (start : DayStart day) (actions : List (BudgetAction day)) :
    ∀ x ∈ (budget limit day).run start.state actions, (budget limit day).Steps x ∧
      x.before.Consistent limit day ∧ x.after.Consistent limit day :=
  Machine.run_invariant (fun _ step c => budget_consistent_of_step step c)
    (budget_consistent_start start)

/-! ## What is accepted -/

theorem sumOf_mono {s : BudgetState} {userId : String} {p q : ReserveCall → Bool}
    (imp : ∀ c ∈ s.calls.rows, p c = true → q c = true) :
    s.sumOf userId p ≤ s.sumOf userId q := by
  refine List.sum_le_sum fun c hc => ?_
  have imp := imp c hc
  by_cases own : c.userId = userId
  · by_cases hp : p c = true
    · simp [ReserveCall.amount, own, hp, imp hp]
    · simpa [ReserveCall.amount, own, hp] using amount_nonneg c q
  · simp [ReserveCall.amount, own]

def BudgetState.reservedTokens (s : BudgetState) (userId : String) : Int :=
  s.sumOf userId (·.phase = .reserved)

/-- In every interleaving of the commands of one day: what a user's accepted calls have
reserved is within the limit, and while no call of the user is in progress the counter
stands at that sum. -/
theorem reservations_within_limit (limit : String → Int) (day : BudgetDay)
    (start : DayStart day) (actions : List (BudgetAction day)) :
    (∀ x ∈ (budget limit day).run start.state actions, ∀ userId,
      x.after.reservedTokens userId ≤ max 0 (limit userId)) ∧
    ∀ x ∈ (budget limit day).run start.state actions, ∀ userId,
      (∀ c ∈ x.after.calls.rows, c.userId = userId → c.done = true) →
        ∀ now, day.has now →
          Redis.count (x.after.redis.live now (budgetKey userId day.date)) =
            x.after.reservedTokens userId := by
  refine ⟨?_, ?_⟩
  · intro x hx userId
    obtain ⟨-, -, c⟩ := budget_run start actions x hx
    refine le_trans (sumOf_mono fun b _ reserved => ?_) (c.within userId)
    have reserved : b.phase = .reserved := of_decide_eq_true reserved
    simp [ReserveCall.accepts, reserved]
  · intro x hx userId idle now today
    obtain ⟨-, -, c⟩ := budget_run start actions x hx
    obtain ⟨v, steady, count⟩ := c.counter userId
    rw [steady now today, count]
    refine sumOf_congr fun b hb own => ?_
    have done := idle b hb own
    obtain ⟨_, _, _, _, _, phase⟩ := b
    cases phase with
    | reserved => rfl
    | rejected newVal => rfl
    | incrby | ttl newVal | expireat newVal | decrby newVal => cases done

/-! ## What is rejected -/

/-- The step is the `INCRBY` of the call. -/
def Increments (x : BudgetStep day) (c : ReserveCall) : Prop :=
  ∃ m, x.input = .command c.id m ∧ x.before.calls.get c.id = some c ∧ c.phase = .incrby

/-- The step is the `DECRBY` of the call, after which it raises. -/
def Raises (x : BudgetStep day) (c : ReserveCall) : Prop :=
  ∃ m newVal, x.input = .command c.id m ∧ x.before.calls.get c.id = some c ∧
    c.phase = .decrby newVal

/-- A call that the step rejects has no room beside what is accepted. -/
def RejectsRightly (limit : String → Int) (x : BudgetStep day) : Prop :=
  ∀ c, Increments x c → x.label.overshoots = true →
    limit c.userId < x.before.sumOf c.userId ReserveCall.accepts + c.estimatedTokens

/-- No call finds that it has room beside what is accepted, but not beside that and
what is still to be taken back. -/
def Unhindered (limit : String → Int) (x : BudgetStep day) : Prop :=
  ∀ c, Increments x c →
    ¬ (x.before.sumOf c.userId ReserveCall.accepts + c.estimatedTokens ≤ limit c.userId ∧
      limit c.userId < x.before.sumOf c.userId ReserveCall.accepts +
        x.before.sumOf c.userId ReserveCall.overshoots + c.estimatedTokens)

theorem label_of_command {x : BudgetStep day} (h : (budget limit day).Steps x) {id : Nat}
    {m : Moment day} {c : ReserveCall} (input : x.input = .command id m)
    (found : x.before.calls.get id = some c) : x.label = (c.command x.before.redis m.now).2 := by
  obtain ⟨s, a, label, s'⟩ := x
  have moves : BudgetMove limit s a label s' := budget_moves h
  cases moves with
  | called => cases input
  | commanded here =>
    cases input
    have same : some _ = some c := here.symm.trans found
    cases same
    rfl

theorem incrby_overshoots {redis : Redis.Store (List Char)} {m : Moment day} {c : ReserveCall}
    {v : Option Redis.Value} (steady : redis.Steady day.has c.key v)
    (first : c.phase = .incrby) :
    (c.command redis m.now).2.overshoots =
      decide (c.dailyLimit < Redis.count v + c.estimatedTokens) := by
  unfold ReserveCall.command
  rw [first]
  simp only [ReserveCall.overshoots]
  rw [Redis.Store.incrby_snd steady m.has]

theorem rejectsRightly_iff_of_step {x : BudgetStep day} (h : (budget limit day).Steps x)
    (c : x.before.Consistent limit day) : RejectsRightly limit x ↔ Unhindered limit x := by
  refine forall_congr' fun b => ?_
  have answer : Increments x b → (x.label.overshoots = true ↔
      limit b.userId < x.before.sumOf b.userId ReserveCall.accepts +
        x.before.sumOf b.userId ReserveCall.overshoots + b.estimatedTokens) := by
    rintro ⟨m, input, found, first⟩
    have mem := (Table.get_mem found).1
    obtain ⟨v, steady, count⟩ := c.counter b.userId
    rw [← c.key b mem] at steady
    rw [label_of_command h input found, incrby_overshoots steady first, c.dailyLimit b mem,
      decide_eq_true_iff, count, sumOf_counted]
  refine ⟨?_, ?_⟩
  · rintro right increments ⟨room, none⟩
    have := right increments ((answer increments).mpr none)
    omega
  · intro unhindered increments overshoots
    have := unhindered increments
    have := (answer increments).mp overshoots
    omega

theorem command_overshoots {redis : Redis.Store (List Char)} {now : Instant} {c : ReserveCall}
    (later : c.phase ≠ .incrby) (h : (c.command redis now).2.overshoots = true) :
    c.overshoots = true := by
  have moves := command_moves redis now c
  generalize c.command redis now = next at moves h
  cases moves with
  | incrby at_phase => exact absurd at_phase later
  | @expires newVal at_phase | @expireat newVal at_phase =>
    unfold ReserveCall.compare at h
    split at h
    · next above => simpa [ReserveCall.overshoots, at_phase] using above
    · cases h
  | ttl at_phase =>
    simpa [ReserveCall.overshoots, at_phase] using h
  | decrby => cases h
  | done => exact h

/-- The call was rejected by the answer of its `INCRBY`. -/
def Answered (past : List (BudgetStep day)) (c : ReserveCall) : Prop :=
  ∃ y ∈ past, Increments y { c with phase := .incrby } ∧ y.label.overshoots = true

theorem answered_of_step {past : List (BudgetStep day)} {x : BudgetStep day}
    (h : (budget limit day).Steps x)
    (answered : ∀ c ∈ x.before.calls.rows, c.overshoots = true → Answered past c) :
    ∀ c ∈ x.after.calls.rows, c.overshoots = true → Answered (past ++ [x]) c := by
  have before : ∀ c, Answered past c → Answered (past ++ [x]) c :=
    fun c ⟨y, hy, rest⟩ => ⟨y, List.mem_append_left _ hy, rest⟩
  obtain ⟨s, a, label, s'⟩ := x
  have moves : BudgetMove limit s a label s' := budget_moves h
  intro c hc overshoots
  cases moves with
  | called insert =>
    rcases Table.of_mem_insert insert hc with rfl | old
    · cases overshoots
    · exact before c (answered c old overshoots)
  | @commanded id m b found =>
    obtain ⟨mem, rfl⟩ := Table.get_mem found
    rcases Table.of_mem_modify found (command_id s.redis m.now) hc with rfl | ⟨old, -⟩
    · obtain ⟨phase, same⟩ := command_same s.redis m.now b
      by_cases first : b.phase = .incrby
      · refine ⟨_, List.mem_append_right _ List.mem_cons_self, ?_, overshoots⟩
        have here : { (b.command s.redis m.now).2 with phase := .incrby } = b := by
          rw [same, ← first]
        rw [here]
        exact ⟨m, rfl, found, first⟩
      · obtain ⟨y, hy, increments, rest⟩ := answered b mem (command_overshoots first overshoots)
        refine ⟨y, List.mem_append_left _ hy, ?_, rest⟩
        rw [same]
        exact increments
    · exact before c (answered c old overshoots)

theorem accepts_of_step {x : BudgetStep day} (h : (budget limit day).Steps x) {id : Nat}
    (accepts : ∃ c ∈ x.before.calls.rows, c.id = id ∧ c.accepts = true) :
    ∃ c ∈ x.after.calls.rows, c.id = id ∧ c.accepts = true := by
  obtain ⟨s, a, label, s'⟩ := x
  have moves : BudgetMove limit s a label s' := budget_moves h
  obtain ⟨c, hc, at_id, accepts⟩ := accepts
  cases moves with
  | called insert => exact ⟨c, Table.mem_insert_of_mem insert hc, at_id, accepts⟩
  | @commanded id' m b found =>
    obtain ⟨mem, at_id'⟩ := Table.get_mem found
    by_cases here : c.id = id'
    · have same := s.calls.eq_of_key hc mem (here.trans at_id'.symm)
      rw [same] at accepts at_id
      refine ⟨_, Table.mem_modify_self found (command_id s.redis m.now), ?_, ?_⟩
      · exact (command_id s.redis m.now b).trans at_id
      · rw [command_accepts, accepts]
        intro first
        simp [ReserveCall.accepts, first] at accepts
    · exact ⟨c, Table.mem_modify_of_ne (command_id s.redis m.now) hc here, at_id, accepts⟩

/-- In every interleaving of the commands of one day: an answer that rejects a call is
right exactly when the call is unhindered. Where all are, every call that raises had no
room, at its `INCRBY`, beside the calls that were accepted by then; and these stay
accepted. -/
theorem rejections_right_iff (limit : String → Int) (day : BudgetDay) (start : DayStart day)
    (actions : List (BudgetAction day)) :
    (∀ x ∈ (budget limit day).run start.state actions,
      RejectsRightly limit x ↔ Unhindered limit x) ∧
    ((∀ x ∈ (budget limit day).run start.state actions, Unhindered limit x) →
      ∀ past x later, (budget limit day).run start.state actions = past ++ x :: later →
        ∀ c, Raises x c → ∃ y ∈ past, Increments y { c with phase := .incrby } ∧
          limit c.userId <
            y.before.sumOf c.userId ReserveCall.accepts + c.estimatedTokens) ∧
    ∀ id, Machine.Since
      (fun x => ∃ c ∈ x.after.calls.rows, c.id = id ∧ c.accepts = true)
      (fun y => ∃ c ∈ y.after.calls.rows, c.id = id ∧ c.accepts = true)
      ((budget limit day).run start.state actions) := by
  have agree : ∀ x ∈ (budget limit day).run start.state actions,
      RejectsRightly limit x ↔ Unhindered limit x := by
    intro x hx
    obtain ⟨step, c, -⟩ := budget_run start actions x hx
    exact rejectsRightly_iff_of_step step c
  refine ⟨agree, ?_, ?_⟩
  · rintro unhindered past x later split c ⟨m, newVal, -, found, at_decrby⟩
    obtain ⟨-, answered⟩ := Machine.history_invariant
      (I := fun past s => ∀ c ∈ s.calls.rows, c.overshoots = true → Answered past c)
      (fun past x step answered => answered_of_step step answered)
      (fun c hc => absurd hc List.not_mem_nil) past x later split
    have overshoots : c.overshoots = true := by simp [ReserveCall.overshoots, at_decrby]
    obtain ⟨y, hy, increments, rejects⟩ := answered c (Table.get_mem found).1 overshoots
    have ran : y ∈ (budget limit day).run start.state actions := by
      rw [split]
      exact List.mem_append_left _ hy
    have right := (agree y ran).mpr (unhindered y ran) _ increments rejects
    exact ⟨y, hy, increments, right⟩
  · intro id
    exact Machine.since_of_invariant (I := fun _ => True) (R := fun _ => True)
      (J := fun s => ∃ c ∈ s.calls.rows, c.id = id ∧ c.accepts = true)
      (fun _ _ _ => trivial) (fun _ _ _ here => here)
      (fun x step _ here _ => ⟨accepts_of_step step here, accepts_of_step step here⟩)
      trivial fun _ _ => trivial

/-! ## A rejected estimate in the way -/

/-- The first of January of the year 2000 -/
def newYear : BudgetDay := ⟨730425, 730425⟩

def newYearNoon : Moment newYear where
  now := ⟨730425 * 86400000000 + 43200000000, by decide⟩
  tz := .utc
  date := by decide
  utc := by decide

/-- A second call asks for the counter before the first has taken its estimate back. -/
def crowdedRun : List (BudgetAction newYear) :=
  [.call 0 "u" 150 newYearNoon, .call 1 "u" 50 newYearNoon,
    .command 0 newYearNoon, .command 1 newYearNoon,
    .command 0 newYearNoon, .command 0 newYearNoon, .command 0 newYearNoon,
    .command 1 newYearNoon, .command 1 newYearNoon]

def DayStart.empty (day : BudgetDay) : DayStart day := ⟨.empty, fun _ _ _ => rfl⟩

/-- Both calls are rejected, though the limit leaves room for the second. -/
theorem second_call_rejected :
    ∃ x ∈ (budget (fun _ => 100) newYear).run (DayStart.empty newYear).state crowdedRun,
      (∃ c ∈ x.after.calls.rows, c.estimatedTokens = 50 ∧ c.phase = .rejected 200) ∧
        (∀ c ∈ x.after.calls.rows, c.done = true) ∧ x.after.reservedTokens "u" + 50 ≤ 100 := by
  decide +kernel

end LegionForge.Gateway
