import LegionForge.Gateway.Budget
import Mathlib.Algebra.Order.Group.Int

/-!
# The daily budget across days

A counter is named after the date of the host and expires at the end of the UTC day. A
call that nothing comes between gives the counter a value in closed form, so a sequence
of calls can be followed over any number of days: on each UTC day and each date, what
was accepted is in one counter. At an offset from UTC one UTC day has two dates, and two
counters with a limit each.
-/

namespace LegionForge.Gateway

open LegionForge.Audit (Instant UtcOffset civilDate civilDate_inj not_mem_pad pad_cons_inj)
open Delimited (pad pad_inj)

/-! ## A call alone -/

/-- The four commands of a call, at one instant. -/
def ReserveCall.alone (redis : Redis.Store (List Char)) (now : Instant) (c : ReserveCall) :
    Redis.Store (List Char) × ReserveCall :=
  let r := c.command redis now
  let r := r.2.command r.1 now
  let r := r.2.command r.1 now
  r.2.command r.1 now

/-- Whether the call returns, and does not raise -/
def redisBudgetCheckAndReserve (redis : Redis.Store (List Char)) (now : Instant)
    (tz : UtcOffset) (userId : String) (estimatedTokens : Nat) (dailyLimit : Int) :
    Redis.Store (List Char) × Bool :=
  let r := (newCall 0 userId estimatedTokens dailyLimit now tz).alone redis now
  (r.1, r.2.phase = .reserved)

theorem lt_tomorrowMidnight (now : Instant) : now.micros < tomorrowMidnight now :=
  Nat.lt_mul_of_div_lt (Nat.lt_succ_self _) (by decide)

/-- What a counter is set to by a call, from what it was. -/
def counterAfter (old : Option Redis.Value) (now : Instant) (estimatedTokens : Nat)
    (dailyLimit : Int) : Redis.Value where
  number :=
    if Redis.count old + estimatedTokens ≤ dailyLimit then Redis.count old + estimatedTokens
    else Redis.count old
  expireAt := some ((old.bind (·.expireAt)).getD (tomorrowMidnight now))

/-- A call that stays within the limit has nothing left to do, another takes its
estimate back. -/
theorem compare_command {redis : Redis.Store (List Char)} {now : Instant} {c : ReserveCall}
    {newVal : Int} {w : Redis.Value} (live : w.live now.micros = true) :
    (c.compare newVal).command (redis.set c.key w) now =
      if newVal ≤ c.dailyLimit then (redis.set c.key w, { c with phase := .reserved })
      else (redis.set c.key ⟨w.number - c.estimatedTokens, w.expireAt⟩,
        { c with phase := .rejected newVal }) := by
  unfold ReserveCall.compare
  by_cases h : newVal ≤ c.dailyLimit
  · rw [if_neg (by omega), if_pos h]
    rfl
  · rw [if_pos (by omega), if_neg h]
    simp only [ReserveCall.command, Redis.Store.decrby]
    rw [Redis.Store.incrby_set live]
    rfl

theorem command_of_done {redis : Redis.Store (List Char)} {now : Instant} {c : ReserveCall}
    (done : c.done = true) : c.command redis now = (redis, c) := by
  unfold ReserveCall.done at done
  unfold ReserveCall.command
  split <;> simp_all

/-- Alone, a call leaves the counter as it was or adds its estimate, and gives it an
expiry if it has none. -/
theorem alone_eq {redis : Redis.Store (List Char)} {now : Instant} {c : ReserveCall}
    (first : c.phase = .incrby) :
    c.alone redis now =
      (redis.set c.key (counterAfter (redis.live now.micros c.key) now c.estimatedTokens
          c.dailyLimit),
        { c with phase :=
            if Redis.count (redis.live now.micros c.key) + c.estimatedTokens ≤ c.dailyLimit
            then .reserved
            else .rejected (Redis.count (redis.live now.micros c.key) + c.estimatedTokens) }) := by
  generalize old : redis.live now.micros c.key = v
  generalize sum : Redis.count v + (c.estimatedTokens : Int) = newVal
  have step₁ : c.command redis now =
      (redis.set c.key ⟨newVal, v.bind (·.expireAt)⟩, { c with phase := .ttl newVal }) := by
    unfold ReserveCall.command
    rw [first]
    simp only [Redis.Store.incrby]
    rw [old, sum]
  unfold ReserveCall.alone counterAfter
  rw [step₁, sum]
  cases expiry : v.bind (·.expireAt) with
  | none =>
    -- the counter is new: it is given its expiry
    have step₂ : ReserveCall.command (redis.set c.key ⟨newVal, none⟩) now
        { c with phase := .ttl newVal } =
        (redis.set c.key ⟨newVal, none⟩, { c with phase := .expireat newVal }) := by
      simp only [ReserveCall.command]
      rw [Redis.Store.ttl_set rfl]
      rfl
    have step₃ : ReserveCall.command (redis.set c.key ⟨newVal, none⟩) now
        { c with phase := .expireat newVal } =
        (redis.set c.key ⟨newVal, some (tomorrowMidnight now)⟩, c.compare newVal) := by
      simp only [ReserveCall.command]
      rw [Redis.Store.expireat_set rfl]
      rfl
    have live : Redis.Value.live ⟨newVal, some (tomorrowMidnight now)⟩ now.micros = true :=
      decide_eq_true (lt_tomorrowMidnight now)
    simp only [step₂, step₃, compare_command live, Option.getD_none]
    split
    · rfl
    · next h => simp [← sum]
  | some t =>
    have later : now.micros < t := by
      cases v with
      | none => cases expiry
      | some w =>
        have expiry : w.expireAt = some t := expiry
        have live := Redis.Store.live_of_live old
        simpa [Redis.Value.live, expiry] using live
    have live : Redis.Value.live ⟨newVal, some t⟩ now.micros = true := decide_eq_true later
    have step₂ : ReserveCall.command (redis.set c.key ⟨newVal, some t⟩) now
        { c with phase := .ttl newVal } =
        (redis.set c.key ⟨newVal, some t⟩, c.compare newVal) := by
      simp only [ReserveCall.command]
      rw [Redis.Store.ttl_set live, if_neg (by simp only; omega)]
      rfl
    simp only [step₂, compare_command live, Option.getD_some]
    split
    · exact command_of_done rfl
    · rw [command_of_done rfl]
      simp [← sum]

theorem dateIsoformat_inj {d e : Nat} (h : dateIsoformat d = dateIsoformat e) : d = e := by
  obtain ⟨hy, h⟩ := pad_cons_inj rfl h
  obtain ⟨hm, h⟩ := pad_cons_inj rfl h
  exact civilDate_inj hy hm (pad_inj h)

theorem budgetKey_date_inj {userId : String} {d e : Nat}
    (h : budgetKey userId d = budgetKey userId e) : d = e := by
  have h := List.append_cancel_left (List.append_cancel_left h)
  exact dateIsoformat_inj (List.cons.inj h).2

/-- The counter a call has used holds its estimate if it was accepted. -/
theorem reserve_eq (redis : Redis.Store (List Char)) (now : Instant) (tz : UtcOffset)
    (userId : String) (estimatedTokens : Nat) (dailyLimit : Int) :
    redisBudgetCheckAndReserve redis now tz userId estimatedTokens dailyLimit =
      let key := budgetKey userId (today now tz)
      let old := redis.live now.micros key
      (redis.set key (counterAfter old now estimatedTokens dailyLimit),
        decide (Redis.count old + estimatedTokens ≤ dailyLimit)) := by
  unfold redisBudgetCheckAndReserve
  rw [alone_eq rfl]
  by_cases fits : Redis.count (redis.live now.micros (budgetKey userId (today now tz))) +
      estimatedTokens ≤ dailyLimit
  · simp [newCall, fits]
  · simp [newCall, fits]

/-! ## Calls one after another -/

structure BudgetCall where
  now : Instant
  estimatedTokens : Nat

/-- Redis, and the instant of the last call. -/
structure BudgetClock where
  redis : Redis.Store (List Char)
  clock : Nat

def BudgetClock.start : BudgetClock := ⟨.empty, 0⟩

/-- The calls of a user, at instants that do not decrease; the label is whether a call
is accepted. -/
def budgetCalls (tz : UtcOffset) (userId : String) (limit : Int) :
    Machine BudgetClock BudgetCall Bool where
  step s call :=
    if s.clock ≤ call.now.micros then
      let r := redisBudgetCheckAndReserve s.redis call.now tz userId call.estimatedTokens limit
      some (⟨r.1, call.now.micros⟩, r.2)
    else none

abbrev BudgetEntry := Machine.Entry BudgetClock BudgetCall Bool

/-- The estimate of a call that was accepted and is one of those summed. -/
def acceptedAmount (summed : BudgetCall → Bool) (x : BudgetEntry) : Int :=
  if x.label && summed x.input then x.input.estimatedTokens else 0

def acceptedSum (summed : BudgetCall → Bool) (trace : List BudgetEntry) : Int :=
  (trace.map (acceptedAmount summed)).sum

/-- What has been accepted within a UTC day -/
def acceptedOn (d : Nat) (trace : List BudgetEntry) : Int :=
  acceptedSum (fun call => utcDay call.now = d) trace

/-- What has been accepted within a UTC day, in the counter of a date -/
def acceptedIn (tz : UtcOffset) (d date : Nat) (trace : List BudgetEntry) : Int :=
  acceptedSum (fun call => utcDay call.now = d && today call.now tz = date) trace

theorem acceptedSum_concat (summed : BudgetCall → Bool) (past : List BudgetEntry)
    (x : BudgetEntry) :
    acceptedSum summed (past ++ [x]) = acceptedSum summed past + acceptedAmount summed x := by
  simp [acceptedSum]

theorem acceptedSum_of_none {summed : BudgetCall → Bool} {trace : List BudgetEntry}
    (none : ∀ x ∈ trace, x.label = true → summed x.input = true → x.input.estimatedTokens = 0) :
    acceptedSum summed trace = 0 := by
  refine List.sum_eq_zero fun n hn => ?_
  obtain ⟨x, hx, rfl⟩ := List.mem_map.mp hn
  unfold acceptedAmount
  split
  · next h =>
    obtain ⟨label, here⟩ := Bool.and_eq_true_iff.mp h
    simp [none x hx label here]
  · rfl

theorem acceptedSum_congr {p q : BudgetCall → Bool} {trace : List BudgetEntry}
    (same : ∀ x ∈ trace, p x.input = q x.input) : acceptedSum p trace = acceptedSum q trace := by
  refine congrArg List.sum (List.map_congr_left fun x hx => ?_)
  rw [acceptedAmount, acceptedAmount, same x hx]

/-- A single call is part of the sum. -/
theorem le_acceptedSum {summed : BudgetCall → Bool} {trace : List BudgetEntry}
    {x : BudgetEntry} (hx : x ∈ trace) (label : x.label = true)
    (here : summed x.input = true) :
    (x.input.estimatedTokens : Int) ≤ acceptedSum summed trace := by
  have nonneg : ∀ n ∈ trace.map (acceptedAmount summed), 0 ≤ n := by
    intro n hn
    obtain ⟨y, -, rfl⟩ := List.mem_map.mp hn
    unfold acceptedAmount
    split <;> omega
  have part := List.single_le_sum nonneg _ (List.mem_map_of_mem hx)
  rwa [acceptedAmount, label, here, Bool.and_self, if_pos rfl] at part

structure DaysCounted (tz : UtcOffset) (userId : String) (limit : Int)
    (past : List BudgetEntry) (s : BudgetClock) : Prop where
  /-- Counters are not negative, and expire at a midnight, at the latest the next. -/
  value : ∀ key v, s.redis.entry key = some v →
    0 ≤ v.number ∧ ∃ d, v.expireAt = some (d * dayMicros) ∧ d ≤ s.clock / dayMicros + 1
  clock : ∀ x ∈ past, x.input.now.micros ≤ s.clock
  counted : ∀ date, acceptedIn tz (s.clock / dayMicros) date past ≤
    Redis.count (s.redis.live s.clock (budgetKey userId date))
  within : ∀ d date, acceptedIn tz d date past ≤ max 0 limit

/-- A counter that expires at a midnight lasts for all of a day or for none of it. -/
theorem live_same_day {redis : Redis.Store (List Char)} {key : List Char}
    (midnight : ∀ v, redis.entry key = some v → ∃ d, v.expireAt = some (d * dayMicros))
    {t u : Nat} (same : t / dayMicros = u / dayMicros) : redis.live t key = redis.live u key := by
  unfold Redis.Store.live
  cases found : redis.entry key with
  | none => rfl
  | some v =>
    obtain ⟨d, expiry⟩ := midnight v found
    have agree : v.live t = v.live u := by
      unfold Redis.Value.live
      rw [expiry]
      refine decide_eq_decide.mpr ?_
      rw [← Nat.div_lt_iff_lt_mul (by decide), ← Nat.div_lt_iff_lt_mul (by decide), same]
    rw [Option.filter_some, Option.filter_some, agree]

theorem counterAfter_value {old : Option Redis.Value} {now : Instant} {estimatedTokens : Nat}
    {limit : Int} (nonneg : 0 ≤ Redis.count old)
    (expires : ∀ v, old = some v → ∃ d, v.expireAt = some (d * dayMicros) ∧ d ≤ utcDay now + 1) :
    0 ≤ (counterAfter old now estimatedTokens limit).number ∧
      ∃ d, (counterAfter old now estimatedTokens limit).expireAt = some (d * dayMicros) ∧
        d ≤ utcDay now + 1 := by
  refine ⟨?_, ?_⟩
  · unfold counterAfter
    simp only
    split <;> omega
  · cases old with
    | none => exact ⟨_, rfl, Nat.le_refl _⟩
    | some v =>
      obtain ⟨d, expiry, le⟩ := expires v rfl
      refine ⟨d, ?_, le⟩
      simp [counterAfter, expiry]

variable {tz : UtcOffset} {userId : String} {limit : Int}

/-- What a step can do. -/
theorem budgetCalls_step {x : BudgetEntry} (h : (budgetCalls tz userId limit).Steps x) :
    x.before.clock ≤ x.input.now.micros ∧
      ∃ old, x.before.redis.live x.input.now.micros
          (budgetKey userId (today x.input.now tz)) = old ∧
        x.after = ⟨x.before.redis.set (budgetKey userId (today x.input.now tz))
          (counterAfter old x.input.now x.input.estimatedTokens limit), x.input.now.micros⟩ ∧
        x.label = decide (Redis.count old + x.input.estimatedTokens ≤ limit) := by
  obtain ⟨s, call, label, s'⟩ := x
  obtain ⟨later, h⟩ := Option.ite_none_right_eq_some.mp h
  simp only [reserve_eq, Option.some.injEq, Prod.mk.injEq] at h
  exact ⟨later, _, rfl, h.1.symm, h.2.symm⟩

theorem counterAfter_live {redis : Redis.Store (List Char)} {now : Instant} {key : List Char}
    {estimatedTokens : Nat} :
    (counterAfter (redis.live now.micros key) now estimatedTokens limit).live now.micros =
      true := by
  refine decide_eq_true ?_
  cases old : redis.live now.micros key with
  | none => exact lt_tomorrowMidnight now
  | some v =>
    have live := Redis.Store.live_of_live old
    obtain ⟨number, expireAt⟩ := v
    cases expireAt with
    | none => exact lt_tomorrowMidnight now
    | some t => exact of_decide_eq_true live

theorem count_counterAfter {old : Option Redis.Value} {now : Instant} {estimatedTokens : Nat} :
    Redis.count (some (counterAfter old now estimatedTokens limit)) =
      Redis.count old +
        if Redis.count old + estimatedTokens ≤ limit then (estimatedTokens : Int) else 0 := by
  show (counterAfter old now estimatedTokens limit).number = _
  unfold counterAfter
  simp only
  split <;> omega

theorem count_live_nonneg {redis : Redis.Store (List Char)}
    (nonneg : ∀ key v, redis.entry key = some v → 0 ≤ v.number) (now : Nat) (key : List Char) :
    0 ≤ Redis.count (redis.live now key) := by
  cases found : redis.live now key with
  | none => exact Int.le_refl 0
  | some v => exact nonneg key v (Option.filter_eq_some_iff.mp found).1

/-- At the instant of the next call the counters still hold what is accepted on its day. -/
theorem counted_later {past : List BudgetEntry} {s : BudgetClock}
    (c : DaysCounted tz userId limit past s) {now : Instant} (later : s.clock ≤ now.micros)
    (date : Nat) :
    acceptedIn tz (utcDay now) date past ≤
      Redis.count (s.redis.live now.micros (budgetKey userId date)) := by
  have days : s.clock / dayMicros ≤ utcDay now := Nat.div_le_div_right later
  by_cases same : s.clock / dayMicros = utcDay now
  · have midnight : ∀ v, s.redis.entry (budgetKey userId date) = some v →
        ∃ d, v.expireAt = some (d * dayMicros) := by
      intro v found
      obtain ⟨-, d, expiry, -⟩ := c.value _ v found
      exact ⟨d, expiry⟩
    rw [← same, ← live_same_day midnight same]
    exact c.counted date
  · -- a new day: its counters have just expired, and nothing has been accepted
    have none : acceptedIn tz (utcDay now) date past = 0 := by
      refine acceptedSum_of_none fun x hx _ here => ?_
      have here : utcDay x.input.now = utcDay now := by
        simp only [Bool.and_eq_true, decide_eq_true_eq] at here
        exact here.1
      have before : utcDay x.input.now ≤ s.clock / dayMicros :=
        Nat.div_le_div_right (c.clock x hx)
      omega
    rw [none]
    exact count_live_nonneg (fun key v found => (c.value key v found).1) _ _

theorem daysCounted_of_step {past : List BudgetEntry} {x : BudgetEntry}
    (h : (budgetCalls tz userId limit).Steps x)
    (c : DaysCounted tz userId limit past x.before) :
    DaysCounted tz userId limit (past ++ [x]) x.after := by
  obtain ⟨later, old, at_key, after, label⟩ := budgetCalls_step h
  obtain ⟨s, ⟨now, estimatedTokens⟩, accepted, s'⟩ := x
  simp only at later at_key after label c
  subst after
  have days : s.clock / dayMicros ≤ utcDay now := Nat.div_le_div_right later
  have counted := counted_later c later
  refine ⟨?_, ?_, ?_, ?_⟩
  · intro key v found
    show _ ∧ ∃ d, _ ∧ d ≤ utcDay now + 1
    by_cases here : key = budgetKey userId (today now tz)
    · have found : some (counterAfter old now estimatedTokens limit) = some v := by
        rw [← found, Redis.Store.set, here]
        exact (if_pos rfl).symm
      cases found
      rw [← at_key]
      refine counterAfter_value ?_ ?_
      · exact count_live_nonneg (fun key v found => (c.value key v found).1) _ _
      · intro v live
        obtain ⟨-, d, expiry, le⟩ := c.value _ v (Option.filter_eq_some_iff.mp live).1
        exact ⟨d, expiry, by omega⟩
    · have found : s.redis.entry key = some v := by
        rw [← found, Redis.Store.set]
        exact (if_neg here).symm
      obtain ⟨nonneg, d, expiry, le⟩ := c.value key v found
      exact ⟨nonneg, d, expiry, by omega⟩
  · intro y hy
    rcases List.mem_append.mp hy with old | new
    · exact Nat.le_trans (c.clock y old) later
    · rw [List.mem_singleton.mp new]
  · intro date
    have before := counted date
    show acceptedIn tz (utcDay now) date _ ≤ _
    unfold acceptedIn at before ⊢
    rw [acceptedSum_concat]
    unfold acceptedAmount
    by_cases here : date = today now tz
    · subst here
      simp only
      rw [← at_key, Redis.Store.live_set_self counterAfter_live, at_key, count_counterAfter, label]
      rw [at_key] at before
      simp only [decide_true, Bool.and_true, decide_eq_true_eq]
      omega
    · have other : budgetKey userId date ≠ budgetKey userId (today now tz) :=
        fun same => here (budgetKey_date_inj same)
      have elsewhere : ¬ today now tz = date := fun same => here same.symm
      simp only
      rw [Redis.Store.live_set_of_ne other]
      simpa [elsewhere] using before
  · intro d date
    have before := c.within d date
    unfold acceptedIn at before ⊢
    rw [acceptedSum_concat]
    unfold acceptedAmount
    by_cases fits : accepted = true ∧ utcDay now = d ∧ today now tz = date
    · obtain ⟨accepted, rfl, rfl⟩ := fits
      have counted := counted (today now tz)
      rw [accepted] at label
      have fits := of_decide_eq_true label.symm
      rw [at_key] at counted
      unfold acceptedIn at counted
      simp only [accepted, decide_true, Bool.and_self, if_true]
      omega
    · have none :
          (accepted && (decide (utcDay now = d) && decide (today now tz = date))) = false := by
        simpa using fits
      simp only [none]
      simpa using before

theorem daysCounted_start : DaysCounted tz userId limit [] .start where
  value _ _ found := nomatch found
  clock _ hx := absurd hx List.not_mem_nil
  counted _ := Int.le_refl 0
  within _ _ := Int.le_max_left 0 limit

theorem days_counted (tz : UtcOffset) (userId : String) (limit : Int) (calls : List BudgetCall) :
    ∃ s, DaysCounted tz userId limit ((budgetCalls tz userId limit).run .start calls) s :=
  Machine.history_run (fun _ _ step c => daysCounted_of_step step c) daysCounted_start

/-! ## One UTC day, two dates -/

/-- On a day whose calls all have one date, the limit holds. -/
theorem acceptedOn_le_of_one_date {calls : List BudgetCall} {d : Nat}
    (one : ∀ x ∈ (budgetCalls tz userId limit).run .start calls,
      ∀ y ∈ (budgetCalls tz userId limit).run .start calls, utcDay x.input.now = d →
        utcDay y.input.now = d → today x.input.now tz = today y.input.now tz) :
    acceptedOn d ((budgetCalls tz userId limit).run .start calls) ≤ max 0 limit := by
  obtain ⟨s, counted⟩ := days_counted tz userId limit calls
  generalize (budgetCalls tz userId limit).run .start calls = trace at one counted
  by_cases some_call : ∃ x ∈ trace, utcDay x.input.now = d
  · obtain ⟨x, hx, on_day⟩ := some_call
    refine Int.le_trans (Int.le_of_eq ?_) (counted.within d (today x.input.now tz))
    refine acceptedSum_congr fun y hy => ?_
    by_cases here : utcDay y.input.now = d
    · simp [here, one y hy x hx here on_day]
    · simp [here]
  · have none : acceptedOn d trace = 0 := by
      refine acceptedSum_of_none fun x hx _ here => ?_
      exact absurd ⟨x, hx, of_decide_eq_true here⟩ some_call
    rw [none]
    exact Int.le_max_left 0 limit

theorem acceptedOn_of_limit_le {calls : List BudgetCall} {d : Nat} (none : limit ≤ 0) :
    acceptedOn d ((budgetCalls tz userId limit).run .start calls) ≤ max 0 limit := by
  obtain ⟨s, counted⟩ := days_counted tz userId limit calls
  rw [acceptedOn, acceptedSum_of_none]
  · exact Int.le_max_left 0 limit
  · intro x hx accepted _
    have part : x.input.estimatedTokens ≤
        acceptedIn tz (utcDay x.input.now) (today x.input.now tz) _ :=
      le_acceptedSum hx accepted (by simp)
    have within := counted.within (utcDay x.input.now) (today x.input.now tz)
    omega

theorem today_utc (now : Instant) (utc : tz.seconds = 0) : today now tz = utcDay now := by
  unfold today Instant.localMicros utcDay
  rw [utc]
  simp

/-- The two ends of a UTC day -/
def firstOfDay : Instant := ⟨730425 * 86400000000, by decide⟩

def lastOfDay : Instant := ⟨730426 * 86400000000 - 1, by decide⟩

theorem two_dates (offset : tz.seconds ≠ 0) : today firstOfDay tz ≠ today lastOfDay tz := by
  have bound := tz.bound
  unfold today Instant.localMicros firstOfDay lastOfDay dayMicros
  simp only
  omega

theorem step_of_fits {redis : Redis.Store (List Char)} {clock : Nat} {now : Instant} {n : Nat}
    {v : Option Redis.Value} (later : clock ≤ now.micros)
    (at_key : redis.live now.micros (budgetKey userId (today now tz)) = v)
    (fits : Redis.count v + n ≤ limit) :
    (budgetCalls tz userId limit).step ⟨redis, clock⟩ ⟨now, n⟩ =
      some (⟨redis.set (budgetKey userId (today now tz)) (counterAfter v now n limit),
        now.micros⟩, true) := by
  simp only [budgetCalls, reserve_eq]
  rw [if_pos later, at_key, decide_eq_true fits]

/-- At an offset from UTC the limit can be used twice within a day. -/
theorem acceptedOn_two_dates (offset : tz.seconds ≠ 0) (n : Nat) :
    acceptedOn 730425 ((budgetCalls tz userId n).run .start
      [⟨firstOfDay, n⟩, ⟨lastOfDay, n⟩]) = n + n := by
  have other : budgetKey userId (today lastOfDay tz) ≠ budgetKey userId (today firstOfDay tz) :=
    fun same => two_dates offset (budgetKey_date_inj same).symm
  have fits : Redis.count none + (n : Int) ≤ n := by simp [Redis.count]
  have ordered : firstOfDay.micros ≤ lastOfDay.micros := by decide
  rw [BudgetClock.start,
    Machine.run_cons_of_step (step_of_fits (v := none) (Nat.zero_le _) rfl fits),
    Machine.run_cons_of_step
      (step_of_fits (v := none) ordered (Redis.Store.live_set_of_ne other) fits), Machine.run]
  have first : utcDay firstOfDay = 730425 := by decide
  have last : utcDay lastOfDay = 730425 := by decide
  simp [acceptedOn, acceptedSum, acceptedAmount, first, last]

/-- For every offset of the host: the calls of every sequence keep each UTC day within the
limit exactly when the host is at UTC, or there is nothing to be had. At any offset, a
UTC day is within the limit if its calls have one date. -/
theorem budget_per_day_iff (tz : UtcOffset) (userId : String) (limit : Int) :
    ((∀ calls d, acceptedOn d ((budgetCalls tz userId limit).run .start calls) ≤ max 0 limit) ↔
      tz.seconds = 0 ∨ limit ≤ 0) ∧
    ∀ calls d,
      (∀ x ∈ (budgetCalls tz userId limit).run .start calls,
        ∀ y ∈ (budgetCalls tz userId limit).run .start calls, utcDay x.input.now = d →
          utcDay y.input.now = d → today x.input.now tz = today y.input.now tz) →
      acceptedOn d ((budgetCalls tz userId limit).run .start calls) ≤ max 0 limit := by
  refine ⟨⟨?_, ?_⟩, fun calls d one => acceptedOn_le_of_one_date one⟩
  · intro within
    by_contra neither
    obtain ⟨offset, positive⟩ := not_or.mp neither
    obtain ⟨n, rfl⟩ := Int.eq_ofNat_of_zero_le (show 0 ≤ limit by omega)
    have both := within [⟨firstOfDay, n⟩, ⟨lastOfDay, n⟩] 730425
    rw [acceptedOn_two_dates offset] at both
    omega
  · rintro (utc | none) calls d
    · refine acceptedOn_le_of_one_date fun x _ y _ on_x on_y => ?_
      rw [today_utc _ utc, today_utc _ utc, on_x, on_y]
    · exact acceptedOn_of_limit_le none

/-- An hour ahead of UTC, with a limit of 100 -/
theorem budget_used_twice :
    acceptedOn 730425 ((budgetCalls ⟨3600, by decide⟩ "u" 100).run .start
      [⟨firstOfDay, 100⟩, ⟨lastOfDay, 100⟩]) = 200 := by
  decide +kernel

end LegionForge.Gateway
