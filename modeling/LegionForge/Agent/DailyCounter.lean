import LegionForge.Lib.Machine
import LegionForge.Lib.Table
import Mathlib.Algebra.Ring.Int.Defs

/-!
# The token budget of a process

A provider's `DailyCounter` holds the tokens recorded today and those reserved by the calls
inside `guard`. Each of its methods runs under one lock and awaits nothing in it, so a step
here is one method. The first of them that reads a new date sets both numbers to zero, also
with calls in flight, and when these are released their estimates come off the
reservations of other calls. `reserved_tokens_iff` says that this is all that goes wrong:
the reservations are right for as long as nothing is in flight when a new date is read.
-/

namespace LegionForge.Agent

/-- The limits of a provider that raise. -/
structure ProviderLimits where
  maxTokensPerCall : Int
  tokensPerDayHardLimit : Int

/-- `date_str` is empty at first; a date is known by its number. -/
structure DailyCounter where
  date : Option Nat
  totalTokens : Int
  totalCalls : Nat
  reservedTokens : Int

def DailyCounter.new : DailyCounter := ⟨none, 0, 0, 0⟩

def DailyCounter.resetIfNewDay (c : DailyCounter) (today : Nat) : DailyCounter :=
  if c.date ≠ some today then ⟨some today, 0, 0, 0⟩ else c

/-- The check of `check_and_reserve`, on the counter of the day -/
def DailyCounter.fits (c : DailyCounter) (limits : ProviderLimits) (estimatedTokens : Int) :
    Bool :=
  c.totalTokens + c.reservedTokens + estimatedTokens ≤ limits.tokensPerDayHardLimit

/-- `check_and_reserve`, and whether it returns. -/
def DailyCounter.checkAndReserve (c : DailyCounter) (limits : ProviderLimits)
    (estimatedTokens : Int) (today : Nat) : DailyCounter × Bool :=
  let c := c.resetIfNewDay today
  if c.fits limits estimatedTokens then
    ({ c with reservedTokens := c.reservedTokens + estimatedTokens }, true)
  else (c, false)

def DailyCounter.releaseReservation (c : DailyCounter) (estimatedTokens : Int) : DailyCounter :=
  { c with reservedTokens := max 0 (c.reservedTokens - estimatedTokens) }

def DailyCounter.add (c : DailyCounter) (tokens : Int) (today : Nat) : DailyCounter :=
  let c := c.resetIfNewDay today
  { c with totalTokens := c.totalTokens + tokens, totalCalls := c.totalCalls + 1 }

/-! ## Calls -/

/-- A call of `guard` that was let in. -/
structure GuardCall where
  id : Nat
  estimatedTokens : Int
  released : Bool

def GuardCall.amount (c : GuardCall) : Int := if c.released then 0 else c.estimatedTokens

structure RateLimiter where
  daily : DailyCounter
  calls : Table GuardCall.id

def RateLimiter.new : RateLimiter := ⟨.new, .empty⟩

/-- What is admitted and not yet released. -/
def RateLimiter.inFlight (s : RateLimiter) : Int := (s.calls.rows.map GuardCall.amount).sum

inductive LimiterAction where
  | guard (id : Nat) (estimatedTokens : Int) (today : Nat)
  /-- `guard` is left, by a return or an error. -/
  | release (id : Nat)
  /-- `record_actual_usage` -/
  | recordUsage (tokens : Int) (today : Nat)
  /-- `_check_soft_alerts`, `get_daily_status` and `preflight_budget_check` -/
  | look (today : Nat)

def releaseCall (c : GuardCall) : GuardCall := { c with released := true }

/-- `_check_per_call_limit` and the check of the day -/
def RateLimiter.admits (limits : ProviderLimits) (s : RateLimiter) (estimatedTokens : Int)
    (today : Nat) : Bool :=
  estimatedTokens ≤ limits.maxTokensPerCall &&
    (s.daily.resetIfNewDay today).fits limits estimatedTokens

/-- The label is whether a call was let in. -/
def RateLimiter.step (limits : ProviderLimits) (s : RateLimiter) :
    LimiterAction → Option (RateLimiter × Bool)
  | .guard id estimatedTokens today =>
    if limits.maxTokensPerCall < estimatedTokens then some (s, false)
    else
      match s.daily.checkAndReserve limits estimatedTokens today with
      | (daily, false) => some ({ s with daily }, false)
      | (daily, true) =>
        (s.calls.insert ⟨id, estimatedTokens, false⟩).map fun calls => (⟨daily, calls⟩, true)
  | .release id =>
    (s.calls.get id).bind fun c =>
      if c.released then none
      else some (⟨s.daily.releaseReservation c.estimatedTokens,
        s.calls.modify id releaseCall fun _ => rfl⟩, false)
  | .recordUsage tokens today => some ({ s with daily := s.daily.add tokens today }, false)
  | .look today => some ({ s with daily := s.daily.resetIfNewDay today }, false)

def limiter (limits : ProviderLimits) : Machine RateLimiter LimiterAction Bool where
  step s a := s.step limits a

abbrev LimiterStep := Machine.Entry RateLimiter LimiterAction Bool

/-! ## What is to hold -/

/-- The reservations are the estimates of the calls in flight. -/
structure RateLimiter.Accounts (s : RateLimiter) : Prop where
  exact : s.daily.reservedTokens = s.inFlight
  nonneg : 0 ≤ s.daily.reservedTokens

/-- The date is not the counter's. -/
def RateLimiter.turns (s : RateLimiter) (today : Nat) : Prop := s.daily.date ≠ some today

/-- No new date is read while anything is in flight, and what is in flight never sums to
less than zero. -/
def Orderly (limits : ProviderLimits) (s : RateLimiter) : LimiterAction → Prop
  | .guard _ estimatedTokens today =>
    (estimatedTokens ≤ limits.maxTokensPerCall → s.turns today → s.inFlight = 0) ∧
      (s.admits limits estimatedTokens today = true → 0 ≤ s.inFlight + estimatedTokens)
  | .release id =>
    ∀ c, s.calls.get id = some c → c.released = false → 0 ≤ s.inFlight - c.estimatedTokens
  | .recordUsage _ today | .look today => s.turns today → s.inFlight = 0

/-- The clock does not go back behind the date of the counter. -/
def Forward (s : RateLimiter) : LimiterAction → Prop
  | .guard _ _ today | .recordUsage _ today | .look today => ∀ d ∈ s.daily.date, d ≤ today
  | .release _ => True

/-- The tokens that were recorded on the day. -/
def recordedOn (day : Nat) (past : List LimiterStep) : Int :=
  (past.map fun x => match x.input with
    | .recordUsage tokens today => if today = day then tokens else 0
    | _ => 0).sum

section
variable {limits : ProviderLimits} {s s' : RateLimiter}

/-! ## What a step can do -/

inductive LimiterMove (limits : ProviderLimits) (s : RateLimiter) :
    LimiterAction → RateLimiter → Bool → Prop
  | tooLarge {id today : Nat} {estimatedTokens : Int}
      (exceeds : limits.maxTokensPerCall < estimatedTokens) :
      LimiterMove limits s (.guard id estimatedTokens today) s false
  | refused {id today : Nat} {estimatedTokens : Int}
      (within : estimatedTokens ≤ limits.maxTokensPerCall)
      (full : s.admits limits estimatedTokens today = false) :
      LimiterMove limits s (.guard id estimatedTokens today)
        { s with daily := s.daily.resetIfNewDay today } false
  | admitted {id today : Nat} {estimatedTokens : Int} {calls : Table GuardCall.id}
      (within : estimatedTokens ≤ limits.maxTokensPerCall)
      (admits : s.admits limits estimatedTokens today = true)
      (insert : s.calls.insert ⟨id, estimatedTokens, false⟩ = some calls) :
      LimiterMove limits s (.guard id estimatedTokens today)
        ⟨{ s.daily.resetIfNewDay today with
            reservedTokens := (s.daily.resetIfNewDay today).reservedTokens + estimatedTokens },
          calls⟩ true
  | released {id : Nat} {c : GuardCall} (found : s.calls.get id = some c)
      (holds : c.released = false) :
      LimiterMove limits s (.release id)
        ⟨s.daily.releaseReservation c.estimatedTokens,
          s.calls.modify id releaseCall fun _ => rfl⟩ false
  | recorded {tokens : Int} {today : Nat} :
      LimiterMove limits s (.recordUsage tokens today)
        { s with daily := s.daily.add tokens today } false
  | looked {today : Nat} :
      LimiterMove limits s (.look today)
        { s with daily := s.daily.resetIfNewDay today } false

theorem limiter_moves {x : LimiterStep} (h : (limiter limits).Steps x) :
    LimiterMove limits x.before x.input x.after x.label := by
  obtain ⟨s, a, label, s'⟩ := x
  have h : s.step limits a = some (s', label) := h
  cases a with
  | guard id estimatedTokens today =>
    simp only [RateLimiter.step, DailyCounter.checkAndReserve] at h
    split at h
    · next exceeds =>
      cases h
      exact .tooLarge exceeds
    · next within =>
      have within := Int.not_lt.mp within
      by_cases fits : (s.daily.resetIfNewDay today).fits limits estimatedTokens = true
      · rw [if_pos fits] at h
        obtain ⟨calls, insert, same⟩ := Option.map_eq_some_iff.mp h
        cases same
        exact .admitted within (by simp [RateLimiter.admits, within, fits]) insert
      · rw [if_neg fits] at h
        cases h
        rw [Bool.not_eq_true] at fits
        exact .refused within (by simp [RateLimiter.admits, fits])
  | release id =>
    obtain ⟨c, found, h⟩ := Option.bind_eq_some_iff.mp h
    obtain ⟨holds, h⟩ := Option.ite_none_left_eq_some.mp h
    cases h
    exact .released found (by simpa using holds)
  | recordUsage tokens today =>
    cases h
    exact .recorded
  | look today =>
    cases h
    exact .looked

/-! ## The reservations -/

theorem resetIfNewDay_of_turns {today : Nat} (h : s.turns today) :
    s.daily.resetIfNewDay today = ⟨some today, 0, 0, 0⟩ := if_pos h

theorem resetIfNewDay_of_not_turns {today : Nat} (h : ¬ s.turns today) :
    s.daily.resetIfNewDay today = s.daily := if_neg h

/-- A reset loses nothing exactly when it finds nothing in flight. -/
theorem reserved_reset_iff (acc : s.Accounts) (today : Nat) :
    (s.daily.resetIfNewDay today).reservedTokens = s.inFlight ↔
      (s.turns today → s.inFlight = 0) := by
  by_cases turns : s.turns today
  · rw [resetIfNewDay_of_turns turns]
    exact ⟨fun h _ => h.symm, fun h => (h turns).symm⟩
  · rw [resetIfNewDay_of_not_turns turns, acc.exact]
    exact ⟨fun _ h => absurd h turns, fun _ => rfl⟩

theorem reserved_reset_nonneg (acc : s.Accounts) (today : Nat) :
    0 ≤ (s.daily.resetIfNewDay today).reservedTokens := by
  by_cases turns : s.turns today
  · exact Int.le_of_eq (by rw [resetIfNewDay_of_turns turns])
  · rw [resetIfNewDay_of_not_turns turns]
    exact acc.nonneg

theorem accounts_reset_iff (acc : s.Accounts) (today : Nat) :
    RateLimiter.Accounts { s with daily := s.daily.resetIfNewDay today } ↔
      (s.turns today → s.inFlight = 0) := by
  refine ⟨fun after => (reserved_reset_iff acc today).mp after.exact, fun h => ?_⟩
  exact ⟨(reserved_reset_iff acc today).mpr h, reserved_reset_nonneg acc today⟩

theorem inFlight_insert {calls : Table GuardCall.id} {id : Nat} {estimatedTokens : Int}
    (insert : s.calls.insert ⟨id, estimatedTokens, false⟩ = some calls) (daily : DailyCounter) :
    RateLimiter.inFlight ⟨daily, calls⟩ = s.inFlight + estimatedTokens := by
  unfold RateLimiter.inFlight
  rw [Table.insert_rows insert, List.map_cons, List.sum_cons, Int.add_comm]
  rfl

theorem inFlight_release {id : Nat} {c : GuardCall} (found : s.calls.get id = some c)
    (holds : c.released = false) (daily : DailyCounter) :
    RateLimiter.inFlight ⟨daily, s.calls.modify id releaseCall fun _ => rfl⟩ =
      s.inFlight - c.estimatedTokens := by
  have sum := Table.sum_modify found (f := releaseCall) (fun _ => rfl) GuardCall.amount
  have before : c.amount = c.estimatedTokens := by
    rw [GuardCall.amount, holds]
    rfl
  have after : (releaseCall c).amount = 0 := rfl
  rw [before, after] at sum
  unfold RateLimiter.inFlight
  dsimp only
  omega

/-- Where the reservations are right before a step, they are right after it exactly when
the step is orderly. -/
theorem accounts_iff_of_step {x : LimiterStep} (h : (limiter limits).Steps x)
    (acc : x.before.Accounts) : x.after.Accounts ↔ Orderly limits x.before x.input := by
  have moves := limiter_moves h
  obtain ⟨s, a, label, s'⟩ := x
  dsimp only at acc moves ⊢
  cases moves with
  | @tooLarge id today estimatedTokens exceeds =>
    refine ⟨fun _ => ⟨fun within => ?_, fun admits => ?_⟩, fun _ => acc⟩
    · omega
    · have within : estimatedTokens ≤ limits.maxTokensPerCall := by
        simp only [RateLimiter.admits, Bool.and_eq_true, decide_eq_true_eq] at admits
        exact admits.1
      omega
  | @refused id today estimatedTokens within full =>
    rw [accounts_reset_iff acc]
    refine ⟨fun h => ⟨fun _ => h, fun admits => ?_⟩, fun orderly => orderly.1 within⟩
    rw [full] at admits
    cases admits
  | @admitted id today estimatedTokens calls within admits insert =>
    have total := inFlight_insert insert { s.daily.resetIfNewDay today with
      reservedTokens := (s.daily.resetIfNewDay today).reservedTokens + estimatedTokens }
    refine ⟨fun after => ?_, fun orderly => ?_⟩
    · have exact_ := after.exact
      have nonneg := after.nonneg
      rw [exact_, total] at nonneg
      rw [total] at exact_
      refine ⟨fun _ => (reserved_reset_iff acc today).mp (by simpa using exact_),
        fun _ => nonneg⟩
    · have reserved := (reserved_reset_iff acc today).mpr (orderly.1 within)
      have exact_ : (s.daily.resetIfNewDay today).reservedTokens + estimatedTokens =
          s.inFlight + estimatedTokens := by rw [reserved]
      refine ⟨exact_.trans total.symm, ?_⟩
      show 0 ≤ (s.daily.resetIfNewDay today).reservedTokens + estimatedTokens
      rw [exact_]
      exact orderly.2 admits
  | @released id c found holds =>
    have total := inFlight_release found holds (s.daily.releaseReservation c.estimatedTokens)
    have before := acc.exact
    have reserved : (s.daily.releaseReservation c.estimatedTokens).reservedTokens =
        max 0 (s.inFlight - c.estimatedTokens) := by
      rw [← before]
      rfl
    refine ⟨fun after => ?_, fun orderly => ?_⟩
    · intro c' found' _
      rw [found] at found'
      cases found'
      have exact_ := after.exact
      rw [total] at exact_
      have clamped := reserved.symm.trans exact_
      omega
    · have nonneg := orderly c found holds
      refine ⟨?_, ?_⟩
      · rw [total]
        exact reserved.trans (Int.max_eq_right nonneg)
      · show 0 ≤ (s.daily.releaseReservation c.estimatedTokens).reservedTokens
        rw [reserved]
        exact Int.le_max_left 0 _
  | @recorded tokens today =>
    have same : RateLimiter.Accounts { s with daily := s.daily.add tokens today } ↔
        RateLimiter.Accounts { s with daily := s.daily.resetIfNewDay today } :=
      ⟨fun after => ⟨after.exact, after.nonneg⟩, fun after => ⟨after.exact, after.nonneg⟩⟩
    rw [same, accounts_reset_iff acc]
    rfl
  | @looked today =>
    rw [accounts_reset_iff acc]
    rfl

/-! ## The usage of the day -/

/-- The counter holds what was recorded on its day, and nothing was recorded later. -/
structure Ledger (past : List LimiterStep) (s : RateLimiter) : Prop where
  accounts : s.Accounts
  usage : ∀ d ∈ s.daily.date, s.daily.totalTokens = recordedOn d past
  earlier : ∀ d, (∀ e ∈ s.daily.date, e < d) → recordedOn d past = 0

theorem recordedOn_concat (day : Nat) (past : List LimiterStep) (x : LimiterStep) :
    recordedOn day (past ++ [x]) = recordedOn day past + recordedOn day [x] := by
  simp [recordedOn]

theorem recordedOn_of_not_usage {day : Nat} {x : LimiterStep}
    (h : ∀ tokens today, x.input ≠ .recordUsage tokens today) : recordedOn day [x] = 0 := by
  obtain ⟨s, a, label, s'⟩ := x
  cases a with
  | recordUsage tokens today => exact absurd rfl (h tokens today)
  | _ => rfl

/-- After a reset the counter holds what was recorded on the date read. -/
theorem usage_reset {past : List LimiterStep} (ledger : Ledger past s) {today : Nat}
    (forward : ∀ d ∈ s.daily.date, d ≤ today) :
    (s.daily.resetIfNewDay today).date = some today ∧
      (s.daily.resetIfNewDay today).totalTokens = recordedOn today past ∧
      ∀ d, today < d → recordedOn d past = 0 := by
  have later : ∀ d, today < d → recordedOn d past = 0 := fun d after =>
    ledger.earlier d fun e he => Nat.lt_of_le_of_lt (forward e he) after
  by_cases turns : s.turns today
  · rw [resetIfNewDay_of_turns turns]
    refine ⟨rfl, (ledger.earlier today fun e he => ?_).symm, later⟩
    have other : e ≠ today := by
      rintro rfl
      exact turns he
    have back := forward e he
    omega
  · rw [resetIfNewDay_of_not_turns turns]
    have same : s.daily.date = some today := not_not.mp turns
    exact ⟨same, ledger.usage today same, later⟩

theorem recordedOn_recorded (day : Nat) {tokens : Int} {today : Nat} (label : Bool) :
    recordedOn day [⟨s, .recordUsage tokens today, label, s'⟩] =
      if today = day then tokens else 0 := by
  simp [recordedOn]

/-- A step that reads the date and records no usage keeps the ledger. -/
theorem ledger_of_reset {past : List LimiterStep} {x : LimiterStep} {today : Nat}
    (ledger : Ledger past x.before) (accounts : x.after.Accounts)
    (forward : ∀ d ∈ x.before.daily.date, d ≤ today)
    (silent : ∀ tokens today, x.input ≠ .recordUsage tokens today)
    (date : x.after.daily.date = (x.before.daily.resetIfNewDay today).date)
    (total : x.after.daily.totalTokens = (x.before.daily.resetIfNewDay today).totalTokens) :
    Ledger (past ++ [x]) x.after := by
  obtain ⟨now, usage, later⟩ := usage_reset ledger forward
  rw [now] at date
  refine ⟨accounts, fun d hd => ?_, fun d after => ?_⟩
  · rw [date] at hd
    cases hd
    rw [recordedOn_concat, recordedOn_of_not_usage silent, add_zero, total, usage]
  · rw [recordedOn_concat, recordedOn_of_not_usage silent, add_zero]
    exact later d (after today (by rw [date]; rfl))

/-- And so does one that leaves the counter's date and total. -/
theorem ledger_of_same {past : List LimiterStep} {x : LimiterStep}
    (ledger : Ledger past x.before) (accounts : x.after.Accounts)
    (silent : ∀ tokens today, x.input ≠ .recordUsage tokens today)
    (date : x.after.daily.date = x.before.daily.date)
    (total : x.after.daily.totalTokens = x.before.daily.totalTokens) :
    Ledger (past ++ [x]) x.after := by
  refine ⟨accounts, fun d hd => ?_, fun d after => ?_⟩
  · rw [date] at hd
    rw [recordedOn_concat, recordedOn_of_not_usage silent, add_zero, total, ledger.usage d hd]
  · rw [date] at after
    rw [recordedOn_concat, recordedOn_of_not_usage silent, add_zero, ledger.earlier d after]

theorem ledger_of_step {past : List LimiterStep} {x : LimiterStep}
    (h : (limiter limits).Steps x) (ledger : Ledger past x.before)
    (orderly : Orderly limits x.before x.input) (forward : Forward x.before x.input) :
    Ledger (past ++ [x]) x.after := by
  have accounts := (accounts_iff_of_step h ledger.accounts).mpr orderly
  have moves := limiter_moves h
  obtain ⟨s, a, label, s'⟩ := x
  dsimp only at ledger forward accounts moves
  cases moves with
  | tooLarge exceeds => exact ledger_of_same ledger accounts nofun rfl rfl
  | refused within full => exact ledger_of_reset ledger accounts forward nofun rfl rfl
  | admitted within admits insert =>
    exact ledger_of_reset ledger accounts forward nofun rfl rfl
  | released found holds => exact ledger_of_same ledger accounts nofun rfl rfl
  | @recorded tokens today =>
    obtain ⟨now, usage, later⟩ := usage_reset ledger forward
    have date : (s.daily.add tokens today).date = some today := now
    refine ⟨accounts, fun d hd => ?_, fun d after => ?_⟩
    · have hd : (s.daily.add tokens today).date = some d := hd
      rw [date] at hd
      cases hd
      rw [recordedOn_concat, recordedOn_recorded, if_pos rfl, ← usage]
      rfl
    · have after := after today date
      rw [recordedOn_concat, recordedOn_recorded, if_neg (Nat.ne_of_lt after), add_zero]
      exact later d after
  | looked => exact ledger_of_reset ledger accounts forward nofun rfl rfl

/-- A call that is let in finds room beside the usage of the day and the calls in flight. -/
theorem room_of_admission {past : List LimiterStep} {x : LimiterStep}
    (h : (limiter limits).Steps x) (ledger : Ledger past x.before)
    (orderly : Orderly limits x.before x.input) (forward : Forward x.before x.input)
    {id today : Nat} {estimatedTokens : Int} (input : x.input = .guard id estimatedTokens today)
    (letIn : x.label = true) :
    recordedOn today past + x.before.inFlight + estimatedTokens ≤
      limits.tokensPerDayHardLimit := by
  have moves := limiter_moves h
  obtain ⟨s, a, label, s'⟩ := x
  dsimp only at ledger orderly forward input letIn moves ⊢
  subst input letIn
  cases moves with
  | admitted within admits insert =>
    obtain ⟨-, usage, -⟩ := usage_reset ledger forward
    have reserved := (reserved_reset_iff ledger.accounts today).mpr (orderly.1 within)
    simp only [RateLimiter.admits, DailyCounter.fits, Bool.and_eq_true, decide_eq_true_eq]
      at admits
    rw [← usage, ← reserved]
    exact admits.2

theorem accounts_new : RateLimiter.new.Accounts := ⟨rfl, Int.le_refl 0⟩

theorem ledger_new : Ledger [] .new := ⟨accounts_new, nofun, fun _ _ => rfl⟩

end

/-- For every provider and every sequence of steps: the reservations equal what is in
flight and are not negative after every step, if and only if every step is orderly. And
where all are, and the date does not go back, every call that is let in has room. -/
theorem reserved_tokens_iff (limits : ProviderLimits) (actions : List LimiterAction) :
    ((∀ x ∈ (limiter limits).run .new actions, x.after.Accounts) ↔
        ∀ x ∈ (limiter limits).run .new actions, Orderly limits x.before x.input) ∧
      ((∀ x ∈ (limiter limits).run .new actions,
          Orderly limits x.before x.input ∧ Forward x.before x.input) →
        ∀ past x later, (limiter limits).run .new actions = past ++ x :: later →
          ∀ id estimatedTokens today, x.input = .guard id estimatedTokens today →
            x.label = true → recordedOn today past + x.before.inFlight + estimatedTokens ≤
              limits.tokensPerDayHardLimit) := by
  refine ⟨?_, fun ok past x later split id estimatedTokens today input letIn => ?_⟩
  · exact Machine.run_iff_of_ok (I := RateLimiter.Accounts) (R := fun _ => True)
      (fun x h acc _ => accounts_iff_of_step h acc) (fun _ _ _ _ after => after) accounts_new
      fun _ _ => trivial
  · obtain ⟨step, ledger⟩ := Machine.history_invariant (m := limiter limits)
      (I := fun past s => (∀ y ∈ past, Orderly limits y.before y.input ∧
        Forward y.before y.input) → Ledger past s)
      (fun past y h ledger ok => by
        obtain ⟨orderly, forward⟩ := ok y (by simp)
        exact ledger_of_step h (ledger fun z hz => ok z (by simp [hz])) orderly forward)
      (fun _ => ledger_new) past x later split
    have before : ∀ y ∈ past, Orderly limits y.before y.input ∧ Forward y.before y.input :=
      fun y hy => ok y (by rw [split]; simp [hy])
    obtain ⟨orderly, forward⟩ := ok x (by rw [split]; simp)
    exact room_of_admission step (ledger before) orderly forward input letIn

/-! ## A call over midnight -/

def smallLimits : ProviderLimits := ⟨8000, 1000⟩

/-- A call with 900 goes over midnight; one with 800 of the new day is let in beside it. -/
def midnightRun : List LimiterAction :=
  [.guard 0 900 1, .guard 1 800 2, .release 0, .guard 2 1000 2]

/-- The release of the first call frees what the second has reserved. -/
theorem reservation_lost :
    ((limiter smallLimits).run .new midnightRun).map
        (fun x => (x.label, x.after.daily.reservedTokens, x.after.inFlight)) =
      [(true, 900, 900), (true, 800, 1700), (false, 0, 800), (true, 1000, 1800)] ∧
    ¬ ∀ x ∈ (limiter smallLimits).run .new midnightRun, x.after.Accounts := by
  have trace : ((limiter smallLimits).run .new midnightRun).map
      (fun x => (x.label, x.after.daily.reservedTokens, x.after.inFlight)) =
      [(true, 900, 900), (true, 800, 1700), (false, 0, 800), (true, 1000, 1800)] := by
    decide +kernel
  refine ⟨trace, fun all => ?_⟩
  have right : ∀ p ∈ ((limiter smallLimits).run .new midnightRun).map
      (fun x => (x.label, x.after.daily.reservedTokens, x.after.inFlight)), p.2.1 = p.2.2 := by
    intro p hp
    obtain ⟨x, hx, rfl⟩ := List.mem_map.mp hp
    exact (all x hx).exact
  rw [trace] at right
  exact absurd (right (true, 800, 1700) (by decide)) (by decide)

end LegionForge.Agent
