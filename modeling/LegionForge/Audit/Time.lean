import LegionForge.Lib.Delimited
import Mathlib.Tactic.Common

/-!
# Timestamps as `datetime.isoformat` writes them

The hash of an audit row covers the text of its timestamp, not the instant. A
`timestamptz` holds the instant; the driver hands it out in the time zone of
the session that reads it, and `isoformat` writes the local date and time
followed by the offset. `isoformat_inj` is what the audit chain needs to know
about that text: it determines the instant and the offset, so the same row
read in two sessions has the same text exactly when both are at the same
offset from UTC.
-/

namespace LegionForge.Audit

open Delimited (pad pad_inj length_pad isDigit_of_mem_pad append_cons_inj)

/-- A point in time, in microseconds since the first of March of the year 0,
UTC. One day is left free below, so that the local time is a number too. -/
structure Instant where
  micros : Nat
  dayOne : 86400000000 ≤ micros
  deriving DecidableEq

/-- The offset of a time zone from UTC, in seconds; less than a day. -/
structure UtcOffset where
  seconds : Int
  bound : -86400 < seconds ∧ seconds < 86400
  deriving DecidableEq

def UtcOffset.utc : UtcOffset := ⟨0, by decide⟩

/-- The time zone of a database session, by its offset at every instant. -/
abbrev SessionTz := Instant → UtcOffset

def Instant.localMicros (t : Instant) (off : UtcOffset) : Nat :=
  (t.micros + off.seconds * 1000000 : Int).toNat

theorem localMicros_inj {t u : Instant} {off : UtcOffset}
    (h : t.localMicros off = u.localMicros off) : t = u := by
  obtain ⟨t, ht⟩ := t
  obtain ⟨u, hu⟩ := u
  have hoff := off.bound
  simp only [Instant.localMicros] at h
  have : t = u := by omega
  subst this
  rfl

/-! ## The calendar

Years are counted from March, so that the leap day is the last day of its
year, and of its four years, and of its four hundred. -/

structure MarchDate where
  year : Nat
  dayOfYear : Nat

def marchDate (day : Nat) : MarchDate :=
  let rest := day % 146097
  let century := min (rest / 36524) 3
  let rest := rest - century * 36524
  let quad := rest / 1461
  let rest := rest % 1461
  let yearOfQuad := min (rest / 365) 3
  ⟨day / 146097 * 400 + century * 100 + quad * 4 + yearOfQuad,
    rest - yearOfQuad * 365⟩

/-- The cycles a day is cut into: eras of four hundred years, centuries of at
most 36525 days, groups of four years, years of at most 366. -/
theorem marchDate_cycles (day : Nat) :
    ∃ era century quad y, century ≤ 3 ∧ quad ≤ 24 ∧ y ≤ 3 ∧
      (marchDate day).year = era * 400 + century * 100 + quad * 4 + y ∧
      (marchDate day).dayOfYear ≤ 365 ∧
      day = era * 146097 + century * 36524 + quad * 1461 + y * 365 +
        (marchDate day).dayOfYear := by
  have hera := Nat.div_add_mod day 146097
  have hdoe := Nat.mod_lt day (show 0 < 146097 by decide)
  simp only [marchDate]
  generalize day % 146097 = doe at hera hdoe ⊢
  have hcent : doe - min (doe / 36524) 3 * 36524 ≤ 36524 ∧
      doe = min (doe / 36524) 3 * 36524 +
        (doe - min (doe / 36524) 3 * 36524) := by omega
  generalize doe - min (doe / 36524) 3 * 36524 = doc at hcent ⊢
  have hquad := Nat.div_add_mod doc 1461
  have hdoq := Nat.mod_lt doc (show 0 < 1461 by decide)
  have hq : doc / 1461 ≤ 24 := by omega
  generalize doc % 1461 = doq at hquad hdoq ⊢
  have hyear : doq - min (doq / 365) 3 * 365 ≤ 365 ∧
      doq = min (doq / 365) 3 * 365 + (doq - min (doq / 365) 3 * 365) := by omega
  exact ⟨_, _, _, _, Nat.min_le_right _ _, hq, Nat.min_le_right _ _, rfl,
    hyear.1, by omega⟩

theorem dayOfYear_le (day : Nat) : (marchDate day).dayOfYear ≤ 365 := by
  obtain ⟨_, _, _, _, _, _, _, _, h, _⟩ := marchDate_cycles day
  exact h

theorem marchDate_inj {d e : Nat} (hy : (marchDate d).year = (marchDate e).year)
    (hd : (marchDate d).dayOfYear = (marchDate e).dayOfYear) : d = e := by
  obtain ⟨era, c, q, y, hc, hq, hy3, hyear, _, hday⟩ := marchDate_cycles d
  obtain ⟨era', c', q', y', hc', hq', hy3', hyear', _, hday'⟩ :=
    marchDate_cycles e
  have hera : era = era' := by omega
  have hcent : c = c' := by omega
  have hquad : q = q' := by omega
  have hrest : y = y' := by omega
  rw [hday, hday', hera, hcent, hquad, hrest, hd]

/-- Months since March, and the day of the month. -/
def monthAndDay (dayOfYear : Nat) : Nat × Nat :=
  let mp := (5 * dayOfYear + 2) / 153
  (mp, dayOfYear - (153 * mp + 2) / 5 + 1)

theorem monthAndDay_inj {m n : Nat} (h : monthAndDay m = monthAndDay n) :
    m = n := by
  simp only [monthAndDay, Prod.mk.injEq] at h
  omega

structure CivilDate where
  year : Nat
  month : Nat
  day : Nat

def civilDate (day : Nat) : CivilDate :=
  let date := marchDate day
  let md := monthAndDay date.dayOfYear
  if md.1 < 10 then ⟨date.year, md.1 + 3, md.2⟩
  else ⟨date.year + 1, md.1 - 9, md.2⟩

theorem civilDate_inj {d e : Nat} (hy : (civilDate d).year = (civilDate e).year)
    (hm : (civilDate d).month = (civilDate e).month)
    (hd : (civilDate d).day = (civilDate e).day) : d = e := by
  have hle : ∀ n, (monthAndDay (marchDate n).dayOfYear).1 ≤ 11 := by
    intro n
    have := dayOfYear_le n
    simp only [monthAndDay]
    omega
  have hd' := hle d
  have he' := hle e
  have key : (marchDate d).year = (marchDate e).year ∧
      (monthAndDay (marchDate d).dayOfYear).1 =
        (monthAndDay (marchDate e).dayOfYear).1 ∧
      (monthAndDay (marchDate d).dayOfYear).2 =
        (monthAndDay (marchDate e).dayOfYear).2 := by
    simp only [civilDate] at hy hm hd
    split at hy <;> split at hy <;> split_ifs at hm hd <;> simp only at hy hm hd <;>
      omega
  exact marchDate_inj key.1 (monthAndDay_inj (Prod.ext key.2.1 key.2.2))

/-! ## The text -/

/-- A time of day: hours, minutes, seconds, and the microseconds when there
are any. -/
def timeText (us : Nat) : List Char :=
  pad 2 (us / 3600000000) ++ ':' :: (pad 2 (us / 60000000 % 60) ++
    ':' :: (pad 2 (us / 1000000 % 60) ++
      if us % 1000000 = 0 then [] else '.' :: pad 6 (us % 1000000)))

/-- `+HH:MM`, with the seconds only where the zone has some. -/
def offsetText (off : UtcOffset) : List Char :=
  (if off.seconds < 0 then '-' else '+') ::
    (pad 2 (off.seconds.natAbs / 3600) ++
      ':' :: (pad 2 (off.seconds.natAbs / 60 % 60) ++
        if off.seconds.natAbs % 60 = 0 then []
        else ':' :: pad 2 (off.seconds.natAbs % 60)))

/-- `datetime.isoformat()` of the instant in a session at this offset. -/
def isoformat (t : Instant) (off : UtcOffset) : List Char :=
  let us := t.localMicros off
  let date := civilDate (us / 86400000000)
  pad 4 date.year ++ '-' :: (pad 2 date.month ++ '-' :: (pad 2 date.day ++
    'T' :: (timeText (us % 86400000000) ++ offsetText off)))

theorem not_mem_pad {w n : Nat} {c : Char} (hc : c.isDigit = false) :
    c ∉ pad w n := fun h => by
  rw [isDigit_of_mem_pad h] at hc
  cases hc

/-- A field of fixed width ends where its width says. -/
theorem pad_append_inj {w m n : Nat} {x y : List Char} (hw : 0 < w)
    (hm : m < 10 ^ w) (hn : n < 10 ^ w) (h : pad w m ++ x = pad w n ++ y) :
    m = n ∧ x = y := by
  obtain ⟨hp, hxy⟩ := List.append_inj h
    ((length_pad hw hm).trans (length_pad hw hn).symm)
  exact ⟨pad_inj hp, hxy⟩

/-- A padded field ends at the next separator. -/
theorem pad_cons_inj {w m n : Nat} {c : Char} {x y : List Char}
    (hc : c.isDigit = false) (h : pad w m ++ c :: x = pad w n ++ c :: y) :
    m = n ∧ x = y := by
  obtain ⟨hp, hxy⟩ := append_cons_inj (not_mem_pad hc) (not_mem_pad hc) h
  exact ⟨pad_inj hp, hxy⟩

theorem offsetText_ne_point (off : UtcOffset) (y : List Char) :
    offsetText off ≠ '.' :: y := by
  intro h
  have hhead := (List.cons.inj h).1
  split at hhead <;> exact absurd hhead (by decide)

theorem offsetText_inj {a b : UtcOffset} (h : offsetText a = offsetText b) :
    a = b := by
  obtain ⟨a, ha⟩ := a
  obtain ⟨b, hb⟩ := b
  obtain ⟨hsign, hrest⟩ := List.cons.inj h
  obtain ⟨hh, hrest⟩ := pad_cons_inj rfl hrest
  obtain ⟨hm, hrest⟩ := pad_append_inj (by decide) (by omega) (by omega) hrest
  have hs : a.natAbs % 60 = b.natAbs % 60 := by
    simp only at hrest
    split_ifs at hrest with h₁ h₂ h₂
    · rw [h₁, h₂]
    · exact pad_inj (List.cons.inj hrest).2
  have hneg : a < 0 ↔ b < 0 := by
    simp only at hsign
    split_ifs at hsign with h₁ h₂ h₂
    · exact iff_of_true h₁ h₂
    · exact absurd hsign (by decide)
    · exact absurd hsign (by decide)
    · exact iff_of_false h₁ h₂
  have : a = b := by
    simp only at hh hm
    omega
  subst this
  rfl

theorem timeText_inj {s t : Nat} {a b : UtcOffset}
    (h : timeText s ++ offsetText a = timeText t ++ offsetText b) :
    s = t ∧ a = b := by
  simp only [timeText, List.append_assoc, List.cons_append] at h
  obtain ⟨hh, h⟩ := pad_cons_inj rfl h
  obtain ⟨hm, h⟩ := pad_cons_inj rfl h
  obtain ⟨hsec, h⟩ := pad_append_inj (by decide) (by omega) (by omega) h
  have hfrac : s % 1000000 = t % 1000000 ∧ offsetText a = offsetText b := by
    split_ifs at h with h₁ h₂ h₂
    · exact ⟨h₁.trans h₂.symm, h⟩
    · exact absurd h (offsetText_ne_point a _)
    · exact absurd h.symm (offsetText_ne_point b _)
    · exact pad_append_inj (by decide) (by omega) (by omega)
        (List.cons.inj h).2
  exact ⟨by omega, offsetText_inj hfrac.2⟩

/-- The text determines the instant and the offset it was written at. -/
theorem isoformat_inj {t u : Instant} {a b : UtcOffset}
    (h : isoformat t a = isoformat u b) : t = u ∧ a = b := by
  obtain ⟨hy, h⟩ := pad_cons_inj rfl h
  obtain ⟨hm, h⟩ := pad_cons_inj rfl h
  obtain ⟨hd, h⟩ := pad_cons_inj rfl h
  obtain ⟨htime, hoff⟩ := timeText_inj h
  have hday := civilDate_inj hy hm hd
  subst hoff
  have hmicros : t.localMicros a = u.localMicros a := by omega
  exact ⟨localMicros_inj hmicros, rfl⟩

/-! ## Its characters -/

theorem not_mem_isoformat {c : Char} (hd : c.isDigit = false)
    (hc : c ∉ "-T:.+".toList) (t : Instant) (off : UtcOffset) :
    c ∉ isoformat t off := by
  have hp : ∀ w n, c ∉ pad w n := fun w n => not_mem_pad hd
  have hne : c ≠ '-' ∧ c ≠ 'T' ∧ c ≠ ':' ∧ c ≠ '.' ∧ c ≠ '+' := by
    simpa [List.mem_cons, not_or] using hc
  obtain ⟨hminus, hT, hcolon, hpoint, hplus⟩ := hne
  simp only [isoformat, timeText, offsetText, List.mem_append, List.mem_cons,
    not_or]
  refine ⟨hp _ _, hminus, hp _ _, hminus, hp _ _, hT,
    ⟨hp _ _, hcolon, hp _ _, hcolon, hp _ _, ?_⟩, ?_, hp _ _, hcolon,
    hp _ _, ?_⟩
  · split
    · exact List.not_mem_nil
    · exact List.not_mem_cons_of_ne_of_not_mem hpoint (hp _ _)
  · split
    · exact hminus
    · exact hplus
  · split
    · exact List.not_mem_nil
    · exact List.not_mem_cons_of_ne_of_not_mem hcolon (hp _ _)

end LegionForge.Audit
