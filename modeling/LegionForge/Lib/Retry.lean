import Mathlib.Data.List.Basic
import Mathlib.Tactic.Common

/-!
# Calls that are tried again

A call is sent, is answered, and after an answer that is a failure it is sent again, so often
and after so long a wait as its policy says. The phases are what a caller goes through; the
tries are what was seen of it from outside. `Reached.exists_tries` leads from the first to the
second: few tries, far enough apart, and none after an answer that is no failure.
-/

namespace Retry

structure Policy (ρ : Type) where
  limit : Nat
  /-- How long the wait after the try with this number is, counted from one -/
  wait : Nat → Nat
  failed : ρ → Bool

inductive Event (ρ : Type) where
  | sent (now : Nat)
  | answered (now : Nat) (answer : ρ)
  deriving DecidableEq

/-- Where a caller stands. -/
inductive Phase where
  | ready
  /-- The try with this number was sent. -/
  | sent (number : Nat)
  /-- The try with this number has failed. -/
  | waiting (number wake : Nat)
  | done
  deriving DecidableEq

variable {ρ : Type} (p : Policy ρ)

/-- The number of the try that is sent now, if one may be -/
def Phase.next (now : Nat) : Phase → Option Nat
  | .ready => if 0 < p.limit then some 1 else none
  | .waiting number wake => if wake ≤ now then some (number + 1) else none
  | .sent _ | .done => none

/-- The phase behind an answer to the try with this number -/
def Phase.behind (now number : Nat) (answer : ρ) : Phase :=
  if p.failed answer && number < p.limit then .waiting number (now + p.wait number) else .done

/-- The phases that the events of a call lead to -/
inductive Reached : List (Event ρ) → Phase → Prop where
  | ready : Reached [] .ready
  | sent {events phase} (now : Nat) {number : Nat} : Reached events phase →
      phase.next p now = some number → Reached (events ++ [.sent now]) (.sent number)
  | answered {events} (now : Nat) {number : Nat} (answer : ρ) :
      Reached events (.sent number) →
      Reached (events ++ [.answered now answer]) (.behind p now number answer)

/-! ## Seen from outside -/

structure Try (ρ : Type) where
  sentAt : Nat
  answeredAt : Nat
  answer : ρ

def Try.events (t : Try ρ) : List (Event ρ) := [.sent t.sentAt, .answered t.answeredAt t.answer]

/-- The tries of a call; the last may still be without an answer. -/
structure Tries (ρ : Type) where
  answered : List (Try ρ)
  pending : Option Nat

namespace Tries

def events (c : Tries ρ) : List (Event ρ) :=
  c.answered.flatMap Try.events ++ c.pending.toList.map .sent

/-- When the tries were sent -/
def sends (c : Tries ρ) : List Nat := c.answered.map (·.sentAt) ++ c.pending.toList

structure Paced (c : Tries ρ) : Prop where
  few : c.sends.length ≤ p.limit
  /-- Before each try but the first there is one that failed, and the wait after it. -/
  apart : ∀ n s, c.sends[n + 1]? = some s → ∃ t, c.answered[n]? = some t ∧
    p.failed t.answer = true ∧ t.answeredAt + p.wait (n + 1) ≤ s

end Tries

variable {p}

/-- What a phase says of the tries. -/
def Phase.Fits (p : Policy ρ) (c : Tries ρ) : Phase → Prop
  | .ready => c.answered = [] ∧ c.pending = none
  | .sent number => number = c.answered.length + 1 ∧ c.pending.isSome = true
  | .waiting number wake => c.pending = none ∧ number < p.limit ∧
      ∃ t, c.answered.getLast? = some t ∧ number = c.answered.length ∧
        p.failed t.answer = true ∧ wake = t.answeredAt + p.wait number
  | .done => c.pending = none

theorem paced_nil : Tries.Paced p ⟨[], none⟩ where
  few := Nat.zero_le _
  apart n s h := by simp [Tries.sends] at h

/-- One more try that is sent in its time -/
theorem paced_sent {answered : List (Try ρ)} {now : Nat} (paced : Tries.Paced p ⟨answered, none⟩)
    (room : answered.length < p.limit)
    (wait : ∀ t, answered.getLast? = some t → p.failed t.answer = true ∧
      t.answeredAt + p.wait answered.length ≤ now) :
    Tries.Paced p ⟨answered, some now⟩ where
  few := by simpa [Tries.sends] using Nat.succ_le_of_lt room
  apart n s h := by
    have split := h
    rw [Tries.sends, Option.toList_some, List.getElem?_append] at split
    split at split
    · next earlier =>
      refine paced.apart n s ?_
      rw [Tries.sends, Option.toList_none, List.append_nil]
      exact split
    · next last =>
      rw [List.length_map] at split last
      dsimp only at split last
      -- the new try is the only one at the end
      have here : n + 1 = answered.length := by
        have bound : n + 1 - answered.length < [now].length :=
          (List.getElem?_eq_some_iff.mp split).1
        rw [List.length_singleton] at bound
        omega
      rw [here, Nat.sub_self, List.getElem?_cons_zero, Option.some.injEq] at split
      have bound : n < answered.length := by omega
      have final : answered.getLast? = some answered[n] := by
        rw [List.getLast?_eq_getElem?, ← here, Nat.add_sub_cancel, List.getElem?_eq_getElem]
      obtain ⟨failed, waited⟩ := wait _ final
      refine ⟨answered[n], List.getElem?_eq_getElem bound, failed, ?_⟩
      rw [here, ← split]
      exact waited

theorem sends_answered (answered : List (Try ρ)) (t : Try ρ) :
    Tries.sends ⟨answered ++ [t], none⟩ = Tries.sends ⟨answered, some t.sentAt⟩ := by
  simp [Tries.sends]

theorem events_answered (answered : List (Try ρ)) (t : Try ρ) :
    Tries.events ⟨answered ++ [t], none⟩ =
      Tries.events ⟨answered, some t.sentAt⟩ ++ [.answered t.answeredAt t.answer] := by
  simp [Tries.events, Try.events]

theorem paced_answered {answered : List (Try ρ)} {t : Try ρ}
    (paced : Tries.Paced p ⟨answered, some t.sentAt⟩) :
    Tries.Paced p ⟨answered ++ [t], none⟩ where
  few := by
    rw [sends_answered]
    exact paced.few
  apart n s h := by
    rw [sends_answered] at h
    obtain ⟨u, found, rest⟩ := paced.apart n s h
    refine ⟨u, ?_, rest⟩
    rw [List.getElem?_append_left (List.getElem?_eq_some_iff.mp found).1]
    exact found

theorem fits_behind {answered : List (Try ρ)} {t : Try ρ} :
    (Phase.behind p t.answeredAt (answered.length + 1) t.answer).Fits p
      ⟨answered ++ [t], none⟩ := by
  unfold Phase.behind
  split
  · next again =>
    obtain ⟨failed, room⟩ := Bool.and_eq_true_iff.mp again
    exact ⟨rfl, of_decide_eq_true room, t, by simp, by simp, failed, rfl⟩
  · rfl

theorem Reached.exists_fits {events : List (Event ρ)} {phase : Phase}
    (h : Reached p events phase) :
    ∃ c : Tries ρ, c.events = events ∧ c.Paced p ∧ phase.Fits p c := by
  induction h with
  | ready => exact ⟨⟨[], none⟩, rfl, paced_nil, rfl, rfl⟩
  | @sent events phase now number _ next ih =>
    obtain ⟨⟨answered, pending⟩, rfl, paced, fits⟩ := ih
    cases phase with
    | ready =>
      obtain ⟨rfl, rfl⟩ := fits
      simp only [Phase.next] at next
      split at next
      · next room =>
        cases next
        exact ⟨⟨[], some now⟩, rfl, paced_sent paced room (by simp), rfl, rfl⟩
      · cases next
    | waiting number wake =>
      obtain ⟨rfl, room, t, last, rfl, failed, rfl⟩ := fits
      simp only [Phase.next] at next
      split at next
      · next woken =>
        cases next
        refine ⟨⟨answered, some now⟩, by simp [Tries.events], paced_sent paced room ?_, rfl, rfl⟩
        intro u same
        cases last.symm.trans same
        exact ⟨failed, woken⟩
      · cases next
    | sent _ => cases next
    | done => cases next
  | @answered events now number answer _ ih =>
    obtain ⟨⟨answered, pending⟩, rfl, paced, rfl, sent⟩ := ih
    obtain ⟨sentAt, rfl⟩ := Option.isSome_iff_exists.mp sent
    let t : Try ρ := ⟨sentAt, now, answer⟩
    exact ⟨⟨answered ++ [t], none⟩, events_answered answered t, paced_answered (t := t) paced,
      fits_behind (t := t)⟩

/-- The events of a call are few tries, far enough apart. -/
theorem Reached.exists_tries {events : List (Event ρ)} {phase : Phase}
    (h : Reached p events phase) : ∃ c : Tries ρ, c.events = events ∧ c.Paced p := by
  obtain ⟨c, same, paced, -⟩ := h.exists_fits
  exact ⟨c, same, paced⟩

end Retry
