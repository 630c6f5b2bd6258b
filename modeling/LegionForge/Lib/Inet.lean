import Mathlib.Data.List.Basic
import Mathlib.Tactic.Common

/-!
# Internet addresses

Addresses of both families by their numbers, the ranges that do not lead outside, and the
text that `inet_ntop` writes: decimal numbers for the older family, for the newer one
hexadecimal groups, the first longest run of zeros left out, and an address of the older
family that is embedded in one of the newer written in its own way.

Where the first group is not zero it begins the text (`text_of_first`), so a pattern for the
beginning of a text sees it.
-/

namespace Inet

/-! ## Addresses -/

structure Ipv4 where
  first : UInt8
  second : UInt8
  third : UInt8
  fourth : UInt8
  deriving DecidableEq

structure Ipv6 where
  groups : List UInt16
  size : groups.length = 8
  deriving DecidableEq

inductive Address where
  | v4 (address : Ipv4)
  | v6 (address : Ipv6)
  deriving DecidableEq

/-! ## Ranges -/

/-- Loopback, private, link-local or unspecified. -/
def Ipv4.internal (a : Ipv4) : Bool :=
  a.first = 127 || a.first = 10 || (a.first = 172 && 16 ≤ a.second && a.second ≤ 31) ||
    (a.first = 192 && a.second = 168) || (a.first = 169 && a.second = 254) || a.first = 0

/-- The address of the older family in the last two groups. -/
def embedded (high low : UInt16) : Ipv4 :=
  ⟨(high / 256).toUInt8, high.toUInt8, (low / 256).toUInt8, low.toUInt8⟩

namespace Ipv6

def unspecified (a : Ipv6) : Bool := a.groups = [0, 0, 0, 0, 0, 0, 0, 0]

def loopback (a : Ipv6) : Bool := a.groups = [0, 0, 0, 0, 0, 0, 0, 1]

/-- `fc00::/7` -/
def uniqueLocal (a : Ipv6) : Bool := a.groups.head?.any fun g => 0xfc00 ≤ g && g ≤ 0xfdff

/-- `fe80::/10` -/
def linkLocal (a : Ipv6) : Bool := a.groups.head?.any fun g => 0xfe80 ≤ g && g ≤ 0xfebf

/-- The address of the older family that this one stands for. -/
def mapped (a : Ipv6) : Option Ipv4 :=
  match a.groups with
  | [0, 0, 0, 0, 0, 0xffff, high, low] => some (embedded high low)
  | _ => none

def internal (a : Ipv6) : Bool :=
  a.unspecified || a.loopback || a.uniqueLocal || a.linkLocal || a.mapped.any (·.internal)

end Ipv6

def Address.internal : Address → Bool
  | .v4 a => a.internal
  | .v6 a => a.internal

/-! ## Texts -/

def decimal (n : UInt8) : List Char := Nat.toDigits 10 n.toNat

def hexadecimal (n : UInt16) : List Char := Nat.toDigits 16 n.toNat

def Ipv4.text (a : Ipv4) : List Char :=
  decimal a.first ++ '.' :: decimal a.second ++ '.' :: decimal a.third ++ '.' :: decimal a.fourth

/-- Groups of zeros, from one on. -/
structure Run where
  base : Nat
  len : Nat
  deriving DecidableEq

/-- The longer run, the first of two that are as long. -/
def longer (best cur : Option Run) : Option Run :=
  match best, cur with
  | best, none => best
  | none, some c => some c
  | some b, some c => if b.len < c.len then some c else some b

/-- The longest run, with the one that is being read. -/
def scanRuns : List UInt16 → Nat → Option Run → Option Run → Option Run
  | [], _, best, cur => longer best cur
  | g :: gs, i, best, cur =>
    if g = 0 then
      scanRuns gs (i + 1) best (some (match cur with
        | none => ⟨i, 1⟩
        | some c => ⟨c.base, c.len + 1⟩))
    else scanRuns gs (i + 1) (longer best cur) none

def bestRun (gs : List UInt16) : Option Run := (scanRuns gs 0 none none).filter (2 ≤ ·.len)

def Run.contains (run : Run) (i : Nat) : Bool := run.base ≤ i && i < run.base + run.len

/-- An address of the older family takes the place of the last two groups. -/
def embeds (gs : List UInt16) : Option Run → Bool
  | some ⟨0, 6⟩ => true
  | some ⟨0, 5⟩ => gs[5]? = some 0xffff
  | _ => false

/-- The groups from one on. -/
def groupsText (run : Option Run) (embeds : Bool) : List UInt16 → Nat → List Char
  | [], _ => []
  | g :: gs, i =>
    if run.any (·.contains i) then
      (if run.any (·.base = i) then [':'] else []) ++ groupsText run embeds gs (i + 1)
    else
      (if i = 0 then [] else [':']) ++
        match embeds && i = 6, gs with
        | true, [low] => (embedded g low).text
        | _, _ => hexadecimal g ++ groupsText run embeds gs (i + 1)

def Ipv6.text (a : Ipv6) : List Char :=
  let run := bestRun a.groups
  groupsText run (embeds a.groups run) a.groups 0 ++
    if run.any fun r => r.base + r.len = 8 then [':'] else []

/-- `inet_ntop` -/
def Address.text : Address → String
  | .v4 a => String.ofList a.text
  | .v6 a => String.ofList a.text

example : (Address.v6 ⟨[0x2001, 0xdb8, 0, 0, 1, 0, 0, 1], rfl⟩).text = "2001:db8::1:0:0:1" := by
  decide

example : (Address.v6 ⟨[0, 0, 0, 0, 0, 0xffff, 0x7f00, 1], rfl⟩).text = "::ffff:127.0.0.1" := by
  decide

/-! ### The first group -/

theorem longer_from {n : Nat} {best cur : Option Run} (after : ∀ r ∈ best, n ≤ r.base)
    (after' : ∀ r ∈ cur, n ≤ r.base) : ∀ r ∈ longer best cur, n ≤ r.base := by
  cases best with
  | none => cases cur with
    | none => exact after
    | some c => exact after'
  | some b => cases cur with
    | none => exact after
    | some c =>
      intro r mem
      simp only [longer] at mem
      split at mem
      · exact after' r mem
      · exact after r mem

/-- Runs that are read from a group on are there. -/
theorem scanRuns_from {n : Nat} : ∀ {gs : List UInt16} {i : Nat} {best cur : Option Run},
    n ≤ i → (∀ r ∈ best, n ≤ r.base) → (∀ r ∈ cur, n ≤ r.base) →
    ∀ r ∈ scanRuns gs i best cur, n ≤ r.base := by
  intro gs
  induction gs with
  | nil =>
    intro i best cur _ after after'
    exact longer_from after after'
  | cons g gs ih =>
    intro i best cur le after after'
    simp only [scanRuns]
    split
    · refine ih (by omega) after fun r mem => ?_
      obtain rfl := Option.some.inj mem
      cases cur with
      | none => exact le
      | some c => exact after' c rfl
    · exact ih (by omega) (longer_from after after') fun r mem => by cases mem

theorem bestRun_from {g : UInt16} {gs : List UInt16} (some_first : g ≠ 0) :
    ∀ r ∈ bestRun (g :: gs), 1 ≤ r.base := by
  intro r mem
  have mem : r ∈ scanRuns (g :: gs) 0 none none := (Option.filter_eq_some_iff.mp mem).1
  simp only [scanRuns, if_neg some_first] at mem
  exact scanRuns_from (Nat.le_refl 1) (fun r mem => by cases mem) (fun r mem => by cases mem) r mem

/-- The second group begins with a colon, or is left out for one. -/
theorem groupsText_second {run : Option Run} {embeds : Bool} {g : UInt16} {gs : List UInt16}
    (after : ∀ r ∈ run, 1 ≤ r.base) :
    ∃ rest, groupsText run embeds (g :: gs) 1 = ':' :: rest := by
  simp only [groupsText]
  split
  · next inside =>
    cases run with
    | none => cases inside
    | some r =>
      have base : r.base = 1 := by
        have within := Bool.and_eq_true_iff.mp inside
        have le : r.base ≤ 1 := of_decide_eq_true within.1
        have ge : 1 ≤ r.base := after r rfl
        omega
      exact ⟨groupsText (some r) embeds gs 2, by simp [base]⟩
  · exact ⟨_, rfl⟩

/-- A first group that is not zero begins the text, with a colon behind it. -/
theorem text_of_first {a : Ipv6} {g : UInt16} (first : a.groups.head? = some g)
    (some_first : g ≠ 0) : ∃ rest, a.text = hexadecimal g ++ ':' :: rest := by
  obtain ⟨groups, size⟩ := a
  match groups with
  | [] => cases first
  | [_] => cases size
  | g' :: g₁ :: gs =>
    obtain rfl : g' = g := Option.some.inj first
    have after := @bestRun_from _ (g₁ :: gs) some_first
    have outside : (bestRun (g' :: g₁ :: gs)).any (·.contains 0) = false := by
      cases run : bestRun (g' :: g₁ :: gs) with
      | none => rfl
      | some r =>
        have base : 1 ≤ r.base := after r run
        simp [Run.contains]
        omega
    obtain ⟨rest, second⟩ := @groupsText_second _
      (embeds (g' :: g₁ :: gs) (bestRun (g' :: g₁ :: gs))) g₁ gs after
    have whole : groupsText (bestRun (g' :: g₁ :: gs))
        (embeds (g' :: g₁ :: gs) (bestRun (g' :: g₁ :: gs))) (g' :: g₁ :: gs) 0 =
        hexadecimal g' ++ ':' :: rest := by
      rw [← second]
      show (if (bestRun (g' :: g₁ :: gs)).any (·.contains 0) = true then _ else _) = _
      rw [outside, Bool.and_eq_false_iff.mpr (.inr (by decide))]
      rfl
    simp only [Ipv6.text, whole, List.append_assoc, List.cons_append]
    exact ⟨_, rfl⟩

/-- The loopback address. -/
theorem text_of_loopback {a : Ipv6} (loopback : a.loopback = true) : a.text = "::1".toList := by
  have same : a = ⟨[0, 0, 0, 0, 0, 0, 0, 1], rfl⟩ := by
    obtain ⟨groups, size⟩ := a
    obtain rfl : groups = [0, 0, 0, 0, 0, 0, 0, 1] := of_decide_eq_true loopback
    rfl
  rw [same]
  decide

end Inet
