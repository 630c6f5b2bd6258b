import Mathlib.Tactic.Common

/-!
# Counters in a key-value store

Redis as the users of its counters see it. A command comes at an instant and is atomic;
a key is gone from the instant it expires at, and a counter that is not there counts
from zero. `Steady` is how a proof speaks of a counter without the clock: throughout a
stretch of time the key has one value. A command in that stretch gives the key its next
value and leaves the other keys alone. `Texts` are the keys that hold a text instead.
-/

namespace Redis

structure Value where
  number : Int
  expireAt : Option Nat
  deriving DecidableEq

def Value.live (v : Value) (now : Nat) : Bool :=
  match v.expireAt with
  | none => true
  | some t => now < t

/-- Where a counter stands. -/
def count : Option Value → Int
  | none => 0
  | some v => v.number

structure Store (κ : Type) where
  entry : κ → Option Value

namespace Store

variable {κ : Type}

def empty : Store κ := ⟨fun _ => none⟩

/-- The value of a key that has not expired -/
def live (s : Store κ) (now : Nat) (k : κ) : Option Value :=
  (s.entry k).filter (·.live now)

/-- `TTL`: negative without the key, and without an expiry -/
def ttl (s : Store κ) (now : Nat) (k : κ) : Int :=
  match s.live now k with
  | none => -2
  | some v =>
    match v.expireAt with
    | none => -1
    | some t => t - now

theorem live_of_live {s : Store κ} {now : Nat} {k : κ} {v : Value}
    (h : s.live now k = some v) : v.live now = true :=
  (Option.filter_eq_some_iff.mp h).2

variable [DecidableEq κ]

def set (s : Store κ) (k : κ) (v : Value) : Store κ :=
  ⟨fun j => if j = k then some v else s.entry j⟩

/-- `INCRBY`: a counter keeps its expiry. -/
def incrby (s : Store κ) (now : Nat) (k : κ) (n : Int) : Store κ × Int :=
  let old := s.live now k
  let number := count old + n
  (s.set k ⟨number, old.bind (·.expireAt)⟩, number)

/-- `DECRBY` -/
def decrby (s : Store κ) (now : Nat) (k : κ) (n : Int) : Store κ × Int :=
  s.incrby now k (-n)

/-- `EXPIREAT`, which does nothing without the key -/
def expireat (s : Store κ) (now : Nat) (k : κ) (t : Nat) : Store κ :=
  match s.live now k with
  | none => s
  | some v => s.set k { v with expireAt := some t }

/-! ## Commands on a key that has been set -/

section
variable {s : Store κ} {now : Nat} {k : κ} {w : Value} {n : Int}

theorem live_set_self (h : w.live now = true) : (s.set k w).live now k = some w := by
  simp [live, set, h]

theorem live_set_of_ne {j : κ} (other : j ≠ k) : (s.set k w).live now j = s.live now j := by
  simp [live, set, other]

theorem set_set {v : Value} : (s.set k v).set k w = s.set k w := by
  simp only [set, mk.injEq]
  funext j
  split <;> rfl

theorem ttl_set (h : w.live now = true) :
    (s.set k w).ttl now k =
      match w.expireAt with
      | none => -1
      | some t => t - now := by
  rw [ttl, live_set_self h]

theorem incrby_set (h : w.live now = true) :
    (s.set k w).incrby now k n = (s.set k ⟨w.number + n, w.expireAt⟩, w.number + n) := by
  rw [incrby, live_set_self h, set_set]
  rfl

theorem expireat_set {t : Nat} (h : w.live now = true) :
    (s.set k w).expireat now k t = s.set k { w with expireAt := some t } := by
  rw [expireat, live_set_self h]
  exact set_set

end

/-! ## A stretch of time -/

/-- Throughout `P` the key has this value. -/
def Steady (s : Store κ) (P : Nat → Prop) (k : κ) (v : Option Value) : Prop :=
  ∀ now, P now → s.live now k = v

variable {s : Store κ} {P : Nat → Prop} {now : Nat} {j k : κ} {v : Option Value} {n : Int}

theorem steady_set {w : Value} (h : ∀ now, P now → w.live now = true) :
    (s.set k w).Steady P k (some w) :=
  fun now hP => live_set_self (h now hP)

theorem steady_set_of_ne {w : Value} (steady : s.Steady P j v) (other : j ≠ k) :
    (s.set k w).Steady P j v := by
  intro now hP
  rw [live_set_of_ne other]
  exact steady now hP

theorem incrby_snd (steady : s.Steady P k v) (hP : P now) :
    (s.incrby now k n).2 = count v + n := by
  rw [incrby, steady now hP]

theorem steady_incrby (steady : s.Steady P k v) (hP : P now) :
    (s.incrby now k n).1.Steady P k (some ⟨count v + n, v.bind (·.expireAt)⟩) := by
  have lasts : ∀ t, P t → Value.live ⟨count v + n, v.bind (·.expireAt)⟩ t = true := by
    intro t ht
    cases v with
    | none => rfl
    | some w =>
      show w.live t = true
      exact live_of_live (steady t ht)
  rw [incrby, steady now hP]
  exact steady_set lasts

theorem steady_incrby_of_ne (steady : s.Steady P j v) (other : j ≠ k) :
    (s.incrby now k n).1.Steady P j v :=
  steady_set_of_ne steady other

theorem steady_expireat {t : Nat} (steady : s.Steady P k v) (hP : P now)
    (later : ∀ now, P now → now < t) :
    (s.expireat now k t).Steady P k (v.map fun w => { w with expireAt := some t }) := by
  rw [expireat, steady now hP]
  cases v with
  | none => exact steady
  | some w => exact steady_set fun u hu => decide_eq_true (later u hu)

theorem steady_expireat_of_ne {t : Nat} (steady : s.Steady P j v) (other : j ≠ k) :
    (s.expireat now k t).Steady P j v := by
  unfold expireat
  split
  · exact steady
  · exact steady_set_of_ne steady other

theorem count_expireat {t : Nat} :
    count (v.map fun w => { w with expireAt := some t }) = count v := by
  cases v <;> rfl

end Store

/-! ## Texts that expire -/

/-- Keys that hold a text each, until an instant. -/
structure Texts where
  entry : String → Option (String × Nat)

namespace Texts

def empty : Texts := ⟨fun _ => none⟩

/-- `GET` -/
def get (s : Texts) (now : Nat) (k : String) : Option String :=
  ((s.entry k).filter fun e => now < e.2).map (·.1)

/-- `SETEX`, with the instant it expires at -/
def setex (s : Texts) (k : String) (expireAt : Nat) (text : String) : Texts :=
  ⟨fun j => if j = k then some (text, expireAt) else s.entry j⟩

/-- `DEL` -/
def del (s : Texts) (k : String) : Texts := ⟨fun j => if j = k then none else s.entry j⟩

end Texts

end Redis
