import LegionForge.Lib.Machine

/-!
# Grants and what became of them

A grant gives its value to whoever shows its key, until an instant or for good. A machine
that keeps grants says what it holds under a key, which of its steps issue a grant and which
withdraw one; what it holds may be stored anywhere and may be thrown away once it is over.
The meaning of all that needs no store: a grant is in force if it was issued and not withdrawn
since, and is not over. `Keeps.held_iff` says that a machine whose steps keep four rules
holds, among the grants that are not over, exactly those.
-/

structure Grant (α : Type) where
  value : α
  /-- `none` if it is given for good. -/
  expiresAt : Option Nat
  deriving DecidableEq

/-- The grant is not over. -/
def Grant.isOpen {α : Type} (g : Grant α) (now : Nat) : Bool :=
  match g.expiresAt with
  | none => true
  | some t => now < t

theorem Grant.isOpen_of_le {α : Type} {g : Grant α} {t now : Nat} (earlier : t ≤ now)
    (h : g.isOpen now = true) : g.isOpen t = true := by
  unfold isOpen at h ⊢
  split at h
  · rfl
  · exact decide_eq_true (Nat.lt_of_le_of_lt earlier (of_decide_eq_true h))

theorem Grant.isOpen_some {α : Type} {a : α} {t now : Nat} :
    Grant.isOpen ⟨a, some t⟩ now = true ↔ now < t := by
  simp [isOpen]

/-- What the grant under a key gives. -/
def Grant.shown {α : Type} (now : Nat) (g : Option (Grant α)) : Option α :=
  (g.filter (·.isOpen now)).map (·.value)

theorem Grant.shown_eq_some_iff {α : Type} {now : Nat} {g : Option (Grant α)} {a : α} :
    Grant.shown now g = some a ↔ ∃ h, g = some h ∧ h.isOpen now = true ∧ h.value = a := by
  rw [shown, Option.map_eq_some_iff]
  constructor
  · rintro ⟨h, found, value⟩
    obtain ⟨same, open_⟩ := Option.filter_eq_some_iff.mp found
    exact ⟨h, same, open_, value⟩
  · rintro ⟨h, same, open_, value⟩
    exact ⟨h, Option.filter_eq_some_iff.mpr ⟨same, open_⟩, value⟩

namespace Machine

/-- How grants are kept. -/
structure Keeper (σ ι ε κ α : Type) where
  clock : σ → Nat
  held : σ → κ → Option (Grant α)
  issues : Entry σ ι ε → κ → Grant α → Prop
  withdraws : Entry σ ι ε → κ → Grant α → Prop

variable {σ ι ε κ α : Type}

/-- Issued in the steps so far, and not withdrawn since. -/
def Keeper.Granted (v : Keeper σ ι ε κ α) (past : List (Entry σ ι ε)) (k : κ) (g : Grant α) :
    Prop :=
  Pending (v.issues · k g) (v.withdraws · k g) past

/-- The rules, for steps that are `ok`. -/
structure Keeps (m : Machine σ ι ε) (v : Keeper σ ι ε κ α) (ok : Entry σ ι ε → Prop) : Prop where
  clock : ∀ {x}, m.Steps x → v.clock x.before ≤ v.clock x.after
  issued : ∀ {x k g}, m.Steps x → ok x → v.issues x k g → v.held x.after k = some g
  kept : ∀ {x k g}, m.Steps x → ok x → v.held x.before k = some g → ¬ v.withdraws x k g →
    g.isOpen (v.clock x.after) = true → v.held x.after k = some g
  entered : ∀ {x k g}, m.Steps x → ok x → v.held x.after k = some g →
    v.issues x k g ∨ (v.held x.before k = some g ∧ ¬ v.withdraws x k g)

namespace Keeps

variable {m : Machine σ ι ε} {v : Keeper σ ι ε κ α} {ok : Entry σ ι ε → Prop}

/-- What is held is what was granted, as far as it is not over. -/
def Agrees (v : Keeper σ ι ε κ α) (past : List (Entry σ ι ε)) (s : σ) : Prop :=
  ∀ k g, g.isOpen (v.clock s) = true → (v.held s k = some g ↔ v.Granted past k g)

theorem agrees_step (h : Keeps m v ok) {past : List (Entry σ ι ε)} {x : Entry σ ι ε}
    (step : m.Steps x) (okx : ok x) (agrees : Agrees v past x.before) :
    Agrees v (past ++ [x]) x.after := by
  intro k g open_
  have before := agrees k g (Grant.isOpen_of_le (h.clock step) open_)
  rw [Keeper.Granted, pending_concat_iff, ← Keeper.Granted, ← before]
  constructor
  · exact h.entered step okx
  · intro stands
    rcases stands with new | ⟨old, kept⟩
    · exact h.issued step okx new
    · exact h.kept step okx old kept open_

/-- Before every step of a run, of the grants that are not over, those are held that were
issued and not withdrawn. -/
theorem held_iff (h : Keeps m v ok) {s : σ} {is : List ι} (start : ∀ k, v.held s k = none)
    (oks : ∀ x ∈ m.run s is, ok x) {past later : List (Entry σ ι ε)} {x : Entry σ ι ε}
    (split : m.run s is = past ++ x :: later) {k : κ} {g : Grant α}
    (open_ : g.isOpen (v.clock x.before) = true) :
    v.held x.before k = some g ↔ v.Granted past k g := by
  have first : (∀ y ∈ ([] : List (Entry σ ι ε)), ok y) → Agrees v [] s := by
    intro _ k g _
    rw [start k]
    exact iff_of_false (by simp) not_pending_nil
  have all := history_invariant (m := m)
    (I := fun past s => (∀ y ∈ past, ok y) → Agrees v past s)
    (fun past x step agrees oks =>
      h.agrees_step step (oks x (by simp)) (agrees fun y hy => oks y (by simp [hy])))
    first past x later split
  refine all.2 (fun y hy => oks y ?_) k g open_
  rw [split]
  exact List.mem_append_left _ hy

end Keeps

end Machine
