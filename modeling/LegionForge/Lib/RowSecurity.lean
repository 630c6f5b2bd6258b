import LegionForge.Lib.Table

/-!
# Row-level security

A statement answers from the rows it sees and says what it leaves of them. Under a policy it
sees the rows that pass, and what it leaves has to pass too; the other rows stay. It raises
where a row does not pass or two have one key.

A table under policies that let no row through twice is as many tables: `filter_execute` is
about the rows that pass, `filter_execute_apart` about those that pass elsewhere.
-/

namespace RowSecurity

variable {κ α β : Type} {key : α → κ} [DecidableEq κ]

/-- From the rows that are seen to an answer and the rows that are left -/
abbrev Statement (α β : Type) := List α → β × List α

/-- A statement under a policy; `none` where it raises. -/
def execute (policy : α → Bool) (stmt : Statement α β) (t : Table key) :
    Option (β × Table key) :=
  let (answer, left) := stmt (t.rows.filter policy)
  let rows := left ++ t.rows.filter fun a => !policy a
  if ok : left.all policy = true ∧ (rows.map key).Nodup then some (answer, ⟨rows, ok.2⟩)
  else none

/-- A statement that is under no policy and keeps what the rows are about: rows are rewritten
or go, and others come. -/
def change (f : α → Option α) (new : List α) (t : Table key) : Option (Table key) :=
  let rows := new ++ t.rows.filterMap f
  if ok : (rows.map key).Nodup then some ⟨rows, ok⟩ else none

variable {policy : α → Bool} {stmt : Statement α β} {t t' : Table key} {answer : β}

theorem execute_eq_some (h : execute policy stmt t = some (answer, t')) :
    answer = (stmt (t.rows.filter policy)).1 ∧
      (stmt (t.rows.filter policy)).2.all policy = true ∧
      t'.rows = (stmt (t.rows.filter policy)).2 ++ t.rows.filter fun a => !policy a := by
  simp only [execute] at h
  split at h
  · next ok =>
    cases h
    exact ⟨rfl, ok.1, rfl⟩
  · cases h

/-- The rows that pass are those the statement leaves. -/
theorem filter_execute (h : execute policy stmt t = some (answer, t')) :
    t'.rows.filter policy = (stmt (t.rows.filter policy)).2 := by
  obtain ⟨-, pass, rows⟩ := execute_eq_some h
  have seen : (stmt (t.rows.filter policy)).2.filter policy = (stmt (t.rows.filter policy)).2 :=
    List.filter_eq_self.mpr (List.all_eq_true.mp pass)
  have hidden : (t.rows.filter fun a => !policy a).filter policy = [] := by
    rw [List.filter_filter, List.filter_eq_nil_iff]
    intro a _
    cases policy a <;> decide
  rw [rows, List.filter_append, seen, hidden, List.append_nil]

/-- Rows that pass only another policy stay. -/
theorem filter_execute_apart {other : α → Bool} (h : execute policy stmt t = some (answer, t'))
    (apart : ∀ a, other a = true → policy a = false) :
    t'.rows.filter other = t.rows.filter other := by
  obtain ⟨-, pass, rows⟩ := execute_eq_some h
  have seen : (stmt (t.rows.filter policy)).2.filter other = [] := by
    rw [List.filter_eq_nil_iff]
    intro a ha passes
    have no := apart a passes
    rw [List.all_eq_true.mp pass a ha] at no
    cases no
  have hidden : (t.rows.filter fun a => !policy a).filter other = t.rows.filter other := by
    rw [List.filter_filter]
    refine List.filter_congr fun a _ => ?_
    cases passes : other a with
    | false => rfl
    | true => rw [apart a passes]; rfl
  rw [rows, List.filter_append, seen, hidden, List.nil_append]

/-- A change that keeps what a policy asks acts on the rows that pass by themselves. -/
theorem filter_change {f : α → Option α} {new : List α} {p : α → Bool}
    (h : change f new t = some t') (keeps : ∀ a b, f a = some b → p b = p a) :
    t'.rows.filter p = new.filter p ++ (t.rows.filter p).filterMap f := by
  simp only [change] at h
  split at h
  · cases h
    rw [List.filter_append]
    congr 1
    induction t.rows with
    | nil => rfl
    | cons a rows ih =>
      cases next : f a with
      | none => cases pass : p a <;> simp [next, pass, ih]
      | some b =>
        have same := keeps a b next
        cases pass : p a <;> simp [next, pass, same, ih]
  · cases h

end RowSecurity
