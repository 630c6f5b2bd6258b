import Mathlib.Algebra.BigOperators.Group.List.Basic
import Mathlib.Data.List.Basic
import Mathlib.Data.List.Nodup
import Mathlib.Tactic.Common

/-!
# Tables with a primary key

A table is its rows, the newest first, no two with the same key.
Inserting asks for a fresh key, and a row is rewritten by a function that keeps
the keys, so the key constraint needs no proof afterwards: what is left of it is
`eq_of_key` and the two membership rules.
-/

structure Table {κ α : Type} (key : α → κ) where
  rows : List α
  keys : (rows.map key).Nodup

namespace Table

variable {κ α : Type} {key : α → κ}

def empty : Table key := ⟨[], List.nodup_nil⟩

theorem eq_of_key (t : Table key) {a b : α} (ha : a ∈ t.rows) (hb : b ∈ t.rows)
    (h : key a = key b) : a = b :=
  List.inj_on_of_nodup_map t.keys ha hb h

variable [DecidableEq κ]

/-- The row with the key. -/
def get (t : Table key) (k : κ) : Option α := t.rows.find? fun a => key a = k

/-- The table with one more row, if its key is fresh. -/
def insert (t : Table key) (a : α) : Option (Table key) :=
  if fresh : key a ∈ t.rows.map key then none
  else some ⟨a :: t.rows, List.nodup_cons.mpr ⟨fresh, t.keys⟩⟩

/-- All rows are rewritten. -/
def mapRows (t : Table key) (f : α → α) (keeps : ∀ a, key (f a) = key a) : Table key where
  rows := t.rows.map f
  keys := by
    rw [List.map_map, show key ∘ f = key from funext keeps]
    exact t.keys

/-- The rows with the property are gone. -/
def discard (t : Table key) (gone : α → Bool) : Table key where
  rows := t.rows.filter fun a => !gone a
  keys := t.keys.sublist (List.filter_sublist.map key)

/-- The row with the key is rewritten. -/
def modify (t : Table key) (k : κ) (f : α → α) (keeps : ∀ a, key (f a) = key a) :
    Table key where
  rows := t.rows.map fun a => if key a = k then f a else a
  keys := by
    refine (t.mapRows (fun a => if key a = k then f a else a) fun a => ?_).keys
    split
    · exact keeps a
    · rfl

/-- Insert, or rewrite the row that has the key already. -/
def upsert (t : Table key) (a : α) (f : α → α) (keeps : ∀ a, key (f a) = key a) :
    Table key :=
  if fresh : key a ∈ t.rows.map key then t.modify (key a) f keeps
  else ⟨a :: t.rows, List.nodup_cons.mpr ⟨fresh, t.keys⟩⟩

/-- The first row that was inserted, of those still there, is gone. -/
def dropOldest (t : Table key) : Table key where
  rows := t.rows.dropLast
  keys := t.keys.sublist ((List.dropLast_sublist _).map key)

theorem get_mem {t : Table key} {k : κ} {a : α} (h : t.get k = some a) :
    a ∈ t.rows ∧ key a = k :=
  ⟨List.mem_of_find?_eq_some h, of_decide_eq_true (List.find?_some h :)⟩

theorem get_of_mem {t : Table key} {a : α} (h : a ∈ t.rows) : t.get (key a) = some a := by
  cases found : t.get (key a) with
  | none =>
    have absent := List.find?_eq_none.mp found a h
    simp at absent
  | some b =>
    obtain ⟨mem, same⟩ := get_mem found
    rw [t.eq_of_key mem h same]

theorem get_eq_some_iff {t : Table key} {k : κ} {a : α} :
    t.get k = some a ↔ a ∈ t.rows ∧ key a = k := by
  refine ⟨get_mem, ?_⟩
  rintro ⟨mem, rfl⟩
  exact get_of_mem mem

theorem get_mapRows (t : Table key) {f : α → α} (keeps : ∀ a, key (f a) = key a) (k : κ) :
    (t.mapRows f keeps).get k = (t.get k).map f := by
  refine Option.ext fun b => ?_
  rw [get_eq_some_iff, Option.map_eq_some_iff, mapRows, List.mem_map]
  constructor
  · rintro ⟨⟨a, mem, rfl⟩, same⟩
    exact ⟨a, get_eq_some_iff.mpr ⟨mem, (keeps a).symm.trans same⟩, rfl⟩
  · rintro ⟨a, found, rfl⟩
    obtain ⟨mem, same⟩ := get_mem found
    exact ⟨⟨a, mem, rfl⟩, (keeps a).trans same⟩

theorem get_discard (t : Table key) (gone : α → Bool) (k : κ) :
    (t.discard gone).get k = (t.get k).filter fun a => !gone a := by
  refine Option.ext fun a => ?_
  rw [get_eq_some_iff, Option.filter_eq_some_iff, get_eq_some_iff, discard, List.mem_filter]
  exact ⟨fun ⟨⟨mem, stays⟩, same⟩ => ⟨⟨mem, same⟩, stays⟩,
    fun ⟨⟨mem, same⟩, stays⟩ => ⟨⟨mem, stays⟩, same⟩⟩

theorem of_mem_insert {t t' : Table key} {a b : α} (h : t.insert a = some t')
    (hb : b ∈ t'.rows) : b = a ∨ b ∈ t.rows := by
  unfold insert at h
  split at h
  · cases h
  · rw [← Option.some.inj h] at hb
    exact List.mem_cons.mp hb

theorem mem_insert_self {t t' : Table key} {a : α} (h : t.insert a = some t') :
    a ∈ t'.rows := by
  unfold insert at h
  split at h
  · cases h
  · rw [← Option.some.inj h]
    exact List.mem_cons_self

theorem mem_insert_of_mem {t t' : Table key} {a b : α} (h : t.insert a = some t')
    (hb : b ∈ t.rows) : b ∈ t'.rows := by
  unfold insert at h
  split at h
  · cases h
  · rw [← Option.some.inj h]
    exact List.mem_cons_of_mem _ hb

/-- A row of the rewritten table is the new row, or an old one under another key. -/
theorem of_mem_modify {t : Table key} {k : κ} {f : α → α} {a b : α}
    (found : t.get k = some a) (keeps : ∀ a, key (f a) = key a)
    (hb : b ∈ (t.modify k f keeps).rows) : b = f a ∨ (b ∈ t.rows ∧ key b ≠ k) := by
  obtain ⟨mem, at_k⟩ := get_mem found
  obtain ⟨c, hc, rfl⟩ := List.mem_map.mp hb
  split
  · next same =>
    rw [t.eq_of_key hc mem (same.trans at_k.symm)]
    exact .inl rfl
  · next other => exact .inr ⟨hc, other⟩

theorem mem_modify_self {t : Table key} {k : κ} {f : α → α} {a : α}
    (found : t.get k = some a) (keeps : ∀ a, key (f a) = key a) :
    f a ∈ (t.modify k f keeps).rows := by
  obtain ⟨mem, at_k⟩ := get_mem found
  exact List.mem_map.mpr ⟨a, mem, if_pos at_k⟩

theorem mem_modify_of_ne {t : Table key} {k : κ} {f : α → α} {a : α}
    (keeps : ∀ a, key (f a) = key a) (ha : a ∈ t.rows) (other : key a ≠ k) :
    a ∈ (t.modify k f keeps).rows :=
  List.mem_map.mpr ⟨a, ha, if_neg other⟩

theorem get_modify (t : Table key) (k k' : κ) {f : α → α} (keeps : ∀ a, key (f a) = key a) :
    (t.modify k f keeps).get k' = if k' = k then (t.get k').map f else t.get k' := by
  cases found : t.get k' with
  | none =>
    -- no row gets a new key
    have absent : (t.modify k f keeps).get k' = none := by
      refine List.find?_eq_none.mpr fun b hb => ?_
      obtain ⟨a, ha, rfl⟩ := List.mem_map.mp hb
      have other := List.find?_eq_none.mp found a ha
      split
      · rwa [keeps]
      · exact other
    rw [absent, Option.map_none, ite_self]
  | some a =>
    obtain ⟨mem, rfl⟩ := get_mem found
    by_cases same : key a = k
    · subst same
      rw [if_pos rfl, get_eq_some_iff.mpr ⟨mem_modify_self found keeps, keeps a⟩, Option.map_some]
    · rw [if_neg same, get_of_mem (mem_modify_of_ne keeps mem same)]

theorem get_modify_self {t : Table key} {k : κ} {f : α → α} {a : α}
    (found : t.get k = some a) (keeps : ∀ a, key (f a) = key a) :
    (t.modify k f keeps).get k = some (f a) := by
  rw [get_modify, if_pos rfl, found, Option.map_some]

theorem get_insert_self {t t' : Table key} {a : α} (h : t.insert a = some t') :
    t'.get (key a) = some a :=
  get_of_mem (mem_insert_self h)

/-- A row is still found after an insert. -/
theorem get_insert_of_get {t t' : Table key} {a b : α} {k : κ} (h : t.insert a = some t')
    (found : t.get k = some b) : t'.get k = some b := by
  obtain ⟨mem, rfl⟩ := get_mem found
  exact get_of_mem (mem_insert_of_mem h mem)

theorem get_of_insert {t t' : Table key} {a : α} (h : t.insert a = some t') :
    t.get (key a) = none := by
  cases found : t.get (key a) with
  | none => rfl
  | some b =>
    obtain ⟨mem, same⟩ := get_mem found
    unfold insert at h
    split at h
    · cases h
    · next fresh => exact absurd (same ▸ List.mem_map_of_mem mem) fresh

theorem get_insert {t t' : Table key} {a : α} (h : t.insert a = some t') (k : κ) :
    t'.get k = if key a = k then some a else t.get k := by
  split
  · next same => rw [← same, get_insert_self h]
  · next other =>
    refine Option.ext fun b => ?_
    rw [get_eq_some_iff, get_eq_some_iff]
    constructor
    · rintro ⟨mem, same⟩
      rcases of_mem_insert h mem with rfl | old
      · exact absurd same other
      · exact ⟨old, same⟩
    · rintro ⟨old, same⟩
      exact ⟨mem_insert_of_mem h old, same⟩

/-- A fresh key can be inserted. -/
theorem exists_insert {t : Table key} {a : α} (fresh : t.get (key a) = none) :
    ∃ t', t.insert a = some t' := by
  unfold insert
  split
  · next taken =>
    obtain ⟨b, hb, same⟩ := List.mem_map.mp taken
    have found := get_of_mem hb
    rw [same, fresh] at found
    cases found
  · exact ⟨_, rfl⟩

theorem length_upsert_le (t : Table key) (a : α) {f : α → α}
    (keeps : ∀ a, key (f a) = key a) :
    (t.upsert a f keeps).rows.length ≤ t.rows.length + 1 := by
  unfold upsert
  split
  · simp [modify]
  · simp

/-- A row of the table after an upsert is the row that was written, or an old one
under another key. -/
theorem of_mem_upsert {t : Table key} {f : α → α} {a b : α}
    (keeps : ∀ a, key (f a) = key a) (hb : b ∈ (t.upsert a f keeps).rows) :
    (key b = key a ∧ (b = a ∨ ∃ c, b = f c)) ∨ (b ∈ t.rows ∧ key b ≠ key a) := by
  unfold upsert at hb
  split at hb
  · obtain ⟨c, hc, rfl⟩ := List.mem_map.mp hb
    split
    · next same => exact .inl ⟨(keeps c).trans same, .inr ⟨c, rfl⟩⟩
    · next other => exact .inr ⟨hc, other⟩
  · next fresh =>
    rcases List.mem_cons.mp hb with rfl | old
    · exact .inl ⟨rfl, .inl rfl⟩
    · exact .inr ⟨old, fun same => fresh (same ▸ List.mem_map_of_mem old)⟩

/-- An upsert leaves a row with the key. -/
theorem exists_mem_upsert (t : Table key) (a : α) {f : α → α}
    (keeps : ∀ a, key (f a) = key a) :
    ∃ b ∈ (t.upsert a f keeps).rows, key b = key a ∧ (b = a ∨ ∃ c, b = f c) := by
  unfold upsert
  split
  · next taken =>
    obtain ⟨c, hc, same⟩ := List.mem_map.mp taken
    exact ⟨f c, List.mem_map.mpr ⟨c, hc, if_pos same⟩, (keeps c).trans same, .inr ⟨c, rfl⟩⟩
  · exact ⟨a, List.mem_cons_self, rfl, .inl rfl⟩

theorem mem_upsert_of_ne {t : Table key} {f : α → α} {a b : α}
    (keeps : ∀ a, key (f a) = key a) (hb : b ∈ t.rows) (other : key b ≠ key a) :
    b ∈ (t.upsert a f keeps).rows := by
  unfold upsert
  split
  · exact List.mem_map.mpr ⟨b, hb, if_neg other⟩
  · exact List.mem_cons_of_mem _ hb

/-- A row that is written over whatever is there is found under its key. -/
theorem get_upsert_self (t : Table key) {f : α → α} {a : α} (keeps : ∀ a, key (f a) = key a)
    (writes : ∀ c, key c = key a → f c = a) : (t.upsert a f keeps).get (key a) = some a := by
  unfold upsert
  split
  · next taken =>
    obtain ⟨c, mem, same⟩ := List.mem_map.mp taken
    have found : t.get (key a) = some c := by
      rw [← same]
      exact get_of_mem mem
    rw [get_modify_self found, writes c same]
  · rw [get, List.find?_cons_of_pos (by simp)]

/-- Under the key is the new row, or the old one rewritten. -/
theorem get_upsert (t : Table key) {f : α → α} {a : α} (keeps : ∀ a, key (f a) = key a) :
    (t.upsert a f keeps).get (key a) = some (((t.get (key a)).map f).getD a) := by
  unfold upsert
  split
  · next taken =>
    obtain ⟨c, mem, same⟩ := List.mem_map.mp taken
    have found : t.get (key a) = some c := by
      rw [← same]
      exact get_of_mem mem
    rw [get_modify_self found, found, Option.map_some, Option.getD_some]
  · next fresh =>
    have absent : t.get (key a) = none :=
      List.find?_eq_none.mpr fun c mem same =>
        fresh (of_decide_eq_true same ▸ List.mem_map_of_mem mem)
    rw [absent, Option.map_none, Option.getD_none, get, List.find?_cons_of_pos (by simp)]

theorem get_upsert_of_ne (t : Table key) {f : α → α} {a : α} (keeps : ∀ a, key (f a) = key a)
    {k : κ} (other : k ≠ key a) : (t.upsert a f keeps).get k = t.get k := by
  unfold upsert
  split
  · rw [get_modify, if_neg other]
  · rw [get, List.find?_cons_of_neg (by simpa using Ne.symm other)]
    rfl

/-! ## Sums -/

theorem insert_rows {t t' : Table key} {a : α} (h : t.insert a = some t') :
    t'.rows = a :: t.rows := by
  unfold insert at h
  split at h
  · cases h
  · rw [← Option.some.inj h]

variable {β : Type} [AddCommMonoid β]

theorem sum_map_ite {rows : List α} (keys : (rows.map key).Nodup) {a : α} (ha : a ∈ rows)
    (f : α → α) (g : α → β) :
    ((rows.map fun b => if key b = key a then f b else b).map g).sum + g a =
      (rows.map g).sum + g (f a) := by
  induction rows with
  | nil => cases ha
  | cons c rows ih =>
    obtain ⟨fresh, keys⟩ := List.nodup_cons.mp keys
    simp only [List.map_cons, List.sum_cons]
    rcases List.mem_cons.mp ha with rfl | ha
    · -- no other row has the key
      have same : (rows.map fun b => if key b = key a then f b else b) = rows := by
        rw [List.map_congr_left (g := id), List.map_id]
        intro b hb
        exact if_neg fun at_a : key b = key a => fresh (at_a ▸ List.mem_map_of_mem hb)
      rw [if_pos rfl, same]
      ac_rfl
    · have other : key c ≠ key a := fun at_a => fresh (at_a ▸ List.mem_map_of_mem ha)
      rw [if_neg other, add_assoc, ih keys ha, add_assoc]

/-- Rewriting one row changes a sum by what it changes there. -/
theorem sum_modify {t : Table key} {k : κ} {f : α → α} {a : α} (found : t.get k = some a)
    (keeps : ∀ a, key (f a) = key a) (g : α → β) :
    ((t.modify k f keeps).rows.map g).sum + g a = (t.rows.map g).sum + g (f a) := by
  obtain ⟨mem, rfl⟩ := get_mem found
  exact sum_map_ite t.keys mem f g

end Table
