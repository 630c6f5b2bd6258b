import Mathlib.Data.List.Basic

/-!
# Lists linked by hashes

Entries that carry the hash of the entry before them, over any type of entry
and any type of hash. `Linked prev hash k xs` says that the first entry points
at `k` and every later one at its predecessor; `tip` is the hash the next
entry has to point at. What is proved about them is how they cut and join
(`linked_append`), and that a selection of entries that is itself linked has
no gap in it as long as no two entries share a hash (`linked_filter`).
-/

namespace HashChain

variable {α κ : Type*} (prev hash : α → κ)

def Linked : κ → List α → Prop
  | _, [] => True
  | k, x :: xs => prev x = k ∧ Linked (hash x) xs

/-- The hash an entry appended to the list has to point at. -/
def tip : κ → List α → κ
  | k, [] => k
  | _, x :: xs => tip (hash x) xs

variable {prev hash}

theorem tip_concat (k : κ) (xs : List α) (x : α) :
    tip hash k (xs ++ [x]) = hash x := by
  induction xs generalizing k with
  | nil => rfl
  | cons y ys ih => exact ih (hash y)

theorem linked_append {k : κ} {xs ys : List α} :
    Linked prev hash k (xs ++ ys) ↔
      Linked prev hash k xs ∧ Linked prev hash (tip hash k xs) ys := by
  induction xs generalizing k with
  | nil => exact ⟨fun h => ⟨trivial, h⟩, And.right⟩
  | cons x xs ih =>
      rw [List.cons_append, Linked, Linked, tip, ih, and_assoc]

theorem linked_concat {k : κ} {xs : List α} {x : α} :
    Linked prev hash k (xs ++ [x]) ↔
      Linked prev hash k xs ∧ prev x = tip hash k xs := by
  rw [linked_append]
  exact and_congr_right fun _ => and_iff_left trivial

theorem linked_map {β : Type*} {f : β → α} {k : κ} {xs : List β} :
    Linked prev hash k (xs.map f) ↔
      Linked (fun x => prev (f x)) (fun x => hash (f x)) k xs := by
  induction xs generalizing k with
  | nil => rfl
  | cons x xs ih => rw [List.map_cons, Linked, Linked, ih]

/-- Whatever an entry points at is the start of the list or another entry. -/
theorem Linked.prev_mem {k : κ} {xs : List α} (h : Linked prev hash k xs)
    {x : α} (hx : x ∈ xs) : prev x = k ∨ prev x ∈ xs.map hash := by
  induction xs generalizing k with
  | nil => cases hx
  | cons y ys ih =>
      rcases List.mem_cons.mp hx with rfl | hx
      · exact .inl h.1
      · rcases ih h.2 hx with hp | hp
        · exact .inr (hp ▸ List.mem_cons_self)
        · exact .inr (List.mem_cons_of_mem _ hp)

/-- A linked selection that starts where the list starts is a prefix of it. -/
theorem Linked.filter_initial {k : κ} {xs : List α} {p : α → Bool}
    (h : Linked prev hash k xs) (hsel : Linked prev hash k (xs.filter p))
    (hnodup : (xs.map hash).Nodup) (hk : k ∉ xs.map hash) :
    ∃ post, xs = xs.filter p ++ post := by
  induction xs generalizing k with
  | nil => exact ⟨[], rfl⟩
  | cons x xs ih =>
      obtain ⟨hx, hrest⟩ := List.nodup_cons.mp hnodup
      by_cases hp : p x = true
      · rw [List.filter_cons_of_pos hp] at hsel ⊢
        obtain ⟨post, hpost⟩ := ih h.2 hsel.2 hrest hx
        exact ⟨post, by rw [List.cons_append, ← hpost]⟩
      · rw [List.filter_cons_of_neg hp] at hsel ⊢
        cases hsel' : xs.filter p with
        | nil => exact ⟨x :: xs, rfl⟩
        | cons y ys =>
            rw [hsel'] at hsel
            have hy : y ∈ xs :=
              (List.mem_filter.mp (hsel' ▸ List.mem_cons_self)).1
            refine absurd ?_ hk
            rcases h.2.prev_mem hy with hp | hp
            · rw [← hsel.1, hp]
              exact List.mem_cons_self
            · rw [← hsel.1]
              exact List.mem_cons_of_mem _ hp

/-- Entries picked from a linked list, linked again, wherever they start, are
consecutive. -/
theorem Linked.filter_block {k e : κ} {xs : List α} {p : α → Bool}
    (h : Linked prev hash k xs) (hsel : Linked prev hash e (xs.filter p))
    (hnodup : (xs.map hash).Nodup) :
    ∃ pre post, xs = pre ++ (xs.filter p ++ post) := by
  induction xs generalizing k with
  | nil => exact ⟨[], [], rfl⟩
  | cons x xs ih =>
      obtain ⟨hx, hrest⟩ := List.nodup_cons.mp hnodup
      by_cases hp : p x = true
      · rw [List.filter_cons_of_pos hp] at hsel ⊢
        obtain ⟨post, hpost⟩ := h.2.filter_initial hsel.2 hrest hx
        exact ⟨[], post, by rw [List.nil_append, List.cons_append, ← hpost]⟩
      · rw [List.filter_cons_of_neg hp] at hsel ⊢
        obtain ⟨pre, post, hpost⟩ := ih h.2 hsel hrest
        exact ⟨x :: pre, post, by rw [List.cons_append, ← hpost]⟩

/-- A consecutive part of a linked list is linked from wherever its first
entry points. -/
theorem Linked.of_block {k e : κ} {pre mid post : List α}
    (h : Linked prev hash k (pre ++ (mid ++ post)))
    (hhead : ∀ x ∈ mid.head?, prev x = e) : Linked prev hash e mid := by
  have hmid := (linked_append.mp (linked_append.mp h).2).1
  cases mid with
  | nil => trivial
  | cons x xs => exact ⟨hhead x rfl, hmid.2⟩

theorem Linked.head {e : κ} {xs : List α} (h : Linked prev hash e xs) :
    ∀ x ∈ xs.head?, prev x = e := by
  intro x hx
  cases xs with
  | nil => cases hx
  | cons y ys =>
      cases hx
      exact h.1

end HashChain
